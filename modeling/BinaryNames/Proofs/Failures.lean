import BinaryNames.Proofs.Locations
import BinaryNames.Proofs.Tree.Bisection
import Mathlib

/-!
# How Queries Fail

Each query has a few outcomes, and what is asked decides which one it is.  The name of a line fails
when no project owns the file, when the number is outside the text, or when nothing is declared on
the line; the place of a type fails when its name or the line is malformed, when nothing declares
the type, or when a library cannot tell.  A file in which a type was found has been read and has an
absolute path, so nothing else can go wrong with it.
-/

namespace BinaryNames

theorem FileUri.path?_eq_error {text : String} {e : Error} (h : path? text = .error e) :
    e = .malformedInput s!"`{text}` is not a local file URI" := by
  unfold path? at h
  split at h
  · cases h
  · exact (Except.error.inj h).symm
  · cases h

theorem Package.exists_ofFile?_iff {file : Path} {roots : List Path} :
    (∃ package, ofFile? file roots = some package) ↔ ∃ root ∈ roots, file.isUnder root = true := by
  rw [← Option.ne_none_iff_exists', ne_eq, ofFile?_eq_none_iff]
  simp

namespace Query

/-! ## Names -/

/-- No type can be named for a line: the source is too large or not one of Java, or no child of the
root of its declarations meets the line. -/
inductive Unresolvable (file : Path) (source : String) (suggested : Option String) (line : Span) :
    Prop where
  | tooLarge (h : Java.maxSourceSize < source.utf8ByteSize)
  | notJava (h : Java.isJavaFile file = false)
  | undeclared {t : DeclarationTree} (htree : Java.declarations file source suggested = .ok t)
    (h : ∀ c ∈ t.childIds 0, ∀ k, line.offset ≤ k → k ≤ line.stop → t.covers k c = false)

theorem nameOnLine?_eq_none_iff {file : Path} {source package : String} {line : Int} {span : Span}
    (hspan : (Lines.ofText source).span line = .ok span) :
    nameOnLine? file source package span = none ↔
      Unresolvable file source (some package) span := by
  unfold nameOnLine?
  cases htree : Java.declarations file source (some package) with
  | error e =>
    refine iff_of_true rfl ?_
    by_cases hsize : source.utf8ByteSize ≤ Java.maxSourceSize
    · apply Unresolvable.notJava
      by_contra hjava
      have hok : ∃ t, Java.declarations file source (some package) = .ok t :=
        ⟨_, Java.declarations_eq_ok_iff.2 ⟨hsize, Bool.eq_true_of_not_eq_false hjava, rfl⟩⟩
      simp [htree] at hok
    · exact .tooLarge (Nat.lt_of_not_le hsize)
  | ok t =>
    obtain ⟨hsize, hjava, rfl⟩ := Java.declarations_eq_ok_iff.1 htree
    have hlinked := (Java.rooted_declarations (.ofSource source) source.utf8ByteSize
      (some package)).toLinked
    have hmax : source.toUTF8.size ≤ maxOffset := hsize.trans (by decide)
    have hle : span.offset ≤ span.stop := (Lines.isLine_of_span hmax hspan).offset_le
    -- the search over the line misses nothing, so it fails only if no child is met
    rw [Option.map_eq_none_iff, ← Option.not_isSome_iff_eq_none, hlinked.find?_isSome_iff,
      max_eq_right hle]
    constructor
    · intro hnone
      refine .undeclared htree fun c hc k hlower hupper ↦ ?_
      by_contra hcovers
      exact hnone ⟨c, hc, k, hlower, hupper, Bool.eq_true_of_not_eq_false hcovers⟩
    · rintro hunresolvable ⟨c, hc, k, hlower, hupper, hcovers⟩
      cases hunresolvable with
      | tooLarge h => exact absurd hsize (Nat.not_le.2 h)
      | notJava h =>
        rw [hjava] at h
        cases h
      | undeclared htree' h =>
        obtain rfl := Except.ok.inj (htree.symm.trans htree')
        rw [h c hc k hlower hupper] at hcovers
        cases hcovers

/-- The input is the URI of a file with a text, under a source root of the project that owns it. -/
structure OwnedSource (s : Snapshot) (w : Workspace) (input : String) (file : Path)
    (owner : Project) (source : String) : Prop where
  denotes : FileUri.path? input = .ok (some file)
  owned : w.projectFor? file = some owner
  under : ∃ root ∈ owner.sourceRoots, file.isUnder root = true
  text : s.readText file = .ok source

/-- What the line decides: it is outside the text, nothing is declared on it, or it has a name. -/
theorem OwnedSource.outcome {s : Snapshot} {w : Workspace} {input : String} {file : Path}
    {owner : Project} {source : String} (h : OwnedSource s w input file owner source) (line : Int) :
    (¬(1 ≤ line ∧ line ≤ (Lines.ofText source).count) ∧
      nameAt s w input line =
        .error (.malformedInput s!"line {line} is outside 1..={(Lines.ofText source).count}")) ∨
    ∃ span, (Lines.ofText source).span line = .ok span ∧
      ((Unresolvable file source (Package.ofFile? file owner.sourceRoots) span ∧
          nameAt s w input line = .error (.locationNotResolvable file line)) ∨
        (¬Unresolvable file source (Package.ofFile? file owner.sourceRoots) span ∧
          ∃ answer, nameAt s w input line = .ok answer)) := by
  obtain ⟨package, hpackage⟩ := Package.exists_ofFile?_iff.2 h.under
  cases hspan : (Lines.ofText source).span line with
  | error e =>
    obtain ⟨houtside, rfl⟩ := Lines.span_eq_error_iff.1 hspan
    refine Or.inl ⟨houtside, ?_⟩
    rw [nameAt, h.denotes]
    simp only [bind, Except.bind, Workspace.projectFor, h.owned, hpackage, h.text, hspan]
  | ok span =>
    refine Or.inr ⟨span, rfl, ?_⟩
    rw [nameAt_of_root h.denotes h.owned hpackage h.text hspan, hpackage,
      ← nameOnLine?_eq_none_iff hspan]
    cases nameOnLine? file source package span with
    | none => exact Or.inl ⟨rfl, rfl⟩
    | some answer => exact Or.inr ⟨Option.some_ne_none answer, answer, rfl⟩

theorem kind_of_nameAt {s : Snapshot} {w : Workspace} {input : String} {line : Int} {e : Error}
    (h : nameAt s w input line = .error e) : (∃ file, e = .projectNotFound file) ∨
      (∃ reason, e = .malformedInput reason) ∨ ∃ file, e = .locationNotResolvable file line := by
  cases hfile : FileUri.path? input with
  | error e' =>
    rw [nameAt, hfile] at h
    obtain rfl := Except.error.inj h
    exact Or.inr (Or.inl ⟨_, FileUri.path?_eq_error hfile⟩)
  | ok file? =>
    cases file? with
    | none =>
      rw [nameAt, hfile] at h
      cases h
    | some file =>
      cases howner : w.projectFor? file with
      | none =>
        rw [nameAt_of_no_owner hfile howner] at h
        exact Or.inl ⟨_, (Except.error.inj h).symm⟩
      | some owner =>
        cases hpackage : Package.ofFile? file owner.sourceRoots with
        | none =>
          rw [nameAt_of_no_root hfile howner hpackage] at h
          cases h
        | some package =>
          cases hread : s.readText file with
          | error fault =>
            rw [nameAt, hfile] at h
            simp only [bind, Except.bind, Workspace.projectFor, howner, hpackage, hread] at h
            exact Or.inr (Or.inr ⟨file, (Except.error.inj h).symm⟩)
          | ok source =>
            have howned : OwnedSource s w input file owner source :=
              ⟨hfile, howner, Package.exists_ofFile?_iff.1 ⟨package, hpackage⟩, hread⟩
            rcases howned.outcome line with ⟨-, heq⟩ | ⟨-, -, ⟨-, heq⟩ | ⟨-, answer, heq⟩⟩
            · rw [heq] at h
              exact Or.inr (Or.inl ⟨_, (Except.error.inj h).symm⟩)
            · rw [heq] at h
              exact Or.inr (Or.inr ⟨file, (Except.error.inj h).symm⟩)
            · rw [heq] at h
              cases h

/-- How the name query fails.  In a text that is under a source root of the project that owns its
file, the line decides. -/
structure NameFailures (s : Snapshot) (w : Workspace) (input : String) (line : Int) : Prop where
  kinds : ∀ e, nameAt s w input line = .error e → (∃ file, e = .projectNotFound file) ∨
    (∃ reason, e = .malformedInput reason) ∨ ∃ file, e = .locationNotResolvable file line
  malformed_iff : ∀ file owner source, OwnedSource s w input file owner source →
    ((∃ reason, nameAt s w input line = .error (.malformedInput reason)) ↔
      ¬(1 ≤ line ∧ line ≤ (Lines.ofText source).count))
  unresolvable_iff : ∀ file owner source, OwnedSource s w input file owner source →
    1 ≤ line → line ≤ (Lines.ofText source).count →
    ∃ span, (Lines.ofText source).span line = .ok span ∧
      (nameAt s w input line = .error (.locationNotResolvable file line) ↔
        Unresolvable file source (Package.ofFile? file owner.sourceRoots) span) ∧
      (¬Unresolvable file source (Package.ofFile? file owner.sourceRoots) span →
        ∃ answer, nameAt s w input line = .ok answer)

theorem nameFailures (s : Snapshot) (w : Workspace) (input : String) (line : Int) :
    NameFailures s w input line where
  kinds _ := kind_of_nameAt
  malformed_iff := by
    intro file owner source howned
    rcases howned.outcome line with ⟨houtside, heq⟩ | ⟨span, hspan, houtcome⟩
    · exact iff_of_true ⟨_, heq⟩ houtside
    · refine iff_of_false ?_ (not_not_intro (Lines.inside_of_span hspan))
      rcases houtcome with ⟨-, heq⟩ | ⟨-, answer, heq⟩
      · simp [heq]
      · simp [heq]
  unresolvable_iff := by
    intro file owner source howned hpos hle
    rcases howned.outcome line with ⟨houtside, -⟩ | ⟨span, hspan, houtcome⟩
    · exact absurd ⟨hpos, hle⟩ houtside
    · refine ⟨span, hspan, ?_⟩
      rcases houtcome with ⟨hunresolvable, heq⟩ | ⟨hresolvable, answer, heq⟩
      · exact ⟨iff_of_true heq hunresolvable, fun hnot ↦ absurd hunresolvable hnot⟩
      · exact ⟨iff_of_false (by simp [heq]) hresolvable, fun _ ↦ ⟨answer, heq⟩⟩

end Query

/-! ## Places -/

namespace TypeSearch

variable {s : Snapshot} {t : TypeName}

/-- A library that does not answer has an archive that cannot be read. -/
theorem archiveUnreadable_of_libraryDeclares {l : Library} {topLevel : String} {e : Error}
    (h : libraryDeclares s l topLevel = .error e) :
    ∃ archive reason, e = .archiveUnreadable archive reason := by
  unfold libraryDeclares at h
  split at h
  · cases h
  · split at h
    · cases h
    · next archive _ =>
      unfold archiveDeclares at h
      dsimp only at h
      split at h
      · exact ⟨archive, _, (Except.error.inj h).symm⟩
      · exact ⟨archive, _, (Except.error.inj h).symm⟩
      · split at h
        · exact ⟨archive, _, (Except.error.inj h).symm⟩
        · cases h

theorem exists_of_firstError? {libraries : List Library} {e : Error}
    (h : firstError? (libraryAnswers s t libraries) = some e) :
    ∃ l ∈ libraries, libraryDeclares s l t.qualified = .error e := by
  obtain ⟨⟨l, answer⟩, hmem, heq⟩ := List.exists_of_findSome?_eq_some h
  obtain ⟨l', hl', hpair⟩ := List.mem_map.1 hmem
  obtain ⟨rfl, rfl⟩ := Prod.mk.inj hpair
  refine ⟨l', hl', ?_⟩
  dsimp only at heq
  split at heq
  · next e' he' => rw [he', Option.some.inj heq]
  · cases heq

theorem firstError?_eq_none_iff {libraries : List Library} :
    firstError? (libraryAnswers s t libraries) = none ↔
      ∀ l ∈ libraries, answers s t.qualified l = true := by
  constructor
  · intro hnone l hl
    by_contra hnot
    unfold answers at hnot
    cases hanswer : libraryDeclares s l t.qualified with
    | ok found => simp [hanswer, Except.isOk, Except.toBool] at hnot
    | error e =>
      rw [firstError?, List.findSome?_eq_none_iff] at hnone
      have := hnone (l, libraryDeclares s l t.qualified) (List.mem_map.2 ⟨l, hl, rfl⟩)
      simp [hanswer] at this
  · exact firstError?_eq_none

/-- What is found under an absolute source root has an absolute path, whatever the directory
calls it. -/
theorem isAbsolute_of_mem_filesUnder {name : String} (hname : TypeName.ofBinaryName name = .ok t)
    {names : List (List UInt8)} (hnames : ∀ b ∈ names, Path.IsFileName b) {file : Path}
    (h : file ∈ filesUnder s t (.fromRoot names)) : file.isAbsolute = true := by
  obtain ⟨dirs, hpackage, hdirs, hsimple⟩ := TypeName.exists_of_ofBinaryName hname
  have hexpected := Package.expectedFile_fromRoot hdirs hsimple hnames
  rw [← hpackage] at hexpected
  have hall := Package.isFileName_below hdirs hnames (Package.isFileName_java hsimple)
  unfold filesUnder at h
  dsimp only at h
  rw [hexpected] at h
  split at h
  · rw [List.mem_singleton.1 h]
    exact Path.isAbsolute_fromRoot _
  · obtain ⟨x, -, rfl⟩ := List.mem_map.1 (List.mem_of_mem_filter (List.mem_of_mem_filter h))
    apply Path.isAbsolute_join
    rw [directoryOf_of_components (Path.components_fromRoot hall)]
    exact Path.isAbsolute_fromRoot _

end TypeSearch

namespace Query

variable {s : Snapshot} {w : Workspace} {name : String} {file : Path}

theorem exists_locatedIn_of_places {t : TypeName} (hname : TypeName.ofBinaryName name = .ok t)
    {project topLevel : String}
    (h : .source file project topLevel ∈ TypeSearch.places s t w) :
    ∃ project root, LocatedIn s w name file project root := by
  rw [TypeSearch.places, ← TypeSearch.sourceHandles_eq_flatMap,
    ← TypeSearch.binaryHandles_libraryAnswers] at h
  exact exists_locatedIn_of_mem hname h

namespace LocatedIn

variable {project : Project} {root : Path} (h : LocatedIn s w name file project root)
include h

theorem exists_text : ∃ source, s.readText file = .ok source := by
  obtain ⟨t, -, hfile⟩ := h.found
  obtain ⟨source, hread, -⟩ :=
    TypeSearch.fileDeclares_iff.1 (TypeSearch.fileDeclares_of_mem_filesUnder hfile)
  exact ⟨source, hread⟩

theorem ofPath?_eq {text : String} {base : Path} (hw : Workspace.ofToml text base = .ok w)
    (hbase : base.isAbsolute = true) : FileUri.ofPath? file = .ok (FileUri.ofPath file) := by
  obtain ⟨t, hname, hfile⟩ := h.found
  obtain ⟨names, rfl, hnames⟩ :=
    Workspace.sourceRoot_eq_fromRoot hw hbase h.project_mem h.root_mem
  exact FileUri.ofPath?_of_isAbsolute
    (TypeSearch.isAbsolute_of_mem_filesUnder hname hnames hfile)

end LocatedIn

/-- The outcomes of the location query. -/
inductive LocationOutcome (s : Snapshot) (w : Workspace) (name : String) (line : Int) :
    Except Error Location → Prop where
  | noName (h : TypeName.ofBinaryName? name = none) :
    LocationOutcome s w name line
      (.error (.malformedInput s!"`{name}` is not a binary class name"))
  | notFound {t : TypeName} (hname : TypeName.ofBinaryName? name = some t)
    (hplaces : TypeSearch.places s t w = [])
    (h : ∀ l ∈ w.libraries, TypeSearch.answers s t.qualified l = true) :
    LocationOutcome s w name line (.error (.typeNotFound name))
  | unreadable {t : TypeName} {l : Library} {archive : Path} {reason : String}
    (hname : TypeName.ofBinaryName? name = some t) (hplaces : TypeSearch.places s t w = [])
    (hl : l ∈ w.libraries) (h : TypeSearch.answers s t.qualified l = false) :
    LocationOutcome s w name line (.error (.archiveUnreadable archive reason))
  | library {t : TypeName} {id topLevel : String} {rest : List TypeHandle} {location : Location}
    (hname : TypeName.ofBinaryName? name = some t)
    (h : TypeSearch.places s t w = .binary id topLevel :: rest) :
    LocationOutcome s w name line (.ok location)
  | offText {t : TypeName} {file : Path} {project topLevel : String} {rest : List TypeHandle}
    {source : String} (hname : TypeName.ofBinaryName? name = some t)
    (hplaces : TypeSearch.places s t w = .source file project topLevel :: rest)
    (hread : s.readText file = .ok source) (h : ¬(1 ≤ line ∧ line ≤ (Lines.ofText source).count)) :
    LocationOutcome s w name line
      (.error (.malformedInput s!"line {line} is outside 1..={(Lines.ofText source).count}"))
  | source {t : TypeName} {file : Path} {project topLevel : String} {rest : List TypeHandle}
    {source : String} {location : Location} (hname : TypeName.ofBinaryName? name = some t)
    (hplaces : TypeSearch.places s t w = .source file project topLevel :: rest)
    (hread : s.readText file = .ok source) (h : 1 ≤ line ∧ line ≤ (Lines.ofText source).count) :
    LocationOutcome s w name line (.ok location)

theorem locationOutcome {text : String} {base : Path} (hw : Workspace.ofToml text base = .ok w)
    (hbase : base.isAbsolute = true) (s : Snapshot) (name : String) (line : Int) :
    LocationOutcome s w name line (locationOf s w false name line) := by
  cases hname : TypeName.ofBinaryName? name with
  | none =>
    have herror : TypeName.ofBinaryName name =
        .error (.malformedInput s!"`{name}` is not a binary class name") := by
      rw [TypeName.ofBinaryName, hname]
    have heq : locationOf s w false name line =
        .error (.malformedInput s!"`{name}` is not a binary class name") := by
      rw [locationOf, TypeSearch.find, TypeSearch.search, herror]
      rfl
    rw [heq]
    exact .noName hname
  | some t =>
    have hok := TypeName.ofBinaryName_eq_ok_iff.2 hname
    have hfind : TypeSearch.find s w false name = _ := TypeSearch.find_eq hok
    rw [locationOf, hfind]
    cases hplaces : TypeSearch.places s t w with
    | nil =>
      cases hfirst : TypeSearch.firstError? (TypeSearch.libraryAnswers s t w.libraries) with
      | none => exact .notFound hname hplaces (TypeSearch.firstError?_eq_none_iff.1 hfirst)
      | some e =>
        obtain ⟨l, hl, he⟩ := TypeSearch.exists_of_firstError? hfirst
        obtain ⟨archive, reason, rfl⟩ := TypeSearch.archiveUnreadable_of_libraryDeclares he
        refine .unreadable hname hplaces hl ?_
        rw [TypeSearch.answers, he]
        rfl
    | cons first rest =>
      cases first with
      | binary id topLevel => exact .library hname hplaces
      | source file project topLevel =>
        obtain ⟨project', root, hlocated⟩ :=
          exists_locatedIn_of_places hok (hplaces ▸ List.mem_cons_self)
        -- the search has read the file already, under a root that is absolute
        obtain ⟨source, hread⟩ := hlocated.exists_text
        have huri := hlocated.ofPath?_eq hw hbase
        simp only [bind, Except.bind, locationIn, hread, huri]
        cases hspan : (Lines.ofText source).span line with
        | error e =>
          obtain ⟨houtside, rfl⟩ := Lines.span_eq_error_iff.1 hspan
          exact .offText hname hplaces hread houtside
        | ok span => exact .source hname hplaces hread (Lines.inside_of_span hspan)

section Locations

variable {text : String} {base : Path} (hw : Workspace.ofToml text base = .ok w)
  (hbase : base.isAbsolute = true) {line : Int}
include hw hbase

theorem kind_of_locationOf {e : Error} (h : locationOf s w false name line = .error e) :
    (∃ reason, e = .malformedInput reason) ∨ e = .typeNotFound name ∨
      ∃ archive reason, e = .archiveUnreadable archive reason := by
  have houtcome := locationOutcome hw hbase s name line
  rw [h] at houtcome
  cases houtcome with
  | noName | offText => exact Or.inl ⟨_, rfl⟩
  | notFound => exact Or.inr (Or.inl rfl)
  | unreadable => exact Or.inr (Or.inr ⟨_, _, rfl⟩)

theorem locationOf_malformed_iff {reason : String} :
    locationOf s w false name line = .error (.malformedInput reason) ↔
      (TypeName.ofBinaryName? name = none ∧ reason = s!"`{name}` is not a binary class name") ∨
      ∃ t file project topLevel rest source, TypeName.ofBinaryName? name = some t ∧
        TypeSearch.places s t w = .source file project topLevel :: rest ∧
        s.readText file = .ok source ∧ ¬(1 ≤ line ∧ line ≤ (Lines.ofText source).count) ∧
        reason = s!"line {line} is outside 1..={(Lines.ofText source).count}" := by
  have houtcome := locationOutcome hw hbase s name line
  generalize locationOf s w false name line = result at houtcome ⊢
  cases houtcome with
  | noName hname => simp [hname, eq_comm]
  | notFound hname hplaces | unreadable hname hplaces | library hname hplaces =>
    simp [hname, hplaces]
  | offText hname hplaces hread h => simp [hname, hplaces, hread, h, eq_comm, -not_and]
  | source hname hplaces hread h => simp [hname, hplaces, hread, h]

theorem locationOf_notFound_iff : locationOf s w false name line = .error (.typeNotFound name) ↔
    ∃ t, TypeName.ofBinaryName? name = some t ∧ TypeSearch.places s t w = [] ∧
      ∀ l ∈ w.libraries, TypeSearch.answers s t.qualified l = true := by
  have houtcome := locationOutcome hw hbase s name line
  generalize locationOf s w false name line = result at houtcome ⊢
  cases houtcome with
  | noName hname => simp [hname]
  | notFound hname hplaces h => simpa [hname, hplaces] using h
  | unreadable hname hplaces hl h => simpa [hname, hplaces] using ⟨_, hl, h⟩
  | library hname hplaces | offText hname hplaces | source hname hplaces => simp [hname, hplaces]

theorem locationOf_unreadable_iff :
    (∃ archive reason,
        locationOf s w false name line = .error (.archiveUnreadable archive reason)) ↔
      ∃ t, TypeName.ofBinaryName? name = some t ∧ TypeSearch.places s t w = [] ∧
        ∃ l ∈ w.libraries, TypeSearch.answers s t.qualified l = false := by
  have houtcome := locationOutcome hw hbase s name line
  generalize locationOf s w false name line = result at houtcome ⊢
  cases houtcome with
  | noName hname => simp [hname]
  | notFound hname hplaces h => simpa [hname, hplaces] using h
  | unreadable hname hplaces hl h => simpa [hname, hplaces] using ⟨_, hl, h⟩
  | library hname hplaces | offText hname hplaces | source hname hplaces => simp [hname, hplaces]

end Locations

/-! ## Both queries -/

/-- How the location query fails.  A file that is found first can be read and has a URI, so that
nothing is wrong with it but the line. -/
structure LocationFailures (s : Snapshot) (w : Workspace) (name : String) (line : Int) : Prop where
  kinds : ∀ e, locationOf s w false name line = .error e → (∃ reason, e = .malformedInput reason) ∨
    e = .typeNotFound name ∨ ∃ archive reason, e = .archiveUnreadable archive reason
  malformed_iff : ∀ reason, locationOf s w false name line = .error (.malformedInput reason) ↔
    (TypeName.ofBinaryName? name = none ∧ reason = s!"`{name}` is not a binary class name") ∨
    ∃ t file project topLevel rest source, TypeName.ofBinaryName? name = some t ∧
      TypeSearch.places s t w = .source file project topLevel :: rest ∧
      s.readText file = .ok source ∧ ¬(1 ≤ line ∧ line ≤ (Lines.ofText source).count) ∧
      reason = s!"line {line} is outside 1..={(Lines.ofText source).count}"
  notFound_iff : locationOf s w false name line = .error (.typeNotFound name) ↔
    ∃ t, TypeName.ofBinaryName? name = some t ∧ TypeSearch.places s t w = [] ∧
      ∀ l ∈ w.libraries, TypeSearch.answers s t.qualified l = true
  unreadable_iff : (∃ archive reason,
      locationOf s w false name line = .error (.archiveUnreadable archive reason)) ↔
    ∃ t, TypeName.ofBinaryName? name = some t ∧ TypeSearch.places s t w = [] ∧
      ∃ l ∈ w.libraries, TypeSearch.answers s t.qualified l = false
  first_source : ∀ t file project topLevel rest, TypeName.ofBinaryName? name = some t →
    TypeSearch.places s t w = .source file project topLevel :: rest →
    (∃ source, s.readText file = .ok source) ∧ ∃ uri, FileUri.ofPath? file = .ok uri

/-- In a workspace that a file over an absolute base describes, the two queries fail exactly so. -/
theorem queries_fail_exactly {text : String} {base : Path}
    (hw : Workspace.ofToml text base = .ok w) (hbase : base.isAbsolute = true) (s : Snapshot)
    (input name : String) (line : Int) :
    NameFailures s w input line ∧ LocationFailures s w name line := by
  refine ⟨nameFailures s w input line, ?_⟩
  exact {
    kinds := fun e ↦ kind_of_locationOf hw hbase
    malformed_iff := fun reason ↦ locationOf_malformed_iff hw hbase
    notFound_iff := locationOf_notFound_iff hw hbase
    unreadable_iff := locationOf_unreadable_iff hw hbase
    first_source := by
      intro t file project topLevel rest hname hplaces
      obtain ⟨project', root, hlocated⟩ := exists_locatedIn_of_places
        (TypeName.ofBinaryName_eq_ok_iff.2 hname) (hplaces ▸ List.mem_cons_self)
      exact ⟨hlocated.exists_text, _, hlocated.ofPath?_eq hw hbase⟩ }

theorem ownedSource_packaged :
    OwnedSource packagedSnapshot packagedWorkspace "file:///w/s/p/A.java"
      (.ofString "/w/s/p/A.java") ⟨"q", .ofString "/w", [.ofString "/w/s"]⟩ packagedSource where
  denotes := by cbv
  owned := by cbv
  under := ⟨_, List.mem_singleton_self _, by cbv⟩
  text := readText_packaged

/-- The only type starts after the first line. -/
theorem unresolvable_packaged :
    Unresolvable (.ofString "/w/s/p/A.java") packagedSource (some "p") ⟨0, 10⟩ := by
  refine .undeclared declarations_packaged fun c hc k _ hupper ↦ ?_
  have hchildren : (packagedOutline.declarations 21 (some "p")).childIds 0 = [1] := by cbv
  have hspan : (packagedOutline.declarations 21 (some "p")).spanAt 1 = ⟨12, 9⟩ := by cbv
  have hstop : (Span.mk 0 10).stop = 10 := by decide
  rw [hchildren, List.mem_singleton] at hc
  subst hc
  by_contra hcovers
  have hoffset := ((DeclarationTree.covers_iff _ k 1).1 (Bool.eq_true_of_not_eq_false hcovers)).2.1
  rw [hspan] at hoffset
  have : 12 ≤ k := hoffset
  omega

theorem places_packaged_none :
    TypeSearch.places packagedSnapshot ⟨"x", "C"⟩ packagedWorkspace = [] ∧
      ∀ l ∈ packagedWorkspace.libraries,
        TypeSearch.answers packagedSnapshot (TypeName.qualified ⟨"x", "C"⟩) l = true := by
  have hnofile : packagedSnapshot.isFile
      (TypeSearch.expectedFile ⟨"x", "C"⟩ (.ofString "/w/s")) = false := by cbv
  have hothers : TypeSearch.otherFiles packagedSnapshot
      (TypeSearch.expectedFile ⟨"x", "C"⟩ (.ofString "/w/s")) = [] := by cbv
  have hfiles : TypeSearch.filesUnder packagedSnapshot ⟨"x", "C"⟩ (.ofString "/w/s") = [] := by
    rw [TypeSearch.filesUnder, hnofile, hothers]
    rfl
  have houter : TypeName.outerName "p.B$C" = "p.B" := by rfl
  have hqualified : TypeName.qualified ⟨"x", "C"⟩ = "x.C" := by rfl
  rw [places_packaged, hfiles, hqualified]
  constructor
  · simp [packagedWorkspace, TypeSearch.affirms, TypeSearch.libraryDeclares, houter,
      Except.toOption]
  · simp [packagedWorkspace, TypeSearch.answers, TypeSearch.libraryDeclares, houter, Except.isOk,
      Except.toBool]

/-- The text has two lines, with a type on the second one. -/
theorem queries_fail_exactly_packaged :
    OwnedSource packagedSnapshot packagedWorkspace "file:///w/s/p/A.java"
        (.ofString "/w/s/p/A.java") ⟨"q", .ofString "/w", [.ofString "/w/s"]⟩ packagedSource ∧
      nameAt packagedSnapshot packagedWorkspace "file:///w/s/p/A.java" 1 =
        .error (.locationNotResolvable (.ofString "/w/s/p/A.java") 1) ∧
      (∃ reason, nameAt packagedSnapshot packagedWorkspace "file:///w/s/p/A.java" 3 =
        .error (.malformedInput reason)) ∧
      locationOf packagedSnapshot packagedWorkspace false "p.A" 3 =
        .error (.malformedInput "line 3 is outside 1..=2") ∧
      locationOf packagedSnapshot packagedWorkspace false "x.C" 3 =
        .error (.typeNotFound "x.C") := by
  have hbase : (Path.ofString "/w").isAbsolute = true := by decide
  have hfails (name : String) (line : Int) := queries_fail_exactly ofToml_packagedWorkspace hbase
    packagedSnapshot "file:///w/s/p/A.java" name line
  have howned := ownedSource_packaged
  have hcount : (Lines.ofText packagedSource).count = 2 := by cbv
  have hpackage : Package.ofFile? (.ofString "/w/s/p/A.java") [.ofString "/w/s"] = some "p" := by
    cbv
  refine ⟨howned, ?_, ?_, ?_, ?_⟩
  · obtain ⟨span, hspan, hiff, -⟩ := (hfails "p.A" 1).1.unresolvable_iff _ _ _ howned
      (by decide) (by rw [hcount]; decide)
    have hfirst : (Lines.ofText packagedSource).span 1 = .ok ⟨0, 10⟩ := by cbv
    obtain rfl := Except.ok.inj (hfirst.symm.trans hspan)
    rw [hiff, hpackage]
    exact unresolvable_packaged
  · rw [(hfails "p.A" 3).1.malformed_iff _ _ _ howned, hcount]
    decide
  · refine ((hfails "p.A" 3).2.malformed_iff _).2 (Or.inr ?_)
    refine ⟨⟨"p", "A"⟩, _, _, _, _, _, by decide +kernel, places_packagedSource, readText_packaged,
      ?_, ?_⟩
    · rw [hcount]
      decide
    · rw [hcount]
      rfl
  · exact (hfails "x.C" 3).2.notFound_iff.2 ⟨⟨"x", "C"⟩, by decide +kernel, places_packaged_none⟩

end Query

end BinaryNames
