import BinaryNames.Proofs.Naming.Characters
import BinaryNames.Proofs.RoundTrip
import Mathlib

/-!
# Who Owns a Located File

A type is located through the source roots of every project, but a name is read off a file through
the one project whose root is deepest around it.  The two agree on a file when that project has a
source root around the file.  Otherwise the file has no owner, or its owner does not know it: a
project may have source roots outside its own root, and several projects may have the same root.
-/

namespace BinaryNames

/-! ## Names of types -/

/-- The segments between the dots of a name are the package and, last, the simple name. -/
theorem TypeName.exists_segments_of_ofBinaryName {name : String} {t : TypeName}
    (h : ofBinaryName name = .ok t) :
    ∃ segments last, (∀ s ∈ segments ++ [last], isIdentifier s = true) ∧
      joinWith '.' (segments ++ [last]) = (trimBlanks name.toList).takeWhile (· ≠ '$') ∧
      t = ⟨.ofList (joinWith '.' segments), .ofList last⟩ :=
  ofBinaryName?_eq_some_iff.1 (ofBinaryName_eq_ok_iff.1 h)

/-- The name of a type spells its package and its simple name with identifiers. -/
theorem TypeName.exists_of_ofBinaryName {name : String} {t : TypeName}
    (h : ofBinaryName name = .ok t) :
    ∃ dirs : List String, t.package = String.intercalate "." dirs ∧
      (∀ d ∈ dirs, isIdentifier d.toList = true) ∧ isIdentifier t.simpleName.toList = true := by
  obtain ⟨segments, last, hall, -, rfl⟩ := exists_segments_of_ofBinaryName h
  rw [List.forall_mem_append, List.forall_mem_singleton] at hall
  refine ⟨segments.map String.ofList, ?_, ?_, ?_⟩
  · simp [Package.intercalate_dot, Function.comp_def]
  · intro d hd
    obtain ⟨s, hs, rfl⟩ := List.mem_map.1 hd
    rw [String.toList_ofList]
    exact hall.1 s hs
  · rw [String.toList_ofList]
    exact hall.2

theorem TypeName.slash_notMem_qualified {name : String} {t : TypeName}
    (h : ofBinaryName name = .ok t) : '/' ∉ t.qualified.toList := by
  obtain ⟨dirs, hpackage, hdirs, hsimple⟩ := exists_of_ofBinaryName h
  have hslash : '/' ∉ t.package.toList := by
    rw [hpackage, Package.toList_intercalate_dot]
    intro hc
    rcases mem_joinWith hc with hdot | ⟨s, hs, hcs⟩
    · exact absurd hdot (by decide)
    · obtain ⟨d, hd, rfl⟩ := List.mem_map.1 hs
      exact notMem_of_inRanges (hdirs d hd) (by decide) hcs
  have hname : '/' ∉ t.simpleName.toList := notMem_of_inRanges hsimple (by decide)
  unfold qualified
  split
  · exact hname
  · simpa using ⟨hslash, hname⟩

/-- The directories of a file spell a package without slashes. -/
theorem Package.slash_notMem_ofFile? {file : Path} {roots : List Path} {package : String}
    (h : ofFile? file roots = some package) : '/' ∉ package.toList := by
  obtain ⟨root, -, rfl⟩ := Option.map_eq_some_iff.1 h
  rw [toList_intercalate_dot]
  intro hc
  rcases mem_joinWith hc with hdot | ⟨s, hs, hcs⟩
  · exact absurd hdot (by decide)
  obtain ⟨d, hd, rfl⟩ := List.mem_map.1 hs
  obtain ⟨b, hb, rfl⟩ := List.mem_map.1 hd
  obtain ⟨c, hc, hname⟩ := List.mem_filterMap.1 hb
  have hmem : c ∈ file.components := by
    refine List.mem_of_mem_drop (i := root.components.length) ?_
    unfold Path.parentComponents? at hc
    split at hc
    · cases hc
    · cases hc
    · exact List.dropLast_subset _ hc
  have hfileName := Path.isFileName_of_mem_components (Component.eq_of_name? hname ▸ hmem)
  obtain ⟨byte, hbyte, heq⟩ := Utf8.mem_of_mem_decodeLossy (by decide) (by decide) hcs
  have hslash : byte = Path.slash := UInt8.toNat_inj.1 heq
  exact hfileName.slash_notMem (hslash ▸ hbyte)

theorem FileUri.slash_mem_ofPath (file : Path) : '/' ∈ (ofPath file).toList := by
  unfold ofPath
  split
  · decide
  · rw [String.toList_append]
    exact List.mem_append_left _ (by decide)

theorem Package.ofFile?_eq_none_iff {file : Path} {roots : List Path} :
    ofFile? file roots = none ↔ ∀ root ∈ roots, file.isUnder root = false := by
  rw [ofFile?, Option.map_eq_none_iff, deepestRoot, lastMaxBy_eq_none_iff, List.filter_eq_nil_iff]
  simp only [Bool.not_eq_true]

theorem Workspace.projectFor?_eq_none_iff {w : Workspace} {file : Path} :
    w.projectFor? file = none ↔ ∀ p ∈ w.projects, file.normalize.isUnder p.root = false := by
  rw [projectFor?, lastMaxBy_eq_none_iff, List.filter_eq_nil_iff]
  simp only [Bool.not_eq_true]

theorem Workspace.projectFor_eq_ok_iff {w : Workspace} {file : Path} {p : Project} :
    w.projectFor file = .ok p ↔ w.projectFor? file = some p := by
  refine ⟨fun h ↦ (mem_of_projectFor h).2, fun h ↦ ?_⟩
  rw [projectFor, h]

/-! ## Located files -/

namespace TypeSearch

variable {s : Snapshot} {t : TypeName}

theorem source_notMem_binaryHandles {answers : List (Library × Except Error Bool)} {file : Path}
    {project topLevel : String} : .source file project topLevel ∉ binaryHandles t answers := by
  intro h
  obtain ⟨⟨l, answer⟩, -, heq⟩ := List.mem_filterMap.1 h
  dsimp only at heq
  split at heq
  · cases heq
  · cases heq

/-- A file that is found declares the type. -/
theorem fileDeclares_of_mem_filesUnder {root file : Path} (h : file ∈ filesUnder s t root) :
    fileDeclares s t file = true := by
  unfold filesUnder at h
  dsimp only at h
  split at h
  · next hexpected =>
    rw [List.mem_singleton.1 h]
    exact (Bool.and_eq_true_iff.1 hexpected).2
  · exact (List.mem_filter.1 h).2

/-- A file that is found lies directly in the directory of the package under its source root. -/
theorem exists_name_of_mem_filesUnder {dirs : List String}
    (hpackage : t.package = String.intercalate "." dirs)
    (hdirs : ∀ d ∈ dirs, TypeName.isIdentifier d.toList = true)
    (hsimple : TypeName.isIdentifier t.simpleName.toList = true) {names : List (List UInt8)}
    (hnames : ∀ b ∈ names, Path.IsFileName b) {file : Path}
    (h : file ∈ filesUnder s t (.fromRoot names)) :
    ∃ x, (∀ b ∈ names ++ dirs.map Utf8.encode ++ [x], Path.IsFileName b) ∧
      file = .fromRoot (names ++ dirs.map Utf8.encode ++ [x]) := by
  have hall {x : List UInt8} (hx : Path.IsFileName x) :
      ∀ b ∈ names ++ dirs.map Utf8.encode ++ [x], Path.IsFileName b :=
    Package.isFileName_below hdirs hnames hx
  have hjava := Package.isFileName_java hsimple
  have hexpected := Package.expectedFile_fromRoot hdirs hsimple hnames
  rw [← hpackage] at hexpected
  unfold filesUnder at h
  dsimp only at h
  split at h
  · exact ⟨_, hall hjava, (List.mem_singleton.1 h).trans hexpected⟩
  · -- another file of the directory in which the type is expected
    obtain ⟨y, hy, rfl⟩ := List.mem_map.1 (List.mem_of_mem_filter (List.mem_of_mem_filter h))
    rw [hexpected, directoryOf_of_components (Path.components_fromRoot (hall hjava))] at hy ⊢
    have hname := hall (Snapshot.isFileName_of_mem_names hy)
    exact ⟨y, hname, join_name hname⟩

end TypeSearch

/-- A file that declares a type whose name has no slash has none in its package, if the place of
the file suggests none. -/
theorem TypeSearch.slash_notMem_packageName {s : Snapshot} {t : TypeName} {file : Path}
    (h : fileDeclares s t file = true) (hqualified : '/' ∉ t.qualified.toList) {source : String}
    (hread : s.readText file = .ok source) {suggested : String}
    (hsuggested : '/' ∉ suggested.toList) :
    '/' ∉ ((Java.Outline.ofSource source).packageName (some suggested)).toList := by
  cases hdeclared : (Java.Outline.ofSource source).package with
  | none => simpa [Java.Outline.packageName, hdeclared] using hsuggested
  | some package =>
    -- whatever is suggested, the package of the top-level types is the declared one
    have hpackage (suggested : String) :
        (Java.Outline.ofSource source).packageName (some suggested) = package := by
      simp [Java.Outline.packageName, hdeclared]
    rw [hpackage]
    unfold fileDeclares at h
    rw [hread] at h
    dsimp only at h
    split at h
    · cases h
    · next tree htree =>
      obtain ⟨-, -, rfl⟩ := Java.declarations_eq_ok_iff.1 htree
      obtain ⟨id, hid, hnode⟩ := List.any_eq_true.1 h
      obtain ⟨node, hnode, hown⟩ := (Option.any_eq_true ..).1 hnode
      have hnamed := Java.wellNamed_declarations (Java.Outline.ofSource source)
        source.utf8ByteSize (some t.package)
      rw [hpackage] at hnamed
      have hqualified? : (Java.Outline.declarations (.ofSource source) source.utf8ByteSize
          (some t.package)).qualifiedName? id = some t.qualified := by
        simpa [DeclarationTree.qualifiedName?, DeclarationTree.declaration?_eq_of_node? hnode]
          using hown
      obtain ⟨-, name, -, -, -, -, hname⟩ := hnamed.qualified_of_mem_topLevelTypes hid hqualified?
      rw [hname, TypeName.qualified] at hqualified
      split at hqualified
      · next hempty =>
        rw [show package = "" from hempty]
        simp
      · simp only [String.toList_append, List.mem_append, not_or] at hqualified
        exact hqualified.1.1

namespace Query

variable {s : Snapshot} {w : Workspace} {name : String} {file : Path} {project : Project}
  {root : Path}

/-- A search for the name finds the file under a source root of the project. -/
structure LocatedIn (s : Snapshot) (w : Workspace) (name : String) (file : Path)
    (project : Project) (root : Path) : Prop where
  project_mem : project ∈ w.projects
  root_mem : root ∈ project.sourceRoots
  found : ∃ t, TypeName.ofBinaryName name = .ok t ∧ file ∈ TypeSearch.filesUnder s t root

theorem eq_of_locationIn {line : Int} {projectName topLevel : String} {location : Location}
    (h : locationIn s name line (.source file projectName topLevel) = .ok location) :
    ∃ source span uri, s.readText file = .ok source ∧ (Lines.ofText source).span line = .ok span ∧
      FileUri.ofPath? file = .ok uri ∧ location = .source uri span := by
  unfold locationIn at h
  dsimp only at h
  split at h
  · cases h
  · next source hread =>
    cases hspan : (Lines.ofText source).span line with
    | error e =>
      rw [hspan] at h
      cases h
    | ok span =>
      rw [hspan] at h
      cases huri : FileUri.ofPath? file with
      | error e =>
        rw [huri] at h
        cases h
      | ok uri =>
        rw [huri] at h
        exact ⟨source, span, uri, hread, hspan, rfl, (Except.ok.inj h).symm⟩

/-- A location is that of the first handle that is found. -/
theorem exists_find_of_locationOf {cancelled : Bool} {line : Int} {location : Location}
    (h : locationOf s w cancelled name line = .ok location) :
    ∃ first rest, TypeSearch.find s w cancelled name = .ok (first :: rest) ∧
      locationIn s name line first = .ok location := by
  unfold locationOf at h
  cases hfind : TypeSearch.find s w cancelled name with
  | error e =>
    rw [hfind] at h
    cases h
  | ok handles =>
    rw [hfind] at h
    cases handles with
    | nil => cases h
    | cons first rest => exact ⟨first, rest, rfl, h⟩

/-- A location is that of the first place that declares the type: the sources come before the
libraries. -/
theorem exists_first_of_locationOf {cancelled : Bool} {line : Int} {location : Location}
    (h : locationOf s w cancelled name line = .ok location) :
    ∃ t first rest, TypeName.ofBinaryName name = .ok t ∧
      TypeSearch.sourceHandles s t w.projects ++
          TypeSearch.binaryHandles t (TypeSearch.libraryAnswers s t w.libraries) = first :: rest ∧
      locationIn s name line first = .ok location := by
  obtain ⟨first, rest, hfind, hfirst⟩ := exists_find_of_locationOf h
  obtain ⟨t, hname, hhandles⟩ := TypeSearch.eq_of_find hfind
  exact ⟨t, first, rest, hname, hhandles.symm, hfirst⟩

theorem exists_locatedIn_of_mem {t : TypeName} (hname : TypeName.ofBinaryName name = .ok t)
    {projectName topLevel : String}
    (h : .source file projectName topLevel ∈ TypeSearch.sourceHandles s t w.projects ++
      TypeSearch.binaryHandles t (TypeSearch.libraryAnswers s t w.libraries)) :
    ∃ project root, LocatedIn s w name file project root := by
  have hsource := (List.mem_append.1 h).resolve_right TypeSearch.source_notMem_binaryHandles
  obtain ⟨project, hproject, hfiles⟩ := List.mem_flatMap.1 hsource
  obtain ⟨file', hfile, heq⟩ := List.mem_map.1 hfiles
  obtain ⟨root, hroot, hunder⟩ := List.mem_flatMap.1 hfile
  obtain rfl : file' = file := (TypeHandle.source.inj heq).1
  exact ⟨project, root, hproject, hroot, t, hname, hunder⟩

theorem exists_locatedIn {cancelled : Bool} {line : Int} {uri : String} {span : Span}
    (h : locationOf s w cancelled name line = .ok (.source uri span)) :
    ∃ file project root source, LocatedIn s w name file project root ∧
      s.readText file = .ok source ∧ (Lines.ofText source).span line = .ok span ∧
      FileUri.ofPath? file = .ok uri := by
  obtain ⟨t, first, rest, hname, hcons, hfirst⟩ := exists_first_of_locationOf h
  cases first with
  | binary => cases hfirst
  | source file projectName topLevel =>
    obtain ⟨project, root, hlocated⟩ :=
      exists_locatedIn_of_mem hname (hcons ▸ List.mem_cons_self)
    obtain ⟨source, span', uri', hread, hspan, huri, heq⟩ := eq_of_locationIn hfirst
    obtain ⟨rfl, rfl⟩ := Location.source.inj heq
    exact ⟨file, project, root, source, hlocated, hread, hspan, huri⟩

namespace LocatedIn

variable (h : LocatedIn s w name file project root)
include h

theorem exists_names {text : String} {base : Path} (hw : Workspace.ofToml text base = .ok w)
    (hbase : base.isAbsolute = true) :
    ∃ names, (∀ b ∈ names, Path.IsFileName b) ∧ file = .fromRoot names ∧
      file.isUnder root = true := by
  obtain ⟨t, hname, hfile⟩ := h.found
  obtain ⟨dirs, hpackage, hdirs, hsimple⟩ := TypeName.exists_of_ofBinaryName hname
  obtain ⟨names, rfl, hnames⟩ :=
    Workspace.sourceRoot_eq_fromRoot hw hbase h.project_mem h.root_mem
  obtain ⟨x, hall, rfl⟩ :=
    TypeSearch.exists_name_of_mem_filesUnder hpackage hdirs hsimple hnames hfile
  refine ⟨_, hall, rfl, ?_⟩
  rw [Path.isUnder, Path.components_fromRoot hall, Path.components_fromRoot hnames,
    List.isPrefixOf_iff_prefix]
  simp

/-- No name that is read off a located file has a slash in it. -/
theorem slash_notMem_nameOnLine? {source : String} (hread : s.readText file = .ok source)
    {roots : List Path} {package : String} (hpackage : Package.ofFile? file roots = some package)
    {span : Span} {answer : String} (hanswer : nameOnLine? file source package span = some answer) :
    '/' ∉ answer.toList := by
  obtain ⟨t, hname, hfile⟩ := h.found
  have hslash := TypeSearch.slash_notMem_packageName
    (TypeSearch.fileDeclares_of_mem_filesUnder hfile) (TypeName.slash_notMem_qualified hname) hread
    (Package.slash_notMem_ofFile? hpackage)
  unfold nameOnLine? at hanswer
  split at hanswer
  · cases hanswer
  · next tree htree =>
    obtain ⟨-, -, rfl⟩ := Java.declarations_eq_ok_iff.1 htree
    obtain ⟨found, -, rfl⟩ := Option.map_eq_some_iff.1 hanswer
    exact Java.slash_notMem_binaryName hslash found

end LocatedIn

/-! ## Owners -/

section Owners

variable {uri : String} {line : Int} {rule : FileUri.DriveRule}
  (hpath : FileUri.path? uri rule = .ok (some file))
include hpath

theorem nameAt_of_no_owner (hnone : w.projectFor? file = none) :
    nameAt s w uri line rule = .error (.projectNotFound file.normalize) := by
  rw [nameAt, hpath]
  simp only [bind, Except.bind, Workspace.projectFor, hnone]

variable {owner : Project} (howner : w.projectFor? file = some owner)
include howner

theorem nameAt_of_no_root (hnone : Package.ofFile? file owner.sourceRoots = none) :
    nameAt s w uri line rule = .ok uri := by
  rw [nameAt, hpath]
  simp only [bind, Except.bind, Workspace.projectFor, howner, hnone]
  rfl

theorem nameAt_of_root {package source : String} {span : Span}
    (hpackage : Package.ofFile? file owner.sourceRoots = some package)
    (hread : s.readText file = .ok source) (hspan : (Lines.ofText source).span line = .ok span) :
    nameAt s w uri line rule = (nameOnLine? file source package span).elim
      (.error (.locationNotResolvable file line)) .ok := by
  rw [nameAt, hpath]
  simp only [bind, Except.bind, Workspace.projectFor, howner, hpackage, hread, hspan]
  cases nameOnLine? file source package span with
  | none => rfl
  | some answer => rfl

end Owners

/-- The name query on a located file: nobody owns it, its owner has no source root around it, or
there is an answer about the line, which is never the URI. -/
theorem LocatedIn.nameAt_cases (h : LocatedIn s w name file project root) {line : Int}
    {source : String} {span : Span} {rule : FileUri.DriveRule}
    (hpath : FileUri.path? (FileUri.ofPath file) rule = .ok (some file))
    (hread : s.readText file = .ok source) (hspan : (Lines.ofText source).span line = .ok span) :
    (w.projectFor? file = none ∧
      nameAt s w (FileUri.ofPath file) line rule = .error (.projectNotFound file.normalize)) ∨
    ∃ owner, w.projectFor? file = some owner ∧
      ((Package.ofFile? file owner.sourceRoots = none ∧
          nameAt s w (FileUri.ofPath file) line rule = .ok (FileUri.ofPath file)) ∨
        (Package.ofFile? file owner.sourceRoots ≠ none ∧
          (nameAt s w (FileUri.ofPath file) line rule = .error (.locationNotResolvable file line) ∨
            ∃ answer, nameAt s w (FileUri.ofPath file) line rule = .ok answer ∧
              answer ≠ FileUri.ofPath file))) := by
  cases howner : w.projectFor? file with
  | none => exact Or.inl ⟨rfl, nameAt_of_no_owner hpath howner⟩
  | some owner =>
    refine Or.inr ⟨owner, rfl, ?_⟩
    cases hpackage : Package.ofFile? file owner.sourceRoots with
    | none => exact Or.inl ⟨rfl, nameAt_of_no_root hpath howner hpackage⟩
    | some package =>
      refine Or.inr ⟨Option.some_ne_none package, ?_⟩
      rw [nameAt_of_root hpath howner hpackage hread hspan]
      cases hanswer : nameOnLine? file source package span with
      | none => exact Or.inl rfl
      | some answer =>
        refine Or.inr ⟨answer, rfl, ?_⟩
        rintro rfl
        exact h.slash_notMem_nameOnLine? hread hpackage hanswer (FileUri.slash_mem_ofPath file)

/-- A file that a search locates is unknown to the name query exactly if no project root contains
it, and is returned as it is exactly if its owner has no source root that contains it.  Neither
happens to a file that belongs to the project under whose source root it was found.  All this is so
when the URI of the file is read as the file, which a rule for drive letters may prevent. -/
theorem located_file_unknown_iff {text : String} {base : Path} {s : Snapshot} {w : Workspace}
    {cancelled : Bool} {name uri : String} {line : Int} {span : Span}
    (hw : Workspace.ofToml text base = .ok w) (hbase : base.isAbsolute = true)
    (hlocation : locationOf s w cancelled name line = .ok (.source uri span)) :
    ∃ file project root, LocatedIn s w name file project root ∧ file.isUnder root = true ∧
      uri = FileUri.ofPath file ∧
      ∀ rule : FileUri.DriveRule, rule.Keeps file →
        FileUri.path? uri rule = .ok (some file) ∧
        ((∃ path, nameAt s w uri line rule = .error (.projectNotFound path)) ↔
          ∀ p ∈ w.projects, file.isUnder p.root = false) ∧
        (nameAt s w uri line rule = .ok uri ↔
          ∃ owner, w.projectFor file = .ok owner ∧
            ∀ r ∈ owner.sourceRoots, file.isUnder r = false) ∧
        (w.projectFor file = .ok project →
          (∀ path, nameAt s w uri line rule ≠ .error (.projectNotFound path)) ∧
            nameAt s w uri line rule ≠ .ok uri) := by
  obtain ⟨file, project, root, source, hlocated, hread, hspan, huri⟩ := exists_locatedIn hlocation
  obtain ⟨names, hnames, rfl, hunder⟩ := hlocated.exists_names hw hbase
  have hcomponents := Path.components_fromRoot hnames
  have hnormal := Path.normalize_of_components hcomponents
  rw [FileUri.ofPath?_of_isAbsolute (Path.isAbsolute_fromRoot names)] at huri
  obtain rfl := Except.ok.inj huri
  refine ⟨.fromRoot names, project, root, hlocated, hunder, rfl, fun rule hrule ↦ ?_⟩
  have hpath := FileUri.path?_ofPath hcomponents hrule
  have hcases := hlocated.nameAt_cases hpath hread hspan
  have hunknown : (∃ path, nameAt s w (FileUri.ofPath (.fromRoot names)) line rule =
      .error (.projectNotFound path)) ↔ w.projectFor? (.fromRoot names) = none := by
    rcases hcases with ⟨hnone, h⟩ | ⟨owner, howner, ⟨-, h⟩ | ⟨-, h | ⟨answer, h, -⟩⟩⟩
    · exact iff_of_true ⟨_, h⟩ hnone
    all_goals simp [h, howner]
  have hreturned : nameAt s w (FileUri.ofPath (.fromRoot names)) line rule =
      .ok (FileUri.ofPath (.fromRoot names)) ↔
        ∃ owner, w.projectFor (.fromRoot names) = .ok owner ∧
          ∀ r ∈ owner.sourceRoots, (Path.fromRoot names).isUnder r = false := by
    simp only [Workspace.projectFor_eq_ok_iff, ← Package.ofFile?_eq_none_iff]
    rcases hcases with ⟨hnone, h⟩ | ⟨owner, howner, ⟨hroot, h⟩ | ⟨hroot, h | ⟨answer, h, hne⟩⟩⟩
    · simp [h, hnone]
    · exact iff_of_true h ⟨owner, howner, hroot⟩
    · simp [h, howner, hroot]
    · simp [h, howner, hroot, hne]
  refine ⟨hpath, ?_, hreturned, fun howner ↦ ⟨fun path h ↦ ?_, fun h ↦ ?_⟩⟩
  · rw [hunknown, Workspace.projectFor?_eq_none_iff, hnormal]
  · rw [Workspace.projectFor_eq_ok_iff, hunknown.1 ⟨path, h⟩] at howner
    cases howner
  · obtain ⟨owner, howner', hroots⟩ := hreturned.1 h
    obtain rfl := Except.ok.inj (howner.symm.trans howner')
    rw [hroots root hlocated.root_mem] at hunder
    cases hunder

/-! ## Shared sources -/

/-- `class A` in `/w/s`, beside the root of a project or in the sources of several. -/
def sharedSnapshot : Snapshot :=
  (⟨.empty, .ofString "/"⟩ : Snapshot).writeFile (.ofString "/w/s/A.java") "class A\x7b\x7d".toUTF8

theorem readText_shared :
    sharedSnapshot.readText (.ofString "/w/s/A.java") = .ok "class A\x7b\x7d" := by cbv

theorem filesUnder_shared : TypeSearch.filesUnder sharedSnapshot ⟨"", "A"⟩ (.ofString "/w/s") =
    [.ofString "/w/s/A.java"] :=
  filesUnder_classA (by cbv) (by decide) readText_shared

/-- Every workspace with `/w/s` as its first source root locates the class there. -/
theorem locationOf_shared {w : Workspace}
    (hroot : (w.projects.flatMap (·.sourceRoots)).head? = some (.ofString "/w/s")) :
    locationOf sharedSnapshot w false "A" 1 = .ok (.source "file:///w/s/A.java" ⟨0, 9⟩) := by
  have hname : TypeName.ofBinaryName "A" = .ok ⟨"", "A"⟩ :=
    TypeName.ofBinaryName_eq_ok_iff.2 (by decide +kernel)
  obtain ⟨others, hroots⟩ := List.head?_eq_some_iff.1 hroot
  have hhead : ((w.projects.flatMap (·.sourceRoots)).flatMap
      (TypeSearch.filesUnder sharedSnapshot ⟨"", "A"⟩)).head? = some (.ofString "/w/s/A.java") := by
    rw [hroots, List.flatMap_cons, filesUnder_shared, List.singleton_append, List.head?_cons]
  obtain ⟨owner, hfirst⟩ := TypeSearch.head?_sourceHandles hhead
  obtain ⟨rest, hfind, -⟩ := TypeSearch.find_of_sourceHandles hname hfirst
  have hspan : (Lines.ofText "class A\x7b\x7d").span 1 = .ok ⟨0, 9⟩ := by cbv
  have huri : FileUri.ofPath? (.ofString "/w/s/A.java") = .ok "file:///w/s/A.java" := by cbv
  rw [locationOf, hfind]
  simp only [bind, Except.bind, locationIn, readText_shared, hspan, huri]
  rfl

theorem path?_shared :
    FileUri.path? "file:///w/s/A.java" = .ok (some (.ofString "/w/s/A.java")) := by cbv

theorem ofToml_outside :
    Workspace.ofToml "projects=[[\"p\",\"a\",[\"../s\"]]]" (.ofString "/w") =
      .ok ⟨[⟨"p", .ofString "/w/a", [.ofString "/w/s"]⟩], []⟩ := by
  have hdescription : WorkspaceDescription.ofToml? "projects=[[\"p\",\"a\",[\"../s\"]]]" =
      some ⟨[⟨"p", "a", ["../s"]⟩], []⟩ := by decide +kernel
  rw [Workspace.ofToml, hdescription]
  cbv

theorem ofToml_sameRoot :
    Workspace.ofToml "projects=[[\"p\",\".\",[\"s\"]],[\"q\",\".\",[\"t\"]]]" (.ofString "/w") =
      .ok ⟨[⟨"p", .ofString "/w", [.ofString "/w/s"]⟩,
        ⟨"q", .ofString "/w", [.ofString "/w/t"]⟩], []⟩ := by
  have hdescription :
      WorkspaceDescription.ofToml? "projects=[[\"p\",\".\",[\"s\"]],[\"q\",\".\",[\"t\"]]]" =
        some ⟨[⟨"p", ".", ["s"]⟩, ⟨"q", ".", ["t"]⟩], []⟩ := by decide +kernel
  rw [Workspace.ofToml, hdescription]
  cbv

/-- A located file can be unknown, where a source root lies outside the root of its project, and it
can be returned as it is, where another project has the same root. -/
theorem located_files_unknown_or_returned :
    (∃ w, Workspace.ofToml "projects=[[\"p\",\"a\",[\"../s\"]]]" (.ofString "/w") = .ok w ∧
      locationOf sharedSnapshot w false "A" 1 = .ok (.source "file:///w/s/A.java" ⟨0, 9⟩) ∧
      nameAt sharedSnapshot w "file:///w/s/A.java" 1 =
        .error (.projectNotFound (.ofString "/w/s/A.java"))) ∧
    ∃ w, Workspace.ofToml "projects=[[\"p\",\".\",[\"s\"]],[\"q\",\".\",[\"t\"]]]"
        (.ofString "/w") = .ok w ∧
      locationOf sharedSnapshot w false "A" 1 = .ok (.source "file:///w/s/A.java" ⟨0, 9⟩) ∧
      nameAt sharedSnapshot w "file:///w/s/A.java" 1 = .ok "file:///w/s/A.java" := by
  constructor
  · refine ⟨_, ofToml_outside, locationOf_shared (by rfl), ?_⟩
    rw [nameAt_of_no_owner path?_shared (by cbv)]
    cbv
  · refine ⟨_, ofToml_sameRoot, locationOf_shared (by rfl), ?_⟩
    have howner : Workspace.projectFor? ⟨[⟨"p", .ofString "/w", [.ofString "/w/s"]⟩,
        ⟨"q", .ofString "/w", [.ofString "/w/t"]⟩], []⟩ (.ofString "/w/s/A.java") =
          some ⟨"q", .ofString "/w", [.ofString "/w/t"]⟩ := by cbv
    exact nameAt_of_no_root path?_shared howner (by cbv)

/-- The workspace in which `p` finds the file outside its root, and `q` owns it. -/
def sharedWorkspace : Workspace :=
  ⟨[⟨"p", .ofString "/w/a", [.ofString "/w/s"]⟩, ⟨"q", .ofString "/w", [.ofString "/w/s"]⟩], []⟩

theorem ofToml_sharedWorkspace :
    Workspace.ofToml "projects=[[\"p\",\"a\",[\"../s\"]],[\"q\",\".\",[\"s\"]]]" (.ofString "/w") =
      .ok sharedWorkspace := by
  have hdescription :
      WorkspaceDescription.ofToml? "projects=[[\"p\",\"a\",[\"../s\"]],[\"q\",\".\",[\"s\"]]]" =
        some ⟨[⟨"p", "a", ["../s"]⟩, ⟨"q", ".", ["s"]⟩], []⟩ := by decide +kernel
  rw [Workspace.ofToml, hdescription]
  cbv

theorem located_file_known_sharedWorkspace :
    Workspace.ofToml "projects=[[\"p\",\"a\",[\"../s\"]],[\"q\",\".\",[\"s\"]]]" (.ofString "/w") =
        .ok sharedWorkspace ∧
      (Path.ofString "/w").isAbsolute = true ∧
      locationOf sharedSnapshot sharedWorkspace false "A" 1 =
        .ok (.source "file:///w/s/A.java" ⟨0, 9⟩) ∧
      (∀ path, nameAt sharedSnapshot sharedWorkspace "file:///w/s/A.java" 1 ≠
        .error (.projectNotFound path)) ∧
      nameAt sharedSnapshot sharedWorkspace "file:///w/s/A.java" 1 ≠ .ok "file:///w/s/A.java" := by
  have hbase : (Path.ofString "/w").isAbsolute = true := by decide
  have hlocation : locationOf sharedSnapshot sharedWorkspace false "A" 1 =
      .ok (.source "file:///w/s/A.java" ⟨0, 9⟩) := locationOf_shared (by rfl)
  obtain ⟨file, project, root, -, -, -, hrule⟩ :=
    located_file_unknown_iff ofToml_sharedWorkspace hbase hlocation
  obtain ⟨hpath, hunknown, hreturned, -⟩ := hrule .keepBar (FileUri.keeps_keepBar _)
  obtain rfl := Option.some.inj (Except.ok.inj (path?_shared.symm.trans hpath))
  refine ⟨ofToml_sharedWorkspace, hbase, hlocation, ?_, ?_⟩
  · intro path h
    have hnone := hunknown.1 ⟨path, h⟩ ⟨"q", .ofString "/w", [.ofString "/w/s"]⟩
      (List.mem_cons_of_mem _ List.mem_cons_self)
    exact absurd hnone (by decide)
  · intro h
    obtain ⟨owner, howner, hroots⟩ := hreturned.1 h
    have hq : sharedWorkspace.projectFor (.ofString "/w/s/A.java") =
        .ok ⟨"q", .ofString "/w", [.ofString "/w/s"]⟩ := by cbv
    obtain rfl := Except.ok.inj (hq.symm.trans howner)
    exact absurd (hroots _ List.mem_cons_self) (by decide)

end Query

end BinaryNames
