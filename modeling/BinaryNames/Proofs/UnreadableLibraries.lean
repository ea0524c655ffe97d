import BinaryNames.Proofs.RoundTrip
import Mathlib

/-!
# Libraries That Cannot Be Read

A search asks every library, and an archive that cannot be read is no answer.  Such a library
neither hides what others declare nor changes the order of what is found: the search finds what it
would find without it.  Only when nothing is found at all is the first of these failures reported.
-/

namespace BinaryNames.TypeSearch

/-- Whether a library can tell if it declares a type. -/
def answers (s : Snapshot) (topLevel : String) (l : Library) : Bool :=
  (libraryDeclares s l topLevel).isOk

/-- Whether a library can tell that it declares a type. -/
def affirms (s : Snapshot) (topLevel : String) (l : Library) : Bool :=
  (libraryDeclares s l topLevel).toOption = some true

/-- The workspace without the libraries that cannot tell whether they declare a type. -/
def withoutUnreadable (s : Snapshot) (topLevel : String) (w : Workspace) : Workspace :=
  { w with libraries := w.libraries.filter (answers s topLevel) }

/-- The places that declare a type: the files under the source roots of the projects, in order, and
then the libraries that declare it, in order. -/
def places (s : Snapshot) (t : TypeName) (w : Workspace) : List TypeHandle :=
  (w.projects.flatMap fun p ↦ p.sourceRoots.flatMap fun root ↦
      (filesUnder s t root).map fun file ↦ .source file p.name t.qualified) ++
    (w.libraries.filter (affirms s t.qualified)).map fun l ↦ .binary l.id t.qualified

section Answers

variable (s : Snapshot) (t : TypeName)

theorem answers_of_affirms {topLevel : String} {l : Library} (h : affirms s topLevel l = true) :
    answers s topLevel l = true := by
  unfold affirms at h
  unfold answers
  cases hanswer : libraryDeclares s l topLevel with
  | error e => simp [hanswer, Except.toOption] at h
  | ok found => rfl

theorem sourceHandles_eq_flatMap (projects : List Project) : sourceHandles s t projects =
    projects.flatMap fun p ↦ p.sourceRoots.flatMap fun root ↦
      (filesUnder s t root).map fun file ↦ .source file p.name t.qualified := by
  simp only [sourceHandles, filesIn, List.map_flatMap]

theorem binaryHandles_libraryAnswers (libraries : List Library) :
    binaryHandles t (libraryAnswers s t libraries) =
      (libraries.filter (affirms s t.qualified)).map fun l ↦ .binary l.id t.qualified := by
  induction libraries with
  | nil => rfl
  | cons l rest ih =>
    rw [libraryAnswers, List.map_cons, ← libraryAnswers, binaryHandles, List.filterMap_cons,
      ← binaryHandles, ih, List.filter_cons]
    cases hanswer : libraryDeclares s l t.qualified with
    | error e => simp [affirms, hanswer, Except.toOption]
    | ok found => cases found <;> simp [affirms, hanswer, Except.toOption]

/-- Removing the libraries that cannot answer removes no place. -/
theorem places_withoutUnreadable (w : Workspace) :
    places s t (withoutUnreadable s t.qualified w) = places s t w := by
  have hfilter : (w.libraries.filter (answers s t.qualified)).filter (affirms s t.qualified) =
      w.libraries.filter (affirms s t.qualified) := by
    rw [List.filter_filter]
    refine List.filter_congr fun l _ ↦ ?_
    cases haffirms : affirms s t.qualified l with
    | false => rfl
    | true => rw [answers_of_affirms s haffirms, Bool.true_and]
  simp only [places, withoutUnreadable, hfilter]

end Answers

section Failures

variable {s : Snapshot} {t : TypeName} {libraries : List Library}

theorem firstError?_eq_none (h : ∀ l ∈ libraries, answers s t.qualified l = true) :
    firstError? (libraryAnswers s t libraries) = none := by
  rw [firstError?, List.findSome?_eq_none_iff]
  rintro ⟨l, answer⟩ hmem
  obtain ⟨l', hl', heq⟩ := List.mem_map.1 hmem
  obtain ⟨rfl, rfl⟩ := Prod.mk.inj heq
  have hanswers := h l' hl'
  unfold answers at hanswers
  dsimp only
  split
  · next e he =>
    rw [he] at hanswers
    cases hanswers
  · rfl

theorem firstError?_append {before after : List Library} {l : Library} {e : Error}
    (hbefore : ∀ l' ∈ before, answers s t.qualified l' = true)
    (he : libraryDeclares s l t.qualified = .error e) :
    firstError? (libraryAnswers s t (before ++ l :: after)) = some e := by
  have hnone := firstError?_eq_none hbefore
  unfold firstError? libraryAnswers at hnone ⊢
  rw [List.map_append, List.findSome?_append, hnone, Option.none_or, List.map_cons,
    List.findSome?_cons, he]

end Failures

section Find

variable {s : Snapshot} {w : Workspace} {name : String} {t : TypeName}
  (hname : TypeName.ofBinaryName name = .ok t)
include hname

theorem find_eq : find s w false name =
    match places s t w, firstError? (libraryAnswers s t w.libraries) with
    | [], some e => .error e
    | found, _ => .ok found := by
  rw [find_eq_result hname, places, ← sourceHandles_eq_flatMap, ← binaryHandles_libraryAnswers]
  rfl

theorem find_of_places_ne_nil (h : places s t w ≠ []) :
    find s w false name = .ok (places s t w) := by
  rw [find_eq hname]
  obtain ⟨first, others, hcons⟩ := List.exists_cons_of_ne_nil h
  rw [hcons]

theorem find_of_answers (h : ∀ l ∈ w.libraries, answers s t.qualified l = true) :
    find s w false name = .ok (places s t w) := by
  rw [find_eq hname, firstError?_eq_none h]
  cases places s t w <;> rfl

end Find

/-- A search finds the places that it finds without the libraries that cannot be read.  If there are
none, it fails with what was wrong with the first of these libraries, and gives an empty answer if
all libraries can be read. -/
theorem find_eq_without_unreadable {s : Snapshot} {w : Workspace} {name : String} {t : TypeName}
    (hname : TypeName.ofBinaryName name = .ok t) :
    find s (withoutUnreadable s t.qualified w) false name = .ok (places s t w) ∧
      (places s t w ≠ [] → find s w false name = .ok (places s t w)) ∧
      (places s t w = [] →
        ((∀ l ∈ w.libraries, answers s t.qualified l = true) → find s w false name = .ok []) ∧
        ∀ before l after e, w.libraries = before ++ l :: after →
          (∀ l' ∈ before, answers s t.qualified l' = true) →
          libraryDeclares s l t.qualified = .error e → find s w false name = .error e) := by
  refine ⟨?_, find_of_places_ne_nil hname, fun hnone ↦ ⟨fun hanswers ↦ ?_, ?_⟩⟩
  · rw [← places_withoutUnreadable]
    exact find_of_answers hname fun l hl ↦ List.of_mem_filter hl
  · rw [find_of_answers hname hanswers, hnone]
  · intro before l after e hlibraries hbefore he
    rw [find_eq hname, hnone, hlibraries, firstError?_append hbefore he]

/-- `class A` in `/w/s`, and a file that is no archive at `/torn.jar`. -/
def tornSnapshot : Snapshot :=
  ((⟨.empty, .ofString "/"⟩ : Snapshot).writeFile (.ofString "/torn.jar") "PK".toUTF8).writeFile
    (.ofString "/w/s/A.java") "class A\x7b\x7d".toUTF8

def tornProject : Project := ⟨"p", .ofString "/w", [.ofString "/w/s"]⟩

def goneLibrary : Library := ⟨"gone", some (.ofString "/gone.jar"), []⟩

def tornLibrary : Library := ⟨"torn", some (.ofString "/torn.jar"), []⟩

/-- A library that lists the type, so that its archive is not opened. -/
def listingLibrary : Library := ⟨"listing", some (.ofString "/torn.jar"), ["A$B"]⟩

theorem filesUnder_tornSnapshot :
    filesUnder tornSnapshot ⟨"", "A"⟩ (.ofString "/w/s") = [.ofString "/w/s/A.java"] :=
  Query.filesUnder_classA (by cbv) (by decide) (by cbv)

theorem libraryDeclares_gone : libraryDeclares tornSnapshot goneLibrary "A" =
    .error (.archiveUnreadable (.ofString "/gone.jar")
      "No such file or directory (os error 2)") := by
  cbv

theorem affirms_tornSnapshot : affirms tornSnapshot "A" goneLibrary = false ∧
    affirms tornSnapshot "A" listingLibrary = true ∧
    affirms tornSnapshot "A" tornLibrary = false := by
  refine ⟨?_, ?_, ?_⟩ <;> cbv

/-- Two libraries that cannot be read hide neither the source before them nor the library between
them that lists the type.  Without these the first of the two is reported. -/
theorem find_eq_tornSnapshot :
    TypeName.ofBinaryName "A$B" = .ok ⟨"", "A"⟩ ∧
      find tornSnapshot ⟨[tornProject], [goneLibrary, listingLibrary, tornLibrary]⟩ false "A$B" =
        .ok [.source (.ofString "/w/s/A.java") "p" "A", .binary "listing" "A"] ∧
      find tornSnapshot ⟨[], [goneLibrary, tornLibrary]⟩ false "A$B" =
        .error (.archiveUnreadable (.ofString "/gone.jar")
          "No such file or directory (os error 2)") := by
  have hname : TypeName.ofBinaryName "A$B" = .ok ⟨"", "A"⟩ :=
    TypeName.ofBinaryName_eq_ok_iff.2 (by decide +kernel)
  have hqualified : TypeName.qualified ⟨"", "A"⟩ = "A" := by rfl
  obtain ⟨hgone, hlisting, htorn⟩ := affirms_tornSnapshot
  have hfound : places tornSnapshot ⟨"", "A"⟩
      ⟨[tornProject], [goneLibrary, listingLibrary, tornLibrary]⟩ =
        [.source (.ofString "/w/s/A.java") "p" "A", .binary "listing" "A"] := by
    simp [places, tornProject, filesUnder_tornSnapshot, hqualified, hgone, hlisting, htorn]
    rfl
  have hnone : places tornSnapshot ⟨"", "A"⟩ ⟨[], [goneLibrary, tornLibrary]⟩ = [] := by
    simp [places, hqualified, hgone, htorn]
  refine ⟨hname, ?_, ?_⟩
  · rw [← hfound]
    exact (find_eq_without_unreadable hname).2.1 (by rw [hfound]; simp)
  · exact ((find_eq_without_unreadable hname).2.2 hnone).2 [] _ _ _ rfl (by simp)
      libraryDeclares_gone

end BinaryNames.TypeSearch
