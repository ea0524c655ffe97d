import BinaryNames.Proofs.Snapshot
import BinaryNames.Query

/-!
# Finding the File of a Type

A search that is not called off comes to what its projects and its libraries give, in order.  A file
that can be read is listed in its directory.  So if it declares a type, and no other file of the
directory does, the search under its source root finds this file and nothing else, whether the type
is in the file named for it or in another one.
-/

namespace BinaryNames

namespace TypeSearch

/-! ## Runs of a search -/

/-- The handles of a type in the sources of projects, in order. -/
def sourceHandles (s : Snapshot) (t : TypeName) (projects : List Project) : List TypeHandle :=
  projects.flatMap fun p ↦ (filesIn s t p).map fun file ↦ .source file p.name t.qualified

/-- What each library says about a type, in order. -/
def libraryAnswers (s : Snapshot) (t : TypeName) (libraries : List Library) :
    List (Library × Except Error Bool) :=
  libraries.map fun l ↦ (l, libraryDeclares s l t.qualified)

/-- The handles of a type in the libraries that declare it. -/
def binaryHandles (t : TypeName) (answers : List (Library × Except Error Bool)) :
    List TypeHandle :=
  answers.filterMap fun (l, answer) ↦
    match answer with
    | .ok true => some (.binary l.id t.qualified)
    | _ => none

/-- The first error among the answers. -/
def firstError? (answers : List (Library × Except Error Bool)) : Option Error :=
  answers.findSome? fun (_, answer) ↦
    match answer with
    | .error e => some e
    | .ok _ => none

section Runs

variable (s : Snapshot) (t : TypeName)

/-- A scan goes on to its end unless the token is found cancelled at one of its looks. -/
theorem scan_eq {α : Type} (polls : Nat → Bool) (add : Progress → α → Progress) (n : Nat)
    (p : Progress) (places : List α) :
    scan polls add n p places =
      if (List.range' n places.length).any polls then .error .cancelled
      else .ok (places.foldl add p) := by
  induction places generalizing n p with
  | nil => rfl
  | cons place places ih =>
    rw [scan, List.length_cons, List.range'_succ, List.any_cons, List.foldl_cons]
    cases hpoll : polls n with
    | true => rfl
    | false =>
      rw [Bool.false_or]
      exact ih (n + 1) (add p place)

theorem foldl_addProject (p : Progress) (projects : List Project) :
    projects.foldl (.addProject s t) p =
      { p with found := p.found ++ sourceHandles s t projects } := by
  induction projects generalizing p with
  | nil => simp [sourceHandles]
  | cons project rest ih =>
    rw [List.foldl_cons, ih, Progress.addProject, sourceHandles, sourceHandles, List.flatMap_cons,
      List.append_assoc]

theorem foldl_addLibrary (p : Progress) (libraries : List Library) :
    libraries.foldl (.addLibrary s t) p =
      ⟨p.found ++ binaryHandles t (libraryAnswers s t libraries),
        p.unreadable.or (firstError? (libraryAnswers s t libraries))⟩ := by
  induction libraries generalizing p with
  | nil => simp [libraryAnswers, binaryHandles, firstError?]
  | cons library rest ih =>
    have hanswers : libraryAnswers s t (library :: rest) =
        (library, libraryDeclares s library t.qualified) :: libraryAnswers s t rest := rfl
    rw [List.foldl_cons, ih, Progress.addLibrary, hanswers]
    cases libraryDeclares s library t.qualified with
    | error e => simp [binaryHandles, firstError?]
    | ok found => cases found <;> simp [binaryHandles, firstError?]

variable {s t} {w : Workspace} {name : String} (hname : TypeName.ofBinaryName name = .ok t)
include hname

/-- A search gives what it comes to at its end, unless the token is found cancelled before one of
the projects or libraries. -/
theorem search_eq (polls : Nat → Bool) : search s w polls name =
    if (List.range (w.projects.length + w.libraries.length)).any polls then .error .cancelled
    else Progress.result
      ⟨sourceHandles s t w.projects ++ binaryHandles t (libraryAnswers s t w.libraries),
        firstError? (libraryAnswers s t w.libraries)⟩ := by
  have hlooks : List.range (w.projects.length + w.libraries.length) =
      List.range' 0 w.projects.length ++ List.range' w.projects.length w.libraries.length := by
    rw [List.range_eq_range', ← List.range'_append_1, Nat.zero_add]
  rw [search, hname, hlooks, List.any_append]
  simp only [bind, Except.bind, scan_eq, foldl_addProject]
  cases (List.range' 0 w.projects.length).any polls with
  | true => rfl
  | false =>
    simp only [Bool.false_eq_true, if_false, Bool.false_or]
    cases (List.range' w.projects.length w.libraries.length).any polls with
    | true => rfl
    | false => simp [foldl_addLibrary]

/-- Cancelling a token while a search goes on stops it or leaves it as it is. -/
theorem search_eq_find (polls : Nat → Bool) : search s w polls name =
    if (List.range (w.projects.length + w.libraries.length)).any polls then .error .cancelled
    else find s w false name := by
  rw [find, search_eq hname, search_eq hname fun _ ↦ false]
  simp

theorem find_eq_result : find s w false name = Progress.result
    ⟨sourceHandles s t w.projects ++ binaryHandles t (libraryAnswers s t w.libraries),
      firstError? (libraryAnswers s t w.libraries)⟩ := by
  rw [find, search_eq hname]
  simp

end Runs

/-- What a search gives is what its projects and libraries have, in order. -/
theorem eq_of_find {s : Snapshot} {w : Workspace} {cancelled : Bool} {name : String}
    {handles : List TypeHandle} (h : find s w cancelled name = .ok handles) :
    ∃ t, TypeName.ofBinaryName name = .ok t ∧
      handles =
        sourceHandles s t w.projects ++ binaryHandles t (libraryAnswers s t w.libraries) := by
  cases hname : TypeName.ofBinaryName name with
  | error e =>
    rw [find, search, hname] at h
    cases h
  | ok t =>
    refine ⟨t, rfl, ?_⟩
    rw [find, search_eq hname] at h
    split at h
    · cases h
    · unfold Progress.result at h
      split at h
      · cases h
      · exact (Except.ok.inj h).symm

/-! ## Files in their directory -/

theorem directoryOf_of_components {p : Path} {names : List (List UInt8)} {x : List UInt8}
    (h : p.components = .root :: (names ++ [x]).map .name) :
    directoryOf p = .fromRoot names := by
  rw [directoryOf, h, List.map_append, List.map_singleton, ← List.cons_append, List.dropLast_concat,
    Path.fromRoot]

theorem join_name {names : List (List UInt8)} {x : List UInt8}
    (h : ∀ b ∈ names ++ [x], Path.IsFileName b) :
    (Path.fromRoot names).join ⟨x⟩ = .fromRoot (names ++ [x]) :=
  Path.join_fromRoot (fun b hb ↦ h b (List.mem_append_left _ hb)) (by simp)
    fun b hb ↦ h b (List.mem_append_right _ hb)

section Files

variable {s : Snapshot} {t : TypeName} {root : Path} {names : List (List UInt8)}
  {x expected : List UInt8} {source : String}
  (hx : ∀ b ∈ names ++ [x], Path.IsFileName b)
  (hexpected : ∀ b ∈ names ++ [expected], Path.IsFileName b)
  (hroot : expectedFile t root = .fromRoot (names ++ [expected]))
  (htext : s.readText (.fromRoot (names ++ [x])) = .ok source)
  (hjava : Java.isJavaFile (.fromRoot (names ++ [x])) = true)
  (hdeclares : fileDeclares s t (.fromRoot (names ++ [x])) = true)
include hx hexpected hroot htext hjava hdeclares

/-- Where the file named for the type does not declare it, every other one that does is found. -/
theorem mem_filesUnder (hnot : (s.isFile (.fromRoot (names ++ [expected])) &&
      fileDeclares s t (.fromRoot (names ++ [expected]))) = false) :
    .fromRoot (names ++ [x]) ∈ filesUnder s t root := by
  obtain ⟨content, hentry⟩ := Snapshot.exists_entry_of_readText htext
  have hmem := Snapshot.mem_names_of_entry hx hentry
  have hne : x ≠ expected := by
    rintro rfl
    rw [hdeclares, Bool.and_true, Snapshot.isFile, hentry] at hnot
    cases hnot
  have hcomponents : (Path.fromRoot (names ++ [x])).components ≠
      (Path.fromRoot (names ++ [expected])).components := by
    rw [Path.components_fromRoot hx, Path.components_fromRoot hexpected]
    simpa using hne
  rw [filesUnder, hroot, hnot, otherFiles,
    directoryOf_of_components (Path.components_fromRoot hexpected)]
  refine List.mem_filter.2 ⟨List.mem_filter.2 ⟨?_, by simp [hcomponents, hjava]⟩, hdeclares⟩
  exact List.mem_map.2 ⟨x, hmem, join_name hx⟩

/-- Where a Java file of the package directory declares the type, something is found. -/
theorem filesUnder_ne_nil : filesUnder s t root ≠ [] := by
  cases hfound : s.isFile (.fromRoot (names ++ [expected])) &&
      fileDeclares s t (.fromRoot (names ++ [expected])) with
  | true =>
    rw [filesUnder, hroot, hfound]
    simp
  | false =>
    exact List.ne_nil_of_mem (mem_filesUnder hx hexpected hroot htext hjava hdeclares hfound)

variable (halone : ∀ y ∈ s.names (.fromRoot names), y ≠ x →
  fileDeclares s t ((Path.fromRoot names).join ⟨y⟩) = false)
include halone

/-- The file is found under the source root, and nothing else is. -/
theorem filesUnder_of_alone : .fromRoot (names ++ [x]) ∈ filesUnder s t root ∧
    ∀ f ∈ filesUnder s t root, f = .fromRoot (names ++ [x]) := by
  cases hfound : s.isFile (.fromRoot (names ++ [expected])) &&
      fileDeclares s t (.fromRoot (names ++ [expected])) with
  | true =>
    -- the file named for the type declares it, so it is the file
    have hfound' := Bool.and_eq_true_iff.1 hfound
    obtain ⟨content, hentry⟩ := Snapshot.exists_entry_of_isFile hfound'.1
    have hmem := Snapshot.mem_names_of_entry hexpected hentry
    have heq : expected = x := by
      by_contra hne
      have hnot := halone expected hmem hne
      rw [join_name hexpected, hfound'.2] at hnot
      cases hnot
    rw [filesUnder, hroot, hfound, heq]
    simp
  | false =>
    refine ⟨mem_filesUnder hx hexpected hroot htext hjava hdeclares hfound, fun f hf ↦ ?_⟩
    rw [filesUnder, hroot, hfound, otherFiles,
      directoryOf_of_components (Path.components_fromRoot hexpected)] at hf
    obtain ⟨hf, hfdeclares⟩ := List.mem_filter.1 hf
    obtain ⟨y, hy, rfl⟩ := List.mem_map.1 (List.mem_of_mem_filter hf)
    by_cases hyx : y = x
    · rw [hyx, join_name hx]
    · rw [halone y hy hyx] at hfdeclares
      cases hfdeclares

end Files

/-! ## Handles -/

section Handles

variable {s : Snapshot} {t : TypeName}

theorem mem_sourceHandles {projects : List Project} {p : Project} (hp : p ∈ projects) {root : Path}
    (hroot : root ∈ p.sourceRoots) {file : Path} (hfile : file ∈ filesUnder s t root) :
    .source file p.name t.qualified ∈ sourceHandles s t projects :=
  List.mem_flatMap.2 ⟨p, hp, List.mem_map.2 ⟨file, List.mem_flatMap.2 ⟨root, hroot, hfile⟩, rfl⟩⟩

/-- The first handle is of the first file under the roots of all projects in order. -/
theorem head?_sourceHandles {projects : List Project} {file : Path}
    (h : ((projects.flatMap (·.sourceRoots)).flatMap (filesUnder s t)).head? = some file) :
    ∃ project, (sourceHandles s t projects).head? = some (.source file project t.qualified) := by
  induction projects with
  | nil => cases h
  | cons p rest ih =>
    rw [List.flatMap_cons, List.flatMap_append, ← filesIn] at h
    rw [sourceHandles, List.flatMap_cons, ← sourceHandles]
    cases hfiles : filesIn s t p with
    | nil =>
      rw [hfiles, List.nil_append] at h
      exact ih h
    | cons first others =>
      rw [hfiles, List.cons_append, List.head?_cons, Option.some.injEq] at h
      exact ⟨p.name, by rw [h]; rfl⟩

/-- Where the roots before `root` hold nothing, what is under `root` comes first. -/
theorem head?_flatMap_filesUnder {roots : List Path} {root file : Path} (hroot : root ∈ roots)
    (hbefore : ∀ r ∈ roots.takeWhile (· ≠ root), filesUnder s t r = [])
    (hfile : (filesUnder s t root).head? = some file) :
    (roots.flatMap (filesUnder s t)).head? = some file := by
  induction roots with
  | nil => cases hroot
  | cons r rest ih =>
    rw [List.flatMap_cons]
    by_cases hr : r = root
    · rw [hr, List.head?_append, hfile, Option.some_or]
    · rw [List.takeWhile_cons_of_pos (by simpa using hr), List.forall_mem_cons] at hbefore
      rw [hbefore.1, List.nil_append]
      exact ih ((List.mem_cons.1 hroot).resolve_left (Ne.symm hr)) hbefore.2

/-- A search that finds a source succeeds, whatever the libraries say. -/
theorem find_of_sourceHandles {w : Workspace} {name : String} {first : TypeHandle}
    (hname : TypeName.ofBinaryName name = .ok t)
    (hfirst : (sourceHandles s t w.projects).head? = some first) :
    ∃ rest, find s w false name = .ok (first :: rest) ∧
      first :: rest =
        sourceHandles s t w.projects ++ binaryHandles t (libraryAnswers s t w.libraries) := by
  obtain ⟨others, hothers⟩ := List.head?_eq_some_iff.1 hfirst
  refine ⟨others ++ binaryHandles t (libraryAnswers s t w.libraries), ?_, by rw [hothers]; rfl⟩
  rw [find_eq_result hname, hothers]
  rfl

end Handles

end TypeSearch

end BinaryNames
