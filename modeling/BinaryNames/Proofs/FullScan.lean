import BinaryNames.Proofs.Locations
import Mathlib

/-!
# The File Named for a Type and the Whole Directory

A search looks at the file named for a type and reads the rest of the package directory only if that
file does not declare the type.  Where no directory has two files that declare it, this finds what
reading every Java file would find, and elsewhere it finds some of it, but never nothing.
-/

namespace BinaryNames.TypeSearch

/-- The directory of the package of a type under a source root. -/
def packageDirectory (t : TypeName) (root : Path) : Path :=
  .ofComponents (root.components ++ Package.directories t.package)

/-- The Java files of the package directory that declare a type, in the order of their names: what
reading every one of them finds. -/
def declaringFiles (s : Snapshot) (t : TypeName) (root : Path) : List Path :=
  let directory := packageDirectory t root
  ((s.names directory).map fun name ↦ directory.join ⟨name⟩).filter fun file ↦
    Java.isJavaFile file && fileDeclares s t file

/-! ## Files that declare a type -/

section Declares

variable {s : Snapshot} {t : TypeName}

theorem isFile_of_fileDeclares {file : Path} (h : fileDeclares s t file = true) :
    s.isFile file = true := by
  obtain ⟨source, hread, -⟩ := fileDeclares_iff.1 h
  obtain ⟨content, hentry⟩ := Snapshot.exists_entry_of_readText hread
  rw [Snapshot.isFile, hentry]

theorem isJavaFile_of_fileDeclares {file : Path} (h : fileDeclares s t file = true) :
    Java.isJavaFile file = true := by
  obtain ⟨source, -, tree, -, -, htree, -⟩ := fileDeclares_iff.1 h
  exact (Java.declarations_eq_ok_iff.1 htree).2.1

/-- Paths from the root through the same names lead to the same declarations. -/
theorem fileDeclares_congr {f g : Path} {names : List (List UInt8)}
    (hf : f.components = .root :: names.map .name) (hg : g.components = f.components)
    (h : fileDeclares s t f = true) : fileDeclares s t g = true := by
  obtain ⟨source, hread, hdeclares⟩ := fileDeclares_iff.1 h
  refine fileDeclares_iff.2 ⟨source, ?_, hdeclares.congr hg.symm⟩
  rw [s.readText_of_components (hg.trans hf), ← s.readText_of_components hf, hread]

theorem filesUnder_of_expected {root : Path}
    (hdeclares : fileDeclares s t (expectedFile t root) = true) :
    filesUnder s t root = [expectedFile t root] := by
  rw [filesUnder, isFile_of_fileDeclares hdeclares, hdeclares]
  rfl

end Declares

/-! ## One source root -/

/-- Where a type is sought under a source root: the names that lead to the package directory, and
the name of the file that is expected there. -/
structure SoughtAt (t : TypeName) (root : Path) (names : List (List UInt8)) (x : List UInt8) :
    Prop where
  isFileName : ∀ b ∈ names ++ [x], Path.IsFileName b
  expected_eq : expectedFile t root = .fromRoot (names ++ [x])
  directory_eq : packageDirectory t root = .fromRoot names
  components_eq : root.components ++ Package.directories t.package = .root :: names.map .name

theorem exists_soughtAt {t : TypeName} {name : String}
    (hname : TypeName.ofBinaryName name = .ok t) {root : Path} (habsolute : root.isAbsolute = true)
    (hnormal : root.normalize = root) : ∃ names x, SoughtAt t root names x := by
  obtain ⟨dirs, hpackage, hdirs, hsimple⟩ := TypeName.exists_of_ofBinaryName hname
  obtain ⟨names, hroot, hnames⟩ := Path.exists_normalize_eq_fromRoot habsolute
  rw [hnormal] at hroot
  subst hroot
  have hexpected := Package.expectedFile_fromRoot hdirs hsimple hnames
  have hdirectory : (Path.fromRoot names).components ++ Package.directories t.package =
      .root :: (names ++ dirs.map Utf8.encode).map .name := by
    rw [hpackage, Package.directories_intercalate hdirs, Path.components_fromRoot hnames,
      List.map_append, List.cons_append]
  rw [← hpackage] at hexpected
  refine ⟨names ++ dirs.map Utf8.encode, _, ?_, hexpected, ?_, hdirectory⟩
  · exact Package.isFileName_below hdirs hnames (Package.isFileName_java hsimple)
  · rw [packageDirectory, hdirectory]
    rfl

namespace SoughtAt

variable {s : Snapshot} {t : TypeName} {root : Path} {names : List (List UInt8)} {x : List UInt8}
  (h : SoughtAt t root names x)
include h

theorem components_expected :
    (expectedFile t root).components = .root :: (names ++ [x]).map .name := by
  rw [h.expected_eq, Path.components_fromRoot h.isFileName]

theorem directoryOf_expected : directoryOf (expectedFile t root) = packageDirectory t root := by
  rw [directoryOf_of_components h.components_expected, h.directory_eq]

/-- A file that declares the type is found by reading the whole directory that it is in. -/
theorem mem_declaringFiles_of_fileDeclares {y : List UInt8}
    (hnames : ∀ b ∈ names ++ [y], Path.IsFileName b)
    (hdeclares : fileDeclares s t (.fromRoot (names ++ [y])) = true) :
    .fromRoot (names ++ [y]) ∈ declaringFiles s t root := by
  obtain ⟨content, hentry⟩ := Snapshot.exists_entry_of_isFile (isFile_of_fileDeclares hdeclares)
  have hjava := isJavaFile_of_fileDeclares hdeclares
  refine List.mem_filter.2 ⟨List.mem_map.2 ⟨y, ?_, ?_⟩, by rw [hjava, hdeclares]; rfl⟩
  · rw [h.directory_eq]
    exact Snapshot.mem_names_of_entry hnames hentry
  · rw [h.directory_eq]
    exact join_name hnames

theorem expected_mem (hdeclares : fileDeclares s t (expectedFile t root) = true) :
    expectedFile t root ∈ declaringFiles s t root := by
  rw [h.expected_eq] at hdeclares ⊢
  exact h.mem_declaringFiles_of_fileDeclares h.isFileName hdeclares

/-- Where the expected file does not declare the type, leaving it out loses nothing. -/
theorem filesUnder_of_others (hdeclares : fileDeclares s t (expectedFile t root) = false) :
    filesUnder s t root = declaringFiles s t root := by
  rw [filesUnder, hdeclares, Bool.and_false, if_neg Bool.false_ne_true, otherFiles,
    h.directoryOf_expected, declaringFiles, List.filter_filter]
  apply List.filter_congr
  intro file _
  cases hfile : fileDeclares s t file with
  | false => simp
  | true =>
    have hne : file.components ≠ (expectedFile t root).components := by
      intro heq
      rw [h.components_expected] at heq
      rw [fileDeclares_congr heq (h.components_expected.trans heq.symm) hfile] at hdeclares
      cases hdeclares
    simp [hne]

theorem mem_declaringFiles_of_mem_filesUnder {file : Path} (hfile : file ∈ filesUnder s t root) :
    file ∈ declaringFiles s t root := by
  cases hdeclares : fileDeclares s t (expectedFile t root) with
  | true =>
    rw [filesUnder_of_expected hdeclares, List.mem_singleton] at hfile
    rw [hfile]
    exact h.expected_mem hdeclares
  | false =>
    rw [← h.filesUnder_of_others hdeclares]
    exact hfile

theorem filesUnder_ne_nil_of_declaringFiles (hne : declaringFiles s t root ≠ []) :
    filesUnder s t root ≠ [] := by
  cases hdeclares : fileDeclares s t (expectedFile t root) with
  | true => simp [filesUnder_of_expected hdeclares]
  | false => rwa [h.filesUnder_of_others hdeclares]

theorem filesUnder_eq_declaringFiles (hone : (declaringFiles s t root).length ≤ 1) :
    filesUnder s t root = declaringFiles s t root := by
  cases hdeclares : fileDeclares s t (expectedFile t root) with
  | true =>
    have hmem := h.expected_mem hdeclares
    rw [filesUnder_of_expected hdeclares]
    match hfiles : declaringFiles s t root with
    | [] =>
      rw [hfiles] at hmem
      cases hmem
    | [file] =>
      rw [hfiles, List.mem_singleton] at hmem
      rw [hmem]
    | _ :: _ :: _ =>
      rw [hfiles] at hone
      simp at hone
  | false => exact h.filesUnder_of_others hdeclares

/-- Reading the whole directory finds the readable Java files that stand directly in it and have the
type at their top level. -/
theorem mem_declaringFiles_iff {file : Path} :
    file ∈ declaringFiles s t root ↔ file.normalize = file ∧ Package.Holds t.package root file ∧
      ∃ source, s.readText file = .ok source ∧
        Java.DeclaresTopLevel file source t.package t.qualified := by
  rw [← fileDeclares_iff]
  constructor
  · intro hfile
    obtain ⟨hfile, hdeclares⟩ := List.mem_filter.1 hfile
    obtain ⟨y, hy, rfl⟩ := List.mem_map.1 hfile
    rw [Bool.and_eq_true] at hdeclares
    have hnames : ∀ b ∈ names ++ [y], Path.IsFileName b :=
      List.forall_mem_append.2 ⟨(List.forall_mem_append.1 h.isFileName).1,
        List.forall_mem_singleton.2 (Snapshot.isFileName_of_mem_names hy)⟩
    rw [h.directory_eq, join_name hnames] at hdeclares ⊢
    have hcomponents := Path.components_fromRoot hnames
    refine ⟨Path.normalize_of_components hcomponents, ⟨hdeclares.1, y, ?_⟩, hdeclares.2⟩
    rw [hcomponents, h.components_eq]
    simp
  · intro ⟨hnormal, ⟨_, y, hplace⟩, hdeclares⟩
    have hcomponents : file.components = .root :: (names ++ [y]).map .name := by
      rw [hplace, h.components_eq]
      simp
    have hfile : file = .fromRoot (names ++ [y]) := by
      rw [← hnormal, Path.normalize_of_components hcomponents]
    have hnames : ∀ b ∈ names ++ [y], Path.IsFileName b := by
      intro b hb
      refine Path.isFileName_of_mem_components (p := file) ?_
      rw [hcomponents]
      exact List.mem_cons_of_mem _ (List.mem_map_of_mem hb)
    rw [hfile] at hdeclares ⊢
    exact h.mem_declaringFiles_of_fileDeclares hnames hdeclares

end SoughtAt

/-! ## All source roots -/

/-- Files under different source roots are different. -/
theorem root_eq_of_components {package : String} {root root' f g : Path}
    (hf : Package.Holds package root f) (hg : Package.Holds package root' g)
    (hroot : root.normalize = root) (hroot' : root'.normalize = root')
    (heq : f.components = g.components) : root = root' := by
  obtain ⟨x, hx⟩ := hf.place
  obtain ⟨y, hy⟩ := hg.place
  rw [hx, hy] at heq
  have hcomponents : root.components = root'.components :=
    List.append_cancel_right (List.append_inj_left' heq rfl)
  rw [← hroot, ← hroot', Path.normalize, hcomponents, Path.normalize]

/-- Where every package directory has at most one file that declares the type, the search finds what
reading all Java files of these directories finds, root by root, and no file twice if no source root
is given twice.  In any case it finds only such files, and some under every root that has any. -/
theorem filesIn_eq_full_scan {s : Snapshot} {project : Project} {name : String} {t : TypeName}
    (hname : TypeName.ofBinaryName name = .ok t)
    (hroots : ∀ root ∈ project.sourceRoots, root.isAbsolute = true ∧ root.normalize = root) :
    ((∀ root ∈ project.sourceRoots, (declaringFiles s t root).length ≤ 1) →
      filesIn s t project = project.sourceRoots.flatMap (declaringFiles s t) ∧
      (project.sourceRoots.Nodup →
        (filesIn s t project).Pairwise fun f g ↦ f.components ≠ g.components)) ∧
    (∀ root ∈ project.sourceRoots,
      (∀ file ∈ filesUnder s t root,
        file ∈ declaringFiles s t root ∧ fileDeclares s t file = true) ∧
      (declaringFiles s t root ≠ [] → filesUnder s t root ≠ [])) ∧
    (∀ root ∈ project.sourceRoots, ∀ file, file ∈ declaringFiles s t root ↔
      file.normalize = file ∧ Package.Holds t.package root file ∧
        ∃ source, s.readText file = .ok source ∧
          Java.DeclaresTopLevel file source t.package t.qualified) := by
  have hsought : ∀ root ∈ project.sourceRoots, ∃ names x, SoughtAt t root names x :=
    fun root hroot ↦ exists_soughtAt hname (hroots root hroot).1 (hroots root hroot).2
  refine ⟨fun hone ↦ ?_, fun root hroot ↦ ?_, fun root hroot file ↦ ?_⟩
  · have hfiles : ∀ root ∈ project.sourceRoots, filesUnder s t root = declaringFiles s t root := by
      intro root hroot
      obtain ⟨names, x, h⟩ := hsought root hroot
      exact h.filesUnder_eq_declaringFiles (hone root hroot)
    have hall : filesIn s t project = project.sourceRoots.flatMap (declaringFiles s t) :=
      List.flatMap_congr hfiles
    refine ⟨hall, fun hdistinct ↦ ?_⟩
    rw [hall, List.pairwise_flatMap]
    constructor
    · intro root hroot
      have hlength := hone root hroot
      exact List.pairwise_iff_getElem.2 fun i j hi hj hlt ↦ by omega
    · apply hdistinct.imp_of_mem
      intro root root' hroot hroot' hne f hf g hg heq
      obtain ⟨names, x, h⟩ := hsought root hroot
      obtain ⟨names', x', h'⟩ := hsought root' hroot'
      exact hne (root_eq_of_components (h.mem_declaringFiles_iff.1 hf).2.1
        (h'.mem_declaringFiles_iff.1 hg).2.1 (hroots root hroot).2 (hroots root' hroot').2 heq)
  · obtain ⟨names, x, h⟩ := hsought root hroot
    refine ⟨fun file hfile ↦ ⟨h.mem_declaringFiles_of_mem_filesUnder hfile, ?_⟩,
      h.filesUnder_ne_nil_of_declaringFiles⟩
    exact fileDeclares_of_mem_filesUnder hfile
  · obtain ⟨names, x, h⟩ := hsought root hroot
    exact h.mem_declaringFiles_iff

open Query (nestedSnapshot nestedSource nestedOutline)

/-- A project with one more source root, at which there is nothing. -/
def twoRoots : Project := ⟨"p", .ofString "/w", [.ofString "/w/s", .ofString "/w/t"]⟩

theorem fileDeclares_nestedSnapshot :
    fileDeclares nestedSnapshot ⟨"a", "A"⟩ (.ofString "/w/s/a/A.java") = false ∧
      fileDeclares nestedSnapshot ⟨"a", "A"⟩ (.ofString "/w/s/a/F.java") = true := by
  constructor
  · cbv
  · rw [fileDeclares, Query.filed_nestedSource.readable]
    simp only [Query.declarations_nestedSource]
    cbv

theorem declaringFiles_nestedSnapshot :
    declaringFiles nestedSnapshot ⟨"a", "A"⟩ (.ofString "/w/s") = [.ofString "/w/s/a/F.java"] ∧
      declaringFiles nestedSnapshot ⟨"a", "A"⟩ (.ofString "/w/t") = [] := by
  have hnames : (nestedSnapshot.names (packageDirectory ⟨"a", "A"⟩ (.ofString "/w/s"))).map
      (fun name ↦ (packageDirectory ⟨"a", "A"⟩ (.ofString "/w/s")).join ⟨name⟩) =
        [.ofString "/w/s/a/A.java", .ofString "/w/s/a/F.java"] := by cbv
  have hjava : Java.isJavaFile (.ofString "/w/s/a/F.java") = true := by decide
  obtain ⟨hA, hF⟩ := fileDeclares_nestedSnapshot
  constructor
  · simp [declaringFiles, hnames, hA, hF, hjava]
  · cbv

/-- The file named for the type does not declare it, and the one beside it does. -/
theorem filesIn_eq_full_scan_twoRoots :
    TypeName.ofBinaryName "a.A$B" = .ok ⟨"a", "A"⟩ ∧
      filesIn nestedSnapshot ⟨"a", "A"⟩ twoRoots = [.ofString "/w/s/a/F.java"] := by
  have hname : TypeName.ofBinaryName "a.A$B" = .ok ⟨"a", "A"⟩ :=
    TypeName.ofBinaryName_eq_ok_iff.2 (by decide +kernel)
  have hroots : ∀ root ∈ twoRoots.sourceRoots,
      root.isAbsolute = true ∧ root.normalize = root := by decide
  obtain ⟨hs, ht⟩ := declaringFiles_nestedSnapshot
  have hone : ∀ root ∈ twoRoots.sourceRoots,
      (declaringFiles nestedSnapshot ⟨"a", "A"⟩ root).length ≤ 1 := by
    rw [twoRoots, List.forall_mem_cons, List.forall_mem_singleton, hs, ht]
    decide
  obtain ⟨hfiles, -⟩ := (filesIn_eq_full_scan hname hroots).1 hone
  refine ⟨hname, ?_⟩
  rw [hfiles, twoRoots, List.flatMap_cons, List.flatMap_singleton, hs, ht, List.append_nil]

end BinaryNames.TypeSearch
