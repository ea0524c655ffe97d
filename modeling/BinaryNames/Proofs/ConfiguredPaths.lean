import BinaryNames.Proofs.Path.NormalForm
import BinaryNames.Workspace.Config
import Mathlib.Data.List.Forall2

/-!
# Configured Paths

A workspace has one project and one library for each that is described, in the same order.  The
paths are the normal forms of the described ones, seen from the directory of the document; the root
of a project may be normalised before its source roots are seen from it.  If that directory is
absolute, no path of the workspace has a `.` or a `..` left, however far the described paths climb.
-/

namespace BinaryNames

/-- An absolute path without `.` and `..`. -/
structure Path.IsCanonical (p : Path) : Prop where
  isAbsolute : p.isAbsolute = true
  current_notMem : .current ∉ p.components
  parent_notMem : .parent ∉ p.components

/-- The normal form of an absolute path has nothing but names after the root. -/
theorem Path.HasNormalForm.isCanonical {p q : Path} (h : p.HasNormalForm q)
    (hp : p.isAbsolute = true) : q.IsCanonical := by
  have hnormal : Normal true p.normalize.components := by
    rw [← hp, components_normalize]
    exact normal_normalComponents p
  obtain ⟨names, hnames⟩ := hnormal.exists_names
  rw [h.eq_normalize]
  refine ⟨(isAbsolute_normalize p).trans hp, ?_, ?_⟩
  · simp [hnames]
  · simp [hnames]

/-! ## Projects -/

/-- The project is what its description says, with its paths seen from `base`. -/
structure ProjectDescription.SeenFrom (base : Path) (d : ProjectDescription) (p : Project) :
    Prop where
  name_eq : p.name = d.name
  root : (base.join (.ofString d.root)).HasNormalForm p.root
  sourceRoots : List.Forall₂
    (fun r q ↦ ((base.join (.ofString d.root)).join (.ofString r)).HasNormalForm q)
    (if d.sourceRoots = [] then defaultSourceRoots else d.sourceRoots) p.sourceRoots

theorem ProjectDescription.seenFrom_resolve (base : Path) (d : ProjectDescription) :
    d.SeenFrom base (d.resolve base) := by
  refine ⟨rfl, Path.hasNormalForm_normalize _, ?_⟩
  simp only [resolve, List.isEmpty_iff]
  rw [List.forall₂_map_right_iff, List.forall₂_same]
  intro r _
  rw [← Path.normalize_join]
  exact Path.hasNormalForm_normalize _

section Project

variable {base : Path} {d : ProjectDescription} {p : Project} (h : d.SeenFrom base p)
include h

theorem ProjectDescription.SeenFrom.sourceRoots_ne_nil : p.sourceRoots ≠ [] := by
  have hlength := h.sourceRoots.length_eq
  intro hnil
  rw [hnil, List.length_nil, List.length_eq_zero_iff] at hlength
  split at hlength
  · cases hlength
  · contradiction

theorem ProjectDescription.SeenFrom.isCanonical (hbase : base.isAbsolute = true) :
    p.root.IsCanonical ∧ ∀ r ∈ p.sourceRoots, r.IsCanonical := by
  have hroot := Path.isAbsolute_join hbase (.ofString d.root)
  refine ⟨h.root.isCanonical hroot, fun r hr ↦ ?_⟩
  have hall := h.sourceRoots.flip.imp fun _ _ hnormal ↦
    And.intro (hnormal.isCanonical (Path.isAbsolute_join hroot _)) hnormal
  exact ((List.forall₂_and_left _ _).1 hall).1 r hr

end Project

/-! ## Libraries -/

/-- The library is what its description says, with its archive seen from `base`. -/
structure LibraryDescription.SeenFrom (base : Path) (d : LibraryDescription) (l : Library) :
    Prop where
  id_eq : l.id = d.id
  types_eq : l.types = d.types
  archive : Option.Rel (fun a q ↦ (base.join (.ofString a)).HasNormalForm q) d.archive l.archive

theorem LibraryDescription.seenFrom_resolve (base : Path) (d : LibraryDescription) :
    d.SeenFrom base (d.resolve base) := by
  refine ⟨rfl, rfl, ?_⟩
  rw [resolve]
  cases d.archive with
  | none => exact .none
  | some a => exact .some (Path.hasNormalForm_normalize _)

theorem LibraryDescription.SeenFrom.isCanonical {base : Path} {d : LibraryDescription} {l : Library}
    (h : d.SeenFrom base l) (hbase : base.isAbsolute = true) : ∀ a ∈ l.archive, a.IsCanonical := by
  intro a ha
  have harchive := h.archive
  rw [ha] at harchive
  generalize d.archive = described at harchive
  cases harchive with
  | some hnormal => exact hnormal.isCanonical (Path.isAbsolute_join hbase _)

/-! ## Workspaces -/

/-- A described workspace keeps the number and the order of projects and libraries.  Each path is
the normal form of the described one, and from an absolute directory all of them are canonical. -/
theorem WorkspaceDescription.resolve_canonical {base : Path} (hbase : base.isAbsolute = true)
    (d : WorkspaceDescription) :
    (∀ text, ofToml? text = some d → Workspace.ofToml text base = .ok (d.resolve base)) ∧
      List.Forall₂ (ProjectDescription.SeenFrom base) d.projects (d.resolve base).projects ∧
      List.Forall₂ (LibraryDescription.SeenFrom base) d.libraries (d.resolve base).libraries ∧
      (∀ p ∈ (d.resolve base).projects, p.root.IsCanonical ∧ p.sourceRoots ≠ [] ∧
        ∀ r ∈ p.sourceRoots, r.IsCanonical) ∧
      ∀ l ∈ (d.resolve base).libraries, ∀ a ∈ l.archive, a.IsCanonical := by
  refine ⟨fun text htext ↦ ?_, ?_, ?_, ?_, ?_⟩
  · rw [Workspace.ofToml, htext]
  · rw [resolve, List.forall₂_map_right_iff, List.forall₂_same]
    exact fun p _ ↦ p.seenFrom_resolve base
  · rw [resolve, List.forall₂_map_right_iff, List.forall₂_same]
    exact fun l _ ↦ l.seenFrom_resolve base
  · rw [resolve, List.forall_mem_map]
    intro p _
    have hseen := p.seenFrom_resolve base
    exact ⟨(hseen.isCanonical hbase).1, hseen.sourceRoots_ne_nil, (hseen.isCanonical hbase).2⟩
  · rw [resolve, List.forall_mem_map]
    exact fun l _ ↦ (l.seenFrom_resolve base).isCanonical hbase

/-- Paths may climb out of the directory and past the root of the file system, or be absolute. -/
theorem WorkspaceDescription.resolve_canonical_climbing :
    let text :=
      "projects=[[\"p\",\"..\",[\"../../t\",\"/u/./v\"]],[\"q\"]]\nlibraries=[[\"../g.jar\",\"g\"]]"
    let base := Path.ofString "/w/./x"
    let d : WorkspaceDescription :=
      ⟨[⟨"p", "..", ["../../t", "/u/./v"]⟩, ⟨"q", ".", []⟩], [⟨some "../g.jar", "g", []⟩]⟩
    let w : Workspace :=
      ⟨[⟨"p", .ofString "/w", [.ofString "/t", .ofString "/u/v"]⟩,
        ⟨"q", .ofString "/w/x", [.ofString "/w/x/src/main/java", .ofString "/w/x/src/test/java"]⟩],
        [⟨"g", some (.ofString "/w/g.jar"), []⟩]⟩
    base.isAbsolute = true ∧ ofToml? text = some d ∧ Workspace.ofToml text base = .ok w ∧
      List.Forall₂ (ProjectDescription.SeenFrom base) d.projects w.projects ∧
      (Path.ofString "/t").IsCanonical ∧ (Path.ofString "/w/g.jar").IsCanonical := by
  intro text base d w
  have hbase : base.isAbsolute = true := by decide
  have hd : ofToml? text = some d := by decide +kernel
  have hresolve : d.resolve base = w := by decide +kernel
  obtain ⟨htext, hseen, -, hprojects, hlibraries⟩ := resolve_canonical hbase d
  rw [hresolve] at htext hseen hprojects hlibraries
  refine ⟨hbase, hd, htext text hd, hseen, ?_, ?_⟩
  · exact (hprojects _ List.mem_cons_self).2.2 _ List.mem_cons_self
  · exact hlibraries _ List.mem_cons_self _ rfl

end BinaryNames
