import BinaryNames.Proofs.Path.NormalForm
import BinaryNames.Proofs.ProjectOrder
import Mathlib

/-!
# The Deepest Root Around a File

The roots around a file are all starts of one list of components, so each of them is a start of the
deepest one.  Choosing by the number of components therefore finds a root that lies in all others
around the file, and every such root has the same components.  What is chosen depends neither on the
order of the roots nor on how often one is listed, nor on how the file is spelled.
-/

namespace BinaryNames

theorem Path.isUnder_iff {p root : Path} :
    p.isUnder root = true ↔ root.components <+: p.components :=
  List.isPrefixOf_iff_prefix

theorem Path.isUnder_eq_false_iff {p root : Path} :
    p.isUnder root = false ↔ ¬ root.components <+: p.components := by
  rw [← isUnder_iff, Bool.not_eq_true]

/-- The root is around the file, and every root around the file is a start of it. -/
structure IsDeepest (roots : List Path) (file root : Path) : Prop where
  mem : root ∈ roots
  around : root.components <+: file.components
  above : ∀ r ∈ roots, r.components <+: file.components → r.components <+: root.components

section Deepest

variable {roots others : List Path} {file root other : Path}

theorem isDeepest_of_length_le (hmem : root ∈ roots) (haround : root.components <+: file.components)
    (hle : ∀ r ∈ roots, r.components <+: file.components →
      r.components.length ≤ root.components.length) : IsDeepest roots file root :=
  ⟨hmem, haround, fun r hr hprefix ↦ List.prefix_of_prefix_length_le hprefix haround
    (hle r hr hprefix)⟩

/-- Of two roots that are deepest, each is a start of the other. -/
theorem IsDeepest.components_eq (h : IsDeepest roots file root) (h' : IsDeepest roots file other) :
    root.components = other.components :=
  (h'.above root h.mem h.around).eq_of_length_le (h.above other h'.mem h'.around).length_le

theorem IsDeepest.congr (h : IsDeepest roots file root) (hmem : ∀ r, r ∈ others ↔ r ∈ roots) :
    IsDeepest others file root :=
  ⟨(hmem root).2 h.mem, h.around, fun r hr ↦ h.above r ((hmem r).1 hr)⟩

end Deepest

/-! ## Source roots -/

namespace Package

variable {file root : Path} {roots others : List Path}

theorem isDeepest_of_deepestRoot (h : deepestRoot file roots = some root) :
    IsDeepest roots file root := by
  obtain ⟨hmem, haround⟩ := List.mem_filter.1 (mem_of_lastMaxBy h)
  refine isDeepest_of_length_le hmem (Path.isUnder_iff.1 haround) fun r hr hprefix ↦ ?_
  exact le_of_lastMaxBy h r (List.mem_filter.2 ⟨hr, Path.isUnder_iff.2 hprefix⟩)

theorem ofFile?_eq_none_iff_outside :
    ofFile? file roots = none ↔ ∀ r ∈ roots, ¬ r.components <+: file.components := by
  simp only [ofFile?_eq_none_iff, Path.isUnder_eq_false_iff]

/-- A deepest root may be passed over only for one with the same components. -/
theorem exists_deepestRoot (h : IsDeepest roots file root) :
    ∃ chosen, deepestRoot file roots = some chosen ∧ chosen.components = root.components := by
  cases hchosen : deepestRoot file roots with
  | none =>
    have hnone : ofFile? file roots = none := by rw [ofFile?, hchosen, Option.map_none]
    exact absurd h.around (ofFile?_eq_none_iff_outside.1 hnone root h.mem)
  | some chosen => exact ⟨chosen, rfl, (isDeepest_of_deepestRoot hchosen).components_eq h⟩

theorem ofFile?_of_isDeepest (h : IsDeepest roots file root) :
    ofFile? file roots =
      some (String.intercalate "." ((directoryNames file root).map Utf8.decodeLossy)) := by
  obtain ⟨chosen, hchosen, hcomponents⟩ := exists_deepestRoot h
  rw [ofFile?, hchosen, Option.map_some, directoryNames, hcomponents, ← directoryNames]

theorem exists_isDeepest_of_ofFile? {package : String} (h : ofFile? file roots = some package) :
    ∃ root, IsDeepest roots file root := by
  obtain ⟨root, hchosen, -⟩ := Option.map_eq_some_iff.1 h
  exact ⟨root, isDeepest_of_deepestRoot hchosen⟩

theorem ofFile?_congr_mem (hmem : ∀ r, r ∈ others ↔ r ∈ roots) :
    ofFile? file others = ofFile? file roots := by
  cases h : ofFile? file roots with
  | none =>
    rw [ofFile?_eq_none_iff_outside] at h ⊢
    exact fun r hr ↦ h r ((hmem r).1 hr)
  | some package =>
    obtain ⟨root, hdeepest⟩ := exists_isDeepest_of_ofFile? h
    rw [← h, ofFile?_of_isDeepest hdeepest, ofFile?_of_isDeepest (hdeepest.congr hmem)]

end Package

/-- The root stands nowhere but at the front. -/
theorem Path.eq_nil_of_components_concat {p : Path} {front : List Component}
    (h : p.components = front ++ [.root]) : front = [] := by
  rw [components_eq] at h
  rcases p.innerComponents.eq_nil_or_concat with hinner | ⟨inner, c, hinner⟩
  · rw [hinner, List.append_nil] at h
    unfold leadingComponents at h
    split_ifs at h
    · simpa using h
    · simpa using congrArg List.getLast? h
    · simp at h
  · rw [hinner, List.concat_eq_append, ← List.append_assoc] at h
    have hc : c = .root := by simpa using (List.append_inj' h rfl).2
    exact absurd (by simp [hinner, hc]) (root_notMem_innerComponents p)

/-- The directories of a file are the names below the root, without the file's own. -/
theorem Package.directoryNames_eq {file root : Path} {below : List Component}
    (h : file.components = root.components ++ below) :
    directoryNames file root = below.dropLast.filterMap Component.name? := by
  rw [directoryNames, h, List.drop_left]
  unfold Path.parentComponents?
  split
  · next hlast => simp [List.getLast?_eq_none_iff.1 hlast]
  · next hlast =>
    obtain ⟨front, rfl⟩ := List.getLast?_eq_some_iff.1 hlast
    rw [← List.append_assoc] at h
    simp [(List.append_eq_nil_iff.1 (Path.eq_nil_of_components_concat h)).2]
  · rfl

/-! ## Projects -/

namespace Workspace

variable {w : Workspace} {file : Path} {p : Project}

theorem isDeepest_of_projectFor? (h : w.projectFor? file = some p) :
    IsDeepest (w.projects.map (·.root)) file.normalize p.root := by
  have hmay := mayOwn_of_projectFor? h
  refine isDeepest_of_length_le (List.mem_map_of_mem hmay.mem) (Path.isUnder_iff.1 hmay.around) ?_
  rw [List.forall_mem_map]
  exact fun q hq hprefix ↦ hmay.deepest q hq (Path.isUnder_iff.2 hprefix)

theorem projectFor_eq_error_iff :
    (∃ e, w.projectFor file = .error e) ↔
      ∀ p ∈ w.projects, ¬ p.root.components <+: file.normalize.components := by
  have hnone : (∃ e, w.projectFor file = .error e) ↔ w.projectFor? file = none := by
    unfold projectFor
    cases w.projectFor? file <;> simp
  simp only [hnone, projectFor?_eq_none_iff, Path.isUnder_eq_false_iff]

/-- Projects with the same members choose roots with the same components, or none at all. -/
theorem components_projectFor_congr {others : List Project} (libraries : List Library)
    (hmem : ∀ q, q ∈ others ↔ q ∈ w.projects) :
    (projectFor ⟨others, libraries⟩ file).map (·.root.components) =
      (w.projectFor file).map (·.root.components) := by
  have hroots : ∀ r, r ∈ others.map (·.root) ↔ r ∈ w.projects.map (·.root) := by
    simp [hmem]
  cases hp : w.projectFor? file with
  | none =>
    have hothers : projectFor? ⟨others, libraries⟩ file = none := by
      rw [projectFor?_eq_none_iff] at hp ⊢
      exact fun q hq ↦ hp q ((hmem q).1 hq)
    rw [projectFor, hothers, projectFor, hp]
  | some p =>
    have hdeepest := isDeepest_of_projectFor? hp
    cases hq : projectFor? ⟨others, libraries⟩ file with
    | none =>
      rw [projectFor?_eq_none_iff] at hq
      have hmay := mayOwn_of_projectFor? hp
      exact absurd hmay.around (by simp [hq p ((hmem p).2 hmay.mem)])
    | some q =>
      have hcomponents := (isDeepest_of_projectFor? hq).components_eq (hdeepest.congr hroots)
      rw [projectFor, hq, projectFor, hp]
      exact congrArg Except.ok hcomponents

theorem projectFor_of_normalize_eq {other : Path} (h : other.normalize = file.normalize) :
    w.projectFor other = w.projectFor file := by
  rw [projectFor, projectFor?, h, ← projectFor?, ← projectFor]

end Workspace

/-- A file has a package exactly if it is in a source root, and then the package is read off the
directories below a root that every other root around the file is a start of.  It depends only on
which roots there are.  In the same way a file has a project exactly if its normal form is in the
root of one, every other project around it has a root that is a start of the chosen one, and neither
the order of the projects nor the spelling of the file changes the chosen root. -/
theorem deepest_root_exact (file : Path) (roots : List Path) (w : Workspace) :
    ((Package.ofFile? file roots = none ↔ ∀ r ∈ roots, ¬ r.components <+: file.components) ∧
      (∀ package, Package.ofFile? file roots = some package →
        ∃ root below, IsDeepest roots file root ∧ file.components = root.components ++ below ∧
          package = String.intercalate "."
            ((below.dropLast.filterMap Component.name?).map Utf8.decodeLossy)) ∧
      ∀ others, (∀ r, r ∈ others ↔ r ∈ roots) →
        Package.ofFile? file others = Package.ofFile? file roots) ∧
    ((∃ e, w.projectFor file = .error e) ↔
      ∀ p ∈ w.projects, ¬ p.root.components <+: file.normalize.components) ∧
    (∀ p, w.projectFor file = .ok p →
      p ∈ w.projects ∧ IsDeepest (w.projects.map (·.root)) file.normalize p.root) ∧
    (∀ others libraries, (∀ q, q ∈ others ↔ q ∈ w.projects) →
      (Workspace.projectFor ⟨others, libraries⟩ file).map (·.root.components) =
        (w.projectFor file).map (·.root.components)) ∧
    ∀ other q, file.HasNormalForm q → other.HasNormalForm q →
      w.projectFor other = w.projectFor file := by
  refine ⟨⟨Package.ofFile?_eq_none_iff_outside, ?_, fun others ↦ Package.ofFile?_congr_mem⟩,
    Workspace.projectFor_eq_error_iff, ?_,
    fun others libraries ↦ Workspace.components_projectFor_congr libraries, ?_⟩
  · intro package hpackage
    obtain ⟨root, hdeepest⟩ := Package.exists_isDeepest_of_ofFile? hpackage
    obtain ⟨below, hbelow⟩ := hdeepest.around
    rw [Package.ofFile?_of_isDeepest hdeepest, Package.directoryNames_eq hbelow.symm] at hpackage
    exact ⟨root, below, hdeepest, hbelow.symm, (Option.some.inj hpackage).symm⟩
  · intro p hp
    obtain ⟨hmem, hchosen⟩ := Workspace.mem_of_projectFor hp
    exact ⟨hmem, Workspace.isDeepest_of_projectFor? hchosen⟩
  · intro other q hfile hother
    exact Workspace.projectFor_of_normalize_eq (hother.eq_normalize.symm.trans hfile.eq_normalize)

end BinaryNames
