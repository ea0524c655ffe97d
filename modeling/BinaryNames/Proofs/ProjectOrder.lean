import BinaryNames.Proofs.Ownership
import Mathlib

/-!
# The Order of Projects

A file belongs to the project whose root is deepest around it.  Several projects may have the same
root, and among them the last one listed owns the file.  So a name query can depend on the order of
the projects, and it does exactly when the projects that tie for a file would answer differently.
-/

namespace BinaryNames

/-! ## The last of the greatest -/

section LastMax

variable {α : Type} {key : α → Nat} {l : List α} {a : α}

theorem le_of_foldl_max (best : Option α)
    (h : l.foldl (fun best a ↦
      match best with
      | none => some a
      | some b => if key b ≤ key a then some a else some b) best = some a) :
    (∀ b ∈ l, key b ≤ key a) ∧ ∀ b, best = some b → key b ≤ key a := by
  induction l generalizing best with
  | nil =>
    refine ⟨by simp, fun b hb ↦ ?_⟩
    obtain rfl := Option.some.inj (hb.symm.trans h)
    exact le_rfl
  | cons c rest ih =>
    obtain ⟨hrest, hbest⟩ := ih _ h
    rw [List.forall_mem_cons]
    cases best with
    | none => exact ⟨⟨hbest c rfl, hrest⟩, fun b hb ↦ by cases hb⟩
    | some b =>
      -- of `b` and `c` the greater one went on
      dsimp only at hbest
      split at hbest
      · next hle =>
        have hc := hbest c rfl
        refine ⟨⟨hc, hrest⟩, fun b' hb' ↦ ?_⟩
        obtain rfl := Option.some.inj hb'
        exact hle.trans hc
      · next hlt =>
        have hb := hbest b rfl
        refine ⟨⟨(Nat.le_of_not_le hlt).trans hb, hrest⟩, fun b' hb' ↦ ?_⟩
        obtain rfl := Option.some.inj hb'
        exact hb

theorem le_of_lastMaxBy (h : lastMaxBy key l = some a) : ∀ b ∈ l, key b ≤ key a :=
  (le_of_foldl_max none h).1

/-- An element that comes last is chosen if no other has a greater key. -/
theorem lastMaxBy_concat (h : ∀ b ∈ l, key b ≤ key a) : lastMaxBy key (l ++ [a]) = some a := by
  rw [lastMaxBy, List.foldl_append, ← lastMaxBy]
  cases hbest : lastMaxBy key l with
  | none => rfl
  | some b => exact if_pos (h b (mem_of_lastMaxBy hbest))

end LastMax

/-! ## Ties -/

/-- The project has a root around the file, and no project has a deeper one.  There may be several
such projects. -/
structure MayOwn (projects : List Project) (file : Path) (p : Project) : Prop where
  mem : p ∈ projects
  around : file.normalize.isUnder p.root = true
  deepest : ∀ q ∈ projects, file.normalize.isUnder q.root = true →
    q.root.components.length ≤ p.root.components.length

section Ties

variable {projects others : List Project} {libraries : List Library} {file : Path} {p q : Project}

theorem mayOwn_of_projectFor? (h : Workspace.projectFor? ⟨projects, libraries⟩ file = some p) :
    MayOwn projects file p := by
  obtain ⟨hmem, haround⟩ := List.mem_filter.1 (mem_of_lastMaxBy h)
  exact ⟨hmem, haround, fun q hq hunder ↦ le_of_lastMaxBy h q (List.mem_filter.2 ⟨hq, hunder⟩)⟩

theorem MayOwn.perm (h : MayOwn projects file p) (hperm : others.Perm projects) :
    MayOwn others file p :=
  ⟨hperm.mem_iff.2 h.mem, h.around, fun q hq ↦ h.deepest q (hperm.mem_iff.1 hq)⟩

/-- Projects that tie have the same root. -/
theorem MayOwn.components_root (hp : MayOwn projects file p) (hq : MayOwn projects file q) :
    p.root.components = q.root.components := by
  have hprefix : p.root.components <+: q.root.components :=
    List.prefix_of_prefix_length_le (List.isPrefixOf_iff_prefix.1 hp.around)
      (List.isPrefixOf_iff_prefix.1 hq.around) (hq.deepest p hp.mem hp.around)
  exact hprefix.eq_of_length_le (hp.deepest q hq.mem hq.around)

theorem MayOwn.filter_singleton (h : MayOwn projects file p) :
    [p].filter (fun p ↦ file.normalize.isUnder p.root) = [p] := by
  simp [h.around]

/-- Of projects that tie, each owns the file if it is listed last. -/
theorem MayOwn.exists_perm (h : MayOwn projects file p) (libraries : List Library) :
    ∃ others, others.Perm projects ∧
      Workspace.projectFor? ⟨others, libraries⟩ file = some p := by
  refine ⟨projects.erase p ++ [p], ?_, ?_⟩
  · exact (List.perm_append_singleton p _).trans (List.perm_cons_erase h.mem).symm
  · rw [Workspace.projectFor?, List.filter_append, h.filter_singleton]
    refine lastMaxBy_concat fun q hq ↦ ?_
    obtain ⟨hmem, hunder⟩ := List.mem_filter.1 hq
    exact h.deepest q (List.mem_of_mem_erase hmem) hunder

/-- A project that may own the file does so on its own. -/
theorem MayOwn.projectFor?_singleton (h : MayOwn projects file p) :
    Workspace.projectFor? ⟨[p], libraries⟩ file = some p := by
  rw [Workspace.projectFor?, h.filter_singleton]
  rfl

end Ties

/-! ## Answers -/

namespace Query

variable {s : Snapshot} {input : String} {line : Int} {file : Path}

/-- A text that is no file URI gets the same answer from every workspace. -/
theorem nameAt_of_no_file (h : ∀ file, FileUri.path? input ≠ .ok (some file)) (w w' : Workspace) :
    nameAt s w input line = nameAt s w' input line := by
  unfold nameAt
  cases hpath : FileUri.path? input with
  | error e => rfl
  | ok path =>
    cases path with
    | none => rfl
    | some file => exact absurd hpath (h file)

/-- Of the owner of a file only the package matters that it finds for the file. -/
theorem nameAt_congr_package {w w' : Workspace} {p q : Project}
    (hpath : FileUri.path? input = .ok (some file)) (hp : w.projectFor? file = some p)
    (hq : w'.projectFor? file = some q)
    (h : Package.ofFile? file p.sourceRoots = Package.ofFile? file q.sourceRoots) :
    nameAt s w input line = nameAt s w' input line := by
  unfold nameAt
  rw [hpath]
  simp only [bind, Except.bind, Workspace.projectFor, hp, hq, h]

section Order

variable {projects others : List Project} {libraries : List Library} {p : Project}
  (hpath : FileUri.path? input = .ok (some file))
include hpath

/-- The owner answers as it would on its own. -/
theorem nameAt_eq_of_owner (h : Workspace.projectFor? ⟨projects, libraries⟩ file = some p) :
    nameAt s ⟨projects, libraries⟩ input line = nameAt s ⟨[p], libraries⟩ input line :=
  nameAt_congr_package hpath h (mayOwn_of_projectFor? h).projectFor?_singleton rfl

/-- Where no project is around the file, none is in any order. -/
theorem nameAt_perm_of_no_owner (hperm : others.Perm projects)
    (h : Workspace.projectFor? ⟨projects, libraries⟩ file = none) :
    nameAt s ⟨others, libraries⟩ input line = nameAt s ⟨projects, libraries⟩ input line := by
  have hothers : Workspace.projectFor? ⟨others, libraries⟩ file = none := by
    rw [Workspace.projectFor?_eq_none_iff] at h ⊢
    exact fun p hp ↦ h p (hperm.mem_iff.1 hp)
  rw [nameAt_of_no_owner hpath h, nameAt_of_no_owner hpath hothers]

end Order

/-- Where the projects that tie would give the same answer, every order gives it. -/
theorem nameAt_perm {projects others : List Project} {libraries : List Library}
    (h : ∀ file p q, FileUri.path? input = .ok (some file) → MayOwn projects file p →
      MayOwn projects file q →
        nameAt s ⟨[p], libraries⟩ input line = nameAt s ⟨[q], libraries⟩ input line)
    (hperm : others.Perm projects) :
    nameAt s ⟨others, libraries⟩ input line = nameAt s ⟨projects, libraries⟩ input line := by
  by_cases hfile : ∃ file, FileUri.path? input = .ok (some file)
  · obtain ⟨file, hpath⟩ := hfile
    cases hp : Workspace.projectFor? ⟨others, libraries⟩ file with
    | none => exact (nameAt_perm_of_no_owner hpath hperm.symm hp).symm
    | some p =>
      cases hq : Workspace.projectFor? ⟨projects, libraries⟩ file with
      | none => exact nameAt_perm_of_no_owner hpath hperm hq
      | some q =>
        have hmay := (mayOwn_of_projectFor? hp).perm hperm.symm
        calc
          nameAt s ⟨others, libraries⟩ input line = nameAt s ⟨[p], libraries⟩ input line :=
            nameAt_eq_of_owner hpath hp
          _ = nameAt s ⟨[q], libraries⟩ input line :=
            h file p q hpath hmay (mayOwn_of_projectFor? hq)
          _ = nameAt s ⟨projects, libraries⟩ input line := (nameAt_eq_of_owner hpath hq).symm
  · exact nameAt_of_no_file (not_exists.1 hfile) _ _

/-- The order of the projects does not matter to a name query exactly if all projects that tie for
the deepest root around the file would give the same answer on their own.  It never matters if
projects with the same root have the same source roots. -/
theorem nameAt_order_iff (s : Snapshot) (projects : List Project) (libraries : List Library)
    (input : String) (line : Int) :
    ((∀ others, others.Perm projects →
        nameAt s ⟨others, libraries⟩ input line = nameAt s ⟨projects, libraries⟩ input line) ↔
      ∀ file p q, FileUri.path? input = .ok (some file) → MayOwn projects file p →
        MayOwn projects file q →
          nameAt s ⟨[p], libraries⟩ input line = nameAt s ⟨[q], libraries⟩ input line) ∧
    ((∀ p ∈ projects, ∀ q ∈ projects, p.root.components = q.root.components →
        p.sourceRoots = q.sourceRoots) →
      ∀ others, others.Perm projects →
        nameAt s ⟨others, libraries⟩ input line = nameAt s ⟨projects, libraries⟩ input line) := by
  refine ⟨⟨?_, fun h others ↦ nameAt_perm h⟩, ?_⟩
  · intro h file p q hpath hp hq
    obtain ⟨first, hfirst, hownerFirst⟩ := hp.exists_perm libraries
    obtain ⟨second, hsecond, hownerSecond⟩ := hq.exists_perm libraries
    calc
      nameAt s ⟨[p], libraries⟩ input line = nameAt s ⟨first, libraries⟩ input line :=
        (nameAt_eq_of_owner hpath hownerFirst).symm
      _ = nameAt s ⟨projects, libraries⟩ input line := h first hfirst
      _ = nameAt s ⟨second, libraries⟩ input line := (h second hsecond).symm
      _ = nameAt s ⟨[q], libraries⟩ input line := nameAt_eq_of_owner hpath hownerSecond
  · intro h others
    apply nameAt_perm
    intro file p q hpath hp hq
    have hroots := h p hp.mem q hq.mem (hp.components_root hq)
    exact nameAt_congr_package hpath hp.projectFor?_singleton hq.projectFor?_singleton
      (by rw [hroots])

/-- Two projects have the root `/w`, and only `p` has a source root around the file.  If `q` is
listed last, the file is returned as it is; if `p` is, its class is named. -/
theorem order_matters_sameRoot :
    let p : Project := ⟨"p", .ofString "/w", [.ofString "/w/s"]⟩
    let q : Project := ⟨"q", .ofString "/w", [.ofString "/w/t"]⟩
    [q, p].Perm [p, q] ∧
      nameAt sharedSnapshot ⟨[p, q], []⟩ "file:///w/s/A.java" 1 = .ok "file:///w/s/A.java" ∧
      nameAt sharedSnapshot ⟨[q, p], []⟩ "file:///w/s/A.java" 1 = .ok "A" := by
  intro p q
  refine ⟨.swap p q [], ?_, ?_⟩
  · have howner : Workspace.projectFor? ⟨[p, q], []⟩ (.ofString "/w/s/A.java") = some q := by cbv
    exact nameAt_of_no_root path?_shared howner (by cbv)
  · have howner : Workspace.projectFor? ⟨[q, p], []⟩ (.ofString "/w/s/A.java") = some p := by cbv
    have hpackage : Package.ofFile? (.ofString "/w/s/A.java") p.sourceRoots = some "" := by cbv
    have hspan : (Lines.ofText "class A\x7b\x7d").span 1 = .ok ⟨0, 9⟩ := by cbv
    have hname : nameOnLine? (.ofString "/w/s/A.java") "class A\x7b\x7d" "" ⟨0, 9⟩ = some "A" := by
      rw [nameOnLine?, declarations_classA (by decide)]
      cbv
    rw [nameAt_of_root path?_shared howner hpackage readText_shared hspan, hname]
    rfl

end Query

end BinaryNames
