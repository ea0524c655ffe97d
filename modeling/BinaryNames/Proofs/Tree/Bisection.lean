import BinaryNames.Proofs.Tree.Laminar
import Mathlib

/-!
# Searching by Halves

A range of offsets is searched at its two ends and then by halves, without the ends.  Nothing is
assumed of the spans here: children may overlap, and they may lie outside their parents.  An offset
is a hit exactly when a child of the root covers it, and the halves together pass over no offset, so
the search fails only when no child of the root meets the range.  The ranges that a search goes
through (`Narrows`) get smaller with each step, and what is computed in one of them is an offset.
-/

namespace BinaryNames.DeclarationTree

/-! ## Hits -/

namespace Linked

variable {t : DeclarationTree} (h : t.Linked) {offset : Nat}
include h

/-- The way down leaves the root exactly when a child of the root covers the offset. -/
theorem elementAt_ne_zero_iff :
    t.elementAt offset ≠ 0 ↔ ∃ c ∈ t.childIds 0, t.covers offset c = true := by
  cases hchild : t.childAt? 0 offset with
  | none =>
    have hzero : t.elementAt offset = 0 := descend_of_no_childAt? hchild
    rw [childAt?_eq, List.find?_eq_none] at hchild
    simp only [hzero, ne_eq, not_true_eq_false, false_iff, not_exists, not_and]
    exact hchild
  | some c =>
    have hpos : 0 < t.descend offset c := by
      apply h.descend_induction (motive := fun i ↦ 0 < i)
      · exact fun i j hparent _ _ ↦ Nat.zero_lt_of_lt (parent?_lt hparent)
      · exact (t.childAt?_bounds hchild).1
    have helement : t.elementAt offset = t.descend offset c := descend_of_childAt? hchild
    rw [childAt?_eq] at hchild
    refine iff_of_true ?_ ⟨c, List.mem_of_find?_eq_some hchild, List.find?_some hchild⟩
    rw [helement]
    exact hpos.ne'

theorem hit?_isSome_iff :
    (t.hit? offset).isSome ↔ ∃ c ∈ t.childIds 0, t.covers offset c = true := by
  rw [← h.elementAt_ne_zero_iff]
  by_cases hzero : t.elementAt offset = 0
  · simp [hit?, hzero]
  · simp [hit?, hzero]

end Linked

/-- A search finds something exactly when there is a hit in its range. -/
theorem probe_isSome_iff {t : DeclarationTree} {start stop : Nat} :
    (t.probe start stop).isSome ↔
      ∃ k, start ≤ k ∧ k ≤ max start stop ∧ (t.hit? k).isSome := by
  constructor
  · intro hsome
    obtain ⟨id, hid⟩ := Option.isSome_iff_exists.1 hsome
    obtain ⟨k, hlower, hupper, hhit⟩ := exists_hit?_of_probe hid
    exact ⟨k, hlower, hupper, by rw [hhit]; rfl⟩
  · rintro ⟨k, hlower, hupper, hhit⟩
    obtain ⟨id, hid⟩ := Option.isSome_iff_exists.1 hhit
    by_contra hnone
    rw [Option.not_isSome_iff_eq_none] at hnone
    rcases Nat.lt_or_ge stop k with hlt | hle
    · -- beyond `stop` there is only the start of an inverted range
      obtain rfl : k = start := by omega
      rw [probe_of_hit? hid stop] at hnone
      cases hnone
    · rw [hit?_eq_none_of_probe hnone hlower hle] at hid
      cases hid

theorem Linked.find?_isSome_iff {t : DeclarationTree} (h : t.Linked) {start stop : Nat} :
    (t.find? start stop).isSome ↔
      ∃ c ∈ t.childIds 0, ∃ k, start ≤ k ∧ k ≤ max start stop ∧ t.covers k c = true := by
  rw [find?, Option.isSome_map, probe_isSome_iff]
  simp only [h.hit?_isSome_iff]
  constructor
  · rintro ⟨k, hlower, hupper, c, hc, hcovers⟩
    exact ⟨c, hc, k, hlower, hupper, hcovers⟩
  · rintro ⟨c, hc, k, hlower, hupper, hcovers⟩
    exact ⟨k, hlower, hupper, c, hc, hcovers⟩

/-! ## What is found -/

theorem probe_of_hit?_stop {t : DeclarationTree} {start stop id : Nat}
    (hstart : t.hit? start = none) (hlt : start < stop) (h : t.hit? stop = some id) :
    t.probe start stop = some id := by
  rw [probe, hstart]
  simp only [Nat.not_le.2 hlt, if_false, h]

/-- What a search from `start` to `stop` may answer: a declaration with the declarations around it,
all of which cover an offset of the range, the start being preferred to the end and the end to what
lies between. -/
structure Answers (t : DeclarationTree) (start stop : Nat) (found : Found) : Prop where
  not_root : found.declaration ≠ 0
  innermost : found.chain.head? = some found.declaration
  covering : ∃ k, start ≤ k ∧ k ≤ max start stop ∧ found.declaration = t.elementAt k ∧
    ∀ id ∈ found.chain, t.covers k id = true
  at_start : t.elementAt start ≠ 0 → found.declaration = t.elementAt start
  at_stop : t.elementAt start = 0 → start < stop → t.elementAt stop ≠ 0 →
    found.declaration = t.elementAt stop

theorem hit?_of_elementAt_ne_zero {t : DeclarationTree} {offset : Nat}
    (h : t.elementAt offset ≠ 0) : t.hit? offset = some (t.elementAt offset) :=
  hit?_eq_some_iff.2 ⟨rfl, Nat.pos_of_ne_zero h⟩

theorem hit?_of_elementAt_eq_zero {t : DeclarationTree} {offset : Nat}
    (h : t.elementAt offset = 0) : t.hit? offset = none := by
  simp [hit?, h]

theorem Rooted.answers_of_find? {t : DeclarationTree} (h : t.Rooted) {start stop : Nat}
    {found : Found} (hfound : t.find? start stop = some found) : t.Answers start stop found := by
  obtain ⟨id, hprobe, rfl⟩ := Option.map_eq_some_iff.1 hfound
  obtain ⟨k, hlower, hupper, hhit⟩ := exists_hit?_of_probe hprobe
  obtain ⟨rfl, hpos⟩ := hit?_eq_some_iff.1 hhit
  obtain ⟨p, hp, -⟩ := h.exists_parent hpos (h.elementAt_lt_size k)
  exact {
    not_root := hpos.ne'
    innermost := by
      show (t.chain (t.elementAt k)).head? = some (t.elementAt k)
      rw [h.chain_child hp, List.head?_cons]
    covering := ⟨k, hlower, hupper, rfl, fun a ha ↦ h.covers_of_mem_chain_elementAt ha⟩
    at_start := by
      intro hne
      have hstart := probe_of_hit? (hit?_of_elementAt_ne_zero hne) stop
      exact Option.some.inj (hprobe.symm.trans hstart)
    at_stop := by
      intro hzero hlt hne
      have hstop := probe_of_hit?_stop (hit?_of_elementAt_eq_zero hzero) hlt
        (hit?_of_elementAt_ne_zero hne)
      exact Option.some.inj (hprobe.symm.trans hstop) }

/-! ## The ranges of a search -/

/-- Where a range is cut in halves. -/
def middle (start stop : Nat) : Nat := start + (stop - start) / 2

/-- One range from which a search goes on to another, after it has missed at both ends. -/
inductive Narrows (t : DeclarationTree) : Nat × Nat → Nat × Nat → Prop where
  | lower {start stop : Nat} (hstart : t.hit? start = none) (hlt : start < stop)
    (hstop : t.hit? stop = none) (hmiddle : start < middle start stop) :
    Narrows t (start, stop) (start + 1, middle start stop)
  | upper {start stop : Nat} (hstart : t.hit? start = none) (hlt : start < stop)
    (hstop : t.hit? stop = none) (hmiddle : start < middle start stop)
    (hlower : t.probe (start + 1) (middle start stop) = none) :
    Narrows t (start, stop) (middle start stop + 1, stop - 1)

/-- What is computed from two offsets on the way to the halves is an offset again: no sum is cut at
the largest offset and no difference at zero. -/
structure Uncut (start stop : Nat) : Prop where
  width : start ≤ stop
  middle_le : middle start stop ≤ maxOffset
  lower_start : start + 1 ≤ maxOffset
  upper_start : middle start stop + 1 ≤ maxOffset
  upper_stop : 1 ≤ stop

theorem uncut_of_lt {start stop : Nat} (hlt : start < stop) (hstop : stop ≤ maxOffset) :
    Uncut start stop := by
  have hhalf : (stop - start) / 2 < stop - start := Nat.div_lt_self (by omega) (by decide)
  have hmiddle : middle start stop < stop := by
    unfold middle
    omega
  exact ⟨hlt.le, by omega, by omega, by omega, by omega⟩

namespace Narrows

variable {t : DeclarationTree} {r r' : Nat × Nat}

theorem width_lt (h : t.Narrows r r') : r'.2 - r'.1 < r.2 - r.1 := by
  cases h with
  | lower | upper =>
    unfold middle
    dsimp only
    omega

/-- No search goes on without end. -/
theorem wellFounded (t : DeclarationTree) : WellFounded fun r' r ↦ t.Narrows r r' :=
  Subrelation.wf (fun h ↦ width_lt h) (measure fun r : Nat × Nat ↦ r.2 - r.1).wf

theorem le_maxOffset (h : t.Narrows r r') (hr : r.1 ≤ maxOffset ∧ r.2 ≤ maxOffset) :
    r'.1 ≤ maxOffset ∧ r'.2 ≤ maxOffset := by
  cases h with
  | lower _ hlt =>
    have huncut := uncut_of_lt hlt hr.2
    exact ⟨huncut.lower_start, huncut.middle_le⟩
  | upper _ hlt =>
    have huncut := uncut_of_lt hlt hr.2
    exact ⟨huncut.upper_start, (Nat.sub_le _ 1).trans hr.2⟩

theorem le_maxOffset_of_run (h : Relation.ReflTransGen t.Narrows r r')
    (hr : r.1 ≤ maxOffset ∧ r.2 ≤ maxOffset) : r'.1 ≤ maxOffset ∧ r'.2 ≤ maxOffset := by
  induction h with
  | refl => exact hr
  | tail _ hstep ih => exact hstep.le_maxOffset ih

/-- A search that fails goes on only to searches that fail. -/
theorem probe_eq_none (h : t.Narrows r r') (hr : t.probe r.1 r.2 = none) :
    t.probe r'.1 r'.2 = none := by
  cases h with
  | lower hstart hlt hstop hmiddle =>
    rw [probe, hstart] at hr
    simp only [Nat.not_le.2 hlt, if_false, hstop] at hr
    unfold middle at hmiddle ⊢
    rw [if_neg (Nat.not_le.2 hmiddle)] at hr
    cases hlower : t.probe (_ + 1) (_ + (_ - _) / 2) with
    | none => rfl
    | some id =>
      rw [hlower] at hr
      cases hr
  | upper hstart hlt hstop hmiddle hlower =>
    rw [probe, hstart] at hr
    simp only [Nat.not_le.2 hlt, if_false, hstop] at hr
    unfold middle at hmiddle hlower ⊢
    rw [if_neg (Nat.not_le.2 hmiddle), hlower] at hr
    exact hr

end Narrows

theorem hit?_eq_none_of_probe_ends {t : DeclarationTree} {start stop : Nat}
    (h : t.probe start stop = none) :
    t.hit? start = none ∧ (start < stop → t.hit? stop = none) := by
  constructor
  · cases hhit : t.hit? start with
    | none => rfl
    | some id =>
      rw [probe_of_hit? hhit stop] at h
      cases h
  · exact fun hlt ↦ hit?_eq_none_of_probe h hlt.le le_rfl

/-- A search fails exactly when it misses at the ends of every range that it goes through. -/
theorem probe_eq_none_iff {t : DeclarationTree} {start stop : Nat} :
    t.probe start stop = none ↔ ∀ a b, Relation.ReflTransGen t.Narrows (start, stop) (a, b) →
      t.hit? a = none ∧ (a < b → t.hit? b = none) := by
  constructor
  · intro hnone a b hrun
    have hprobe : t.probe a b = none := by
      refine Relation.ReflTransGen.head_induction_on
        (motive := fun r _ ↦ t.probe r.1 r.2 = none → t.probe a b = none) hrun id ?_ hnone
      exact fun hstep _ ih hr ↦ ih (hstep.probe_eq_none hr)
    exact hit?_eq_none_of_probe_ends hprobe
  · intro hmisses
    have hends := hmisses start stop .refl
    fun_induction t.probe start stop with
    | case1 start stop id hhit =>
      rw [hends.1] at hhit
      cases hhit
    | case2 => rfl
    | case3 start stop _ hlt id hhit =>
      rw [hends.2 (Nat.not_le.1 hlt)] at hhit
      cases hhit
    | case4 => rfl
    | case5 start stop hstart hlt hstop mid hmid id hlower ih =>
      have hstep : t.Narrows (start, stop) (start + 1, mid) :=
        .lower hstart (Nat.not_le.1 hlt) hstop (Nat.not_le.1 hmid)
      have hbelow := fun a b hrun ↦ hmisses a b (.head hstep hrun)
      rw [ih hbelow (hbelow _ _ .refl)] at hlower
      cases hlower
    | case6 start stop hstart hlt hstop mid hmid hlower _ ih =>
      have hstep : t.Narrows (start, stop) (mid + 1, stop - 1) :=
        .upper hstart (Nat.not_le.1 hlt) hstop (Nat.not_le.1 hmid) hlower
      have hbelow := fun a b hrun ↦ hmisses a b (.head hstep hrun)
      exact ih hbelow (hbelow _ _ .refl)

/-! ## Every tree -/

/-- Whatever has been pushed, a search ends, and it finds something exactly when a child of the root
meets the range.  What it finds covers an offset of the range.  It fails when it misses at the ends
of all the ranges that it goes through, and in none of them is an offset cut. -/
theorem find?_misses_nothing (size : Nat) {pushes : List (Nat × Declaration)}
    (hpushes : ∀ p ∈ pushes, p.2.kind ≠ .unit) {start stop : Nat} (hstart : start ≤ maxOffset)
    (hstop : stop ≤ maxOffset) :
    let t := ofPushes size pushes
    WellFounded (fun r' r ↦ t.Narrows r r') ∧
    ((t.find? start stop).isSome ↔
      ∃ c ∈ t.childIds 0, ∃ k, start ≤ k ∧ k ≤ max start stop ∧ t.covers k c = true) ∧
    (∀ found, t.find? start stop = some found → t.Answers start stop found) ∧
    (t.find? start stop = none ↔
      ∀ a b, Relation.ReflTransGen t.Narrows (start, stop) (a, b) →
        t.hit? a = none ∧ (a < b → t.hit? b = none)) ∧
    ∀ a b, Relation.ReflTransGen t.Narrows (start, stop) (a, b) → a < b → Uncut a b := by
  intro t
  have hrooted : t.Rooted := rooted_ofPushes size hpushes
  refine ⟨Narrows.wellFounded t, hrooted.find?_isSome_iff, fun found ↦ hrooted.answers_of_find?,
    ?_, fun a b hrun hlt ↦ ?_⟩
  · rw [find?, Option.map_eq_none_iff, probe_eq_none_iff]
  · exact uncut_of_lt hlt (Narrows.le_maxOffset_of_run hrun ⟨hstart, hstop⟩).2

/-- A type with a method outside it, a field across the end of the type, and an initializer of one
byte whose parent is unknown. -/
def scatteredPushes : List (Nat × Declaration) :=
  [(0, { kind := .type, span := ⟨10, 5⟩ }), (1, { kind := .method, span := ⟨40, 5⟩ }),
    (0, { kind := .field, span := ⟨12, 30⟩ }), (9, { kind := .initializer, span := ⟨63, 1⟩ })]

/-- The initializer is found where the first range is halved; the second range ends before it. -/
theorem find?_misses_nothing_scattered :
    (∀ p ∈ scatteredPushes, p.2.kind ≠ .unit) ∧
      (∃ found, (ofPushes 100 scatteredPushes).find? 50 70 = some found ∧
        (ofPushes 100 scatteredPushes).Answers 50 70 found ∧ found.declaration = 4) ∧
      (ofPushes 100 scatteredPushes).find? 50 62 = none := by
  have hpushes : ∀ p ∈ scatteredPushes, p.2.kind ≠ .unit := by simp [scatteredPushes]
  have hfind : (ofPushes 100 scatteredPushes).find? 50 70 = some ⟨4, [4]⟩ := by cbv
  refine ⟨hpushes, ⟨⟨4, [4]⟩, hfind, ?_, rfl⟩, ?_⟩
  · obtain ⟨-, -, hanswers, -⟩ := find?_misses_nothing 100 hpushes
      (show 50 ≤ maxOffset by decide) (show 70 ≤ maxOffset by decide)
    exact hanswers _ hfind
  · obtain ⟨-, hsome, -⟩ := find?_misses_nothing 100 hpushes
      (show 50 ≤ maxOffset by decide) (show 62 ≤ maxOffset by decide)
    have hchildren : (ofPushes 100 scatteredPushes).childIds 0 = [1, 3, 4] := by cbv
    have hspans : (ofPushes 100 scatteredPushes).spanAt 1 = ⟨10, 5⟩ ∧
        (ofPushes 100 scatteredPushes).spanAt 3 = ⟨12, 30⟩ ∧
        (ofPushes 100 scatteredPushes).spanAt 4 = ⟨63, 1⟩ := by cbv
    rw [← Option.not_isSome_iff_eq_none, hsome, hchildren]
    rintro ⟨c, hc, k, hlower, hupper, hcovers⟩
    rw [covers_iff] at hcovers
    simp only [List.mem_cons, List.not_mem_nil, or_false] at hc
    rcases hc with rfl | rfl | rfl
    · rw [hspans.1] at hcovers
      have : (Span.mk 10 5).stop = 15 := by decide
      omega
    · rw [hspans.2.1] at hcovers
      have : (Span.mk 12 30).stop = 42 := by decide
      omega
    · rw [hspans.2.2] at hcovers
      simp only at hcovers
      omega

end BinaryNames.DeclarationTree
