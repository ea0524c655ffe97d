import BinaryNames.Declaration.Search
import BinaryNames.Proofs.Tree.Chain

/-!
# Nested Spans

In a tree whose children lie inside their parents and after their elder siblings, at most one child
of a node covers an offset.  Going down by the first child that covers it therefore passes through
every declaration that does, and what is reached at last has exactly these on its chain.
-/

namespace BinaryNames.DeclarationTree

/-- The span of the node at `id`, empty if there is no such node. -/
def spanAt (t : DeclarationTree) (id : Nat) : Span :=
  ((t.declaration? id).map (·.span)).getD ⟨0, 0⟩

/-- Children lie inside their parent, one after the other. -/
structure Laminar (t : DeclarationTree) : Prop extends t.Rooted where
  inside : ∀ c p, t.parent? c = some p →
    (t.spanAt p).offset ≤ (t.spanAt c).offset ∧ (t.spanAt c).stop ≤ (t.spanAt p).stop
  ordered : ∀ c c' p, c < c' → t.parent? c = some p → t.parent? c' = some p →
    (t.spanAt c).stop ≤ (t.spanAt c').offset

theorem spanAt_push_of_lt (t : DeclarationTree) (parent : Nat) (d : Declaration) {id : Nat}
    (h : id < t.size) : (t.push parent d).spanAt id = t.spanAt id := by
  rw [spanAt, declaration?_push_of_lt t parent d h, spanAt]

theorem spanAt_push_size (t : DeclarationTree) (parent : Nat) (d : Declaration) :
    (t.push parent d).spanAt t.size = d.span := by
  simp [spanAt, declaration?_push_size]

theorem laminar_empty (size : Nat) : (empty size).Laminar where
  toRooted := rooted_empty size
  inside := by
    intro c p hp
    have hlt := lt_size_of_parent? hp
    rw [size_empty] at hlt
    exact absurd (parent?_lt hp) (by omega)
  ordered := by
    intro c c' p _ hp
    have hlt := lt_size_of_parent? hp
    rw [size_empty] at hlt
    exact absurd (parent?_lt hp) (by omega)

/-- A declaration may be pushed inside its parent and after the children that are there. -/
theorem Laminar.push {t : DeclarationTree} (h : t.Laminar) {p : Nat} {d : Declaration}
    (hp : p < t.size) (hd : d.kind ≠ .unit)
    (hinside : (t.spanAt p).offset ≤ d.span.offset ∧ d.span.stop ≤ (t.spanAt p).stop)
    (hafter : ∀ c, t.parent? c = some p → (t.spanAt c).stop ≤ d.span.offset) :
    (t.push p d).Laminar where
  toRooted := h.toRooted.push p hd
  inside := by
    intro c q hq
    have hc := lt_size_of_parent? hq
    rw [size_push] at hc
    rcases Nat.lt_succ_iff_lt_or_eq.1 hc with hlt | rfl
    · rw [parent?_push_of_lt t p d hlt] at hq
      rw [spanAt_push_of_lt t p d hlt, spanAt_push_of_lt t p d ((parent?_lt hq).trans hlt)]
      exact h.inside c q hq
    · rw [parent?_push_size, attachPoint_of_lt hp, Option.some.injEq] at hq
      subst hq
      rw [spanAt_push_size, spanAt_push_of_lt t p d hp]
      exact hinside
  ordered := by
    intro c c' q hcc hq hq'
    have hc' := lt_size_of_parent? hq'
    rw [size_push] at hc'
    have hc : c < t.size := by omega
    rw [parent?_push_of_lt t p d hc] at hq
    rw [spanAt_push_of_lt t p d hc]
    rcases Nat.lt_succ_iff_lt_or_eq.1 hc' with hlt | rfl
    · rw [parent?_push_of_lt t p d hlt] at hq'
      rw [spanAt_push_of_lt t p d hlt]
      exact h.ordered c c' q hcc hq hq'
    · rw [parent?_push_size, attachPoint_of_lt hp, Option.some.injEq] at hq'
      subst hq'
      rw [spanAt_push_size]
      exact hafter c hq

/-- Children are listed one after the other. -/
theorem Laminar.pairwise_childIds {t : DeclarationTree} (h : t.Laminar) (p : Nat) :
    (t.childIds p).Pairwise fun c c' ↦ (t.spanAt c).stop ≤ (t.spanAt c').offset := by
  have hlt : (t.childIds p).Pairwise (· < ·) := by
    rw [h.childIds_eq]
    exact List.pairwise_lt_range.filter _
  refine hlt.imp_of_mem fun {c c'} hc hc' hlt ↦ ?_
  exact h.ordered c c' p hlt ((h.mem_childIds_iff p c).1 hc) ((h.mem_childIds_iff p c').1 hc')

/-! ## Going down -/

theorem covers_iff (t : DeclarationTree) (offset id : Nat) : t.covers offset id = true ↔
    id < t.size ∧ (t.spanAt id).offset ≤ offset ∧ offset < (t.spanAt id).stop := by
  cases hnode : t.node? id with
  | none =>
    have hid : ¬id < t.size := by simp [← t.node?_isSome_iff id, hnode]
    simp [covers, hnode, hid]
  | some node =>
    simp [covers, hnode, lt_size_of_node? hnode, spanAt, declaration?, Span.contains_iff]

theorem childAt?_eq (t : DeclarationTree) (id offset : Nat) :
    t.childAt? id offset = (t.childIds id).find? (t.covers offset) := by
  cases hnode : t.node? id with
  | none => simp [childAt?, childIds, hnode]
  | some node => simp [childAt?, childIds, hnode]

theorem descend_of_childAt? {t : DeclarationTree} {offset id c : Nat}
    (h : t.childAt? id offset = some c) : t.descend offset id = t.descend offset c := by
  rw [descend]
  split
  · next c' hc' =>
    rw [h, Option.some.injEq] at hc'
    rw [hc']
  · next hnone =>
    rw [h] at hnone
    cases hnone

theorem descend_of_no_childAt? {t : DeclarationTree} {offset id : Nat}
    (h : t.childAt? id offset = none) : t.descend offset id = id := by
  rw [descend]
  split
  · next c hc =>
    rw [h] at hc
    cases hc
  · rfl

theorem childAt?_descend (t : DeclarationTree) (offset id : Nat) :
    t.childAt? (t.descend offset id) offset = none := by
  fun_induction t.descend offset id with
  | case1 _ _ _ _ ih => exact ih
  | case2 _ hnone => exact hnone

namespace Linked

variable {t : DeclarationTree} (h : t.Linked)
include h

theorem parent?_of_childAt? {id offset c : Nat} (hc : t.childAt? id offset = some c) :
    t.parent? c = some id ∧ t.covers offset c = true := by
  rw [childAt?_eq] at hc
  exact ⟨(h.mem_childIds_iff id c).1 (List.mem_of_find?_eq_some hc), List.find?_some hc⟩

/-- A property of a node that passes to the child on the way down holds at the end. -/
theorem descend_induction {offset : Nat} {motive : Nat → Prop}
    (child : ∀ id c, t.parent? c = some id → t.covers offset c = true → motive id → motive c)
    {id : Nat} (hid : motive id) : motive (t.descend offset id) := by
  fun_induction t.descend offset id with
  | case1 id c hc _ ih =>
    obtain ⟨hparent, hcovers⟩ := h.parent?_of_childAt? hc
    exact ih (child id c hparent hcovers hid)
  | case2 => exact hid

end Linked

namespace Rooted

variable {t : DeclarationTree} (h : t.Rooted)
include h

theorem mem_chain_descend {offset id : Nat} (hpos : 0 < id) (hid : id < t.size) :
    id ∈ t.chain (t.descend offset id) := by
  apply h.descend_induction (motive := fun i ↦ id ∈ t.chain i)
  · intro i c hparent _ hmem
    rw [h.chain_child hparent]
    exact List.mem_cons_of_mem c hmem
  · exact h.mem_chain_self hpos hid

/-- Everything on the chain of the declaration at an offset covers the offset. -/
theorem covers_of_mem_chain_elementAt {offset a : Nat} (ha : a ∈ t.chain (t.elementAt offset)) :
    t.covers offset a = true := by
  revert ha
  apply h.descend_induction (motive := fun i ↦ a ∈ t.chain i → t.covers offset a = true)
  · intro i c hparent hcovers ih ha
    rw [h.chain_child hparent] at ha
    rcases List.mem_cons.1 ha with rfl | ha
    · exact hcovers
    · exact ih ha
  · intro ha
    rw [h.chain_root] at ha
    cases ha

theorem elementAt_lt_size (offset : Nat) : t.elementAt offset < t.size :=
  h.descend_induction (motive := fun i ↦ i < t.size)
    (fun _ _ hparent _ _ ↦ lt_size_of_parent? hparent) t.nodes_pos

end Rooted

/-- A declaration covers the offset and none of its children does. -/
structure Innermost (t : DeclarationTree) (offset id : Nat) : Prop where
  pos : 0 < id
  covers : t.covers offset id = true
  no_child : ∀ c, t.parent? c = some id → t.covers offset c = false

/-- What is reached at an offset has on its chain the declarations that cover the offset and no
others.  It is the only one that is innermost, and it is the root where no declaration covers. -/
structure Locates (t : DeclarationTree) (offset : Nat) : Prop where
  mem_chain_iff : ∀ id, id ∈ t.chain (t.elementAt offset) ↔ 0 < id ∧ t.covers offset id = true
  innermost_iff : ∀ id, t.Innermost offset id ↔ 0 < id ∧ id = t.elementAt offset
  root_iff : t.elementAt offset = 0 ↔ ∀ id, 0 < id → t.covers offset id = false

namespace Laminar

variable {t : DeclarationTree} (h : t.Laminar)
include h

theorem covers_parent {offset c p : Nat} (hp : t.parent? c = some p)
    (hc : t.covers offset c = true) : t.covers offset p = true := by
  rw [covers_iff] at hc ⊢
  obtain ⟨hlt, hoffset, hstop⟩ := hc
  obtain ⟨hoffset', hstop'⟩ := h.inside c p hp
  exact ⟨(parent?_lt hp).trans hlt, by omega, by omega⟩

theorem eq_of_covers {offset c c' p : Nat} (hp : t.parent? c = some p)
    (hp' : t.parent? c' = some p) (hc : t.covers offset c = true)
    (hc' : t.covers offset c' = true) : c = c' := by
  rw [covers_iff] at hc hc'
  rcases Nat.lt_trichotomy c c' with hlt | heq | hlt
  · have := h.ordered c c' p hlt hp hp'
    omega
  · exact heq
  · have := h.ordered c' c p hlt hp' hp
    omega

theorem childAt?_of_covers {offset c p : Nat} (hp : t.parent? c = some p)
    (hc : t.covers offset c = true) : t.childAt? p offset = some c := by
  have hmem : c ∈ t.childIds p := (h.mem_childIds_iff p c).2 hp
  cases hchild : t.childAt? p offset with
  | none =>
    rw [childAt?_eq, List.find?_eq_none] at hchild
    exact absurd hc (hchild c hmem)
  | some c' =>
    obtain ⟨hp', hc'⟩ := h.parent?_of_childAt? hchild
    rw [h.eq_of_covers hp hp' hc hc']

/-- The way down from the root passes through every declaration that covers the offset. -/
theorem elementAt_eq_descend {offset id : Nat} (hc : t.covers offset id = true) :
    t.elementAt offset = t.descend offset id := by
  have hid := ((covers_iff t offset id).1 hc).1
  revert hc
  refine h.induction (motive := fun i ↦ t.covers offset i = true →
    t.elementAt offset = t.descend offset i) ?_ ?_ hid
  · intro _
    rfl
  · intro i p hp ih hc
    rw [ih (h.covers_parent hp hc), descend_of_childAt? (h.childAt?_of_covers hp hc)]

theorem mem_chain_elementAt_iff {offset id : Nat} :
    id ∈ t.chain (t.elementAt offset) ↔ 0 < id ∧ t.covers offset id = true := by
  constructor
  · intro hmem
    exact ⟨h.pos_of_mem_chain hmem, h.covers_of_mem_chain_elementAt hmem⟩
  · rintro ⟨hpos, hc⟩
    rw [h.elementAt_eq_descend hc]
    exact h.mem_chain_descend hpos ((covers_iff t offset id).1 hc).1

theorem elementAt_eq_zero_iff {offset : Nat} :
    t.elementAt offset = 0 ↔ ∀ id, 0 < id → t.covers offset id = false := by
  constructor
  · intro hzero id hpos
    by_contra hc
    have hmem := h.mem_chain_elementAt_iff.2 ⟨hpos, Bool.eq_true_of_not_eq_false hc⟩
    rw [hzero, h.chain_root] at hmem
    cases hmem
  · intro hnone
    by_contra hne
    have hpos := Nat.pos_of_ne_zero hne
    have hself := h.mem_chain_self hpos (h.elementAt_lt_size offset)
    have hc := h.covers_of_mem_chain_elementAt hself
    rw [hnone _ hpos] at hc
    cases hc

/-- No second declaration can be innermost: the way down passes through each that covers the offset
and stops only at one without a child that does. -/
theorem innermost_iff {offset id : Nat} :
    t.Innermost offset id ↔ 0 < id ∧ id = t.elementAt offset := by
  constructor
  · intro hinner
    refine ⟨hinner.pos, ?_⟩
    have hnone : t.childAt? id offset = none := by
      rw [childAt?_eq, List.find?_eq_none]
      intro c hc
      rw [hinner.no_child c ((h.mem_childIds_iff id c).1 hc)]
      exact Bool.false_ne_true
    rw [h.elementAt_eq_descend hinner.covers, descend_of_no_childAt? hnone]
  · rintro ⟨hpos, rfl⟩
    have hself := h.mem_chain_self hpos (h.elementAt_lt_size offset)
    refine ⟨hpos, h.covers_of_mem_chain_elementAt hself, fun c hc ↦ ?_⟩
    by_contra hcovers
    have hsome := h.childAt?_of_covers hc (Bool.eq_true_of_not_eq_false hcovers)
    rw [elementAt, childAt?_descend] at hsome
    cases hsome

theorem locates (offset : Nat) : t.Locates offset where
  mem_chain_iff _ := h.mem_chain_elementAt_iff
  innermost_iff _ := h.innermost_iff
  root_iff := h.elementAt_eq_zero_iff

end Laminar

/-! ## Probing a range -/

theorem hit?_eq_some_iff {t : DeclarationTree} {offset id : Nat} :
    t.hit? offset = some id ↔ t.elementAt offset = id ∧ 0 < id := by
  simp only [hit?]
  split
  · next hzero =>
    simp only [reduceCtorEq, hzero, false_iff, not_and]
    omega
  · next hzero =>
    simp only [Option.some.injEq]
    omega

theorem Laminar.hit?_isSome_of_covers {t : DeclarationTree} (h : t.Laminar) {offset id : Nat}
    (hpos : 0 < id) (hc : t.covers offset id = true) : (t.hit? offset).isSome := by
  have hne : t.elementAt offset ≠ 0 := by
    intro hzero
    rw [h.elementAt_eq_zero_iff.1 hzero id hpos] at hc
    cases hc
  simp [hit?, hne]

theorem probe_of_hit? {t : DeclarationTree} {start id : Nat} (h : t.hit? start = some id)
    (stop : Nat) : t.probe start stop = some id := by
  rw [probe, h]

/-- A probe answers with a hit in its range. -/
theorem exists_hit?_of_probe {t : DeclarationTree} {start stop id : Nat}
    (h : t.probe start stop = some id) :
    ∃ offset, start ≤ offset ∧ offset ≤ max start stop ∧ t.hit? offset = some id := by
  fun_induction t.probe start stop with
  | case1 start stop id' hhit =>
    obtain rfl := Option.some.inj h
    exact ⟨start, le_rfl, by omega, hhit⟩
  | case2 => cases h
  | case3 start stop _ hlt id' hhit =>
    obtain rfl := Option.some.inj h
    exact ⟨stop, by omega, by omega, hhit⟩
  | case4 => cases h
  | case5 start stop _ hlt _ mid hmid id' hlower ih =>
    obtain rfl := Option.some.inj h
    obtain ⟨offset, hstart, hstop, hhit⟩ := ih hlower
    exact ⟨offset, by omega, by omega, hhit⟩
  | case6 start stop _ hlt _ mid hmid _ _ ih =>
    obtain ⟨offset, hstart, hstop, hhit⟩ := ih h
    exact ⟨offset, by omega, by omega, hhit⟩

/-- A probe that fails has missed nothing in its range. -/
theorem hit?_eq_none_of_probe {t : DeclarationTree} {start stop offset : Nat}
    (h : t.probe start stop = none) (hstart : start ≤ offset) (hstop : offset ≤ stop) :
    t.hit? offset = none := by
  fun_induction t.probe start stop with
  | case1 => cases h
  | case2 start stop hnone hle =>
    obtain rfl : offset = start := by omega
    exact hnone
  | case3 => cases h
  | case4 start stop hnone hlt hnone' mid hmid =>
    -- the range has no more than its two ends
    rcases Nat.eq_or_lt_of_le hstart with rfl | hstart
    · exact hnone
    · obtain rfl : offset = stop := by omega
      exact hnone'
  | case5 => cases h
  | case6 start stop hnone hlt hnone' mid hmid hlower ihlower ihupper =>
    rcases Nat.eq_or_lt_of_le hstart with rfl | hstart
    · exact hnone
    rcases Nat.eq_or_lt_of_le hstop with rfl | hstop
    · exact hnone'
    rcases Nat.lt_or_ge mid offset with hupper | hle
    · exact ihupper h hupper (by omega)
    · exact ihlower hlower hstart hle

end BinaryNames.DeclarationTree
