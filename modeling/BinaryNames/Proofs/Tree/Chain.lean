import BinaryNames.Proofs.Tree.Push

/-!
# Chains and Enclosing Types

The chain of a node leads from the node to the child of the root that it lies in.  A chain is the
node followed by the chain of its parent, so facts about chains are proved from the root outwards
(`Rooted.induction`).  A push leaves the chains of the old nodes alone, and with them the innermost
type around a node.
-/

namespace BinaryNames.DeclarationTree

/-- A linked tree in which the root, and nothing else, is the compilation unit. -/
structure Rooted (t : DeclarationTree) : Prop extends Linked t where
  unit_iff : ∀ id d, t.declaration? id = some d → (d.kind = .unit ↔ id = 0)

theorem rooted_empty (bytes : Nat) : (empty bytes).Rooted where
  toLinked := linked_empty bytes
  unit_iff := by
    intro id d hd
    have hlt := lt_size_of_declaration? hd
    rw [size_empty] at hlt
    obtain rfl : id = 0 := by omega
    obtain rfl : { kind := .unit, span := ⟨0, bytes⟩ } = d := Option.some.inj hd
    simp

theorem Rooted.push {t : DeclarationTree} (h : t.Rooted) (parent : Nat) {d : Declaration}
    (hd : d.kind ≠ .unit) : (t.push parent d).Rooted where
  toLinked := h.toLinked.push parent d
  unit_iff := by
    intro id d' hd'
    have hlt := lt_size_of_declaration? hd'
    rw [size_push] at hlt
    rcases Nat.lt_succ_iff_lt_or_eq.1 hlt with hold | rfl
    · rw [declaration?_push_of_lt t parent d hold] at hd'
      exact h.unit_iff id d' hd'
    · rw [declaration?_push_size, Option.some.injEq] at hd'
      subst hd'
      have hpos : t.size ≠ 0 := Nat.ne_of_gt t.nodes_pos
      simp [hd, hpos]

theorem rooted_ofPushes (size : Nat) {pushes : List (Nat × Declaration)}
    (h : ∀ p ∈ pushes, p.2.kind ≠ .unit) : (ofPushes size pushes).Rooted := by
  have hfold (t : DeclarationTree) (ht : t.Rooted) :
      (pushes.foldl (fun t p ↦ t.push p.1 p.2) t).Rooted := by
    induction pushes generalizing t with
    | nil => exact ht
    | cons p rest ih =>
      rw [List.forall_mem_cons] at h
      exact ih h.2 (t.push p.1 p.2) (ht.push p.1 h.1)
  exact hfold (empty size) (rooted_empty size)

section Chain

variable {t : DeclarationTree}

theorem chain_of_unit {id : Nat} {d : Declaration} (hd : t.declaration? id = some d)
    (hk : d.kind = .unit) : t.chain id = [] := by
  obtain ⟨node, hnode, rfl⟩ := Option.map_eq_some_iff.1 hd
  rw [chain]
  split
  · rfl
  · next node' hnode' =>
    obtain rfl : node = node' := Option.some.inj (hnode.symm.trans hnode')
    rw [if_pos hk]

theorem chain_of_size_le {id : Nat} (h : t.size ≤ id) : t.chain id = [] := by
  have hnone : t.node? id = none := by
    simp only [node?, size] at *
    simpa using h
  rw [chain]
  split
  · rfl
  · next hsome => rw [hnone] at hsome; cases hsome

theorem chain_of_parent {id p : Nat} {d : Declaration} (hd : t.declaration? id = some d)
    (hk : d.kind ≠ .unit) (hp : t.parent? id = some p) : t.chain id = id :: t.chain p := by
  obtain ⟨node, hnode, rfl⟩ := Option.map_eq_some_iff.1 hd
  rw [parent?_eq_of_node? hnode] at hp
  rw [chain]
  split
  · next hnone => rw [hnode] at hnone; cases hnone
  · next node' hnode' =>
    obtain rfl : node = node' := Option.some.inj (hnode.symm.trans hnode')
    rw [if_neg hk]
    split
    · next hnone => rw [hp] at hnone; cases hnone
    · next p' hp' => rw [Option.some.inj (hp.symm.trans hp')]

theorem chain_of_no_parent {id : Nat} {d : Declaration} (hd : t.declaration? id = some d)
    (hk : d.kind ≠ .unit) (hp : t.parent? id = none) : t.chain id = [id] := by
  obtain ⟨node, hnode, rfl⟩ := Option.map_eq_some_iff.1 hd
  rw [parent?_eq_of_node? hnode] at hp
  rw [chain]
  split
  · next hnone => rw [hnode] at hnone; cases hnone
  · next node' hnode' =>
    obtain rfl : node = node' := Option.some.inj (hnode.symm.trans hnode')
    rw [if_neg hk]
    split
    · rfl
    · next p' hp' => rw [hp] at hp'; cases hp'

theorem chain_push_of_lt (t : DeclarationTree) (parent : Nat) (d : Declaration) {id : Nat}
    (h : id < t.size) : (t.push parent d).chain id = t.chain id := by
  induction id using Nat.strong_induction_on with
  | _ id ih =>
    obtain ⟨node, hnode⟩ := exists_node?_of_lt h
    have hd := declaration?_eq_of_node? hnode
    have hd' := (declaration?_push_of_lt t parent d h).trans hd
    by_cases hk : node.kind = .unit
    · rw [chain_of_unit hd hk, chain_of_unit hd' hk]
    · have hparent := parent?_push_of_lt t parent d h
      cases hp : t.parent? id with
      | none => rw [chain_of_no_parent hd hk hp, chain_of_no_parent hd' hk (hparent.trans hp)]
      | some p =>
        have hlt := parent?_lt hp
        rw [chain_of_parent hd hk hp, chain_of_parent hd' hk (hparent.trans hp),
          ih p hlt (hlt.trans h)]

theorem chain_push_size (t : DeclarationTree) (parent : Nat) {d : Declaration}
    (hd : d.kind ≠ .unit) :
    (t.push parent d).chain t.size = t.size :: t.chain (t.attachPoint parent) := by
  rw [chain_of_parent (declaration?_push_size t parent d) hd (parent?_push_size t parent d),
    chain_push_of_lt t parent d (t.attachPoint_lt parent)]

theorem le_of_mem_chain {a id : Nat} (h : a ∈ t.chain id) : a ≤ id := by
  fun_induction chain t id with
  | case1 => simp at h
  | case2 => simp at h
  | case3 id node hnode hk hp => simp at h; omega
  | case4 id node hnode hk p hp hlt ih =>
    rcases List.mem_cons.1 h with rfl | h
    · exact le_rfl
    · exact (ih h).trans hlt.le

theorem lt_size_of_mem_chain {a id : Nat} (h : a ∈ t.chain id) : a < t.size := by
  fun_induction chain t id with
  | case1 => simp at h
  | case2 => simp at h
  | case3 id node hnode hk hp =>
    rw [List.mem_singleton.1 h]
    exact lt_size_of_node? hnode
  | case4 id node hnode hk p hp hlt ih =>
    rcases List.mem_cons.1 h with rfl | h
    · exact lt_size_of_node? hnode
    · exact ih h

end Chain

/-- The innermost type that the node at `id` is or lies in. -/
def typeAround? (t : DeclarationTree) (id : Nat) : Option Nat := (t.chain id).find? t.isType

/-- The innermost type that the node at `id` lies in. -/
def enclosing? (t : DeclarationTree) (id : Nat) : Option Nat := (t.chain id).tail.find? t.isType

section Push

variable (t : DeclarationTree) (parent : Nat) (d : Declaration)

theorem find?_isType_push {ids : List Nat} (h : ∀ a ∈ ids, a < t.size) :
    ids.find? (t.push parent d).isType = ids.find? t.isType := by
  induction ids with
  | nil => rfl
  | cons a rest ih =>
    rw [List.find?_cons, List.find?_cons, isType_push_of_lt t parent d (h a (by simp)),
      ih (fun b hb ↦ h b (by simp [hb]))]

theorem typeAround?_push_of_lt {id : Nat} (h : id < t.size) :
    (t.push parent d).typeAround? id = t.typeAround? id := by
  rw [typeAround?, chain_push_of_lt t parent d h]
  exact find?_isType_push t parent d fun a ha ↦ lt_size_of_mem_chain ha

theorem enclosing?_push_of_lt {id : Nat} (h : id < t.size) :
    (t.push parent d).enclosing? id = t.enclosing? id := by
  rw [enclosing?, chain_push_of_lt t parent d h]
  exact find?_isType_push t parent d fun a ha ↦ lt_size_of_mem_chain (List.mem_of_mem_tail ha)

theorem enclosing?_push_size {d : Declaration} (hd : d.kind ≠ .unit) :
    (t.push parent d).enclosing? t.size = t.typeAround? (t.attachPoint parent) := by
  rw [enclosing?, chain_push_size t parent hd, List.tail_cons]
  exact find?_isType_push t parent d fun a ha ↦ lt_size_of_mem_chain ha

theorem isType_push_size : (t.push parent d).isType t.size = decide (d.kind = .type) := by
  simp [isType_eq, declaration?_push_size]

theorem typeAround?_push_size {d : Declaration} (hd : d.kind ≠ .unit) :
    (t.push parent d).typeAround? t.size =
      if d.kind = .type then some t.size else t.typeAround? (t.attachPoint parent) := by
  rw [typeAround?, chain_push_size t parent hd, List.find?_cons, isType_push_size,
    find?_isType_push t parent d fun a ha ↦ lt_size_of_mem_chain ha]
  by_cases hk : d.kind = .type <;> simp [hk, typeAround?]

end Push

namespace Rooted

variable {t : DeclarationTree}

/-- What holds of the root and passes from a parent to its children holds of every node. -/
theorem induction (h : t.Rooted) {motive : Nat → Prop} (root : motive 0)
    (child : ∀ id p, t.parent? id = some p → motive p → motive id) {id : Nat} (hid : id < t.size) :
    motive id := by
  induction id using Nat.strong_induction_on with
  | _ id ih =>
    rcases Nat.eq_zero_or_pos id with rfl | hpos
    · exact root
    · obtain ⟨p, hp, hlt⟩ := h.exists_parent hpos hid
      exact child id p hp (ih p hlt (hlt.trans hid))

theorem chain_root (h : t.Rooted) : t.chain 0 = [] := by
  obtain ⟨node, hnode⟩ := exists_node?_of_lt (t := t) t.nodes_pos
  have hd := declaration?_eq_of_node? hnode
  exact chain_of_unit hd ((h.unit_iff 0 _ hd).2 rfl)

theorem chain_child (h : t.Rooted) {id p : Nat} (hp : t.parent? id = some p) :
    t.chain id = id :: t.chain p := by
  obtain ⟨node, hnode⟩ := exists_node?_of_lt (lt_size_of_parent? hp)
  have hd := declaration?_eq_of_node? hnode
  have hne : id ≠ 0 := Nat.ne_zero_of_lt (parent?_lt hp)
  exact chain_of_parent hd (fun hk ↦ hne ((h.unit_iff id _ hd).1 hk)) hp

theorem mem_chain_self (h : t.Rooted) {id : Nat} (hpos : 0 < id) (hid : id < t.size) :
    id ∈ t.chain id := by
  obtain ⟨p, hp, -⟩ := h.exists_parent hpos hid
  simp [h.chain_child hp]

theorem lt_size_of_chain_ne_nil {id : Nat} (h : t.chain id ≠ []) : id < t.size := by
  by_contra hle
  exact h (chain_of_size_le (Nat.le_of_not_lt hle))

/-- The chain of an ancestor is the upper end of the chain. -/
theorem chain_suffix_of_mem (h : t.Rooted) {a id : Nat} (ha : a ∈ t.chain id) :
    t.chain a <:+ t.chain id := by
  have hid := lt_size_of_chain_ne_nil (List.ne_nil_of_mem ha)
  revert ha
  refine h.induction (motive := fun id ↦ a ∈ t.chain id → t.chain a <:+ t.chain id) ?_ ?_ hid
  · intro ha
    rw [h.chain_root] at ha
    simp at ha
  · intro id p hp ih ha
    rw [h.chain_child hp] at ha
    rcases List.mem_cons.1 ha with rfl | ha
    · exact List.suffix_rfl
    · rw [h.chain_child hp]
      exact (ih ha).trans (List.suffix_cons id (t.chain p))

/-- The proper ancestors of a node are what is on its chain besides the node. -/
theorem mem_tail_chain_iff (h : t.Rooted) {a id : Nat} :
    a ∈ (t.chain id).tail ↔ a ∈ t.chain id ∧ a ≠ id := by
  cases hp : t.parent? id with
  | none =>
    have hnil : t.chain id = [] := by
      by_contra hne
      have hid := lt_size_of_chain_ne_nil hne
      rcases Nat.eq_zero_or_pos id with rfl | hpos
      · exact hne h.chain_root
      · obtain ⟨p, hp', -⟩ := h.exists_parent hpos hid
        rw [hp] at hp'
        cases hp'
    simp [hnil]
  | some p =>
    have hlt := parent?_lt hp
    rw [h.chain_child hp, List.tail_cons, List.mem_cons]
    constructor
    · intro ha
      exact ⟨Or.inr ha, ((le_of_mem_chain ha).trans_lt hlt).ne⟩
    · rintro ⟨ha, hne⟩
      exact ha.resolve_left hne

theorem pos_of_mem_chain (h : t.Rooted) {a id : Nat} (ha : a ∈ t.chain id) : 0 < a := by
  have hid := lt_size_of_chain_ne_nil (List.ne_nil_of_mem ha)
  revert ha
  refine h.induction (motive := fun id ↦ a ∈ t.chain id → 0 < a) ?_ ?_ hid
  · intro ha
    rw [h.chain_root] at ha
    simp at ha
  · intro id p hp ih ha
    rw [h.chain_child hp] at ha
    rcases List.mem_cons.1 ha with rfl | ha
    · exact Nat.zero_lt_of_lt (parent?_lt hp)
    · exact ih ha

theorem pos_of_isType (h : t.Rooted) {id : Nat} (htype : t.isType id = true) : 0 < id := by
  apply Nat.pos_of_ne_zero
  rintro rfl
  rw [isType_eq, Option.any_eq_true] at htype
  obtain ⟨d, hd, hk⟩ := htype
  simp [(h.unit_iff 0 d hd).2 rfl] at hk

theorem lt_of_enclosing? (h : t.Rooted) {id e : Nat} (he : t.enclosing? id = some e) : e < id := by
  obtain ⟨hmem, hne⟩ := h.mem_tail_chain_iff.1 (List.mem_of_find?_eq_some he)
  exact lt_of_le_of_ne (le_of_mem_chain hmem) hne

theorem enclosing?_child (h : t.Rooted) {id p : Nat} (hp : t.parent? id = some p) :
    t.enclosing? id = t.typeAround? p := by
  rw [enclosing?, h.chain_child hp, List.tail_cons, typeAround?]

theorem typeAround?_child (h : t.Rooted) {id p : Nat} (hp : t.parent? id = some p) :
    t.typeAround? id = if t.isType id then some id else t.typeAround? p := by
  rw [typeAround?, h.chain_child hp, List.find?_cons]
  cases t.isType id <;> rfl

theorem typeAround?_root (h : t.Rooted) : t.typeAround? 0 = none := by
  rw [typeAround?, h.chain_root, List.find?_nil]

theorem exists_parent_of_isType (h : t.Rooted) {id : Nat} (htype : t.isType id = true) :
    ∃ p, t.parent? id = some p := by
  have hid : id < t.size := by
    rw [isType_eq, Option.any_eq_true] at htype
    obtain ⟨d, hd, -⟩ := htype
    exact lt_size_of_declaration? hd
  obtain ⟨p, hp, -⟩ := h.exists_parent (h.pos_of_isType htype) hid
  exact ⟨p, hp⟩

theorem typeAround?_of_isType (h : t.Rooted) {id : Nat} (htype : t.isType id = true) :
    t.typeAround? id = some id := by
  obtain ⟨p, hp⟩ := h.exists_parent_of_isType htype
  rw [h.typeAround?_child hp, if_pos htype]

end Rooted

end BinaryNames.DeclarationTree
