import BinaryNames.Proofs.Naming.Segments

/-!
# What a Push Leaves Alone

However declarations are pushed, the tree hangs together: every node but the root stands in the
list of one parent, once, and is reached from the root.  One more push disturbs nothing that is
there.  The list of children that it changes is read again when local types are numbered, but the
new node comes last in it, so the numbers of the others stay, and with them the binary names.
-/

namespace BinaryNames.DeclarationTree

/-- The nodes hang together from the root downwards. -/
structure WellLinked (t : DeclarationTree) : Prop where
  parent_lt : ∀ id p, t.parent? id = some p → p < id
  children_increasing : ∀ id, (t.childIds id).Pairwise (· < ·)
  child_known : ∀ id, ∀ c ∈ t.childIds id, 0 < c ∧ c < t.size
  listed_once : ∀ id, 0 < id → id < t.size → ∃ p, t.parent? id = some p ∧
    ∀ q, (t.childIds q).count id = if q = p then 1 else 0
  reachable : ∀ id < t.size, Relation.ReflTransGen (fun p c ↦ c ∈ t.childIds p) 0 id

/-- What is in `t` is in `t'` as it was. -/
structure Keeps (t t' : DeclarationTree) : Prop where
  size_le : t.size ≤ t'.size
  declaration?_eq : ∀ id < t.size, t'.declaration? id = t.declaration? id
  parent?_eq : ∀ id < t.size, t'.parent? id = t.parent? id
  childIds_prefix : ∀ id < t.size, t.childIds id <+: t'.childIds id
  chain_eq : ∀ id < t.size, t'.chain id = t.chain id
  localOrdinal?_eq : ∀ id < t.size, t'.localOrdinal? id = t.localOrdinal? id
  binaryName_eq : ∀ id < t.size,
    t'.binaryName ⟨id, t'.chain id⟩ = t.binaryName ⟨id, t.chain id⟩

/-! ## Links -/

theorem linked_ofPushes (size : Nat) (pushes : List (Nat × Declaration)) :
    (ofPushes size pushes).Linked := by
  unfold ofPushes
  induction pushes using List.reverseRecOn with
  | nil => exact linked_empty size
  | append_singleton front p ih =>
    rw [List.foldl_concat]
    exact ih.push p.1 p.2

namespace Linked

variable {t : DeclarationTree} (h : t.Linked)
include h

theorem pairwise_childIds (id : Nat) : (t.childIds id).Pairwise (· < ·) := by
  rw [h.childIds_eq]
  exact List.pairwise_lt_range.filter _

theorem count_childIds {id p : Nat} (hp : t.parent? id = some p) (q : Nat) :
    (t.childIds q).count id = if q = p then 1 else 0 := by
  have hnodup : (t.childIds q).Nodup := (h.pairwise_childIds q).imp Nat.ne_of_lt
  rw [hnodup.count]
  apply if_congr _ rfl rfl
  rw [h.mem_childIds_iff, hp, Option.some.injEq, eq_comm]

/-- Every node is reached from the root, because its parent is and comes before it. -/
theorem reachable {id : Nat} (hid : id < t.size) :
    Relation.ReflTransGen (fun p c ↦ c ∈ t.childIds p) 0 id := by
  induction id using Nat.strong_induction_on with
  | _ id ih =>
    rcases Nat.eq_zero_or_pos id with rfl | hpos
    · exact .refl
    · obtain ⟨p, hp, hlt⟩ := h.exists_parent hpos hid
      exact .tail (ih p hlt (hlt.trans hid)) ((h.mem_childIds_iff p id).2 hp)

theorem wellLinked : t.WellLinked where
  parent_lt := fun _ _ ↦ parent?_lt
  children_increasing := h.pairwise_childIds
  child_known := by
    intro id c hc
    have hp := (h.mem_childIds_iff id c).1 hc
    exact ⟨Nat.zero_lt_of_lt (parent?_lt hp), lt_size_of_parent? hp⟩
  listed_once := by
    intro id hpos hid
    obtain ⟨p, hp, -⟩ := h.exists_parent hpos hid
    exact ⟨p, hp, h.count_childIds hp⟩
  reachable := fun _ ↦ h.reachable

end Linked

/-! ## Names -/

theorem localOrdinal?_eq_bind (t : DeclarationTree) (id : Nat) :
    t.localOrdinal? id = (t.parent? id).bind fun p ↦
      (((t.childIds p).filter t.isNumbered).idxOf? id).map (· + 1) := by
  unfold localOrdinal? parent?
  cases t.node? id with
  | none => rfl
  | some node =>
    cases hparent : node.parent with
    | none => simp [hparent]
    | some p =>
      cases hp : t.node? p with
      | none => simp [hparent, hp, childIds]
      | some parentNode =>
        simp only [Option.bind_eq_bind, Option.bind_some, hparent, hp, childIds, Option.getD_some,
          Option.pure_def, Option.map_eq_bind, Function.comp_def]

section Push

variable (t : DeclarationTree) (parent : Nat) (d : Declaration)

theorem isNumbered_push_of_lt {id : Nat} (h : id < t.size) :
    (t.push parent d).isNumbered id = t.isNumbered id := by
  rw [isNumbered_eq, declaration?_push_of_lt t parent d h, isNumbered_eq]

theorem lt_size_of_mem_childIds {t : DeclarationTree} {id c : Nat} (h : c ∈ t.childIds id) :
    c < t.size := by
  unfold childIds at h
  cases hnode : t.node? id with
  | none => simp [hnode] at h
  | some node =>
    rw [hnode] at h
    exact (t.child_after id node hnode c (Array.mem_def.2 h)).2

/-- The numbered children of a node stay, in front of the new node if it is one of them. -/
theorem filter_childIds_push {p : Nat} (hp : p < t.size) :
    ∃ new, ((t.push parent d).childIds p).filter (t.push parent d).isNumbered =
        (t.childIds p).filter t.isNumbered ++ new ∧ ∀ c ∈ new, c = t.size := by
  have hold : (t.childIds p).filter (t.push parent d).isNumbered =
      (t.childIds p).filter t.isNumbered :=
    List.filter_congr fun c hc ↦ isNumbered_push_of_lt t parent d (lt_size_of_mem_childIds hc)
  rw [childIds_push_of_lt t parent d hp, List.filter_append, hold]
  refine ⟨_, rfl, fun c hc ↦ ?_⟩
  have hnew := List.mem_of_mem_filter hc
  split at hnew
  · exact List.mem_singleton.1 hnew
  · cases hnew

/-- A number that has been given stays. -/
theorem localOrdinal?_push_of_lt {id : Nat} (h : id < t.size) :
    (t.push parent d).localOrdinal? id = t.localOrdinal? id := by
  rw [localOrdinal?_eq_bind, localOrdinal?_eq_bind, parent?_push_of_lt t parent d h]
  cases hp : t.parent? id with
  | none => rfl
  | some p =>
    obtain ⟨new, hnew, hsize⟩ := filter_childIds_push t parent d ((parent?_lt hp).trans h)
    have hlater : new.findIdx? (· == id) = none := by
      rw [List.findIdx?_eq_none_iff]
      intro c hc
      simpa [hsize c hc] using h.ne'
    rw [Option.bind_some, Option.bind_some, hnew, List.idxOf?, List.findIdx?_append, hlater,
      Option.map_none, Option.or_none]

theorem numberAt_push_of_lt {id : Nat} (h : id < t.size) (name : String) :
    (t.push parent d).numberAt name id = t.numberAt name id := by
  obtain ⟨node, hnode⟩ := exists_node?_of_lt h
  simp only [numberAt, localOrdinal?_push_of_lt t parent d h, node?_push_of_lt t parent d h, hnode,
    Option.map_some]
  split <;> rfl

theorem ownName_push_of_lt {id : Nat} (h : id < t.size) :
    (t.push parent d).ownName id = t.ownName id := by
  obtain ⟨node, hnode⟩ := exists_node?_of_lt h
  simp only [ownName, node?_push_of_lt t parent d h, hnode, Option.map_some]
  split <;> rfl

theorem dropWhile_isType_push {ids : List Nat} (h : ∀ a ∈ ids, a < t.size) :
    ids.dropWhile (fun a ↦ !(t.push parent d).isType a) =
      ids.dropWhile (fun a ↦ !t.isType a) := by
  induction ids with
  | nil => rfl
  | cons a rest ih =>
    rw [List.forall_mem_cons] at h
    rw [List.dropWhile_cons, List.dropWhile_cons, isType_push_of_lt t parent d h.1, ih h.2]

theorem binaryName_push_of_lt {id : Nat} (h : id < t.size) :
    (t.push parent d).binaryName ⟨id, (t.push parent d).chain id⟩ =
      t.binaryName ⟨id, t.chain id⟩ := by
  have hchain : ∀ a ∈ t.chain id, a < t.size := fun a ↦ lt_size_of_mem_chain
  unfold binaryName
  simp only [chain_push_of_lt t parent d h, dropWhile_isType_push t parent d hchain]
  cases hdrop : (t.chain id).dropWhile (fun a ↦ !t.isType a) with
  | nil => exact ownName_push_of_lt t parent d h
  | cons e above =>
    have hmem : ∀ a ∈ e :: above, a < t.size := by
      intro a ha
      rw [← hdrop] at ha
      exact hchain a ((List.dropWhile_sublist _).mem ha)
    dsimp only
    rw [ownName_push_of_lt t parent d (hmem e List.mem_cons_self)]
    apply List.foldl_ext
    intro name a ha
    exact numberAt_push_of_lt t parent d (hmem a ha) name

theorem keeps_push : t.Keeps (t.push parent d) where
  size_le := by
    rw [size_push]
    exact Nat.le_succ _
  declaration?_eq := fun _ ↦ declaration?_push_of_lt t parent d
  parent?_eq := fun _ ↦ parent?_push_of_lt t parent d
  childIds_prefix := by
    intro id hid
    rw [childIds_push_of_lt t parent d hid]
    exact List.prefix_append _ _
  chain_eq := fun _ ↦ chain_push_of_lt t parent d
  localOrdinal?_eq := fun _ ↦ localOrdinal?_push_of_lt t parent d
  binaryName_eq := fun _ ↦ binaryName_push_of_lt t parent d

end Push

namespace Keeps

theorem refl (t : DeclarationTree) : t.Keeps t :=
  ⟨le_rfl, fun _ _ ↦ rfl, fun _ _ ↦ rfl, fun _ _ ↦ List.prefix_rfl, fun _ _ ↦ rfl, fun _ _ ↦ rfl,
    fun _ _ ↦ rfl⟩

theorem trans {t u v : DeclarationTree} (h : t.Keeps u) (h' : u.Keeps v) : t.Keeps v where
  size_le := h.size_le.trans h'.size_le
  declaration?_eq := fun id hid ↦
    (h'.declaration?_eq id (hid.trans_le h.size_le)).trans (h.declaration?_eq id hid)
  parent?_eq := fun id hid ↦
    (h'.parent?_eq id (hid.trans_le h.size_le)).trans (h.parent?_eq id hid)
  childIds_prefix := fun id hid ↦
    (h.childIds_prefix id hid).trans (h'.childIds_prefix id (hid.trans_le h.size_le))
  chain_eq := fun id hid ↦ (h'.chain_eq id (hid.trans_le h.size_le)).trans (h.chain_eq id hid)
  localOrdinal?_eq := fun id hid ↦
    (h'.localOrdinal?_eq id (hid.trans_le h.size_le)).trans (h.localOrdinal?_eq id hid)
  binaryName_eq := fun id hid ↦
    (h'.binaryName_eq id (hid.trans_le h.size_le)).trans (h.binaryName_eq id hid)

end Keeps

/-- Further pushes keep what earlier ones have made. -/
theorem keeps_ofPushes_append (size : Nat) (pushes more : List (Nat × Declaration)) :
    (ofPushes size pushes).Keeps (ofPushes size (pushes ++ more)) := by
  induction more using List.reverseRecOn with
  | nil =>
    rw [List.append_nil]
    exact .refl _
  | append_singleton front p ih =>
    have hlast : ofPushes size (pushes ++ (front ++ [p])) =
        (ofPushes size (pushes ++ front)).push p.1 p.2 := by
      rw [← List.append_assoc, ofPushes, List.foldl_concat, ofPushes]
    rw [hlast]
    exact ih.trans (keeps_push _ p.1 p.2)

/-- A tree of pushes hangs together, one more push keeps it so, and neither that push nor any
number of further ones disturbs what is there. -/
theorem pushes_disturb_nothing (size : Nat) (pushes : List (Nat × Declaration)) :
    (ofPushes size pushes).WellLinked ∧
      (∀ parent d, ((ofPushes size pushes).push parent d).WellLinked ∧
        (ofPushes size pushes).Keeps ((ofPushes size pushes).push parent d)) ∧
      ∀ more, (ofPushes size pushes).Keeps (ofPushes size (pushes ++ more)) := by
  have hlinked := linked_ofPushes size pushes
  refine ⟨hlinked.wellLinked, fun parent d ↦ ⟨?_, ?_⟩, ?_⟩
  · exact (hlinked.push parent d).wellLinked
  · exact keeps_push _ parent d
  · exact keeps_ofPushes_append size pushes

end BinaryNames.DeclarationTree
