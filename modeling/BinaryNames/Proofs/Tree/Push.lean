import BinaryNames.Declaration.Naming
import Mathlib.Data.List.Sort

/-!
# Pushing Declarations

A push adds one node and touches one list of children.  Everything else that can be read off a node
stays, so the tree is described by two functions that a push only extends: `declaration?` and
`parent?`.  The lists of children say nothing beyond `parent?`, which is what `Linked` states.
-/

namespace BinaryNames.DeclarationTree

/-- What is declared at `id`, without its place. -/
def declaration? (t : DeclarationTree) (id : Nat) : Option Declaration :=
  (t.node? id).map (·.toDeclaration)

def parent? (t : DeclarationTree) (id : Nat) : Option Nat := (t.node? id).bind (·.parent)

def qualifiedName? (t : DeclarationTree) (id : Nat) : Option String :=
  (t.declaration? id).bind (·.qualifiedName)

/-- The children of the node at `id`, none if there is no such node. -/
def childIds (t : DeclarationTree) (id : Nat) : List Nat :=
  ((t.node? id).map (·.children.toList)).getD []

theorem node?_isSome_iff (t : DeclarationTree) (id : Nat) : (t.node? id).isSome ↔ id < t.size := by
  simp [node?, size]

theorem lt_size_of_node? {t : DeclarationTree} {id : Nat} {node : DeclarationNode}
    (h : t.node? id = some node) : id < t.size :=
  (t.node?_isSome_iff id).1 (by simp [h])

theorem exists_node?_of_lt {t : DeclarationTree} {id : Nat} (h : id < t.size) :
    ∃ node, t.node? id = some node :=
  Option.isSome_iff_exists.1 ((t.node?_isSome_iff id).2 h)

theorem declaration?_eq_of_node? {t : DeclarationTree} {id : Nat} {node : DeclarationNode}
    (h : t.node? id = some node) : t.declaration? id = some node.toDeclaration := by
  simp [declaration?, h]

theorem parent?_eq_of_node? {t : DeclarationTree} {id : Nat} {node : DeclarationNode}
    (h : t.node? id = some node) : t.parent? id = node.parent := by
  simp [parent?, h]

theorem isType_eq (t : DeclarationTree) (id : Nat) :
    t.isType id = (t.declaration? id).any (fun d ↦ d.kind = .type) := by
  cases h : t.node? id <;> simp [isType, declaration?, h]

theorem lt_size_of_declaration? {t : DeclarationTree} {id : Nat} {d : Declaration}
    (h : t.declaration? id = some d) : id < t.size := by
  obtain ⟨node, hnode, -⟩ := Option.map_eq_some_iff.1 h
  exact lt_size_of_node? hnode

theorem parent?_lt {t : DeclarationTree} {id p : Nat} (h : t.parent? id = some p) : p < id := by
  obtain ⟨node, hnode, hp⟩ := Option.bind_eq_some_iff.1 h
  exact t.parent_before id node hnode p hp

theorem lt_size_of_parent? {t : DeclarationTree} {id p : Nat} (h : t.parent? id = some p) :
    id < t.size := by
  obtain ⟨node, hnode, -⟩ := Option.bind_eq_some_iff.1 h
  exact lt_size_of_node? hnode

section Push

variable (t : DeclarationTree) (parent : Nat) (d : Declaration)

theorem size_push : (t.push parent d).size = t.size + 1 := by
  simp [size, push, size_pushedNodes]

theorem lastId_push : (t.push parent d).lastId = t.size := by
  simp [lastId, size_push]

theorem attachPoint_of_lt {t : DeclarationTree} {parent : Nat} (h : parent < t.size) :
    t.attachPoint parent = parent := by
  simp [attachPoint, h]

theorem node?_push_size :
    (t.push parent d).node? t.size = some { d with parent := some (t.attachPoint parent) } := by
  have hlt := t.attachPoint_lt parent
  simp only [node?, push, pushedNodes, size, Array.getElem?_modify, Array.getElem?_push]
  rw [if_neg (by omega), if_pos trivial]

/-- An old node keeps all but its list of children, which grows only where the new node goes. -/
theorem node?_push_of_lt {id : Nat} (h : id < t.size) :
    (t.push parent d).node? id = (t.node? id).map fun node ↦
      if id = t.attachPoint parent then { node with children := node.children.push t.size }
      else node := by
  have hne : id ≠ t.nodes.size := by unfold size at h; omega
  simp only [node?, push, pushedNodes, size, Array.getElem?_modify, Array.getElem?_push]
  rw [if_neg hne]
  by_cases hid : t.attachPoint parent = id
  · rw [if_pos hid]
    simp [hid]
  · rw [if_neg hid]
    simp [Ne.symm hid]

theorem declaration?_push_of_lt {id : Nat} (h : id < t.size) :
    (t.push parent d).declaration? id = t.declaration? id := by
  obtain ⟨node, hnode⟩ := exists_node?_of_lt h
  simp only [declaration?, node?_push_of_lt t parent d h, hnode, Option.map_some]
  split <;> rfl

theorem declaration?_push_size : (t.push parent d).declaration? t.size = some d := by
  simp [declaration?, node?_push_size]

theorem parent?_push_of_lt {id : Nat} (h : id < t.size) :
    (t.push parent d).parent? id = t.parent? id := by
  obtain ⟨node, hnode⟩ := exists_node?_of_lt h
  simp only [parent?, node?_push_of_lt t parent d h, hnode, Option.map_some, Option.bind_some]
  split <;> rfl

theorem parent?_push_size : (t.push parent d).parent? t.size = some (t.attachPoint parent) := by
  simp [parent?, node?_push_size]

theorem qualifiedName?_push_of_lt {id : Nat} (h : id < t.size) :
    (t.push parent d).qualifiedName? id = t.qualifiedName? id := by
  simp only [qualifiedName?, declaration?_push_of_lt t parent d h]

theorem isType_push_of_lt {id : Nat} (h : id < t.size) :
    (t.push parent d).isType id = t.isType id := by
  simp only [isType_eq, declaration?_push_of_lt t parent d h]

theorem childIds_push_size : (t.push parent d).childIds t.size = [] := by
  simp [childIds, node?_push_size]

theorem childIds_push_of_lt {id : Nat} (h : id < t.size) :
    (t.push parent d).childIds id =
      t.childIds id ++ if id = t.attachPoint parent then [t.size] else [] := by
  obtain ⟨node, hnode⟩ := exists_node?_of_lt h
  simp only [childIds, node?_push_of_lt t parent d h, hnode, Option.map_some, Option.getD_some]
  split <;> simp

end Push

/-- The links of a tree agree: every node but the root has a parent, and the children of a node are
the nodes that name it as their parent, in the order of insertion. -/
structure Linked (t : DeclarationTree) : Prop where
  parent?_root : t.parent? 0 = none
  parent?_isSome : ∀ id, 0 < id → id < t.size → (t.parent? id).isSome
  childIds_eq : ∀ id, t.childIds id = (List.range t.size).filter (fun c ↦ t.parent? c = some id)

theorem size_empty (bytes : Nat) : (empty bytes).size = 1 := rfl

theorem linked_empty (bytes : Nat) : (empty bytes).Linked where
  parent?_root := rfl
  parent?_isSome := by
    intro id hpos hlt
    rw [size_empty] at hlt
    omega
  childIds_eq := by
    intro id
    have hroot : (empty bytes).parent? 0 = none := rfl
    cases id with
    | zero => rfl
    | succ id =>
      rw [size_empty]
      simp only [List.range_one, List.filter_cons, List.filter_nil, hroot]
      simp [childIds, node?, empty]

theorem Linked.push {t : DeclarationTree} (h : t.Linked) (parent : Nat) (d : Declaration) :
    (t.push parent d).Linked where
  parent?_root := by
    rw [parent?_push_of_lt t parent d t.nodes_pos]
    exact h.parent?_root
  parent?_isSome := by
    intro id hpos hlt
    rw [size_push] at hlt
    rcases Nat.lt_succ_iff_lt_or_eq.1 hlt with hold | rfl
    · rw [parent?_push_of_lt t parent d hold]
      exact h.parent?_isSome id hpos hold
    · simp [parent?_push_size]
  childIds_eq := by
    intro id
    have hkeep : (List.range t.size).filter (fun c ↦ (t.push parent d).parent? c = some id) =
        (List.range t.size).filter (fun c ↦ t.parent? c = some id) := by
      apply List.filter_congr
      intro c hc
      rw [parent?_push_of_lt t parent d (List.mem_range.1 hc)]
    rw [size_push, List.range_succ, List.filter_append, hkeep, ← h.childIds_eq id]
    simp only [List.filter_cons, List.filter_nil, parent?_push_size, Option.some.injEq,
      decide_eq_true_eq]
    rcases Nat.lt_trichotomy id t.size with hlt | rfl | hgt
    · rw [childIds_push_of_lt t parent d hlt]
      simp only [eq_comm]
    · -- the new node has no children, and nothing before it could name it as a parent
      have hnone : t.node? t.size = none := by simp [node?, size]
      have hne : t.attachPoint parent ≠ t.size := (t.attachPoint_lt parent).ne
      rw [childIds_push_size, if_neg hne]
      simp [childIds, hnone]
    · have hnone : t.node? id = none := by simp only [node?, size] at *; simp; omega
      have hnone' : (t.push parent d).node? id = none := by
        have := size_push t parent d
        simp only [node?, size] at *
        simp
        omega
      have hne : t.attachPoint parent ≠ id := ((t.attachPoint_lt parent).trans hgt).ne
      rw [if_neg hne]
      simp [childIds, hnone, hnone']

namespace Linked

variable {t : DeclarationTree}

theorem mem_childIds_iff (h : t.Linked) (id c : Nat) :
    c ∈ t.childIds id ↔ t.parent? c = some id := by
  rw [h.childIds_eq, List.mem_filter, List.mem_range, decide_eq_true_eq]
  exact ⟨fun hc ↦ hc.2, fun hc ↦ ⟨lt_size_of_parent? hc, hc⟩⟩

theorem exists_parent (h : t.Linked) {id : Nat} (hpos : 0 < id) (hlt : id < t.size) :
    ∃ p, t.parent? id = some p ∧ p < id := by
  obtain ⟨p, hp⟩ := Option.isSome_iff_exists.1 (h.parent?_isSome id hpos hlt)
  exact ⟨p, hp, parent?_lt hp⟩

end Linked

/-- The tree of a source of `size` bytes after some declarations have been pushed, each below the
node that is given with it. -/
def ofPushes (size : Nat) (pushes : List (Nat × Declaration)) : DeclarationTree :=
  pushes.foldl (fun t p ↦ t.push p.1 p.2) (empty size)

end BinaryNames.DeclarationTree
