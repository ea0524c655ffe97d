import BinaryNames.Source.Span

/-!
# Declaration Trees

The declarations of a source form a tree.  A declaration is known by its position in the order of
insertion, the root being 0, and it keeps its position and its place for good.  A parent always
comes before its children, which is what lets walks up and down the tree end.
-/

namespace BinaryNames

inductive DeclarationKind where
  | unit
  | type
  | method
  | field
  | initializer
deriving DecidableEq, Repr, Inhabited

/-- What is known of a declaration before it has a place in a tree. -/
structure Declaration where
  kind : DeclarationKind
  span : Span
  /-- The name with its package and its enclosing types. -/
  qualifiedName : Option String := none
  simpleName : Option String := none
  /-- A named type that is declared in code rather than as a member of a type. -/
  isLocal : Bool := false
  isAnonymous : Bool := false
deriving DecidableEq, Repr, Inhabited

/-- A declaration in its place. -/
structure DeclarationNode extends Declaration where
  parent : Option Nat
  children : Array Nat := #[]
deriving DecidableEq, Repr, Inhabited

/-- The nodes in the order of insertion; the first is the root. -/
structure DeclarationTree where
  nodes : Array DeclarationNode
  nodes_pos : 0 < nodes.size
  child_after : ∀ (id : Nat) (node : DeclarationNode), nodes[id]? = some node →
    ∀ c ∈ node.children, id < c ∧ c < nodes.size
  parent_before : ∀ (id : Nat) (node : DeclarationNode), nodes[id]? = some node →
    ∀ p ∈ node.parent, p < id

namespace DeclarationTree

/-- The tree of a source of `size` bytes that declares nothing. -/
def empty (size : Nat) : DeclarationTree where
  nodes := #[{ kind := .unit, span := ⟨0, size⟩, parent := none }]
  nodes_pos := by simp
  child_after := by
    intro id node h
    cases id <;> simp at h
    subst h
    simp
  parent_before := by
    intro id node h
    cases id <;> simp at h
    subst h
    simp

instance : Inhabited DeclarationTree := ⟨empty 0⟩

def size (t : DeclarationTree) : Nat := t.nodes.size

def node? (t : DeclarationTree) (id : Nat) : Option DeclarationNode := t.nodes[id]?

/-- The node that a new child of `parent` gets: an unknown parent stands for the root. -/
def attachPoint (t : DeclarationTree) (parent : Nat) : Nat :=
  if parent < t.size then parent else 0

theorem attachPoint_lt (t : DeclarationTree) (parent : Nat) :
    t.attachPoint parent < t.nodes.size := by
  unfold attachPoint size
  split
  · assumption
  · exact t.nodes_pos

/-- The nodes with `d` as a new last child of the node at `parent`. -/
def pushedNodes (nodes : Array DeclarationNode) (parent : Nat) (d : Declaration) :
    Array DeclarationNode :=
  let id := nodes.size
  (nodes.push { d with parent := some parent }).modify parent
    (fun node ↦ { node with children := node.children.push id })

theorem size_pushedNodes (nodes : Array DeclarationNode) (parent : Nat) (d : Declaration) :
    (pushedNodes nodes parent d).size = nodes.size + 1 := by
  simp [pushedNodes]

/-- Attaches a declaration as the last child of `parent`. -/
def push (t : DeclarationTree) (parent : Nat) (d : Declaration) : DeclarationTree where
  nodes := pushedNodes t.nodes (t.attachPoint parent) d
  nodes_pos := by rw [size_pushedNodes]; omega
  child_after := by
    intro id node h c hc
    have hp := t.attachPoint_lt parent
    rw [size_pushedNodes]
    simp only [pushedNodes, Array.getElem?_modify, Array.getElem?_push] at h
    have old := t.child_after id
    split at h
    · next he =>
      subst he
      split at h
      · omega
      · obtain ⟨before, hb, rfl⟩ := Option.map_eq_some_iff.1 h
        rcases Array.mem_push.1 hc with hc | rfl
        · have := old before hb c hc
          omega
        · omega
    · split at h
      · cases h
        simp at hc
      · have := old node h c hc
        omega
  parent_before := by
    intro id node h p hparent
    have hp := t.attachPoint_lt parent
    simp only [pushedNodes, Array.getElem?_modify, Array.getElem?_push] at h
    have old := t.parent_before id
    split at h
    · next he =>
      subst he
      split at h
      · omega
      · obtain ⟨before, hb, rfl⟩ := Option.map_eq_some_iff.1 h
        exact old before hb p hparent
    · split at h
      · next hid =>
        cases h
        simp at hparent
        omega
      · exact old node h p hparent

/-- The position of the node that was pushed last. -/
def lastId (t : DeclarationTree) : Nat := t.size - 1

/-- Whether the node at `id` exists and covers `offset`. -/
def covers (t : DeclarationTree) (offset id : Nat) : Bool :=
  (t.node? id).any (fun node ↦ node.span.contains offset)

/-- The first child of the node at `id` that covers `offset`. -/
def childAt? (t : DeclarationTree) (id offset : Nat) : Option Nat :=
  (t.node? id).bind (fun node ↦ node.children.find? (t.covers offset))

theorem childAt?_bounds (t : DeclarationTree) {id offset c : Nat}
    (h : t.childAt? id offset = some c) : id < c ∧ c < t.size := by
  obtain ⟨node, hn, hf⟩ := Option.bind_eq_some_iff.1 h
  exact t.child_after id node hn c (Array.mem_of_find?_eq_some hf)

/-- The deepest declaration reached from `id` by going to the first child that covers `offset`. -/
def descend (t : DeclarationTree) (offset id : Nat) : Nat :=
  match h : t.childAt? id offset with
  | some c =>
    have := t.childAt?_bounds h
    t.descend offset c
  | none => id
termination_by t.size - id

/-- The deepest declaration that covers `offset`, or the root. -/
def elementAt (t : DeclarationTree) (offset : Nat) : Nat := t.descend offset 0

/-- The node at `id` and its ancestors, without the root. -/
def chain (t : DeclarationTree) (id : Nat) : List Nat :=
  match h : t.node? id with
  | none => []
  | some node =>
    if node.kind = .unit then []
    else match hp : node.parent with
      | none => [id]
      | some p =>
        have := t.parent_before id node h p hp
        id :: t.chain p
termination_by id

/-- Whether the node at `id` is a type. -/
def isType (t : DeclarationTree) (id : Nat) : Bool :=
  (t.node? id).any (fun node ↦ node.kind = .type)

/-- The types that are children of the root. -/
def topLevelTypes (t : DeclarationTree) : List Nat :=
  ((t.node? 0).map (fun node ↦ node.children.toList.filter t.isType)).getD []

end DeclarationTree

end BinaryNames
