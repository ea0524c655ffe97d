import BinaryNames.Java.ParseTree

/-!
# Parse Trees and Outlines

Every parse tree leaves an outline: at each node it has the part that the walk over the tree acts
upon, and nothing of the nodes that are not visited.  A walk over a tree attaches what its outline
declares, if the methods and fields of the tree have names, as the grammar demands.  What is shown
for all outlines is thereby shown for all such trees, whichever parser they come from.
-/

namespace BinaryNames.Java.ParseNode

/-! ## Complete trees -/

/-- Whether the node has a name, if it is one that the walk names without looking. -/
def hasName (source : String) (node : ParseNode) : Bool :=
  match node.role with
  | .method => (node.fieldText? source "name").isSome
  | .field => (node.variableName? source).isSome
  | _ => true

mutual

/-- Whether every method and every field in the tree has a name. -/
def isComplete (source : String) : ParseNode → Bool
  | mk id kind isNamed field start stop children =>
    (mk id kind isNamed field start stop children).hasName source && areComplete source children

def areComplete (source : String) : List ParseNode → Bool
  | [] => true
  | node :: rest => node.isComplete source && areComplete source rest

end

section Complete

variable {source : String} {node child : ParseNode}

theorem areComplete_iff {nodes : List ParseNode} :
    areComplete source nodes = true ↔ ∀ node ∈ nodes, node.isComplete source = true := by
  induction nodes with
  | nil => simp [areComplete]
  | cons node rest ih => simp [areComplete, ih]

theorem isComplete_iff :
    node.isComplete source = true ↔
      node.hasName source = true ∧ ∀ child ∈ node.children, child.isComplete source = true := by
  cases node with
  | mk => rw [isComplete, Bool.and_eq_true, areComplete_iff, children]

variable (h : node.isComplete source = true)
include h

theorem isComplete_of_mem_namedChildren (hchild : child ∈ node.namedChildren) :
    child.isComplete source = true :=
  (isComplete_iff.1 h).2 child (List.mem_filter.1 hchild).1

/-- What is in a child, if there is one, is complete. -/
theorem isComplete_of_mem_elim {child? : Option ParseNode}
    (hmem : ∀ child, child? = some child → child ∈ node.children)
    (hchild : child ∈ child?.elim [] namedChildren) : child.isComplete source = true := by
  cases child? with
  | none => cases hchild
  | some inner =>
    exact isComplete_of_mem_namedChildren ((isComplete_iff.1 h).2 inner (hmem inner rfl)) hchild

theorem isComplete_of_mem_bodyChildren (hchild : child ∈ node.bodyChildren) :
    child.isComplete source = true :=
  isComplete_of_mem_elim h (fun _ hbody ↦ List.mem_of_find?_eq_some hbody) hchild

theorem isComplete_of_mem_classBodyChildren (hchild : child ∈ node.classBodyChildren) :
    child.isComplete source = true :=
  isComplete_of_mem_elim h (fun _ hbody ↦ mem_children_of_anonymousBody? hbody) hchild

end Complete

/-! ## Outlines of trees -/

mutual

/-- The part that a node leaves in the outline. -/
def part (source : String) (node : ParseNode) : Part :=
  match node.role with
  | .namedType =>
    match node.fieldText? source "name" with
    | none => .other []
    | some name =>
      have := node.sizeOf_bodyChildren_lt
      .type node.span name [] (parts source node.bodyChildren)
  | .method =>
    have := node.sizeOf_bodyChildren_lt
    .method node.span ((node.fieldText? source "name").getD "") [] (parts source node.bodyChildren)
  | .field =>
    have := node.sizeOf_namedChildren_lt
    .field node.span ((node.variableName? source).getD "") (parts source node.namedChildren)
  | .staticInitializer =>
    have := node.sizeOf_namedChildren_lt
    .staticInitializer node.span (parts source node.namedChildren)
  | .block =>
    have := node.sizeOf_namedChildren_lt
    .block node.span (parts source node.namedChildren)
  | .creation | .constant =>
    match node.anonymousBody? with
    | none =>
      have := node.sizeOf_namedChildren_lt
      .other (parts source node.namedChildren)
    | some body =>
      have := node.sizeOf_besides_lt body
      have := node.sizeOf_classBodyChildren_lt
      .host (parts source (node.besides body)) body.span (parts source node.classBodyChildren)
  | .other =>
    have := node.sizeOf_namedChildren_lt
    .other (parts source node.namedChildren)
termination_by sizeOf node

def parts (source : String) (nodes : List ParseNode) : List Part :=
  match nodes with
  | [] => []
  | node :: rest => node.part source :: parts source rest
termination_by sizeOf nodes

end

theorem part_of_namedType {source name : String} {node : ParseNode}
    (hrole : node.role = .namedType) (hname : node.fieldText? source "name" = some name) :
    node.part source = .type node.span name [] (parts source node.bodyChildren) := by
  rw [part]
  simp only [hrole, hname]

/-- The outline of a source with a parse tree. -/
def outline (source : String) (root : ParseNode) : Outline :=
  ⟨root.declaredPackage? source, parts source root.namedChildren⟩

mutual

/-- A visit attaches what the part of the node declares. -/
theorem visit_eq_growPart (source package : String) (scope : Scope) (g : Growth)
    {node : ParseNode} (h : node.isComplete source = true) :
    visit source package scope g node = growPart package scope g (node.part source) := by
  have hname := (isComplete_iff.1 h).1
  have hnamed : ∀ child ∈ node.namedChildren, child.isComplete source = true :=
    fun _ ↦ isComplete_of_mem_namedChildren h
  have hbody : ∀ child ∈ node.bodyChildren, child.isComplete source = true :=
    fun _ ↦ isComplete_of_mem_bodyChildren h
  -- the two theorems call each other on what the node has, which is smaller
  have := node.sizeOf_namedChildren_lt
  have := node.sizeOf_bodyChildren_lt
  unfold hasName at hname
  unfold visit part
  cases hrole : node.role with
  | namedType =>
    simp only
    cases node.fieldText? source "name" with
    | none => rw [growPart, growParts]
    | some name =>
      rw [growPart]
      exact visitAll_eq_growParts source package _ _ hbody
  | method =>
    rw [hrole] at hname
    obtain ⟨name, hsome⟩ := Option.isSome_iff_exists.1 hname
    simp only [hsome, Option.getD_some]
    rw [growPart]
    exact visitAll_eq_growParts source package _ _ hbody
  | field =>
    rw [hrole] at hname
    obtain ⟨name, hsome⟩ := Option.isSome_iff_exists.1 hname
    simp only [hsome, Option.getD_some]
    rw [growPart]
    exact visitAll_eq_growParts source package _ _ hnamed
  | staticInitializer =>
    simp only
    rw [growPart]
    exact visitAll_eq_growParts source package _ _ hnamed
  | block =>
    simp only
    rw [growPart]
    split
    · exact visitAll_eq_growParts source package _ _ hnamed
    · exact visitAll_eq_growParts source package _ _ hnamed
  | creation | constant =>
    simp only
    cases node.anonymousBody? with
    | none =>
      rw [growPart]
      exact visitAll_eq_growParts source package _ _ hnamed
    | some body =>
      have := node.sizeOf_besides_lt body
      have := node.sizeOf_classBodyChildren_lt
      have hbesides : ∀ child ∈ node.besides body, child.isComplete source = true :=
        fun child hchild ↦ hnamed child (List.mem_filter.1 hchild).1
      dsimp only
      rw [growPart, visitAll_eq_growParts source package _ _ hbesides]
      exact visitAll_eq_growParts source package _ _ fun _ ↦ isComplete_of_mem_classBodyChildren h
  | other =>
    simp only
    rw [growPart]
    exact visitAll_eq_growParts source package _ _ hnamed
termination_by sizeOf node

theorem visitAll_eq_growParts (source package : String) (scope : Scope) (g : Growth)
    {nodes : List ParseNode} (h : ∀ node ∈ nodes, node.isComplete source = true) :
    visitAll source package scope g nodes = growParts package scope g (parts source nodes) := by
  match nodes with
  | [] => rw [visitAll, parts, growParts]
  | node :: rest =>
    rw [List.forall_mem_cons] at h
    rw [visitAll, parts, growParts, visit_eq_growPart source package scope g h.1]
    exact visitAll_eq_growParts source package scope _ h.2
termination_by sizeOf nodes

end

/-- The declarations of a source with a complete parse tree are those of its outline. -/
theorem declarations_eq {source : String} {root : ParseNode} (h : root.isComplete source = true)
    (suggested : Option String) :
    root.declarations source suggested =
      (root.outline source).declarations source.utf8ByteSize suggested := by
  rw [declarations, Outline.declarations, visitAll_eq_growParts _ _ _ _ fun _ ↦
    isComplete_of_mem_namedChildren h]
  rfl

end BinaryNames.Java.ParseNode
