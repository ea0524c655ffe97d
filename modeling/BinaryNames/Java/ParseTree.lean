import BinaryNames.Java.Declarations

/-!
# Parse Trees

A parser gives a tree of nodes, each with a kind and the bytes that it covers.  Nodes that the
grammar names stand beside those of brackets and other marks, and some fill a field of the node
around them.  A walk over such a tree attaches the declarations to a declaration tree.
-/

namespace BinaryNames.Java

inductive ParseNode where
  | mk (id : Nat) (kind : String) (isNamed : Bool) (field : Option String) (start stop : Nat)
      (children : List ParseNode)
deriving Inhabited

/-- What the walk does at a node. -/
inductive Role where
  | namedType
  | method
  | field
  | staticInitializer
  | block
  /-- An object creation, whose class body is known by its kind. -/
  | creation
  /-- An enum constant, whose class body is known by its field. -/
  | constant
  | other
deriving DecidableEq, Repr

namespace ParseNode

def id : ParseNode → Nat
  | mk id .. => id

def kind : ParseNode → String
  | mk _ kind .. => kind

def isNamed : ParseNode → Bool
  | mk _ _ isNamed .. => isNamed

def field : ParseNode → Option String
  | mk _ _ _ field .. => field

def start : ParseNode → Nat
  | mk _ _ _ _ start .. => start

def stop : ParseNode → Nat
  | mk _ _ _ _ _ stop _ => stop

def children : ParseNode → List ParseNode
  | mk _ _ _ _ _ _ children => children

def role (node : ParseNode) : Role :=
  match node.kind with
  | "class_declaration" | "interface_declaration" | "enum_declaration" | "record_declaration"
  | "annotation_type_declaration" => .namedType
  | "method_declaration" | "constructor_declaration" | "compact_constructor_declaration" => .method
  | "field_declaration" | "constant_declaration" => .field
  | "static_initializer" => .staticInitializer
  | "block" => .block
  | "object_creation_expression" => .creation
  | "enum_constant" => .constant
  | _ => .other

/-- The bytes that the node covers. -/
def span (node : ParseNode) : Span := .ofBounds (offsetOfSize node.start) (offsetOfSize node.stop)

def text? (source : String) (node : ParseNode) : Option String :=
  textAt? source (.ofBounds node.start node.stop)

def namedChildren (node : ParseNode) : List ParseNode := node.children.filter isNamed

def childByField? (node : ParseNode) (name : String) : Option ParseNode :=
  node.children.find? fun child ↦ child.field = some name

/-- The children of the node that fills the field of the body; there are none without a body. -/
def bodyChildren (node : ParseNode) : List ParseNode :=
  (node.childByField? "body").elim [] namedChildren

/-- The text of the child that fills a field. -/
def fieldText? (source : String) (node : ParseNode) (name : String) : Option String :=
  (node.childByField? name).bind (text? source)

/-- The name of a field: that of the first variable that it declares. -/
def variableName? (source : String) (node : ParseNode) : Option String :=
  (node.childByField? "declarator").bind fun declarator ↦ declarator.fieldText? source "name"

/-- The class body of an object creation or an enum constant. -/
def anonymousBody? (node : ParseNode) : Option ParseNode :=
  if node.role = .constant then node.childByField? "body"
  else node.namedChildren.find? fun child ↦ child.kind = "class_body"

/-- The children of the class body. -/
def classBodyChildren (node : ParseNode) : List ParseNode :=
  node.anonymousBody?.elim [] namedChildren

/-- The children that are visited before the class body. -/
def besides (node body : ParseNode) : List ParseNode :=
  node.namedChildren.filter fun child ↦ child.id ≠ body.id

/-- The name in the package declaration. -/
def declaredPackage? (source : String) (root : ParseNode) : Option String :=
  (root.namedChildren.find? fun child ↦ child.kind = "package_declaration").bind fun package ↦
    (package.namedChildren.find? fun child ↦
      child.kind = "scoped_identifier" || child.kind = "identifier").bind (text? source)

/-! ## The walk -/

theorem sizeOf_filter_le (p : ParseNode → Bool) (nodes : List ParseNode) :
    sizeOf (nodes.filter p) ≤ sizeOf nodes := by
  induction nodes with
  | nil => simp
  | cons node rest ih =>
    rw [List.filter_cons]
    split
    · simp only [List.cons.sizeOf_spec]
      omega
    · rw [List.cons.sizeOf_spec]
      omega

theorem sizeOf_children_lt (node : ParseNode) : sizeOf node.children < sizeOf node := by
  cases node with
  | mk => simp only [children, mk.sizeOf_spec]; omega

theorem sizeOf_namedChildren_lt (node : ParseNode) : sizeOf node.namedChildren < sizeOf node :=
  Nat.lt_of_le_of_lt (sizeOf_filter_le _ _) node.sizeOf_children_lt

theorem sizeOf_besides_lt (node body : ParseNode) : sizeOf (node.besides body) < sizeOf node :=
  Nat.lt_of_le_of_lt (sizeOf_filter_le _ _) node.sizeOf_namedChildren_lt

theorem mem_children_of_anonymousBody? {node body : ParseNode}
    (h : node.anonymousBody? = some body) : body ∈ node.children := by
  unfold anonymousBody? at h
  split at h
  · exact List.mem_of_find?_eq_some h
  · exact (List.mem_filter.1 (List.mem_of_find?_eq_some h)).1

/-- What is in a child is smaller than the node, and so is nothing at all. -/
theorem sizeOf_elim_namedChildren_lt {node : ParseNode} {child? : Option ParseNode}
    (h : ∀ child, child? = some child → child ∈ node.children) :
    sizeOf (child?.elim [] namedChildren) < sizeOf node := by
  have hchildren := node.sizeOf_children_lt
  cases child? with
  | none =>
    have hpos : 0 < sizeOf node.children := by
      cases node.children with
      | nil => simp
      | cons child rest => rw [List.cons.sizeOf_spec]; omega
    simp only [Option.elim_none, List.nil.sizeOf_spec]
    omega
  | some child =>
    exact Nat.lt_trans child.sizeOf_namedChildren_lt
      (Nat.lt_trans (List.sizeOf_lt_of_mem (h child rfl)) hchildren)

theorem sizeOf_bodyChildren_lt (node : ParseNode) : sizeOf node.bodyChildren < sizeOf node :=
  sizeOf_elim_namedChildren_lt fun _ h ↦ List.mem_of_find?_eq_some h

theorem sizeOf_classBodyChildren_lt (node : ParseNode) :
    sizeOf node.classBodyChildren < sizeOf node :=
  sizeOf_elim_namedChildren_lt fun _ h ↦ mem_children_of_anonymousBody? h

mutual

/-- Attaches what a node declares.  A block directly in the body of a type is an initializer. -/
def visit (source package : String) (scope : Scope) (g : Growth) (node : ParseNode) : Growth :=
  match node.role with
  | .namedType =>
    match node.fieldText? source "name" with
    | none => g
    | some name =>
      let g := g.pushType package scope node.span name
      have := node.sizeOf_bodyChildren_lt
      visitAll source package (.body g.lastId) g node.bodyChildren
  | .method =>
    let g := g.push scope
      { kind := .method, span := node.span, simpleName := node.fieldText? source "name" }
    have := node.sizeOf_bodyChildren_lt
    visitAll source package (scope.code g.lastId) g node.bodyChildren
  | .field =>
    let g := g.push scope
      { kind := .field, span := node.span, simpleName := node.variableName? source }
    have := node.sizeOf_namedChildren_lt
    visitAll source package (scope.code g.lastId) g node.namedChildren
  | .staticInitializer =>
    let g := g.push scope { kind := .initializer, span := node.span }
    have := node.sizeOf_namedChildren_lt
    visitAll source package (scope.code g.lastId) g node.namedChildren
  | .block =>
    have := node.sizeOf_namedChildren_lt
    if scope.isBody then
      let g := g.push scope { kind := .initializer, span := node.span }
      visitAll source package (scope.code g.lastId) g node.namedChildren
    else visitAll source package scope g node.namedChildren
  | .creation | .constant =>
    match node.anonymousBody? with
    | none =>
      have := node.sizeOf_namedChildren_lt
      visitAll source package scope g node.namedChildren
    | some body =>
      have := node.sizeOf_besides_lt body
      have := node.sizeOf_classBodyChildren_lt
      let g := visitAll source package scope g (node.besides body)
      let g := g.pushAnonymous scope body.span
      visitAll source package (.body g.lastId) g node.classBodyChildren
  | .other =>
    have := node.sizeOf_namedChildren_lt
    visitAll source package scope g node.namedChildren
termination_by sizeOf node

/-- Attaches what the nodes declare, in order. -/
def visitAll (source package : String) (scope : Scope) (g : Growth) (nodes : List ParseNode) :
    Growth :=
  match nodes with
  | [] => g
  | node :: rest => visitAll source package scope (visit source package scope g node) rest
termination_by sizeOf nodes

end

/-- The declarations of a source with a parse tree. -/
def declarations (source : String) (root : ParseNode) (suggested : Option String) :
    DeclarationTree :=
  let package := ((root.declaredPackage? source).or suggested).getD ""
  let start : Growth := { tree := .empty (offsetOfSize source.utf8ByteSize) }
  (visitAll source package {} start root.namedChildren).tree

end ParseNode

end BinaryNames.Java
