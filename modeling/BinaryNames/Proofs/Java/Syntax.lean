import BinaryNames.Java.Declarations
import Mathlib.Data.List.Sort

/-!
# Places in an Outline

An outline is a tree, in which a place is known by its address: the positions of the children that
lead to it.  An address is above another when it is a prefix of it, and places follow each other in
the text as their addresses do as lists.  The places that declare something and are not in a header
are listed in that order.
-/

namespace BinaryNames

/-- What the text alone says of a declaration.  The name and the place of a type are said by what
stands around it. -/
def Declaration.bare (d : Declaration) : Declaration :=
  if d.kind = .type then { d with qualifiedName := none, isLocal := false } else d

section Bare

variable (d : Declaration)

@[simp] theorem Declaration.bare_kind : d.bare.kind = d.kind := by
  unfold bare
  split <;> rfl

@[simp] theorem Declaration.bare_span : d.bare.span = d.span := by
  unfold bare
  split <;> rfl

@[simp] theorem Declaration.bare_simpleName : d.bare.simpleName = d.simpleName := by
  unfold bare
  split <;> rfl

@[simp] theorem Declaration.bare_isAnonymous : d.bare.isAnonymous = d.isAnonymous := by
  unfold bare
  split <;> rfl

end Bare

namespace Java

/-- A node of an outline: the whole of it, a part, or the class body of a host, which stands after
the arguments. -/
inductive SyntaxNode where
  | unit (parts : List Part)
  | part (part : Part)
  | classBody (span : Span) (members : List Part)

namespace SyntaxNode

def children : SyntaxNode → List SyntaxNode
  | unit parts => parts.map part
  | part (.type _ _ header members) => header.map part ++ members.map part
  | part (.method _ _ header body) => header.map part ++ body.map part
  | part (.field _ _ parts) => parts.map part
  | part (.staticInitializer _ parts) => parts.map part
  | part (.block _ parts) => parts.map part
  | part (.host arguments body members) => arguments.map part ++ [classBody body members]
  | part (.other parts) => parts.map part
  | classBody _ members => members.map part

/-- The children in front that make up the header of a type or method. -/
def headerLength : SyntaxNode → Nat
  | part (.type _ _ header _) => header.length
  | part (.method _ _ header _) => header.length
  | _ => 0

/-- The children that are not in a header. -/
def contents (node : SyntaxNode) : List SyntaxNode := node.children.drop node.headerLength

/-- Whether what the node holds stands directly in the body of a type, where `inBody` says so of the
node itself. -/
def holdsMembers (inBody : Bool) : SyntaxNode → Bool
  | part (.type ..) | classBody .. => true
  | part (.host ..) | part (.other ..) => inBody
  | _ => false

/-- What the node itself declares.  A block declares something only in the body of a type. -/
def declared? (inBody : Bool) : SyntaxNode → Option Declaration
  | part (.type span name _ _) => some { kind := .type, span, simpleName := some name }
  | part (.method span name _ _) => some { kind := .method, span, simpleName := some name }
  | part (.field span name _) => some { kind := .field, span, simpleName := some name }
  | part (.staticInitializer span _) => some { kind := .initializer, span }
  | part (.block span _) => if inBody then some { kind := .initializer, span } else none
  | classBody span _ => some { kind := .type, span, isAnonymous := true }
  | unit _ | part (.host ..) | part (.other ..) => none

/-- What is declared at an address below the node.  No address leads into a header. -/
def declaredAt? (inBody : Bool) (node : SyntaxNode) : List Nat → Option Declaration
  | [] => node.declared? inBody
  | i :: rest =>
    if i < node.headerLength then none
    else node.children[i]?.bind fun child ↦ child.declaredAt? (node.holdsMembers inBody) rest

theorem sizeOf_lt_of_mem_map {child : SyntaxNode} {parts : List Part}
    (h : child ∈ parts.map part) : sizeOf child < 1 + sizeOf parts := by
  obtain ⟨p, hp, rfl⟩ := List.mem_map.1 h
  have := List.sizeOf_lt_of_mem hp
  rw [part.sizeOf_spec]
  omega

theorem sizeOf_lt_of_mem_children {node child : SyntaxNode} (h : child ∈ node.children) :
    sizeOf child < sizeOf node := by
  cases node with
  | unit | classBody =>
    have := sizeOf_lt_of_mem_map h
    simp only [unit.sizeOf_spec, classBody.sizeOf_spec]
    omega
  | part p =>
    rw [part.sizeOf_spec]
    cases p with
    | type | method =>
      simp only [Part.type.sizeOf_spec, Part.method.sizeOf_spec]
      rcases List.mem_append.1 h with h | h
      · have := sizeOf_lt_of_mem_map h
        omega
      · have := sizeOf_lt_of_mem_map h
        omega
    | field | staticInitializer | block | other =>
      have := sizeOf_lt_of_mem_map h
      simp only [Part.field.sizeOf_spec, Part.staticInitializer.sizeOf_spec,
        Part.block.sizeOf_spec, Part.other.sizeOf_spec]
      omega
    | host arguments body members =>
      rw [Part.host.sizeOf_spec]
      rcases List.mem_append.1 h with h | h
      · have := sizeOf_lt_of_mem_map h
        omega
      · rw [List.mem_singleton.1 h, classBody.sizeOf_spec]
        omega

/-- What passes from the contents of a node to the node holds of every node. -/
theorem induction {motive : SyntaxNode → Prop}
    (step : ∀ node : SyntaxNode, (∀ child ∈ node.contents, motive child) → motive node)
    (node : SyntaxNode) : motive node :=
  step node fun child _ ↦ induction step child
termination_by sizeOf node
decreasing_by exact sizeOf_lt_of_mem_children (List.mem_of_mem_drop ‹_›)

end SyntaxNode

/-- What an outline declares at an address. -/
def Outline.declaredAt? (outline : Outline) (address : List Nat) : Option Declaration :=
  (SyntaxNode.unit outline.parts).declaredAt? false address

/-! ## Listing the places -/

/-- A place that declares something. -/
structure Site where
  address : List Nat
  declaration : Declaration

/-- The places in a node that declare something, in the order of the text. -/
def SyntaxNode.sites (inBody : Bool) (address : List Nat) (node : SyntaxNode) : List Site :=
  ((node.declared? inBody).map (Site.mk address)).toList ++
    (node.contents.attach.zipIdx node.headerLength).flatMap fun (⟨child, _⟩, i) ↦
      child.sites (node.holdsMembers inBody) (address ++ [i])
termination_by sizeOf node
decreasing_by exact sizeOf_lt_of_mem_children (List.mem_of_mem_drop ‹_›)

/-- The places in nodes that are the children from `start` on of the node at an address. -/
def sitesFrom (inBody : Bool) (address : List Nat) (start : Nat) : List SyntaxNode → List Site
  | [] => []
  | node :: rest =>
    node.sites inBody (address ++ [start]) ++ sitesFrom inBody address (start + 1) rest

def Outline.sites (outline : Outline) : List Site :=
  sitesFrom false [] 0 (outline.parts.map .part)

theorem sitesFrom_eq_flatMap (inBody : Bool) (address : List Nat) (start : Nat)
    (nodes : List SyntaxNode) : sitesFrom inBody address start nodes =
      (nodes.zipIdx start).flatMap fun (node, i) ↦ node.sites inBody (address ++ [i]) := by
  induction nodes generalizing start with
  | nil => rfl
  | cons node rest ih => rw [sitesFrom, ih, List.zipIdx_cons, List.flatMap_cons]

/-- A node comes first, then what it holds. -/
theorem SyntaxNode.sites_eq (inBody : Bool) (address : List Nat) (node : SyntaxNode) :
    node.sites inBody address = ((node.declared? inBody).map (Site.mk address)).toList ++
      sitesFrom (node.holdsMembers inBody) address node.headerLength node.contents := by
  rw [sites, sitesFrom_eq_flatMap]
  congr 1
  conv_rhs => rw [← List.attach_map_subtype_val node.contents, List.zipIdx_map, List.flatMap_map]
  rfl

/-! ### Addresses -/

section Addresses

variable {a b : List Nat} {i j : Nat}

theorem lt_append_cons (a : List Nat) (i : Nat) (x : List Nat) : a < a ++ i :: x := by
  have h : a ++ [] < a ++ i :: x := List.append_left_lt (List.nil_lt_cons i x)
  rwa [List.append_nil] at h

theorem exists_eq_of_below_child (h : a ++ [i] <+: b) : ∃ x, b = a ++ i :: x := by
  obtain ⟨x, rfl⟩ := h
  exact ⟨x, by simp⟩

/-- What is below one child is not below another. -/
theorem child_eq_of_below (hi : a ++ [i] <+: b) (hj : a ++ [j] <+: b) : i = j := by
  obtain ⟨x, rfl⟩ := exists_eq_of_below_child hi
  obtain ⟨y, hy⟩ := exists_eq_of_below_child hj
  exact (List.cons.inj (List.append_cancel_left hy)).1

theorem not_above_of_below_child (h : a ++ [i] <+: b) : ¬b <+: a := by
  intro hba
  have := (h.trans hba).length_le
  rw [List.length_append, List.length_singleton] at this
  omega

end Addresses

theorem mem_sitesFrom_iff {inBody : Bool} {address : List Nat} {start : Nat}
    {nodes : List SyntaxNode} {s : Site} : s ∈ sitesFrom inBody address start nodes ↔
      ∃ (i : Nat) (node : SyntaxNode), nodes[i]? = some node ∧
        s ∈ node.sites inBody (address ++ [start + i]) := by
  induction nodes generalizing start with
  | nil => simp [sitesFrom]
  | cons node rest ih =>
    rw [sitesFrom, List.mem_append, ih]
    constructor
    · rintro (h | ⟨i, child, hi, h⟩)
      · exact ⟨0, node, rfl, h⟩
      · exact ⟨i + 1, child, hi, by rwa [Nat.add_right_comm] at h⟩
    · rintro ⟨i, child, hi, h⟩
      cases i with
      | zero =>
        obtain rfl := Option.some.inj hi
        exact Or.inl h
      | succ i => exact Or.inr ⟨i, child, hi, by rwa [Nat.add_right_comm]⟩

theorem mem_declared_iff {d? : Option Declaration} {address : List Nat} {s : Site} :
    s ∈ (d?.map (Site.mk address)).toList ↔ s.address = address ∧ d? = some s.declaration := by
  cases d? with
  | none => simp
  | some d => cases s; simp [eq_comm]

/-- The places in a node are at or below its address. -/
theorem SyntaxNode.prefix_of_mem_sites {inBody : Bool} {address : List Nat} {node : SyntaxNode}
    {s : Site} (h : s ∈ node.sites inBody address) : address <+: s.address := by
  induction node using SyntaxNode.induction generalizing inBody address with
  | step node ih =>
    rw [sites_eq, List.mem_append, mem_declared_iff, mem_sitesFrom_iff] at h
    rcases h with ⟨rfl, -⟩ | ⟨i, child, hi, h⟩
    · exact List.prefix_rfl
    · exact (List.prefix_append _ _).trans (ih child (List.mem_of_getElem? hi) h)

theorem exists_child_of_mem_sitesFrom {inBody : Bool} {address : List Nat} {start : Nat}
    {nodes : List SyntaxNode} {s : Site} (h : s ∈ sitesFrom inBody address start nodes) :
    ∃ i, start ≤ i ∧ i < start + nodes.length ∧ address ++ [i] <+: s.address := by
  obtain ⟨i, node, hi, hs⟩ := mem_sitesFrom_iff.1 h
  have hlt := (List.getElem?_eq_some_iff.1 hi).1
  exact ⟨start + i, by omega, by omega, SyntaxNode.prefix_of_mem_sites hs⟩

theorem sitesFrom_append (inBody : Bool) (address : List Nat) (start : Nat)
    (first second : List SyntaxNode) : sitesFrom inBody address start (first ++ second) =
      sitesFrom inBody address start first ++
        sitesFrom inBody address (start + first.length) second := by
  rw [sitesFrom_eq_flatMap, List.zipIdx_append, List.flatMap_append, ← sitesFrom_eq_flatMap,
    ← sitesFrom_eq_flatMap, Nat.add_comm]

/-- The places are listed by their addresses: those of `declaredAt?` and no others. -/
theorem SyntaxNode.mem_sites_iff {inBody : Bool} {address : List Nat} {node : SyntaxNode}
    {s : Site} : s ∈ node.sites inBody address ↔
      ∃ below, s.address = address ++ below ∧
        node.declaredAt? inBody below = some s.declaration := by
  induction node using SyntaxNode.induction generalizing inBody address with
  | step node ih =>
    rw [sites_eq, List.mem_append, mem_declared_iff, mem_sitesFrom_iff]
    constructor
    · rintro (⟨haddress, hd⟩ | ⟨i, child, hi, h⟩)
      · exact ⟨[], by simpa using haddress, hd⟩
      · obtain ⟨below, haddress, hd⟩ := (ih child (List.mem_of_getElem? hi)).1 h
        refine ⟨(node.headerLength + i) :: below, by simpa using haddress, ?_⟩
        rw [contents, List.getElem?_drop] at hi
        rw [declaredAt?, if_neg (by omega), hi]
        exact hd
    · rintro ⟨below, haddress, hd⟩
      cases below with
      | nil => exact Or.inl ⟨by simpa using haddress, hd⟩
      | cons k below =>
        rw [declaredAt?] at hd
        split at hd
        · cases hd
        · next hk =>
          obtain ⟨child, hchild, hbelow⟩ := Option.bind_eq_some_iff.1 hd
          obtain ⟨i, rfl⟩ := Nat.exists_eq_add_of_le (Nat.le_of_not_lt hk)
          have hi : node.contents[i]? = some child := by rwa [contents, List.getElem?_drop]
          exact Or.inr ⟨i, child, hi,
            (ih child (List.mem_of_getElem? hi)).2 ⟨below, by simpa using haddress, hbelow⟩⟩

theorem pairwise_sitesFrom {inBody : Bool} {nodes : List SyntaxNode} (address : List Nat)
    (start : Nat) (h : ∀ node ∈ nodes, ∀ i,
      (node.sites inBody (address ++ [i])).Pairwise fun s s' ↦ s.address < s'.address) :
    (sitesFrom inBody address start nodes).Pairwise fun s s' ↦ s.address < s'.address := by
  induction nodes generalizing start with
  | nil => exact List.Pairwise.nil
  | cons node rest ih =>
    rw [List.forall_mem_cons] at h
    rw [sitesFrom, List.pairwise_append]
    refine ⟨h.1 start, ih (start + 1) h.2, fun s hs s' hs' ↦ ?_⟩
    obtain ⟨i, hi, -, hbelow⟩ := exists_child_of_mem_sitesFrom hs'
    obtain ⟨x, hx⟩ := exists_eq_of_below_child (SyntaxNode.prefix_of_mem_sites hs)
    obtain ⟨y, hy⟩ := exists_eq_of_below_child hbelow
    rw [hx, hy]
    exact List.append_left_lt (List.cons_lt_cons_iff.2 (Or.inl hi))

/-- The places are listed in the order of the text. -/
theorem SyntaxNode.pairwise_sites (inBody : Bool) (address : List Nat) (node : SyntaxNode) :
    (node.sites inBody address).Pairwise fun s s' ↦ s.address < s'.address := by
  induction node using SyntaxNode.induction generalizing inBody address with
  | step node ih =>
    have hinner := pairwise_sitesFrom address node.headerLength fun child hchild i ↦
      ih child hchild (node.holdsMembers inBody) (address ++ [i])
    rw [sites_eq]
    cases hd : node.declared? inBody with
    | none => exact hinner
    | some d =>
      refine List.pairwise_cons.2 ⟨fun s hs ↦ ?_, hinner⟩
      obtain ⟨i, -, -, hbelow⟩ := exists_child_of_mem_sitesFrom hs
      obtain ⟨x, hx⟩ := exists_eq_of_below_child hbelow
      rw [hx]
      exact lt_append_cons address i x

theorem SyntaxNode.contents_type (span : Span) (name : String) (header members : List Part) :
    (SyntaxNode.part (.type span name header members)).contents = members.map .part :=
  List.drop_left' (List.length_map ..)

theorem SyntaxNode.contents_method (span : Span) (name : String) (header body : List Part) :
    (SyntaxNode.part (.method span name header body)).contents = body.map .part :=
  List.drop_left' (List.length_map ..)

/-- The arguments of a host come before its class body. -/
theorem SyntaxNode.sites_host (inBody : Bool) (address : List Nat) (arguments : List Part)
    (body : Span) (members : List Part) :
    (SyntaxNode.part (.host arguments body members)).sites inBody address =
      sitesFrom inBody address 0 (arguments.map .part) ++
        (SyntaxNode.classBody body members).sites inBody (address ++ [arguments.length]) := by
  have hcontents : (SyntaxNode.part (.host arguments body members)).contents =
      arguments.map .part ++ [.classBody body members] := rfl
  rw [sites_eq, hcontents, sitesFrom_append]
  simp [sitesFrom, declared?, holdsMembers, headerLength]

/-- The places of an outline are those at which something is declared. -/
theorem Outline.mem_sites_iff {outline : Outline} {s : Site} :
    s ∈ outline.sites ↔ outline.declaredAt? s.address = some s.declaration := by
  have hunit : outline.sites = (SyntaxNode.unit outline.parts).sites false [] := by
    rw [SyntaxNode.sites_eq]
    rfl
  rw [hunit, SyntaxNode.mem_sites_iff]
  simp [declaredAt?]

theorem Outline.pairwise_sites (outline : Outline) :
    outline.sites.Pairwise fun s s' ↦ s.address < s'.address :=
  pairwise_sitesFrom [] 0 fun node _ i ↦ node.pairwise_sites false ([] ++ [i])

end Java

end BinaryNames
