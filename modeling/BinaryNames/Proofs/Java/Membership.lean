import BinaryNames.Proofs.Java.Correspondence
import BinaryNames.Proofs.Naming.Place
import Mathlib

/-!
# Members and Code

What stands in the body of a type is either a member of it or in the code of a member.  A named type
is local and a block declares nothing if they are in code.  The members of enums and of annotation
types that declare nothing of their own, such as a constant with arguments, are not taken for code:
what stands in them counts as a member.
-/

namespace BinaryNames.Java

/-! ## Nodes by their address -/

namespace SyntaxNode

/-- The node at an address.  No address leads into a header. -/
def nodeAt? (node : SyntaxNode) : List Nat → Option SyntaxNode
  | [] => some node
  | i :: rest =>
    if i < node.headerLength then none else node.children[i]?.bind fun child ↦ child.nodeAt? rest

/-- Whether what is at an address counts as standing directly in the body of a type. -/
def inBodyAt (inBody : Bool) (node : SyntaxNode) : List Nat → Bool
  | [] => inBody
  | i :: rest =>
    node.children[i]?.any fun child ↦ child.inBodyAt (node.holdsMembers inBody) rest

/-- Whether what the node holds are the members of a type. -/
def isTypeBody : SyntaxNode → Bool
  | part (.type ..) | classBody .. => true
  | _ => false

/-- Whether the node declares nothing and no code begins in it. -/
def isWrapper : SyntaxNode → Bool
  | part (.host ..) | part (.other ..) => true
  | _ => false

theorem holdsMembers_eq (inBody : Bool) (node : SyntaxNode) :
    node.holdsMembers inBody = (node.isTypeBody || node.isWrapper && inBody) := by
  cases node with
  | unit | classBody => rfl
  | part p => cases p <;> rfl

theorem nodeAt?_concat (node : SyntaxNode) (a : List Nat) (i : Nat) :
    node.nodeAt? (a ++ [i]) = (node.nodeAt? a).bind fun inner ↦
      if i < inner.headerLength then none else inner.children[i]? := by
  induction a generalizing node with
  | nil => simp [nodeAt?]
  | cons j rest ih =>
    rw [List.cons_append, nodeAt?, nodeAt?]
    split
    · rfl
    · rw [Option.bind_assoc]
      exact congrArg _ (funext ih)

theorem inBodyAt_concat {inBody : Bool} {node inner child : SyntaxNode} {a : List Nat} {i : Nat}
    (hinner : node.nodeAt? a = some inner) (hchild : inner.children[i]? = some child) :
    node.inBodyAt inBody (a ++ [i]) = inner.holdsMembers (node.inBodyAt inBody a) := by
  induction a generalizing node inBody with
  | nil =>
    obtain rfl := Option.some.inj hinner
    simp [inBodyAt, hchild]
  | cons j rest ih =>
    rw [nodeAt?] at hinner
    split at hinner
    · cases hinner
    · obtain ⟨next, hnext, hrest⟩ := Option.bind_eq_some_iff.1 hinner
      rw [List.cons_append, inBodyAt, inBodyAt, hnext]
      exact ih hrest

/-- What is declared at an address is what the node there declares. -/
theorem declaredAt?_eq (inBody : Bool) (node : SyntaxNode) (a : List Nat) :
    node.declaredAt? inBody a =
      (node.nodeAt? a).bind fun inner ↦ inner.declared? (node.inBodyAt inBody a) := by
  induction a generalizing node inBody with
  | nil => rfl
  | cons i rest ih =>
    rw [declaredAt?, nodeAt?, inBodyAt]
    split
    · rfl
    · cases node.children[i]? with
      | none => rfl
      | some child => exact ih _ child

end SyntaxNode

namespace Outline

variable (outline : Outline)

def nodeAt? (a : List Nat) : Option SyntaxNode := (SyntaxNode.unit outline.parts).nodeAt? a

def inBodyAt (a : List Nat) : Bool := (SyntaxNode.unit outline.parts).inBodyAt false a

/-- The node at the address is a member of a type: it stands directly in the type's body. -/
def IsMember (a : List Nat) : Prop :=
  ∃ b i node, a = b ++ [i] ∧ outline.nodeAt? b = some node ∧ node.isTypeBody = true

/-- The address is in a member that declares nothing of its own, such as an enum constant with
arguments, and in nothing else that is in this member and declares something. -/
inductive InConstant : List Nat → Prop
  | member {b : List Nat} {i : Nat} {node : SyntaxNode} (hnode : outline.nodeAt? b = some node)
      (hwrapper : node.isWrapper = true) (hb : outline.IsMember b) : InConstant (b ++ [i])
  | inner {b : List Nat} {i : Nat} {node : SyntaxNode} (hnode : outline.nodeAt? b = some node)
      (hwrapper : node.isWrapper = true) (hb : InConstant b) : InConstant (b ++ [i])

/-- The address is in the body of a type. -/
def InType (a : List Nat) : Prop :=
  ∃ b node, b <+: a ∧ b ≠ a ∧ outline.nodeAt? b = some node ∧ node.isTypeBody = true

variable {outline} {a b : List Nat} {i : Nat} {node child : SyntaxNode}

theorem declaredAt?_eq : outline.declaredAt? a =
    (outline.nodeAt? a).bind fun node ↦ node.declared? (outline.inBodyAt a) :=
  SyntaxNode.declaredAt?_eq ..

theorem exists_nodeAt?_of_concat (h : outline.nodeAt? (b ++ [i]) = some child) :
    ∃ node, outline.nodeAt? b = some node ∧ child ∈ node.children ∧
      outline.inBodyAt (b ++ [i]) = node.holdsMembers (outline.inBodyAt b) := by
  rw [nodeAt?, SyntaxNode.nodeAt?_concat] at h
  obtain ⟨node, hnode, hchild⟩ := Option.bind_eq_some_iff.1 h
  split at hchild
  · cases hchild
  · exact ⟨node, hnode, List.mem_of_getElem? hchild, SyntaxNode.inBodyAt_concat hnode hchild⟩

theorem isMember_concat_iff (hnode : outline.nodeAt? b = some node) :
    outline.IsMember (b ++ [i]) ↔ node.isTypeBody = true := by
  constructor
  · rintro ⟨b', j, node', heq, hnode', hbody⟩
    obtain ⟨rfl, -⟩ := List.append_inj' heq rfl
    obtain rfl := Option.some.inj (hnode.symm.trans hnode')
    exact hbody
  · intro hbody
    exact ⟨b, i, node, rfl, hnode, hbody⟩

theorem inConstant_concat_iff (hnode : outline.nodeAt? b = some node) :
    outline.InConstant (b ++ [i]) ↔
      node.isWrapper = true ∧ (outline.IsMember b ∨ outline.InConstant b) := by
  constructor
  · intro h
    generalize heq : b ++ [i] = a at h
    cases h with
    | member hnode' hwrapper hb =>
      obtain ⟨rfl, -⟩ := List.append_inj' heq rfl
      obtain rfl := Option.some.inj (hnode.symm.trans hnode')
      exact ⟨hwrapper, Or.inl hb⟩
    | inner hnode' hwrapper hb =>
      obtain ⟨rfl, -⟩ := List.append_inj' heq rfl
      obtain rfl := Option.some.inj (hnode.symm.trans hnode')
      exact ⟨hwrapper, Or.inr hb⟩
  · rintro ⟨hwrapper, hb | hb⟩
    · exact .member hnode hwrapper hb
    · exact .inner hnode hwrapper hb

/-- What counts as standing in the body of a type are its members and what is in constants. -/
theorem inBodyAt_iff (h : outline.nodeAt? a = some node) :
    outline.inBodyAt a = true ↔ outline.IsMember a ∨ outline.InConstant a := by
  induction a using List.reverseRecOn generalizing node with
  | nil =>
    refine iff_of_false Bool.false_ne_true ?_
    rintro (⟨b, i, -, heq, -⟩ | hconstant)
    · simp at heq
    · generalize heq : [] = a at hconstant
      cases hconstant <;> simp at heq
  | append_singleton b i ih =>
    obtain ⟨outer, houter, -, hinBody⟩ := exists_nodeAt?_of_concat h
    rw [hinBody, SyntaxNode.holdsMembers_eq, isMember_concat_iff houter,
      inConstant_concat_iff houter, ← ih houter, Bool.or_eq_true, Bool.and_eq_true]

end Outline

/-! ## What is around a place -/

theorem SyntaxNode.ne_unit_of_mem_children {node child : SyntaxNode} (h : child ∈ node.children)
    (parts : List Part) : child ≠ .unit parts := by
  rintro rfl
  cases node with
  | unit | classBody => simp [children] at h
  | part p => cases p <;> simp [children] at h

/-- What declares something holds members exactly if it is a type. -/
theorem SyntaxNode.holdsMembers_of_declared? {inBody : Bool} {node : SyntaxNode} {d : Declaration}
    (h : node.declared? inBody = some d) : node.holdsMembers inBody = decide (d.kind = .type) := by
  cases node with
  | unit => cases h
  | classBody =>
    obtain rfl := Option.some.inj h
    rfl
  | part p =>
    cases p with
    | type | method | field | staticInitializer =>
      obtain rfl := Option.some.inj h
      rfl
    | block =>
      cases inBody with
      | true =>
        obtain rfl := Option.some.inj h
        rfl
      | false => cases h
    | host | other => cases h

/-- What declares nothing is passed through. -/
theorem SyntaxNode.holdsMembers_of_not_declared? {inBody : Bool} {node : SyntaxNode}
    (h : node.declared? inBody = none) (hunit : ∀ parts, node ≠ .unit parts) :
    node.holdsMembers inBody = inBody := by
  cases node with
  | unit parts => exact absurd rfl (hunit parts)
  | classBody => cases h
  | part p =>
    cases p with
    | type | method | field | staticInitializer => cases h
    | block =>
      cases inBody with
      | true => cases h
      | false => rfl
    | host | other => rfl

theorem SyntaxNode.exists_declared?_of_isTypeBody {node : SyntaxNode} (inBody : Bool)
    (h : node.isTypeBody = true) : ∃ d, node.declared? inBody = some d := by
  cases node with
  | unit => cases h
  | classBody => exact ⟨_, rfl⟩
  | part p =>
    cases p with
    | type => exact ⟨_, rfl⟩
    | method | field | staticInitializer | block | host | other => cases h

namespace Sited

variable {outline : Outline} {t : DeclarationTree} (h : Sited outline.sites t)
include h

/-- A node is attached to that of the nearest place above its own. -/
theorem nearest_of_parent? {id p : Nat} (hp : t.parent? id = some p) {b : List Nat} {i : Nat}
    (haddress : outline.addressOf id = b ++ [i]) : Nearest outline.sites b p := by
  have hid := DeclarationTree.lt_size_of_parent? hp
  have hlt := DeclarationTree.parent?_lt hp
  obtain ⟨k, s, rfl, hk⟩ := h.exists_site (Nat.zero_lt_of_lt hlt) hid
  rw [Outline.addressOf_succ hk] at haddress
  have hmem : ∀ (j : Nat) (s' : Site), outline.sites[j]? = some s' → s'.address <+: b →
      j + 1 ∈ t.chain p := by
    intro j s' hj habove
    have hchain : j + 1 ∈ t.chain (k + 1) := by
      rw [h.mem_chain_iff j k s' s hj hk, haddress]
      exact habove.trans (List.prefix_append _ _)
    rw [h.chain_child hp, List.mem_cons, Nat.succ_inj] at hchain
    refine hchain.resolve_left ?_
    rintro rfl
    obtain rfl := Option.some.inj (hj.symm.trans hk)
    rw [haddress] at habove
    exact not_above_of_below_child List.prefix_rfl habove
  cases p with
  | zero =>
    intro s' hs' habove
    obtain ⟨j, hj⟩ := List.mem_iff_getElem?.1 hs'
    have hchain := hmem j s' hj habove
    rw [h.chain_root] at hchain
    cases hchain
  | succ m =>
    have hm := hlt.trans hid
    obtain ⟨m', s', heq, hm'⟩ := h.exists_site (Nat.succ_pos m) hm
    obtain rfl := Nat.succ.inj heq
    have hchain : m + 1 ∈ t.chain (k + 1) := by
      rw [h.chain_child hp]
      exact List.mem_cons_of_mem _ (h.mem_chain_self (Nat.succ_pos m) hm)
    have habove := (h.mem_chain_iff m k s' s hm' hk).1 hchain
    rw [haddress, List.prefix_concat_iff] at habove
    refine ⟨s', hm', habove.resolve_left fun heq ↦ ?_, fun s'' hs'' habove'' ↦ ?_⟩
    · have hback := (h.mem_chain_iff k m s s' hk hm').2 (by rw [haddress, heq])
      exact absurd (DeclarationTree.le_of_mem_chain hback) (Nat.not_le.2 hlt)
    · obtain ⟨j, hj⟩ := List.mem_iff_getElem?.1 hs''
      exact (h.mem_chain_iff j m s'' s' hj hm').1 (hmem j s'' hj habove'')

/-- What is in a node counts as standing in the body of a type exactly if the nearest declaration
around it is a type. -/
theorem isType_nearest {b : List Nat} {node : SyntaxNode} {p : Nat}
    (hnode : outline.nodeAt? b = some node) (hnearest : Nearest outline.sites b p) :
    t.isType p = node.holdsMembers (outline.inBodyAt b) := by
  induction b using List.reverseRecOn generalizing node with
  | nil =>
    obtain rfl := Option.some.inj hnode
    cases p with
    | zero => exact Bool.eq_false_iff.2 fun htype ↦ (h.pos_of_isType htype).ne rfl
    | succ j =>
      obtain ⟨s, hj, habove, -⟩ := hnearest
      have hs := Outline.mem_sites_iff.1 (List.mem_of_getElem? hj)
      rw [List.prefix_nil.1 habove] at hs
      cases hs
  | append_singleton c i ih =>
    obtain ⟨outer, houter, hchild, hinBody⟩ := Outline.exists_nodeAt?_of_concat hnode
    have hdeclared : outline.declaredAt? (c ++ [i]) =
        node.declared? (outline.inBodyAt (c ++ [i])) := by
      rw [Outline.declaredAt?_eq, hnode, Option.bind_some]
    cases hd : node.declared? (outline.inBodyAt (c ++ [i])) with
    | none =>
      have hnone : ∀ s ∈ outline.sites, s.address ≠ c ++ [i] := by
        intro s hs heq
        have hsome := Outline.mem_sites_iff.1 hs
        rw [heq, hdeclared, hd] at hsome
        cases hsome
      rw [SyntaxNode.holdsMembers_of_not_declared? hd
        (SyntaxNode.ne_unit_of_mem_children hchild), hinBody]
      exact ih houter ((nearest_concat_iff hnone).1 hnearest)
    | some d =>
      -- the place is its own nearest one
      have hsite : ⟨c ++ [i], d⟩ ∈ outline.sites := Outline.mem_sites_iff.2 (hdeclared.trans hd)
      cases p with
      | zero => exact absurd List.prefix_rfl (hnearest _ hsite)
      | succ j =>
        obtain ⟨s, hj, habove, hall⟩ := hnearest
        have heq := habove.eq_of_length_le (hall _ hsite List.prefix_rfl).length_le
        have hs := Outline.mem_sites_iff.1 (List.mem_of_getElem? hj)
        rw [heq, hdeclared, hd] at hs
        obtain ⟨d', hd', hbare⟩ := Option.map_eq_some_iff.1 (h.bare_eq j s hj)
        rw [SyntaxNode.holdsMembers_of_declared? hd, DeclarationTree.isType_eq, hd',
          Option.some.inj hs, ← hbare, Declaration.bare_kind, Option.any_some]

/-- The place of a node has a node of the outline that declares the same. -/
theorem exists_nodeAt? {id : Nat} {d : Declaration} (hd : t.declaration? id = some d)
    (hunit : d.kind ≠ .unit) :
    ∃ node, outline.nodeAt? (outline.addressOf id) = some node ∧
      node.declared? (outline.inBodyAt (outline.addressOf id)) = some d.bare := by
  have hpos : 0 < id := Nat.pos_of_ne_zero fun hzero ↦ hunit ((h.unit_iff id d hd).2 hzero)
  have hbare := h.bare_declaration hpos (DeclarationTree.lt_size_of_declaration? hd)
  rw [hd, Option.map_some, Outline.declaredAt?_eq] at hbare
  exact Option.bind_eq_some_iff.1 hbare.symm

/-- In a type, the named types that are local are those that do not count as standing in its
body. -/
theorem isLocal_eq {package : String} (hnamed : WellNamed package t) {id : Nat} {d : Declaration}
    (hd : t.declaration? id = some d) (hk : d.kind = .type) (hanonymous : d.isAnonymous = false)
    (hin : outline.InType (outline.addressOf id)) :
    d.isLocal = !outline.inBodyAt (outline.addressOf id) := by
  obtain ⟨node, hnode, -⟩ := h.exists_nodeAt? hd (by simp [hk])
  obtain ⟨above, typeNode, habove, hne, htypeNode, hbody⟩ := hin
  rcases List.eq_nil_or_concat' (outline.addressOf id) with hnil | ⟨b, i, hconcat⟩
  · rw [hnil] at habove hne
    exact absurd (List.prefix_nil.1 habove) hne
  · have hpos : 0 < id := h.pos_of_isType (by simp [DeclarationTree.isType_eq, hd, hk])
    have hid := DeclarationTree.lt_size_of_declaration? hd
    obtain ⟨p, hp, hlt⟩ := h.exists_parent hpos hid
    obtain ⟨parent, hparent⟩ := DeclarationTree.exists_node?_of_lt (hlt.trans hid)
    replace hparent := DeclarationTree.declaration?_eq_of_node? hparent
    rw [hconcat] at hnode habove hne ⊢
    obtain ⟨outer, houter, -, hinBody⟩ := Outline.exists_nodeAt?_of_concat hnode
    have hnearest := h.nearest_of_parent? hp hconcat
    have htype := h.isType_nearest houter hnearest
    rw [← hinBody] at htype
    -- the type around the place is above it, so that the parent is not the root
    obtain ⟨typeDeclaration, htypeDeclared⟩ :=
      SyntaxNode.exists_declared?_of_isTypeBody (outline.inBodyAt above) hbody
    have hsite : ⟨above, typeDeclaration⟩ ∈ outline.sites := Outline.mem_sites_iff.2 (by
      rw [Outline.declaredAt?_eq, htypeNode]
      exact htypeDeclared)
    have hroot : p ≠ 0 := by
      rintro rfl
      exact hnearest _ hsite ((List.prefix_concat_iff.1 habove).resolve_left hne)
    have hkind : parent.kind ≠ .unit := fun hunit ↦ hroot ((h.unit_iff p _ hparent).1 hunit)
    obtain ⟨-, -, hlocal, -⟩ := (hnamed.fits id d hd hk).named hanonymous
    rw [hlocal, hp, Option.bind_some, ← htype, DeclarationTree.isType_eq, hparent]
    simp [holdsCode, hkind]

end Sited

/-! ## Named types and initializers -/

namespace SyntaxNode

variable {inBody : Bool} {node : SyntaxNode}

theorem exists_type_of_declared? {d : Declaration} (h : node.declared? inBody = some d)
    (hk : d.kind = .type) (hanonymous : d.isAnonymous = false) :
    ∃ name header members, node = .part (.type d.span name header members) ∧
      d.simpleName = some name := by
  cases node with
  | unit => cases h
  | classBody =>
    obtain rfl := Option.some.inj h
    cases hanonymous
  | part p =>
    cases p with
    | type span name header members =>
      obtain rfl := Option.some.inj h
      exact ⟨name, header, members, rfl, rfl⟩
    | method | field | staticInitializer =>
      obtain rfl := Option.some.inj h
      cases hk
    | block =>
      cases inBody with
      | true =>
        obtain rfl := Option.some.inj h
        cases hk
      | false => cases h
    | host | other => cases h

theorem declared?_initializer_iff {span : Span} :
    (∃ d, node.declared? inBody = some d ∧ d.kind = .initializer ∧ d.span = span) ↔
      (∃ parts, node = .part (.staticInitializer span parts)) ∨
        (∃ parts, node = .part (.block span parts)) ∧ inBody = true := by
  cases node with
  | unit | classBody => simp [declared?]
  | part p => cases p <;> cases inBody <;> simp [declared?]

end SyntaxNode

/-- The nodes for initializers are those of the places that declare one. -/
theorem Sited.exists_initializer_iff {outline : Outline} {t : DeclarationTree}
    (h : Sited outline.sites t) {a : List Nat} {span : Span} :
    (∃ id d, t.declaration? id = some d ∧ d.kind = .initializer ∧ d.span = span ∧
        outline.addressOf id = a) ↔
      ∃ node, outline.nodeAt? a = some node ∧
        ∃ d, node.declared? (outline.inBodyAt a) = some d ∧ d.kind = .initializer ∧
          d.span = span := by
  constructor
  · rintro ⟨id, d, hd, hk, rfl, rfl⟩
    obtain ⟨node, hnode, hdeclared⟩ := h.exists_nodeAt? hd (by simp [hk])
    exact ⟨node, hnode, d.bare, hdeclared, by simpa using hk, by simp⟩
  · rintro ⟨node, hnode, d, hdeclared, hk, rfl⟩
    have hsome : outline.declaredAt? a = some d := by
      rw [Outline.declaredAt?_eq, hnode]
      exact hdeclared
    obtain ⟨id, ⟨hpos, hid⟩, rfl⟩ := h.addressOf_bijOn.surjOn (by simp [hsome] : a ∈ _)
    have hbare := h.bare_declaration hpos hid
    rw [hsome] at hbare
    obtain ⟨d', hd', rfl⟩ := Option.map_eq_some_iff.1 hbare
    exact ⟨id, d', hd', by simpa using hk, by simp, rfl⟩

/-- In a type, a named type is local exactly if it is neither a member nor in a constant.  The
initializers are the static ones and the blocks that are members or in a constant. -/
theorem members_told_from_code (outline : Outline) (size : Nat) (suggested : Option String) :
    let t := outline.declarations size suggested
    (∀ id d, t.declaration? id = some d → d.kind = .type → d.isAnonymous = false →
      ∃ name header members, d.simpleName = some name ∧
        outline.nodeAt? (outline.addressOf id) =
          some (.part (.type d.span name header members)) ∧
        (outline.InType (outline.addressOf id) →
          (d.isLocal = true ↔ ¬outline.IsMember (outline.addressOf id) ∧
            ¬outline.InConstant (outline.addressOf id)))) ∧
    ∀ a span, (∃ id d, t.declaration? id = some d ∧ d.kind = .initializer ∧ d.span = span ∧
        outline.addressOf id = a) ↔
      (∃ parts, outline.nodeAt? a = some (.part (.staticInitializer span parts))) ∨
        (∃ parts, outline.nodeAt? a = some (.part (.block span parts))) ∧
          (outline.IsMember a ∨ outline.InConstant a) := by
  intro t
  have h : Sited outline.sites t := sited_declarations outline size suggested
  constructor
  · intro id d hd hk hanonymous
    obtain ⟨node, hnode, hdeclared⟩ := h.exists_nodeAt? hd (by simp [hk])
    obtain ⟨name, header, members, rfl, hname⟩ :=
      SyntaxNode.exists_type_of_declared? hdeclared (by simpa using hk) (by simpa using hanonymous)
    rw [Declaration.bare_span] at hnode
    refine ⟨name, header, members, by simpa using hname, hnode, fun hin ↦ ?_⟩
    rw [h.isLocal_eq (wellNamed_declarations outline size suggested) hd hk hanonymous hin,
      ← not_or, ← Outline.inBodyAt_iff hnode, Bool.not_eq_true', Bool.not_eq_true]
  · intro a span
    rw [h.exists_initializer_iff]
    simp only [SyntaxNode.declared?_initializer_iff]
    constructor
    · rintro ⟨node, hnode, ⟨parts, rfl⟩ | ⟨⟨parts, rfl⟩, hbody⟩⟩
      · exact Or.inl ⟨parts, hnode⟩
      · exact Or.inr ⟨⟨parts, hnode⟩, (Outline.inBodyAt_iff hnode).1 hbody⟩
    · rintro (⟨parts, hnode⟩ | ⟨⟨parts, hnode⟩, hbody⟩)
      · exact ⟨_, hnode, Or.inl ⟨parts, rfl⟩⟩
      · exact ⟨_, hnode, Or.inr ⟨⟨parts, rfl⟩, (Outline.inBodyAt_iff hnode).2 hbody⟩⟩

/-- An enum with a lambda in the arguments of one constant and a class in those of the other. -/
def constantsSource : String :=
  "enum E\x7bA(()->\x7b\x7d),B(switch(1)\x7bdefault:class L\x7b\x7dyield 1;\x7d)\x7d"

def constantsOutline : Outline where
  package := none
  parts := [.type ⟨0, 57⟩ "E" [] [.other [.block ⟨13, 2⟩ []], .other [.type ⟨37, 9⟩ "L" [] []]]]

theorem ofSource_constantsSource : Outline.ofSource constantsSource = constantsOutline := by
  have htokens : Token.ofSource? constantsSource = some
      [.word ⟨0, 4⟩ "enum", .word ⟨5, 1⟩ "E", .group ⟨6, 51⟩ .curly
        [.word ⟨7, 1⟩ "A", .group ⟨8, 8⟩ .round
          [.group ⟨9, 2⟩ .round [], .mark ⟨11, 2⟩ "->", .group ⟨13, 2⟩ .curly []],
        .mark ⟨16, 1⟩ ",", .word ⟨17, 1⟩ "B", .group ⟨18, 38⟩ .round
          [.word ⟨19, 6⟩ "switch", .group ⟨25, 3⟩ .round [.word ⟨26, 1⟩ "1"],
          .group ⟨28, 27⟩ .curly
            [.word ⟨29, 7⟩ "default", .mark ⟨36, 1⟩ ":", .word ⟨37, 5⟩ "class", .word ⟨43, 1⟩ "L",
            .group ⟨44, 2⟩ .curly [], .word ⟨46, 5⟩ "yield", .word ⟨52, 1⟩ "1",
            .mark ⟨53, 1⟩ ";"]]]] := by rfl
  unfold Outline.ofSource
  rw [htokens]
  cbv

/-- What stands in the arguments of a constant is no member, but is taken for one: the block of a
lambda becomes an initializer, and a class in a `switch` is not local. -/
theorem constant_arguments_taken_for_members :
    let outline := Outline.ofSource constantsSource
    let t := outline.declarations constantsSource.utf8ByteSize none
    (∃ id d span parts, t.declaration? id = some d ∧ d.kind = .initializer ∧
      outline.nodeAt? (outline.addressOf id) = some (.part (.block span parts)) ∧
      ¬outline.IsMember (outline.addressOf id)) ∧
    ∃ id d, t.declaration? id = some d ∧ d.kind = .type ∧ d.isAnonymous = false ∧
      d.isLocal = false ∧ outline.InType (outline.addressOf id) ∧
      ¬outline.IsMember (outline.addressOf id) := by
  have hsize : constantsSource.utf8ByteSize = 57 := by rfl
  rw [ofSource_constantsSource, hsize]
  dsimp only
  have hlambda : constantsOutline.addressOf 2 = [0, 0] ++ [0] := by cbv
  have hclass : constantsOutline.addressOf 3 = [0, 1] ++ [0] := by cbv
  have hfirst : constantsOutline.nodeAt? [0, 0] = some (.part (.other [.block ⟨13, 2⟩ []])) := rfl
  have hsecond : constantsOutline.nodeAt? [0, 1] =
      some (.part (.other [.type ⟨37, 9⟩ "L" [] []])) := rfl
  constructor
  · refine ⟨2, { kind := .initializer, span := ⟨13, 2⟩ }, ⟨13, 2⟩, [], by cbv, rfl, ?_, ?_⟩
    · rw [hlambda]
      rfl
    · rw [hlambda, Outline.isMember_concat_iff hfirst]
      simp [SyntaxNode.isTypeBody]
  · have hd : (constantsOutline.declarations 57 none).declaration? 3 = some
        { kind := .type, span := ⟨37, 9⟩, qualifiedName := "E$L", simpleName := "L" } := by cbv
    refine ⟨3, _, hd, rfl, rfl, rfl, ?_, ?_⟩
    · rw [hclass]
      exact ⟨[0], _, by decide, by decide, rfl, rfl⟩
    · rw [hclass, Outline.isMember_concat_iff hsecond]
      simp [SyntaxNode.isTypeBody]

end BinaryNames.Java
