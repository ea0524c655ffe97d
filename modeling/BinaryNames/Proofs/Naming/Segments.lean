import BinaryNames.Proofs.Naming.Place
import Mathlib.Data.List.TakeWhile

/-!
# Binary Names Segment by Segment

A binary name is made by numbering the local types of a chain inside one flat text, from the
innermost type outwards.  Read from the outermost type inwards it is the qualified name of that
type followed by one segment for each type, and each segment depends on its own type alone.  The
two agree because the text still starts with the unchanged qualified name of every type that has
not been reached yet, whatever characters the names hold.
-/

namespace BinaryNames

theorem stripHead?_append (head rest : List Char) : stripHead? head (head ++ rest) = some rest := by
  have hprefix : head.isPrefixOf (head ++ rest) = true :=
    List.isPrefixOf_iff_prefix.2 (List.prefix_append head rest)
  rw [stripHead?, if_pos hprefix, List.drop_left]

theorem stripTail?_append (front tail : List Char) :
    stripTail? tail (front ++ tail) = some front := by
  have hsuffix : tail.isSuffixOf (front ++ tail) = true :=
    List.isSuffixOf_iff_suffix.2 (List.suffix_append front tail)
  rw [stripTail?, if_pos hsuffix, List.length_append, Nat.add_sub_cancel, List.take_left]

/-- Whether a text can follow the name of a type in a longer name. -/
def ContinuesName (rest : String) : Prop := rest.toList = [] ∨ rest.toList.head? = some '$'

theorem continuesName_segment (text rest : String) : ContinuesName ("$" ++ text ++ rest) := by
  right
  simp

/-- A name that continues the qualified name of a local type is numbered where that type's segment
stands. -/
theorem DeclarationNode.numberInPlace?_own {node : DeclarationNode} {outer simple rest : String}
    (hown : node.qualifiedName = some (outer ++ "$" ++ simple)) (hrest : ContinuesName rest)
    (ordinal : Nat) :
    node.numberInPlace? simple ordinal (outer ++ "$" ++ simple ++ rest).toList =
      some (outer ++ "$" ++ (toString ordinal ++ simple) ++ rest).toList := by
  have htext : (outer ++ "$" ++ simple ++ rest).toList =
      (outer ++ "$" ++ simple).toList ++ rest.toList := by simp
  have hsplit : (outer ++ "$" ++ simple).toList = outer.toList ++ '$' :: simple.toList := by simp
  unfold ContinuesName at hrest
  unfold numberInPlace?
  rw [hown, htext]
  simp only [Option.bind_eq_bind, Option.bind_some, stripHead?_append]
  rw [hsplit, stripTail?_append]
  simp only [Option.bind_some]
  rw [if_pos hrest]
  simp [numberedSegment]

namespace DeclarationTree

/-- The one-based rank of a local type among the local types of the same parent. -/
def localRank (t : DeclarationTree) (id : Nat) : Nat :=
  Nat.count (fun j ↦ t.isNumbered j = true ∧ t.parent? j = t.parent? id) id + 1

/-- What the type at `id` adds to the name of the type around it. -/
def segment (t : DeclarationTree) (id : Nat) : String :=
  match t.declaration? id with
  | none => ""
  | some d =>
    if d.isAnonymous then toString (t.anonymousRank id)
    else (if d.isLocal then toString (t.localRank id) else "") ++ d.simpleName.getD ""

/-- The types that the node at `id` is or lies in, outermost first. -/
def typesInward (t : DeclarationTree) (id : Nat) : List Nat :=
  ((t.chain id).filter t.isType).reverse

/-- The qualified name of the outermost type around `id`, with the segment of each further type. -/
def placedName (t : DeclarationTree) (id : Nat) : String :=
  match t.typesInward id with
  | [] => ""
  | top :: inner =>
    inner.foldl (fun name i ↦ name ++ "$" ++ t.segment i) ((t.qualifiedName? top).getD "")

/-- The node at `id` lies in a named type that is a child of the root. -/
def InNamedType (t : DeclarationTree) (id : Nat) : Prop :=
  ∃ top d, (t.chain id).getLast? = some top ∧ t.declaration? top = some d ∧ d.kind = .type ∧
    d.isAnonymous = false

/-- Each local type among `ids` finds its segment in place when a name is numbered along them, so
that no other part of the name is touched. -/
def NumberedInPlace (t : DeclarationTree) (name : String) : List Nat → Prop
  | [] => True
  | id :: above =>
    (∀ node, t.node? id = some node → node.isLocalType = true →
      ∃ simple ordinal, node.simpleName = some simple ∧ t.localOrdinal? id = some ordinal ∧
        (node.numberInPlace? simple ordinal name.toList).isSome) ∧
    t.NumberedInPlace (t.numberAt name id) above

/-! ## Ordinals -/

theorem idxOf?_filter_range (q : Nat → Bool) {id n : Nat} (hid : id < n) (hq : q id = true) :
    ((List.range n).filter q).idxOf? id = some (Nat.count (fun j ↦ q j = true) id) := by
  obtain ⟨m, rfl⟩ : ∃ m, n = id + 1 + m := ⟨n - (id + 1), by omega⟩
  have hbefore : ((List.range id).filter q).findIdx? (· == id) = none := by
    rw [List.findIdx?_eq_none_iff]
    intro j hj
    have hlt : j < id := List.mem_range.1 (List.mem_of_mem_filter hj)
    simp [hlt.ne]
  have hlength : ((List.range id).filter q).length = Nat.count (fun j ↦ q j = true) id := by
    rw [← List.countP_eq_length_filter, Nat.count]
    simp
  rw [List.range_add, List.range_succ, List.filter_append, List.filter_append, List.append_assoc,
    List.idxOf?, List.findIdx?_append, hbefore, hlength]
  simp [hq, List.findIdx?_cons]

theorem isNumbered_eq (t : DeclarationTree) (id : Nat) : t.isNumbered id =
    (t.declaration? id).any (fun d ↦
      d.kind = .type && d.isLocal && !d.isAnonymous && d.simpleName.isSome) := by
  cases h : t.node? id <;> simp [isNumbered, declaration?, h, DeclarationNode.isLocalType]

/-- The position of a local type among the local types of its parent is its rank. -/
theorem Linked.localOrdinal?_eq {t : DeclarationTree} (h : t.Linked) {id p : Nat}
    (hp : t.parent? id = some p) (hn : t.isNumbered id = true) :
    t.localOrdinal? id = some (t.localRank id) := by
  have hid := lt_size_of_parent? hp
  obtain ⟨node, hnode⟩ := exists_node?_of_lt hid
  obtain ⟨parentNode, hparentNode⟩ := exists_node?_of_lt ((parent?_lt hp).trans hid)
  have hchildren : parentNode.children.toList =
      (List.range t.size).filter (fun c ↦ t.parent? c = some p) := by
    rw [← h.childIds_eq p, childIds, hparentNode]
    rfl
  have hparent : node.parent = some p := (parent?_eq_of_node? hnode).symm.trans hp
  unfold localOrdinal?
  simp only [hnode, hparent, hparentNode, Option.bind_eq_bind, Option.bind_some, hchildren,
    List.filter_filter]
  rw [idxOf?_filter_range _ hid (by simp [hn, hp])]
  simp [localRank, hp]

/-! ## Types along a chain -/

namespace Rooted

variable {t : DeclarationTree} (h : t.Rooted) {id p : Nat} (hp : t.parent? id = some p)
include h hp

theorem typesInward_child :
    t.typesInward id = t.typesInward p ++ if t.isType id then [id] else [] := by
  rw [typesInward, h.chain_child hp, List.filter_cons]
  split <;> simp [typesInward]

theorem placedName_of_not_isType (hid : t.isType id = false) :
    t.placedName id = t.placedName p := by
  have htypes := h.typesInward_child hp
  simp only [hid, Bool.false_eq_true, if_false, List.append_nil] at htypes
  rw [placedName, htypes, placedName]

theorem placedName_of_isType (hid : t.isType id = true) (hne : t.typesInward p ≠ []) :
    t.placedName id = t.placedName p ++ "$" ++ t.segment id := by
  have htypes := h.typesInward_child hp
  obtain ⟨top, inner, hinner⟩ := List.exists_cons_of_ne_nil hne
  simp only [hid, if_true, hinner] at htypes
  simp only [placedName, htypes, hinner, List.cons_append, List.foldl_append, List.foldl_cons,
    List.foldl_nil]

theorem placedName_of_outermost (hid : t.isType id = true) (hnil : t.typesInward p = []) :
    t.placedName id = (t.qualifiedName? id).getD "" := by
  have htypes := h.typesInward_child hp
  simp only [hid, if_true, hnil, List.nil_append] at htypes
  simp only [placedName, htypes, List.foldl_nil]

end Rooted

namespace Rooted

variable {t : DeclarationTree} (h : t.Rooted) {id e : Nat} (he : t.typeAround? id = some e)
include h he

/-- From its innermost type on, the chain of a node is the chain of that type. -/
theorem dropWhile_chain : (t.chain id).dropWhile (fun i ↦ !t.isType i) = t.chain e := by
  have hid := lt_size_of_chain_ne_nil (List.ne_nil_of_mem (List.mem_of_find?_eq_some he))
  revert he
  refine h.induction (motive := fun id ↦ t.typeAround? id = some e →
    (t.chain id).dropWhile (fun i ↦ !t.isType i) = t.chain e) ?_ ?_ hid
  · intro he
    rw [h.typeAround?_root] at he
    cases he
  · intro id p hp ih he
    rw [h.typeAround?_child hp] at he
    rw [h.chain_child hp, List.dropWhile_cons]
    cases hid : t.isType id with
    | true =>
      rw [hid, if_pos rfl, Option.some.injEq] at he
      subst he
      simp [h.chain_child hp]
    | false =>
      rw [hid, if_neg (by simp)] at he
      simpa using ih he

theorem typeAround?_self : t.typeAround? e = some e :=
  h.typeAround?_of_isType (List.find?_some (p := t.isType) he)

/-- The types around a node are those around its innermost type. -/
theorem mem_chain_typeAround {a : Nat} (ha : a ∈ t.chain id) (htype : t.isType a = true) :
    a ∈ t.chain e := by
  rw [← List.takeWhile_append_dropWhile (p := fun i ↦ !t.isType i) (l := t.chain id),
    List.mem_append, h.dropWhile_chain he] at ha
  refine ha.resolve_left fun hbefore ↦ ?_
  have hnot := List.mem_takeWhile_imp hbefore
  simp [htype] at hnot

/-- A node goes by the name of its innermost type. -/
theorem binaryName_typeAround :
    t.binaryName ⟨id, t.chain id⟩ = t.binaryName ⟨e, t.chain e⟩ := by
  have hself := h.typeAround?_self he
  have hne : t.chain e ≠ [] := List.ne_nil_of_mem (List.mem_of_find?_eq_some hself)
  rw [binaryName, binaryName]
  simp only [h.dropWhile_chain he, h.dropWhile_chain hself]
  obtain ⟨e', above, hcons⟩ := List.exists_cons_of_ne_nil hne
  simp only [hcons]

omit h in
theorem typesInward_ne_nil : t.typesInward id ≠ [] := by
  have hmem : e ∈ (t.chain id).filter t.isType :=
    List.mem_filter.2 ⟨List.mem_of_find?_eq_some he, List.find?_some (p := t.isType) he⟩
  exact List.ne_nil_of_mem (List.mem_reverse.2 hmem)

theorem typesInward_typeAround : t.typesInward id = t.typesInward e := by
  have hdrop := h.dropWhile_chain he
  have htake : ((t.chain id).takeWhile (fun i ↦ !t.isType i)).filter t.isType = [] := by
    rw [List.filter_eq_nil_iff]
    intro a ha
    simpa using List.mem_takeWhile_imp ha
  have hfilter : (t.chain id).filter t.isType = (t.chain e).filter t.isType := by
    rw [← List.takeWhile_append_dropWhile (p := fun i ↦ !t.isType i) (l := t.chain id),
      List.filter_append, htake, hdrop, List.nil_append]
  rw [typesInward, hfilter, typesInward]

end Rooted

namespace InNamedType

variable {t : DeclarationTree}

theorem lt_size {id : Nat} (hin : t.InNamedType id) : id < t.size := by
  obtain ⟨top, d, hlast, -⟩ := hin
  exact Rooted.lt_size_of_chain_ne_nil (List.ne_nil_of_mem (List.mem_of_getLast? hlast))

theorem pos {id : Nat} (h : t.Rooted) (hin : t.InNamedType id) : 0 < id := by
  obtain ⟨top, d, hlast, -⟩ := hin
  by_contra hid
  rw [Nat.eq_zero_of_not_pos hid, h.chain_root] at hlast
  cases hlast

theorem parent {id p : Nat} (h : t.Rooted) (hin : t.InNamedType id) (hp : t.parent? id = some p)
    (hpos : 0 < p) : t.InNamedType p := by
  obtain ⟨top, d, hlast, hd⟩ := hin
  have hmem := h.mem_chain_self hpos ((parent?_lt hp).trans (lt_size_of_parent? hp))
  refine ⟨top, d, ?_, hd⟩
  rw [h.chain_child hp, List.getLast?_cons_of_ne_nil (List.ne_nil_of_mem hmem)] at hlast
  exact hlast

theorem declaration_of_child_root {id : Nat} (h : t.Rooted) (hin : t.InNamedType id)
    (hp : t.parent? id = some 0) :
    ∃ d, t.declaration? id = some d ∧ d.kind = .type ∧ d.isAnonymous = false := by
  obtain ⟨top, d, hlast, hd⟩ := hin
  rw [h.chain_child hp, h.chain_root, List.getLast?_singleton, Option.some.injEq] at hlast
  subst hlast
  exact ⟨d, hd⟩

/-- What holds of the named types below the root and passes from a parent to its children holds of
everything in a named type. -/
theorem induction (h : t.Rooted) {motive : Nat → Prop}
    (top : ∀ id d, t.parent? id = some 0 → t.declaration? id = some d → d.kind = .type →
      d.isAnonymous = false → motive id)
    (nested : ∀ id p, t.parent? id = some p → t.InNamedType p → motive p → motive id)
    {id : Nat} (hin : t.InNamedType id) : motive id := by
  induction id using Nat.strong_induction_on with
  | _ id ih =>
    obtain ⟨p, hp, hlt⟩ := h.exists_parent (hin.pos h) hin.lt_size
    rcases Nat.eq_zero_or_pos p with rfl | hpos
    · obtain ⟨d, hd, hk, hanonymous⟩ := hin.declaration_of_child_root h hp
      exact top id d hp hd hk hanonymous
    · have hin' := hin.parent h hp hpos
      exact nested id p hp hin' (ih p hlt hin')

/-- The innermost type around a node lies in the same named type. -/
theorem typeAround {id e : Nat} (h : t.Rooted) (hin : t.InNamedType id)
    (he : t.typeAround? id = some e) : t.InNamedType e := by
  obtain ⟨top, d, hlast, hd⟩ := hin
  have hmem : e ∈ t.chain id := List.mem_of_find?_eq_some he
  have hself : e ∈ t.chain e :=
    h.mem_chain_self (h.pos_of_mem_chain hmem) (lt_size_of_mem_chain hmem)
  obtain ⟨inner, hinner⟩ := h.chain_suffix_of_mem hmem
  refine ⟨top, d, ?_, hd⟩
  rw [← hinner, List.getLast?_append_of_ne_nil _ (List.ne_nil_of_mem hself)] at hlast
  exact hlast

end InNamedType

theorem ownName_of_qualifiedName? {t : DeclarationTree} {id : Nat} {own : String}
    (hown : t.qualifiedName? id = some own) : t.ownName id = own := by
  obtain ⟨d, hd, hqualified⟩ := Option.bind_eq_some_iff.1 hown
  obtain ⟨node, hnode, rfl⟩ := Option.map_eq_some_iff.1 hd
  simp [ownName, DeclarationNode.ownName, hnode, hqualified]

theorem numberAt_of_not_local {t : DeclarationTree} {id : Nat} {d : Declaration}
    (hd : t.declaration? id = some d)
    (hlocal : (d.kind = .type && d.isLocal && !d.isAnonymous) = false) (name : String) :
    t.numberAt name id = name := by
  obtain ⟨node, hnode, rfl⟩ := Option.map_eq_some_iff.1 hd
  simp only [numberAt, hnode]
  rw [if_neg]
  simpa [DeclarationNode.isLocalType] using hlocal

theorem numberAt_of_local {t : DeclarationTree} {id ordinal : Nat} {node : DeclarationNode}
    {simple name : String} {text : List Char} (hnode : t.node? id = some node)
    (hlocal : node.isLocalType = true) (hsimple : node.simpleName = some simple)
    (hordinal : t.localOrdinal? id = some ordinal)
    (hplace : node.numberInPlace? simple ordinal name.toList = some text) :
    t.numberAt name id = String.ofList text := by
  simp [numberAt, hnode, hlocal, hordinal, DeclarationNode.numberSegment, hsimple, hplace]

end DeclarationTree

namespace Java

open DeclarationTree

namespace WellNamed

variable {package : String} {t : DeclarationTree} (h : WellNamed package t)
include h

/-- A local type in a type with the name `outer` is numbered where its segment stands. -/
theorem numberInPlace?_local {id p : Nat} {node : DeclarationNode} {outer rest : String}
    (hp : t.parent? id = some p) (hnode : t.node? id = some node)
    (hlocal : node.isLocalType = true) (houter : t.enclosingName? id = some outer)
    (hrest : ContinuesName rest) :
    ∃ own simple, node.qualifiedName = some own ∧ node.simpleName = some simple ∧
      t.localOrdinal? id = some (t.localRank id) ∧
      node.numberInPlace? simple (t.localRank id) (own ++ rest).toList =
        some (outer ++ "$" ++ t.segment id ++ rest).toList := by
  have hd := declaration?_eq_of_node? hnode
  simp only [DeclarationNode.isLocalType, Bool.and_eq_true, decide_eq_true_eq,
    Bool.not_eq_true'] at hlocal
  obtain ⟨⟨hk, hlocal⟩, hanonymous⟩ := hlocal
  obtain ⟨simple, hsimple, -, hown⟩ := (h.fits id _ hd hk).named hanonymous
  rw [houter, Option.map_some, Option.getD_some] at hown
  have hnumbered : t.isNumbered id = true := by
    simp [isNumbered_eq, hd, hk, hlocal, hanonymous, hsimple]
  have hsegment : t.segment id = toString (t.localRank id) ++ simple := by
    simp [DeclarationTree.segment, hd, hanonymous, hlocal, hsimple]
  refine ⟨_, simple, hown, hsimple, h.localOrdinal?_eq hp hnumbered, ?_⟩
  rw [hsegment]
  exact DeclarationNode.numberInPlace?_own hown hrest (t.localRank id)

/-- Numbering at a type in another type with the name `outer` turns the type's own qualified name
into `outer` with the type's segment. -/
theorem numberAt_own {id p : Nat} {d : Declaration} {outer : String} (hp : t.parent? id = some p)
    (hd : t.declaration? id = some d) (hk : d.kind = .type)
    (houter : t.enclosingName? id = some outer) :
    ∃ own, d.qualifiedName = some own ∧ ∀ rest, ContinuesName rest →
      t.numberAt (own ++ rest) id = outer ++ "$" ++ t.segment id ++ rest := by
  have hfits := h.fits id d hd hk
  cases hanonymous : d.isAnonymous with
  | true =>
    obtain ⟨-, hlocal, hown⟩ := hfits.anonymous hanonymous
    rw [houter, Option.map_some] at hown
    refine ⟨_, hown, fun rest _ ↦ ?_⟩
    rw [numberAt_of_not_local hd (by simp [hlocal])]
    simp [DeclarationTree.segment, hd, hanonymous]
  | false =>
    obtain ⟨name, hsimple, -, hown⟩ := hfits.named hanonymous
    rw [houter, Option.map_some, Option.getD_some] at hown
    refine ⟨_, hown, fun rest hrest ↦ ?_⟩
    cases hlocal : d.isLocal with
    | false =>
      rw [numberAt_of_not_local hd (by simp [hlocal])]
      simp [DeclarationTree.segment, hd, hanonymous, hlocal, hsimple]
    | true =>
      obtain ⟨node, hnode, rfl⟩ := Option.map_eq_some_iff.1 hd
      have htype : node.isLocalType = true := by
        simp [DeclarationNode.isLocalType, hk, hlocal, hanonymous]
      obtain ⟨own, simple, hown', hsimple', hordinal, hplace⟩ :=
        h.numberInPlace?_local hp hnode htype houter hrest
      obtain rfl := Option.some.inj (hown.symm.trans hown')
      rw [numberAt_of_local hnode htype hsimple' hordinal hplace, String.ofList_toList]

theorem enclosingName?_child_root {id : Nat} (hp : t.parent? id = some 0) :
    t.enclosingName? id = none := by
  rw [enclosingName?, h.enclosing?_child hp, h.typeAround?_root, Option.bind_none]

/-- A named type below the root is not local and lies in no other type. -/
theorem top_of_child_root {id : Nat} {d : Declaration} (hp : t.parent? id = some 0)
    (hd : t.declaration? id = some d) (hk : d.kind = .type) (hanonymous : d.isAnonymous = false) :
    ∃ name, d.simpleName = some name ∧ d.isLocal = false ∧
      d.qualifiedName = some (TypeName.qualified ⟨package, name⟩) := by
  obtain ⟨name, hsimple, hlocal, hown⟩ := (h.fits id d hd hk).named hanonymous
  rw [h.enclosingName?_child_root hp, Option.map_none, Option.getD_none] at hown
  refine ⟨name, hsimple, ?_, hown⟩
  obtain ⟨root, hroot⟩ := exists_node?_of_lt (t := t) t.nodes_pos
  have hunit := (h.unit_iff 0 _ (declaration?_eq_of_node? hroot)).2 rfl
  rw [hlocal, hp, Option.bind_some, declaration?_eq_of_node? hroot]
  simp [holdsCode, hunit]

/-- Numbering along the chain of a node in a named type yields its name by segments, and every
segment is numbered in place.  The text that has been finished already is the `rest`. -/
theorem foldl_numberAt {id : Nat} (hin : t.InNamedType id) :
    ∃ e own, t.typeAround? id = some e ∧ t.qualifiedName? e = some own ∧
      ∀ rest, ContinuesName rest →
        (t.chain id).foldl t.numberAt (own ++ rest) = t.placedName id ++ rest ∧
        t.NumberedInPlace (own ++ rest) (t.chain id) := by
  refine InNamedType.induction h.toRooted (motive := fun id ↦ ∃ e own,
    t.typeAround? id = some e ∧ t.qualifiedName? e = some own ∧ ∀ rest, ContinuesName rest →
      (t.chain id).foldl t.numberAt (own ++ rest) = t.placedName id ++ rest ∧
      t.NumberedInPlace (own ++ rest) (t.chain id)) ?_ ?_ hin
  · intro id d hp hd hk hanonymous
    obtain ⟨name, -, hlocal, hown⟩ := h.top_of_child_root hp hd hk hanonymous
    have htype : t.isType id = true := by simp [isType_eq, hd, hk]
    have hnil : t.typesInward 0 = [] := by simp [typesInward, h.chain_root]
    have hqualified : t.qualifiedName? id = some (TypeName.qualified ⟨package, name⟩) := by
      simp [qualifiedName?, hd, hown]
    refine ⟨id, _, by simp [h.typeAround?_child hp, htype], hqualified, fun rest _ ↦ ?_⟩
    have hnumber := numberAt_of_not_local hd (by simp [hlocal])
    rw [h.chain_child hp, h.chain_root, h.placedName_of_outermost hp htype hnil, hqualified]
    refine ⟨by simp [hnumber], ?_, trivial⟩
    intro node hnode hnodeLocal
    obtain rfl := Option.some.inj ((declaration?_eq_of_node? hnode).symm.trans hd)
    simp [DeclarationNode.isLocalType, hlocal] at hnodeLocal
  · rintro id p hp - ⟨e, own, he, hown, ih⟩
    obtain ⟨node, hnode⟩ := exists_node?_of_lt (lt_size_of_parent? hp)
    have hd := declaration?_eq_of_node? hnode
    cases htype : t.isType id with
    | false =>
      have hkind : node.kind ≠ .type := by simpa [isType_eq, hd] using htype
      have hnumber := numberAt_of_not_local hd (by simp [hkind])
      refine ⟨e, own, by simp [h.typeAround?_child hp, htype, he], hown, fun rest hrest ↦ ?_⟩
      rw [h.chain_child hp, List.foldl_cons, hnumber, h.placedName_of_not_isType hp htype]
      refine ⟨(ih rest hrest).1, ?_, by rw [hnumber]; exact (ih rest hrest).2⟩
      intro node' hnode' hlocal
      obtain rfl := Option.some.inj (hnode'.symm.trans hnode)
      simp [DeclarationNode.isLocalType, hkind] at hlocal
    | true =>
      have hkind : node.kind = .type := by simpa [isType_eq, hd] using htype
      have houter : t.enclosingName? id = some own := by
        rw [enclosingName?, h.enclosing?_child hp, he, Option.bind_some, hown]
      obtain ⟨own', hown', hnumber⟩ := h.numberAt_own hp hd hkind houter
      refine ⟨id, own', by simp [h.typeAround?_child hp, htype],
        by simp [qualifiedName?, hd, hown'], fun rest hrest ↦ ?_⟩
      -- the segment of `id` joins the finished text for the types further out
      have hjoin : own ++ "$" ++ t.segment id ++ rest = own ++ ("$" ++ t.segment id ++ rest) := by
        simp only [String.append_assoc]
      obtain ⟨hfold, hplaces⟩ := ih _ (continuesName_segment (t.segment id) rest)
      rw [h.chain_child hp, List.foldl_cons, hnumber rest hrest, hjoin, hfold,
        h.placedName_of_isType hp htype (Rooted.typesInward_ne_nil he)]
      refine ⟨by simp only [String.append_assoc], ?_,
        by rw [hnumber rest hrest, hjoin]; exact hplaces⟩
      intro node' hnode' hlocal
      obtain rfl := Option.some.inj (hnode'.symm.trans hnode)
      obtain ⟨own'', simple, hown'', hsimple, hordinal, hplace⟩ :=
        h.numberInPlace?_local hp hnode hlocal houter hrest
      obtain rfl := Option.some.inj (hown'.symm.trans hown'')
      exact ⟨simple, _, hsimple, hordinal, by rw [hplace]; rfl⟩

/-- The numbering starts at the innermost type around a node, with that type's own name. -/
theorem foldl_numberAt_typeAround {id : Nat} (hin : t.InNamedType id) :
    ∃ e above, (t.chain id).dropWhile (fun i ↦ !t.isType i) = e :: above ∧
      (e :: above).foldl t.numberAt (t.ownName e) = t.placedName id ∧
      t.NumberedInPlace (t.ownName e) (e :: above) := by
  obtain ⟨e, -, he, -⟩ := h.foldl_numberAt hin
  have hin' := hin.typeAround h.toRooted he
  obtain ⟨p, hp, -⟩ := h.exists_parent (hin'.pos h.toRooted) hin'.lt_size
  obtain ⟨e', own, he', hown, hfold⟩ := h.foldl_numberAt hin'
  obtain rfl := Option.some.inj ((h.typeAround?_self he).symm.trans he')
  obtain ⟨hname, hplaces⟩ := hfold "" (Or.inl rfl)
  rw [String.append_empty, ← ownName_of_qualifiedName? hown, h.chain_child hp] at hname hplaces
  refine ⟨e, t.chain p, by rw [h.dropWhile_chain he, h.chain_child hp], ?_, hplaces⟩
  rw [hname, String.append_empty, placedName, placedName, h.typesInward_typeAround he]

theorem binaryName_chain {id : Nat} (hin : t.InNamedType id) :
    t.binaryName ⟨id, t.chain id⟩ = t.placedName id := by
  obtain ⟨e, above, hdrop, hname, -⟩ := h.foldl_numberAt_typeAround hin
  rw [binaryName]
  simp only [hdrop]
  exact hname

end WellNamed

/-- The binary name of a node in a named type is the qualified name of its outermost type with the
segment of each further type, and all its local types are numbered in place. -/
theorem binaryName_eq_placedName (outline : Outline) (size : Nat) (suggested : Option String)
    (id : Nat) (hin : (outline.declarations size suggested).InNamedType id) :
    let t := outline.declarations size suggested
    t.binaryName ⟨id, t.chain id⟩ = t.placedName id ∧
      ∀ e above, (t.chain id).dropWhile (fun i ↦ !t.isType i) = e :: above →
        t.NumberedInPlace (t.ownName e) (e :: above) := by
  intro t
  have h : WellNamed (outline.packageName suggested) t := wellNamed_declarations ..
  refine ⟨h.binaryName_chain hin, fun e above hdrop ↦ ?_⟩
  obtain ⟨e', above', hdrop', -, hplaces⟩ := h.foldl_numberAt_typeAround hin
  obtain ⟨rfl, rfl⟩ := List.cons.inj (hdrop'.symm.trans hdrop)
  exact hplaces

/-- `class A { void m() { class A { T f = new T() {}; } class A$1 { class 1A {} } } }` -/
def overlappingOutline : Outline where
  package := some "p"
  parts := [.type ⟨0, 70⟩ "A" [] [.method ⟨10, 58⟩ "m" [] [
    .type ⟨20, 30⟩ "A" [] [.field ⟨30, 10⟩ "f" [.host [] ⟨36, 2⟩ []]],
    .type ⟨52, 14⟩ "A$1" [] [.type ⟨60, 5⟩ "1A" [] []]]]]

theorem binaryName_overlappingOutline :
    (overlappingOutline.declarations 70 none).InNamedType 7 ∧
      (overlappingOutline.declarations 70 none).binaryName
        ⟨7, (overlappingOutline.declarations 70 none).chain 7⟩ = "p.A$2A$1$1A" := by
  have hchain : (overlappingOutline.declarations 70 none).chain 7 = [7, 6, 2, 1] := by cbv
  have htop : (overlappingOutline.declarations 70 none).declaration? 1 = some
      { kind := .type, span := ⟨0, 70⟩, qualifiedName := some "p.A", simpleName := some "A" } := by
    cbv
  have hin : (overlappingOutline.declarations 70 none).InNamedType 7 :=
    ⟨1, _, by rw [hchain]; rfl, htop, rfl, rfl⟩
  have hname : (overlappingOutline.declarations 70 none).placedName 7 = "p.A$2A$1$1A" := by cbv
  rw [← hname]
  exact ⟨hin, (binaryName_eq_placedName overlappingOutline 70 none 7 hin).1⟩

end Java

end BinaryNames
