import BinaryNames.Proofs.Naming.Segments
import Mathlib

/-!
# Members of Local Types

The name of a member type should be the name of the type around it with one more segment.  That is
so where all local types on the way are numbered in place.  A local type of a method outside of all
types has no segment in its own qualified name, so it is never numbered in place: each `$` with its
simple name behind it gets its number, and a segment that starts like it is changed with it.
-/

namespace BinaryNames

/-! ## Replacing -/

section Replace

variable {old new : List Char}

theorem length_le_replaceAll (hpos : 0 < old.length) (hlength : old.length ≤ new.length)
    (skip : Nat) (text : List Char) :
    text.length ≤ (replaceAll old new skip text).length + skip := by
  fun_induction replaceAll old new skip text with
  | case1 => exact Nat.zero_le _
  | case2 c rest skip ih =>
    rw [List.length_cons]
    omega
  | case3 c rest hprefix ih =>
    rw [List.length_cons, List.length_append]
    omega
  | case4 c rest hprefix ih =>
    rw [List.length_cons, List.length_cons]
    omega

theorem replaceAll_of_not_infix {text : List Char} (h : ¬old <:+: text) :
    replaceAll old new 0 text = text := by
  induction text with
  | nil => rfl
  | cons c rest ih =>
    rw [List.infix_cons_iff, not_or] at h
    have hprefix : ¬old.isPrefixOf (c :: rest) = true := fun hp ↦
      h.1 (List.isPrefixOf_iff_prefix.1 hp)
    rw [replaceAll, if_neg hprefix, ih h.2]

theorem length_lt_replaceAll (hpos : 0 < old.length) (hlength : old.length < new.length)
    {text : List Char} (h : old <:+: text) : text.length < (replaceAll old new 0 text).length := by
  induction text with
  | nil =>
    rw [List.infix_nil] at h
    rw [h] at hpos
    cases hpos
  | cons c rest ih =>
    rw [replaceAll]
    split
    · have hrest := length_le_replaceAll hpos hlength.le (old.length - 1) rest
      rw [List.length_cons, List.length_append]
      omega
    · next hprefix =>
      rw [List.infix_cons_iff, ← List.isPrefixOf_iff_prefix] at h
      have hrest := ih (h.resolve_left hprefix)
      rw [List.length_cons, List.length_cons]
      omega

/-- Replacing by something longer changes a text exactly when there is something to replace. -/
theorem replaceAll_eq_self_iff (hpos : 0 < old.length) (hlength : old.length < new.length)
    {text : List Char} : replaceAll old new 0 text = text ↔ ¬old <:+: text := by
  constructor
  · intro heq hinfix
    have hlt := length_lt_replaceAll hpos hlength hinfix
    rw [heq] at hlt
    exact lt_irrefl _ hlt
  · exact replaceAll_of_not_infix

/-- A text that starts with a character and does not hold it again ends before the next one. -/
theorem cons_prefix_append_iff {c : Char} {tail front rest : List Char} (hc : c ∉ tail)
    (hfront : front ≠ []) : c :: tail <+: front ++ c :: rest ↔ c :: tail <+: front := by
  constructor
  · intro h
    have hlast : front ++ [c] <+: front ++ c :: rest := by simp
    rcases Nat.lt_or_ge front.length (c :: tail).length with hlt | hle
    · obtain ⟨d, front', rfl⟩ := List.exists_cons_of_ne_nil hfront
      have hle : (d :: front' ++ [c]).length ≤ (c :: tail).length := by
        rw [List.length_append]
        exact hlt
      -- otherwise the tail would reach over the second `c`
      have hinside := List.prefix_of_prefix_length_le hlast h hle
      rw [List.cons_append, List.cons_prefix_cons] at hinside
      exact absurd (hinside.2.subset (by simp)) hc
    · exact List.prefix_of_prefix_length_le h (List.prefix_append front _) hle
  · exact fun h ↦ h.trans (List.prefix_append front _)

/-- No occurrence goes across its own first character, so a text may be cut there. -/
theorem replaceAll_append {c : Char} {tail new : List Char} (hc : c ∉ tail) (rest : List Char)
    {front : List Char} {skip : Nat} (hskip : skip ≤ front.length) :
    replaceAll (c :: tail) new skip (front ++ c :: rest) =
      replaceAll (c :: tail) new skip front ++ replaceAll (c :: tail) new 0 (c :: rest) := by
  induction front generalizing skip with
  | nil =>
    obtain rfl : skip = 0 := Nat.le_zero.1 hskip
    rfl
  | cons d front ih =>
    cases skip with
    | succ skip => exact ih (Nat.le_of_succ_le_succ hskip)
    | zero =>
      have hiff : (c :: tail).isPrefixOf (d :: (front ++ c :: rest)) = true ↔
          (c :: tail).isPrefixOf (d :: front) = true := by
        rw [List.isPrefixOf_iff_prefix, List.isPrefixOf_iff_prefix, ← List.cons_append]
        exact cons_prefix_append_iff hc (List.cons_ne_nil d front)
      rw [List.cons_append, replaceAll, replaceAll]
      by_cases hprefix : (c :: tail).isPrefixOf (d :: front) = true
      · have hle : tail.length ≤ front.length :=
          Nat.le_of_succ_le_succ (List.isPrefixOf_iff_prefix.1 hprefix).length_le
        rw [if_pos (hiff.2 hprefix), if_pos hprefix, List.append_assoc]
        exact congrArg (new ++ ·) (ih hle)
      · rw [if_neg (mt hiff.1 hprefix), if_neg hprefix, List.cons_append]
        exact congrArg (d :: ·) (ih (Nat.zero_le _))

end Replace

theorem length_lt_numberedSegment (ordinal : Nat) (simple : String) :
    ('$' :: simple.toList).length < (DeclarationNode.numberedSegment ordinal simple).length := by
  have hdigits : 0 < (toString ordinal).toList.length := by
    rw [Nat.toString_eq_repr, Nat.toList_repr]
    exact List.length_pos_of_ne_nil Nat.toDigits_ne_nil
  rw [DeclarationNode.numberedSegment, List.cons_append, List.length_cons, List.length_cons,
    List.length_append]
  omega

theorem replaceAll_numberedSegment_eq_self_iff {ordinal : Nat} {simple : String}
    {text : List Char} :
    replaceAll ('$' :: simple.toList) (DeclarationNode.numberedSegment ordinal simple) 0 text =
      text ↔ ¬('$' :: simple.toList <:+: text) := by
  apply replaceAll_eq_self_iff
  · exact Nat.succ_pos _
  · exact length_lt_numberedSegment ordinal simple

/-- A type that is called by its package has no segment that could be numbered in place. -/
theorem DeclarationNode.numberInPlace?_qualified {node : DeclarationNode} {package simple : String}
    (hown : node.qualifiedName = some (TypeName.qualified ⟨package, simple⟩)) (ordinal : Nat)
    (name : List Char) : node.numberInPlace? simple ordinal name = none := by
  have hsuffix : ¬('$' :: simple.toList <:+ (TypeName.qualified ⟨package, simple⟩).toList) := by
    intro h
    unfold TypeName.qualified at h
    split at h
    · have hle := h.length_le
      rw [List.length_cons] at hle
      exact Nat.not_succ_le_self _ hle
    · -- a dot stands in front of the simple name
      have hdot : '.' :: simple.toList <:+ (package ++ "." ++ simple).toList := by simp
      have heq := (List.suffix_of_suffix_length_le h hdot le_rfl).eq_of_length rfl
      simp at heq
  have htail : stripTail? ('$' :: simple.toList) (TypeName.qualified ⟨package, simple⟩).toList =
      none := by
    rw [stripTail?, if_neg (mt List.isSuffixOf_iff_suffix.1 hsuffix)]
  unfold numberInPlace?
  rw [hown]
  cases hrest : stripHead? (TypeName.qualified ⟨package, simple⟩).toList name with
  | none => simp [hrest]
  | some rest => simp [hrest, htail]

namespace DeclarationTree

/-- Whether the node at `id` is a type with a qualified name. -/
def isQualifiedType (t : DeclarationTree) (id : Nat) : Bool :=
  t.isType id && (t.qualifiedName? id).isSome

/-- The outermost type with a qualified name that the node at `id` is or lies in. -/
def outermostQualified? (t : DeclarationTree) (id : Nat) : Option Nat :=
  ((t.chain id).filter t.isQualifiedType).getLast?

/-- The node at `id` is a local type in no type with a qualified name. -/
structure UnenclosedLocal (t : DeclarationTree) (id : Nat) (simple : String) : Prop where
  declared : ∃ d, t.declaration? id = some d ∧ d.kind = .type ∧ d.isLocal = true ∧
    d.simpleName = some simple
  unenclosed : t.enclosingName? id = none

theorem Rooted.outermostQualified?_child {t : DeclarationTree} (h : t.Rooted) {id p : Nat}
    (hp : t.parent? id = some p) : t.outermostQualified? id =
      if t.isQualifiedType id then some ((t.outermostQualified? p).getD id)
      else t.outermostQualified? p := by
  rw [outermostQualified?, h.chain_child hp, List.filter_cons]
  split
  · rw [List.getLast?_cons, outermostQualified?]
  · rfl

theorem Rooted.binaryName_of_isType {t : DeclarationTree} (h : t.Rooted) {id : Nat}
    (htype : t.isType id = true) {own : String} (hown : t.qualifiedName? id = some own) :
    t.binaryName ⟨id, t.chain id⟩ = (t.chain id).foldl t.numberAt own := by
  obtain ⟨p, hp⟩ := h.exists_parent_of_isType htype
  rw [binaryName]
  simp only [h.dropWhile_chain (h.typeAround?_of_isType htype)]
  simp only [h.chain_child hp, ownName_of_qualifiedName? hown]

theorem numberAt_of_not_isType {t : DeclarationTree} {id : Nat} (h : t.isType id = false)
    (name : String) : t.numberAt name id = name := by
  cases hnode : t.node? id with
  | none => simp [numberAt, hnode]
  | some node =>
    have hd := declaration?_eq_of_node? hnode
    have hkind : node.kind ≠ .type := by simpa [isType_eq, hd] using h
    exact numberAt_of_not_local hd (by simp [hkind]) name

end DeclarationTree

namespace Java

open DeclarationTree

namespace WellNamed

variable {package : String} {t : DeclarationTree} (h : WellNamed package t)
include h

/-- A type has no qualified name only if it has no name of its own and is in no type that has. -/
theorem nameless {id : Nat} {d : Declaration} (hd : t.declaration? id = some d)
    (hk : d.kind = .type) (hnone : t.qualifiedName? id = none) :
    d.isAnonymous = true ∧ d.isLocal = false ∧ t.enclosingName? id = none := by
  have hfits := h.fits id d hd hk
  rw [qualifiedName?, hd, Option.bind_some] at hnone
  cases hanonymous : d.isAnonymous with
  | true =>
    obtain ⟨-, hlocal, hown⟩ := hfits.anonymous hanonymous
    rw [hnone] at hown
    exact ⟨rfl, hlocal, Option.map_eq_none_iff.1 hown.symm⟩
  | false =>
    obtain ⟨name, -, -, hown⟩ := hfits.named hanonymous
    rw [hnone] at hown
    cases hown

/-- Around a place without a named type nothing is numbered, and no type is qualified. -/
theorem foldl_numberAt_nameless {id : Nat} (hid : id < t.size)
    (hnone : (t.typeAround? id).bind t.qualifiedName? = none) :
    (∀ name, (t.chain id).foldl t.numberAt name = name) ∧ t.outermostQualified? id = none := by
  revert hnone
  refine h.induction (motive := fun id ↦ (t.typeAround? id).bind t.qualifiedName? = none →
    (∀ name, (t.chain id).foldl t.numberAt name = name) ∧ t.outermostQualified? id = none)
    ?_ ?_ hid
  · intro _
    simp [outermostQualified?, h.chain_root]
  · intro id p hp ih hnone
    rw [h.typeAround?_child hp] at hnone
    rw [h.chain_child hp, h.outermostQualified?_child hp, isQualifiedType]
    cases htype : t.isType id with
    | false =>
      rw [htype, if_neg Bool.false_ne_true] at hnone
      simpa [numberAt_of_not_isType htype] using ih hnone
    | true =>
      rw [htype, if_pos rfl, Option.bind_some] at hnone
      obtain ⟨node, hnode⟩ := exists_node?_of_lt (lt_size_of_parent? hp)
      have hd := declaration?_eq_of_node? hnode
      have hkind : node.kind = .type := by simpa [isType_eq, hd] using htype
      obtain ⟨-, hlocal, houter⟩ := h.nameless hd hkind hnone
      rw [enclosingName?, h.enclosing?_child hp] at houter
      simpa [numberAt_of_not_local hd (show (_ && node.isLocal && _) = false by simp [hlocal]),
        hnone] using ih houter

/-- Numbering along a chain is numbering in place up to the outermost qualified type, which comes
last and meets all the segments below it. -/
theorem foldl_numberAt_outermost {id e : Nat} {own : String} (he : t.typeAround? id = some e)
    (hown : t.qualifiedName? e = some own) :
    ∃ b front, t.outermostQualified? id = some b ∧ t.isQualifiedType b = true ∧
      t.enclosingName? b = none ∧ ∀ rest, ContinuesName rest →
        (t.chain id).foldl t.numberAt (own ++ rest) = t.numberAt (front ++ rest) b := by
  have hid := Rooted.lt_size_of_chain_ne_nil (List.ne_nil_of_mem (List.mem_of_find?_eq_some he))
  revert e own
  refine h.induction (motive := fun id ↦ ∀ {e own}, t.typeAround? id = some e →
    t.qualifiedName? e = some own → ∃ b front, t.outermostQualified? id = some b ∧
      t.isQualifiedType b = true ∧ t.enclosingName? b = none ∧ ∀ rest, ContinuesName rest →
        (t.chain id).foldl t.numberAt (own ++ rest) = t.numberAt (front ++ rest) b) ?_ ?_ hid
  · intro e own he
    rw [h.typeAround?_root] at he
    cases he
  · intro id p hp ih e own he hown
    rw [h.typeAround?_child hp] at he
    rw [h.chain_child hp, h.outermostQualified?_child hp]
    cases htype : t.isType id with
    | false =>
      rw [htype, if_neg Bool.false_ne_true] at he
      simpa [isQualifiedType, htype, numberAt_of_not_isType htype] using ih he hown
    | true =>
      rw [htype, if_pos rfl, Option.some.injEq] at he
      subst he
      have hqualified : t.isQualifiedType id = true := by simp [isQualifiedType, htype, hown]
      obtain ⟨node, hnode⟩ := exists_node?_of_lt (lt_size_of_parent? hp)
      have hd := declaration?_eq_of_node? hnode
      have hkind : node.kind = .type := by simpa [isType_eq, hd] using htype
      have henclosing : t.enclosingName? id = (t.typeAround? p).bind t.qualifiedName? := by
        rw [enclosingName?, h.enclosing?_child hp]
      cases houter : (t.typeAround? p).bind t.qualifiedName? with
      | none =>
        -- `id` is outermost itself, and nothing around it is numbered any more
        obtain ⟨hfold, hnone⟩ :=
          h.foldl_numberAt_nameless ((parent?_lt hp).trans (lt_size_of_parent? hp)) houter
        refine ⟨id, own, by simp [hqualified, hnone], hqualified, henclosing.trans houter, ?_⟩
        intro rest _
        rw [List.foldl_cons, hfold]
      | some outer =>
        obtain ⟨e, he, houterName⟩ := Option.bind_eq_some_iff.1 houter
        obtain ⟨b, front, hb, hbtype, hbnone, hfold⟩ := ih he houterName
        obtain ⟨own', hown', hnumber⟩ := h.numberAt_own hp hd hkind (henclosing.trans houter)
        rw [qualifiedName?, hd, Option.bind_some, hown', Option.some.injEq] at hown
        subst hown
        -- the segment of `id` is finished here and goes on as part of the rest
        refine ⟨b, front ++ "$" ++ t.segment id, by simp [hqualified, hb], hbtype, hbnone, ?_⟩
        intro rest hrest
        have hcontinues := continuesName_segment (t.segment id) rest
        calc (id :: t.chain p).foldl t.numberAt (own' ++ rest)
            = (t.chain p).foldl t.numberAt (outer ++ ("$" ++ t.segment id ++ rest)) := by
              rw [List.foldl_cons, hnumber rest hrest]
              simp only [String.append_assoc]
          _ = t.numberAt (front ++ ("$" ++ t.segment id ++ rest)) b := hfold _ hcontinues
          _ = t.numberAt (front ++ "$" ++ t.segment id ++ rest) b := by
              simp only [String.append_assoc]

/-- Such a local type is not numbered in place. -/
theorem numberAt_unenclosed {id : Nat} {simple : String} (hid : t.UnenclosedLocal id simple)
    (name : String) :
    t.numberAt name id = String.ofList (replaceAll ('$' :: simple.toList)
      (DeclarationNode.numberedSegment (t.localRank id) simple) 0 name.toList) := by
  obtain ⟨d, hd, hk, hlocal, hsimple⟩ := hid.declared
  have hfits := h.fits id d hd hk
  have hanonymous : d.isAnonymous = false := by
    by_contra htrue
    have hnot := (hfits.anonymous (Bool.eq_true_of_not_eq_false htrue)).2.1
    rw [hlocal] at hnot
    cases hnot
  obtain ⟨simple', hsimple', -, hown⟩ := hfits.named hanonymous
  obtain rfl := Option.some.inj (hsimple.symm.trans hsimple')
  rw [hid.unenclosed, Option.map_none, Option.getD_none] at hown
  have hnumbered : t.isNumbered id = true := by
    simp [isNumbered_eq, hd, hk, hlocal, hanonymous, hsimple]
  have hisType : t.isType id = true := by simp [isType_eq, hd, hk]
  obtain ⟨p, hp⟩ := h.exists_parent_of_isType hisType
  obtain ⟨node, hnode, rfl⟩ := Option.map_eq_some_iff.1 hd
  have htype : node.isLocalType = true := by
    simp [DeclarationNode.isLocalType, hk, hlocal, hanonymous]
  simp [numberAt, hnode, htype, h.localOrdinal?_eq hp hnumbered, DeclarationNode.numberSegment,
    hsimple, DeclarationNode.numberInPlace?_qualified hown]

/-- It changes the names in which its simple name stands after a `$`. -/
theorem numberAt_unenclosed_eq_self_iff {id : Nat} {simple : String}
    (hid : t.UnenclosedLocal id simple) (name : String) :
    t.numberAt name id = name ↔ ¬('$' :: simple.toList <:+: name.toList) := by
  rw [h.numberAt_unenclosed hid, ← String.toList_inj, String.toList_ofList]
  exact replaceAll_numberedSegment_eq_self_iff

/-- It leaves a further segment alone exactly if its simple name does not stand there. -/
theorem numberAt_unenclosed_append_iff {id : Nat} {simple : String}
    (hid : t.UnenclosedLocal id simple) (hdollar : '$' ∉ simple.toList) (front text : String) :
    t.numberAt (front ++ ("$" ++ text)) id = t.numberAt front id ++ ("$" ++ text) ↔
      ¬('$' :: simple.toList <:+: '$' :: text.toList) := by
  have hcut : (front ++ ("$" ++ text)).toList = front.toList ++ '$' :: text.toList := by simp
  have hcut' : (t.numberAt front id ++ ("$" ++ text)).toList =
      (t.numberAt front id).toList ++ '$' :: text.toList := by simp
  rw [← String.toList_inj, hcut', h.numberAt_unenclosed hid, h.numberAt_unenclosed hid,
    String.toList_ofList, String.toList_ofList, hcut,
    replaceAll_append hdollar text.toList (Nat.zero_le _), List.append_cancel_left_eq]
  exact replaceAll_numberedSegment_eq_self_iff

/-- A named type that is not local stands directly in the type around it. -/
theorem parent?_of_member {id e : Nat} {d : Declaration} {simple : String}
    (hd : t.declaration? id = some d) (hk : d.kind = .type) (hlocal : d.isLocal = false)
    (hsimple : d.simpleName = some simple) (he : t.enclosing? id = some e) :
    d.isAnonymous = false ∧ t.parent? id = some e := by
  have hfits := h.fits id d hd hk
  have hanonymous : d.isAnonymous = false := by
    by_contra htrue
    have hnot := (hfits.anonymous (Bool.eq_true_of_not_eq_false htrue)).1
    rw [hsimple] at hnot
    cases hnot
  refine ⟨hanonymous, ?_⟩
  have hpos : 0 < id := Nat.zero_lt_of_lt (h.lt_of_enclosing? he)
  obtain ⟨p, hp, hlt⟩ := h.exists_parent hpos (lt_size_of_declaration? hd)
  obtain ⟨node, hnode⟩ := exists_node?_of_lt (hlt.trans (lt_size_of_declaration? hd))
  have hparent := declaration?_eq_of_node? hnode
  obtain ⟨-, -, hcode, -⟩ := hfits.named hanonymous
  rw [hlocal, hp, Option.bind_some, hparent, Option.any_some] at hcode
  rw [h.enclosing?_child hp] at he
  -- the parent holds no code, and it is not the root, around which there is no type
  have hunit : node.kind ≠ .unit := by
    intro hunit
    obtain rfl := (h.unit_iff p _ hparent).1 hunit
    rw [h.typeAround?_root] at he
    cases he
  have hkind : node.kind = .type := by simpa [holdsCode, hunit] using hcode.symm
  have htype : t.isType p = true := by simp [isType_eq, hparent, hkind]
  rw [hp, ← he, h.typeAround?_of_isType htype]

/-- Both names, that of a type and that of a member of it, are made by the outermost qualified
type. -/
theorem binaryName_member {id e : Nat} {d : Declaration} {simple : String}
    (hd : t.declaration? id = some d) (hk : d.kind = .type) (hlocal : d.isLocal = false)
    (hsimple : d.simpleName = some simple) (he : t.enclosing? id = some e)
    (hqualified : t.isQualifiedType e = true) :
    ∃ b front, t.outermostQualified? e = some b ∧ t.isQualifiedType b = true ∧
      t.enclosingName? b = none ∧ t.binaryName ⟨e, t.chain e⟩ = t.numberAt front b ∧
      t.binaryName ⟨id, t.chain id⟩ = t.numberAt (front ++ ("$" ++ simple)) b := by
  obtain ⟨hanonymous, hp⟩ := h.parent?_of_member hd hk hlocal hsimple he
  rw [isQualifiedType, Bool.and_eq_true, Option.isSome_iff_exists] at hqualified
  obtain ⟨htype, own, hown⟩ := hqualified
  have hcontinues : ContinuesName ("$" ++ simple) := by
    simpa using continuesName_segment simple ""
  have hmember : t.qualifiedName? id = some (own ++ "$" ++ simple) := by
    obtain ⟨simple', hsimple', -, hown'⟩ := (h.fits id d hd hk).named hanonymous
    obtain rfl := Option.some.inj (hsimple.symm.trans hsimple')
    rw [enclosingName?, he, Option.bind_some, hown, Option.map_some, Option.getD_some] at hown'
    rw [qualifiedName?, hd, Option.bind_some, hown']
  have hmemberType : t.isType id = true := by simp [isType_eq, hd, hk]
  obtain ⟨b, front, hb, hbtype, hbnone, hfold⟩ :=
    h.foldl_numberAt_outermost (h.typeAround?_of_isType htype) hown
  refine ⟨b, front, hb, hbtype, hbnone, ?_, ?_⟩
  · calc t.binaryName ⟨e, t.chain e⟩
        = (t.chain e).foldl t.numberAt (own ++ "") := by
          rw [h.binaryName_of_isType htype hown, String.append_empty]
      _ = t.numberAt (front ++ "") b := hfold "" (Or.inl rfl)
      _ = t.numberAt front b := by rw [String.append_empty]
  · calc t.binaryName ⟨id, t.chain id⟩
        = (id :: t.chain e).foldl t.numberAt (own ++ "$" ++ simple) := by
          rw [h.binaryName_of_isType hmemberType hmember, h.chain_child hp]
      _ = (t.chain e).foldl t.numberAt (own ++ ("$" ++ simple)) := by
          rw [List.foldl_cons, numberAt_of_not_local hd (by simp [hlocal]), String.append_assoc]
      _ = t.numberAt (front ++ ("$" ++ simple)) b := hfold _ hcontinues

/-- Another type that is in no qualified type is not numbered at all. -/
theorem numberAt_of_not_unenclosed {id : Nat} (htype : t.isType id = true)
    (hnone : t.enclosingName? id = none) (hid : ∀ simple, ¬t.UnenclosedLocal id simple)
    (name : String) : t.numberAt name id = name := by
  rw [isType_eq, Option.any_eq_true] at htype
  obtain ⟨d, hd, hk⟩ := htype
  have hk : d.kind = .type := of_decide_eq_true hk
  have hfits := h.fits id d hd hk
  apply numberAt_of_not_local hd
  cases hanonymous : d.isAnonymous with
  | true => simp
  | false =>
    obtain ⟨simple, hsimple, -⟩ := hfits.named hanonymous
    have hlocal : ¬d.isLocal = true := fun hlocal ↦
      hid simple ⟨⟨d, hd, hk, hlocal, hsimple⟩, hnone⟩
    simp [hlocal]

theorem isQualifiedType_of_isNumbered {id : Nat} (hid : t.isNumbered id = true) :
    t.isQualifiedType id = true := by
  rw [isNumbered_eq, Option.any_eq_true] at hid
  obtain ⟨d, hd, hall⟩ := hid
  simp only [Bool.and_eq_true, decide_eq_true_eq, Bool.not_eq_true'] at hall
  obtain ⟨⟨⟨hk, -⟩, hanonymous⟩, -⟩ := hall
  obtain ⟨simple, -, -, hown⟩ := (h.fits id d hd hk).named hanonymous
  simp [isQualifiedType, isType_eq, hd, hk, qualifiedName?, hown]

end WellNamed

/-- The name of a member of a local type is that of the local type with one more segment, unless the
outermost qualified type around them is local itself: its simple name is then numbered in the
segment of the member too.  A local type in a qualified type is numbered in place, and one that is
in none changes every name in which its simple name stands after a `$`. -/
theorem binaryName_member_of_local (outline : Outline) (size : Nat) (suggested : Option String)
    {t : DeclarationTree} (ht : outline.declarations size suggested = t) {e id : Nat}
    {d : Declaration} {simple : String} (hlocal : t.isNumbered e = true)
    (hd : t.declaration? id = some d) (hk : d.kind = .type) (hmember : d.isLocal = false)
    (hsimple : d.simpleName = some simple) (he : t.enclosing? id = some e) :
    (∀ outer, t.enclosingName? e = some outer → ∃ own, t.qualifiedName? e = some own ∧
      ∀ rest, ContinuesName rest →
        t.numberAt (own ++ rest) e = outer ++ "$" ++ t.segment e ++ rest) ∧
    (∀ name, t.UnenclosedLocal e name →
      ∀ text, t.numberAt text e = text ↔ ¬('$' :: name.toList <:+: text.toList)) ∧
    ∃ b, t.outermostQualified? e = some b ∧
      ((∀ name, ¬t.UnenclosedLocal b name) →
        t.binaryName ⟨id, t.chain id⟩ = t.binaryName ⟨e, t.chain e⟩ ++ ("$" ++ simple)) ∧
      ∀ name, t.UnenclosedLocal b name → '$' ∉ name.toList →
        (t.binaryName ⟨id, t.chain id⟩ = t.binaryName ⟨e, t.chain e⟩ ++ ("$" ++ simple) ↔
          ¬('$' :: name.toList <:+: '$' :: simple.toList)) := by
  subst ht
  have h := wellNamed_declarations outline size suggested
  have hqualified := h.isQualifiedType_of_isNumbered hlocal
  refine ⟨?_, fun name hname ↦ h.numberAt_unenclosed_eq_self_iff hname, ?_⟩
  · intro outer houter
    have htype := (Bool.and_eq_true_iff.1 hqualified).1
    obtain ⟨p, hp⟩ := h.exists_parent_of_isType htype
    rw [isType_eq, Option.any_eq_true] at htype
    obtain ⟨de, hde, hke⟩ := htype
    obtain ⟨own, hown, hnumber⟩ := h.numberAt_own hp hde (of_decide_eq_true hke) houter
    exact ⟨own, by rw [qualifiedName?, hde, Option.bind_some, hown], hnumber⟩
  · obtain ⟨b, front, hb, hbtype, hbnone, hlocalName, hmemberName⟩ :=
      h.binaryName_member hd hk hmember hsimple he hqualified
    refine ⟨b, hb, fun hnot ↦ ?_, fun name hname hdollar ↦ ?_⟩
    · have hnumber := h.numberAt_of_not_unenclosed (Bool.and_eq_true_iff.1 hbtype).1 hbnone hnot
      rw [hlocalName, hmemberName, hnumber, hnumber]
    · rw [hlocalName, hmemberName]
      exact h.numberAt_unenclosed_append_iff hname hdollar front simple

/-- A method outside of all types with a local class `A`, whose members are `AB` and `C`. -/
def looseSource : String :=
  "void m()\x7bclass A\x7bclass AB\x7b\x7dclass C\x7b\x7d\x7d\x7d"

def looseOutline : Outline where
  package := none
  parts := [.method ⟨0, 38⟩ "m" [] [.type ⟨9, 28⟩ "A" []
    [.type ⟨17, 10⟩ "AB" [] [], .type ⟨27, 9⟩ "C" [] []]]]

theorem ofSource_looseSource : Outline.ofSource looseSource = looseOutline := by
  have htokens : Token.ofSource? looseSource = some
      [.word ⟨0, 4⟩ "void", .word ⟨5, 1⟩ "m", .group ⟨6, 2⟩ .round [], .group ⟨8, 30⟩ .curly
        [.word ⟨9, 5⟩ "class", .word ⟨15, 1⟩ "A", .group ⟨16, 21⟩ .curly
          [.word ⟨17, 5⟩ "class", .word ⟨23, 2⟩ "AB", .group ⟨25, 2⟩ .curly [],
          .word ⟨27, 5⟩ "class", .word ⟨33, 1⟩ "C", .group ⟨34, 2⟩ .curly []]]] := by rfl
  unfold Outline.ofSource
  rw [htokens]
  cbv

def looseTree : DeclarationTree := looseOutline.declarations 38 none

theorem declarations_looseSource :
    declarations (.ofString "A.java") looseSource none = .ok looseTree :=
  declarations_eq_ok_iff.2 ⟨by decide, by decide, by rw [ofSource_looseSource]; rfl⟩

theorem declaration?_looseTree :
    looseTree.declaration? 3 = some
        { kind := .type, span := ⟨17, 10⟩, qualifiedName := some "A$AB",
          simpleName := some "AB" } ∧
      looseTree.declaration? 4 = some
        { kind := .type, span := ⟨27, 9⟩, qualifiedName := some "A$C",
          simpleName := some "C" } := by
  constructor <;> cbv

theorem unenclosedLocal_looseTree : looseTree.UnenclosedLocal 2 "A" := by
  have hd : looseTree.declaration? 2 = some
      { kind := .type, span := ⟨9, 28⟩, isLocal := true, qualifiedName := some "A",
        simpleName := some "A" } := by cbv
  exact ⟨⟨_, hd, rfl, rfl, rfl⟩, by cbv⟩

/-- The simple name of `A` stands in `AB` and not in `C`. -/
theorem binaryName_member_of_local_loose :
    looseTree.isNumbered 2 = true ∧ looseTree.UnenclosedLocal 2 "A" ∧
      looseTree.binaryName ⟨4, looseTree.chain 4⟩ =
        looseTree.binaryName ⟨2, looseTree.chain 2⟩ ++ ("$" ++ "C") ∧
      looseTree.binaryName ⟨3, looseTree.chain 3⟩ ≠
        looseTree.binaryName ⟨2, looseTree.chain 2⟩ ++ ("$" ++ "AB") := by
  have hnumbered : looseTree.isNumbered 2 = true := by cbv
  have houtermost : looseTree.outermostQualified? 2 = some 2 := by cbv
  have he : looseTree.enclosing? 3 = some 2 := by cbv
  have he' : looseTree.enclosing? 4 = some 2 := by cbv
  have hloose := unenclosedLocal_looseTree
  obtain ⟨hd, hd'⟩ := declaration?_looseTree
  obtain ⟨-, -, b, hb, -, hrenamed⟩ :=
    binaryName_member_of_local looseOutline 38 none rfl hnumbered hd rfl rfl rfl he
  obtain ⟨-, -, b', hb', -, hextends⟩ :=
    binaryName_member_of_local looseOutline 38 none rfl hnumbered hd' rfl rfl rfl he'
  obtain rfl := Option.some.inj (houtermost.symm.trans hb)
  obtain rfl := Option.some.inj (houtermost.symm.trans hb')
  refine ⟨hnumbered, hloose, (hextends "A" hloose (by decide)).2 (by decide), fun heq ↦ ?_⟩
  exact (hrenamed "A" hloose (by decide)).1 heq (by decide)

/-- `AB` is a member of the local class `A`, but its name does not extend that of `A`. -/
theorem member_of_local_renumbered :
    ∃ t, declarations (.ofString "A.java") looseSource none = .ok t ∧
      ∃ e id d, t.isNumbered e = true ∧ t.enclosing? id = some e ∧ t.declaration? id = some d ∧
        d.kind = .type ∧ d.isLocal = false ∧ d.simpleName = some "AB" ∧
        t.binaryName ⟨e, t.chain e⟩ = "A" ∧ t.binaryName ⟨id, t.chain id⟩ = "A$1AB" :=
  ⟨looseTree, declarations_looseSource, 2, 3, _, by cbv, by cbv, declaration?_looseTree.1, rfl, rfl,
    rfl, by cbv, by cbv⟩

end Java

end BinaryNames
