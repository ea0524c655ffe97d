import BinaryNames.Proofs.Java.Words
import BinaryNames.Proofs.Naming.Uniqueness

/-!
# The Characters of Binary Names

A binary name is put together from the package, the simple names of declarations, numbers, dots and
dollar signs.  So a character of another kind that stands neither in the package nor in a simple
name stands in no binary name: those of a source hold a slash only if its package does.
-/

namespace BinaryNames

/-- Every character of the text satisfies `C`. -/
def Over (C : Char → Prop) (text : String) : Prop := ∀ c ∈ text.toList, C c

theorem over_append {C : Char → Prop} {a b : String} : Over C (a ++ b) ↔ Over C a ∧ Over C b := by
  rw [Over, String.toList_append, List.forall_mem_append]
  rfl

/-- The characters that naming itself adds satisfy `C`. -/
structure NameChars (C : Char → Prop) : Prop where
  dollar : C '$'
  dot : C '.'
  digit : ∀ c, c.isDigit = true → C c

section Texts

variable {C : Char → Prop} (hC : NameChars C)

theorem append_of_stripHead? {head text rest : List Char} (h : stripHead? head text = some rest) :
    text = head ++ rest := by
  unfold stripHead? at h
  split at h
  · next hhead =>
    obtain ⟨tail, rfl⟩ := List.isPrefixOf_iff_prefix.1 hhead
    rw [List.drop_left] at h
    rw [Option.some.inj h]
  · cases h

theorem append_of_stripTail? {tail text rest : List Char} (h : stripTail? tail text = some rest) :
    text = rest ++ tail := by
  unfold stripTail? at h
  split at h
  · next htail =>
    obtain ⟨head, rfl⟩ := List.isSuffixOf_iff_suffix.1 htail
    rw [List.length_append, Nat.add_sub_cancel, List.take_left] at h
    rw [Option.some.inj h]
  · cases h

theorem mem_replaceAll {old new text : List Char} {skip : Nat} {c : Char}
    (hc : c ∈ replaceAll old new skip text) : c ∈ new ∨ c ∈ text := by
  fun_induction replaceAll old new skip text with
  | case1 => cases hc
  | case2 a rest n ih => exact (ih hc).imp_right (List.mem_cons_of_mem a)
  | case3 a rest _ ih =>
    rcases List.mem_append.1 hc with hc | hc
    · exact Or.inl hc
    · exact (ih hc).imp_right (List.mem_cons_of_mem a)
  | case4 a rest _ ih =>
    rcases List.mem_cons.1 hc with rfl | hc
    · exact Or.inr List.mem_cons_self
    · exact (ih hc).imp_right (List.mem_cons_of_mem a)

include hC

theorem NameChars.toString (n : Nat) : Over C (toString n) :=
  fun c hc ↦ hC.digit c (isDigit_of_mem_toString hc)

theorem NameChars.append_dollar {outer segment : String} (houter : Over C outer)
    (hsegment : Over C segment) : Over C (outer ++ "$" ++ segment) := by
  rw [over_append, over_append]
  refine ⟨⟨houter, ?_⟩, hsegment⟩
  exact List.forall_mem_singleton.2 hC.dollar

theorem NameChars.qualified {package name : String} (hpackage : Over C package)
    (hname : Over C name) : Over C (TypeName.qualified ⟨package, name⟩) := by
  unfold TypeName.qualified
  split
  · exact hname
  · rw [over_append, over_append]
    exact ⟨⟨hpackage, List.forall_mem_singleton.2 hC.dot⟩, hname⟩

theorem NameChars.numberedSegment {simple : String} (hsimple : Over C simple) (ordinal : Nat) :
    ∀ c ∈ DeclarationNode.numberedSegment ordinal simple, C c := by
  refine List.forall_mem_append.2 ⟨List.forall_mem_cons.2 ⟨hC.dollar, ?_⟩, hsimple⟩
  exact hC.toString ordinal

theorem NameChars.numberInPlace {node : DeclarationNode} {simple : String} {ordinal : Nat}
    {name numbered : List Char} (hname : ∀ c ∈ name, C c) (hsimple : Over C simple)
    (h : node.numberInPlace? simple ordinal name = some numbered) : ∀ c ∈ numbered, C c := by
  obtain ⟨own, -, h⟩ := Option.bind_eq_some_iff.1 h
  obtain ⟨rest, hrest, h⟩ := Option.bind_eq_some_iff.1 h
  obtain ⟨outer, houter, h⟩ := Option.bind_eq_some_iff.1 h
  rw [append_of_stripHead? hrest, append_of_stripTail? houter, List.forall_mem_append,
    List.forall_mem_append] at hname
  split at h
  · obtain rfl := Option.some.inj h
    rw [List.forall_mem_append, List.forall_mem_append]
    exact ⟨⟨hname.1.1, hC.numberedSegment hsimple ordinal⟩, hname.2⟩
  · cases h

/-- Numbering a segment adds nothing but the number and the simple name. -/
theorem NameChars.numberSegment {node : DeclarationNode} {name : String} (hname : Over C name)
    (hsimple : ∀ n, node.simpleName = some n → Over C n) (ordinal : Nat) :
    Over C (node.numberSegment ordinal name) := by
  unfold DeclarationNode.numberSegment
  split
  · exact hname
  · next simple heq =>
    have hsegment := hC.numberedSegment (hsimple simple heq) ordinal
    unfold Over
    rw [String.toList_ofList]
    cases hplace : node.numberInPlace? simple ordinal name.toList with
    | some numbered => exact hC.numberInPlace hname (hsimple simple heq) hplace
    | none =>
      intro c hc
      exact (mem_replaceAll hc).elim (hsegment c) (hname c)

end Texts

namespace DeclarationTree

/-- The simple names in the tree and its package are over `C`, and only types are qualified. -/
structure NamedOver (C : Char → Prop) (package : String) (t : DeclarationTree) : Prop
    extends Java.WellNamed package t where
  chars : NameChars C
  package : Over C package
  simple : ∀ id d n, t.declaration? id = some d → d.simpleName = some n → Over C n
  unqualified : ∀ id d, t.declaration? id = some d → d.kind ≠ .type → d.qualifiedName = none

namespace NamedOver

variable {C : Char → Prop} {package : String} {t : DeclarationTree} (h : t.NamedOver C package)
include h

theorem qualifiedName {id : Nat} {own : String} (hown : t.qualifiedName? id = some own) :
    Over C own := by
  -- the name of a type continues that of the type around it, which comes before it
  induction id using Nat.strong_induction_on generalizing own with
  | _ id ih =>
    obtain ⟨d, hd, hqualified⟩ := Option.bind_eq_some_iff.1 hown
    have hk : d.kind = .type := by
      by_contra hk
      rw [h.unqualified id d hd hk] at hqualified
      cases hqualified
    have houter : ∀ outer, t.enclosingName? id = some outer → Over C outer := by
      intro outer houter
      obtain ⟨e, he, hname⟩ := Option.bind_eq_some_iff.1 houter
      exact ih e (h.lt_of_enclosing? he) hname
    cases hanonymous : d.isAnonymous with
    | true =>
      rw [((h.fits id d hd hk).anonymous hanonymous).2.2] at hqualified
      obtain ⟨outer, hname, rfl⟩ := Option.map_eq_some_iff.1 hqualified
      exact h.chars.append_dollar (houter outer hname) (h.chars.toString _)
    | false =>
      obtain ⟨n, hn, -, hname⟩ := (h.fits id d hd hk).named hanonymous
      have hsimple := h.simple id d n hd hn
      rw [hname, Option.some.injEq] at hqualified
      rw [← hqualified]
      cases hc : t.enclosingName? id with
      | none => exact h.chars.qualified h.package hsimple
      | some outer => exact h.chars.append_dollar (houter outer hc) hsimple

theorem ownName (id : Nat) : Over C (t.ownName id) := by
  have hempty : Over C "" := by simp [Over]
  cases hnode : t.node? id with
  | none => simpa [DeclarationTree.ownName, hnode] using hempty
  | some node =>
    have hd := declaration?_eq_of_node? hnode
    simp only [DeclarationTree.ownName, hnode, Option.map_some, Option.getD_some,
      DeclarationNode.ownName]
    cases hqualified : node.qualifiedName with
    | some own =>
      have hown : t.qualifiedName? id = some own := by simp [qualifiedName?, hd, hqualified]
      exact h.qualifiedName hown
    | none =>
      cases hn : node.simpleName with
      | some n => exact h.simple id _ n hd hn
      | none => exact hempty

theorem numberAt {name : String} (hname : Over C name) (id : Nat) :
    Over C (t.numberAt name id) := by
  unfold DeclarationTree.numberAt
  split
  · exact hname
  · next node hnode =>
    split
    · split
      · exact h.chars.numberSegment hname
          (fun n ↦ h.simple id _ n (declaration?_eq_of_node? hnode)) _
      · exact hname
    · exact hname

theorem foldl_numberAt {name : String} (hname : Over C name) (ids : List Nat) :
    Over C (ids.foldl t.numberAt name) := by
  induction ids generalizing name with
  | nil => exact hname
  | cons id rest ih => exact ih (h.numberAt hname id)

theorem binaryName (found : Found) : Over C (t.binaryName found) := by
  unfold DeclarationTree.binaryName
  split
  · exact h.ownName _
  · exact h.foldl_numberAt (h.ownName _) _

end NamedOver

end DeclarationTree

namespace Java

open DeclarationTree

/-- The text alone qualifies nothing. -/
theorem SyntaxNode.qualifiedName_declared? {inBody : Bool} {node : SyntaxNode}
    {d : Declaration} (h : node.declared? inBody = some d) : d.qualifiedName = none := by
  unfold declared? at h
  split at h
  case h_5 =>
    rw [← Option.some.inj (Option.ite_none_right_eq_some.1 h).2]
  all_goals cases h <;> rfl

theorem SyntaxNode.qualifiedName_declaredAt? {inBody : Bool} {node : SyntaxNode}
    {address : List Nat} {d : Declaration} (h : node.declaredAt? inBody address = some d) :
    d.qualifiedName = none := by
  induction address generalizing inBody node with
  | nil => exact qualifiedName_declared? h
  | cons i rest ih =>
    obtain ⟨-, h⟩ := Option.ite_none_left_eq_some.1 h
    obtain ⟨child, -, hchild⟩ := Option.bind_eq_some_iff.1 h
    exact ih hchild

theorem qualifiedName_of_not_type {outline : Outline} {size : Nat} {suggested : Option String}
    {id : Nat} {d : Declaration}
    (hd : (outline.declarations size suggested).declaration? id = some d) (hk : d.kind ≠ .type) :
    d.qualifiedName = none := by
  rcases Nat.eq_zero_or_pos id with rfl | hpos
  · rw [declaration?_root] at hd
    cases hd
    rfl
  · have hplace := (sited_declarations outline size suggested).bare_declaration hpos
      (lt_size_of_declaration? hd)
    rw [hd, Option.map_some, Declaration.bare, if_neg hk] at hplace
    exact SyntaxNode.qualifiedName_declaredAt? hplace.symm

theorem slash_notMem_of_isWord {n : String} (h : IsWord n) : Over (· ≠ '/') n := by
  rintro c hc rfl
  exact absurd (h _ hc) (by decide)

/-- The binary names of a source hold a slash only if its package does. -/
theorem slash_notMem_binaryName {source : String} {size : Nat} {suggested : Option String}
    (hpackage : '/' ∉ ((Outline.ofSource source).packageName suggested).toList) (found : Found) :
    '/' ∉ (((Outline.ofSource source).declarations size suggested).binaryName found).toList := by
  have hchars : NameChars (· ≠ '/') := by
    refine ⟨by decide, by decide, ?_⟩
    rintro c hc rfl
    exact absurd hc (by decide)
  have h : ((Outline.ofSource source).declarations size suggested).NamedOver (· ≠ '/')
      ((Outline.ofSource source).packageName suggested) := by
    refine ⟨wellNamed_declarations _ size suggested, hchars, ?_, ?_, ?_⟩
    · rintro c hc rfl
      exact hpackage hc
    · exact fun id d n hd hn ↦ slash_notMem_of_isWord (isWord_simpleName hd hn)
    · exact fun id d ↦ qualifiedName_of_not_type
  exact fun hc ↦ h.binaryName found _ hc rfl

end Java

end BinaryNames
