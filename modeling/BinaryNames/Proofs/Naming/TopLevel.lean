import BinaryNames.Proofs.NamePattern
import BinaryNames.Proofs.Naming.Segments

/-!
# The Top-Level Type of a Name

The binary name of whatever lies in a top-level type starts with the qualified name of that type,
and only a dollar sign can follow.  Where the package and the simple name are made of identifiers,
reading the binary name therefore gives the top-level type back.
-/

namespace BinaryNames

namespace TypeName

/-! ## Reading a name -/

/-- Of a text that starts with a name without blanks, only blanks after the name are dropped. -/
theorem exists_trimBlanks_append {outer : List Char} (hne : outer ≠ [])
    (h : ∀ c ∈ outer, isBlank c = false) (rest : List Char) :
    ∃ rest', rest' <+: rest ∧ trimBlanks (outer ++ rest) = outer ++ rest' := by
  have hfront : (outer ++ rest).dropWhile isBlank = outer ++ rest := by
    obtain ⟨c, tail, rfl⟩ := List.exists_cons_of_ne_nil hne
    rw [List.cons_append, List.dropWhile_cons_of_neg (by simp [h c List.mem_cons_self])]
  refine ⟨(rest.reverse.dropWhile isBlank).reverse, ?_, ?_⟩
  · rw [← List.reverse_suffix, List.reverse_reverse]
    exact List.dropWhile_suffix _
  · rw [trimBlanks, hfront, List.reverse_append, List.dropWhile_append]
    split
    · next hempty =>
      rw [List.isEmpty_iff] at hempty
      rw [hempty, dropWhile_eq_self fun c hc ↦ h c (List.mem_reverse.1 hc)]
      simp
    · simp

theorem takeWhile_append_dollar {outer rest : List Char} (h : '$' ∉ outer)
    (hrest : rest = [] ∨ rest.head? = some '$') :
    (outer ++ rest).takeWhile (· ≠ '$') = outer := by
  have houter : ∀ c ∈ outer, decide (c ≠ '$') = true := by
    rintro c hc
    simpa using fun hdollar : c = '$' ↦ h (hdollar ▸ hc)
  rw [List.takeWhile_append_of_pos houter]
  rcases hrest with rfl | hrest
  · simp
  · obtain ⟨tail, rfl⟩ := List.head?_eq_some_iff.1 hrest
    simp

/-- The qualified name, segment by segment. -/
theorem toList_qualified {segments : List (List Char)} (h : ∀ s ∈ segments, s ≠ [])
    (simple : String) :
    (qualified ⟨String.ofList (joinWith '.' segments), simple⟩).toList =
      joinWith '.' (segments ++ [simple.toList]) := by
  cases segments with
  | nil => rfl
  | cons s rest =>
    have hne : joinWith '.' (s :: rest) ≠ [] := joinWith_ne_nil (by simp) h
    have hpackage : String.ofList (joinWith '.' (s :: rest)) ≠ "" := fun hempty ↦
      hne (by simpa using congrArg String.toList hempty)
    rw [qualified, if_neg hpackage, joinWith_append '.' (by simp) (by simp)]
    simp [joinWith]

/-- A name that continues the qualified name of a top-level type speaks of that type. -/
theorem ofBinaryName_qualified {segments : List (List Char)} {simple rest : String}
    (hsegments : ∀ s ∈ segments, isIdentifier s = true)
    (hsimple : isIdentifier simple.toList = true)
    (hrest : ContinuesName rest) :
    ofBinaryName (qualified ⟨String.ofList (joinWith '.' segments), simple⟩ ++ rest) =
      .ok ⟨String.ofList (joinWith '.' segments), simple⟩ := by
  have hall : ∀ s ∈ segments ++ [simple.toList], isIdentifier s = true := by
    intro s hs
    rcases List.mem_append.1 hs with hs | hs
    · exact hsegments s hs
    · rwa [List.mem_singleton.1 hs]
  have hnotSeparator {c : Char} (hc : inRanges separatorRanges c = true) (hdot : c ≠ '.') :
      c ∉ joinWith '.' (segments ++ [simple.toList]) := by
    intro hmem
    rcases mem_joinWith hmem with rfl | ⟨s, hs, hcs⟩
    · exact hdot rfl
    · exact notMem_of_inRanges (hall s hs) hc hcs
  have hblank : ∀ c ∈ joinWith '.' (segments ++ [simple.toList]), isBlank c = false := by
    intro c hc
    rcases mem_joinWith hc with rfl | ⟨s, hs, hcs⟩
    · decide
    · exact not_isBlank_of_mem (hall s hs) hcs
  have hne : joinWith '.' (segments ++ [simple.toList]) ≠ [] :=
    joinWith_ne_nil (by simp) fun s hs ↦ ne_nil_of_isIdentifier (hall s hs)
  obtain ⟨rest', hrest', htrim⟩ := exists_trimBlanks_append hne hblank rest.toList
  have hcontinues : rest' = [] ∨ rest'.head? = some '$' := by
    obtain ⟨tail, htail⟩ := hrest'
    cases rest' with
    | nil => exact Or.inl rfl
    | cons c cs =>
      right
      rcases hrest with hnil | hhead
      · simp [hnil] at htail
      · simpa [← htail] using hhead
  have htext : (qualified ⟨String.ofList (joinWith '.' segments), simple⟩ ++ rest).toList =
      joinWith '.' (segments ++ [simple.toList]) ++ rest.toList := by
    rw [String.toList_append, toList_qualified fun s hs ↦ ne_nil_of_isIdentifier (hsegments s hs)]
  have houter :=
    takeWhile_append_dollar (hnotSeparator (c := '$') (by decide) (by decide)) hcontinues
  refine ofBinaryName_eq_ok_iff.2 (ofBinaryName?_eq_some_iff.2
    ⟨segments, simple.toList, hall, ?_, by simp⟩)
  rw [htext, htrim, houter]

end TypeName

/-! ## Names in a top-level type -/

namespace DeclarationTree

/-- The node at `id` lies in a top-level type with the simple name `name`. -/
def InTopLevel (t : DeclarationTree) (id : Nat) (name : String) : Prop :=
  ∃ top d, (t.chain id).getLast? = some top ∧ t.declaration? top = some d ∧ d.kind = .type ∧
    d.isAnonymous = false ∧ d.simpleName = some name

theorem InTopLevel.inNamedType {t : DeclarationTree} {id : Nat} {name : String}
    (h : t.InTopLevel id name) : t.InNamedType id := by
  obtain ⟨top, d, hlast, hd, hk, hanonymous, -⟩ := h
  exact ⟨top, d, hlast, hd, hk, hanonymous⟩

/-- A chain ends below the root. -/
theorem Rooted.parent?_of_getLast? {t : DeclarationTree} (h : t.Rooted) {id top : Nat}
    (hlast : (t.chain id).getLast? = some top) : t.parent? top = some 0 := by
  have hid := lt_size_of_chain_ne_nil (List.ne_nil_of_mem (List.mem_of_getLast? hlast))
  revert hlast
  refine h.induction (motive := fun id ↦ (t.chain id).getLast? = some top →
    t.parent? top = some 0) ?_ ?_ hid
  · intro hlast
    rw [h.chain_root] at hlast
    cases hlast
  · intro id p hp ih hlast
    rw [h.chain_child hp] at hlast
    rcases Nat.eq_zero_or_pos p with rfl | hpos
    · rw [h.chain_root, List.getLast?_singleton, Option.some.injEq] at hlast
      exact hlast ▸ hp
    · have hmem := h.mem_chain_self hpos ((parent?_lt hp).trans (lt_size_of_parent? hp))
      rw [List.getLast?_cons_of_ne_nil (List.ne_nil_of_mem hmem)] at hlast
      exact ih hlast

theorem typesInward_of_getLast? {t : DeclarationTree} {id top : Nat}
    (hlast : (t.chain id).getLast? = some top) (htype : t.isType top = true) :
    ∃ inner, t.typesInward id = top :: inner := by
  obtain ⟨front, hfront⟩ := List.getLast?_eq_some_iff.1 hlast
  refine ⟨(front.filter t.isType).reverse, ?_⟩
  rw [typesInward, hfront, List.filter_append, List.filter_cons_of_pos htype]
  simp

/-- Segments only continue a name. -/
theorem foldl_segment_continues (t : DeclarationTree) (start : String) (inner : List Nat) :
    ∃ rest, ContinuesName rest ∧
      inner.foldl (fun name i ↦ name ++ "$" ++ t.segment i) start = start ++ rest := by
  induction inner generalizing start with
  | nil => exact ⟨"", Or.inl rfl, by simp⟩
  | cons i inner ih =>
    obtain ⟨rest, -, hrest⟩ := ih (start ++ "$" ++ t.segment i)
    refine ⟨"$" ++ t.segment i ++ rest, continuesName_segment _ _, ?_⟩
    rw [List.foldl_cons, hrest]
    simp only [String.append_assoc]

theorem Rooted.mem_topLevelTypes_iff {t : DeclarationTree} (h : t.Rooted) {id : Nat} :
    id ∈ t.topLevelTypes ↔ t.parent? id = some 0 ∧ t.isType id = true := by
  obtain ⟨root, hroot⟩ := exists_node?_of_lt (t := t) t.nodes_pos
  have hmem := h.mem_childIds_iff 0 id
  rw [childIds, hroot] at hmem
  rw [topLevelTypes, hroot, ← hmem]
  exact List.mem_filter

end DeclarationTree

namespace Java

open DeclarationTree

section TopLevel

variable {package : String} {t : DeclarationTree} (h : WellNamed package t) {id : Nat}
  {name : String} (hin : t.InTopLevel id name)
include h hin

/-- The top-level type around a node goes by its package and its simple name. -/
theorem WellNamed.exists_topLevel : ∃ top node, (t.chain id).getLast? = some top ∧
    t.parent? top = some 0 ∧ t.isType top = true ∧ t.node? top = some node ∧
    node.qualifiedName = some (TypeName.qualified ⟨package, name⟩) := by
  obtain ⟨top, d, hlast, hd, hk, hanonymous, hname⟩ := hin
  have hp := h.parent?_of_getLast? hlast
  have htype : t.isType top = true := by simp [isType_eq, hd, hk]
  obtain ⟨name', hname', -, hqualified⟩ := h.top_of_child_root hp hd hk hanonymous
  obtain rfl := Option.some.inj (hname.symm.trans hname')
  obtain ⟨node, hnode, rfl⟩ := Option.map_eq_some_iff.1 hd
  exact ⟨top, node, hlast, hp, htype, hnode, hqualified⟩

/-- What lies in a top-level type has a name that continues the qualified name of the type. -/
theorem WellNamed.exists_binaryName : ∃ rest, ContinuesName rest ∧
    t.binaryName ⟨id, t.chain id⟩ = TypeName.qualified ⟨package, name⟩ ++ rest := by
  obtain ⟨top, node, hlast, -, htype, hnode, hqualified⟩ := h.exists_topLevel hin
  obtain ⟨inner, hinner⟩ := typesInward_of_getLast? hlast htype
  have hown : t.qualifiedName? top = some (TypeName.qualified ⟨package, name⟩) := by
    simp [qualifiedName?, declaration?_eq_of_node? hnode, hqualified]
  rw [h.binaryName_chain hin.inNamedType, placedName, hinner]
  simp only [hown, Option.getD_some]
  exact foldl_segment_continues t _ inner

/-- The tree of a file lists the top-level type around each of its nodes. -/
theorem WellNamed.any_topLevelTypes : (t.topLevelTypes.any fun top ↦
    (t.node? top).any fun node ↦
      node.qualifiedName = some (TypeName.qualified ⟨package, name⟩)) = true := by
  obtain ⟨top, node, -, hp, htype, hnode, hqualified⟩ := h.exists_topLevel hin
  exact List.any_eq_true.2 ⟨top, h.mem_topLevelTypes_iff.2 ⟨hp, htype⟩, by simp [hnode, hqualified]⟩

end TopLevel

section Qualified

variable {package : String} {t : DeclarationTree} (h : WellNamed package t) {id : Nat}
  (hid : id ∈ t.topLevelTypes) {own : String} (hown : t.qualifiedName? id = some own)
include h hid hown

/-- A top-level type with a qualified name is neither anonymous nor local, and the package is in its
name. -/
theorem WellNamed.qualified_of_mem_topLevelTypes :
    ∃ d name, t.declaration? id = some d ∧ d.kind = .type ∧ d.isAnonymous = false ∧
      d.isLocal = false ∧ own = TypeName.qualified ⟨package, name⟩ := by
  obtain ⟨hp, htype⟩ := h.mem_topLevelTypes_iff.1 hid
  obtain ⟨d, hd, hqualified⟩ := Option.bind_eq_some_iff.1 hown
  have hk : d.kind = .type := by simpa [isType_eq, hd] using htype
  cases hanonymous : d.isAnonymous with
  | true =>
    obtain ⟨-, -, hname⟩ := (h.fits id d hd hk).anonymous hanonymous
    rw [hname, h.enclosingName?_child_root hp] at hqualified
    cases hqualified
  | false =>
    obtain ⟨name, -, hlocal, hname⟩ := h.top_of_child_root hp hd hk hanonymous
    exact ⟨d, name, hd, hk, hanonymous, hlocal, Option.some.inj (hqualified.symm.trans hname)⟩

/-- The binary name of a top-level type is its qualified name. -/
theorem WellNamed.binaryName_of_mem_topLevelTypes : t.binaryName ⟨id, t.chain id⟩ = own := by
  obtain ⟨hp, htype⟩ := h.mem_topLevelTypes_iff.1 hid
  obtain ⟨d, -, hd, hk, hanonymous, -⟩ := h.qualified_of_mem_topLevelTypes hid hown
  have hchain : t.chain id = [id] := by rw [h.chain_child hp, h.chain_root]
  have hin : t.InNamedType id := ⟨id, d, by simp [hchain], hd, hk, hanonymous⟩
  have hnil : t.typesInward 0 = [] := by simp [typesInward, h.chain_root]
  rw [h.binaryName_chain hin, h.placedName_of_outermost hp htype hnil, hown, Option.getD_some]

end Qualified

end Java

end BinaryNames
