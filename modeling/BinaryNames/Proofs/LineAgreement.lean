import BinaryNames.Proofs.Java.Outline
import BinaryNames.Proofs.Java.ParseTree
import BinaryNames.Proofs.Naming.Segments
import BinaryNames.Query

/-!
# Lines and the Types on Them

The type on a line is found by probing the offsets of the line, and the lines of a type by looking
up the first and the last byte of its span.  The two agree: a declaration covers an offset of a line
exactly when the line is among its lines, since no declaration starts in a terminator.  This is all
that is asked of a tree besides nesting, so that it may come from any parser.
-/

namespace BinaryNames

namespace Query

open DeclarationTree

theorem mem_summaries_iff {t : DeclarationTree} {lines : Lines} {entry : TypeSummary} :
    entry ∈ summaries t lines ↔ ∃ id node, t.node? id = some node ∧ node.kind = .type ∧
      entry = TypeSummary.ofNode t lines id node := by
  rw [summaries, List.mem_filterMap]
  constructor
  · rintro ⟨⟨node, id⟩, hmem, hentry⟩
    rw [List.mem_zipIdx_iff_getElem?] at hmem
    dsimp only at hentry
    split at hentry
    · next hk => exact ⟨id, node, by simpa [node?] using hmem, hk, (Option.some.inj hentry).symm⟩
    · cases hentry
  · rintro ⟨id, node, hnode, hk, rfl⟩
    refine ⟨(node, id), ?_, if_pos hk⟩
    rw [List.mem_zipIdx_iff_getElem?]
    simpa [node?] using hnode

section Lines

variable {bytes : ByteArray} (hsize : bytes.size ≤ maxOffset) {t : DeclarationTree}
  (h : Java.Laid (Lines.IsText bytes) t) {i : Nat} {s : Span}
  (hs : (Lines.ofBytes bytes).spans[i]? = some s)
include hsize h hs

/-- A line is one of those of a declaration exactly when the declaration covers an offset of it. -/
theorem onLine_iff {id : Nat} {node : DeclarationNode} (hpos : 0 < id)
    (hnode : t.node? id = some node) :
    ((TypeSummary.ofNode t (.ofBytes bytes) id node).firstLine ≤ i + 1 ∧
        i + 1 ≤ (TypeSummary.ofNode t (.ofBytes bytes) id node).lastLine) ↔
      ∃ k, s.offset ≤ k ∧ k ≤ s.stop ∧ t.covers k id = true := by
  have hspan : t.spanAt id = node.span := by simp [spanAt, declaration?, hnode]
  obtain ⟨⟨hstart, htext⟩, hnonempty⟩ := h.starts id hpos (lt_size_of_node? hnode)
  rw [hspan] at hstart htext hnonempty
  have hlast : max (node.span.stop - 1) node.span.offset = node.span.stop - 1 := by omega
  simp only [TypeSummary.ofNode, hlast, covers_iff, hspan, lt_size_of_node? hnode, true_and]
  constructor
  · rintro ⟨hfirst, hend⟩
    by_cases hbefore : s.offset ≤ node.span.offset
    · -- the declaration starts on the line
      have hlower := (Lines.lt_lineOf_iff hsize hs node.span.offset).2 hbefore
      have hstop := Lines.lt_stop_of_lineOf hsize hs (by omega) hstart htext
      exact ⟨node.span.offset, hbefore, hstop.le, le_rfl, hnonempty⟩
    · have hreach := (Lines.lt_lineOf_iff hsize hs (node.span.stop - 1)).1 hend
      exact ⟨s.offset, le_rfl, Lines.offset_le_stop hsize hs, by omega, by omega⟩
  · rintro ⟨k, hlower, hupper, hoffset, hstop⟩
    have hline := Lines.lineOf_eq hsize hs hlower hupper
    constructor
    · rw [← hline]
      exact Lines.lineOf_mono _ hoffset
    · exact (Lines.lt_lineOf_iff hsize hs _).2 (by omega)

end Lines

theorem exists_typeAround {t : DeclarationTree} (h : t.Rooted)
    (htop : ∀ c, t.parent? c = some 0 → t.isType c = true) {id : Nat} (hpos : 0 < id)
    (hid : id < t.size) : ∃ e, t.typeAround? id = some e := by
  revert hpos
  refine h.induction (motive := fun id ↦ 0 < id → ∃ e, t.typeAround? id = some e) ?_ ?_ hid
  · intro hpos
    exact absurd hpos (Nat.lt_irrefl 0)
  · intro id p hp ih _
    rw [h.typeAround?_child hp]
    split
    · exact ⟨id, rfl⟩
    · next htype =>
      apply ih
      apply Nat.pos_of_ne_zero
      rintro rfl
      exact htype (htop id hp)

section Search

variable {bytes : ByteArray} (hsize : bytes.size ≤ maxOffset) {t : DeclarationTree}
  (h : Java.Laid (Lines.IsText bytes) t) (htop : ∀ c, t.parent? c = some 0 → t.isType c = true)
  {i : Nat} {s : Span} (hs : (Lines.ofBytes bytes).spans[i]? = some s)
include hsize h htop hs

/-- What is found on a line belongs to a type on the line, inside every type that covers the start
of the line. -/
theorem exists_summary_of_find? {found : Found} (hfound : t.find? s.offset s.stop = some found) :
    ∃ e node, t.node? e = some node ∧ node.kind = .type ∧
      (TypeSummary.ofNode t (.ofBytes bytes) e node).binaryName = t.binaryName found ∧
      (TypeSummary.ofNode t (.ofBytes bytes) e node).firstLine ≤ i + 1 ∧
      i + 1 ≤ (TypeSummary.ofNode t (.ofBytes bytes) e node).lastLine ∧
      ∀ u, t.isType u = true → t.covers s.offset u = true → u ∈ t.chain e := by
  obtain ⟨id, hprobe, rfl⟩ := Option.map_eq_some_iff.1 hfound
  obtain ⟨k, hlower, hupper, hhit⟩ := exists_hit?_of_probe hprobe
  rw [max_eq_right (Lines.offset_le_stop hsize hs)] at hupper
  obtain ⟨hid, hpos⟩ := hit?_eq_some_iff.1 hhit
  obtain ⟨e, he⟩ := exists_typeAround h.toRooted htop hpos (hid ▸ h.elementAt_lt_size k)
  have hmem : e ∈ t.chain (t.elementAt k) := by
    rw [hid]
    exact List.mem_of_find?_eq_some he
  obtain ⟨hepos, hcovers⟩ := h.mem_chain_elementAt_iff.1 hmem
  obtain ⟨node, hnode⟩ := exists_node?_of_lt (lt_size_of_mem_chain hmem)
  have htype : t.isType e = true := List.find?_some (p := t.isType) he
  have hk : node.kind = .type := by simpa [isType, hnode] using htype
  obtain ⟨hfirst, hlast⟩ :=
    (onLine_iff hsize h hs hepos hnode).2 ⟨k, hlower, hupper, hcovers⟩
  refine ⟨e, node, hnode, hk, (h.binaryName_typeAround he).symm, hfirst, hlast, ?_⟩
  intro u hu hcover
  -- a type at the start of the line is hit first
  have hupos := h.pos_of_isType hu
  obtain ⟨id', hid'⟩ := Option.isSome_iff_exists.1 (h.hit?_isSome_of_covers hupos hcover)
  obtain rfl := Option.some.inj ((probe_of_hit? hid' s.stop).symm.trans hprobe)
  have huchain := h.mem_chain_elementAt_iff.2 ⟨hupos, hcover⟩
  rw [(hit?_eq_some_iff.1 hid').1] at huchain
  exact h.mem_chain_typeAround he huchain hu

/-- Nothing is found on a line exactly when it is not among the lines of a type. -/
theorem find?_eq_none_iff : t.find? s.offset s.stop = none ↔
    ∀ entry ∈ summaries t (.ofBytes bytes),
      ¬(entry.firstLine ≤ i + 1 ∧ i + 1 ≤ entry.lastLine) := by
  constructor
  · intro hnone entry hentry hline
    obtain ⟨id, node, hnode, hk, rfl⟩ := mem_summaries_iff.1 hentry
    have hpos : 0 < id := h.pos_of_isType (by simpa [isType, hnode] using hk)
    obtain ⟨k, hlower, hupper, hcovers⟩ := (onLine_iff hsize h hs hpos hnode).1 hline
    have hmiss := hit?_eq_none_of_probe (Option.map_eq_none_iff.1 hnone) hlower hupper
    have hhit := h.hit?_isSome_of_covers hpos hcovers
    rw [hmiss] at hhit
    cases hhit
  · intro hnone
    cases hfound : t.find? s.offset s.stop with
    | none => rfl
    | some found =>
      obtain ⟨e, node, hnode, hk, -, hfirst, hlast, -⟩ :=
        exists_summary_of_find? hsize h htop hs hfound
      exact absurd ⟨hfirst, hlast⟩ (hnone _ (mem_summaries_iff.2 ⟨e, node, hnode, hk, rfl⟩))

end Search

/-- A tree that is grown from an outline or a parse tree of the source, in which declarations are
nested and none starts in a line terminator. -/
inductive NestedTree (source : String) : DeclarationTree → Prop
  | outline (outline : Java.Outline) (suggested : Option String)
      (hsize : source.utf8ByteSize ≤ maxOffset)
      (hnested : Java.NestedAll (Lines.IsText source.toUTF8) 0 source.utf8ByteSize outline.parts) :
      NestedTree source (outline.declarations source.utf8ByteSize suggested)
  | parseTree (root : Java.ParseNode) (suggested : Option String)
      (hsize : source.utf8ByteSize ≤ maxOffset) (hcomplete : root.isComplete source = true)
      (hnested : Java.NestedAll (Lines.IsText source.toUTF8) 0 source.utf8ByteSize
        (root.outline source).parts) :
      NestedTree source (root.declarations source suggested)

theorem NestedTree.laid {source : String} {t : DeclarationTree} (h : NestedTree source t) :
    source.toUTF8.size ≤ maxOffset ∧ Java.Laid (Lines.IsText source.toUTF8) t := by
  cases h with
  | outline outline suggested hsize hnested =>
    exact ⟨hsize, Java.laid_declarations _ hsize suggested hnested⟩
  | parseTree root suggested hsize hcomplete hnested =>
    rw [Java.ParseNode.declarations_eq hcomplete]
    exact ⟨hsize, Java.laid_declarations _ hsize suggested hnested⟩

/-- Every tree that is read from a file is that of the file's outline, which is nested. -/
theorem nestedTree_of_declarations {file : Path} {source : String} {suggested : Option String}
    {t : DeclarationTree} (h : Java.declarations file source suggested = .ok t) :
    NestedTree source t := by
  obtain ⟨hsize, -, rfl⟩ := Java.declarations_eq_ok_iff.1 h
  have hmax : source.utf8ByteSize ≤ maxOffset := hsize.trans (by decide)
  exact .outline _ suggested hmax (Java.nestedAll_ofSource hmax)

/-- A parse tree with the outline of the source is nested as well. -/
theorem nestedTree_of_outline_eq {source : String} {root : Java.ParseNode}
    (hsize : source.utf8ByteSize ≤ maxOffset) (hcomplete : root.isComplete source = true)
    (houtline : root.outline source = Java.Outline.ofSource source) (suggested : Option String) :
    NestedTree source (root.declarations source suggested) := by
  refine .parseTree root suggested hsize hcomplete ?_
  rw [houtline]
  exact Java.nestedAll_ofSource hsize

theorem laid_of_declarations {file : Path} {source : String} {suggested : Option String}
    {t : DeclarationTree} (h : Java.declarations file source suggested = .ok t) :
    source.toUTF8.size ≤ maxOffset ∧ Java.Laid (Lines.IsText source.toUTF8) t :=
  (nestedTree_of_declarations h).laid

/-- The search for the type on a line and the list of types agree on every line of a source whose
top-level declarations are types: for every nested tree, and so for every tree that is read from a
file. -/
theorem find?_agrees_with_summaries {source : String} :
    (∀ file suggested t, Java.declarations file source suggested = .ok t → NestedTree source t) ∧
    ∀ t, NestedTree source t → (∀ c, t.parent? c = some 0 → t.isType c = true) →
      ∀ line : Nat, 1 ≤ line → line ≤ (Lines.ofText source).count →
        ∃ s, (Lines.ofText source).span? line = some s ∧
          (t.find? s.offset s.stop = none ↔ ∀ entry ∈ summaries t (.ofText source),
            ¬(entry.firstLine ≤ line ∧ line ≤ entry.lastLine)) ∧
          ∀ found, t.find? s.offset s.stop = some found →
            ∃ e node, t.node? e = some node ∧
              TypeSummary.ofNode t (.ofText source) e node ∈ summaries t (.ofText source) ∧
              (TypeSummary.ofNode t (.ofText source) e node).binaryName = t.binaryName found ∧
              (TypeSummary.ofNode t (.ofText source) e node).firstLine ≤ line ∧
              line ≤ (TypeSummary.ofNode t (.ofText source) e node).lastLine ∧
              ∀ u, t.isType u = true → t.covers s.offset u = true → u ∈ t.chain e := by
  refine ⟨fun file suggested t ↦ nestedTree_of_declarations, ?_⟩
  intro t ht htop line hpos hcount
  obtain ⟨hsize, hlaid⟩ := ht.laid
  obtain ⟨i, rfl⟩ : ∃ i, line = i + 1 := ⟨line - 1, by omega⟩
  have hi : i < (Lines.ofText source).spans.size := hcount
  have hs := Array.getElem?_eq_getElem hi
  refine ⟨_, (Lines.span?_succ _ i).trans hs, find?_eq_none_iff hsize hlaid htop hs, ?_⟩
  intro found hfound
  obtain ⟨e, node, hnode, hk, hname, hfirst, hlast, htypes⟩ :=
    exists_summary_of_find? hsize hlaid htop hs hfound
  exact ⟨e, node, hnode, mem_summaries_iff.2 ⟨e, node, hnode, hk, rfl⟩, hname, hfirst, hlast,
    htypes⟩

/-- Three types with a blank line after the first and a single blank between the others. -/
def threeTypes : String := "class A \x7b\x7d\r\n\r\nclass B \x7b\x7d class C \x7b\r\n\x7d"

def threeTypesOutline : Java.Outline :=
  ⟨none, [.type ⟨0, 10⟩ "A" [] [], .type ⟨14, 10⟩ "B" [] [], .type ⟨25, 12⟩ "C" [] []]⟩

theorem ofSource_threeTypes : Java.Outline.ofSource threeTypes = threeTypesOutline := by
  have htokens : Java.Token.ofSource? threeTypes = some
      [.word ⟨0, 5⟩ "class", .word ⟨6, 1⟩ "A", .group ⟨8, 2⟩ .curly [],
        .word ⟨14, 5⟩ "class", .word ⟨20, 1⟩ "B", .group ⟨22, 2⟩ .curly [],
        .word ⟨25, 5⟩ "class", .word ⟨31, 1⟩ "C", .group ⟨33, 4⟩ .curly []] := by rfl
  unfold Java.Outline.ofSource
  rw [htokens]
  cbv

theorem declarations_threeTypes : Java.declarations (.ofString "A.java") threeTypes none =
    .ok (threeTypesOutline.declarations 37 none) :=
  Java.declarations_eq_ok_iff.2 ⟨by decide, by decide, by rw [ofSource_threeTypes]; rfl⟩

/-- A class with a name of one letter and nothing in its body. -/
def classNode (id start name body stop : Nat) : Java.ParseNode :=
  .mk id "class_declaration" true none start stop
    [.mk (id + 1) "class" false none start (start + 5) [],
      .mk (id + 2) "identifier" true (some "name") name (name + 1) [],
      .mk (id + 3) "class_body" true (some "body") body stop []]

theorem part_classNode {source text : String} {id start name body stop : Nat}
    (hname : (classNode id start name body stop).fieldText? source "name" = some text) :
    (classNode id start name body stop).part source =
      .type (classNode id start name body stop).span text [] [] := by
  have hbody : (classNode id start name body stop).bodyChildren = [] := rfl
  rw [Java.ParseNode.part_of_namedType rfl hname, hbody, Java.ParseNode.parts]

/-- The three types as a parser gives them. -/
def threeTypesTree : Java.ParseNode :=
  .mk 0 "program" true none 0 37
    [classNode 1 0 6 8 10, classNode 5 14 20 22 24, classNode 9 25 31 33 37]

theorem isComplete_threeTypesTree : threeTypesTree.isComplete threeTypes = true := by
  decide +kernel

theorem outline_threeTypesTree : threeTypesTree.outline threeTypes = threeTypesOutline := by
  have hpackage : threeTypesTree.declaredPackage? threeTypes = none := by decide +kernel
  have hchildren : threeTypesTree.namedChildren =
      [classNode 1 0 6 8 10, classNode 5 14 20 22 24, classNode 9 25 31 33 37] := rfl
  have hA : (classNode 1 0 6 8 10).fieldText? threeTypes "name" = some "A" := by decide +kernel
  have hB : (classNode 5 14 20 22 24).fieldText? threeTypes "name" = some "B" := by decide +kernel
  have hC : (classNode 9 25 31 33 37).fieldText? threeTypes "name" = some "C" := by decide +kernel
  rw [Java.ParseNode.outline, hpackage, hchildren]
  simp only [Java.ParseNode.parts, part_classNode hA, part_classNode hB, part_classNode hC]
  rfl

theorem declarations_threeTypesTree : threeTypesTree.declarations threeTypes none =
    threeTypesOutline.declarations 37 none := by
  rw [Java.ParseNode.declarations_eq isComplete_threeTypesTree, outline_threeTypesTree]
  rfl

/-- The tree of a parser is the tree that is read from the file.  The second line belongs to no
type, and the third one to `B`. -/
theorem find?_agrees_threeTypes :
    ∃ t, Java.declarations (.ofString "A.java") threeTypes none = .ok t ∧
      threeTypesTree.declarations threeTypes none = t ∧
      (∀ entry ∈ summaries t (.ofText threeTypes), ¬(entry.firstLine ≤ 2 ∧ 2 ≤ entry.lastLine)) ∧
      ∃ entry ∈ summaries t (.ofText threeTypes),
        entry.binaryName = "B" ∧ entry.firstLine ≤ 3 ∧ 3 ≤ entry.lastLine := by
  have htop : ∀ c, (threeTypesOutline.declarations 37 none).parent? c = some 0 →
      (threeTypesOutline.declarations 37 none).isType c = true := by
    intro c hc
    have hmem := ((Java.rooted_declarations threeTypesOutline 37 none).mem_childIds_iff 0 c).2 hc
    have hchildren : (threeTypesOutline.declarations 37 none).childIds 0 = [1, 2, 3] := by cbv
    have htypes : [1, 2, 3].all (threeTypesOutline.declarations 37 none).isType = true := by cbv
    exact List.all_eq_true.1 htypes c (hchildren ▸ hmem)
  have htree := nestedTree_of_outline_eq (by decide) isComplete_threeTypesTree
    (outline_threeTypesTree.trans ofSource_threeTypes.symm) none
  rw [declarations_threeTypesTree] at htree
  refine ⟨_, declarations_threeTypes, declarations_threeTypesTree, ?_, ?_⟩
  · obtain ⟨s, hs, hnone, -⟩ :=
      find?_agrees_with_summaries.2 _ htree htop 2 (by decide) (by decide)
    obtain rfl : (⟨12, 0⟩ : Span) = s := Option.some.inj hs
    exact hnone.1 (by cbv)
  · have hread := find?_agrees_with_summaries.1 _ _ _ declarations_threeTypes
    obtain ⟨s, hs, -, hsome⟩ :=
      find?_agrees_with_summaries.2 _ hread htop 3 (by decide) (by decide)
    obtain rfl : (⟨14, 20⟩ : Span) = s := Option.some.inj hs
    have hfind : (threeTypesOutline.declarations 37 none).find? 14 34 = some ⟨2, [2]⟩ := by cbv
    have hname : (threeTypesOutline.declarations 37 none).binaryName ⟨2, [2]⟩ = "B" := by cbv
    obtain ⟨e, node, -, hentry, hbinary, hfirst, hlast, -⟩ := hsome _ hfind
    exact ⟨_, hentry, hbinary.trans hname, hfirst, hlast⟩

end Query

end BinaryNames
