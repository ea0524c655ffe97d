import BinaryNames.Proofs.Java.Correspondence
import BinaryNames.Proofs.Java.Outline

/-!
# Source Order

The nodes of an outline are well nested when each stands inside the one around it and after the one
before it.  A node may be empty, and a host has no span of its own: its class body stands after its
arguments, which belong to the declaration around the host.  The declarations of a well nested
outline lie inside their parents, one after the other, and are numbered as they start.  The
declaration at an offset is therefore the innermost of those that cover it.
-/

namespace BinaryNames

/-- The span stands between two offsets. -/
structure Span.Within (lo hi : Nat) (s : Span) : Prop where
  lower : lo ≤ s.offset
  upper : s.offset + s.length ≤ hi

theorem Span.Within.mono {lo hi lo' hi' : Nat} {s : Span} (h : s.Within lo hi) (hlo : lo' ≤ lo)
    (hhi : hi ≤ hi') : s.Within lo' hi' :=
  ⟨hlo.trans h.lower, h.upper.trans hhi⟩

/-- Where the end of a span is an offset, it is not cut. -/
theorem Span.Within.stop_eq {lo hi : Nat} {s : Span} (h : s.Within lo hi) (hhi : hi ≤ maxOffset) :
    s.stop = s.offset + s.length :=
  min_eq_left (h.upper.trans hhi)

namespace Java

open DeclarationTree

/-- The span of a node, for those that have one of their own. -/
def SyntaxNode.span? : SyntaxNode → Option Span
  | part (.type span ..) => some span
  | part (.method span ..) => some span
  | part (.field span ..) => some span
  | part (.staticInitializer span _) => some span
  | part (.block span _) => some span
  | classBody span _ => some span
  | unit _ | part (.host ..) | part (.other _) => none

mutual

/-- The node stands between two offsets, and what it holds stands inside it. -/
inductive StandsIn : Nat → Nat → SyntaxNode → Prop where
  | spanned {lo hi : Nat} {node : SyntaxNode} {s : Span} (hspan : node.span? = some s)
    (hwithin : s.Within lo hi)
    (hcontents : InOrder s.offset (s.offset + s.length) node.contents) : StandsIn lo hi node
  | spanless {lo hi : Nat} {node : SyntaxNode} (hspan : node.span? = none)
    (hcontents : InOrder lo hi node.contents) : StandsIn lo hi node

/-- The nodes stand between two offsets, one after the other. -/
inductive InOrder : Nat → Nat → List SyntaxNode → Prop where
  | nil {lo hi : Nat} (hle : lo ≤ hi) : InOrder lo hi []
  | cons {lo mid hi : Nat} {node : SyntaxNode} {rest : List SyntaxNode}
    (hnode : StandsIn lo mid node) (hrest : InOrder mid hi rest) : InOrder lo hi (node :: rest)

end

/-- The outline of a source of `size` bytes is well nested. -/
def Outline.WellNested (outline : Outline) (size : Nat) : Prop :=
  InOrder 0 size (outline.parts.map .part)

mutual

theorem StandsIn.le {lo hi : Nat} {node : SyntaxNode} : StandsIn lo hi node → lo ≤ hi
  | .spanned _ hwithin hcontents => hwithin.lower.trans (hcontents.le.trans hwithin.upper)
  | .spanless _ hcontents => hcontents.le

theorem InOrder.le {lo hi : Nat} {nodes : List SyntaxNode} : InOrder lo hi nodes → lo ≤ hi
  | .nil hle => hle
  | .cons hnode hrest => hnode.le.trans hrest.le

end

mutual

theorem StandsIn.mono {lo lo' hi : Nat} {node : SyntaxNode} (hlo : lo' ≤ lo) :
    StandsIn lo hi node → StandsIn lo' hi node
  | .spanned hspan hwithin hcontents => .spanned hspan (hwithin.mono hlo le_rfl) hcontents
  | .spanless hspan hcontents => .spanless hspan (hcontents.mono hlo)

theorem InOrder.mono {lo lo' hi : Nat} {nodes : List SyntaxNode} (hlo : lo' ≤ lo) :
    InOrder lo hi nodes → InOrder lo' hi nodes
  | .nil hle => .nil (hlo.trans hle)
  | .cons hnode hrest => .cons (hnode.mono hlo) hrest

end

/-- A node that lies in its bounds, as a part that holds parts does. -/
theorem standsIn_of_liesIn {starts : Nat → Prop} {lo hi : Nat} {node : SyntaxNode} {s : Span}
    {parts : List Part} (hspan : node.span? = some s) (hcontents : node.contents = parts.map .part)
    (hlies : s.LiesIn starts lo hi) (hhi : hi < maxOffset)
    (hparts : InOrder s.offset s.stop (parts.map .part)) : StandsIn lo hi node := by
  have hstop : s.stop = s.offset + s.length := by
    have := hlies.upper
    unfold Span.stop at *
    omega
  rw [hstop, ← hcontents] at hparts
  exact .spanned hspan ⟨hlies.lower, hstop ▸ hlies.upper⟩ hparts

theorem InOrder.concat {lo mid hi : Nat} {nodes : List SyntaxNode} {node : SyntaxNode}
    (h : InOrder lo mid nodes) (hnode : StandsIn mid hi node) :
    InOrder lo hi (nodes ++ [node]) := by
  induction nodes generalizing lo with
  | nil =>
    cases h with
    | nil hle => exact .cons (hnode.mono hle) (.nil le_rfl)
  | cons first rest ih =>
    cases h with
    | cons hfirst hrest => exact .cons hfirst (ih hrest)

mutual

theorem Part.NestedIn.standsIn {starts : Nat → Prop} {lo hi : Nat} (part : Part)
    (h : part.NestedIn starts lo hi) (hhi : hi < maxOffset) : StandsIn lo hi (.part part) := by
  cases part with
  | type span name header members =>
    rw [Part.NestedIn] at h
    exact standsIn_of_liesIn rfl (SyntaxNode.contents_type ..) h.1 hhi
      (NestedAll.inOrder members h.2 (h.1.upper.trans_lt hhi))
  | method span name header body =>
    rw [Part.NestedIn] at h
    exact standsIn_of_liesIn rfl (SyntaxNode.contents_method ..) h.1 hhi
      (NestedAll.inOrder body h.2 (h.1.upper.trans_lt hhi))
  | field _ _ parts | staticInitializer _ parts | block _ parts =>
    rw [Part.NestedIn] at h
    exact standsIn_of_liesIn rfl rfl h.1 hhi
      (NestedAll.inOrder parts h.2 (h.1.upper.trans_lt hhi))
  | host arguments body members =>
    rw [Part.NestedIn] at h
    obtain ⟨harguments, hbody, hmembers⟩ := h
    have hstop := hbody.upper.trans_lt hhi
    have hclass : StandsIn body.offset hi (.classBody body members) :=
      standsIn_of_liesIn rfl rfl hbody hhi (NestedAll.inOrder members hmembers hstop)
    exact .spanless rfl
      ((NestedAll.inOrder arguments harguments (hbody.nonempty.trans hstop)).concat hclass)
  | other parts =>
    rw [Part.NestedIn] at h
    exact .spanless rfl (NestedAll.inOrder parts h hhi)

theorem NestedAll.inOrder {starts : Nat → Prop} {lo hi : Nat} (parts : List Part)
    (h : NestedAll starts lo hi parts) (hhi : hi < maxOffset) :
    InOrder lo hi (parts.map .part) := by
  cases parts with
  | nil =>
    rw [NestedAll] at h
    exact .nil h
  | cons part rest =>
    rw [NestedAll] at h
    obtain ⟨mid, hpart, hrest⟩ := h
    exact .cons (Part.NestedIn.standsIn part hpart (hrest.le.trans_lt hhi))
      (NestedAll.inOrder rest hrest hhi)

end

/-- The outline of a source that is read is well nested. -/
theorem wellNested_ofSource {source : String} (hsize : source.utf8ByteSize ≤ maxSourceSize) :
    (Outline.ofSource source).WellNested source.utf8ByteSize := by
  have hmax : source.utf8ByteSize < maxOffset := hsize.trans_lt (by decide)
  exact NestedAll.inOrder _ (nestedAll_ofSource hmax.le) hmax

/-! ## Places -/

theorem SyntaxNode.span?_of_declared? {inBody : Bool} {node : SyntaxNode} {d : Declaration}
    (h : node.declared? inBody = some d) : node.span? = some d.span := by
  cases node with
  | unit => cases h
  | classBody =>
    cases h
    rfl
  | part p =>
    cases p with
    | type | method | field | staticInitializer =>
      cases h
      rfl
    | block =>
      cases inBody with
      | true =>
        cases h
        rfl
      | false => cases h
    | host | other => cases h

/-- How a place stands to one that is listed after it: around it, or in front of it. -/
structure Site.Precedes (s s' : Site) : Prop where
  around : s.address <+: s'.address → s'.declaration.span.Within s.declaration.span.offset
    (s.declaration.span.offset + s.declaration.span.length)
  inFront : ¬s.address <+: s'.address →
    s.declaration.span.offset + s.declaration.span.length ≤ s'.declaration.span.offset

theorem Site.Precedes.offset_le {s s' : Site} (h : s.Precedes s') :
    s.declaration.span.offset ≤ s'.declaration.span.offset := by
  by_cases habove : s.address <+: s'.address
  · exact (h.around habove).lower
  · exact (Nat.le_add_right _ _).trans (h.inFront habove)

/-- The places stand between two offsets and are listed as they stand. -/
structure LaidOut (lo hi : Nat) (sites : List Site) : Prop where
  within : ∀ s ∈ sites, s.declaration.span.Within lo hi
  pairwise : sites.Pairwise Site.Precedes

theorem laidOut_nil (lo hi : Nat) : LaidOut lo hi [] :=
  ⟨by simp, List.Pairwise.nil⟩

/-- A declaration goes around the places below its address. -/
theorem LaidOut.cons {lo hi : Nat} {address : List Nat} {d : Declaration} {sites : List Site}
    (hwithin : d.span.Within lo hi)
    (h : LaidOut d.span.offset (d.span.offset + d.span.length) sites)
    (hbelow : ∀ s ∈ sites, address <+: s.address) : LaidOut lo hi (⟨address, d⟩ :: sites) where
  within := by
    rw [List.forall_mem_cons]
    exact ⟨hwithin, fun s hs ↦ (h.within s hs).mono hwithin.lower hwithin.upper⟩
  pairwise := by
    refine List.pairwise_cons.2 ⟨fun s hs ↦ ?_, h.pairwise⟩
    exact ⟨fun _ ↦ h.within s hs, fun hnot ↦ absurd (hbelow s hs) hnot⟩

/-- The places of one child go in front of those of the next. -/
theorem LaidOut.append {lo mid hi : Nat} {first second : List Site} (hlo : lo ≤ mid)
    (hhi : mid ≤ hi) (h : LaidOut lo mid first) (h' : LaidOut mid hi second)
    (hapart : ∀ s ∈ first, ∀ s' ∈ second, ¬s.address <+: s'.address) :
    LaidOut lo hi (first ++ second) where
  within := by
    rw [List.forall_mem_append]
    exact ⟨fun s hs ↦ (h.within s hs).mono le_rfl hhi, fun s hs ↦ (h'.within s hs).mono hlo le_rfl⟩
  pairwise := by
    refine List.pairwise_append.2 ⟨h.pairwise, h'.pairwise, fun s hs s' hs' ↦ ?_⟩
    exact ⟨fun habove ↦ absurd habove (hapart s hs s' hs'),
      fun _ ↦ (h.within s hs).upper.trans (h'.within s' hs').lower⟩

mutual

theorem StandsIn.laidOut {lo hi : Nat} {node : SyntaxNode} : StandsIn lo hi node →
    ∀ (inBody : Bool) (address : List Nat), LaidOut lo hi (node.sites inBody address)
  | .spanned (s := s) hspan hwithin hcontents, inBody, address => by
    have hinner := hcontents.laidOut (node.holdsMembers inBody) address node.headerLength
    rw [SyntaxNode.sites_eq]
    cases hd : node.declared? inBody with
    | none =>
      exact ⟨fun s hs ↦ (hinner.within s hs).mono hwithin.lower hwithin.upper, hinner.pairwise⟩
    | some d =>
      obtain rfl : s = d.span :=
        Option.some.inj (hspan.symm.trans (SyntaxNode.span?_of_declared? hd))
      refine LaidOut.cons hwithin hinner fun s hs ↦ ?_
      obtain ⟨i, -, -, hbelow⟩ := exists_child_of_mem_sitesFrom hs
      exact (List.prefix_append _ _).trans hbelow
  | .spanless hspan hcontents, inBody, address => by
    have hinner := hcontents.laidOut (node.holdsMembers inBody) address node.headerLength
    have hnone : node.declared? inBody = none := by
      by_contra hsome
      obtain ⟨d, hd⟩ := Option.ne_none_iff_exists'.1 hsome
      rw [SyntaxNode.span?_of_declared? hd] at hspan
      cases hspan
    rw [SyntaxNode.sites_eq, hnone]
    exact hinner

theorem InOrder.laidOut {lo hi : Nat} {nodes : List SyntaxNode} : InOrder lo hi nodes →
    ∀ (inBody : Bool) (address : List Nat) (start : Nat),
      LaidOut lo hi (sitesFrom inBody address start nodes)
  | .nil _, _, _, _ => laidOut_nil lo hi
  | .cons hnode hrest, inBody, address, start => by
    have hfirst := hnode.laidOut inBody (address ++ [start])
    have hsecond := hrest.laidOut inBody address (start + 1)
    rw [sitesFrom]
    refine hfirst.append hnode.le hrest.le hsecond fun s hs s' hs' habove ↦ ?_
    obtain ⟨i, hi, -, hbelow⟩ := exists_child_of_mem_sitesFrom hs'
    have hstart := (SyntaxNode.prefix_of_mem_sites hs).trans habove
    have := child_eq_of_below hstart hbelow
    omega

end

theorem Outline.WellNested.laidOut {outline : Outline} {size : Nat} (h : outline.WellNested size) :
    LaidOut 0 size outline.sites :=
  InOrder.laidOut h false [] 0

/-! ## The tree -/

theorem spanAt_root (outline : Outline) {size : Nat} (hsize : size ≤ maxOffset)
    (suggested : Option String) : (outline.declarations size suggested).spanAt 0 = ⟨0, size⟩ := by
  simp [spanAt, declaration?_root, offsetOfSize, hsize]

/-- A tree of places whose root is the whole source. -/
structure Charted (sites : List Site) (size : Nat) (t : DeclarationTree) : Prop
    extends Sited sites t where
  laidOut : LaidOut 0 size sites
  root : t.spanAt 0 = ⟨0, size⟩

namespace Charted

variable {sites : List Site} {size : Nat} {t : DeclarationTree} (h : Charted sites size t)
include h

theorem spanAt_site {i : Nat} {s : Site} (hi : sites[i]? = some s) :
    t.spanAt (i + 1) = s.declaration.span := by
  obtain ⟨d, hd, hbare⟩ := Option.map_eq_some_iff.1 (h.bare_eq i s hi)
  simp [spanAt, hd, ← hbare]

theorem within {id : Nat} (hid : id < t.size) : (t.spanAt id).Within 0 size := by
  rcases Nat.eq_zero_or_pos id with rfl | hpos
  · rw [h.root]
    exact ⟨le_rfl, (Nat.zero_add size).le⟩
  · obtain ⟨i, s, rfl, hi⟩ := h.exists_site hpos hid
    rw [h.spanAt_site hi]
    exact h.laidOut.within s (List.mem_of_getElem? hi)

/-- Of two declarations the first is around the second or in front of it. -/
theorem around_or_inFront {x y : Nat} (hx : 0 < x) (hlt : x < y) (hy : y < t.size) :
    (x ∈ t.chain y → (t.spanAt y).Within (t.spanAt x).offset
      ((t.spanAt x).offset + (t.spanAt x).length)) ∧
    (x ∉ t.chain y → (t.spanAt x).offset + (t.spanAt x).length ≤ (t.spanAt y).offset) := by
  obtain ⟨i, s, rfl, hi⟩ := h.exists_site hx (hlt.trans hy)
  obtain ⟨j, s', rfl, hj⟩ := h.exists_site (hx.trans hlt) hy
  have hprecedes : s.Precedes s' := by
    obtain ⟨hilt, rfl⟩ := List.getElem?_eq_some_iff.1 hi
    obtain ⟨hjlt, rfl⟩ := List.getElem?_eq_some_iff.1 hj
    exact List.pairwise_iff_getElem.1 h.laidOut.pairwise i j hilt hjlt (by omega)
  rw [h.spanAt_site hi, h.spanAt_site hj, h.mem_chain_iff i j s s' hi hj]
  exact ⟨hprecedes.around, hprecedes.inFront⟩

theorem offset_mono {x y : Nat} (hle : x ≤ y) (hy : y < t.size) :
    (t.spanAt x).offset ≤ (t.spanAt y).offset := by
  rcases Nat.eq_zero_or_pos x with rfl | hx
  · rw [h.root]
    exact Nat.zero_le _
  rcases Nat.eq_or_lt_of_le hle with rfl | hlt
  · exact le_rfl
  obtain ⟨haround, hfront⟩ := h.around_or_inFront hx hlt hy
  by_cases hmem : x ∈ t.chain y
  · exact (haround hmem).lower
  · exact (Nat.le_add_right _ _).trans (hfront hmem)

theorem within_parent {c p : Nat} (hp : t.parent? c = some p) :
    (t.spanAt c).Within (t.spanAt p).offset ((t.spanAt p).offset + (t.spanAt p).length) := by
  have hc := lt_size_of_parent? hp
  have hlt := parent?_lt hp
  rcases Nat.eq_zero_or_pos p with rfl | hpos
  · rw [h.root]
    exact (h.within hc).mono le_rfl (Nat.zero_add size).ge
  · refine (h.around_or_inFront hpos hlt hc).1 ?_
    rw [h.chain_child hp]
    exact List.mem_cons_of_mem c (h.mem_chain_self hpos (hlt.trans hc))

theorem end_le_of_siblings {c c' p : Nat} (hlt : c < c') (hp : t.parent? c = some p)
    (hp' : t.parent? c' = some p) :
    (t.spanAt c).offset + (t.spanAt c).length ≤ (t.spanAt c').offset := by
  have hpc := parent?_lt hp
  refine (h.around_or_inFront (Nat.zero_lt_of_lt hpc) hlt (lt_size_of_parent? hp')).2 ?_
  -- the chain of the younger sibling has only what comes before the common parent
  rw [h.chain_child hp', List.mem_cons, not_or]
  refine ⟨hlt.ne, fun hmem ↦ ?_⟩
  have := le_of_mem_chain hmem
  omega

theorem laminar (hsize : size ≤ maxOffset) : t.Laminar where
  toRooted := h.toRooted
  inside := by
    intro c p hp
    have hc := lt_size_of_parent? hp
    rw [(h.within hc).stop_eq hsize, (h.within ((parent?_lt hp).trans hc)).stop_eq hsize]
    exact ⟨(h.within_parent hp).lower, (h.within_parent hp).upper⟩
  ordered := by
    intro c c' p hlt hp hp'
    rw [(h.within (lt_size_of_parent? hp)).stop_eq hsize]
    exact h.end_le_of_siblings hlt hp hp'

end Charted

theorem charted_declarations (outline : Outline) {size : Nat} (hsize : size ≤ maxOffset)
    (hnested : outline.WellNested size) (suggested : Option String) :
    Charted outline.sites size (outline.declarations size suggested) :=
  ⟨sited_declarations outline size suggested, hnested.laidOut, spanAt_root outline hsize suggested⟩

/-- The declarations of a well nested outline lie inside their parents, the children of a node one
after the other as they are listed, and their offsets grow with their numbers.  No offset of a
source that is read is cut. -/
theorem spans_nested_in_source_order (outline : Outline) {size : Nat} (hsize : size ≤ maxSourceSize)
    (hnested : outline.WellNested size) (suggested : Option String) :
    let t := outline.declarations size suggested
    (∀ c p, t.parent? c = some p →
      (t.spanAt p).offset ≤ (t.spanAt c).offset ∧ (t.spanAt c).stop ≤ (t.spanAt p).stop) ∧
    (∀ p, (t.childIds p).Pairwise fun c c' ↦ (t.spanAt c).stop ≤ (t.spanAt c').offset) ∧
    (∀ x y, x ≤ y → y < t.size → (t.spanAt x).offset ≤ (t.spanAt y).offset) ∧
    t.spanAt 0 = ⟨0, size⟩ ∧
    (∀ id, id < t.size → (t.spanAt id).stop = (t.spanAt id).offset + (t.spanAt id).length ∧
      (t.spanAt id).stop ≤ size) ∧
    ∀ offset, offset ≤ size → offsetOfSize offset = offset := by
  intro t
  have hmax : size ≤ maxOffset := hsize.trans (by decide)
  have hcharted := charted_declarations outline hmax hnested suggested
  have hlaminar := hcharted.laminar hmax
  refine ⟨hlaminar.inside, hlaminar.pairwise_childIds, fun x y ↦ hcharted.offset_mono,
    hcharted.root, fun id hid ↦ ?_, fun offset hle ↦ min_eq_left (hle.trans hmax)⟩
  have hwithin := hcharted.within hid
  exact ⟨hwithin.stop_eq hmax, (hwithin.stop_eq hmax).trans_le hwithin.upper⟩

/-- A field whose value is an anonymous class that has another one as an argument. -/
def argumentOutline : Outline :=
  ⟨none, [.type ⟨0, 52⟩ "A" []
    [.field ⟨10, 40⟩ "o" [.host [.host [] ⟨35, 2⟩ []] ⟨39, 10⟩ [.field ⟨41, 6⟩ "x" []]]]]⟩

theorem wellNested_argumentOutline : argumentOutline.WellNested 52 := by
  have hargument : StandsIn 10 37 (.part (.host [] ⟨35, 2⟩ [])) :=
    .spanless rfl (.cons (.spanned rfl ⟨by decide, le_rfl⟩ (.nil (by decide))) (.nil le_rfl))
  have hbody : StandsIn 37 50 (.classBody ⟨39, 10⟩ [.field ⟨41, 6⟩ "x" []]) :=
    .spanned rfl ⟨by decide, by decide⟩
      (.cons (.spanned rfl ⟨by decide, by decide⟩ (.nil (by decide))) (.nil le_rfl))
  have hfield : StandsIn 0 52 (.part (.field ⟨10, 40⟩ "o"
      [.host [.host [] ⟨35, 2⟩ []] ⟨39, 10⟩ [.field ⟨41, 6⟩ "x" []]])) :=
    .spanned rfl ⟨by decide, by decide⟩
      (.cons (.spanless rfl (.cons hargument (.cons hbody (.nil le_rfl)))) (.nil le_rfl))
  exact .cons (.spanned rfl ⟨le_rfl, le_rfl⟩ (.cons hfield (.nil le_rfl))) (.nil le_rfl)

/-- The body of the argument ends in front of that of the class around it, and both lie in the
field. -/
theorem spans_nested_argumentOutline : argumentOutline.WellNested 52 ∧
    (argumentOutline.declarations 52 none).childIds 2 = [3, 4] ∧
    ((argumentOutline.declarations 52 none).spanAt 3).stop ≤
      ((argumentOutline.declarations 52 none).spanAt 4).offset ∧
    ((argumentOutline.declarations 52 none).spanAt 4).stop ≤
      ((argumentOutline.declarations 52 none).spanAt 2).stop := by
  have hchildren : (argumentOutline.declarations 52 none).childIds 2 = [3, 4] := by decide
  have hparent : (argumentOutline.declarations 52 none).parent? 4 = some 2 := by decide
  obtain ⟨hinside, hordered, -⟩ :=
    spans_nested_in_source_order argumentOutline (by decide) wellNested_argumentOutline none
  have hpairwise := hordered 2
  rw [hchildren, List.pairwise_cons] at hpairwise
  exact ⟨wellNested_argumentOutline, hchildren, hpairwise.1 4 (List.mem_singleton_self 4),
    (hinside 4 2 hparent).2⟩

/-- At every offset of a well nested outline, and so of every source that is read, the way down ends
at the innermost declaration that covers the offset. -/
theorem elementAt_exact :
    (∀ (outline : Outline) (size : Nat) (suggested : Option String), size ≤ maxSourceSize →
      outline.WellNested size → ∀ offset, (outline.declarations size suggested).Locates offset) ∧
    ∀ (file : Path) (source : String) (suggested : Option String) (t : DeclarationTree),
      declarations file source suggested = .ok t → ∀ offset, t.Locates offset := by
  have houtline : ∀ (outline : Outline) (size : Nat) (suggested : Option String),
      size ≤ maxSourceSize → outline.WellNested size →
        ∀ offset, (outline.declarations size suggested).Locates offset := by
    intro outline size suggested hsize hnested offset
    have hmax : size ≤ maxOffset := hsize.trans (by decide)
    exact ((charted_declarations outline hmax hnested suggested).laminar hmax).locates offset
  refine ⟨houtline, fun file source suggested t h ↦ ?_⟩
  obtain ⟨hsize, -, rfl⟩ := declarations_eq_ok_iff.1 h
  exact houtline _ _ suggested hsize (wellNested_ofSource hsize)

/-- In the body of the argument the field and the type are around it, between the two bodies only
they are there, and after the type there is nothing. -/
theorem elementAt_exact_argumentOutline : argumentOutline.WellNested 52 ∧
    (argumentOutline.declarations 52 none).Innermost 36 3 ∧
    (∀ id, id ∈ [3, 2, 1] ↔ 0 < id ∧ (argumentOutline.declarations 52 none).covers 36 id = true) ∧
    (argumentOutline.declarations 52 none).Innermost 38 2 ∧
    ∀ id, 0 < id → (argumentOutline.declarations 52 none).covers 52 id = false := by
  have hlocates := elementAt_exact.1 argumentOutline 52 none (by decide) wellNested_argumentOutline
  have hinner : (argumentOutline.declarations 52 none).elementAt 36 = 3 := by cbv
  have hbetween : (argumentOutline.declarations 52 none).elementAt 38 = 2 := by cbv
  have hafter : (argumentOutline.declarations 52 none).elementAt 52 = 0 := by cbv
  have hchain : (argumentOutline.declarations 52 none).chain 3 = [3, 2, 1] := by cbv
  refine ⟨wellNested_argumentOutline, ((hlocates 36).innermost_iff 3).2 ⟨by decide, hinner.symm⟩,
    fun id ↦ ?_, ((hlocates 38).innermost_iff 2).2 ⟨by decide, hbetween.symm⟩,
    (hlocates 52).root_iff.1 hafter⟩
  rw [← hchain, ← hinner]
  exact (hlocates 36).mem_chain_iff id

end Java

end BinaryNames
