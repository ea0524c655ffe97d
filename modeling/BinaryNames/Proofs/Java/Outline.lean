import BinaryNames.Proofs.Java.Tokens

/-!
# Outlines of Sources Are Nested

The parts of an outline are read off runs of tokens, so they are nested because tokens stand in
order and groups hold what stands between their brackets.  How the head of a declaration is
recognized does not matter; only where it is cut does.
-/

namespace BinaryNames.Java

/-! ## Bounds -/

section Bounds

variable {starts : Nat → Prop} {lo mid hi lo' hi' : Nat}

mutual

theorem Part.NestedIn.mono {part : Part} {lo hi lo' hi' : Nat} (h : part.NestedIn starts lo hi)
    (hlo : lo' ≤ lo) (hhi : hi ≤ hi') : part.NestedIn starts lo' hi' := by
  cases part with
  | type | method | field | staticInitializer | block =>
    rw [Part.NestedIn] at h ⊢
    exact ⟨h.1.mono hlo hhi, h.2⟩
  | host arguments body members =>
    rw [Part.NestedIn] at h ⊢
    exact ⟨h.1.mono hlo le_rfl, h.2.1.mono le_rfl hhi, h.2.2⟩
  | other parts =>
    rw [Part.NestedIn] at h ⊢
    exact h.mono hlo hhi

theorem NestedAll.mono {parts : List Part} {lo hi lo' hi' : Nat} (h : NestedAll starts lo hi parts)
    (hlo : lo' ≤ lo) (hhi : hi ≤ hi') : NestedAll starts lo' hi' parts := by
  cases parts with
  | nil =>
    rw [NestedAll] at h ⊢
    exact hlo.trans (h.trans hhi)
  | cons part rest =>
    rw [NestedAll] at h ⊢
    obtain ⟨mid, hpart, hrest⟩ := h
    exact ⟨mid, hpart.mono hlo le_rfl, hrest.mono le_rfl hhi⟩

end

theorem NestedAll.cons {part : Part} {rest : List Part} (hpart : part.NestedIn starts lo mid)
    (hrest : NestedAll starts mid hi rest) : NestedAll starts lo hi (part :: rest) := by
  rw [NestedAll]
  exact ⟨mid, hpart, hrest⟩

theorem NestedAll.append {first second : List Part} (hfirst : NestedAll starts lo mid first)
    (hsecond : NestedAll starts mid hi second) : NestedAll starts lo hi (first ++ second) := by
  induction first generalizing lo with
  | nil =>
    rw [NestedAll] at hfirst
    exact hsecond.mono hfirst le_rfl
  | cons part rest ih =>
    rw [NestedAll] at hfirst
    rw [List.cons_append, NestedAll]
    obtain ⟨mid', hpart, hrest⟩ := hfirst
    exact ⟨mid', hpart, ih hrest⟩

namespace TokensIn

variable {t : Token} {rest tokens : List Token}

theorem head (h : TokensIn starts lo hi (t :: rest)) : t.span.LiesIn starts lo t.span.stop :=
  h.spans.1

theorem tail (h : TokensIn starts lo hi (t :: rest)) : TokensIn starts t.span.stop hi rest :=
  ⟨h.spans.2, fun x hx ↦ h.nested x (List.mem_cons_of_mem t hx)⟩

theorem stop_le (h : TokensIn starts lo hi (t :: rest)) : t.span.stop ≤ hi := h.tail.spans.le

theorem skip (h : TokensIn starts lo hi (t :: rest)) : TokensIn starts lo hi rest :=
  ⟨h.spans.2.mono (h.head.lower.trans h.head.nonempty.le) le_rfl, h.tail.nested⟩

/-- What stands between the brackets of a group. -/
theorem items {s : Span} {bracket : Bracket} {items : List Token}
    (h : TokensIn starts lo hi (.group s bracket items :: rest)) :
    TokensIn starts s.offset s.stop items := by
  cases h.nested _ List.mem_cons_self with
  | group hspans hnested => exact ⟨hspans, hnested⟩

theorem append_items {s : Span} {bracket : Bracket} {items : List Token} {inner outer : List Part}
    (h : TokensIn starts lo hi (.group s bracket items :: rest))
    (hinner : NestedAll starts s.offset s.stop inner) (houter : NestedAll starts s.stop hi outer) :
    NestedAll starts lo hi (inner ++ outer) :=
  (hinner.mono h.head.lower le_rfl).append houter

theorem cons_block {s : Span} {bracket : Bracket} {items : List Token} {inner outer : List Part}
    (h : TokensIn starts lo hi (.group s bracket items :: rest))
    (hinner : NestedAll starts s.offset s.stop inner) (houter : NestedAll starts s.stop hi outer) :
    NestedAll starts lo hi (.block s inner :: outer) :=
  .cons (by rw [Part.NestedIn]; exact ⟨h.head, hinner⟩) houter

theorem from_head (h : TokensIn starts lo hi (t :: rest)) :
    TokensIn starts t.span.offset hi (t :: rest) :=
  ⟨⟨⟨h.head.starts, le_rfl, h.head.nonempty, le_rfl⟩, h.spans.2⟩, h.nested⟩

theorem split (h : TokensIn starts lo hi tokens) (n : Nat) :
    ∃ mid, TokensIn starts lo mid (tokens.take n) ∧ TokensIn starts mid hi (tokens.drop n) := by
  have hspans := h.spans
  rw [← List.take_append_drop n tokens, List.map_append, SpansIn.append_iff] at hspans
  obtain ⟨mid, hfirst, hsecond⟩ := hspans
  exact ⟨mid, ⟨hfirst, fun t ht ↦ h.nested t (List.mem_of_mem_take ht)⟩,
    ⟨hsecond, fun t ht ↦ h.nested t (List.mem_of_mem_drop ht)⟩⟩

end TokensIn

/-- A declaration whose head starts with `t` and that ends with the token `last`. -/
structure Cut (starts : Nat → Prop) (lo hi : Nat) (t last : Token) (head after : List Token)
    (span : Span) : Prop where
  liesIn : span.LiesIn starts lo last.span.stop
  offset_eq : span.offset = t.span.offset
  stop_eq : span.stop = last.span.stop
  offset_le : t.span.offset ≤ last.span.offset
  head : TokensIn starts t.span.offset last.span.offset head
  rest : TokensIn starts last.span.offset hi (last :: after)

theorem TokensIn.cut {t last : Token} {rest after : List Token} {n : Nat} (hmax : hi ≤ maxOffset)
    (h : TokensIn starts lo hi (t :: rest)) (hdrop : (t :: rest).drop n = last :: after) :
    Cut starts lo hi t last ((t :: rest).take n) after (spanFrom (t :: rest) last.span) := by
  obtain ⟨mid, hhead, hrest⟩ := h.from_head.split n
  rw [hdrop] at hrest
  have hle := hhead.spans.le
  have hlower := hrest.head.lower
  have hnonempty := hrest.head.nonempty
  have hupper := hrest.tail.spans.le
  have hstop : (t.span.upTo last.span).stop = last.span.stop :=
    Span.stop_ofBounds (by omega) (by omega)
  refine ⟨⟨h.head.starts, h.head.lower, ?_, hstop.le⟩, rfl, hstop, by omega, ?_, hrest.from_head⟩
  · rw [spanFrom, hstop]
    exact (hle.trans hlower).trans_lt hnonempty
  · exact ⟨hhead.spans.mono le_rfl hlower, hhead.nested⟩

end Bounds

/-- The body of a declaration stands inside it. -/
theorem Cut.body {starts : Nat → Prop} {lo hi : Nat} {t : Token} {body span : Span}
    {bracket : Bracket} {items head after : List Token} {parts : List Part}
    (h : Cut starts lo hi t (.group body bracket items) head after span)
    (hparts : NestedAll starts body.offset body.stop parts) :
    span.LiesIn starts lo body.stop ∧ NestedAll starts span.offset span.stop parts := by
  refine ⟨h.liesIn, hparts.mono ?_ ?_⟩
  · rw [h.offset_eq]
    exact h.offset_le
  · rw [h.stop_eq]
    exact le_rfl

/-- A member without a body stands where it is cut off. -/
theorem Cut.partWithoutBody {starts : Nat → Prop} {lo hi : Nat} {t last : Token} {span : Span}
    {head after : List Token} {parts : List Part} (h : Cut starts lo hi t last head after span)
    (hparts : NestedAll starts t.span.offset last.span.offset parts) (member : MemberHead) :
    (member.partWithoutBody span parts).NestedIn starts lo last.span.stop := by
  have hlast := h.rest.head.nonempty.le
  have hlower : lo ≤ t.span.offset := h.offset_eq ▸ h.liesIn.lower
  unfold MemberHead.partWithoutBody
  split
  · rw [Part.NestedIn, NestedAll]
    exact ⟨h.liesIn, h.liesIn.nonempty.le⟩
  · rw [Part.NestedIn, h.offset_eq, h.stop_eq]
    exact ⟨h.liesIn, hparts.mono le_rfl hlast⟩
  · rw [Part.NestedIn]
    exact hparts.mono hlower hlast

/-! ## Parts -/

theorem sizeOf_lt_cons (t : Token) (rest : List Token) : sizeOf rest < sizeOf (t :: rest) := by
  rw [List.cons.sizeOf_spec]
  omega

theorem sizeOf_items_lt (s : Span) (bracket : Bracket) (items rest : List Token) :
    sizeOf items < sizeOf (Token.group s bracket items :: rest) := by
  rw [List.cons.sizeOf_spec, Token.group.sizeOf_spec]
  omega

/-- Whatever the tokens are read as, their parts stand where they do. -/
structure Outlined (starts : Nat → Prop) (tokens : List Token) : Prop where
  code : ∀ outside start lo hi, hi ≤ maxOffset → TokensIn starts lo hi tokens →
    NestedAll starts lo hi (codeParts outside start tokens)
  members : ∀ form lo hi, hi ≤ maxOffset → TokensIn starts lo hi tokens →
    NestedAll starts lo hi (memberParts form tokens)
  body : ∀ form lo hi, hi ≤ maxOffset → TokensIn starts lo hi tokens →
    NestedAll starts lo hi (bodyParts form tokens)

section Cuts

variable {starts : Nat → Prop} {tokens : List Token}
  (ih : ∀ smaller : List Token, sizeOf smaller < sizeOf tokens → Outlined starts smaller)
  {n : Nat} {last : Token} {after : List Token} (hdrop : tokens.drop n = last :: after)
include ih hdrop

theorem outlined_take : Outlined starts (tokens.take n) := by
  have hsize := sizeOf_cut hdrop
  exact ih _ (by omega)

theorem outlined_after : Outlined starts after := by
  have hsize := sizeOf_cut hdrop
  exact ih _ (by omega)

omit hdrop in
theorem outlined_items {s : Span} {bracket : Bracket} {items : List Token}
    (hdrop : tokens.drop n = .group s bracket items :: after) : Outlined starts items := by
  have hsize := sizeOf_cut hdrop
  rw [Token.group.sizeOf_spec] at hsize
  exact ih _ (by omega)

end Cuts

section Declarations

variable {starts : Nat → Prop} {n lo hi : Nat} {t : Token} {rest after : List Token}
  {parts : List Part}
  (ih : ∀ smaller : List Token, sizeOf smaller < sizeOf (t :: rest) → Outlined starts smaller)
  (hmax : hi ≤ maxOffset) (h : TokensIn starts lo hi (t :: rest))
include ih hmax h

theorem nestedAll_type {body : Span} {items : List Token}
    (hdrop : (t :: rest).drop n = .group body .curly items :: after)
    (hafter : TokensIn starts body.stop hi after → NestedAll starts body.stop hi parts)
    (name : String) (header : List Part) (form : BodyForm) :
    NestedAll starts lo hi
      (.type (spanFrom (t :: rest) body) name header (bodyParts form items) :: parts) := by
  have hcut := h.cut hmax hdrop
  have hbody := (outlined_items ih hdrop).body form _ _ (hcut.rest.stop_le.trans hmax)
    hcut.rest.items
  exact .cons (by rw [Part.NestedIn]; exact hcut.body hbody) (hafter hcut.rest.tail)

theorem nestedAll_method {body : Span} {items : List Token}
    (hdrop : (t :: rest).drop n = .group body .curly items :: after)
    (hafter : TokensIn starts body.stop hi after → NestedAll starts body.stop hi parts)
    (name : String) (header : List Part) :
    NestedAll starts lo hi
      (.method (spanFrom (t :: rest) body) name header (codeParts false true items) :: parts) := by
  have hcut := h.cut hmax hdrop
  have hbody := (outlined_items ih hdrop).code false true _ _ (hcut.rest.stop_le.trans hmax)
    hcut.rest.items
  exact .cons (by rw [Part.NestedIn]; exact hcut.body hbody) (hafter hcut.rest.tail)

theorem nestedAll_partWithoutBody {last : Token} (hdrop : (t :: rest).drop n = last :: after)
    (hafter : TokensIn starts last.span.stop hi after → NestedAll starts last.span.stop hi parts)
    (member : MemberHead) :
    NestedAll starts lo hi
      (member.partWithoutBody (spanFrom (t :: rest) last.span)
        (codeParts false false ((t :: rest).take n)) :: parts) := by
  have hcut := h.cut hmax hdrop
  have hhead := (outlined_take ih hdrop).code false false _ _ (hcut.rest.spans.le.trans hmax)
    hcut.head
  exact .cons (hcut.partWithoutBody hhead member) (hafter hcut.rest.tail)

end Declarations

section Parts

variable {starts : Nat → Prop} {tokens : List Token}
  (ih : ∀ smaller : List Token, sizeOf smaller < sizeOf tokens → Outlined starts smaller)
  {lo hi : Nat} (hmax : hi ≤ maxOffset)
include ih hmax

/-- What comes after the first token or inside it, as code. -/
theorem nestedAll_codeParts_items {s : Span} {bracket : Bracket} {items rest : List Token}
    (h : TokensIn starts lo hi (.group s bracket items :: rest))
    (hsize : sizeOf items < sizeOf tokens) (outside start : Bool) :
    NestedAll starts s.offset s.stop (codeParts outside start items) :=
  (ih items hsize).code outside start _ _ (h.stop_le.trans hmax) h.items

variable (h : TokensIn starts lo hi tokens)
include h

theorem nestedAll_codeParts (outside start : Bool) :
    NestedAll starts lo hi (codeParts outside start tokens) := by
  unfold codeParts
  split
  · rw [NestedAll]
    exact h.spans
  next t rest =>
  have hrest : ∀ outside start, NestedAll starts lo hi (codeParts outside start rest) :=
    fun outside start ↦ (ih rest (sizeOf_lt_cons ..)).code outside start lo hi hmax h.skip
  split
  · next head _ =>
    split
    · next body items after hdrop =>
      have hafter := (outlined_after ih hdrop).code outside true body.stop hi hmax
      exact nestedAll_type ih hmax h hdrop hafter head.name _ head.form
    · exact hrest outside false
  split
  · next head _ =>
    split
    · next body items after hdrop =>
      have hafter := (outlined_after ih hdrop).code outside true body.stop hi hmax
      exact nestedAll_method ih hmax h hdrop hafter head.name _
    · next last after _ hdrop =>
      have hafter := (outlined_after ih hdrop).code outside true last.span.stop hi hmax
      exact nestedAll_partWithoutBody ih hmax h hdrop hafter head
    · exact hrest outside false
  clear hrest
  -- the rest of an expression or statement, by its first tokens
  split
  · split
    · next _ arguments body items after hdrop =>
      have hsize := sizeOf_cut hdrop
      simp only [Token.group.sizeOf_spec, List.cons.sizeOf_spec] at hsize ih
      obtain ⟨mid, htype, hafter⟩ := h.skip.split (creatorLength rest)
      rw [hdrop] at hafter
      have hbody := hafter.tail
      have hle := hbody.stop_le.trans hmax
      rw [NestedAll]
      refine ⟨body.stop, ?_, (ih after (by omega)).code _ _ _ _ hmax hbody.tail⟩
      rw [Part.NestedIn]
      refine ⟨?_, ⟨hbody.head.starts, le_rfl, hbody.head.nonempty, le_rfl⟩,
        (ih items (by omega)).members _ _ _ hle hbody.items⟩
      have hcreator := (ih _ (by omega)).code false false _ _ (hafter.spans.le.trans hmax) htype
      have harguments := (ih arguments (by omega)).code false false _ _
        (hafter.stop_le.trans hmax) hafter.items
      exact hcreator.append (harguments.mono hafter.head.lower hbody.head.lower)
    · exact (ih rest (sizeOf_lt_cons ..)).code _ _ _ _ hmax h.skip
  · next subject _ cases after _ _ =>
    have hsubject := nestedAll_codeParts_items ih hmax h.skip
      ((sizeOf_items_lt ..).trans (sizeOf_lt_cons ..)) false false
    have hcases := nestedAll_codeParts_items ih hmax h.skip.tail
      (((sizeOf_items_lt ..).trans (sizeOf_lt_cons ..)).trans (sizeOf_lt_cons ..)) false true
    have hafter := (ih after (((sizeOf_lt_cons ..).trans (sizeOf_lt_cons ..)).trans
      (sizeOf_lt_cons ..))).code outside true _ _ hmax h.tail.tail.tail
    rw [List.append_assoc]
    exact h.skip.append_items hsubject (h.skip.tail.append_items hcases hafter)
  · next span text _ items after _ _ _ _ =>
    have hitems := nestedAll_codeParts_items ih hmax h.skip
      ((sizeOf_items_lt ..).trans (sizeOf_lt_cons ..)) false false
    exact h.skip.append_items hitems
      ((ih after ((sizeOf_lt_cons ..).trans (sizeOf_lt_cons ..))).code _ _ _ _ hmax h.skip.tail)
  · next items after _ _ =>
    have hitems := nestedAll_codeParts_items ih hmax h.skip
      ((sizeOf_items_lt ..).trans (sizeOf_lt_cons ..)) false true
    exact h.skip.cons_block hitems
      ((ih after ((sizeOf_lt_cons ..).trans (sizeOf_lt_cons ..))).code _ _ _ _ hmax h.skip.tail)
  · next items _ _ =>
    have hrest : ∀ start, NestedAll starts _ hi (codeParts outside start rest) := fun start ↦
      (ih rest (sizeOf_lt_cons ..)).code outside start _ _ hmax h.tail
    split
    · exact h.cons_block (nestedAll_codeParts_items ih hmax h (sizeOf_items_lt ..) false true)
        (hrest true)
    · exact h.append_items (nestedAll_codeParts_items ih hmax h (sizeOf_items_lt ..) false false)
        (hrest false)
  · next items _ _ _ =>
    exact h.append_items (nestedAll_codeParts_items ih hmax h (sizeOf_items_lt ..) false false)
      ((ih rest (sizeOf_lt_cons ..)).code _ _ _ _ hmax h.tail)
  · exact (ih rest (sizeOf_lt_cons ..)).code _ _ _ _ hmax h.skip

theorem nestedAll_memberParts (form : BodyForm) :
    NestedAll starts lo hi (memberParts form tokens) := by
  unfold memberParts
  split
  · rw [NestedAll]
    exact h.spans
  · next span items rest =>
    exact h.cons_block (nestedAll_codeParts_items ih hmax h (sizeOf_items_lt ..) false true)
      ((ih rest (sizeOf_lt_cons ..)).members _ _ _ hmax h.tail)
  · next s body items rest =>
    have hcut : Cut starts lo hi (.word s "static") (.group body .curly items) _ rest
        (s.upTo body) := h.cut (n := 1) hmax rfl
    have hitems := nestedAll_codeParts_items ih hmax h.skip
      ((sizeOf_items_lt ..).trans (sizeOf_lt_cons ..)) false true
    rw [NestedAll]
    refine ⟨body.stop, ?_,
      (ih rest ((sizeOf_lt_cons ..).trans (sizeOf_lt_cons ..))).members _ _ _ hmax h.tail.tail⟩
    rw [Part.NestedIn]
    exact hcut.body hitems
  next t rest _ _ =>
  have hrest : NestedAll starts lo hi (memberParts form rest) :=
    (ih rest (sizeOf_lt_cons ..)).members form lo hi hmax h.skip
  split
  · next head _ =>
    split
    · next body items after hdrop =>
      have hafter := (outlined_after ih hdrop).members form body.stop hi hmax
      exact nestedAll_type ih hmax h hdrop hafter head.name _ head.form
    · exact hrest
  split
  · next head _ =>
    split
    · next body items after hdrop =>
      have hafter := (outlined_after ih hdrop).members form body.stop hi hmax
      exact nestedAll_method ih hmax h hdrop hafter head.name _
    · next last after _ hdrop =>
      have hafter := (outlined_after ih hdrop).members form last.span.stop hi hmax
      exact nestedAll_partWithoutBody ih hmax h hdrop hafter head
    · exact hrest
  · exact hrest

theorem nestedAll_constantParts : NestedAll starts lo hi (constantParts tokens) := by
  obtain ⟨mid, htake, hdropped⟩ := h.split (tokens.findIdx Token.endsConstant)
  have hconstants : ∀ {after : List Token} {lo : Nat}, Outlined starts after →
      TokensIn starts lo hi after → NestedAll starts lo hi (constantParts after) := by
    intro after lo hafter hin
    have hbody := hafter.body .enumeration lo hi hmax hin
    rw [bodyParts, if_pos rfl] at hbody
    exact hbody
  unfold constantParts
  split
  · next body items after hdrop =>
    rw [hdrop] at hdropped
    have hhead := (outlined_take ih hdrop).code false false _ _ (hdropped.spans.le.trans hmax) htake
    have hitems := (outlined_items ih hdrop).members .ordinary _ _ (hdropped.stop_le.trans hmax)
      hdropped.items
    rw [NestedAll]
    refine ⟨body.stop, ?_, hconstants (outlined_after ih hdrop) hdropped.tail⟩
    rw [Part.NestedIn]
    exact ⟨hhead.mono le_rfl hdropped.head.lower,
      ⟨hdropped.head.starts, le_rfl, hdropped.head.nonempty, le_rfl⟩, hitems⟩
  · next last after _ hdrop =>
    rw [hdrop] at hdropped
    have hhead := (outlined_take ih hdrop).code false false _ _ (hdropped.spans.le.trans hmax) htake
    rw [NestedAll]
    refine ⟨mid, by rw [Part.NestedIn]; exact hhead, ?_⟩
    split
    · exact (outlined_after ih hdrop).members _ _ _ hmax hdropped.skip
    · exact hconstants (outlined_after ih hdrop) hdropped.skip
  · have hcode := nestedAll_codeParts ih hmax h false false
    rw [NestedAll]
    exact ⟨hi, by rw [Part.NestedIn]; exact hcode, by rw [NestedAll]⟩

end Parts

/-- The parts of tokens in order are nested. -/
theorem outlined (starts : Nat → Prop) (tokens : List Token) : Outlined starts tokens := by
  induction hn : sizeOf tokens using Nat.strong_induction_on generalizing tokens with
  | _ n ih =>
    subst hn
    have ih' : ∀ smaller : List Token, sizeOf smaller < sizeOf tokens → Outlined starts smaller :=
      fun smaller hlt ↦ ih _ hlt smaller rfl
    refine ⟨fun outside start lo hi hmax h ↦ nestedAll_codeParts ih' hmax h outside start,
      fun form lo hi hmax h ↦ nestedAll_memberParts ih' hmax h form, fun form lo hi hmax h ↦ ?_⟩
    rw [bodyParts]
    split
    · exact nestedAll_constantParts ih' hmax h
    · exact nestedAll_memberParts ih' hmax h form

/-- The outline of a source is nested, and its parts start in the text of lines. -/
theorem nestedAll_ofSource {source : String} (hsize : source.utf8ByteSize ≤ maxOffset) :
    NestedAll (Lines.IsText source.toUTF8) 0 source.utf8ByteSize
      (Outline.ofSource source).parts := by
  unfold Outline.ofSource
  split
  · rw [NestedAll]
    exact Nat.zero_le _
  · next tokens htokens =>
    exact (outlined _ tokens).code true true 0 _ hsize (tokensIn_ofSource? hsize htokens)

end BinaryNames.Java
