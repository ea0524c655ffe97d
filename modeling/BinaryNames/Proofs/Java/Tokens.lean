import BinaryNames.Java.Token
import BinaryNames.Proofs.Java.Nesting
import BinaryNames.Proofs.Source.Lines

/-!
# Where Tokens Stand

The lexemes of a source stand one after the other, hold at least one byte each and never start in
the terminator of a line.  Folding brackets keeps this and puts what stands between two brackets
inside their group.
-/

namespace BinaryNames

namespace Span

theorem stop_ofBounds {start stop : Nat} (h : start ≤ stop) (hstop : stop ≤ maxOffset) :
    (ofBounds start stop).stop = stop := by
  simp only [ofBounds, Span.stop]
  omega

theorem liesIn_ofBounds {starts : Nat → Prop} {lo hi start stop : Nat} (hstarts : starts start)
    (hlo : lo ≤ start) (hlt : start < stop) (hhi : stop ≤ hi) (hstop : stop ≤ maxOffset) :
    (ofBounds start stop).LiesIn starts lo hi := by
  have heq := stop_ofBounds hlt.le hstop
  exact ⟨hstarts, hlo, by rw [heq]; exact hlt, by rw [heq]; exact hhi⟩

end Span

/-- The spans lie between two offsets, one after the other. -/
def SpansIn (starts : Nat → Prop) (lo hi : Nat) : List Span → Prop
  | [] => lo ≤ hi
  | s :: rest => s.LiesIn starts lo s.stop ∧ SpansIn starts s.stop hi rest

namespace SpansIn

variable {starts : Nat → Prop} {lo mid hi : Nat}

theorem le {spans : List Span} (h : SpansIn starts lo hi spans) : lo ≤ hi := by
  induction spans generalizing lo with
  | nil => exact h
  | cons s rest ih =>
    obtain ⟨hs, hrest⟩ := h
    have := hs.lower
    have := hs.nonempty
    have := ih hrest
    omega

theorem mono {lo' hi' : Nat} {spans : List Span} (h : SpansIn starts lo hi spans) (hlo : lo' ≤ lo)
    (hhi : hi ≤ hi') : SpansIn starts lo' hi' spans := by
  induction spans generalizing lo lo' with
  | nil => exact hlo.trans (h.le.trans hhi)
  | cons s rest ih =>
    obtain ⟨hs, hrest⟩ := h
    exact ⟨⟨hs.starts, hlo.trans hs.lower, hs.nonempty, le_rfl⟩, ih hrest le_rfl⟩

theorem append_iff {first second : List Span} : SpansIn starts lo hi (first ++ second) ↔
    ∃ mid, SpansIn starts lo mid first ∧ SpansIn starts mid hi second := by
  induction first generalizing lo with
  | nil =>
    constructor
    · exact fun h ↦ ⟨lo, le_refl lo, h⟩
    · rintro ⟨mid, hfirst, hsecond⟩
      exact hsecond.mono hfirst le_rfl
  | cons s rest ih =>
    rw [List.cons_append, SpansIn, ih]
    constructor
    · rintro ⟨hs, mid, hrest, hsecond⟩
      exact ⟨mid, ⟨hs, hrest⟩, hsecond⟩
    · rintro ⟨mid, ⟨hs, hrest⟩, hsecond⟩
      exact ⟨hs, mid, hrest, hsecond⟩

theorem snoc {spans : List Span} {s : Span} (h : SpansIn starts lo mid spans)
    (hs : s.LiesIn starts mid hi) : SpansIn starts lo hi (spans ++ [s]) :=
  append_iff.2 ⟨mid, h, ⟨hs.starts, hs.lower, hs.nonempty, le_rfl⟩, hs.upper⟩

end SpansIn

namespace Java

/-! ## Scanning -/

def Lexeme.span : Lexeme → Span
  | word s _ => s
  | mark s _ => s
  | literal s => s
  | opening s _ => s
  | closing s _ => s

/-- The bytes of the characters. -/
def utf8Length : List Char → Nat
  | [] => 0
  | c :: rest => c.utf8Size + utf8Length rest

/-- Of the characters from `position` on, those that end no line stand where `starts` allows. -/
def TextFrom (starts : Nat → Prop) (position : Nat) : List Char → Prop
  | [] => True
  | c :: rest =>
    (c ≠ '\n' → c ≠ '\r' → starts position) ∧ TextFrom starts (position + c.utf8Size) rest

namespace ScanMode

/-- Where the lexemes that have been found end at the latest. -/
def bound (position : Nat) : ScanMode → Nat
  | between | lineComment | blockComment => position
  | pass more after => after.bound (position + more + 1)
  | word start _ | string start | textBlock start | character start => start

/-- What has begun started as `starts` asks and is not empty. -/
def Begun (starts : Nat → Prop) (position : Nat) : ScanMode → Prop
  | between | lineComment | blockComment => True
  | pass more after => after.Begun starts (position + more + 1)
  | word start _ | string start | textBlock start | character start =>
    starts start ∧ start < position

theorem bound_mono (mode : ScanMode) {position position' : Nat} (h : position ≤ position') :
    mode.bound position ≤ mode.bound position' := by
  induction mode generalizing position position' with
  | between | lineComment | blockComment => exact h
  | pass more after ih => exact ih (by omega)
  | word | string | textBlock | character => exact le_rfl

theorem Begun.mono {starts : Nat → Prop} {mode : ScanMode} {position position' : Nat}
    (hbegun : mode.Begun starts position) (h : position ≤ position') :
    mode.Begun starts position' := by
  induction mode generalizing position position' with
  | between | lineComment | blockComment => trivial
  | pass more after ih => exact ih hbegun (by omega)
  | word | string | textBlock | character => exact ⟨hbegun.1, hbegun.2.trans_le h⟩

end ScanMode

/-- The scanner at `position`: what it found stands in order, before what has begun. -/
structure Scanned (starts : Nat → Prop) (mode : ScanMode) (position : Nat)
    (found : List Lexeme) : Prop where
  begun : mode.Begun starts position
  found : SpansIn starts 0 (mode.bound position) (found.reverse.map Lexeme.span)

namespace Scanned

variable {starts : Nat → Prop} {mode after : ScanMode} {position next : Nat} {found : List Lexeme}

theorem mono (h : Scanned starts mode position found) (hle : position ≤ next) :
    Scanned starts mode next found :=
  ⟨h.begun.mono hle, h.found.mono le_rfl (mode.bound_mono hle)⟩

theorem pass {more : Nat} (h : Scanned starts mode position found) (hle : position ≤ next) :
    Scanned starts (.pass more mode) next found :=
  ⟨(h.mono (by omega : position ≤ next + more + 1)).begun,
    (h.mono (by omega : position ≤ next + more + 1)).found⟩

theorem pass_zero (h : Scanned starts (.pass 0 after) position found) (hlt : position < next) :
    Scanned starts after next found :=
  ⟨ScanMode.Begun.mono h.begun hlt, h.found.mono le_rfl (after.bound_mono hlt)⟩

theorem pass_succ {more : Nat} (h : Scanned starts (.pass (more + 1) after) position found)
    (hlt : position < next) : Scanned starts (.pass more after) next found := by
  have hle : position + (more + 1) + 1 ≤ next + more + 1 := by omega
  have hbegun : after.Begun starts (position + (more + 1) + 1) := h.begun
  exact ⟨hbegun.mono hle, h.found.mono le_rfl (after.bound_mono hle)⟩

/-- One more lexeme after those that have been found. -/
theorem push {lo : Nat} {lexeme : Lexeme} (h : SpansIn starts 0 lo (found.reverse.map Lexeme.span))
    (hlexeme : lexeme.span.LiesIn starts lo next) :
    SpansIn starts 0 next ((lexeme :: found).reverse.map Lexeme.span) := by
  rw [List.reverse_cons, List.map_append, List.map_singleton]
  exact h.snoc hlexeme

end Scanned

/-- Between words or in one, the scanner looks at every character. -/
def ScanMode.IsText : ScanMode → Prop
  | between | word .. => True
  | _ => False

theorem Scanned.finish {starts : Nat → Prop} {mode : ScanMode} {position : Nat}
    {found : List Lexeme} (h : Scanned starts mode position found) (hmode : mode.IsText)
    (hmax : position ≤ maxOffset) :
    SpansIn starts 0 position ((mode.finish position found).reverse.map Lexeme.span) := by
  cases mode with
  | between => exact h.found
  | word start reversed =>
    apply Scanned.push h.found
    exact Span.liesIn_ofBounds h.begun.1 le_rfl h.begun.2 le_rfl hmax
  | pass | lineComment | blockComment | string | textBlock | character => cases hmode

theorem scan_text {mode : ScanMode} (hmode : mode.IsText) (position : Nat) (found : List Lexeme)
    (c : Char) (rest : List Char) :
    Lexeme.scan mode position found (c :: rest) =
      if isWordChar c then
        Lexeme.scan (mode.extend position c) (position + c.utf8Size) found rest
      else
        let next := position + c.utf8Size
        let found := mode.finish position found
        if isBlank c then Lexeme.scan .between next found rest
        else if c = '/' ∧ rest.head? = some '/' then Lexeme.scan .lineComment next found rest
        else if c = '/' ∧ rest.head? = some '*' then
          Lexeme.scan (.pass 0 .blockComment) next found rest
        else if c = '"' ∧ rest.take 2 = ['"', '"'] then
          Lexeme.scan (.pass 1 (.textBlock position)) next found rest
        else if c = '"' then Lexeme.scan (.string position) next found rest
        else if c = '\'' then Lexeme.scan (.character position) next found rest
        else match Lexeme.longMark? c rest.head? with
          | some text =>
            let mark := .mark (Span.ofBounds position (position + 2)) text
            Lexeme.scan (.pass 0 .between) next (mark :: found) rest
          | none => Lexeme.scan .between next (Lexeme.ofChar position c :: found) rest := by
  cases mode with
  | between => rfl
  | word => rfl
  | pass | lineComment | blockComment | string | textBlock | character => cases hmode

theorem utf8Length_cons (c : Char) (rest : List Char) :
    utf8Length (c :: rest) = c.utf8Size + utf8Length rest := by
  simp [utf8Length]

theorem ne_terminator_of_isWordChar {c : Char} (h : isWordChar c = true) : c ≠ '\n' ∧ c ≠ '\r' := by
  constructor <;> rintro rfl <;> exact absurd h (by decide)

theorem ne_terminator_of_not_isBlank {c : Char} (h : ¬isBlank c = true) : c ≠ '\n' ∧ c ≠ '\r' := by
  constructor <;> rintro rfl <;> exact absurd (by decide) h

theorem span_ofChar (position : Nat) (c : Char) :
    (Lexeme.ofChar position c).span = Span.ofBounds position (position + c.utf8Size) := by
  unfold Lexeme.ofChar
  split <;> rfl

theorem utf8Length_of_longMark? {c : Char} {rest : List Char} {text : String}
    (h : Lexeme.longMark? c rest.head? = some text) : 2 ≤ utf8Length (c :: rest) := by
  have hrest : rest.head? ≠ none := by
    intro hnone
    simp [Lexeme.longMark?, hnone] at h
  cases rest with
  | nil => exact absurd rfl hrest
  | cons next rest =>
    have := c.utf8Size_pos
    have := next.utf8Size_pos
    rw [utf8Length_cons, utf8Length_cons]
    omega

section Step

variable {starts : Nat → Prop} {mode : ScanMode} {position : Nat} {found : List Lexeme} {c : Char}
  {rest : List Char} (h : Scanned starts mode position found)
  (hc : c ≠ '\n' → c ≠ '\r' → starts position)
  (hmax : position + utf8Length (c :: rest) ≤ maxOffset)
include h hc hmax

theorem Scanned.exists_text_step (hmode : mode.IsText) : ∃ mode' found',
    Lexeme.scan mode position found (c :: rest) =
      Lexeme.scan mode' (position + c.utf8Size) found' rest ∧
    Scanned starts mode' (position + c.utf8Size) found' := by
  have hpos := c.utf8Size_pos
  have hlen := utf8Length_cons c rest
  have hfinish := h.finish hmode (by omega)
  rw [scan_text hmode]
  split
  · next hword =>
    obtain ⟨hn, hr⟩ := ne_terminator_of_isWordChar hword
    refine ⟨_, _, rfl, ?_⟩
    cases mode with
    | between => exact ⟨⟨hc hn hr, by omega⟩, h.found⟩
    | word => exact ⟨⟨h.begun.1, by have := h.begun.2; omega⟩, h.found⟩
    | pass | lineComment | blockComment | string | textBlock | character => cases hmode
  dsimp only
  split
  · exact ⟨_, _, rfl, trivial, hfinish.mono le_rfl (by simp [ScanMode.bound])⟩
  next hblank =>
  obtain ⟨hn, hr⟩ := ne_terminator_of_not_isBlank hblank
  have hstarts := hc hn hr
  split
  · exact ⟨_, _, rfl, trivial, hfinish.mono le_rfl (by simp [ScanMode.bound])⟩
  split
  · exact ⟨_, _, rfl, trivial, hfinish.mono le_rfl (by simp [ScanMode.bound]; omega)⟩
  split
  · exact ⟨_, _, rfl, ⟨hstarts, by omega⟩, hfinish⟩
  split
  · exact ⟨_, _, rfl, ⟨hstarts, by omega⟩, hfinish⟩
  split
  · exact ⟨_, _, rfl, ⟨hstarts, by omega⟩, hfinish⟩
  split
  · next text htext =>
    refine ⟨_, _, rfl, trivial, ?_⟩
    have htwo := utf8Length_of_longMark? htext
    apply Scanned.push hfinish
    exact Span.liesIn_ofBounds hstarts le_rfl (by omega) (by simp [ScanMode.bound]; omega)
      (by omega)
  · refine ⟨_, _, rfl, trivial, ?_⟩
    apply Scanned.push hfinish
    rw [span_ofChar]
    exact Span.liesIn_ofBounds hstarts le_rfl (by omega) le_rfl (by omega)

omit hc in
/-- A literal that began at `start` and ends before `stop`. -/
theorem Scanned.close {start stop : Nat} (hstart : starts start)
    (hbound : mode.bound position = start) (hlt : start < stop)
    (hstop : stop ≤ position + utf8Length (c :: rest)) :
    SpansIn starts 0 stop
      ((Lexeme.literal (Span.ofBounds start stop) :: found).reverse.map Lexeme.span) := by
  apply Scanned.push h.found
  exact Span.liesIn_ofBounds hstart hbound.le hlt le_rfl (by omega)

/-- Every character takes the scanner one step on. -/
theorem Scanned.exists_step : ∃ mode' found',
    Lexeme.scan mode position found (c :: rest) =
      Lexeme.scan mode' (position + c.utf8Size) found' rest ∧
    Scanned starts mode' (position + c.utf8Size) found' := by
  have hpos := c.utf8Size_pos
  have hlen := utf8Length_cons c rest
  have hnext : Scanned starts mode (position + c.utf8Size) found := h.mono (by omega)
  have hskip : Scanned starts (.pass 0 mode) (position + c.utf8Size) found := h.pass (by omega)
  cases mode with
  | between => exact h.exists_text_step hc hmax trivial
  | word => exact h.exists_text_step hc hmax trivial
  | pass more after =>
    cases more with
    | zero => exact ⟨_, _, rfl, h.pass_zero (by omega)⟩
    | succ more => exact ⟨_, _, rfl, h.pass_succ (by omega)⟩
  | lineComment =>
    refine ⟨_, _, rfl, ?_⟩
    split
    · exact ⟨trivial, hnext.found⟩
    · exact hnext
  | blockComment =>
    rw [Lexeme.scan]
    split
    · exact ⟨_, _, rfl, trivial, hskip.found⟩
    · exact ⟨_, _, rfl, hnext⟩
  | string start =>
    rw [Lexeme.scan]
    split
    · have hclosed : SpansIn starts 0 (position + c.utf8Size) _ :=
        h.close hmax h.begun.1 rfl hnext.begun.2 (by omega)
      exact ⟨_, _, rfl, trivial, hclosed⟩
    split
    · exact ⟨_, _, rfl, hskip⟩
    · exact ⟨_, _, rfl, hnext⟩
  | character start =>
    rw [Lexeme.scan]
    split
    · have hclosed : SpansIn starts 0 (position + c.utf8Size) _ :=
        h.close hmax h.begun.1 rfl hnext.begun.2 (by omega)
      exact ⟨_, _, rfl, trivial, hclosed⟩
    split
    · exact ⟨_, _, rfl, hskip⟩
    · exact ⟨_, _, rfl, hnext⟩
  | textBlock start =>
    rw [Lexeme.scan]
    split
    · next hquotes =>
      -- the two quotes that are passed over belong to the literal
      obtain ⟨rfl, hrest⟩ := hquotes
      have htwo : rest = '"' :: '"' :: rest.drop 2 := by
        rw [← List.take_append_drop 2 rest, hrest]
        simp
      have hquote : ('"').utf8Size = 1 := by decide
      have hlong : 3 ≤ utf8Length ('"' :: rest) := by
        rw [htwo, utf8Length_cons, utf8Length_cons, utf8Length_cons, hquote]
        omega
      have hlt : start < position := h.begun.2
      have hclosed : SpansIn starts 0 (position + 3) _ :=
        h.close hmax h.begun.1 rfl (by omega) (by omega)
      exact ⟨_, _, rfl, trivial, hclosed.mono le_rfl (by simp only [ScanMode.bound]; omega)⟩
    split
    · exact ⟨_, _, rfl, hskip⟩
    · exact ⟨_, _, rfl, hnext⟩

end Step

/-- The lexemes of a text stand in order, and start where its characters do. -/
theorem spansIn_scan {starts : Nat → Prop} {mode : ScanMode} {position : Nat}
    {found lexemes : List Lexeme} {chars : List Char} (h : Scanned starts mode position found)
    (htext : TextFrom starts position chars) (hmax : position + utf8Length chars ≤ maxOffset)
    (hscan : Lexeme.scan mode position found chars = some lexemes) :
    SpansIn starts 0 (position + utf8Length chars) (lexemes.map Lexeme.span) := by
  induction chars generalizing mode position found with
  | nil =>
    cases mode with
    | between | lineComment =>
      obtain rfl := Option.some.inj hscan
      exact h.found
    | word start reversed =>
      obtain rfl := Option.some.inj hscan
      exact h.finish trivial hmax
    | pass | blockComment | string | textBlock | character => cases hscan
  | cons c rest ih =>
    obtain ⟨hc, htext⟩ := htext
    obtain ⟨mode', found', heq, h'⟩ := h.exists_step hc hmax
    rw [utf8Length_cons, ← Nat.add_assoc] at hmax ⊢
    exact ih h' htext hmax (heq ▸ hscan)

/-! ## Folding brackets -/

/-- What stands in a group stands between its ends, and so on inwards. -/
inductive Token.Nested (starts : Nat → Prop) : Token → Prop
  | word (s : Span) (text : String) : Token.Nested starts (.word s text)
  | mark (s : Span) (text : String) : Token.Nested starts (.mark s text)
  | literal (s : Span) : Token.Nested starts (.literal s)
  | group {s : Span} {bracket : Bracket} {items : List Token} :
      SpansIn starts s.offset s.stop (items.map Token.span) →
      (∀ t ∈ items, Token.Nested starts t) → Token.Nested starts (.group s bracket items)

/-- The tokens stand between two offsets, one after the other, and are nested. -/
structure TokensIn (starts : Nat → Prop) (lo hi : Nat) (tokens : List Token) : Prop where
  spans : SpansIn starts lo hi (tokens.map Token.span)
  nested : ∀ t ∈ tokens, t.Nested starts

/-- The brackets that are open, with what came before them, when the tokens since the last one
begin after `base`. -/
def OpenFrom (starts : Nat → Prop) (base : Nat) : List Token.Open → Prop
  | [] => base = 0
  | o :: below =>
    base = o.span.stop ∧ o.span.LiesIn starts o.span.offset o.span.stop ∧
      ∃ base', TokensIn starts base' o.span.offset o.before.reverse ∧ OpenFrom starts base' below

theorem TokensIn.snoc {starts : Nat → Prop} {lo mid hi : Nat} {tokens : List Token} {t : Token}
    (h : TokensIn starts lo mid tokens) (ht : t.span.LiesIn starts mid hi)
    (hnested : t.Nested starts) : TokensIn starts lo hi (tokens ++ [t]) where
  spans := by
    rw [List.map_append, List.map_singleton]
    exact h.spans.snoc ht
  nested := by
    intro t' ht'
    rcases List.mem_append.1 ht' with hmem | hmem
    · exact h.nested t' hmem
    · exact List.mem_singleton.1 hmem ▸ hnested

/-- Folding keeps tokens in order. -/
theorem tokensIn_nest {starts : Nat → Prop} {base mid hi : Nat} {stack : List Token.Open}
    {items tokens : List Token} {lexemes : List Lexeme} (hmax : hi ≤ maxOffset)
    (hstack : OpenFrom starts base stack) (hitems : TokensIn starts base mid items.reverse)
    (hlexemes : SpansIn starts mid hi (lexemes.map Lexeme.span))
    (hnest : Token.nest stack items lexemes = some tokens) : TokensIn starts 0 hi tokens := by
  induction lexemes generalizing stack items base mid with
  | nil =>
    rw [Token.nest] at hnest
    cases stack with
    | nil =>
      obtain rfl := Option.some.inj hnest
      obtain rfl : base = 0 := hstack
      exact ⟨hitems.spans.mono le_rfl hlexemes, hitems.nested⟩
    | cons o below => cases hnest
  | cons lexeme rest ih =>
    obtain ⟨hlexeme, hrest⟩ := hlexemes
    cases lexeme with
    | word s text =>
      refine ih hstack ?_ hrest hnest
      rw [List.reverse_cons]
      exact hitems.snoc hlexeme (.word s text)
    | mark s text =>
      refine ih hstack ?_ hrest hnest
      rw [List.reverse_cons]
      exact hitems.snoc hlexeme (.mark s text)
    | literal s =>
      refine ih hstack ?_ hrest hnest
      rw [List.reverse_cons]
      exact hitems.snoc hlexeme (.literal s)
    | opening s b =>
      replace hlexeme : s.LiesIn starts mid s.stop := hlexeme
      have hbefore : TokensIn starts base s.offset items.reverse :=
        ⟨hitems.spans.mono le_rfl hlexeme.lower, hitems.nested⟩
      have hopen : OpenFrom starts s.stop (⟨b, s, items⟩ :: stack) :=
        ⟨rfl, ⟨hlexeme.starts, le_rfl, hlexeme.nonempty, le_rfl⟩, base, hbefore, hstack⟩
      have hempty : TokensIn starts s.stop s.stop ([] : List Token).reverse :=
        ⟨le_refl s.stop, by simp⟩
      exact ih hopen hempty hrest hnest
    | closing s b =>
      replace hlexeme : s.LiesIn starts mid s.stop := hlexeme
      cases stack with
      | nil => cases hnest
      | cons o below =>
        obtain ⟨rfl, hopen, base', hbefore, hbelow⟩ := hstack
        rw [Token.nest] at hnest
        split at hnest
        · refine ih hbelow ?_ hrest hnest
          have hle := hitems.spans.le
          have hlower := hlexeme.lower
          have hnonempty := hlexeme.nonempty
          have hopened := hopen.nonempty
          have hupper : s.stop ≤ hi := hrest.le
          have hstop : (o.span.upTo s).stop = s.stop := Span.stop_ofBounds (by omega) (by omega)
          rw [List.reverse_cons]
          refine hbefore.snoc ⟨hopen.starts, le_rfl, ?_, hstop.le⟩ (.group ?_ hitems.nested)
          · rw [Token.span, hstop]
            exact (hopened.trans_le hle).trans_le (hlower.trans hnonempty.le)
          · rw [hstop]
            exact hitems.spans.mono hopened.le (hlower.trans hnonempty.le)
        · cases hnest

/-! ## Sources -/

/-- Only the characters that end lines are encoded from their bytes on. -/
theorem exists_head_utf8EncodeChar (c : Char) : ∃ b tail, String.utf8EncodeChar c = b :: tail ∧
    (b = 10 → c = '\n') ∧ (b = 13 → c = '\r') := by
  -- the first byte is the character itself or at least 192
  have hhead : ∀ n (tail : List UInt8), n % 256 = c.val.toNat ∨ 192 ≤ n % 256 →
      ∃ b tail', UInt8.ofNat n :: tail = b :: tail' ∧ (b = 10 → c = '\n') ∧
        (b = 13 → c = '\r') := by
    intro n tail hn
    refine ⟨_, _, rfl, fun h ↦ ?_, fun h ↦ ?_⟩
    · have hten : n % 256 = 10 := UInt8.toNat_ofNat'.symm.trans (congrArg UInt8.toNat h)
      exact Char.ext (UInt32.toNat_inj.1 (hn.elim (·.symm.trans hten) fun h ↦ by omega))
    · have hthirteen : n % 256 = 13 := UInt8.toNat_ofNat'.symm.trans (congrArg UInt8.toNat h)
      exact Char.ext (UInt32.toNat_inj.1 (hn.elim (·.symm.trans hthirteen) fun h ↦ by omega))
  unfold String.utf8EncodeChar
  dsimp only
  split
  · exact hhead _ _ (by omega)
  split
  · exact hhead _ _ (by omega)
  split
  · exact hhead _ _ (by omega)
  · exact hhead _ _ (by omega)

theorem textFrom_of_bytes {bytes : ByteArray} {pre : List UInt8} {chars : List Char}
    (h : bytes.data.toList = pre ++ chars.flatMap String.utf8EncodeChar) :
    TextFrom (Lines.IsText bytes) pre.length chars := by
  induction chars generalizing pre with
  | nil => trivial
  | cons c rest ih =>
    rw [List.flatMap_cons, ← List.append_assoc] at h
    have hrest := ih h
    rw [List.length_append, String.length_utf8EncodeChar] at hrest
    refine ⟨fun hn hr ↦ ?_, hrest⟩
    obtain ⟨b, tail, hb, hfeed, hreturn⟩ := exists_head_utf8EncodeChar c
    have hget : bytes.data[pre.length]? = some b := by
      rw [← Array.getElem?_toList, h, hb]
      simp
    refine ⟨(Array.getElem?_eq_some_iff.1 hget).1, ?_⟩
    rintro (hten | hthirteen)
    · exact hn (hfeed (Option.some.inj (hget.symm.trans hten)))
    · exact hr (hreturn (Option.some.inj (hget.symm.trans hthirteen)))

theorem toList_toUTF8 (source : String) :
    source.toUTF8.data.toList = source.toList.flatMap String.utf8EncodeChar := by
  rw [String.toUTF8, ← String.utf8Encode_toList, List.utf8Encode]
  simp

theorem utf8Length_eq (chars : List Char) :
    utf8Length chars = (chars.flatMap String.utf8EncodeChar).length := by
  induction chars with
  | nil => rfl
  | cons c rest ih => simp [utf8Length, ih]

theorem utf8Length_toList (source : String) : utf8Length source.toList = source.utf8ByteSize := by
  calc
    utf8Length source.toList = (source.toList.flatMap String.utf8EncodeChar).length :=
      utf8Length_eq source.toList
    _ = source.utf8ByteSize := by
      rw [← toList_toUTF8]
      rfl

theorem scanned_start (starts : Nat → Prop) (position : Nat) :
    Scanned starts .between position [] :=
  ⟨trivial, Nat.zero_le position⟩

/-- The tokens of a source stand in order in its text. -/
theorem tokensIn_ofSource? {source : String} {tokens : List Token}
    (hsize : source.utf8ByteSize ≤ maxOffset) (h : Token.ofSource? source = some tokens) :
    TokensIn (Lines.IsText source.toUTF8) 0 source.utf8ByteSize tokens := by
  obtain ⟨lexemes, hlexemes, hnest⟩ := Option.bind_eq_some_iff.1 h
  have hbytes : source.toUTF8.data.toList = [] ++ source.toList.flatMap String.utf8EncodeChar :=
    toList_toUTF8 source
  have htext : TextFrom (Lines.IsText source.toUTF8) 0 source.toList := textFrom_of_bytes hbytes
  rw [← utf8Length_toList] at hsize ⊢
  have hspans : SpansIn (Lines.IsText source.toUTF8) 0 (utf8Length source.toList)
      (lexemes.map Lexeme.span) := by
    unfold Lexeme.ofSource? at hlexemes
    split at hlexemes
    · next rest hmark =>
      have hthree : utf8Length ('\uFEFF' :: rest) = 3 + utf8Length rest := utf8Length_cons _ rest
      rw [hmark] at htext hsize ⊢
      rw [hthree] at hsize ⊢
      exact spansIn_scan (scanned_start _ 3) htext.2 hsize hlexemes
    · have hspans := spansIn_scan (scanned_start _ 0) htext (by omega) hlexemes
      rw [Nat.zero_add] at hspans
      exact hspans
  have hstart : OpenFrom (Lines.IsText source.toUTF8) 0 [] := rfl
  exact tokensIn_nest hsize hstart ⟨le_refl 0, by simp⟩ hspans hnest

end Java

end BinaryNames
