import BinaryNames.Source.Lines
import Mathlib.Data.List.Chain

/-!
# Where Lines Begin and End

The lines of a text follow one another with nothing but terminators between them, and the last one
ends with the text.  Hence the line that an offset belongs to is told by where lines start, and an
offset beyond the end of its line is that of a terminator.  Which line is which is told by the line
feeds before it.
-/

namespace BinaryNames.Lines

/-- Whether the byte at `k` belongs to the terminator of a line. -/
def IsTerminator (bytes : Array UInt8) (k : Nat) : Prop :=
  bytes[k]? = some 10 ∨ bytes[k]? = some 13

/-- The byte at `k` belongs to the text of a line. -/
def IsText (bytes : ByteArray) (k : Nat) : Prop := k < bytes.size ∧ ¬IsTerminator bytes.data k

/-- The span `next` starts right after the terminator of `s`. -/
structure Follows (bytes : Array UInt8) (s next : Span) : Prop where
  offset_le : s.offset ≤ s.stop
  stop_lt : s.stop < next.offset
  terminator : ∀ k, s.stop ≤ k → k < next.offset → IsTerminator bytes k

theorem offset_spanOf {start stop : Nat} (h : start ≤ maxOffset) :
    (spanOf start stop).offset = start := by
  simp only [spanOf, Span.ofBounds, offsetOfSize]
  omega

theorem stop_spanOf {start stop : Nat} (h : start ≤ stop) (hstop : stop ≤ maxOffset) :
    (spanOf start stop).stop = stop := by
  simp only [spanOf, Span.ofBounds, offsetOfSize, Span.stop]
  omega

namespace Reading

/-- The state after the first `i` bytes. -/
structure At (bytes : Array UInt8) (i : Nat) (r : Reading) : Prop where
  position_eq : r.position = i
  start_le : r.start ≤ i
  afterReturn : r.afterReturn = true → r.start < i ∧ bytes[i - 1]? = some 13
  chain : r.lines.spans.toList.IsChain (Follows bytes)

theorem at_init (bytes : Array UInt8) : At bytes 0 .init where
  position_eq := rfl
  start_le := le_rfl
  afterReturn := by intro h; cases h
  chain := List.isChain_singleton _

theorem toList_lines (r : Reading) :
    r.lines.spans.toList = r.finished.toList ++ [spanOf r.start r.position] := by
  simp [lines]

/-- Only the offset of the last line matters to the lines before it. -/
theorem isChain_last {bytes : Array UInt8} {l : List Span} {s s' : Span}
    (h : (l ++ [s]).IsChain (Follows bytes)) (hoffset : s'.offset = s.offset) :
    (l ++ [s']).IsChain (Follows bytes) := by
  rw [List.isChain_append] at h ⊢
  obtain ⟨hl, -, hlast⟩ := h
  refine ⟨hl, List.isChain_singleton _, fun x hx y hy ↦ ?_⟩
  obtain ⟨hle, hlt, hterminator⟩ := hlast x hx s rfl
  obtain rfl : s' = y := by simpa using hy
  exact ⟨hle, hoffset ▸ hlt, hoffset ▸ hterminator⟩

/-- The line that starts after the byte at `i`, when everything from `stop` on is its terminator. -/
theorem follows_spanOf {bytes : Array UInt8} {start stop i : Nat} (hstart : start ≤ stop)
    (hstop : stop ≤ i) (hi : i < maxOffset)
    (hterminator : ∀ k, stop ≤ k → k ≤ i → IsTerminator bytes k) :
    Follows bytes (spanOf start stop) (spanOf (i + 1) (i + 1)) := by
  have hnext : (spanOf (i + 1) (i + 1)).offset = i + 1 := offset_spanOf hi
  have hend : (spanOf start stop).stop = stop := stop_spanOf hstart (by omega)
  refine ⟨?_, ?_, fun k hk hk' ↦ ?_⟩
  · rw [hend, offset_spanOf (by omega)]
    exact hstart
  · rw [hend, hnext]
    omega
  · rw [hend] at hk
    rw [hnext] at hk'
    exact hterminator k hk (by omega)

theorem At.step {bytes : Array UInt8} {i : Nat} {r : Reading} {b : UInt8} (h : At bytes i r)
    (hb : bytes[i]? = some b) (hi : i < maxOffset) : At bytes (i + 1) (r.step b) := by
  obtain ⟨hposition, hstart, hreturn, hchain⟩ := h
  rw [toList_lines, hposition] at hchain
  have hoffset : ∀ stop, (spanOf r.start stop).offset = r.start :=
    fun stop ↦ offset_spanOf (by omega)
  unfold Reading.step
  split
  · next hfeed =>
    subst hfeed
    refine ⟨by simp [hposition], by simp [hposition], (by intro h; cases h), ?_⟩
    rw [toList_lines]
    simp only [hposition, Array.toList_push, List.append_assoc, List.cons_append, List.nil_append]
    rw [List.isChain_append_cons_cons]
    refine ⟨isChain_last hchain (by rw [hoffset, hoffset]), ?_, List.isChain_singleton _⟩
    -- the terminator is the line feed, with the carriage return if there is one
    by_cases hafter : r.afterReturn = true
    · obtain ⟨hlt, hcr⟩ := hreturn hafter
      rw [if_pos hafter]
      refine follows_spanOf (by omega) (by omega) hi fun k hk hk' ↦ ?_
      rcases Nat.eq_or_lt_of_le hk with rfl | hk
      · exact Or.inr hcr
      · obtain rfl : k = i := by omega
        exact Or.inl hb
    · rw [if_neg hafter]
      refine follows_spanOf hstart le_rfl hi fun k hk hk' ↦ ?_
      obtain rfl : k = i := by omega
      exact Or.inl hb
  · next hfeed =>
    refine ⟨by simp [hposition], by simp; omega, fun h ↦ ?_, ?_⟩
    · have hcr : b = 13 := by simpa using h
      exact ⟨by simp; omega, by simp [hb, hcr]⟩
    · rw [toList_lines]
      exact isChain_last hchain (by rw [hoffset, hoffset])

theorem at_foldl {bytes : Array UInt8} (hsize : bytes.size ≤ maxOffset) :
    At bytes bytes.size (bytes.foldl Reading.step .init) := by
  apply Array.foldl_induction (fun i r ↦ At bytes i r) (at_init bytes)
  intro i r hr
  exact hr.step (by simp) (by omega)

end Reading

/-! ## Lines of a text -/

theorem lineOf_mono (l : Lines) {a b : Nat} (h : a ≤ b) : l.lineOf a ≤ l.lineOf b := by
  rw [lineOf, lineOf, ← Array.countP_toList, ← Array.countP_toList]
  apply List.countP_mono_left
  intro s _ hs
  simp only [decide_eq_true_eq] at hs ⊢
  exact hs.trans h

/-- The lines that start up to an offset are those in front. -/
theorem lt_countP_iff {l : List Span} (h : l.Pairwise (fun s s' ↦ s.offset < s'.offset)) {i : Nat}
    {s : Span} (hi : l[i]? = some s) (offset : Nat) :
    i < l.countP (fun s ↦ s.offset ≤ offset) ↔ s.offset ≤ offset := by
  induction l generalizing i with
  | nil => simp at hi
  | cons a l ih =>
    rw [List.pairwise_cons] at h
    rw [List.countP_cons]
    by_cases ha : a.offset ≤ offset
    · cases i with
      | zero =>
        obtain rfl : a = s := by simpa using hi
        simp [ha]
      | succ i =>
        rw [List.getElem?_cons_succ] at hi
        simp [ha, ih h.2 hi]
    · have hzero : l.countP (fun s ↦ s.offset ≤ offset) = 0 := by
        rw [List.countP_eq_zero]
        intro b hb
        have := h.1 b hb
        simp
        omega
      have hs : a.offset ≤ s.offset := by
        rcases List.mem_cons.1 (List.mem_of_getElem? hi) with rfl | hmem
        · exact le_rfl
        · exact (h.1 s hmem).le
      rw [hzero]
      simp [ha]
      omega

theorem at_ofBytes {bytes : ByteArray} (hsize : bytes.size ≤ maxOffset) :
    Reading.At bytes.data bytes.size (bytes.data.foldl Reading.step .init) :=
  Reading.at_foldl hsize

section OfBytes

variable {bytes : ByteArray} (hsize : bytes.size ≤ maxOffset) {i : Nat} {s : Span}
  (hs : (ofBytes bytes).spans[i]? = some s)
include hsize hs

theorem follows_next {next : Span} (hnext : (ofBytes bytes).spans[i + 1]? = some next) :
    Follows bytes.data s next := by
  have hchain := (at_ofBytes hsize).chain
  rw [List.isChain_iff_getElem] at hchain
  rw [ofBytes, ← Array.getElem?_toList, List.getElem?_eq_some_iff] at hs hnext
  obtain ⟨_, rfl⟩ := hs
  obtain ⟨hi, rfl⟩ := hnext
  exact hchain i hi

/-- The last line ends with the text. -/
theorem stop_of_last (hlast : (ofBytes bytes).spans[i + 1]? = none) :
    s.offset ≤ s.stop ∧ s.stop = bytes.size := by
  obtain ⟨hposition, hstart, -, -⟩ := at_ofBytes hsize
  have hi : i = (bytes.data.foldl Reading.step .init).finished.size := by
    have hlt := (Array.getElem?_eq_some_iff.1 hs).1
    rw [Array.getElem?_eq_none_iff] at hlast
    simp only [ofBytes, Reading.lines, Array.size_push] at hlt hlast
    omega
  rw [ofBytes, Reading.lines, hi, Array.getElem?_push_size, Option.some.injEq, hposition] at hs
  subst hs
  rw [offset_spanOf (hstart.trans hsize), stop_spanOf hstart hsize]
  exact ⟨hstart, rfl⟩

theorem offset_le_stop : s.offset ≤ s.stop := by
  cases hnext : (ofBytes bytes).spans[i + 1]? with
  | none => exact (stop_of_last hsize hs hnext).1
  | some next => exact (follows_next hsize hs hnext).offset_le

theorem lt_lineOf_iff (offset : Nat) : i < (ofBytes bytes).lineOf offset ↔ s.offset ≤ offset := by
  have hchain := (at_ofBytes hsize).chain
  have hstarts : (ofBytes bytes).spans.toList.IsChain (fun s s' ↦ s.offset < s'.offset) :=
    hchain.imp fun s s' h ↦ h.offset_le.trans_lt h.stop_lt
  have : IsTrans Span (fun s s' ↦ s.offset < s'.offset) := ⟨fun _ _ _ ↦ Nat.lt_trans⟩
  rw [lineOf, ← Array.countP_toList]
  exact lt_countP_iff hstarts.pairwise (by rw [Array.getElem?_toList, hs]) offset

/-- An offset on the line or at its end belongs to the line. -/
theorem lineOf_eq {offset : Nat} (hoffset : s.offset ≤ offset) (hstop : offset ≤ s.stop) :
    (ofBytes bytes).lineOf offset = i + 1 := by
  have hlower := (lt_lineOf_iff hsize hs offset).2 hoffset
  cases hnext : (ofBytes bytes).spans[i + 1]? with
  | none =>
    have hupper : (ofBytes bytes).lineOf offset ≤ (ofBytes bytes).spans.size := Array.countP_le_size
    rw [Array.getElem?_eq_none_iff] at hnext
    omega
  | some next =>
    have hupper := lt_lineOf_iff hsize hnext offset
    have := (follows_next hsize hs hnext).stop_lt
    omega

/-- An offset that belongs to the line, and to no terminator, lies before its end. -/
theorem lt_stop_of_lineOf {offset : Nat} (hline : (ofBytes bytes).lineOf offset = i + 1)
    (hoffset : offset < bytes.size) (htext : ¬IsTerminator bytes.data offset) :
    offset < s.stop := by
  cases hnext : (ofBytes bytes).spans[i + 1]? with
  | none => exact (stop_of_last hsize hs hnext).2 ▸ hoffset
  | some next =>
    have hupper := lt_lineOf_iff hsize hnext offset
    by_contra hge
    exact htext ((follows_next hsize hs hnext).terminator offset (by omega) (by omega))

end OfBytes

theorem span?_succ (l : Lines) (i : Nat) : l.span? (i + 1 : Nat) = l.spans[i]? := by
  have hline : (1 : Int) ≤ (i + 1 : Nat) := by omega
  rw [span?, if_pos hline]
  simp

theorem span?_eq_none_iff {l : Lines} {line : Int} :
    l.span? line = none ↔ ¬(1 ≤ line ∧ line ≤ l.count) := by
  unfold span? count
  split
  · rw [Array.getElem?_eq_none_iff]
    omega
  · next hline => simp [hline]

/-- A number outside the text, and no other, is refused. -/
theorem span_eq_error_iff {l : Lines} {line : Int} {e : Error} : l.span line = .error e ↔
    ¬(1 ≤ line ∧ line ≤ l.count) ∧
      e = .malformedInput s!"line {line} is outside 1..={l.count}" := by
  rw [← span?_eq_none_iff, span]
  cases l.span? line with
  | none => simp [eq_comm]
  | some s => simp

theorem inside_of_span {l : Lines} {line : Int} {s : Span} (h : l.span line = .ok s) :
    1 ≤ line ∧ line ≤ l.count := by
  by_contra houtside
  rw [span_eq_error_iff.2 ⟨houtside, rfl⟩] at h
  cases h

/-! ## Lines by their terminators -/

/-- The span is that of the line with a one-based number: it starts after as many line feeds as
there are lines before, holds none, and ends where the terminator or the end of the text is. -/
structure IsLine (bytes : Array UInt8) (line : Int) (s : Span) : Prop where
  feeds : ((bytes.toList.take s.offset).count 10 : Int) + 1 = line
  starts : s.offset = 0 ∨ bytes[s.offset - 1]? = some 10
  offset_le : s.offset ≤ s.stop
  no_feed : ∀ k, s.offset ≤ k → k < s.stop → bytes[k]? ≠ some 10
  ends : s.stop = bytes.size ∨
    (bytes[s.stop]? = some 10 ∧ ¬(s.offset < s.stop ∧ bytes[s.stop - 1]? = some 13)) ∨
    (bytes[s.stop]? = some 13 ∧ bytes[s.stop + 1]? = some 10)

namespace Reading

theorem count_take_succ {bytes : Array UInt8} {i : Nat} {b : UInt8} (hb : bytes[i]? = some b) :
    (bytes.toList.take (i + 1)).count 10 =
      (bytes.toList.take i).count 10 + if b = 10 then 1 else 0 := by
  rw [List.take_add_one, Array.getElem?_toList, hb, List.count_append]
  by_cases h : b = 10 <;> simp [h]

/-- The state after the first `i` bytes, by the line feeds among them. -/
structure Told (bytes : Array UInt8) (i : Nat) (r : Reading) : Prop extends At bytes i r where
  feeds_start : (bytes.toList.take r.start).count 10 = r.finished.size
  feeds : (bytes.toList.take i).count 10 = r.finished.size
  starts : r.start = 0 ∨ bytes[r.start - 1]? = some 10
  no_feed : ∀ k, r.start ≤ k → k < i → bytes[k]? ≠ some 10
  return_iff : r.afterReturn = true ↔ r.start < i ∧ bytes[i - 1]? = some 13
  isLine : ∀ (k : Nat) (s : Span), r.finished[k]? = some s → IsLine bytes (k + 1) s

theorem told_init (bytes : Array UInt8) : Told bytes 0 .init where
  toAt := at_init bytes
  feeds_start := rfl
  feeds := rfl
  starts := Or.inl rfl
  no_feed := by
    intro k _ hk
    exact absurd hk (Nat.not_lt_zero k)
  return_iff := by simp [init]
  isLine := by simp [init]

/-- The current line, if it ends before the byte at `i`. -/
theorem Told.isLine_spanOf {bytes : Array UInt8} {i : Nat} {r : Reading} (h : Told bytes i r)
    {stop : Nat} (hstart : r.start ≤ stop) (hstop : stop ≤ i) (hi : i ≤ maxOffset)
    (hends : stop = bytes.size ∨
      (bytes[stop]? = some 10 ∧ ¬(r.start < stop ∧ bytes[stop - 1]? = some 13)) ∨
      (bytes[stop]? = some 13 ∧ bytes[stop + 1]? = some 10)) :
    IsLine bytes (r.finished.size + 1) (spanOf r.start stop) := by
  have hoffset : (spanOf r.start stop).offset = r.start := offset_spanOf (by omega)
  have hend : (spanOf r.start stop).stop = stop := stop_spanOf hstart (by omega)
  refine ⟨?_, ?_, ?_, fun k hk hk' ↦ ?_, ?_⟩
  · rw [hoffset, h.feeds_start]
  · rw [hoffset]
    exact h.starts
  · rw [hoffset, hend]
    exact hstart
  · rw [hoffset] at hk
    rw [hend] at hk'
    exact h.no_feed k hk (by omega)
  · rw [hoffset, hend]
    exact hends

theorem Told.step {bytes : Array UInt8} {i : Nat} {r : Reading} {b : UInt8} (h : Told bytes i r)
    (hb : bytes[i]? = some b) (hi : i < maxOffset) : Told bytes (i + 1) (r.step b) := by
  have hat := h.toAt.step hb hi
  have hcount := count_take_succ hb
  have hposition := h.position_eq
  have hle := h.start_le
  unfold Reading.step at hat ⊢
  split at hat
  · next hfeed =>
    subst hfeed
    rw [if_pos rfl, h.feeds] at hcount
    have hline : IsLine bytes (r.finished.size + 1)
        (spanOf r.start (if r.afterReturn then r.position - 1 else r.position)) := by
      by_cases hafter : r.afterReturn = true
      · obtain ⟨hlt, hreturn⟩ := h.return_iff.1 hafter
        rw [if_pos hafter, hposition]
        refine h.isLine_spanOf (by omega) (by omega) hi.le (Or.inr (Or.inr ⟨hreturn, ?_⟩))
        rw [Nat.sub_add_cancel (by omega)]
        exact hb
      · rw [if_neg hafter, hposition]
        rw [h.return_iff] at hafter
        exact h.isLine_spanOf hle le_rfl hi.le (Or.inr (Or.inl ⟨hb, hafter⟩))
    rw [if_pos rfl]
    refine ⟨hat, ?_, ?_, Or.inr ?_, ?_, ?_, ?_⟩
    · simpa [hposition] using hcount
    · simpa using hcount
    · simpa [hposition] using hb
    · intro k hk hk'
      simp only [hposition] at hk
      omega
    · simp [hposition]
    · intro k s hk
      rw [Array.getElem?_push] at hk
      split at hk
      · next hlast =>
        obtain rfl := Option.some.inj hk
        rw [hlast]
        exact hline
      · exact h.isLine k s hk
  · next hfeed =>
    rw [if_neg hfeed, Nat.add_zero, h.feeds] at hcount
    rw [if_neg hfeed]
    refine ⟨hat, h.feeds_start, hcount, h.starts, ?_, ?_, h.isLine⟩
    · intro k hk hk'
      rcases Nat.lt_succ_iff_lt_or_eq.1 hk' with hlt | rfl
      · exact h.no_feed k hk hlt
      · rw [hb]
        exact fun heq ↦ hfeed (Option.some.inj heq)
    · have hlt : r.start < i + 1 := Nat.lt_succ_of_le hle
      simp [hb, hlt]

theorem told_foldl {bytes : Array UInt8} (hsize : bytes.size ≤ maxOffset) :
    Told bytes bytes.size (bytes.foldl Reading.step .init) := by
  apply Array.foldl_induction (fun i r ↦ Told bytes i r) (told_init bytes)
  intro i r hr
  exact hr.step (by simp) (by omega)

end Reading

/-- The spans of a text are those of its lines. -/
theorem isLine_of_span {bytes : ByteArray} (hsize : bytes.size ≤ maxOffset) {line : Int} {s : Span}
    (h : (ofBytes bytes).span line = .ok s) : IsLine bytes.data line s := by
  have htold : Reading.Told bytes.data bytes.size (bytes.data.foldl Reading.step .init) :=
    Reading.told_foldl hsize
  unfold span at h
  split at h
  · next s' hs =>
    obtain rfl := Except.ok.inj h
    unfold span? at hs
    split at hs
    · next hpos =>
      obtain ⟨i, rfl⟩ : ∃ i : Nat, line = i + 1 := ⟨(line - 1).toNat, by omega⟩
      rw [Int.add_sub_cancel, Int.toNat_natCast, ofBytes, Reading.lines,
        Array.getElem?_push] at hs
      split at hs
      · next hi =>
        obtain rfl := Option.some.inj hs
        rw [hi, htold.position_eq]
        exact htold.isLine_spanOf htold.start_le le_rfl hsize (Or.inl rfl)
      · exact htold.isLine i s' hs
    · cases hs
  · cases h

end BinaryNames.Lines
