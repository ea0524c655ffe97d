import BinaryNames.Proofs.Source.Lines
import Mathlib.Data.List.Forall2

/-!
# Lines Partition a Text

The line feeds of a text decide where its lines start and end and which terminators stand between
them.  The lines, each followed by its terminator, are the text again, and an offset belongs to the
last line that starts at it or before.
-/

namespace BinaryNames.Lines

/-- The bytes from `start` up to `stop`. -/
def slice (bytes : Array UInt8) (start stop : Nat) : List UInt8 :=
  (bytes.toList.take stop).drop start

/-- Where the line feeds among the first `size` bytes are. -/
def lineFeeds (bytes : Array UInt8) (size : Nat) : List Nat :=
  (List.range size).filter fun k ↦ bytes[k]? = some 10

/-- Whether a carriage return stands right before the byte at `k`. -/
def followsReturn (bytes : Array UInt8) (k : Nat) : Prop := 0 < k ∧ bytes[k - 1]? = some 13

instance (bytes : Array UInt8) (k : Nat) : Decidable (followsReturn bytes k) :=
  inferInstanceAs (Decidable (_ ∧ _))

/-- The terminator that ends with the line feed at `k`. -/
def terminator (bytes : Array UInt8) (k : Nat) : List UInt8 :=
  if followsReturn bytes k then [13, 10] else [10]

/-- Where the terminator that ends with the line feed at `k` begins. -/
def textEnd (bytes : Array UInt8) (k : Nat) : Nat :=
  if followsReturn bytes k then k - 1 else k

/-- Where the lines start: at the front and after every line feed. -/
def starts (bytes : ByteArray) : List Nat := 0 :: (lineFeeds bytes.data bytes.size).map (· + 1)

/-- Where the lines end: before their terminators, and the last one with the text. -/
def ends (bytes : ByteArray) : List Nat :=
  (lineFeeds bytes.data bytes.size).map (textEnd bytes.data) ++ [bytes.size]

/-- The terminators of the lines; the last line has none. -/
def terminators (bytes : ByteArray) : List (List UInt8) :=
  (lineFeeds bytes.data bytes.size).map (terminator bytes.data) ++ [[]]

/-- A line with its terminator, as bytes. -/
def terminated (bytes : Array UInt8) (s : Span) (terminator : List UInt8) : List UInt8 :=
  slice bytes s.offset s.stop ++ terminator

/-- The lines make up the text: what they are, where they are, and which offset belongs to which. -/
structure Partition (bytes : ByteArray) (l : Lines) : Prop where
  count_eq : l.count = bytes.data.toList.count 10 + 1
  span_ok_iff : ∀ line : Int, (∃ s, l.span line = .ok s) ↔ 1 ≤ line ∧ line ≤ l.count
  offsets : l.spans.toList.map Span.offset = starts bytes
  stops : l.spans.toList.map Span.stop = ends bytes
  starts_le_ends : List.Forall₂ (· ≤ ·) (starts bytes) (ends bytes)
  text_eq : (List.zipWith (terminated bytes.data) l.spans.toList (terminators bytes)).flatten =
    bytes.data.toList
  feed_notMem : ∀ (line : Int) (s : Span), l.span line = .ok s →
    10 ∉ slice bytes.data s.offset s.stop
  lineOf_mono : ∀ o o', o ≤ o' → l.lineOf o ≤ l.lineOf o'
  lineOf_eq_iff : ∀ (o : Nat) (line : Int), l.lineOf o = line ↔
    ∃ s, l.span line = .ok s ∧ s.offset ≤ o ∧
      (line = l.count ∨ ∃ next, l.span (line + 1) = .ok next ∧ o < next.offset)
  lineOf_of_span : ∀ (line : Int) (s : Span) (o : Nat), l.span line = .ok s →
    s.offset ≤ o → o ≤ s.stop → l.lineOf o = line

/-! ## Slices and line feeds -/

theorem slice_append {bytes : Array UInt8} {a b c : Nat} (hab : a ≤ b) (hbc : b ≤ c) :
    slice bytes a b ++ slice bytes b c = slice bytes a c := by
  have htake : bytes.toList.take b = (bytes.toList.take c).take b := by
    rw [List.take_take, Nat.min_eq_left hbc]
  rcases Nat.lt_or_ge (bytes.toList.take c).length b with hlt | hge
  · unfold slice
    rw [htake, List.take_of_length_le hlt.le, List.drop_eq_nil_of_le hlt.le, List.append_nil]
  · unfold slice
    rw [htake, List.drop_take]
    calc
      _ = ((bytes.toList.take c).drop a).take (b - a) ++
          ((bytes.toList.take c).drop a).drop (b - a) := by
        rw [List.drop_drop, Nat.add_sub_cancel' hab]
      _ = _ := List.take_append_drop _ _

theorem slice_zero (bytes : Array UInt8) (stop : Nat) :
    slice bytes 0 stop = bytes.toList.take stop := by
  rw [slice, List.drop_zero]

theorem slice_succ {bytes : Array UInt8} {k : Nat} {b : UInt8} (hb : bytes[k]? = some b) :
    slice bytes k (k + 1) = [b] := by
  have hlt : k < bytes.toList.length := (Array.getElem?_eq_some_iff.1 hb).1
  rw [slice, List.take_add_one, Array.getElem?_toList, hb, List.drop_append_of_le_length,
    List.drop_eq_nil_of_le]
  · rfl
  · exact List.length_take_le k _
  · rw [List.length_take]
    omega

theorem mem_slice {bytes : Array UInt8} {start stop : Nat} {b : UInt8}
    (h : b ∈ slice bytes start stop) : ∃ k, start ≤ k ∧ k < stop ∧ bytes[k]? = some b := by
  obtain ⟨j, hj⟩ := List.mem_iff_getElem?.1 h
  rw [slice, List.getElem?_drop, List.getElem?_take] at hj
  split at hj
  · next hlt => exact ⟨start + j, by omega, hlt, by rwa [Array.getElem?_toList] at hj⟩
  · cases hj

theorem lineFeeds_succ_of_feed {bytes : Array UInt8} {i : Nat} (h : bytes[i]? = some 10) :
    lineFeeds bytes (i + 1) = lineFeeds bytes i ++ [i] := by
  simp [lineFeeds, List.range_succ, h]

theorem lineFeeds_succ_of_ne {bytes : Array UInt8} {i : Nat} (h : bytes[i]? ≠ some 10) :
    lineFeeds bytes (i + 1) = lineFeeds bytes i := by
  simp [lineFeeds, List.range_succ, h]

theorem textEnd_le (bytes : Array UInt8) (k : Nat) : textEnd bytes k ≤ k := by
  unfold textEnd
  split
  · exact Nat.sub_le k 1
  · exact le_rfl

/-- The terminator is what stands between the end of its line and the start of the next. -/
theorem slice_textEnd {bytes : Array UInt8} {k : Nat} (h : bytes[k]? = some 10) :
    slice bytes (textEnd bytes k) (k + 1) = terminator bytes k := by
  unfold textEnd terminator
  split
  · next hreturn =>
    obtain ⟨hpos, hreturn⟩ := hreturn
    have hfirst := slice_succ hreturn
    rw [Nat.sub_add_cancel hpos] at hfirst
    rw [← slice_append (Nat.sub_le k 1) (Nat.le_succ k), hfirst, slice_succ h]
    rfl
  · exact slice_succ h

/-! ## One byte after another -/

namespace Reading

/-- The finished lines, by the line feeds among the first `i` bytes. -/
structure Parted (bytes : Array UInt8) (i : Nat) (r : Reading) : Prop extends Told bytes i r where
  offsets : r.finished.toList.map Span.offset ++ [r.start] = 0 :: (lineFeeds bytes i).map (· + 1)
  stops : r.finished.toList.map Span.stop = (lineFeeds bytes i).map (textEnd bytes)
  text_eq : (List.zipWith (terminated bytes) r.finished.toList
    ((lineFeeds bytes i).map (terminator bytes))).flatten = slice bytes 0 r.start

theorem parted_init (bytes : Array UInt8) : Parted bytes 0 .init where
  toTold := told_init bytes
  offsets := rfl
  stops := rfl
  text_eq := rfl

/-- Where a line feed comes next, the current line ends before its terminator. -/
theorem Told.stop_eq {bytes : Array UInt8} {i : Nat} {r : Reading} (h : Told bytes i r) :
    (if r.afterReturn then r.position - 1 else r.position) = textEnd bytes i ∧
      r.start ≤ textEnd bytes i := by
  have hreturn : r.afterReturn = true ↔ followsReturn bytes i := by
    rw [h.return_iff]
    unfold followsReturn
    constructor
    · exact fun ⟨hlt, hcr⟩ ↦ ⟨Nat.zero_lt_of_lt hlt, hcr⟩
    · -- a carriage return right before `i` is on the current line, whose start follows a line feed
      intro ⟨hpos, hcr⟩
      refine ⟨lt_of_le_of_ne h.start_le fun heq ↦ ?_, hcr⟩
      rcases h.starts with hzero | hfeed
      · omega
      · rw [heq, hcr] at hfeed
        exact absurd (Option.some.inj hfeed) (by decide)
  unfold textEnd
  by_cases hafter : r.afterReturn = true
  · rw [if_pos hafter, if_pos (hreturn.1 hafter), h.position_eq]
    have hlt := (h.return_iff.1 hafter).1
    exact ⟨rfl, by omega⟩
  · rw [if_neg hafter, if_neg fun hcr ↦ hafter (hreturn.2 hcr), h.position_eq]
    exact ⟨rfl, h.start_le⟩

theorem Parted.length_finished {bytes : Array UInt8} {i : Nat} {r : Reading}
    (h : Parted bytes i r) :
    r.finished.toList.length = ((lineFeeds bytes i).map (terminator bytes)).length := by
  simpa using congrArg List.length h.stops

theorem Parted.step {bytes : Array UInt8} {i : Nat} {r : Reading} {b : UInt8}
    (h : Parted bytes i r) (hb : bytes[i]? = some b) (hi : i < maxOffset) :
    Parted bytes (i + 1) (r.step b) := by
  have htold := h.toTold.step hb hi
  by_cases hfeed : b = 10
  · subst hfeed
    obtain ⟨hstop, hle⟩ := h.toTold.stop_eq
    have hend := textEnd_le bytes i
    have hoffset : (spanOf r.start (textEnd bytes i)).offset = r.start := offset_spanOf (by omega)
    have hspan : (spanOf r.start (textEnd bytes i)).stop = textEnd bytes i :=
      stop_spanOf hle (by omega)
    have hfinished : (r.step 10).finished.toList =
        r.finished.toList ++ [spanOf r.start (textEnd bytes i)] := by
      rw [← hstop]
      simp [Reading.step]
    have hstart : (r.step 10).start = i + 1 := by simp [Reading.step, h.position_eq]
    refine ⟨htold, ?_, ?_, ?_⟩
    · rw [hfinished, hstart, lineFeeds_succ_of_feed hb, List.map_append, List.map_singleton,
        hoffset, h.offsets]
      simp
    · rw [hfinished, lineFeeds_succ_of_feed hb, List.map_append, h.stops, List.map_append,
        List.map_singleton, List.map_singleton, hspan]
    · rw [hfinished, hstart, lineFeeds_succ_of_feed hb, List.map_append,
        List.zipWith_append h.length_finished, List.flatten_append, h.text_eq]
      -- the current line joins what is finished, up to and with the line feed
      have hline : terminated bytes (spanOf r.start (textEnd bytes i)) (terminator bytes i) =
          slice bytes r.start (i + 1) := by
        rw [terminated, hoffset, hspan, ← slice_textEnd hb, slice_append hle (by omega)]
      rw [List.map_singleton, List.zipWith_cons_cons, List.zipWith_nil_left, hline,
        List.flatten_singleton]
      exact slice_append (Nat.zero_le _) (by omega)
  · have hfinished : (r.step b).finished = r.finished := by simp [Reading.step, hfeed]
    have hstart : (r.step b).start = r.start := by simp [Reading.step, hfeed]
    have hfeeds : lineFeeds bytes (i + 1) = lineFeeds bytes i :=
      lineFeeds_succ_of_ne fun heq ↦ hfeed (Option.some.inj (hb.symm.trans heq))
    refine ⟨htold, ?_, ?_, ?_⟩
    · rw [hfinished, hstart, hfeeds]
      exact h.offsets
    · rw [hfinished, hfeeds]
      exact h.stops
    · rw [hfinished, hstart, hfeeds]
      exact h.text_eq

theorem parted_foldl {bytes : Array UInt8} (hsize : bytes.size ≤ maxOffset) :
    Parted bytes bytes.size (bytes.foldl Reading.step .init) := by
  apply Array.foldl_induction (fun i r ↦ Parted bytes i r) (parted_init bytes)
  intro i r hr
  exact hr.step (by simp) (by omega)

end Reading

/-! ## The whole text -/

theorem span_eq_ok_iff {l : Lines} {line : Int} {s : Span} :
    l.span line = .ok s ↔ ∃ i : Nat, line = i + 1 ∧ l.spans[i]? = some s := by
  have hspan : l.span line = .ok s ↔ l.span? line = some s := by
    rw [span]
    cases l.span? line <;> simp
  rw [hspan]
  constructor
  · intro h
    have hpos : 1 ≤ line := by
      by_contra hlt
      rw [span?, if_neg hlt] at h
      cases h
    rw [span?, if_pos hpos] at h
    exact ⟨(line - 1).toNat, by omega, h⟩
  · rintro ⟨i, rfl, hi⟩
    exact (l.span?_succ i).trans hi

section OfBytes

variable {bytes : ByteArray} (hsize : bytes.size ≤ maxOffset)
include hsize

theorem count_ofBytes : (ofBytes bytes).count = bytes.data.toList.count 10 + 1 := by
  have h : Reading.Told bytes.data bytes.data.size (bytes.data.foldl Reading.step .init) :=
    Reading.told_foldl hsize
  have hfeeds := h.feeds
  rw [List.take_of_length_le (by simp)] at hfeeds
  rw [hfeeds, count, ofBytes, Reading.lines, Array.size_push]

/-- The offsets and the stops of the lines, and the text that they make up. -/
theorem parted_ofBytes :
    (ofBytes bytes).spans.toList.map Span.offset = starts bytes ∧
      (ofBytes bytes).spans.toList.map Span.stop = ends bytes ∧
      (List.zipWith (terminated bytes.data) (ofBytes bytes).spans.toList
        (terminators bytes)).flatten = bytes.data.toList := by
  have h : Reading.Parted bytes.data bytes.size (bytes.data.foldl Reading.step .init) :=
    Reading.parted_foldl hsize
  have hspans : (ofBytes bytes).spans.toList =
      (bytes.data.foldl Reading.step .init).finished.toList ++
        [spanOf (bytes.data.foldl Reading.step .init).start bytes.size] := by
    rw [ofBytes, Reading.toList_lines, h.position_eq]
  rw [hspans]
  generalize bytes.data.foldl Reading.step .init = r at h
  have hstart : r.start ≤ bytes.size := h.start_le
  have hoffset : (spanOf r.start bytes.size).offset = r.start :=
    offset_spanOf (hstart.trans hsize)
  have hstop : (spanOf r.start bytes.size).stop = bytes.size := stop_spanOf hstart hsize
  refine ⟨?_, ?_, ?_⟩
  · rw [List.map_append, List.map_singleton, hoffset]
    exact h.offsets
  · rw [List.map_append, List.map_singleton, hstop]
    exact congrArg (· ++ [bytes.size]) h.stops
  · have hlast : terminated bytes.data (spanOf r.start bytes.size) [] =
        slice bytes.data r.start bytes.size := by
      rw [terminated, hoffset, hstop, List.append_nil]
    have htext : (List.zipWith (terminated bytes.data) r.finished.toList
        ((lineFeeds bytes.data bytes.size).map (terminator bytes.data))).flatten =
          slice bytes.data 0 r.start := h.text_eq
    rw [terminators, List.zipWith_append h.length_finished, List.flatten_append, htext,
      List.zipWith_cons_cons, List.zipWith_nil_left, hlast, List.flatten_singleton,
      slice_append (Nat.zero_le _) hstart, slice_zero]
    exact List.take_of_length_le le_rfl

/-- No line ends before it starts. -/
theorem starts_le_ends : List.Forall₂ (· ≤ ·) (starts bytes) (ends bytes) := by
  obtain ⟨hoffsets, hstops, -⟩ := parted_ofBytes hsize
  rw [← hoffsets, ← hstops, List.forall₂_map_left_iff, List.forall₂_map_right_iff,
    List.forall₂_same]
  intro s hs
  obtain ⟨i, hi⟩ := List.mem_iff_getElem?.1 hs
  rw [Array.getElem?_toList] at hi
  exact offset_le_stop hsize hi

theorem feed_notMem_slice {line : Int} {s : Span} (h : (ofBytes bytes).span line = .ok s) :
    10 ∉ slice bytes.data s.offset s.stop := by
  intro hmem
  obtain ⟨k, hstart, hstop, hk⟩ := mem_slice hmem
  exact (isLine_of_span hsize h).no_feed k hstart hstop hk

/-- The first line starts with the text. -/
theorem exists_first : ∃ s, (ofBytes bytes).spans[0]? = some s ∧ s.offset = 0 := by
  have hoffsets := (parted_ofBytes hsize).1
  have hfirst : ((ofBytes bytes).spans.toList.map Span.offset)[0]? = some 0 := by
    rw [hoffsets, starts]
    rfl
  rw [List.getElem?_map, Array.getElem?_toList, Option.map_eq_some_iff] at hfirst
  exact hfirst

/-- An offset belongs to the last line that starts at it or before. -/
theorem lineOf_eq_iff (o : Nat) (line : Int) : (ofBytes bytes).lineOf o = line ↔
    ∃ s, (ofBytes bytes).span line = .ok s ∧ s.offset ≤ o ∧
      (line = (ofBytes bytes).count ∨
        ∃ next, (ofBytes bytes).span (line + 1) = .ok next ∧ o < next.offset) := by
  have hupper : (ofBytes bytes).lineOf o ≤ (ofBytes bytes).count := Array.countP_le_size
  constructor
  · rintro rfl
    obtain ⟨first, hfirst, hzero⟩ := exists_first hsize
    have hpos := (lt_lineOf_iff hsize hfirst o).2 (by omega)
    obtain ⟨i, hi⟩ : ∃ i, (ofBytes bytes).lineOf o = i + 1 :=
      ⟨(ofBytes bytes).lineOf o - 1, by omega⟩
    have hlt : i < (ofBytes bytes).spans.size := by
      rw [hi] at hupper
      exact hupper
    have hs := Array.getElem?_eq_getElem hlt
    refine ⟨_, span_eq_ok_iff.2 ⟨i, by omega, hs⟩, (lt_lineOf_iff hsize hs o).1 (by omega), ?_⟩
    cases hnext : (ofBytes bytes).spans[i + 1]? with
    | none =>
      rw [Array.getElem?_eq_none_iff] at hnext
      unfold count at hupper ⊢
      exact Or.inl (by omega)
    | some next =>
      refine Or.inr ⟨next, span_eq_ok_iff.2 ⟨i + 1, by omega, hnext⟩, ?_⟩
      have := lt_lineOf_iff hsize hnext o
      omega
  · rintro ⟨s, hs, hoffset, hlast⟩
    obtain ⟨i, rfl, hi⟩ := span_eq_ok_iff.1 hs
    have hlower := (lt_lineOf_iff hsize hi o).2 hoffset
    rcases hlast with hcount | ⟨next, hnext, hlt⟩
    · omega
    · obtain ⟨j, hj, hnext⟩ := span_eq_ok_iff.1 hnext
      obtain rfl : j = i + 1 := by omega
      have := lt_lineOf_iff hsize hnext o
      omega

end OfBytes

/-- The lines of a text of fewer bytes than an offset can count partition it. -/
theorem partition_ofBytes {bytes : ByteArray} (hsize : bytes.size ≤ maxOffset) :
    Partition bytes (ofBytes bytes) where
  count_eq := count_ofBytes hsize
  span_ok_iff := by
    intro line
    constructor
    · rintro ⟨s, hs⟩
      exact inside_of_span hs
    · intro hinside
      cases hs : (ofBytes bytes).span line with
      | ok s => exact ⟨s, rfl⟩
      | error e => exact absurd hinside (span_eq_error_iff.1 hs).1
  offsets := (parted_ofBytes hsize).1
  stops := (parted_ofBytes hsize).2.1
  starts_le_ends := starts_le_ends hsize
  text_eq := (parted_ofBytes hsize).2.2
  feed_notMem := fun _ _ ↦ feed_notMem_slice hsize
  lineOf_mono := fun _ _ ↦ lineOf_mono _
  lineOf_eq_iff := lineOf_eq_iff hsize
  lineOf_of_span := by
    intro line s o hs hstart hstop
    obtain ⟨i, rfl, hi⟩ := span_eq_ok_iff.1 hs
    rw [lineOf_eq hsize hi hstart hstop]
    rfl

/-- A terminator at the front, a carriage return in a line, an empty line, and no terminator at the
end. -/
def mixedBytes : ByteArray := "\r\na\r\r\n\nb".toUTF8

theorem partition_mixedBytes :
    mixedBytes.size ≤ maxOffset ∧
      (ofBytes mixedBytes).spans.toList = [⟨0, 0⟩, ⟨2, 2⟩, ⟨6, 0⟩, ⟨7, 1⟩] ∧
      terminators mixedBytes = [[13, 10], [13, 10], [10], []] ∧
      Partition mixedBytes (ofBytes mixedBytes) := by
  have hsize : mixedBytes.size ≤ maxOffset := by decide
  exact ⟨hsize, by decide, by decide, partition_ofBytes hsize⟩

end BinaryNames.Lines
