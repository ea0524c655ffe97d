import BinaryNames.Text.Split
import BinaryNames.Text.Utf8
import Mathlib.Data.List.Basic

/-!
# Codes for Texts

Pieces without the separator come back when what they are joined to is split, and a text comes back
from its UTF-8 bytes.  Bytes below 128 stand for themselves only, so a separator that is one of them
is found in the bytes exactly where it is in the text.
-/

namespace BinaryNames

/-! ## Pieces -/

section Pieces

variable {α : Type} [DecidableEq α] {sep : α}

theorem splitOn_of_notMem {l : List α} (h : sep ∉ l) : splitOn sep l = [l] := by
  induction l with
  | nil => rfl
  | cons a rest ih =>
    rw [List.mem_cons, not_or] at h
    rw [splitOn, if_neg (Ne.symm h.1), ih h.2]

theorem splitOn_append (l rest : List α) :
    splitOn sep (l ++ sep :: rest) = splitOn sep l ++ splitOn sep rest := by
  induction l with
  | nil => simp [splitOn]
  | cons a l ih =>
    obtain ⟨piece, pieces, hl⟩ := List.exists_cons_of_ne_nil (splitOn_ne_nil sep l)
    rw [List.cons_append, splitOn, ih, splitOn, hl]
    split <;> rfl

omit [DecidableEq α] in
theorem joinWith_cons (sep : α) (piece : List α) {pieces : List (List α)} (h : pieces ≠ []) :
    joinWith sep (piece :: pieces) = piece ++ sep :: joinWith sep pieces := by
  cases pieces with
  | nil => exact absurd rfl h
  | cons q qs => rfl

theorem splitOn_joinWith {pieces : List (List α)} (hne : pieces ≠ [])
    (h : ∀ piece ∈ pieces, sep ∉ piece) : splitOn sep (joinWith sep pieces) = pieces := by
  induction pieces with
  | nil => exact absurd rfl hne
  | cons piece rest ih =>
    have hpiece := h piece List.mem_cons_self
    cases rest with
    | nil => exact splitOn_of_notMem hpiece
    | cons q qs =>
      rw [joinWith_cons sep piece (by simp), splitOn_append, splitOn_of_notMem hpiece,
        ih (by simp) fun p hp ↦ h p (List.mem_cons_of_mem piece hp), List.singleton_append]

theorem notMem_of_mem_splitOn {l piece : List α} (h : piece ∈ splitOn sep l) : sep ∉ piece := by
  induction l generalizing piece with
  | nil =>
    rw [splitOn, List.mem_singleton] at h
    simp [h]
  | cons a rest ih =>
    rw [splitOn] at h
    split at h
    · rcases List.mem_cons.1 h with rfl | h
      · simp
      · exact ih h
    · next ha =>
      split at h
      · next hnil => exact absurd hnil (splitOn_ne_nil sep rest)
      · next first others hcons =>
        rw [hcons] at ih
        rcases List.mem_cons.1 h with rfl | h
        · rw [List.mem_cons, not_or]
          exact ⟨Ne.symm ha, ih List.mem_cons_self⟩
        · exact ih (List.mem_cons_of_mem first h)

omit [DecidableEq α] in
theorem joinWith_append (sep : α) {first second : List (List α)} (hfirst : first ≠ [])
    (hsecond : second ≠ []) :
    joinWith sep (first ++ second) = joinWith sep first ++ sep :: joinWith sep second := by
  induction first with
  | nil => exact absurd rfl hfirst
  | cons piece rest ih =>
    cases rest with
    | nil => exact joinWith_cons sep piece hsecond
    | cons q qs =>
      rw [List.cons_append, joinWith_cons sep piece (by simp), ih (by simp),
        joinWith_cons sep piece (by simp), List.append_assoc, List.cons_append]

omit [DecidableEq α] in
theorem mem_joinWith {pieces : List (List α)} {a : α} (h : a ∈ joinWith sep pieces) :
    a = sep ∨ ∃ piece ∈ pieces, a ∈ piece := by
  induction pieces with
  | nil => cases h
  | cons piece rest ih =>
    cases rest with
    | nil => exact Or.inr ⟨piece, List.mem_cons_self, h⟩
    | cons next others =>
      rw [joinWith_cons sep piece (by simp), List.mem_append, List.mem_cons] at h
      rcases h with h | rfl | h
      · exact Or.inr ⟨piece, List.mem_cons_self, h⟩
      · exact Or.inl rfl
      · exact (ih h).imp_right fun ⟨other, hother, ha⟩ ↦
          ⟨other, List.mem_cons_of_mem piece hother, ha⟩

omit [DecidableEq α] in
theorem joinWith_ne_nil {pieces : List (List α)} (hne : pieces ≠ [])
    (h : ∀ piece ∈ pieces, piece ≠ []) : joinWith sep pieces ≠ [] := by
  obtain ⟨piece, rest, rfl⟩ := List.exists_cons_of_ne_nil hne
  have hpiece := h piece List.mem_cons_self
  cases rest <;> simp [joinWith, hpiece]

omit [DecidableEq α] in
theorem dropWhile_eq_self {p : α → Bool} {l : List α} (h : ∀ a ∈ l, p a = false) :
    l.dropWhile p = l := by
  cases l with
  | nil => rfl
  | cons a rest => rw [List.dropWhile_cons_of_neg (by simp [h a List.mem_cons_self])]

end Pieces

namespace Utf8

/-! ## Bytes -/

theorem lead_two {b : Nat} (hlo : 0xC2 ≤ b) (hhi : b < 0xE0) :
    lead b = some (1, 0x80, 0xBF, b - 0xC0) := by
  unfold lead
  rw [if_neg (by omega), if_pos hhi]

theorem lead_three {b : Nat} (hlo : 0xE0 ≤ b) (hhi : b < 0xF0) :
    lead b = some (2, if b = 0xE0 then 0xA0 else 0x80, if b = 0xED then 0x9F else 0xBF,
      b - 0xE0) := by
  unfold lead
  rw [if_neg (by omega), if_neg (by omega)]
  grind

theorem lead_four {b : Nat} (hlo : 0xF0 ≤ b) (hhi : b < 0xF5) :
    lead b = some (3, if b = 0xF0 then 0x90 else 0x80, if b = 0xF4 then 0x8F else 0xBF,
      b - 0xF0) := by
  unfold lead
  rw [if_neg (by omega), if_neg (by omega)]
  grind

theorem lossyChars_cons (pending : Option Pending) (b : UInt8) (rest : List UInt8) :
    lossyChars pending (b :: rest) = (step pending b).1 ++ lossyChars (step pending b).2 rest := rfl

theorem step_ascii {b : UInt8} (h : b.toNat < 0x80) :
    step none b = ([Char.ofNat b.toNat], none) := by
  rw [step, start, if_pos h]

theorem step_lead {b : UInt8} {n lo hi bits : Nat} (hb : 0x80 ≤ b.toNat)
    (hlead : lead b.toNat = some (n, lo, hi, bits)) :
    step none b = ([], some ⟨n, lo, hi, bits⟩) := by
  rw [step, start, if_neg (by omega), hlead]

theorem step_last {p : Pending} {b : UInt8} (hlo : p.least ≤ b.toNat) (hhi : b.toNat ≤ p.greatest)
    (hmissing : p.missing = 1) :
    step (some p) b = ([Char.ofNat (p.bits * 64 + (b.toNat - 0x80))], none) := by
  simp [step, hlo, hhi, hmissing]

theorem step_more {p : Pending} {b : UInt8} (hlo : p.least ≤ b.toNat) (hhi : b.toNat ≤ p.greatest)
    (hmissing : 1 < p.missing) :
    step (some p) b =
      ([], some ⟨p.missing - 1, 0x80, 0xBF, p.bits * 64 + (b.toNat - 0x80)⟩) := by
  simp [step, hlo, hhi, Nat.not_le.2 hmissing]

section Sequences

variable {a b c d : UInt8} (rest : List UInt8)

theorem lossyChars_two (ha : 0xC2 ≤ a.toNat ∧ a.toNat < 0xE0)
    (hb : 0x80 ≤ b.toNat ∧ b.toNat ≤ 0xBF) :
    lossyChars none (a :: b :: rest) =
      Char.ofNat ((a.toNat - 0xC0) * 64 + (b.toNat - 0x80)) :: lossyChars none rest := by
  rw [lossyChars_cons, step_lead (by omega) (lead_two ha.1 ha.2), List.nil_append,
    lossyChars_cons, step_last hb.1 hb.2 rfl, List.singleton_append]

theorem lossyChars_three (ha : 0xE0 ≤ a.toNat ∧ a.toNat < 0xF0)
    (hb : (if a.toNat = 0xE0 then 0xA0 else 0x80) ≤ b.toNat ∧
      b.toNat ≤ if a.toNat = 0xED then 0x9F else 0xBF)
    (hc : 0x80 ≤ c.toNat ∧ c.toNat ≤ 0xBF) :
    lossyChars none (a :: b :: c :: rest) =
      Char.ofNat (((a.toNat - 0xE0) * 64 + (b.toNat - 0x80)) * 64 + (c.toNat - 0x80)) ::
        lossyChars none rest := by
  rw [lossyChars_cons, step_lead (by omega) (lead_three ha.1 ha.2), List.nil_append,
    lossyChars_cons, step_more hb.1 hb.2 (by simp), List.nil_append,
    lossyChars_cons, step_last hc.1 hc.2 rfl, List.singleton_append]

theorem lossyChars_four (ha : 0xF0 ≤ a.toNat ∧ a.toNat < 0xF5)
    (hb : (if a.toNat = 0xF0 then 0x90 else 0x80) ≤ b.toNat ∧
      b.toNat ≤ if a.toNat = 0xF4 then 0x8F else 0xBF)
    (hc : 0x80 ≤ c.toNat ∧ c.toNat ≤ 0xBF) (hd : 0x80 ≤ d.toNat ∧ d.toNat ≤ 0xBF) :
    lossyChars none (a :: b :: c :: d :: rest) =
      Char.ofNat ((((a.toNat - 0xF0) * 64 + (b.toNat - 0x80)) * 64 + (c.toNat - 0x80)) * 64 +
        (d.toNat - 0x80)) :: lossyChars none rest := by
  rw [lossyChars_cons, step_lead (by omega) (lead_four ha.1 ha.2), List.nil_append,
    lossyChars_cons, step_more hb.1 hb.2 (by simp), List.nil_append,
    lossyChars_cons, step_more hc.1 hc.2 (by simp), List.nil_append,
    lossyChars_cons, step_last hd.1 hd.2 rfl, List.singleton_append]

end Sequences

theorem toNat_ofNat_of_lt {n : Nat} (h : n < 256) : (UInt8.ofNat n).toNat = n := by
  rw [UInt8.toNat_ofNat', Nat.mod_eq_of_lt h]

/-- The bytes of a character are read as that character. -/
theorem lossyChars_utf8EncodeChar (c : Char) (rest : List UInt8) :
    lossyChars none (String.utf8EncodeChar c ++ rest) = c :: lossyChars none rest := by
  have hvalid : c.val.toNat < 0xD800 ∨ 0xDFFF < c.val.toNat ∧ c.val.toNat < 0x110000 := c.valid
  have hchar : Char.ofNat c.val.toNat = c := Char.ofNat_toNat c
  unfold String.utf8EncodeChar
  generalize c.val.toNat = v at hvalid hchar
  dsimp only
  split
  · have hbyte := toNat_ofNat_of_lt (n := v) (by omega)
    rw [List.singleton_append, lossyChars_cons, step_ascii (by omega), hbyte, hchar]
    rfl
  split
  · have ha := toNat_ofNat_of_lt (n := v / 64 % 32 + 192) (by omega)
    have hb := toNat_ofNat_of_lt (n := v % 64 + 128) (by omega)
    have hv : (v / 64 % 32 + 192 - 0xC0) * 64 + (v % 64 + 128 - 0x80) = v := by omega
    rw [List.cons_append, List.singleton_append, lossyChars_two rest (by omega) (by omega), ha, hb,
      hv, hchar]
  split
  · have ha := toNat_ofNat_of_lt (n := v / 4096 % 16 + 224) (by omega)
    have hb := toNat_ofNat_of_lt (n := v / 64 % 64 + 128) (by omega)
    have hc := toNat_ofNat_of_lt (n := v % 64 + 128) (by omega)
    have hv : ((v / 4096 % 16 + 224 - 0xE0) * 64 + (v / 64 % 64 + 128 - 0x80)) * 64 +
        (v % 64 + 128 - 0x80) = v := by omega
    rw [List.cons_append, List.cons_append, List.singleton_append,
      lossyChars_three rest (by omega) (by rw [ha, hb]; split <;> split <;> omega) (by omega),
      ha, hb, hc, hv, hchar]
  · have ha := toNat_ofNat_of_lt (n := v / 262144 % 8 + 240) (by omega)
    have hb := toNat_ofNat_of_lt (n := v / 4096 % 64 + 128) (by omega)
    have hc := toNat_ofNat_of_lt (n := v / 64 % 64 + 128) (by omega)
    have hd := toNat_ofNat_of_lt (n := v % 64 + 128) (by omega)
    have hv : (((v / 262144 % 8 + 240 - 0xF0) * 64 + (v / 4096 % 64 + 128 - 0x80)) * 64 +
        (v / 64 % 64 + 128 - 0x80)) * 64 + (v % 64 + 128 - 0x80) = v := by omega
    rw [List.cons_append, List.cons_append, List.cons_append, List.singleton_append,
      lossyChars_four rest (by omega) (by rw [ha, hb]; split <;> split <;> omega) (by omega)
        (by omega), ha, hb, hc, hd, hv, hchar]

theorem lossyChars_flatMap (chars : List Char) :
    lossyChars none (chars.flatMap String.utf8EncodeChar) = chars := by
  induction chars with
  | nil => rfl
  | cons c rest ih => rw [List.flatMap_cons, lossyChars_utf8EncodeChar, ih]

theorem decodeLossy_encode (text : String) : decodeLossy (encode text) = text := by
  rw [decodeLossy, encode, lossyChars_flatMap, String.ofList_toList]

/-- A byte below 128 among the bytes of a character is all of them. -/
theorem utf8EncodeChar_of_ascii {c : Char} {b : UInt8} (hb : b ∈ String.utf8EncodeChar c)
    (hascii : b.toNat < 0x80) : c.toNat = b.toNat := by
  have hv : c.toNat = c.val.toNat := rfl
  rw [hv]
  unfold String.utf8EncodeChar at hb
  generalize c.val.toNat = v at hb
  dsimp only at hb
  split at hb
  · rw [List.mem_singleton] at hb
    rw [hb, toNat_ofNat_of_lt (by omega)]
  · exfalso
    have high : ∀ k, 128 ≤ k → k < 256 → b ≠ UInt8.ofNat k := by
      rintro k hlo hhi rfl
      rw [toNat_ofNat_of_lt hhi] at hascii
      omega
    split at hb
    · simp only [List.mem_cons, List.not_mem_nil, or_false] at hb
      rcases hb with hb | hb
      all_goals exact high _ (by omega) (by omega) hb
    split at hb
    · simp only [List.mem_cons, List.not_mem_nil, or_false] at hb
      rcases hb with hb | hb | hb
      all_goals exact high _ (by omega) (by omega) hb
    · simp only [List.mem_cons, List.not_mem_nil, or_false] at hb
      rcases hb with hb | hb | hb | hb
      all_goals exact high _ (by omega) (by omega) hb

theorem mem_encode_of_ascii {text : String} {b : UInt8} (hb : b ∈ encode text)
    (hascii : b.toNat < 0x80) : ∃ c ∈ text.toList, c.toNat = b.toNat := by
  obtain ⟨c, hc, hbyte⟩ := List.mem_flatMap.1 hb
  exact ⟨c, hc, utf8EncodeChar_of_ascii hbyte hascii⟩

/-- The character that has begun is beyond 127, by its bits so far or by those of the next byte. -/
def Pending.BeyondAscii (p : Pending) : Prop :=
  2 ≤ p.bits ∨ 1 < p.missing ∧ 2 ≤ p.bits * 64 + (p.least - 0x80)

theorem beyondAscii_of_lead {b n lo hi bits : Nat} (h : lead b = some (n, lo, hi, bits)) :
    Pending.BeyondAscii ⟨n, lo, hi, bits⟩ := by
  unfold lead at h
  unfold Pending.BeyondAscii
  grind

theorem toNat_ofNat_char (n : Nat) : (Char.ofNat n).toNat = n ∨ (Char.ofNat n).toNat = 0 := by
  by_cases hvalid : n.isValidChar
  · left
    rw [Char.ofNat, dif_pos hvalid]
    rfl
  · right
    rw [Char.ofNat, dif_neg hvalid]
    rfl

theorem beyondAscii_start {b : UInt8} {p : Pending} (hp : (start b).2 = some p) :
    p.BeyondAscii := by
  unfold start at hp
  split at hp
  · cases hp
  split at hp
  · next hlead =>
    obtain rfl := Option.some.inj hp
    exact beyondAscii_of_lead hlead
  · cases hp

theorem beyondAscii_step {pending : Option Pending} (hpending : ∀ p ∈ pending, p.BeyondAscii)
    {b : UInt8} {p : Pending} (hp : (step pending b).2 = some p) : p.BeyondAscii := by
  cases pending with
  | none => exact beyondAscii_start hp
  | some q =>
    have hq := hpending q rfl
    simp only [step] at hp
    split at hp
    · next hrange =>
      simp only [Bool.and_eq_true, decide_eq_true_eq] at hrange
      split at hp
      · cases hp
      · obtain rfl := Option.some.inj hp
        unfold Pending.BeyondAscii at hq ⊢
        dsimp only
        omega
    · exact beyondAscii_start hp

section Ascii

variable {c : Char} (hpos : 0 < c.toNat) (hascii : c.toNat < 0x80)
include hpos hascii

omit hpos in
theorem ne_replacement : c ≠ replacement := by
  rintro rfl
  exact absurd hascii (by decide)

theorem eq_of_mem_start {b : UInt8} (hc : c ∈ (start b).1) : b.toNat = c.toNat := by
  unfold start at hc
  split at hc
  · rw [List.mem_singleton.1 hc] at hpos ⊢
    rcases toNat_ofNat_char b.toNat with h | h <;> omega
  split at hc
  · cases hc
  · exact absurd (List.mem_singleton.1 hc) (ne_replacement hascii)

theorem eq_of_mem_step {pending : Option Pending} (hpending : ∀ p ∈ pending, p.BeyondAscii)
    {b : UInt8} (hc : c ∈ (step pending b).1) : b.toNat = c.toNat := by
  cases pending with
  | none => exact eq_of_mem_start hpos hascii hc
  | some p =>
    have hp := hpending p rfl
    simp only [step] at hc
    split at hc
    · split at hc
      · -- the last byte: the character is beyond 127, or none at all
        unfold Pending.BeyondAscii at hp
        rw [List.mem_singleton.1 hc] at hpos hascii ⊢
        rcases toNat_ofNat_char (p.bits * 64 + (b.toNat - 0x80)) with h | h <;> omega
      · cases hc
    · rcases List.mem_cons.1 hc with hc | hc
      · exact absurd hc (ne_replacement hascii)
      · exact eq_of_mem_start hpos hascii hc

theorem mem_of_mem_lossyChars {pending : Option Pending} (hpending : ∀ p ∈ pending, p.BeyondAscii)
    {bytes : List UInt8} (hc : c ∈ lossyChars pending bytes) : ∃ b ∈ bytes, b.toNat = c.toNat := by
  induction bytes generalizing pending with
  | nil =>
    rw [lossyChars] at hc
    split at hc
    · exact absurd (List.mem_singleton.1 hc) (ne_replacement hascii)
    · cases hc
  | cons b rest ih =>
    rw [lossyChars_cons] at hc
    rcases List.mem_append.1 hc with hc | hc
    · exact ⟨b, List.mem_cons_self, eq_of_mem_step hpos hascii hpending hc⟩
    · obtain ⟨b', hb', heq⟩ := ih (fun p hp ↦ beyondAscii_step hpending hp) hc
      exact ⟨b', List.mem_cons_of_mem b hb', heq⟩

/-- No character below 128 is read that is not there as a byte. -/
theorem mem_of_mem_decodeLossy {bytes : List UInt8} (hc : c ∈ (decodeLossy bytes).toList) :
    ∃ b ∈ bytes, b.toNat = c.toNat := by
  rw [decodeLossy, String.toList_ofList] at hc
  exact mem_of_mem_lossyChars hpos hascii (by simp) hc

end Ascii

end Utf8

end BinaryNames
