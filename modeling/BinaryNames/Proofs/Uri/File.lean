import BinaryNames.Proofs.Path.Components
import BinaryNames.Uri.File
import Mathlib

/-!
# Paths and Their URIs

Reading the URI of a path gives the path back, unless a colon is written for the bar of its drive
letter.  An escaped name holds no slash, nothing that ends the path and nothing that is dropped, its
dots are those of the name, and undoing the escapes byte by byte gives the name.
-/

namespace BinaryNames

namespace Percent

/-! ## Escapes -/

/-- The bytes of a text whose characters are one byte each. -/
def asciiBytes (chars : List Char) : List UInt8 := chars.map fun c ↦ UInt8.ofNat c.toNat

theorem encode_ofList_of_ascii {chars : List Char} (h : ∀ c ∈ chars, c.toNat < 0x80) :
    Utf8.encode (String.ofList chars) = asciiBytes chars := by
  rw [Utf8.encode, String.toList_ofList, asciiBytes, ← List.flatMap_singleton' (chars.map _),
    List.flatMap_map]
  refine List.flatMap_congr fun c hc ↦ ?_
  have hle : c.val.toNat ≤ 127 := Nat.lt_succ_iff.1 (h c hc)
  simp only [String.utf8EncodeChar, if_pos hle, Char.toNat]

theorem charOfByte {c : Char} (h : c.toNat < 0x80) :
    Char.ofNat (UInt8.ofNat c.toNat).toNat = c := by
  rw [Utf8.toNat_ofNat_of_lt (by omega), Char.ofNat_toNat]

/-- Whether a character can stand in a segment of a URI. -/
structure IsSegmentChar (c : Char) : Prop where
  visible : 0x20 < c.toNat
  ascii : c.toNat < 0x7F
  inside : FileUri.isSlash c = false
  notEnd : FileUri.endsPath c = false

theorem isSegmentChar_hexDigit {n : Nat} (h : n < 16) :
    IsSegmentChar (hexDigit n) ∧ hexDigit n ≠ '%' := by
  have all : ∀ k ∈ List.range 16, 0x20 < (hexDigit k).toNat ∧ (hexDigit k).toNat < 0x7F ∧
      FileUri.isSlash (hexDigit k) = false ∧ FileUri.endsPath (hexDigit k) = false ∧
      hexDigit k ≠ '%' := by decide
  obtain ⟨hvisible, hascii, hinside, hnotEnd, hne⟩ := all n (List.mem_range.2 h)
  exact ⟨⟨hvisible, hascii, hinside, hnotEnd⟩, hne⟩

theorem isSegmentChar_of_isPlain {b : UInt8} (h : isPlain b = true) :
    IsSegmentChar (Char.ofNat b.toNat) ∧ (Char.ofNat b.toNat).toNat = b.toNat ∧
      Char.ofNat b.toNat ≠ '%' := by
  simp only [isPlain, reserved, Bool.and_eq_true, decide_eq_true_eq, Bool.not_eq_true',
    List.contains_eq_mem, decide_eq_false_iff_not, List.mem_cons, List.not_mem_nil, or_false,
    not_or] at h
  obtain ⟨⟨hlo, hhi⟩, hspace, -, hhash, -, -, hquestion, -, -, -, hpercent, hslash, hback⟩ := h
  have hnat : (Char.ofNat b.toNat).toNat = b.toNat := by
    have hvalid : b.toNat.isValidChar := Or.inl (by omega)
    rw [Char.ofNat, dif_pos hvalid]
    rfl
  have hne : b.toNat ≠ 0x20 := by
    intro h20
    rw [h20] at hspace
    exact hspace rfl
  refine ⟨⟨by omega, by omega, ?_, ?_⟩, hnat, hpercent⟩
  · simp [FileUri.isSlash, hslash, hback]
  · simp [FileUri.endsPath, hquestion, hhash]

theorem isSegmentChar_of_mem_encode {bytes : List UInt8} {c : Char} (h : c ∈ encode bytes) :
    IsSegmentChar c := by
  obtain ⟨b, -, hc⟩ := List.mem_flatMap.1 h
  have hb := b.toNat_lt
  unfold encodeByte at hc
  split at hc
  · next hplain =>
    rw [List.mem_singleton] at hc
    rw [hc]
    exact (isSegmentChar_of_isPlain hplain).1
  · simp only [List.mem_cons, List.not_mem_nil, or_false] at hc
    rcases hc with rfl | rfl | rfl
    · exact ⟨by decide, by decide, by decide, by decide⟩
    · exact (isSegmentChar_hexDigit (by omega)).1
    · exact (isSegmentChar_hexDigit (by omega)).1

theorem decode_cons_of_ne {b : UInt8} (h : b ≠ percent) (rest : List UInt8) :
    decode (b :: rest) = b :: decode rest := by
  match rest with
  | [] => rfl
  | [_] => rfl
  | _ :: _ :: _ => rw [decode, if_neg h]

theorem byteOf?_hexDigits (b : UInt8) :
    byteOf? (UInt8.ofNat (hexDigit (b.toNat / 16)).toNat)
      (UInt8.ofNat (hexDigit (b.toNat % 16)).toNat) = some b := by
  have hb := b.toNat_lt
  have hhigh : b.toNat / 16 < 16 := by omega
  have hlow : b.toNat % 16 < 16 := by omega
  have hascii {n : Nat} (hn : n < 16) : (hexDigit n).toNat < 0x80 :=
    Nat.lt_trans (isSegmentChar_hexDigit hn).1.ascii (by decide)
  have hvalue : b.toNat / 16 * 16 + b.toNat % 16 = b.toNat := by omega
  rw [byteOf?, charOfByte (hascii hhigh), charOfByte (hascii hlow)]
  simp only [isHexDigit_hexDigit hhigh, isHexDigit_hexDigit hlow, hexDigitValue_hexDigit hhigh,
    hexDigitValue_hexDigit hlow, and_self, if_true, hvalue, UInt8.ofNat_toNat]

/-- An escaped byte is read as that byte. -/
theorem decode_encodeByte (b : UInt8) (rest : List UInt8) :
    decode (asciiBytes (encodeByte b) ++ rest) = b :: decode rest := by
  unfold encodeByte
  split
  · next hplain =>
    obtain ⟨-, hnat, hpercent⟩ := isSegmentChar_of_isPlain hplain
    have hbyte : asciiBytes [Char.ofNat b.toNat] = [b] := by simp [asciiBytes, hnat]
    have hne : b ≠ percent := by
      rintro rfl
      exact hpercent rfl
    rw [hbyte, List.singleton_append, decode_cons_of_ne hne]
  · have hbytes : asciiBytes ['%', hexDigit (b.toNat / 16), hexDigit (b.toNat % 16)] ++ rest =
        percent :: UInt8.ofNat (hexDigit (b.toNat / 16)).toNat ::
          UInt8.ofNat (hexDigit (b.toNat % 16)).toNat :: rest := rfl
    rw [hbytes, decode, if_pos rfl, byteOf?_hexDigits]

theorem decode_asciiBytes_encode (bytes : List UInt8) :
    decode (asciiBytes (encode bytes)) = bytes := by
  induction bytes with
  | nil => rfl
  | cons b rest ih =>
    have happend : asciiBytes (encode (b :: rest)) =
        asciiBytes (encodeByte b) ++ asciiBytes (encode rest) := by
      simp [asciiBytes, encode]
    rw [happend, decode_encodeByte, ih]

theorem decode_encode (bytes : List UInt8) :
    decode (Utf8.encode (String.ofList (encode bytes))) = bytes := by
  have hascii : ∀ c ∈ encode bytes, c.toNat < 0x80 := fun c hc ↦
    Nat.lt_trans (isSegmentChar_of_mem_encode hc).ascii (by decide)
  rw [encode_ofList_of_ascii hascii, decode_asciiBytes_encode]

theorem encode_injective {bytes bytes' : List UInt8} (h : encode bytes = encode bytes') :
    bytes = bytes' := by
  rw [← decode_encode bytes, h, decode_encode]

end Percent

namespace FileUri

open Percent (IsSegmentChar)

/-! ## Dots -/

theorem plainDots_cons_of_ne {c : Char} (h : c ≠ '%') (rest : List Char) :
    plainDots (c :: rest) = c :: plainDots rest := by
  rw [plainDots]
  rintro e rest rfl
  exact absurd rfl h

/-- Only an escaped dot is replaced. -/
theorem plainDots_escape {high low : Char} (hhigh : high ≠ '%') (hlow : low ≠ '%')
    (hdot : ¬(high = '2' ∧ (low = 'e' ∨ low = 'E'))) (rest : List Char) :
    plainDots ('%' :: high :: low :: rest) = '%' :: high :: low :: plainDots rest := by
  have hrest : plainDots (high :: low :: rest) = high :: low :: plainDots rest := by
    rw [plainDots_cons_of_ne hhigh, plainDots_cons_of_ne hlow]
  by_cases h2 : high = '2'
  · subst h2
    rw [plainDots, if_neg fun h ↦ hdot ⟨rfl, h⟩, hrest]
  · rw [plainDots, hrest]
    rintro e rest - hcons
    exact absurd (List.cons.inj hcons).1 h2

/-- A dot is never escaped. -/
theorem not_escapedDot {b : UInt8} (h : Percent.isPlain b = false) :
    ¬(hexDigit (b.toNat / 16) = '2' ∧
      (hexDigit (b.toNat % 16) = 'e' ∨ hexDigit (b.toNat % 16) = 'E')) := by
  have hb := b.toNat_lt
  rintro ⟨hhigh, hlow⟩
  have hhigh' : b.toNat / 16 = 2 := by
    rw [← hexDigitValue_hexDigit (n := b.toNat / 16) (by omega), hhigh]
    rfl
  have hlow' : b.toNat % 16 = 14 := by
    rw [← hexDigitValue_hexDigit (n := b.toNat % 16) (by omega)]
    rcases hlow with hlow | hlow <;> rw [hlow] <;> rfl
  have hdot : b.toNat = 46 := by omega
  rw [Percent.isPlain, hdot] at h
  exact absurd h (by decide)

theorem plainDots_encodeByte (b : UInt8) (rest : List Char) :
    plainDots (Percent.encodeByte b ++ rest) = Percent.encodeByte b ++ plainDots rest := by
  have hb := b.toNat_lt
  unfold Percent.encodeByte
  split
  · next hplain =>
    exact plainDots_cons_of_ne (Percent.isSegmentChar_of_isPlain hplain).2.2 rest
  · next hplain =>
    exact plainDots_escape (Percent.isSegmentChar_hexDigit (by omega)).2
      (Percent.isSegmentChar_hexDigit (by omega)).2 (not_escapedDot (by simpa using hplain)) rest

theorem plainDots_encode (bytes : List UInt8) :
    plainDots (Percent.encode bytes) = Percent.encode bytes := by
  induction bytes with
  | nil => rfl
  | cons b rest ih =>
    rw [Percent.encode, List.flatMap_cons, plainDots_encodeByte, ← Percent.encode, ih]

/-! ## Drive letters -/

/-- Whether a name is a letter with a bar after it. -/
def isBarredDrive : List UInt8 → Bool
  | [letter, bar] => (Char.ofNat letter.toNat).isAlpha && bar = 124
  | _ => false

/-- The rule leaves the path as it is: it keeps every bar, or the first name of the path is no
letter with a bar after it. -/
def DriveRule.Keeps (rule : DriveRule) (p : Path) : Prop :=
  rule = .keepBar ∨ ∀ c ∈ (p.components.drop 1).head?, isBarredDrive c.bytes = false

theorem keeps_keepBar (p : Path) : DriveRule.keepBar.Keeps p := Or.inl rfl

theorem encodeByte_of_isAlpha {c : Char} (h : c.isAlpha = true) :
    Percent.encodeByte (UInt8.ofNat c.toNat) = [c] ∧
      Char.ofNat (UInt8.ofNat c.toNat).toNat = c := by
  have hascii : c.toNat < 0x80 := by
    simp only [Char.isAlpha, Char.isUpper, Char.isLower, Bool.or_eq_true, Bool.and_eq_true,
      decide_eq_true_eq, UInt32.le_iff_toNat_le, ge_iff_le] at h
    have hval : c.toNat = c.val.toNat := rfl
    rcases h with h | h
    · exact hval ▸ Nat.lt_of_le_of_lt h.2 (by decide)
    · exact hval ▸ Nat.lt_of_le_of_lt h.2 (by decide)
  have hall : ∀ n ∈ List.range 128, (Char.ofNat n).isAlpha = true →
      Percent.encodeByte (UInt8.ofNat n) = [Char.ofNat n] := by decide +kernel
  have hbyte := hall c.toNat (List.mem_range.2 hascii)
  rw [Char.ofNat_toNat] at hbyte
  exact ⟨hbyte h, Percent.charOfByte hascii⟩

/-- No rule changes a name that is no drive letter with a bar. -/
theorem apply_encode {b : List UInt8} (h : isBarredDrive b = false) (rule : DriveRule) :
    rule.apply (Percent.encode b) = Percent.encode b := by
  unfold DriveRule.apply
  split
  · next letter hsegment =>
    cases halpha : letter.isAlpha with
    | false => rw [if_neg (by simp), hsegment]
    | true =>
      obtain ⟨hletter, hchar⟩ := encodeByte_of_isAlpha halpha
      have hbar : Percent.encode [UInt8.ofNat letter.toNat, 124] = [letter, '|'] := by
        rw [Percent.encode, List.flatMap_cons, hletter]
        rfl
      rw [Percent.encode_injective (hsegment.trans hbar.symm), isBarredDrive, hchar, halpha] at h
      cases h
  · rfl

/-- A colon is written for the bar of a drive letter. -/
theorem apply_barred {letter : UInt8} (h : (Char.ofNat letter.toNat).isAlpha = true) :
    DriveRule.writeColon.apply (Percent.encode [letter, 124]) = Percent.encode [letter, 58] := by
  have hletter : Percent.encodeByte letter = [Char.ofNat letter.toNat] := by
    have hlt := letter.toNat_lt
    have hnat : (Char.ofNat letter.toNat).toNat = letter.toNat := by
      rw [Char.ofNat, dif_pos (Or.inl (by omega))]
      rfl
    have hbyte := (encodeByte_of_isAlpha h).1
    rwa [hnat, UInt8.ofNat_toNat] at hbyte
  have hencode (mark : UInt8) : Percent.encode [letter, mark] =
      Char.ofNat letter.toNat :: Percent.encodeByte mark := by
    rw [Percent.encode, List.flatMap_cons, hletter, List.flatMap_singleton, List.singleton_append]
  have hbar : Percent.encodeByte 124 = ['|'] := by decide
  have hcolon : Percent.encodeByte 58 = [':'] := by decide
  rw [hencode, hencode, hbar, hcolon, DriveRule.apply, if_pos h]

/-- The first name of a path as it is read from the URI of the path. -/
def DriveRule.read (rule : DriveRule) (b : List UInt8) : List UInt8 :=
  Percent.decode (Utf8.encode (String.ofList (rule.apply (Percent.encode b))))

theorem read_keepBar (b : List UInt8) : DriveRule.keepBar.read b = b := Percent.decode_encode b

theorem read_eq_self {b : List UInt8} (h : isBarredDrive b = false) (rule : DriveRule) :
    rule.read b = b := by
  rw [DriveRule.read, apply_encode h, Percent.decode_encode]

theorem exists_of_isBarredDrive {b : List UInt8} (h : isBarredDrive b = true) :
    ∃ letter, b = [letter, 124] ∧ (Char.ofNat letter.toNat).isAlpha = true := by
  unfold isBarredDrive at h
  split at h
  · next letter bar =>
    rw [Bool.and_eq_true, decide_eq_true_eq] at h
    exact ⟨letter, by rw [h.2], h.1⟩
  · cases h

theorem read_barred {letter : UInt8} (h : (Char.ofNat letter.toNat).isAlpha = true) :
    DriveRule.writeColon.read [letter, 124] = [letter, 58] := by
  rw [DriveRule.read, apply_barred h, Percent.decode_encode]

theorem read_eq_self_iff {rule : DriveRule} {b : List UInt8} :
    rule.read b = b ↔ rule = .keepBar ∨ isBarredDrive b = false := by
  constructor
  · intro hread
    by_contra hnot
    rw [not_or, Bool.not_eq_false] at hnot
    obtain ⟨letter, rfl, hletter⟩ := exists_of_isBarredDrive hnot.2
    cases rule with
    | keepBar => exact hnot.1 rfl
    | writeColon =>
      rw [read_barred hletter] at hread
      exact absurd (List.cons.inj (List.cons.inj hread).2).1 (by decide)
  · rintro (rfl | h)
    · exact read_keepBar b
    · exact read_eq_self h rule

/-- A drive letter is a file name, however it is read. -/
theorem isFileName_read {b : List UInt8} (h : Path.IsFileName b) (rule : DriveRule) :
    Path.IsFileName (rule.read b) := by
  by_cases hread : rule.read b = b
  · rwa [hread]
  · rw [read_eq_self_iff, not_or, Bool.not_eq_false] at hread
    obtain ⟨letter, rfl, hletter⟩ := exists_of_isBarredDrive hread.2
    cases rule with
    | keepBar => exact absurd rfl hread.1
    | writeColon =>
      rw [read_barred hletter]
      refine ⟨by simp, fun hslash ↦ ?_, by simp, by simp⟩
      rcases List.mem_cons.1 hslash with rfl | hslash
      · exact h.slash_notMem List.mem_cons_self
      · exact absurd hslash (by decide)

/-- A file name is not a step of its own in a URI either. -/
theorem step_encode {rule : DriveRule} {b : List UInt8} (h : Path.IsFileName b)
    (found : List (List Char)) : step rule found (Percent.encode b) =
      (if found = [] then rule.apply (Percent.encode b) else Percent.encode b) :: found := by
  have hparent : Percent.encode b ≠ ['.', '.'] := fun he ↦
    h.ne_parent (Percent.encode_injective (he.trans (by decide : _ = Percent.encode [46, 46])))
  have hcurrent : Percent.encode b ≠ ['.'] := fun he ↦
    h.ne_current (Percent.encode_injective (he.trans (by decide : _ = Percent.encode [46])))
  unfold step
  rw [plainDots_encode, if_neg hparent, if_neg hcurrent]
  split
  · next hfound => rw [hfound]
  · rfl

/-- After the first name no rule changes anything. -/
theorem foldl_step_encode {rule : DriveRule} {names : List (List UInt8)}
    (h : ∀ b ∈ names, Path.IsFileName b) {found : List (List Char)} (hfound : found ≠ []) :
    (names.map Percent.encode).foldl (step rule) found =
      (names.map Percent.encode).reverse ++ found := by
  induction names generalizing found with
  | nil => rfl
  | cons b rest ih =>
    rw [List.map_cons, List.foldl_cons, step_encode (h b List.mem_cons_self), if_neg hfound,
      ih (fun b' hb' ↦ h b' (List.mem_cons_of_mem b hb')) (by simp)]
    simp

/-! ## The parts of a URI -/

theorem clean_eq_self {text : List Char} (h : ∀ c ∈ text, 0x20 < c.toNat) : clean text = text := by
  have houter : ∀ c ∈ text, decide (c.toNat ≤ 0x20) = false := fun c hc ↦ by
    simpa using h c hc
  have hreverse : ∀ c ∈ text.reverse, decide (c.toNat ≤ 0x20) = false := fun c hc ↦
    houter c (List.mem_reverse.1 hc)
  rw [clean, dropWhile_eq_self houter]
  simp only
  rw [dropWhile_eq_self hreverse, List.reverse_reverse, List.filter_eq_self]
  intro c hc
  have hvisible := h c hc
  have hne {d : Char} (hd : d.toNat ≤ 0x20) : c ≠ d := by
    rintro rfl
    omega
  simp [hne (d := '\t') (by decide), hne (d := '\n') (by decide), hne (d := '\r') (by decide)]

theorem flatMap_slash {names : List (List UInt8)} (f : List UInt8 → List Char) (hne : names ≠ []) :
    names.flatMap (fun b ↦ '/' :: f b) = joinWith '/' ([] :: names.map f) := by
  induction names with
  | nil => exact absurd rfl hne
  | cons b rest ih =>
    cases rest with
    | nil => simp [joinWith]
    | cons q qs =>
      rw [List.flatMap_cons, ih (by simp)]
      simp [joinWith]

section Escaped

variable {names : List (List UInt8)}

theorem dropSlash_escaped (hne : names ≠ []) :
    dropSlash (names.flatMap fun b ↦ '/' :: Percent.encode b) =
      joinWith '/' (names.map Percent.encode) := by
  rw [flatMap_slash _ hne, joinWith_cons '/' [] (by simpa using hne)]
  rfl

theorem segments_joined (hne : names ≠ []) :
    segments (joinWith '/' (names.map Percent.encode)) = names.map Percent.encode := by
  have hinside : ∀ s ∈ names.map Percent.encode, ∀ c ∈ s, isSlash c = false := by
    rw [List.forall_mem_map]
    exact fun b _ c hc ↦ (Percent.isSegmentChar_of_mem_encode hc).inside
  have hslashes : (joinWith '/' (names.map Percent.encode)).map
      (fun c ↦ if isSlash c then '/' else c) = joinWith '/' (names.map Percent.encode) := by
    refine List.map_congr_left (g := id) (fun c hc ↦ ?_) |>.trans (List.map_id _)
    rcases mem_joinWith hc with rfl | ⟨s, hs, hcs⟩
    · rfl
    · simp [hinside s hs c hcs]
  rw [segments, hslashes]
  apply splitOn_joinWith (by simpa using hne)
  intro s hs hslash
  exact absurd (hinside s hs _ hslash) (by decide)

variable (h : ∀ b ∈ names, Path.IsFileName b)
include h

theorem pathOf_escaped (rule : DriveRule) {b : List UInt8} {rest : List (List UInt8)}
    (hnames : names = b :: rest) :
    pathOf rule (names.flatMap fun b ↦ '/' :: Percent.encode b) =
      Path.fromRoot (rule.read b :: rest) := by
  subst hnames
  rw [List.forall_mem_cons] at h
  have hsteps : ((b :: rest).map Percent.encode).foldl (step rule) [] =
      (rest.map Percent.encode).reverse ++ [rule.apply (Percent.encode b)] := by
    rw [List.map_cons, List.foldl_cons, step_encode h.1, if_pos rfl,
      foldl_step_encode h.2 (by simp)]
  have hdecode : (rest.map Percent.encode).map
      (fun s ↦ Percent.decode (Utf8.encode (String.ofList s))) = rest := by
    simp [Function.comp_def, Percent.decode_encode]
  rw [pathOf, dropSlash_escaped (by simp), segments_joined (by simp), hsteps]
  simp only [List.reverse_append, List.reverse_reverse, List.reverse_singleton,
    List.singleton_append, List.map_cons, hdecode]
  rw [← Path.bytes_fromRoot]
  rfl

omit h in
theorem meaning_escaped (rule : DriveRule) (hne : names ≠ []) :
    meaning rule ("file://" ++ String.ofList (names.flatMap fun b ↦ '/' :: Percent.encode b)) =
      .file (pathOf rule (names.flatMap fun b ↦ '/' :: Percent.encode b)) := by
  have hchars : ∀ c ∈ names.flatMap fun b ↦ '/' :: Percent.encode b,
      0x20 < c.toNat ∧ endsPath c = false := by
    intro c hc
    obtain ⟨b, -, hc⟩ := List.mem_flatMap.1 hc
    rcases List.mem_cons.1 hc with rfl | hc
    · exact ⟨by decide, by decide⟩
    · have hsegment := Percent.isSegmentChar_of_mem_encode hc
      exact ⟨hsegment.visible, hsegment.notEnd⟩
  have hslash : ∃ tail, names.flatMap (fun b ↦ '/' :: Percent.encode b) = '/' :: tail := by
    obtain ⟨b, rest, rfl⟩ := List.exists_cons_of_ne_nil hne
    exact ⟨_, rfl⟩
  generalize names.flatMap (fun b ↦ '/' :: Percent.encode b) = body at hchars hslash
  have htext : ("file://" ++ String.ofList body).toList =
      'f' :: 'i' :: 'l' :: 'e' :: ':' :: '/' :: '/' :: body := by simp
  have hclean : clean ("file://" ++ String.ofList body).toList =
      'f' :: 'i' :: 'l' :: 'e' :: ':' :: '/' :: '/' :: body := by
    rw [htext]
    apply clean_eq_self
    simp only [List.forall_mem_cons]
    exact ⟨by decide, by decide, by decide, by decide, by decide, by decide, by decide,
      fun c hc ↦ (hchars c hc).1⟩
  have hscheme : scheme? ('f' :: 'i' :: 'l' :: 'e' :: ':' :: '/' :: '/' :: body) =
      some ("file", '/' :: '/' :: body) := rfl
  have hend : ('/' :: '/' :: body).takeWhile (fun c ↦ !endsPath c) = '/' :: '/' :: body := by
    rw [List.takeWhile_eq_self_iff]
    simp only [List.forall_mem_cons]
    exact ⟨by decide, by decide, fun c hc ↦ by simp [(hchars c hc).2]⟩
  obtain ⟨tail, rfl⟩ := hslash
  rw [meaning, hclean, hscheme]
  simp only [hend]
  rfl

end Escaped

theorem ofPath?_of_isAbsolute {p : Path} (h : p.isAbsolute = true) :
    ofPath? p = .ok (ofPath p) := by
  rw [ofPath?, if_pos h]

section Read

variable {rule : DriveRule} {p : Path} {names : List (List UInt8)}

theorem path?_ofPath_root (hp : p.components = [.root]) :
    path? (ofPath p) rule = .ok (some (Path.fromRoot [])) := by
  have huri : ofPath p = "file:///" := by simp [ofPath, hp]
  rw [huri]
  cases rule <;> rfl

/-- The URI of a path from the root is read as the path with its first name as the rule reads it. -/
theorem path?_ofPath_cons {b : List UInt8}
    (hp : p.components = .root :: (b :: names).map .name) :
    path? (ofPath p) rule = .ok (some (Path.fromRoot (rule.read b :: names))) := by
  have hnames : ∀ b' ∈ b :: names, Path.IsFileName b' := by
    intro b' hb'
    refine Path.isFileName_of_mem_components (p := p) ?_
    rw [hp]
    exact List.mem_cons_of_mem _ (List.mem_map_of_mem hb')
  have huri : ofPath p = "file://" ++
      String.ofList ((b :: names).flatMap fun b ↦ '/' :: Percent.encode b) := by
    simp [ofPath, hp, List.flatMap_map, Component.bytes]
  have hread : ∀ b' ∈ rule.read b :: names, Path.IsFileName b' := by
    rw [List.forall_mem_cons] at hnames ⊢
    exact ⟨isFileName_read hnames.1 rule, hnames.2⟩
  rw [huri, path?, meaning_escaped rule (by simp), pathOf_escaped hnames rule rfl]
  simp only [Path.normalize_of_components (Path.components_fromRoot hread)]

/-- The URI of a path from the root is read as the path, if the rule leaves its drive letter. -/
theorem path?_ofPath (hp : p.components = .root :: names.map .name) (hkeeps : rule.Keeps p) :
    path? (ofPath p) rule = .ok (some (Path.fromRoot names)) := by
  cases names with
  | nil => exact path?_ofPath_root hp
  | cons b rest =>
    have hb : rule.read b = b := by
      rw [read_eq_self_iff]
      exact hkeeps.imp_right fun hfirst ↦ hfirst (.name b) (by simp [hp])
    rw [path?_ofPath_cons hp, hb]

/-- A rule that changes the drive letter of a path is the only thing that can come between the path
and its URI. -/
theorem keeps_of_path?_ofPath (hnames : ∀ b ∈ names, Path.IsFileName b)
    (h : path? (ofPath (.fromRoot names)) rule = .ok (some (.fromRoot names))) :
    rule.Keeps (.fromRoot names) := by
  have hp := Path.components_fromRoot hnames
  cases names with
  | nil =>
    refine Or.inr fun c hc ↦ ?_
    rw [hp] at hc
    cases hc
  | cons b rest =>
    rw [path?_ofPath_cons hp] at h
    have hsame := congrArg Path.components (Option.some.inj (Except.ok.inj h))
    rw [List.forall_mem_cons] at hnames
    have hread : ∀ b' ∈ rule.read b :: rest, Path.IsFileName b' :=
      List.forall_mem_cons.2 ⟨isFileName_read hnames.1 rule, hnames.2⟩
    rw [hp, Path.components_fromRoot hread] at hsame
    have hb : rule.read b = b := by simpa using hsame
    refine (read_eq_self_iff.1 hb).imp_right fun hfirst c hc ↦ ?_
    rw [hp] at hc
    obtain rfl := Option.some.inj hc
    exact hfirst

end Read

end FileUri

end BinaryNames
