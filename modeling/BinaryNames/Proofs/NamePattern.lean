import BinaryNames.Proofs.Text.Codec
import BinaryNames.TypeName
import Mathlib.Computability.Language
import Mathlib.Data.List.TakeWhile

/-!
# The Pattern of Names

A pattern accepts exactly the texts of its language.  That of qualified names allows a dollar sign
in packages, but a name is cut at its first one before it is matched.  So what is left is accepted
exactly when it is a sequence of identifiers with dots between them, and cutting it at the last dot
gives the package and the simple name.
-/

namespace BinaryNames

open scoped Computability

namespace Pattern

/-- The texts that a pattern describes. -/
def language : Pattern → Language Char
  | nothing => 0
  | empty => 1
  | one inClass => {text | ∃ c, inClass c = true ∧ text = [c]}
  | either p q => p.language + q.language
  | followedBy p q => p.language * q.language
  | many p => p.language∗

theorem language_either' (p q : Pattern) : (either' p q).language = p.language + q.language := by
  unfold either'
  split
  · exact (zero_add _).symm
  · exact (add_zero _).symm
  · rfl

theorem language_followedBy' (p q : Pattern) :
    (followedBy' p q).language = p.language * q.language := by
  unfold followedBy'
  split
  · exact (zero_mul _).symm
  · exact (one_mul _).symm
  · rfl

theorem nil_mem_language_iff {p : Pattern} : [] ∈ p.language ↔ p.acceptsEmpty = true := by
  induction p with
  | nothing => simp [language, acceptsEmpty]
  | empty => simp [language, acceptsEmpty]
  | one inClass =>
    simp only [acceptsEmpty, Bool.false_eq_true, iff_false]
    rintro ⟨c, -, h⟩
    cases h
  | either p q hp hq => rw [language, Language.mem_add, hp, hq, acceptsEmpty, Bool.or_eq_true]
  | followedBy p q hp hq => simp [language, Language.mem_mul, acceptsEmpty, hp, hq]
  | many p => simp [language, acceptsEmpty, Language.nil_mem_kstar]

section Cons

variable {l m : Language Char} {c : Char} {text : List Char}

/-- The first character of a text of two languages is in the first part, unless that is empty. -/
theorem cons_mem_mul_iff : c :: text ∈ l * m ↔
    (∃ front back, text = front ++ back ∧ c :: front ∈ l ∧ back ∈ m) ∨
      [] ∈ l ∧ c :: text ∈ m := by
  rw [Language.mem_mul]
  constructor
  · rintro ⟨front, hfront, back, hback, happend⟩
    cases front with
    | nil => exact Or.inr ⟨hfront, happend ▸ hback⟩
    | cons d front =>
      obtain ⟨rfl, rfl⟩ := List.cons.inj happend
      exact Or.inl ⟨front, back, rfl, hfront, hback⟩
  · rintro (⟨front, back, rfl, hfront, hback⟩ | ⟨hnil, htext⟩)
    · exact ⟨c :: front, hfront, back, hback, rfl⟩
    · exact ⟨[], hnil, c :: text, htext, rfl⟩

theorem cons_mem_kstar_iff : c :: text ∈ l∗ ↔
    ∃ front back, text = front ++ back ∧ c :: front ∈ l ∧ back ∈ l∗ := by
  constructor
  · intro h
    obtain ⟨parts, hparts, hmem⟩ := Language.mem_kstar_iff_exists_nonempty.1 h
    cases parts with
    | nil => cases hparts
    | cons part parts =>
      rw [List.forall_mem_cons] at hmem
      obtain ⟨d, front, rfl⟩ := List.exists_cons_of_ne_nil hmem.1.2
      rw [List.flatten_cons, List.cons_append, List.cons.injEq] at hparts
      obtain ⟨rfl, rfl⟩ := hparts
      exact ⟨front, parts.flatten, rfl, hmem.1.1,
        Language.join_mem_kstar fun part hpart ↦ (hmem.2 part hpart).1⟩
  · rintro ⟨front, back, rfl, hfront, hback⟩
    obtain ⟨parts, rfl, hparts⟩ := Language.mem_kstar.1 hback
    exact Language.mem_kstar.2
      ⟨(c :: front) :: parts, rfl, List.forall_mem_cons.2 ⟨hfront, hparts⟩⟩

end Cons

/-- What is left of a pattern after a character describes how its texts go on. -/
theorem mem_language_after {p : Pattern} {c : Char} {text : List Char} :
    text ∈ (p.after c).language ↔ c :: text ∈ p.language := by
  induction p generalizing text with
  | nothing => simp [after, language]
  | empty => simp [after, language]
  | one inClass =>
    have hone : c :: text ∈ (one inClass).language ↔ inClass c = true ∧ text = [] := by
      constructor
      · rintro ⟨d, hd, heq⟩
        obtain ⟨rfl, rfl⟩ := List.cons.inj heq
        exact ⟨hd, rfl⟩
      · rintro ⟨hc, rfl⟩
        exact ⟨c, hc, rfl⟩
    rw [hone, after]
    cases inClass c <;> simp [language]
  | either p q hp hq => rw [after, language_either', Language.mem_add, hp, hq, language,
      Language.mem_add]
  | followedBy p q hp hq =>
    have hfront : text ∈ (p.after c).language * q.language ↔
        ∃ front back, text = front ++ back ∧ c :: front ∈ p.language ∧ back ∈ q.language := by
      simp only [Language.mem_mul, hp]
      constructor
      · rintro ⟨front, hfront, back, hback, rfl⟩
        exact ⟨front, back, rfl, hfront, hback⟩
      · rintro ⟨front, back, rfl, hfront, hback⟩
        exact ⟨front, hfront, back, hback, rfl⟩
    rw [language, cons_mem_mul_iff, nil_mem_language_iff, after]
    cases p.acceptsEmpty with
    | true =>
      rw [if_pos rfl, language_either', Language.mem_add, language_followedBy', hfront, hq]
      simp
    | false =>
      rw [if_neg (by simp), language_followedBy', hfront]
      simp
  | many p hp =>
    rw [after, language_followedBy', language, cons_mem_kstar_iff, Language.mem_mul]
    constructor
    · rintro ⟨front, hfront, back, hback, rfl⟩
      exact ⟨front, back, rfl, hp.1 hfront, hback⟩
    · rintro ⟨front, back, rfl, hfront, hback⟩
      exact ⟨front, hp.2 hfront, back, hback, rfl⟩

theorem accepts_iff {p : Pattern} {text : List Char} :
    p.accepts text = true ↔ text ∈ p.language := by
  induction text generalizing p with
  | nil => exact nil_mem_language_iff.symm
  | cons c rest ih => rw [accepts, List.foldl_cons, ← accepts, ih, mem_language_after]

end Pattern

namespace TypeName

/-! ## Cutting at the dollar sign -/

theorem outerPart_dollar (rest : List Char) : outerPart ('$' :: rest) = [] := by
  have hone : indexOf? ['$'] ('$' :: rest) = some 0 := by simp [indexOf?]
  rw [outerPart, hone]
  cases indexOf? ['$', '$'] ('$' :: rest) with
  | none => simp
  | some n => simp [List.min?_cons]

theorem outerPart_cons_of_ne {c : Char} (h : c ≠ '$') (rest : List Char) :
    outerPart (c :: rest) = c :: outerPart rest := by
  have hnext (part : List Char) : indexOf? ('$' :: part) (c :: rest) =
      (indexOf? ('$' :: part) rest).map (· + 1) := by
    simp [indexOf?, Ne.symm h]
  rw [outerPart, hnext, hnext, outerPart]
  cases indexOf? ['$', '$'] rest with
  | none => cases indexOf? ['$'] rest <;> simp
  | some m =>
    cases indexOf? ['$'] rest with
    | none => simp
    | some n => simp [List.min?_cons, Nat.add_min_add_right]

/-- The cut is at the first dollar sign, whichever of the two markers it belongs to. -/
theorem outerPart_eq (text : List Char) : outerPart text = text.takeWhile (· ≠ '$') := by
  induction text with
  | nil => rfl
  | cons c rest ih =>
    by_cases hc : c = '$'
    · subst hc
      simp [outerPart_dollar]
    · rw [outerPart_cons_of_ne hc, ih, List.takeWhile_cons_of_pos (by simpa using hc)]

theorem dollar_notMem_outerPart (text : List Char) : '$' ∉ outerPart text := by
  rw [outerPart_eq]
  intro h
  simpa using List.mem_takeWhile_imp h

/-! ## Identifiers -/

def isIdentifier : List Char → Bool
  | [] => false
  | c :: rest => isIdentifierStart c && rest.all isIdentifierPart

/-- The characters of identifiers, as ranges. -/
def identifierRanges : List (Nat × Nat) := letterRanges ++ numberRanges ++ [(0x5F, 0x5F)]

/-- Blanks, the dollar sign, the dot and the slash, as ranges. -/
def separatorRanges : List (Nat × Nat) := blankRanges ++ [(0x24, 0x24), (0x2E, 0x2F)]

theorem ranges_disjoint : ∀ r ∈ identifierRanges, ∀ q ∈ separatorRanges, r.2 < q.1 ∨ q.2 < r.1 := by
  decide +kernel

theorem inRanges_of_isIdentifierPart {c : Char} (h : isIdentifierPart c = true) :
    inRanges identifierRanges c = true := by
  simp only [isIdentifierPart, isLetter, isNumber, Bool.or_eq_true, decide_eq_true_eq] at h
  simp only [identifierRanges, inRanges, List.any_append, Bool.or_eq_true]
  rcases h with (h | h) | rfl
  · exact Or.inl (Or.inl h)
  · exact Or.inl (Or.inr h)
  · exact Or.inr (by decide)

theorem not_inRanges_of_isIdentifierPart {c : Char} (h : isIdentifierPart c = true) :
    inRanges separatorRanges c = false := by
  obtain ⟨r, hr, hin⟩ := List.any_eq_true.1 (inRanges_of_isIdentifierPart h)
  rw [inRanges, List.any_eq_false]
  intro q hq hsep
  simp only [Bool.and_eq_true, decide_eq_true_eq] at hin hsep
  rcases ranges_disjoint r hr q hq with hlt | hlt <;> omega

section Identifier

variable {l : List Char} (h : isIdentifier l = true)
include h

theorem ne_nil_of_isIdentifier : l ≠ [] := by
  rintro rfl
  cases h

theorem isIdentifierPart_of_mem {c : Char} (hc : c ∈ l) : isIdentifierPart c = true := by
  cases l with
  | nil => cases hc
  | cons a rest =>
    simp only [isIdentifier, Bool.and_eq_true, List.all_eq_true] at h
    rcases List.mem_cons.1 hc with rfl | hc
    · have hstart := h.1
      simp only [isIdentifierStart, Bool.or_eq_true] at hstart
      rcases hstart with hstart | hstart <;> simp [isIdentifierPart, hstart]
    · exact h.2 c hc

/-- No character of an identifier separates anything. -/
theorem not_inRanges_of_mem {c : Char} (hc : c ∈ l) : inRanges separatorRanges c = false :=
  not_inRanges_of_isIdentifierPart (isIdentifierPart_of_mem h hc)

theorem notMem_of_inRanges {c : Char} (hc : inRanges separatorRanges c = true) : c ∉ l := by
  intro hmem
  rw [not_inRanges_of_mem h hmem] at hc
  cases hc

theorem not_isBlank_of_mem {c : Char} (hc : c ∈ l) : isBlank c = false := by
  have hnot := not_inRanges_of_mem h hc
  rw [separatorRanges, inRanges, List.any_append, Bool.or_eq_false_iff] at hnot
  exact hnot.1

end Identifier

/-! ## Qualified names -/

/-- One character out of some. -/
def oneOf (chars : Set Char) : Language Char := {text | ∃ c ∈ chars, text = [c]}

/-- `[\p{L}_][\p{L}\p{N}_]*`, with some more characters in both places. -/
def segmentPattern (more : Set Char) : Language Char :=
  oneOf ({c | isLetter c ∨ c = '_'} ∪ more) *
    (oneOf ({c | isLetter c ∨ isNumber c ∨ c = '_'} ∪ more))∗

/-- `(?:[\p{L}_$][\p{L}\p{N}_$]*\.)*[\p{L}_][\p{L}\p{N}_]*` -/
def qualifiedPattern : Language Char := (segmentPattern {'$'} * oneOf {'.'})∗ * segmentPattern ∅

theorem language_one {inClass : Char → Bool} {chars : Set Char}
    (h : ∀ c, inClass c = true ↔ c ∈ chars) : (Pattern.one inClass).language = oneOf chars := by
  ext text
  simp only [Pattern.language, oneOf, h]

theorem language_qualifiedName : qualifiedName.language = qualifiedPattern := by
  have hstart : (Pattern.one fun c ↦ isIdentifierStart c || c = '$').language =
      oneOf ({c | isLetter c ∨ c = '_'} ∪ {'$'}) :=
    language_one fun c ↦ by simp [isIdentifierStart, or_comm]
  have hpart : (Pattern.one fun c ↦ isIdentifierPart c || c = '$').language =
      oneOf ({c | isLetter c ∨ isNumber c ∨ c = '_'} ∪ {'$'}) :=
    language_one fun c ↦ by simp [isIdentifierPart, or_assoc, or_comm]
  have hdot : (Pattern.one (· = '.')).language = oneOf {'.'} := language_one fun c ↦ by simp
  have hfirst : (Pattern.one isIdentifierStart).language =
      oneOf ({c | isLetter c ∨ c = '_'} ∪ ∅) :=
    language_one fun c ↦ by simp [isIdentifierStart]
  have hrest : (Pattern.one isIdentifierPart).language =
      oneOf ({c | isLetter c ∨ isNumber c ∨ c = '_'} ∪ ∅) :=
    language_one fun c ↦ by simp [isIdentifierPart, or_assoc]
  rw [qualifiedPattern, segmentPattern, segmentPattern, mul_assoc (oneOf _), ← hstart, ← hpart,
    ← hdot, ← hfirst, ← hrest]
  rfl

theorem mem_kstar_oneOf_iff {chars : Set Char} {text : List Char} :
    text ∈ (oneOf chars)∗ ↔ ∀ c ∈ text, c ∈ chars := by
  rw [Language.mem_kstar]
  constructor
  · rintro ⟨parts, rfl, hparts⟩ c hc
    obtain ⟨part, hpart, hc⟩ := List.mem_flatten.1 hc
    obtain ⟨d, hd, rfl⟩ := hparts part hpart
    rwa [List.mem_singleton.1 hc]
  · intro h
    refine ⟨text.map fun c ↦ [c], by rw [← List.flatMap_def, List.flatMap_singleton'], ?_⟩
    rw [List.forall_mem_map]
    exact fun c hc ↦ ⟨c, h c hc, rfl⟩

theorem mem_segmentPattern_iff {more : Set Char} {text : List Char} :
    text ∈ segmentPattern more ↔ ∃ c rest, text = c :: rest ∧ ((isLetter c ∨ c = '_') ∨ c ∈ more) ∧
      ∀ d ∈ rest, (isLetter d ∨ isNumber d ∨ d = '_') ∨ d ∈ more := by
  rw [segmentPattern, Language.mem_mul]
  constructor
  · rintro ⟨first, ⟨c, hc, rfl⟩, rest, hrest, rfl⟩
    exact ⟨c, rest, rfl, hc, mem_kstar_oneOf_iff.1 hrest⟩
  · rintro ⟨c, rest, rfl, hc, hrest⟩
    exact ⟨[c], ⟨c, hc, rfl⟩, rest, mem_kstar_oneOf_iff.2 hrest, rfl⟩

theorem mem_segmentPattern_empty_iff {text : List Char} :
    text ∈ segmentPattern ∅ ↔ isIdentifier text = true := by
  rw [mem_segmentPattern_iff]
  cases text with
  | nil => simp [isIdentifier]
  | cons c rest => simp [isIdentifier, isIdentifierStart, isIdentifierPart, or_assoc]

/-- Characters that do not occur need not be allowed. -/
theorem mem_segmentPattern_of_notMem {more : Set Char} {text : List Char}
    (h : text ∈ segmentPattern more) (hmore : ∀ c ∈ text, c ∉ more) :
    text ∈ segmentPattern ∅ := by
  obtain ⟨c, rest, rfl, hc, hrest⟩ := mem_segmentPattern_iff.1 h
  rw [List.forall_mem_cons] at hmore
  refine mem_segmentPattern_iff.2 ⟨c, rest, rfl, Or.inl (hc.resolve_right hmore.1), fun d hd ↦ ?_⟩
  exact Or.inl ((hrest d hd).resolve_right (hmore.2 d hd))

theorem segmentPattern_mono {more more' : Set Char} (h : more ⊆ more') {text : List Char}
    (htext : text ∈ segmentPattern more) : text ∈ segmentPattern more' := by
  obtain ⟨c, rest, rfl, hc, hrest⟩ := mem_segmentPattern_iff.1 htext
  exact mem_segmentPattern_iff.2
    ⟨c, rest, rfl, hc.imp_right fun hc ↦ h hc, fun d hd ↦ (hrest d hd).imp_right fun hd ↦ h hd⟩

/-- All segments but the last are followed by a dot. -/
theorem joinWith_dot_concat (segments : List (List Char)) (last : List Char) :
    joinWith '.' (segments ++ [last]) = (segments.map (· ++ ['.'])).flatten ++ last := by
  induction segments with
  | nil => rfl
  | cons s rest ih =>
    rw [List.cons_append, joinWith_cons '.' s (by simp), ih]
    simp

/-- Where there is no dollar sign, it does not matter that packages may have one. -/
theorem mem_qualifiedPattern_iff_joinWith {text : List Char} (h : '$' ∉ text) :
    text ∈ qualifiedPattern ↔ ∃ segments last, (∀ s ∈ segments ++ [last], s ∈ segmentPattern ∅) ∧
      text = joinWith '.' (segments ++ [last]) := by
  rw [qualifiedPattern, Language.mem_mul]
  constructor
  · rintro ⟨front, hfront, last, hlast, htext⟩
    obtain ⟨parts, rfl, hparts⟩ := Language.mem_kstar.1 hfront
    -- every part is a segment and its dot
    have hdot : ∀ part ∈ parts, ∃ s ∈ segmentPattern ∅, part = s ++ ['.'] := by
      intro part hpart
      obtain ⟨s, hs, dot, ⟨c, hc, rfl⟩, rfl⟩ := Language.mem_mul.1 (hparts part hpart)
      rw [Set.mem_singleton_iff.1 hc] at hpart ⊢
      refine ⟨s, mem_segmentPattern_of_notMem hs ?_, rfl⟩
      rintro d hd rfl
      refine h (htext ▸ List.mem_append_left _ (List.mem_flatten.2 ⟨_, hpart, ?_⟩))
      exact List.mem_append_left _ hd
    choose! cut hcut using hdot
    refine ⟨parts.map cut, last, ?_, ?_⟩
    · rw [List.forall_mem_append, List.forall_mem_map, List.forall_mem_singleton]
      exact ⟨fun part hpart ↦ (hcut part hpart).1, hlast⟩
    · have hmap : (parts.map cut).map (· ++ ['.']) = parts := by
        rw [List.map_map]
        exact (List.map_congr_left fun part hpart ↦ (hcut part hpart).2.symm).trans parts.map_id
      rw [joinWith_dot_concat, hmap, htext]
  · rintro ⟨segments, last, hall, htext⟩
    rw [List.forall_mem_append, List.forall_mem_singleton] at hall
    refine ⟨(segments.map (· ++ ['.'])).flatten, ?_, last, hall.2, ?_⟩
    · refine Language.join_mem_kstar ?_
      rw [List.forall_mem_map]
      intro s hs
      exact Language.append_mem_mul (segmentPattern_mono (Set.empty_subset _) (hall.1 s hs))
        ⟨'.', rfl, rfl⟩
    · rw [htext, joinWith_dot_concat]

theorem accepts_qualifiedName_iff {text : List Char} (h : '$' ∉ text) :
    qualifiedName.accepts text = true ↔
      ∃ segments last, (∀ s ∈ segments ++ [last], isIdentifier s = true) ∧
        text = joinWith '.' (segments ++ [last]) := by
  rw [Pattern.accepts_iff, language_qualifiedName, mem_qualifiedPattern_iff_joinWith h]
  simp only [mem_segmentPattern_empty_iff]

/-! ## Cutting at the last dot -/

theorem splitAtLastDot?_of_notMem {text : List Char} (h : '.' ∉ text) :
    splitAtLastDot? text = none := by
  have hall : text.reverse.takeWhile (· ≠ '.') = text.reverse := by
    rw [List.takeWhile_eq_self_iff]
    intro c hc
    simpa using fun hdot : c = '.' ↦ h (hdot ▸ List.mem_reverse.1 hc)
  rw [splitAtLastDot?, hall]
  simp

theorem splitAtLastDot?_append {front last : List Char} (h : '.' ∉ last) :
    splitAtLastDot? (front ++ '.' :: last) = some (front, last) := by
  have hlast : ∀ c ∈ last.reverse, decide (c ≠ '.') = true := by
    intro c hc
    simpa using fun hdot : c = '.' ↦ h (hdot ▸ List.mem_reverse.1 hc)
  have hafter : ((front ++ '.' :: last).reverse.takeWhile (· ≠ '.')).reverse = last := by
    rw [List.reverse_append, List.reverse_cons, List.append_assoc,
      List.takeWhile_append_of_pos hlast]
    simp
  have hlength : (front ++ '.' :: last).length = front.length + last.length + 1 := by
    simp
    omega
  have hcut : front.length + last.length + 1 - last.length - 1 = front.length := by omega
  rw [splitAtLastDot?]
  simp only [hafter, hlength]
  rw [if_neg (by omega), hcut, List.take_left]

/-- Identifiers with dots between them are read as the package and, last, the simple name. -/
theorem ofBinaryName?_of_joinWith {name : String} {segments : List (List Char)} {last : List Char}
    (hall : ∀ s ∈ segments ++ [last], isIdentifier s = true)
    (hjoin : outerPart (trimBlanks name.toList) = joinWith '.' (segments ++ [last])) :
    ofBinaryName? name = some ⟨.ofList (joinWith '.' segments), .ofList last⟩ := by
  have hlast : '.' ∉ last := notMem_of_inRanges (hall last (by simp)) (by decide)
  have haccepts : qualifiedName.accepts (joinWith '.' (segments ++ [last])) = true :=
    (accepts_qualifiedName_iff (hjoin ▸ dollar_notMem_outerPart _)).2 ⟨segments, last, hall, rfl⟩
  have hsingle : joinWith '.' [last] = last := rfl
  rw [ofBinaryName?, hjoin]
  simp only [haccepts, if_true]
  cases segments with
  | nil =>
    rw [List.nil_append, hsingle, splitAtLastDot?_of_notMem hlast]
    rfl
  | cons s rest =>
    rw [joinWith_append '.' (by simp) (by simp), hsingle, splitAtLastDot?_append hlast]

/-- A name is read as a package and a simple name exactly when what stands before its first dollar
sign is a sequence of identifiers with dots between them; the simple name is the last of them. -/
theorem ofBinaryName?_eq_some_iff {name : String} {t : TypeName} :
    ofBinaryName? name = some t ↔
      ∃ segments last, (∀ s ∈ segments ++ [last], isIdentifier s = true) ∧
        joinWith '.' (segments ++ [last]) = (trimBlanks name.toList).takeWhile (· ≠ '$') ∧
        t = ⟨.ofList (joinWith '.' segments), .ofList last⟩ := by
  rw [← outerPart_eq]
  constructor
  · intro h
    have haccepts : qualifiedName.accepts (outerPart (trimBlanks name.toList)) = true := by
      unfold ofBinaryName? at h
      by_contra hnot
      simp [hnot] at h
    obtain ⟨segments, last, hall, hjoin⟩ :=
      (accepts_qualifiedName_iff (dollar_notMem_outerPart _)).1 haccepts
    have hread := ofBinaryName?_of_joinWith hall hjoin
    exact ⟨segments, last, hall, hjoin.symm, Option.some.inj (h.symm.trans hread)⟩
  · rintro ⟨segments, last, hall, hjoin, rfl⟩
    exact ofBinaryName?_of_joinWith hall hjoin.symm

theorem ofBinaryName_eq_ok_iff {name : String} {t : TypeName} :
    ofBinaryName name = .ok t ↔ ofBinaryName? name = some t := by
  unfold ofBinaryName
  cases ofBinaryName? name with
  | none => simp
  | some t' => simp

end TypeName

end BinaryNames
