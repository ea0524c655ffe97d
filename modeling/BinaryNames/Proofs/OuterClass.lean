import BinaryNames.Proofs.Failures
import Mathlib

/-!
# The Outer Class of a Name

Without the blanks around it, a name speaks of a top-level type by what stands before its first
dollar sign.  This part must be a sequence of identifiers with dots between them, of which the last
is the simple name.  It has no dollar sign left, so a pattern that allows one in packages matches
nothing more.  The rest of the name decides nothing: searches for two names of the same outer class
give the same answer, apart from the name that an answer repeats.
-/

namespace BinaryNames

open scoped Computability

namespace TypeName

/-! ## Dotted names -/

/-- A sequence of segments, not empty, with a dot between neighbours. -/
def IsDotted (text : String) : Prop :=
  ∃ segments : List String, segments ≠ [] ∧ (∀ s ∈ segments, s.toList ∈ segmentPattern ∅) ∧
    text = String.intercalate "." segments

theorem isDotted_iff_joinWith {text : String} :
    IsDotted text ↔ ∃ segments last, (∀ s ∈ segments ++ [last], s ∈ segmentPattern ∅) ∧
      text.toList = joinWith '.' (segments ++ [last]) := by
  constructor
  · rintro ⟨segments, hne, hsegments, rfl⟩
    obtain ⟨front, last, rfl⟩ := (List.eq_nil_or_concat' segments).resolve_left hne
    refine ⟨front.map String.toList, last.toList, ?_, ?_⟩
    · simpa [or_imp, forall_and] using hsegments
    · rw [Package.toList_intercalate_dot]
      simp
  · rintro ⟨segments, last, hall, htext⟩
    refine ⟨(segments ++ [last]).map String.ofList, by simp, ?_, ?_⟩
    · rw [List.forall_mem_map]
      intro s hs
      rw [String.toList_ofList]
      exact hall s hs
    · rw [← String.toList_inj, htext, Package.toList_intercalate_dot]
      simp [Function.comp_def]

/-- A dotted name is cut at its dots into identifiers. -/
theorem isDotted_iff_splitOn {text : String} :
    IsDotted text ↔ ∀ s ∈ splitOn '.' text.toList, isIdentifier s = true := by
  rw [isDotted_iff_joinWith]
  constructor
  · rintro ⟨segments, last, hall, htext⟩
    have hidentifier : ∀ s ∈ segments ++ [last], isIdentifier s = true := fun s hs ↦
      mem_segmentPattern_empty_iff.1 (hall s hs)
    rw [htext, splitOn_joinWith (by simp) fun s hs ↦
      notMem_of_inRanges (hidentifier s hs) (by decide)]
    exact hidentifier
  · intro h
    have hne := splitOn_ne_nil '.' text.toList
    refine ⟨(splitOn '.' text.toList).dropLast, (splitOn '.' text.toList).getLast hne, ?_, ?_⟩
    · rw [List.dropLast_append_getLast hne]
      exact fun s hs ↦ mem_segmentPattern_empty_iff.2 (h s hs)
    · rw [List.dropLast_append_getLast hne, joinWith_splitOn]

/-- Where there is no dollar sign, it does not matter that packages may have one. -/
theorem mem_qualifiedPattern_iff {text : String} (h : '$' ∉ text.toList) :
    text.toList ∈ qualifiedPattern ↔ IsDotted text := by
  rw [isDotted_iff_joinWith, mem_qualifiedPattern_iff_joinWith h]

/-! ## Cutting a name -/

/-- `outer` is what stands before the first `$` of a name without the blanks around it. -/
def IsOuterClass (name outer : String) : Prop :=
  ∃ before rest after : List Char, name.toList = before ++ (outer.toList ++ rest) ++ after ∧
    (∀ c ∈ before ++ after, isBlank c = true) ∧
    (∀ c ∈ (outer.toList ++ rest).head?, isBlank c = false) ∧
    (∀ c ∈ (outer.toList ++ rest).getLast?, isBlank c = false) ∧
    '$' ∉ outer.toList ∧ (rest = [] ∨ rest.head? = some '$')

theorem toList_outerClass (name : String) :
    (outerClass name).toList = (trimBlanks name.toList).takeWhile (· ≠ '$') := by
  rw [outerClass, outerName, String.toList_ofList, String.toList_ofList, outerPart_eq]

theorem head?_dropWhile {p : Char → Bool} {text : List Char} {c : Char}
    (h : c ∈ (text.dropWhile p).head?) : p c = false := by
  have hnot := List.head?_dropWhile_not p text
  rw [Option.mem_def.1 h] at hnot
  exact hnot

theorem dropWhile_of_head? {p : Char → Bool} {text : List Char}
    (h : ∀ c ∈ text.head?, p c = false) : text.dropWhile p = text := by
  cases text with
  | nil => rfl
  | cons c rest => rw [List.dropWhile_cons_of_neg (by simp [h c rfl])]

/-- Only blanks are trimmed, and none is left at either end. -/
theorem exists_trimBlanks (text : List Char) :
    ∃ before after, text = before ++ trimBlanks text ++ after ∧
      (∀ c ∈ before ++ after, isBlank c = true) ∧
      (∀ c ∈ (trimBlanks text).head?, isBlank c = false) ∧
      ∀ c ∈ (trimBlanks text).getLast?, isBlank c = false := by
  have hfront : text = text.takeWhile isBlank ++ text.dropWhile isBlank :=
    List.takeWhile_append_dropWhile.symm
  have hback : text.dropWhile isBlank = trimBlanks text ++
      ((text.dropWhile isBlank).reverse.takeWhile isBlank).reverse := by
    rw [trimBlanks, ← List.reverse_append, List.takeWhile_append_dropWhile, List.reverse_reverse]
  refine ⟨text.takeWhile isBlank, ((text.dropWhile isBlank).reverse.takeWhile isBlank).reverse,
    ?_, ?_, ?_, ?_⟩
  · rw [List.append_assoc, ← hback, ← hfront]
  · intro c hc
    rcases List.mem_append.1 hc with hc | hc
    · exact List.mem_takeWhile_imp hc
    · exact List.mem_takeWhile_imp (List.mem_reverse.1 hc)
  · intro c hc
    -- what is left starts where the text without leading blanks does
    have hstart : c ∈ (text.dropWhile isBlank).head? := by
      rw [hback, List.head?_append, Option.mem_def.1 hc]
      rfl
    exact head?_dropWhile hstart
  · intro c hc
    rw [trimBlanks, List.getLast?_reverse] at hc
    exact head?_dropWhile hc

/-- A text is what is left when blanks are put around it, unless it has some of its own there. -/
theorem trimBlanks_of_blanks {before inner after : List Char}
    (hblank : ∀ c ∈ before ++ after, isBlank c = true)
    (hhead : ∀ c ∈ inner.head?, isBlank c = false)
    (hlast : ∀ c ∈ inner.getLast?, isBlank c = false) :
    trimBlanks (before ++ inner ++ after) = inner := by
  rw [List.forall_mem_append] at hblank
  have hback : ∀ c ∈ after.reverse, isBlank c = true := fun c hc ↦
    hblank.2 c (List.mem_reverse.1 hc)
  have hfront : (before ++ inner ++ after).dropWhile isBlank =
      (inner ++ after).dropWhile isBlank := by
    rw [List.append_assoc, List.dropWhile_append_of_pos hblank.1]
  rw [trimBlanks, hfront]
  cases inner with
  | nil => simp [List.dropWhile_eq_nil_iff.2 hblank.2]
  | cons c tail =>
    have hc : isBlank c = false := hhead c rfl
    rw [List.cons_append, List.dropWhile_cons_of_neg (by simp [hc]), ← List.cons_append,
      List.reverse_append, List.dropWhile_append_of_pos hback,
      dropWhile_of_head? (List.head?_reverse ▸ hlast), List.reverse_reverse]

theorem isOuterClass_outerClass (name : String) : IsOuterClass name (outerClass name) := by
  obtain ⟨before, after, htext, hblank, hhead, hlast⟩ := exists_trimBlanks name.toList
  have hcut : trimBlanks name.toList = (outerClass name).toList ++
      (trimBlanks name.toList).dropWhile (· ≠ '$') := by
    rw [toList_outerClass, List.takeWhile_append_dropWhile]
  refine ⟨before, (trimBlanks name.toList).dropWhile (· ≠ '$'), after, ?_, hblank, ?_, ?_, ?_, ?_⟩
  · rwa [← hcut]
  · rwa [← hcut]
  · rwa [← hcut]
  · intro hdollar
    rw [toList_outerClass] at hdollar
    simpa using List.mem_takeWhile_imp hdollar
  · cases hrest : ((trimBlanks name.toList).dropWhile (· ≠ '$')).head? with
    | none => exact Or.inl (List.head?_eq_none_iff.1 hrest)
    | some c =>
      have hc := head?_dropWhile (Option.mem_def.2 hrest)
      simp only [ne_eq, decide_not, Bool.not_eq_false', decide_eq_true_eq] at hc
      exact Or.inr (congrArg some hc)

theorem isOuterClass_iff {name outer : String} :
    IsOuterClass name outer ↔ outer = outerClass name := by
  constructor
  · rintro ⟨before, rest, after, htext, hblank, hhead, hlast, hdollar, hrest⟩
    rw [← String.toList_inj, toList_outerClass, htext, trimBlanks_of_blanks hblank hhead hlast,
      takeWhile_append_dollar hdollar hrest]
  · rintro rfl
    exact isOuterClass_outerClass name

theorem ofBinaryName?_congr {name other : String} (h : outerClass name = outerClass other) :
    ofBinaryName? name = ofBinaryName? other := by
  have htext : (trimBlanks name.toList).takeWhile (· ≠ '$') =
      (trimBlanks other.toList).takeWhile (· ≠ '$') := by
    rw [← toList_outerClass, h, toList_outerClass]
  rw [ofBinaryName?, ofBinaryName?, outerPart_eq, outerPart_eq, htext]

theorem exists_ofBinaryName_iff {name : String} :
    (∃ t, ofBinaryName name = .ok t) ↔ IsDotted (outerClass name) := by
  rw [isDotted_iff_joinWith, toList_outerClass]
  simp only [ofBinaryName_eq_ok_iff, ofBinaryName?_eq_some_iff, mem_segmentPattern_empty_iff]
  constructor
  · rintro ⟨t, segments, last, hall, hjoin, -⟩
    exact ⟨segments, last, hall, hjoin.symm⟩
  · rintro ⟨segments, last, hall, hjoin⟩
    exact ⟨_, segments, last, hall, hjoin.symm, rfl⟩

theorem separators_notMem_simpleName {name : String} {t : TypeName}
    (h : ofBinaryName name = .ok t) : '.' ∉ t.simpleName.toList ∧ '$' ∉ t.simpleName.toList := by
  obtain ⟨-, -, -, hsimple⟩ := exists_of_ofBinaryName h
  exact ⟨notMem_of_inRanges hsimple (by decide), notMem_of_inRanges hsimple (by decide)⟩

theorem ofBinaryName_rejoined {name : String} {t : TypeName} (h : ofBinaryName name = .ok t) :
    ofBinaryName t.qualified = .ok t := by
  obtain ⟨segments, last, hall, -, rfl⟩ := exists_segments_of_ofBinaryName h
  rw [List.forall_mem_append, List.forall_mem_singleton] at hall
  have hlast : isIdentifier (String.ofList last).toList = true := by
    rw [String.toList_ofList]
    exact hall.2
  have hend : ContinuesName "" := Or.inl rfl
  rw [← String.append_empty (s := qualified _)]
  exact ofBinaryName_qualified hall.1 hlast hend

/-- How a name is cut: the part that counts, when it can be cut into a package and a simple name,
and what these two are. -/
structure CutsExactly (name : String) : Prop where
  outer_iff : ∀ outer, IsOuterClass name outer ↔ outer = outerClass name
  succeeds_iff : (∃ t, ofBinaryName name = .ok t) ↔ IsDotted (outerClass name)
  pattern_iff : (outerClass name).toList ∈ qualifiedPattern ↔ IsDotted (outerClass name)
  rejoins : ∀ t, ofBinaryName name = .ok t → t.qualified = outerClass name ∧
    '.' ∉ t.simpleName.toList ∧ '$' ∉ t.simpleName.toList ∧ ofBinaryName t.qualified = .ok t

theorem cutsExactly (name : String) : CutsExactly name where
  outer_iff _ := isOuterClass_iff
  succeeds_iff := exists_ofBinaryName_iff
  pattern_iff := by
    obtain ⟨-, -, -, -, -, -, -, hdollar, -⟩ := isOuterClass_outerClass name
    exact mem_qualifiedPattern_iff hdollar
  rejoins _ h := ⟨qualified_eq_outerClass h, (separators_notMem_simpleName h).1,
    (separators_notMem_simpleName h).2, ofBinaryName_rejoined h⟩

end TypeName

/-! ## Answers about two names -/

/-- Failures about two names: the same one, or the same one with each name repeated. -/
inductive Error.Echoes (name other : String) : Error → Error → Prop
  | same (e : Error) : Echoes name other e e
  | malformed : Echoes name other (.malformedInput s!"`{name}` is not a binary class name")
      (.malformedInput s!"`{other}` is not a binary class name")
  | notFound : Echoes name other (.typeNotFound name) (.typeNotFound other)

/-- Locations of two names: the same line, or the same library with each name repeated. -/
inductive Location.Echoes (name other : String) : Location → Location → Prop
  | source (uri : String) (span : Span) : Echoes name other (.source uri span) (.source uri span)
  | archive (id : String) : Echoes name other (.archive id name) (.archive id other)

namespace Query

/-- Answers about two names: values that correspond, or the same failure with each name repeated. -/
inductive Agree {α : Type} (name other : String) (corresponds : α → α → Prop) :
    Except Error α → Except Error α → Prop
  | found {a a' : α} (h : corresponds a a') : Agree name other corresponds (.ok a) (.ok a')
  | failed {e e' : Error} (h : e.Echoes name other e') :
      Agree name other corresponds (.error e) (.error e')

section Names

variable {name other : String} (h : TypeName.outerClass name = TypeName.outerClass other)
  (s : Snapshot) (w : Workspace) (cancelled : Bool)
include h

theorem find_agree :
    Agree name other Eq (TypeSearch.find s w cancelled name)
      (TypeSearch.find s w cancelled other) := by
  have hsame := TypeName.ofBinaryName?_congr h
  cases hname : TypeName.ofBinaryName? name with
  | none =>
    have hother := hsame.symm.trans hname
    rw [TypeSearch.find, TypeSearch.find, TypeSearch.search, TypeSearch.search,
      TypeName.ofBinaryName, TypeName.ofBinaryName, hname, hother]
    exact .failed .malformed
  | some t =>
    have hother := TypeName.ofBinaryName_eq_ok_iff.2 (hsame.symm.trans hname)
    have heq : TypeSearch.find s w cancelled name = TypeSearch.find s w cancelled other := by
      rw [TypeSearch.find, TypeSearch.find, TypeSearch.search, TypeSearch.search,
        TypeName.ofBinaryName_eq_ok_iff.2 hname, hother]
    rw [heq]
    cases TypeSearch.find s w cancelled other with
    | ok handles => exact .found rfl
    | error e => exact .failed (.same e)

omit h in
/-- A handle gives the name back only if it is in a library. -/
theorem locationIn_agree (line : Int) (handle : TypeHandle) :
    Agree name other (Location.Echoes name other) (locationIn s name line handle)
      (locationIn s other line handle) := by
  cases handle with
  | binary id topLevel => exact .found (.archive id)
  | source file project topLevel =>
    have heq : locationIn s other line (.source file project topLevel) =
        locationIn s name line (.source file project topLevel) := rfl
    rw [heq]
    cases hlocation : locationIn s name line (.source file project topLevel) with
    | error e => exact .failed (.same e)
    | ok location =>
      obtain ⟨-, span, uri, -, -, -, rfl⟩ := eq_of_locationIn hlocation
      exact .found (.source uri span)

theorem locationOf_agree (line : Int) :
    Agree name other (Location.Echoes name other) (locationOf s w cancelled name line)
      (locationOf s w cancelled other line) := by
  have hfind := find_agree h s w cancelled
  unfold locationOf
  generalize TypeSearch.find s w cancelled name = found at hfind
  generalize TypeSearch.find s w cancelled other = found' at hfind
  cases hfind with
  | failed herror => exact .failed herror
  | @found handles _ heq =>
    subst heq
    cases handles with
    | nil => exact .failed .notFound
    | cons first rest => exact locationIn_agree s line first

end Names

/-- Of a name only the outer class counts: it decides whether the name can be cut and into what, and
what a search for the name finds. -/
theorem outer_class_decides :
    (∀ name, TypeName.CutsExactly name) ∧
      ∀ name other, TypeName.outerClass name = TypeName.outerClass other →
        ∀ (s : Snapshot) (w : Workspace) (cancelled : Bool),
          Agree name other Eq (TypeSearch.find s w cancelled name)
            (TypeSearch.find s w cancelled other) ∧
          ∀ line, Agree name other (Location.Echoes name other)
            (locationOf s w cancelled name line) (locationOf s w cancelled other line) := by
  refine ⟨TypeName.cutsExactly, fun name other h s w cancelled ↦ ?_⟩
  exact ⟨find_agree h s w cancelled, locationOf_agree h s w cancelled⟩

/-- A lambda of the class is located where the class is, and a name that is cut after a dot is
refused. -/
theorem outer_class_decides_packaged :
    TypeName.outerClass " p.A$B " = TypeName.outerClass "p.A$$Lambda$14/0x1" ∧
      locationOf packagedSnapshot packagedWorkspace false "p.A$$Lambda$14/0x1" 2 =
        .ok (.source "file:///w/s/p/A.java" ⟨12, 9⟩) ∧
      TypeName.outerClass "p.B" = TypeName.outerClass "p.B$1" ∧
      locationOf packagedSnapshot packagedWorkspace false "p.B$1" 1 =
        .ok (.archive "l" "p.B$1") ∧
      ¬∃ t, TypeName.ofBinaryName "p.$A" = .ok t := by
  have hsource : TypeName.outerClass " p.A$B " = TypeName.outerClass "p.A$$Lambda$14/0x1" := by
    decide +kernel
  have hlibrary : TypeName.outerClass "p.B" = TypeName.outerClass "p.B$1" := by decide +kernel
  have hagree (name other : String) (h : TypeName.outerClass name = TypeName.outerClass other) :=
    (outer_class_decides.2 name other h packagedSnapshot packagedWorkspace false).2
  refine ⟨hsource, ?_, hlibrary, ?_, ?_⟩
  · have h := hagree _ _ hsource 2
    rw [locationOf_packagedSource] at h
    generalize locationOf packagedSnapshot packagedWorkspace false "p.A$$Lambda$14/0x1" 2 = r at h ⊢
    cases h with
    | found hechoes =>
      cases hechoes
      rfl
  · have h := hagree _ _ hlibrary 1
    rw [locationOf_packagedLibrary] at h
    generalize locationOf packagedSnapshot packagedWorkspace false "p.B$1" 1 = r at h ⊢
    cases h with
    | found hechoes =>
      cases hechoes
      rfl
  · rw [(outer_class_decides.1 "p.$A").succeeds_iff, TypeName.isDotted_iff_splitOn]
    decide +kernel

end Query

end BinaryNames
