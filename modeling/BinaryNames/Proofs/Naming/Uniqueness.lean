import BinaryNames.Proofs.Naming.Segments
import Mathlib

/-!
# Which Types Share a Binary Name

A segment of a binary name is a number, an identifier, or a number before an identifier.  As long as
identifiers hold no `$` and do not start with a digit, a name can be taken apart into its segments
and each segment into its number and identifier.  Anonymous types are numbered within the type
around them, so their numbers tell them apart; local types are numbered within one method,
initializer or field, so two of them in different places can get the same name.
-/

namespace BinaryNames

/-- An identifier that can be told from what stands around it in a binary name. -/
structure PlainName (name : String) : Prop where
  ne_nil : name.toList ≠ []
  head_not_digit : ∀ c ∈ name.toList.head?, c.isDigit = false
  no_dollar : '$' ∉ name.toList

/-! ## Reading segments -/

/-- A name is cut at its last `$` in one way only. -/
theorem append_dollar_inj {l₁ l₂ s₁ s₂ : List Char} (h₁ : '$' ∉ s₁) (h₂ : '$' ∉ s₂)
    (h : l₁ ++ '$' :: s₁ = l₂ ++ '$' :: s₂) : l₁ = l₂ ∧ s₁ = s₂ := by
  rcases List.append_eq_append_iff.1 h with ⟨m, hl, hs⟩ | ⟨m, hl, hs⟩
  · cases m with
    | nil => simpa [eq_comm] using And.intro hl hs
    | cons c m =>
      have hmem : '$' ∈ s₁ := by
        rw [(List.cons.inj hs).2]
        simp
      exact absurd hmem h₁
  · cases m with
    | nil => simpa [eq_comm] using And.intro hl hs
    | cons c m =>
      have hmem : '$' ∈ s₂ := by
        rw [(List.cons.inj hs).2]
        simp
      exact absurd hmem h₂

/-- Digits end where the first other character stands. -/
theorem append_digits_inj {d₁ d₂ r₁ r₂ : List Char} (h₁ : ∀ c ∈ d₁, c.isDigit = true)
    (h₂ : ∀ c ∈ d₂, c.isDigit = true) (hr₁ : ∀ c ∈ r₁.head?, c.isDigit = false)
    (hr₂ : ∀ c ∈ r₂.head?, c.isDigit = false) (h : d₁ ++ r₁ = d₂ ++ r₂) :
    d₁ = d₂ ∧ r₁ = r₂ := by
  have htake : ∀ {d r : List Char}, (∀ c ∈ d, c.isDigit = true) →
      (∀ c ∈ r.head?, c.isDigit = false) → (d ++ r).takeWhile Char.isDigit = d := by
    intro d r hd hr
    rw [List.takeWhile_append_of_pos hd]
    cases r with
    | nil => simp
    | cons c r => simp [hr c rfl]
  have hdigits : d₁ = d₂ := by rw [← htake h₁ hr₁, h, htake h₂ hr₂]
  subst hdigits
  exact ⟨rfl, List.append_cancel_left h⟩

theorem toList_toString_nat (n : Nat) : (toString n).toList = Nat.toDigits 10 n := by
  rw [Nat.toString_eq_repr, Nat.toList_repr]

theorem isDigit_of_mem_toString {n : Nat} {c : Char} (hc : c ∈ (toString n).toList) :
    c.isDigit = true := by
  rw [toList_toString_nat] at hc
  exact Nat.isDigit_of_mem_toDigits (by decide) (by decide) hc

theorem toString_nat_injective : Function.Injective (toString : Nat → String) := by
  intro m n h
  have hdigits : Nat.toDigits 10 m = Nat.toDigits 10 n := by
    rw [← toList_toString_nat, h, toList_toString_nat]
  have hvalue := congrArg (fun digits ↦ Nat.ofDigitChars 10 digits 0) hdigits
  simpa using hvalue

/-- The text of a segment with this number and this identifier. -/
def segmentText (number : Option Nat) (name : Option String) : String :=
  (number.map toString).getD "" ++ name.getD ""

theorem dollar_notMem_segmentText {number : Option Nat} {name : Option String}
    (hname : ∀ s ∈ name, PlainName s) : '$' ∉ (segmentText number name).toList := by
  rw [segmentText, String.toList_append, List.mem_append]
  rintro (hmem | hmem)
  · cases number with
    | none => simp at hmem
    | some n => exact absurd (isDigit_of_mem_toString hmem) (by decide)
  · cases name with
    | none => simp at hmem
    | some s => exact (hname s rfl).no_dollar hmem

theorem getD_empty_inj {x y : Option String} (hx : ∀ s ∈ x, s ≠ "") (hy : ∀ s ∈ y, s ≠ "")
    (h : x.getD "" = y.getD "") : x = y := by
  cases x with
  | none =>
    cases y with
    | none => rfl
    | some s => exact absurd h.symm (hy s rfl)
  | some r =>
    cases y with
    | none => exact absurd h (hx r rfl)
    | some s => exact congrArg some h

/-- The number and the identifier of a segment can be read off its text. -/
theorem segmentText_inj {n₁ n₂ : Option Nat} {s₁ s₂ : Option String}
    (h₁ : ∀ s ∈ s₁, PlainName s) (h₂ : ∀ s ∈ s₂, PlainName s)
    (h : segmentText n₁ s₁ = segmentText n₂ s₂) : n₁ = n₂ ∧ s₁ = s₂ := by
  have hdigits : ∀ n : Option Nat, ∀ c ∈ ((n.map toString).getD "").toList, c.isDigit = true := by
    intro n c hc
    cases n with
    | none => simp at hc
    | some n => exact isDigit_of_mem_toString hc
  have hhead : ∀ {s : Option String}, (∀ x ∈ s, PlainName x) →
      ∀ c ∈ (s.getD "").toList.head?, c.isDigit = false := by
    intro s hs c hc
    cases s with
    | none => simp at hc
    | some x => exact (hs x rfl).head_not_digit c hc
  have htexts := congrArg String.toList h
  simp only [segmentText, String.toList_append] at htexts
  obtain ⟨hnumber, hname⟩ :=
    append_digits_inj (hdigits n₁) (hdigits n₂) (hhead h₁) (hhead h₂) htexts
  have hfull : ∀ n : Option Nat, ∀ s ∈ n.map toString, s ≠ "" := by
    rintro n s hs rfl
    obtain ⟨m, -, hm⟩ := Option.map_eq_some_iff.1 hs
    have hnil := congrArg String.toList hm
    rw [toList_toString_nat] at hnil
    exact Nat.toDigits_ne_nil hnil
  have hnonempty : ∀ {s : Option String}, (∀ x ∈ s, PlainName x) → ∀ x ∈ s, x ≠ "" := by
    rintro s hs x hx rfl
    exact (hs "" hx).ne_nil rfl
  constructor
  · apply Option.map_injective toString_nat_injective
    exact getD_empty_inj (hfull n₁) (hfull n₂) (String.toList_inj.1 hnumber)
  · exact getD_empty_inj (hnonempty h₁) (hnonempty h₂) (String.toList_inj.1 hname)

namespace DeclarationTree

/-- The node at `id` is a type with this simple name. -/
def IsNamedType (t : DeclarationTree) (id : Nat) (name : String) (isLocal : Bool) : Prop :=
  ∃ d, t.declaration? id = some d ∧ d.kind = .type ∧ d.isAnonymous = false ∧
    d.simpleName = some name ∧ d.isLocal = isLocal

/-- The positions and simple names of the named types, and whether they are local. -/
def namedTypes (t : DeclarationTree) : List (Nat × String × Bool) :=
  (List.range t.size).filterMap fun id ↦ do
    let d ← t.declaration? id
    guard (d.kind = .type && !d.isAnonymous)
    return (id, ← d.simpleName, d.isLocal)

theorem IsNamedType.mem_namedTypes {t : DeclarationTree} {id : Nat} {name : String} {isLocal : Bool}
    (h : t.IsNamedType id name isLocal) : (id, name, isLocal) ∈ t.namedTypes := by
  obtain ⟨d, hd, hk, hanonymous, hname, hlocal⟩ := h
  refine List.mem_filterMap.2 ⟨id, List.mem_range.2 (lt_size_of_declaration? hd), ?_⟩
  simp [hd, hk, hanonymous, hname, hlocal]

/-- Two local types of one name in one type that got the same number, each from its own parent. -/
structure EquallyNumbered (t : DeclarationTree) (a b : Nat) : Prop where
  ne : a ≠ b
  named : ∃ name, t.IsNamedType a name true ∧ t.IsNamedType b name true
  enclosing : ∃ e, t.enclosing? a = some e ∧ t.enclosing? b = some e
  parent_ne : t.parent? a ≠ t.parent? b
  ordinal : ∃ n, t.localOrdinal? a = some n ∧ t.localOrdinal? b = some n

/-- Names are plain, and types that are not local, the top-level types among them, have names of
their own within the type around them. -/
structure PlainlyNamed (package : String) (t : DeclarationTree) : Prop where
  package_no_dollar : '$' ∉ package.toList
  plain : ∀ id name isLocal, t.IsNamedType id name isLocal → PlainName name
  distinct : ∀ a b name, t.IsNamedType a name false → t.IsNamedType b name false →
    t.enclosing? a = t.enclosing? b → a = b

/-- What the segment of the type at `id` is made of. -/
inductive SegmentOf (t : DeclarationTree) (id : Nat) : Option Nat → Option String → Prop
  | anonymous : t.isAnonymousType id = true → t.SegmentOf id (some (t.anonymousRank id)) none
  | member (name : String) : t.IsNamedType id name false → t.SegmentOf id none (some name)
  | numbered (name : String) : t.IsNamedType id name true →
      t.SegmentOf id (some (t.localRank id)) (some name)

variable {t : DeclarationTree}

theorem IsNamedType.isNumbered {id : Nat} {name : String} (h : t.IsNamedType id name true) :
    t.isNumbered id = true := by
  obtain ⟨d, hd, hk, hanonymous, hname, hlocal⟩ := h
  simp [isNumbered_eq, hd, hk, hanonymous, hname, hlocal]

theorem SegmentOf.plain {package : String} {id : Nat} {number : Option Nat} {name : Option String}
    (h : t.SegmentOf id number name) (hplain : t.PlainlyNamed package) :
    ∀ s ∈ name, PlainName s := by
  intro s hs
  cases h with
  | anonymous => cases hs
  | member name hname =>
    obtain rfl := Option.some.inj hs
    exact hplain.plain _ _ _ hname
  | numbered name hname =>
    obtain rfl := Option.some.inj hs
    exact hplain.plain _ _ _ hname

/-- Local types of one parent get numbers of their own. -/
theorem localRank_inj {a b : Nat} (ha : t.isNumbered a = true) (hb : t.isNumbered b = true)
    (hparent : t.parent? a = t.parent? b) (h : t.localRank a = t.localRank b) : a = b := by
  unfold localRank at h
  rw [hparent] at h
  exact Nat.count_injective ⟨ha, hparent⟩ ⟨hb, rfl⟩ (Nat.succ.inj h)

/-- Anonymous types in one type get numbers of their own. -/
theorem anonymousRank_inj {a b : Nat} (ha : t.isAnonymousType a = true)
    (hb : t.isAnonymousType b = true) (henclosing : t.enclosing? a = t.enclosing? b)
    (h : t.anonymousRank a = t.anonymousRank b) : a = b := by
  unfold anonymousRank at h
  rw [henclosing] at h
  exact Nat.count_injective ⟨ha, henclosing⟩ ⟨hb, rfl⟩ (Nat.succ.inj h)

/-- Two types in one type with the same segment are one, or are local to different parents. -/
theorem SegmentOf.eq_or_equallyNumbered {package : String} (h : t.Rooted)
    (hplain : t.PlainlyNamed package) {a b e p q : Nat} {number : Option Nat}
    {name : Option String} (hp : t.parent? a = some p) (hq : t.parent? b = some q)
    (hea : t.enclosing? a = some e) (heb : t.enclosing? b = some e)
    (ha : t.SegmentOf a number name) (hb : t.SegmentOf b number name) :
    a = b ∨ t.EquallyNumbered a b := by
  have henclosing : t.enclosing? a = t.enclosing? b := hea.trans heb.symm
  generalize hrank : number = rank at hb
  cases ha with
  | anonymous ha =>
    cases hb with
    | anonymous hb => exact Or.inl (anonymousRank_inj ha hb henclosing (Option.some.inj hrank))
  | member name ha =>
    cases hb with
    | member _ hb => exact Or.inl (hplain.distinct a b name ha hb henclosing)
    | numbered => cases hrank
  | numbered name ha =>
    cases hb with
    | member => cases hrank
    | numbered _ hb =>
      have hnumber : t.localRank a = t.localRank b := Option.some.inj hrank
      by_cases hparent : t.parent? a = t.parent? b
      · exact Or.inl (localRank_inj ha.isNumbered hb.isNumbered hparent hnumber)
      · refine Or.inr ⟨fun hab ↦ hparent (hab ▸ rfl), ⟨name, ha, hb⟩, ⟨e, hea, heb⟩, hparent, ?_⟩
        exact ⟨_, h.localOrdinal?_eq hp ha.isNumbered,
          hnumber ▸ h.localOrdinal?_eq hq hb.isNumbered⟩

end DeclarationTree

namespace Java

open DeclarationTree

namespace WellNamed

variable {package : String} {t : DeclarationTree} (h : WellNamed package t)
include h

theorem exists_segmentOf {id : Nat} (htype : t.isType id = true) :
    ∃ number name, t.SegmentOf id number name ∧ t.segment id = segmentText number name := by
  rw [isType_eq, Option.any_eq_true] at htype
  obtain ⟨d, hd, hk⟩ := htype
  replace hk : d.kind = .type := by simpa using hk
  cases hanonymous : d.isAnonymous with
  | true =>
    refine ⟨_, _, .anonymous (by simp [isAnonymousType, hd, hk, hanonymous]), ?_⟩
    simp [DeclarationTree.segment, hd, hanonymous, segmentText]
  | false =>
    obtain ⟨name, hname, -, -⟩ := (h.fits id d hd hk).named hanonymous
    cases hlocal : d.isLocal with
    | false =>
      refine ⟨_, _, .member name ⟨d, hd, hk, hanonymous, hname, hlocal⟩, ?_⟩
      simp [DeclarationTree.segment, hd, hanonymous, hlocal, hname, segmentText]
    | true =>
      refine ⟨_, _, .numbered name ⟨d, hd, hk, hanonymous, hname, hlocal⟩, ?_⟩
      simp [DeclarationTree.segment, hd, hanonymous, hlocal, hname, segmentText]

/-- The name of a type is that of the type around it with one more segment. -/
theorem placedName_of_enclosing {id e : Nat} (hin : t.InNamedType id) (htype : t.isType id = true)
    (he : t.enclosing? id = some e) :
    t.InNamedType e ∧ t.isType e = true ∧ e < id ∧
      t.placedName id = t.placedName e ++ "$" ++ t.segment id := by
  obtain ⟨p, hp, hlt⟩ := h.exists_parent (hin.pos h.toRooted) hin.lt_size
  rw [h.enclosing?_child hp] at he
  have hpos : 0 < p := by
    apply Nat.pos_of_ne_zero
    rintro rfl
    rw [h.typeAround?_root] at he
    cases he
  have hin' := hin.parent h.toRooted hp hpos
  refine ⟨hin'.typeAround h.toRooted he, List.find?_some (p := t.isType) he, ?_, ?_⟩
  · exact (le_of_mem_chain (List.mem_of_find?_eq_some he)).trans_lt hlt
  · rw [h.placedName_of_isType hp htype (Rooted.typesInward_ne_nil he), placedName, placedName,
      h.typesInward_typeAround he]

/-- A type in no other type goes by its package and simple name. -/
theorem placedName_of_no_enclosing {id : Nat} (hin : t.InNamedType id) (htype : t.isType id = true)
    (he : t.enclosing? id = none) :
    ∃ name, t.IsNamedType id name false ∧
      t.placedName id = TypeName.qualified ⟨package, name⟩ := by
  obtain ⟨p, hp, hlt⟩ := h.exists_parent (hin.pos h.toRooted) hin.lt_size
  rw [h.enclosing?_child hp] at he
  have hzero : p = 0 := by
    by_contra hne
    obtain ⟨e, -, hsome, -⟩ :=
      h.foldl_numberAt (hin.parent h.toRooted hp (Nat.pos_of_ne_zero hne))
    rw [he] at hsome
    cases hsome
  subst hzero
  obtain ⟨d, hd, hk, hanonymous⟩ := hin.declaration_of_child_root h.toRooted hp
  obtain ⟨name, hname, hlocal, hown⟩ := h.top_of_child_root hp hd hk hanonymous
  have hnil : t.typesInward 0 = [] := by simp [typesInward, h.chain_root]
  refine ⟨name, ⟨d, hd, hk, hanonymous, hname, hlocal⟩, ?_⟩
  rw [h.placedName_of_outermost hp htype hnil, qualifiedName?, hd, Option.bind_some, hown,
    Option.getD_some]

end WellNamed

/-! ## Equal names -/

theorem qualified_injective (package : String) :
    Function.Injective fun name ↦ TypeName.qualified ⟨package, name⟩ := by
  intro a b hab
  by_cases hpackage : package = ""
  · simpa [TypeName.qualified, hpackage] using hab
  · have htexts := congrArg String.toList hab
    simp only [TypeName.qualified, hpackage, if_false, String.toList_append] at htexts
    exact String.toList_inj.1 (List.append_cancel_left htexts)

theorem dollar_notMem_qualified {package name : String} (hpackage : '$' ∉ package.toList)
    (hname : '$' ∉ name.toList) : '$' ∉ (TypeName.qualified ⟨package, name⟩).toList := by
  unfold TypeName.qualified
  split
  · exact hname
  · simp [hpackage, hname]

section EqualNames

variable {package : String} {t : DeclarationTree} (h : WellNamed package t)
  (hplain : t.PlainlyNamed package)
include h hplain

theorem placedName_ne_of_enclosing {a b e : Nat} (ha : t.InNamedType a) (hb : t.InNamedType b)
    (hta : t.isType a = true) (htb : t.isType b = true) (hea : t.enclosing? a = some e)
    (heb : t.enclosing? b = none) : t.placedName a ≠ t.placedName b := by
  obtain ⟨-, -, -, hname⟩ := h.placedName_of_enclosing ha hta hea
  obtain ⟨simple, hsimple, hqualified⟩ := h.placedName_of_no_enclosing hb htb heb
  intro heq
  apply dollar_notMem_qualified hplain.package_no_dollar (hplain.plain _ _ _ hsimple).no_dollar
  rw [← hqualified, ← heq, hname]
  simp

/-- Types with equal names are one, are equally numbered, or lie in different types with equal
names. -/
theorem cases_of_placedName_eq {a b : Nat} (ha : t.InNamedType a) (hb : t.InNamedType b)
    (hta : t.isType a = true) (htb : t.isType b = true) (heq : t.placedName a = t.placedName b) :
    a = b ∨ t.EquallyNumbered a b ∨ ∃ e f, t.enclosing? a = some e ∧ t.enclosing? b = some f ∧
      e ≠ f ∧ t.placedName e = t.placedName f := by
  cases hea : t.enclosing? a with
  | none =>
    cases heb : t.enclosing? b with
    | none =>
      obtain ⟨nameA, hnameA, hqualifiedA⟩ := h.placedName_of_no_enclosing ha hta hea
      obtain ⟨nameB, hnameB, hqualifiedB⟩ := h.placedName_of_no_enclosing hb htb heb
      rw [hqualifiedA, hqualifiedB] at heq
      obtain rfl := qualified_injective package heq
      exact Or.inl (hplain.distinct a b nameA hnameA hnameB (hea.trans heb.symm))
    | some f =>
      exact absurd heq.symm (placedName_ne_of_enclosing h hplain hb ha htb hta heb hea)
  | some e =>
    cases heb : t.enclosing? b with
    | none => exact absurd heq (placedName_ne_of_enclosing h hplain ha hb hta htb hea heb)
    | some f =>
      obtain ⟨-, -, -, hnameA⟩ := h.placedName_of_enclosing ha hta hea
      obtain ⟨-, -, -, hnameB⟩ := h.placedName_of_enclosing hb htb heb
      obtain ⟨numberA, simpleA, hsegmentA, htextA⟩ := h.exists_segmentOf hta
      obtain ⟨numberB, simpleB, hsegmentB, htextB⟩ := h.exists_segmentOf htb
      have hplainA := hsegmentA.plain hplain
      have hplainB := hsegmentB.plain hplain
      have htexts : (t.placedName e).toList ++ '$' :: (segmentText numberA simpleA).toList =
          (t.placedName f).toList ++ '$' :: (segmentText numberB simpleB).toList := by
        rw [hnameA, hnameB, htextA, htextB] at heq
        simpa using congrArg String.toList heq
      obtain ⟨houter, hinner⟩ := append_dollar_inj (dollar_notMem_segmentText hplainA)
        (dollar_notMem_segmentText hplainB) htexts
      obtain ⟨rfl, rfl⟩ := segmentText_inj hplainA hplainB (String.toList_inj.1 hinner)
      by_cases hef : e = f
      · subst hef
        obtain ⟨p, hp, -⟩ := h.exists_parent (ha.pos h.toRooted) ha.lt_size
        obtain ⟨q, hq, -⟩ := h.exists_parent (hb.pos h.toRooted) hb.lt_size
        rcases hsegmentA.eq_or_equallyNumbered h.toRooted hplain hp hq hea heb hsegmentB with
          hab | hab
        · exact Or.inl hab
        · exact Or.inr (Or.inl hab)
      · exact Or.inr (Or.inr ⟨e, f, rfl, rfl, hef, String.toList_inj.1 houter⟩)

/-- Distinct types with equal names lie in, or are, equally numbered local types. -/
theorem exists_equallyNumbered {a b : Nat} (ha : t.InNamedType a) (hb : t.InNamedType b)
    (hta : t.isType a = true) (htb : t.isType b = true) (hab : a ≠ b)
    (heq : t.placedName a = t.placedName b) :
    ∃ c ∈ t.chain a, ∃ d ∈ t.chain b, t.EquallyNumbered c d := by
  induction a using Nat.strong_induction_on generalizing b with
  | _ a ih =>
    have hself : ∀ {id}, t.InNamedType id → id ∈ t.chain id := fun hin ↦
      h.mem_chain_self (hin.pos h.toRooted) hin.lt_size
    rcases cases_of_placedName_eq h hplain ha hb hta htb heq with
      hsame | hnumbered | ⟨e, f, hea, heb, hef, heq'⟩
    · exact absurd hsame hab
    · exact ⟨a, hself ha, b, hself hb, hnumbered⟩
    · obtain ⟨he, hte, hlt, -⟩ := h.placedName_of_enclosing ha hta hea
      obtain ⟨hf, htf, -, -⟩ := h.placedName_of_enclosing hb htb heb
      obtain ⟨c, hc, d, hd, hnumbered⟩ := ih e hlt he hf hte htf hef heq'
      have hmem : ∀ {id e}, t.enclosing? id = some e → t.chain e ⊆ t.chain id := fun he ↦
        (h.chain_suffix_of_mem (List.mem_of_mem_tail (List.mem_of_find?_eq_some he))).subset
      exact ⟨c, hmem hea hc, d, hmem heb hd, hnumbered⟩

/-- Distinct children of one parent have different names. -/
theorem eq_of_parent_eq {a b p : Nat} (ha : t.InNamedType a) (hb : t.InNamedType b)
    (hta : t.isType a = true) (htb : t.isType b = true) (hpa : t.parent? a = some p)
    (hpb : t.parent? b = some p) (heq : t.placedName a = t.placedName b) : a = b := by
  rcases cases_of_placedName_eq h hplain ha hb hta htb heq with
    hsame | hnumbered | ⟨e, f, hea, heb, hef, -⟩
  · exact hsame
  · exact absurd (hpa.trans hpb.symm) hnumbered.parent_ne
  · rw [h.enclosing?_child hpa] at hea
    rw [h.enclosing?_child hpb, hea] at heb
    exact absurd (Option.some.inj heb) hef

end EqualNames

/-- In a plainly named source, distinct types share a binary name only in or as local types that got
one number in different methods, initializers or fields, and never as children of one parent. -/
theorem equallyNumbered_of_binaryName_eq (outline : Outline) (size : Nat)
    (suggested : Option String)
    (hplain : (outline.declarations size suggested).PlainlyNamed (outline.packageName suggested))
    (a b : Nat) (ha : (outline.declarations size suggested).InNamedType a)
    (hb : (outline.declarations size suggested).InNamedType b)
    (hta : (outline.declarations size suggested).isType a = true)
    (htb : (outline.declarations size suggested).isType b = true) (hab : a ≠ b) :
    let t := outline.declarations size suggested
    t.binaryName ⟨a, t.chain a⟩ = t.binaryName ⟨b, t.chain b⟩ →
      t.parent? a ≠ t.parent? b ∧ ∃ c ∈ t.chain a, ∃ d ∈ t.chain b, t.EquallyNumbered c d := by
  intro t heq
  have h : WellNamed (outline.packageName suggested) t := wellNamed_declarations ..
  rw [h.binaryName_chain ha, h.binaryName_chain hb] at heq
  refine ⟨fun hparent ↦ hab ?_, exists_equallyNumbered h hplain ha hb hta htb hab heq⟩
  obtain ⟨p, hp, -⟩ := h.exists_parent (ha.pos h.toRooted) ha.lt_size
  exact eq_of_parent_eq h hplain ha hb hta htb hp (hparent ▸ hp) heq

/-- `class T { void m() { class L { class M {} } } void n() { class L { class M {} } } }` -/
def repeatedLocalOutline : Outline where
  package := some "p"
  parts := [.type ⟨0, 90⟩ "T" [] [
    .method ⟨10, 38⟩ "m" [] [.type ⟨21, 24⟩ "L" [] [.type ⟨31, 10⟩ "M" [] []]],
    .method ⟨50, 38⟩ "n" [] [.type ⟨61, 24⟩ "L" [] [.type ⟨71, 10⟩ "M" [] []]]]]

theorem plainlyNamed_repeatedLocalOutline :
    (repeatedLocalOutline.declarations 90 none).PlainlyNamed "p" := by
  have hnamed : (repeatedLocalOutline.declarations 90 none).namedTypes =
      [(1, "T", false), (3, "L", true), (4, "M", false), (6, "L", true), (7, "M", false)] := by cbv
  have hfirst : (repeatedLocalOutline.declarations 90 none).enclosing? 4 = some 3 := by cbv
  have hsecond : (repeatedLocalOutline.declarations 90 none).enclosing? 7 = some 6 := by cbv
  refine ⟨by decide, fun id name isLocal h ↦ ?_, fun a b name ha hb hab ↦ ?_⟩
  · have hmem := h.mem_namedTypes
    simp only [hnamed, List.mem_cons, Prod.mk.injEq, List.not_mem_nil, or_false] at hmem
    rcases hmem with ⟨-, rfl, -⟩ | ⟨-, rfl, -⟩ | ⟨-, rfl, -⟩ | ⟨-, rfl, -⟩ | ⟨-, rfl, -⟩ <;>
      exact ⟨by simp, by simp, by decide⟩
  · have hmemA := ha.mem_namedTypes
    have hmemB := hb.mem_namedTypes
    rw [hnamed] at hmemA hmemB
    have hplace : a = b ∨ (a = 4 ∧ b = 7) ∨ (a = 7 ∧ b = 4) := by
      simp at hmemA hmemB
      grind
    rcases hplace with rfl | ⟨rfl, rfl⟩ | ⟨rfl, rfl⟩
    · rfl
    · rw [hfirst, hsecond] at hab
      cases hab
    · rw [hfirst, hsecond] at hab
      cases hab

theorem equallyNumbered_repeatedLocalOutline :
    (repeatedLocalOutline.declarations 90 none).binaryName
        ⟨4, (repeatedLocalOutline.declarations 90 none).chain 4⟩ = "p.T$1L$M" ∧
      (repeatedLocalOutline.declarations 90 none).binaryName
        ⟨7, (repeatedLocalOutline.declarations 90 none).chain 7⟩ = "p.T$1L$M" ∧
      ∃ c ∈ (repeatedLocalOutline.declarations 90 none).chain 4,
        ∃ d ∈ (repeatedLocalOutline.declarations 90 none).chain 7,
          (repeatedLocalOutline.declarations 90 none).EquallyNumbered c d := by
  have hfirst : (repeatedLocalOutline.declarations 90 none).chain 4 = [4, 3, 2, 1] := by cbv
  have hsecond : (repeatedLocalOutline.declarations 90 none).chain 7 = [7, 6, 5, 1] := by cbv
  have htop : (repeatedLocalOutline.declarations 90 none).declaration? 1 = some
      { kind := .type, span := ⟨0, 90⟩, qualifiedName := some "p.T", simpleName := some "T" } := by
    cbv
  have hname : (repeatedLocalOutline.declarations 90 none).binaryName
      ⟨4, (repeatedLocalOutline.declarations 90 none).chain 4⟩ = "p.T$1L$M" := by cbv
  have hname' : (repeatedLocalOutline.declarations 90 none).binaryName
      ⟨7, (repeatedLocalOutline.declarations 90 none).chain 7⟩ = "p.T$1L$M" := by cbv
  refine ⟨hname, hname', ?_⟩
  exact (equallyNumbered_of_binaryName_eq repeatedLocalOutline 90 none
    plainlyNamed_repeatedLocalOutline 4 7 ⟨1, _, by rw [hfirst]; rfl, htop, rfl, rfl⟩
    ⟨1, _, by rw [hsecond]; rfl, htop, rfl, rfl⟩ (by cbv) (by cbv) (by decide)
    (hname.trans hname'.symm)).2

end Java

end BinaryNames
