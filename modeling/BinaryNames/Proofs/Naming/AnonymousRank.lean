import BinaryNames.Proofs.Java.SourceOrder
import BinaryNames.Proofs.Naming.Uniqueness

/-!
# Anonymous Classes in Source Order

Growth numbers the class bodies without a name of a type by a counter, in the order in which it
comes to them.  In a well nested outline that is the order in which the bodies start, so the number
of a body can be read off the source: the body of an argument comes before the one of its host, and
bodies inside other types do not count.  The numbers of a type have no gap, and no counter exceeds
the size of the source.
-/

namespace BinaryNames

/-! ## Counting -/

section Count

variable {p : Nat → Prop} [DecidablePred p]

/-- Counting below `a` is counting what is below `a`. -/
theorem count_and_lt {a n : Nat} (h : a ≤ n) :
    Nat.count (fun j ↦ p j ∧ j < a) n = Nat.count p a := by
  obtain ⟨k, rfl⟩ := Nat.exists_eq_add_of_le h
  have hnone : Nat.count (fun i ↦ p (a + i) ∧ a + i < a) k = 0 := by
    rw [Nat.count_iff_forall_not]
    intro i _ hi
    omega
  rw [Nat.count_add, hnone, Nat.add_zero]
  apply DeclarationTree.count_congr_below
  intro j hj
  exact and_iff_left hj

/-- Every smaller number is reached by a count. -/
theorem exists_count_eq {m n : Nat} (h : m < Nat.count p n) : ∃ a < n, p a ∧ Nat.count p a = m := by
  induction n with
  | zero => simp at h
  | succ n ih =>
    rcases Nat.lt_or_ge m (Nat.count p n) with hlt | hge
    · obtain ⟨a, ha, hpa⟩ := ih hlt
      exact ⟨a, ha.trans n.lt_succ_self, hpa⟩
    · rw [Nat.count_succ] at h
      split at h
      · next hpn => exact ⟨n, n.lt_succ_self, hpn, by omega⟩
      · omega

/-- What increases below a bound is not counted beyond the bound. -/
theorem count_le_of_increasing {f : Nat → Nat} {n bound : Nat}
    (hf : ∀ i j, i < j → j < n → p i → p j → f i < f j) (hbound : ∀ j < n, p j → f j < bound) :
    Nat.count p n ≤ bound := by
  induction n generalizing bound with
  | zero => simp
  | succ n ih =>
    have hf' : ∀ i j, i < j → j < n → p i → p j → f i < f j :=
      fun i j hij hj ↦ hf i j hij (hj.trans n.lt_succ_self)
    rw [Nat.count_succ]
    split
    · next hpn =>
      have hle := ih hf' fun j hj hpj ↦ hf j n hj n.lt_succ_self hpj hpn
      have := hbound n n.lt_succ_self hpn
      omega
    · exact ih hf' fun j hj ↦ hbound j (hj.trans n.lt_succ_self)

end Count

namespace DeclarationTree

/-- How many class bodies without a name the type at `e` has. -/
def anonymousCount (t : DeclarationTree) (e : Nat) : Nat :=
  Nat.count (fun j ↦ t.isAnonymousType j = true ∧ t.enclosing? j = some e) t.size

/-- The one-based rank of a body among those of the same type by where they start. -/
def textualRank (t : DeclarationTree) (id : Nat) : Nat :=
  1 + Nat.count (fun j ↦ t.isAnonymousType j = true ∧ t.enclosing? j = t.enclosing? id ∧
    (t.spanAt j).offset < (t.spanAt id).offset) t.size

theorem isAnonymousType_iff {t : DeclarationTree} {id : Nat} : t.isAnonymousType id = true ↔
    ∃ d, t.declaration? id = some d ∧ d.kind = .type ∧ d.isAnonymous = true := by
  simp [isAnonymousType, Option.any_eq_true]

theorem isType_of_isAnonymousType {t : DeclarationTree} {id : Nat}
    (h : t.isAnonymousType id = true) : t.isType id = true := by
  obtain ⟨d, hd, hk, -⟩ := isAnonymousType_iff.1 h
  simp [isType_eq, hd, hk]

theorem lt_size_of_isAnonymousType {t : DeclarationTree} {id : Nat}
    (h : t.isAnonymousType id = true) : id < t.size := by
  obtain ⟨d, hd, -⟩ := isAnonymousType_iff.1 h
  exact lt_size_of_declaration? hd

namespace Rooted

variable {t : DeclarationTree} (h : t.Rooted)
include h

/-- No type on a chain is further in than the innermost one. -/
theorem exists_typeAround_ge {a id : Nat} (ha : a ∈ t.chain id) (htype : t.isType a = true) :
    ∃ e, t.typeAround? id = some e ∧ a ≤ e := by
  have hid := lt_size_of_chain_ne_nil (List.ne_nil_of_mem ha)
  revert ha
  refine h.induction (motive := fun id ↦ a ∈ t.chain id → ∃ e, t.typeAround? id = some e ∧ a ≤ e)
    ?_ ?_ hid
  · intro ha
    rw [h.chain_root] at ha
    cases ha
  · intro id p hp ih ha
    rw [h.typeAround?_child hp]
    split
    · exact ⟨id, rfl, le_of_mem_chain ha⟩
    · next hnot =>
      rw [h.chain_child hp] at ha
      rcases List.mem_cons.1 ha with rfl | ha
      · exact absurd htype hnot
      · exact ih ha

/-- Types of one type do not lie in each other. -/
theorem notMem_chain_of_enclosing? {a b : Nat} (hlt : a < b) (hb : b < t.size)
    (htype : t.isType a = true) (heq : t.enclosing? a = t.enclosing? b) : a ∉ t.chain b := by
  intro hmem
  obtain ⟨p, hp, -⟩ := h.exists_parent (Nat.zero_lt_of_lt hlt) hb
  rw [h.chain_child hp, List.mem_cons, or_iff_right hlt.ne] at hmem
  obtain ⟨e, he, hle⟩ := h.exists_typeAround_ge hmem htype
  rw [h.enclosing?_child hp, he] at heq
  exact absurd (h.lt_of_enclosing? heq) (Nat.not_lt.2 hle)

end Rooted

end DeclarationTree

namespace Java

open DeclarationTree

/-- No class body without a name is empty. -/
def Outline.HasBodies (outline : Outline) : Prop :=
  ∀ address d, outline.declaredAt? address = some d → d.isAnonymous = true → 0 < d.span.length

/-- A charted tree whose anonymous classes have bodies. -/
structure Numberable (sites : List Site) (size : Nat) (t : DeclarationTree) : Prop
    extends Charted sites size t where
  nonempty : ∀ id, t.isAnonymousType id = true → 0 < (t.spanAt id).length

namespace Numberable

variable {sites : List Site} {size : Nat} {t : DeclarationTree} (h : Numberable sites size t)
include h

/-- Of two anonymous classes in one type the one that comes first starts first. -/
theorem offset_lt {a b : Nat} (hlt : a < b) (ha : t.isAnonymousType a = true)
    (hb : t.isAnonymousType b = true) (heq : t.enclosing? a = t.enclosing? b) :
    (t.spanAt a).offset < (t.spanAt b).offset := by
  have htype := isType_of_isAnonymousType ha
  have hsize := lt_size_of_isAnonymousType hb
  have hapart := h.notMem_chain_of_enclosing? hlt hsize htype heq
  have hend := (h.around_or_inFront (h.pos_of_isType htype) hlt hsize).2 hapart
  have hpos := h.nonempty a ha
  omega

theorem offset_lt_iff {a b : Nat} (ha : t.isAnonymousType a = true)
    (hb : t.isAnonymousType b = true) (heq : t.enclosing? a = t.enclosing? b) :
    (t.spanAt a).offset < (t.spanAt b).offset ↔ a < b := by
  refine ⟨fun hlt ↦ ?_, fun hlt ↦ h.offset_lt hlt ha hb heq⟩
  by_contra hle
  have := h.offset_mono (Nat.le_of_not_lt hle) (lt_size_of_isAnonymousType ha)
  omega

/-- The rank by number is the rank by offset. -/
theorem textualRank_eq {id : Nat} (hid : t.isAnonymousType id = true) :
    t.textualRank id = t.anonymousRank id := by
  unfold textualRank anonymousRank
  rw [Nat.add_comm, ← count_and_lt (lt_size_of_isAnonymousType hid).le]
  congr 1
  apply count_congr_below
  intro j _
  rw [and_assoc]
  refine and_congr_right fun hj ↦ and_congr_right fun heq ↦ ?_
  exact h.offset_lt_iff hj hid heq

/-- The ranks in one type are the numbers up to the number of its anonymous classes. -/
theorem textualRank_bijOn (e : Nat) : Set.BijOn t.textualRank
    {id | t.isAnonymousType id = true ∧ t.enclosing? id = some e}
    (Set.Icc 1 (t.anonymousCount e)) := by
  have hrank : ∀ id, t.isAnonymousType id = true → t.enclosing? id = some e → t.textualRank id =
      Nat.count (fun j ↦ t.isAnonymousType j = true ∧ t.enclosing? j = some e) id + 1 := by
    intro id hid he
    rw [h.textualRank_eq hid, anonymousRank, he]
  refine ⟨?_, ?_, ?_⟩
  · rintro id ⟨hid, he⟩
    have hlt := Nat.count_strict_mono
      (p := fun j ↦ t.isAnonymousType j = true ∧ t.enclosing? j = some e) ⟨hid, he⟩
      (lt_size_of_isAnonymousType hid)
    rw [hrank id hid he]
    exact ⟨Nat.le_add_left 1 _, hlt⟩
  · rintro a ⟨ha, hea⟩ b ⟨hb, heb⟩ heq
    rw [h.textualRank_eq ha, h.textualRank_eq hb] at heq
    exact anonymousRank_inj ha hb (hea.trans heb.symm) heq
  · rintro m ⟨hpos, hle⟩
    obtain ⟨id, -, ⟨hid, he⟩, hcount⟩ := exists_count_eq (Nat.sub_one_lt_of_le hpos hle)
    refine ⟨id, ⟨hid, he⟩, ?_⟩
    rw [hrank id hid he, hcount, Nat.sub_add_cancel hpos]

/-- A type has no more anonymous classes than the source has bytes. -/
theorem anonymousCount_le (e : Nat) : t.anonymousCount e ≤ size := by
  apply count_le_of_increasing (f := fun j ↦ (t.spanAt j).offset)
  · rintro i j hij - ⟨hi, hei⟩ ⟨hj, hej⟩
    exact h.offset_lt hij hi hj (hei.trans hej.symm)
  · rintro j hlt ⟨hj, -⟩
    have hupper := (h.within hlt).upper
    have hpos := h.nonempty j hj
    omega

end Numberable

theorem numberable_declarations (outline : Outline) {size : Nat} (hsize : size ≤ maxOffset)
    (hnested : outline.WellNested size) (hbodies : outline.HasBodies) (suggested : Option String) :
    Numberable outline.sites size (outline.declarations size suggested) := by
  have hcharted := charted_declarations outline hsize hnested suggested
  refine ⟨hcharted, fun id hid ↦ ?_⟩
  have hpos := hcharted.pos_of_isType (isType_of_isAnonymousType hid)
  obtain ⟨d, hd, -, hanonymous⟩ := isAnonymousType_iff.1 hid
  have hsite := hcharted.bare_declaration hpos (lt_size_of_isAnonymousType hid)
  rw [hd, Option.map_some] at hsite
  simpa [spanAt, hd] using hbodies _ d.bare hsite.symm (by simpa using hanonymous)

/-- Anonymous classes in a named type belong to a type with a name. -/
theorem WellNamed.qualifiedName?_anonymous {package : String} {t : DeclarationTree}
    (h : WellNamed package t) {id : Nat} (hid : t.isAnonymousType id = true)
    (hin : t.InNamedType id) :
    ∃ e name, t.enclosing? id = some e ∧ t.qualifiedName? e = some name ∧
      t.qualifiedName? id = some (name ++ "$" ++ Nat.repr (t.anonymousRank id)) := by
  obtain ⟨d, hd, hk, hanonymous⟩ := isAnonymousType_iff.1 hid
  obtain ⟨p, hp, -⟩ := h.exists_parent (hin.pos h.toRooted) hin.lt_size
  have hpos : 0 < p := by
    apply Nat.pos_of_ne_zero
    rintro rfl
    obtain ⟨d', hd', -, hnamed⟩ := hin.declaration_of_child_root h.toRooted hp
    obtain rfl := Option.some.inj (hd.symm.trans hd')
    rw [hanonymous] at hnamed
    cases hnamed
  obtain ⟨e, name, he, hname, -⟩ := h.foldl_numberAt (hin.parent h.toRooted hp hpos)
  have henclosing : t.enclosing? id = some e := (h.enclosing?_child hp).trans he
  refine ⟨e, name, henclosing, hname, ?_⟩
  have hqualified := ((h.fits id d hd hk).anonymous hanonymous).2.2
  rw [qualifiedName?, hd, Option.bind_some, hqualified, DeclarationTree.enclosingName?, henclosing,
    Option.bind_some, hname, Option.map_some]

/-! ## Counters -/

/-- Counters never go back. -/
theorem anonymousCounts_le_of_steps {package : String} {g g' : Growth}
    (h : Steps package g g') (e : Nat) :
    g.anonymousCounts.getD e 0 ≤ g'.anonymousCounts.getD e 0 := by
  induction h with
  | refl => exact le_rfl
  | @tail g₁ g₂ _ hstep ih =>
    apply ih.trans
    cases hstep with
    | type | code => exact le_rfl
    | @anonymous p hp body =>
      have hcount := anonymousCounts_countAnonymous g₁ p e
      have heq : (g₁.pushAnonymous (scopeAt g₁.tree p) body).anonymousCounts =
          (g₁.countAnonymous (scopeAt g₁.tree p)).anonymousCounts := rfl
      rw [heq, hcount]
      exact Nat.le_add_right _ _

/-- No counter on the way to the declarations of an outline exceeds the number of classes that it
counts. -/
theorem anonymousCounts_le (outline : Outline) (size : Nat) (suggested : Option String)
    {g : Growth} (h : Steps (outline.packageName suggested) g
      (growParts (outline.packageName suggested) {} (.start size) outline.parts)) (e : Nat) :
    g.anonymousCounts.getD e 0 ≤ (outline.declarations size suggested).anonymousCount e := by
  have hsteps := steps_growParts (outline.packageName suggested) (.start size) (p := 0)
    Nat.zero_lt_one outline.parts
  rw [scopeAt_start] at hsteps
  calc
    _ ≤ _ := anonymousCounts_le_of_steps h e
    _ = _ := ((named_start _ size).steps hsteps).count_eq e

/-- An anonymous class in a named type goes by the name of the type around it and its rank among the
anonymous classes of that type by where their bodies start.  The ranks of a type are the numbers
from one without a gap, and no counter on the way is cut. -/
theorem anonymous_numbered_in_source_order (outline : Outline) {size : Nat}
    (hsize : size ≤ maxSourceSize) (hnested : outline.WellNested size)
    (hbodies : outline.HasBodies) (suggested : Option String) :
    let t := outline.declarations size suggested
    (∀ id, t.isAnonymousType id = true → t.InNamedType id →
      ∃ e name, t.enclosing? id = some e ∧ t.qualifiedName? e = some name ∧
        t.qualifiedName? id = some (name ++ "$" ++ Nat.repr (t.textualRank id))) ∧
    (∀ e, Set.BijOn t.textualRank {id | t.isAnonymousType id = true ∧ t.enclosing? id = some e}
      (Set.Icc 1 (t.anonymousCount e))) ∧
    ∀ g e, Steps (outline.packageName suggested) g
        (growParts (outline.packageName suggested) {} (.start size) outline.parts) →
      g.anonymousCounts.getD e 0 < maxOffset := by
  intro t
  have hmax : size < maxOffset := hsize.trans_lt (by decide)
  have h : Numberable outline.sites size t :=
    numberable_declarations outline hmax.le hnested hbodies suggested
  refine ⟨fun id hid hin ↦ ?_, h.textualRank_bijOn, fun g e hsteps ↦ ?_⟩
  · rw [h.textualRank_eq hid]
    exact (wellNamed_declarations outline size suggested).qualifiedName?_anonymous hid hin
  · calc
      _ ≤ t.anonymousCount e := anonymousCounts_le outline size suggested hsteps e
      _ ≤ size := h.anonymousCount_le e
      _ < maxOffset := hmax

theorem hasBodies_argumentOutline : argumentOutline.HasBodies := by
  intro address d hd _
  have hsites : argumentOutline.sites.map (·.declaration.span.length) = [52, 40, 2, 10, 6] := by
    simp [Outline.sites, argumentOutline, sitesFrom, SyntaxNode.sites_eq, SyntaxNode.contents,
      SyntaxNode.children, SyntaxNode.headerLength, SyntaxNode.declared?]
  have hmem : d.span.length ∈ argumentOutline.sites.map (·.declaration.span.length) :=
    List.mem_map_of_mem (Outline.mem_sites_iff (s := ⟨address, d⟩) |>.2 hd)
  rw [hsites] at hmem
  have hall : ∀ n ∈ [52, 40, 2, 10, 6], 0 < n := by decide
  exact hall _ hmem

/-- The class in the argument of another one is the first of the two. -/
theorem anonymous_numbered_argumentOutline :
    argumentOutline.WellNested 52 ∧ argumentOutline.HasBodies ∧
      (argumentOutline.declarations 52 none).InNamedType 3 ∧
      (argumentOutline.declarations 52 none).InNamedType 4 ∧
      (argumentOutline.declarations 52 none).qualifiedName? 3 = some "A$1" ∧
      (argumentOutline.declarations 52 none).qualifiedName? 4 = some "A$2" := by
  have hchain : (argumentOutline.declarations 52 none).chain 3 = [3, 2, 1] := by cbv
  have hchain' : (argumentOutline.declarations 52 none).chain 4 = [4, 2, 1] := by cbv
  have htop : (argumentOutline.declarations 52 none).declaration? 1 = some
      { kind := .type, span := ⟨0, 52⟩, qualifiedName := some "A", simpleName := some "A" } := by
    cbv
  have hin : (argumentOutline.declarations 52 none).InNamedType 3 :=
    ⟨1, _, by rw [hchain]; rfl, htop, rfl, rfl⟩
  have hin' : (argumentOutline.declarations 52 none).InNamedType 4 :=
    ⟨1, _, by rw [hchain']; rfl, htop, rfl, rfl⟩
  obtain ⟨hnames, -⟩ := anonymous_numbered_in_source_order argumentOutline (by decide)
    wellNested_argumentOutline hasBodies_argumentOutline none
  have hrank : (argumentOutline.declarations 52 none).textualRank 3 = 1 := by cbv
  have hrank' : (argumentOutline.declarations 52 none).textualRank 4 = 2 := by cbv
  have htype : (argumentOutline.declarations 52 none).enclosing? 3 = some 1 := by cbv
  have htype' : (argumentOutline.declarations 52 none).enclosing? 4 = some 1 := by cbv
  have hfirst := hnames 3 (by cbv) hin
  have hsecond := hnames 4 (by cbv) hin'
  simp only [htype, htype', hrank, hrank', Option.some.injEq, exists_and_left, exists_eq_left',
    qualifiedName?, htop, Option.bind_some] at hfirst hsecond
  exact ⟨wellNested_argumentOutline, hasBodies_argumentOutline, hin, hin', hfirst, hsecond⟩

end Java

end BinaryNames
