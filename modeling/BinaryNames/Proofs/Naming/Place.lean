import BinaryNames.Proofs.Java.Growth
import BinaryNames.TypeName
import Mathlib.Data.Nat.Count

/-!
# Names by Place

The place of a type in the tree decides its qualified name.  A named type extends the name of the
type around it by its simple name, a body without a name by its rank among such bodies of the same
type, and a type without a type around it belongs to the package.  `Named` says so of every type and
ties the counters of growth to the ranks; every step keeps it.
-/

namespace BinaryNames

namespace DeclarationTree

/-- Whether the node at `id` is a class body without a name. -/
def isAnonymousType (t : DeclarationTree) (id : Nat) : Bool :=
  (t.declaration? id).any (fun d ↦ d.kind = .type && d.isAnonymous)

/-- The qualified name of the innermost type around the node at `id`. -/
def enclosingName? (t : DeclarationTree) (id : Nat) : Option String :=
  (t.enclosing? id).bind t.qualifiedName?

/-- The one-based rank of a body among the bodies without a name of the same type. -/
def anonymousRank (t : DeclarationTree) (id : Nat) : Nat :=
  Nat.count (fun j ↦ t.isAnonymousType j = true ∧ t.enclosing? j = t.enclosing? id) id + 1

/-- Predicates that agree below a bound are counted alike. -/
theorem count_congr_below {p q : Nat → Prop} [DecidablePred p] [DecidablePred q] {n : Nat}
    (h : ∀ j < n, (p j ↔ q j)) : Nat.count p n = Nat.count q n :=
  le_antisymm (Nat.count_mono_left fun j hj ↦ (h j hj).1)
    (Nat.count_mono_left fun j hj ↦ (h j hj).2)

section Push

variable (t : DeclarationTree) (parent : Nat) (d : Declaration)

theorem isAnonymousType_push_of_lt {id : Nat} (h : id < t.size) :
    (t.push parent d).isAnonymousType id = t.isAnonymousType id := by
  rw [isAnonymousType, declaration?_push_of_lt t parent d h, isAnonymousType]

theorem isAnonymousType_push_size :
    (t.push parent d).isAnonymousType t.size = (decide (d.kind = .type) && d.isAnonymous) := by
  simp [isAnonymousType, declaration?_push_size]

theorem lt_size_of_typeAround? {t : DeclarationTree} {id e : Nat} (h : t.typeAround? id = some e) :
    e < t.size :=
  lt_size_of_mem_chain (List.mem_of_find?_eq_some h)

theorem lt_size_of_enclosing? {t : DeclarationTree} {id e : Nat} (h : t.enclosing? id = some e) :
    e < t.size :=
  lt_size_of_mem_chain (List.mem_of_mem_tail (List.mem_of_find?_eq_some h))

theorem enclosingName?_push_of_lt {id : Nat} (h : id < t.size) :
    (t.push parent d).enclosingName? id = t.enclosingName? id := by
  rw [enclosingName?, enclosing?_push_of_lt t parent d h, enclosingName?]
  cases he : t.enclosing? id with
  | none => rfl
  | some e => exact qualifiedName?_push_of_lt t parent d (lt_size_of_enclosing? he)

theorem enclosingName?_push_size {d : Declaration} (hd : d.kind ≠ .unit) :
    (t.push parent d).enclosingName? t.size =
      (t.typeAround? (t.attachPoint parent)).bind t.qualifiedName? := by
  rw [enclosingName?, enclosing?_push_size t parent hd]
  cases he : t.typeAround? (t.attachPoint parent) with
  | none => rfl
  | some e => exact qualifiedName?_push_of_lt t parent d (lt_size_of_typeAround? he)

theorem anonymousRank_push_of_lt {id : Nat} (h : id < t.size) :
    (t.push parent d).anonymousRank id = t.anonymousRank id := by
  unfold anonymousRank
  congr 1
  apply count_congr_below
  intro j hj
  rw [isAnonymousType_push_of_lt t parent d (hj.trans h),
    enclosing?_push_of_lt t parent d (hj.trans h), enclosing?_push_of_lt t parent d h]

end Push

end DeclarationTree

namespace Java

open DeclarationTree

/-- What the type `d` at `id` is called agrees with its place. -/
structure FitsPlace (package : String) (t : DeclarationTree) (id : Nat) (d : Declaration) :
    Prop where
  anonymous : d.isAnonymous = true → d.simpleName = none ∧ d.isLocal = false ∧
    d.qualifiedName =
      (t.enclosingName? id).map fun outer ↦ outer ++ "$" ++ Nat.repr (t.anonymousRank id)
  named : d.isAnonymous = false → ∃ name, d.simpleName = some name ∧
    d.isLocal = ((t.parent? id).bind t.declaration?).any holdsCode ∧
    d.qualifiedName = some
      (((t.enclosingName? id).map fun outer ↦ outer ++ "$" ++ name).getD
        (TypeName.qualified ⟨package, name⟩))

/-- A rooted tree in which every type is called by its place. -/
structure WellNamed (package : String) (t : DeclarationTree) : Prop extends t.Rooted where
  fits : ∀ id d, t.declaration? id = some d → d.kind = .type → FitsPlace package t id d

/-- The tree is well named so far, and the counters count the bodies without a name in each type. -/
structure Named (package : String) (g : Growth) : Prop extends WellNamed package g.tree where
  count_eq : ∀ e, g.anonymousCounts.getD e 0 =
    Nat.count (fun j ↦ g.tree.isAnonymousType j = true ∧ g.tree.enclosing? j = some e) g.tree.size

theorem FitsPlace.push {package : String} {t : DeclarationTree} {id : Nat} {d : Declaration}
    (h : FitsPlace package t id d) (hid : id < t.size) (parent : Nat) (new : Declaration) :
    FitsPlace package (t.push parent new) id d where
  anonymous := by
    rw [enclosingName?_push_of_lt t parent new hid, anonymousRank_push_of_lt t parent new hid]
    exact h.anonymous
  named := by
    have hparent : ((t.push parent new).parent? id).bind (t.push parent new).declaration? =
        (t.parent? id).bind t.declaration? := by
      rw [parent?_push_of_lt t parent new hid]
      cases hp : t.parent? id with
      | none => rfl
      | some p => exact declaration?_push_of_lt t parent new ((parent?_lt hp).trans hid)
    rw [enclosingName?_push_of_lt t parent new hid, hparent]
    exact h.named

section Step

variable {package : String} {g : Growth}

/-- The name that growth looks up for the scope at `p` is the one of the type around `p`. -/
theorem enclosingName?_scopeAt (g : Growth) (p : Nat) :
    g.enclosingName? (scopeAt g.tree p) = (g.tree.typeAround? p).bind g.tree.qualifiedName? := by
  unfold Growth.enclosingName? scopeAt
  cases g.tree.typeAround? p with
  | none => rfl
  | some e => cases h : g.tree.node? e <;> simp [qualifiedName?, declaration?, h]

theorem qualifiedName_scopeAt (g : Growth) (p : Nat) (name : String) :
    g.qualifiedName package (scopeAt g.tree p) name =
      (((g.tree.typeAround? p).bind g.tree.qualifiedName?).map fun outer ↦
        outer ++ "$" ++ name).getD (TypeName.qualified ⟨package, name⟩) := by
  unfold Growth.qualifiedName
  rw [enclosingName?_scopeAt]
  cases (g.tree.typeAround? p).bind g.tree.qualifiedName? <;> rfl

/-- The number of bodies without a name in `e` after a push. -/
theorem count_push (t : DeclarationTree) (p : Nat) {d : Declaration} (hd : d.kind ≠ .unit)
    (e : Nat) :
    Nat.count (fun j ↦ (t.push p d).isAnonymousType j = true ∧
        (t.push p d).enclosing? j = some e) (t.push p d).size =
      Nat.count (fun j ↦ t.isAnonymousType j = true ∧ t.enclosing? j = some e) t.size +
        if (d.kind = .type ∧ d.isAnonymous = true) ∧ t.typeAround? (t.attachPoint p) = some e
        then 1 else 0 := by
  rw [size_push, Nat.count_succ, isAnonymousType_push_size, enclosing?_push_size t p hd]
  congr 1
  · apply count_congr_below
    intro j hj
    rw [isAnonymousType_push_of_lt t p d hj, enclosing?_push_of_lt t p d hj]
  · simp

/-- A push keeps a tree well named if the new declaration fits its own place. -/
theorem WellNamed.push {t : DeclarationTree} (h : WellNamed package t) {p : Nat}
    {new : Declaration} (hunit : new.kind ≠ .unit)
    (hnew : new.kind = .type → FitsPlace package (t.push p new) t.size new) :
    WellNamed package (t.push p new) where
  toRooted := h.toRooted.push p hunit
  fits := by
    intro id d hd hk
    have hlt := lt_size_of_declaration? hd
    rw [size_push] at hlt
    rcases Nat.lt_succ_iff_lt_or_eq.1 hlt with hold | rfl
    · rw [declaration?_push_of_lt t p new hold] at hd
      exact (h.fits id d hd hk).push hold p new
    · rw [declaration?_push_size, Option.some.injEq] at hd
      subst hd
      exact hnew hk

theorem Named.push_code (h : Named package g) {p : Nat} {d : Declaration}
    (hd : holdsCode d = true) : Named package (g.push (scopeAt g.tree p) d) := by
  obtain ⟨hunit, htype⟩ := kind_of_holdsCode hd
  refine ⟨h.toWellNamed.push hunit fun hk ↦ absurd hk htype, ?_⟩
  intro e
  have hcount := count_push g.tree p hunit e
  simp only [htype, false_and, if_false, Nat.add_zero] at hcount
  exact (h.count_eq e).trans hcount.symm

theorem Named.push_type (h : Named package g) {p : Nat} (hp : p < g.tree.size) (span : Span)
    (name : String) : Named package (g.pushType package (scopeAt g.tree p) span name) := by
  unfold Growth.pushType Growth.push
  generalize hd : Declaration.mk .type span
    (some (g.qualifiedName package (scopeAt g.tree p) name)) (some name)
    (scopeAt g.tree p).inCode false = d
  have hunit : d.kind ≠ .unit := by simp [← hd]
  have hanonymous : d.isAnonymous = false := by simp [← hd]
  refine ⟨h.toWellNamed.push hunit fun _ ↦ ⟨?_, ?_⟩, ?_⟩
  · intro htrue
    rw [hanonymous] at htrue
    cases htrue
  · intro _
    have hlocal : d.isLocal = (scopeAt g.tree p).inCode := by simp [← hd]
    have hname : d.qualifiedName = some (g.qualifiedName package (scopeAt g.tree p) name) := by
      simp [← hd]
    refine ⟨name, by simp [← hd], ?_, ?_⟩
    · rw [hlocal, parent?_push_size, Option.bind_some]
      show _ = Option.any holdsCode ((g.tree.push p d).declaration? (g.tree.attachPoint p))
      rw [attachPoint_of_lt hp, declaration?_push_of_lt g.tree p d hp]
      rfl
    · rw [hname, qualifiedName_scopeAt]
      show _ = some ((((g.tree.push p d).enclosingName? g.tree.size).map _).getD _)
      rw [enclosingName?_push_size g.tree p hunit, attachPoint_of_lt hp]
  · intro e
    have hcount := count_push g.tree p hunit e
    simp only [hanonymous, Bool.false_eq_true, and_false, false_and, if_false,
      Nat.add_zero] at hcount
    exact (h.count_eq e).trans hcount.symm

theorem anonymousCounts_countAnonymous (g : Growth) (p e : Nat) :
    (g.countAnonymous (scopeAt g.tree p)).anonymousCounts.getD e 0 =
      g.anonymousCounts.getD e 0 + if g.tree.typeAround? p = some e then 1 else 0 := by
  unfold Growth.countAnonymous scopeAt
  cases hp : g.tree.typeAround? p with
  | none => simp
  | some e' =>
    simp only [Std.HashMap.getD_insert, beq_iff_eq, Option.some.injEq]
    split
    · next heq => rw [heq]
    · rfl

theorem anonymousName?_scopeAt (g : Growth) (p : Nat) :
    (g.countAnonymous (scopeAt g.tree p)).anonymousName? (scopeAt g.tree p) =
      (g.tree.typeAround? p).bind fun e ↦ (g.tree.qualifiedName? e).map fun outer ↦
        outer ++ "$" ++ Nat.repr (g.anonymousCounts.getD e 0 + 1) := by
  have hname : (g.countAnonymous (scopeAt g.tree p)).enclosingName? (scopeAt g.tree p) =
      (g.tree.typeAround? p).bind g.tree.qualifiedName? := by
    rw [← enclosingName?_scopeAt, Growth.enclosingName?, Growth.tree_countAnonymous]
    rfl
  unfold Growth.anonymousName?
  rw [hname]
  cases he : g.tree.typeAround? p with
  | none => simp [scopeAt, he]
  | some e =>
    have hcount := anonymousCounts_countAnonymous g p e
    rw [if_pos he] at hcount
    simp only [scopeAt, he, Option.bind_some] at hcount ⊢
    rw [hcount]

/-- The rank of a new body without a name is one more than the number of them so far. -/
theorem anonymousRank_push_size (t : DeclarationTree) {p : Nat} (hp : p < t.size)
    {d : Declaration} (hd : d.kind ≠ .unit) {e : Nat} (he : t.typeAround? p = some e) :
    (t.push p d).anonymousRank t.size =
      Nat.count (fun j ↦ t.isAnonymousType j = true ∧ t.enclosing? j = some e) t.size + 1 := by
  unfold anonymousRank
  congr 1
  apply count_congr_below
  intro j hj
  rw [isAnonymousType_push_of_lt t p d hj, enclosing?_push_of_lt t p d hj,
    enclosing?_push_size t p hd, attachPoint_of_lt hp, he]

theorem Named.push_anonymous (h : Named package g) {p : Nat} (hp : p < g.tree.size) (body : Span) :
    Named package (g.pushAnonymous (scopeAt g.tree p) body) := by
  have htree := g.tree_pushAnonymous (scopeAt g.tree p) body
  have hcounts : (g.pushAnonymous (scopeAt g.tree p) body).anonymousCounts =
      (g.countAnonymous (scopeAt g.tree p)).anonymousCounts := rfl
  generalize hd : Declaration.mk .type body
    ((g.countAnonymous (scopeAt g.tree p)).anonymousName? (scopeAt g.tree p)) none false true = d
      at htree
  replace htree : (g.pushAnonymous (scopeAt g.tree p) body).tree = g.tree.push p d := htree
  have hunit : d.kind ≠ .unit := by simp [← hd]
  refine ⟨?_, ?_⟩
  · rw [htree]
    refine h.toWellNamed.push hunit fun _ ↦ ⟨fun _ ↦ ⟨by simp [← hd], by simp [← hd], ?_⟩, ?_⟩
    · have hname : d.qualifiedName =
          (g.countAnonymous (scopeAt g.tree p)).anonymousName? (scopeAt g.tree p) := by
        simp [← hd]
      rw [hname, anonymousName?_scopeAt, enclosingName?_push_size g.tree p hunit,
        attachPoint_of_lt hp]
      cases he : g.tree.typeAround? p with
      | none => rfl
      | some e =>
        rw [anonymousRank_push_size g.tree hp hunit he, ← h.count_eq]
        rfl
    · intro hfalse
      simp [← hd] at hfalse
  · intro e
    have hcount := count_push g.tree p hunit e
    simp only [attachPoint_of_lt hp, ← hd, and_self, true_and] at hcount
    rw [hcounts, anonymousCounts_countAnonymous, h.count_eq, htree, ← hd]
    exact hcount.symm

theorem Named.step (h : Named package g) {g' : Growth} (hstep : Step package g g') :
    Named package g' := by
  cases hstep with
  | type hp span name => exact h.push_type hp span name
  | anonymous hp body => exact h.push_anonymous hp body
  | code hp hd => exact h.push_code hd

theorem Named.steps (h : Named package g) {g' : Growth} (hsteps : Steps package g g') :
    Named package g' := by
  induction hsteps with
  | refl => exact h
  | tail _ hstep ih => exact ih.step hstep

end Step

theorem named_start (package : String) (size : Nat) : Named package (.start size) where
  toRooted := rooted_empty _
  fits := by
    intro id d hd hk
    have hlt := lt_size_of_declaration? hd
    have hid : id = 0 := Nat.lt_one_iff.1 hlt
    have hunit := ((rooted_empty (offsetOfSize size)).unit_iff id d hd).2 hid
    rw [hk] at hunit
    cases hunit
  count_eq := by
    intro e
    have hroot : (Growth.start size).tree.isAnonymousType 0 = false := rfl
    have hsize : (Growth.start size).tree.size = 1 := rfl
    have hcounts : (Growth.start size).anonymousCounts.getD e 0 = 0 := Std.HashMap.getD_empty
    rw [hcounts, hsize, Nat.count_one, if_neg (by simp [hroot])]

/-- Every type of an outlined source is called by its place. -/
theorem wellNamed_declarations (outline : Outline) (size : Nat) (suggested : Option String) :
    WellNamed (outline.packageName suggested) (outline.declarations size suggested) := by
  obtain ⟨g, hsteps, heq⟩ := steps_declarations outline size suggested
  rw [heq]
  exact ((named_start _ size).steps hsteps).toWellNamed

end Java

end BinaryNames
