import BinaryNames.Proofs.Path.Components
import Mathlib.Logic.Relation

/-!
# Lexical Normal Forms

A path is simplified by dropping a `.`, by cancelling a name with the `..` after it, and by dropping
a `..` after the root.  In whatever order this is done, it ends in the same components, and these
are the ones that normalising gives.  So normalising twice changes nothing, and of two paths that
are joined the first one may be normalised before.
-/

namespace BinaryNames.Path

/-! ## Simplification -/

/-- One simplification of the components of a path. -/
inductive Simplifies : List Component → List Component → Prop
  | current (front back : List Component) :
      Simplifies (front ++ .current :: back) (front ++ back)
  | cancel (front : List Component) (b : List UInt8) (back : List Component) :
      Simplifies (front ++ .name b :: .parent :: back) (front ++ back)
  | aboveRoot (front back : List Component) :
      Simplifies (front ++ .root :: .parent :: back) (front ++ .root :: back)

open Relation (ReflTransGen)

section Simplification

variable {cs cs' : List Component}

theorem Simplifies.length_lt (h : Simplifies cs cs') : cs'.length < cs.length := by
  cases h <;> simp only [List.length_append, List.length_cons] <;> omega

theorem Simplifies.normalComponents_eq (h : Simplifies cs cs') :
    normalComponents cs = normalComponents cs' := by
  cases h <;> simp [normalComponents, pushNormal]

theorem normalComponents_eq_of_simplifies (h : ReflTransGen Simplifies cs cs') :
    normalComponents cs = normalComponents cs' := by
  induction h with
  | refl => rfl
  | tail _ hstep ih => exact ih.trans hstep.normalComponents_eq

/-- Pushing a component simplifies what has been passed so far. -/
theorem simplifies_pushNormal (stack : List Component) (c : Component) (rest : List Component) :
    ReflTransGen Simplifies (stack.reverse ++ c :: rest)
      ((pushNormal stack c).reverse ++ rest) := by
  cases c with
  | root => simpa [pushNormal] using ReflTransGen.refl
  | name b => simpa [pushNormal] using ReflTransGen.refl
  | current => exact .single (.current stack.reverse rest)
  | parent =>
    cases stack with
    | nil => exact .refl
    | cons top below =>
      cases top with
      | root =>
        have hstep := Simplifies.aboveRoot below.reverse rest
        simpa [pushNormal] using ReflTransGen.single hstep
      | name b =>
        have hstep := Simplifies.cancel below.reverse b rest
        simpa [pushNormal] using ReflTransGen.single hstep
      | current => simpa [pushNormal] using ReflTransGen.refl
      | parent => simpa [pushNormal] using ReflTransGen.refl

theorem simplifies_foldl_pushNormal (steps stack : List Component) :
    ReflTransGen Simplifies (stack.reverse ++ steps) (steps.foldl pushNormal stack).reverse := by
  induction steps generalizing stack with
  | nil => simpa using ReflTransGen.refl
  | cons c steps ih => exact (simplifies_pushNormal stack c steps).trans (ih (pushNormal stack c))

theorem simplifies_normalComponents (steps : List Component) :
    ReflTransGen Simplifies steps (normalComponents steps) :=
  simplifies_foldl_pushNormal steps []

theorem normalComponents_normalComponents (steps : List Component) :
    normalComponents (normalComponents steps) = normalComponents steps :=
  (normalComponents_eq_of_simplifies (simplifies_normalComponents steps)).symm

theorem normalComponents_append (steps more : List Component) :
    normalComponents (normalComponents steps ++ more) = normalComponents (steps ++ more) := by
  have hstack := List.reverse_injective (normalComponents_normalComponents steps)
  rw [normalComponents, List.foldl_append, hstack, ← List.foldl_append, normalComponents]

/-- Components that cannot be simplified are those that normalising keeps. -/
theorem irreducible_iff : (∀ next, ¬ Simplifies cs next) ↔ normalComponents cs = cs := by
  constructor
  · intro h
    rcases (simplifies_normalComponents cs).cases_head with heq | ⟨next, hnext, -⟩
    · exact heq.symm
    · exact absurd hnext (h next)
  · intro h next hnext
    -- a simplified list is shorter, but normalising it would still have to give `cs`
    have hle := (normalComponents_sublist next).length_le
    rw [← hnext.normalComponents_eq, h] at hle
    exact absurd hnext.length_lt (Nat.not_lt.2 hle)

end Simplification

/-! ## Spelling -/

theorem IsInner.ofPiece?_bytes {c : Component} (h : IsInner c) :
    Component.ofPiece? c.bytes = some c := by
  cases h with
  | parent => rfl
  | name h => exact h.ofPiece?

theorem IsInner.bytes_ne {c : Component} (h : IsInner c) :
    (c.bytes ≠ [] ∧ slash ∉ c.bytes) ∧ c.bytes ≠ [46] := by
  cases h with
  | parent => decide
  | name h => exact ⟨⟨h.ne_nil, h.slash_notMem⟩, h.ne_current⟩

section Relative

variable {cs : List Component} (h : ∀ c ∈ cs, IsInner c)
include h

theorem isAbsolute_relative :
    (⟨joinWith slash (cs.map Component.bytes)⟩ : Path).isAbsolute = false := by
  apply isAbsolute_joinWith
  rw [List.forall_mem_map]
  exact fun c hc ↦ (h c hc).bytes_ne.1

theorem pieces_relative (hne : cs ≠ []) :
    (⟨joinWith slash (cs.map Component.bytes)⟩ : Path).pieces = cs.map Component.bytes := by
  apply splitOn_joinWith (by simpa using hne)
  rw [List.forall_mem_map]
  exact fun c hc ↦ (h c hc).bytes_ne.1.2

theorem leadingComponents_relative :
    (⟨joinWith slash (cs.map Component.bytes)⟩ : Path).leadingComponents = [] := by
  rw [leadingComponents, isAbsolute_relative h, if_neg (by simp), if_neg]
  cases cs with
  | nil => decide
  | cons c rest =>
    rw [pieces_relative h (by simp)]
    simpa using (h c List.mem_cons_self).bytes_ne.2

/-- Components that stand between slashes come back when they are spelled out. -/
theorem innerComponents_relative :
    (⟨joinWith slash (cs.map Component.bytes)⟩ : Path).innerComponents = cs := by
  by_cases hne : cs = []
  · rw [hne]
    rfl
  · rw [innerComponents, pieces_relative h hne, List.filterMap_map]
    exact (List.filterMap_congr fun c hc ↦ (h c hc).ofPiece?_bytes).trans List.filterMap_some

theorem components_relative :
    (⟨joinWith slash (cs.map Component.bytes)⟩ : Path).components = cs := by
  rw [components_eq, leadingComponents_relative h, innerComponents_relative h, List.nil_append]

end Relative

theorem isInner_of_replicate_append (ups : Nat) {names : List (List UInt8)}
    (h : ∀ b ∈ names, IsFileName b) :
    ∀ c ∈ List.replicate ups .parent ++ names.map .name, IsInner c := by
  rw [List.forall_mem_append, List.forall_mem_map]
  exact ⟨fun c hc ↦ List.eq_of_mem_replicate hc ▸ .parent, fun b hb ↦ .name (h b hb)⟩

theorem ofComponents_of_isInner {cs : List Component} (h : ∀ c ∈ cs, IsInner c) :
    ofComponents cs = ⟨joinWith slash (cs.map Component.bytes)⟩ := by
  cases cs with
  | nil => rfl
  | cons c rest =>
    cases h c List.mem_cons_self with
    | parent => rfl
    | name => rfl

/-- Components in normal form come back when they are spelled out. -/
theorem Normal.components_ofComponents {absolute : Bool} {cs : List Component}
    (h : Normal absolute cs) (hnames : ∀ b, .name b ∈ cs → IsFileName b) :
    (ofComponents cs).components = cs ∧ (ofComponents cs).isAbsolute = absolute := by
  cases h with
  | absolute names =>
    have hnames' : ∀ b ∈ names, IsFileName b := fun b hb ↦ hnames b (by simp [hb])
    exact ⟨components_fromRoot hnames', isAbsolute_fromRoot names⟩
  | relative ups names =>
    have hnames' : ∀ b ∈ names, IsFileName b := fun b hb ↦ hnames b (by simp [hb])
    have hinner := isInner_of_replicate_append ups hnames'
    rw [ofComponents_of_isInner hinner]
    exact ⟨components_relative hinner, isAbsolute_relative hinner⟩

section Normalize

variable (p : Path)

theorem components_normalize : p.normalize.components = normalComponents p.components :=
  ((normal_normalComponents p).components_ofComponents
    fun _ hb ↦ isFileName_of_mem_normalComponents hb).1

theorem isAbsolute_normalize : p.normalize.isAbsolute = p.isAbsolute :=
  ((normal_normalComponents p).components_ofComponents
    fun _ hb ↦ isFileName_of_mem_normalComponents hb).2

theorem normalize_normalize : p.normalize.normalize = p.normalize := by
  rw [normalize, components_normalize, normalComponents_normalComponents, ← normalize]

end Normalize

/-! ## Joining -/

section Join

variable {a b : Path} (hb : b.isAbsolute = false)
include hb

section Slash

variable (ha : a.bytes ≠ [])
include ha

/-- The second path follows a slash, which the first may end with. -/
theorem exists_bytes_join :
    ∃ front, (a.join b).bytes = front ++ slash :: b.bytes ∧
      (a.bytes = front ∧ front ≠ [] ∨ a.bytes = front ++ [slash]) := by
  rw [join, hb, if_neg (by simp), if_neg ha]
  split
  · next hlast =>
    obtain ⟨front, hfront⟩ := List.getLast?_eq_some_iff.1 hlast
    exact ⟨front, by simp [hfront], Or.inr hfront⟩
  · exact ⟨a.bytes, rfl, Or.inl ⟨rfl, ha⟩⟩

theorem isAbsolute_join_eq : (a.join b).isAbsolute = a.isAbsolute := by
  obtain ⟨front, hjoin, ⟨hfront, hne⟩ | hfront⟩ := exists_bytes_join hb ha
  · obtain ⟨byte, rest, rfl⟩ := List.exists_cons_of_ne_nil hne
    simp [isAbsolute, hjoin, hfront]
  · cases front <;> simp [isAbsolute, hjoin, hfront]

/-- The pieces of the second path follow those of the first, without the empty one after a slash at
its end. -/
theorem exists_pieces_join :
    ∃ first others, (a.join b).pieces = first :: others ++ b.pieces ∧
      (a.pieces = first :: others ∨ a.pieces = first :: others ++ [[]]) := by
  obtain ⟨front, hjoin, hfront⟩ := exists_bytes_join hb ha
  obtain ⟨first, others, hsplit⟩ := List.exists_cons_of_ne_nil (splitOn_ne_nil slash front)
  refine ⟨first, others, ?_, ?_⟩
  · rw [pieces, hjoin, splitOn_append, hsplit, pieces]
  · rcases hfront with ⟨hfront, -⟩ | hfront
    · exact Or.inl (by rw [pieces, hfront, hsplit])
    · exact Or.inr (by rw [pieces, hfront, splitOn_append, hsplit, splitOn])

theorem leadingComponents_join : (a.join b).leadingComponents = a.leadingComponents := by
  obtain ⟨first, others, hjoin, hpieces⟩ := exists_pieces_join hb ha
  have hhead : (a.join b).pieces.head? = a.pieces.head? := by
    rcases hpieces with hpieces | hpieces <;> simp [hjoin, hpieces]
  rw [leadingComponents, isAbsolute_join_eq hb ha, hhead, leadingComponents]

theorem innerComponents_join :
    (a.join b).innerComponents = a.innerComponents ++ b.innerComponents := by
  obtain ⟨first, others, hjoin, hpieces⟩ := exists_pieces_join hb ha
  have hempty : [[]].filterMap Component.ofPiece? = [] := rfl
  rw [innerComponents, hjoin, List.filterMap_append, innerComponents, innerComponents]
  rcases hpieces with hpieces | hpieces
  · rw [hpieces]
  · rw [hpieces, List.filterMap_append, hempty, List.append_nil]

theorem components_join : (a.join b).components = a.components ++ b.innerComponents := by
  rw [components_eq, leadingComponents_join hb ha, innerComponents_join hb ha,
    ← List.append_assoc, ← components_eq]

end Slash

omit hb in
theorem components_of_bytes_eq_nil (ha : a.bytes = []) : a.components = [] := by
  obtain rfl : a = ⟨[]⟩ := congrArg Path.mk ha
  rfl

theorem join_of_bytes_eq_nil (ha : a.bytes = []) : a.join b = b := by
  rw [join, hb, if_neg (by simp), if_pos ha]

theorem normalComponents_join : normalComponents (a.join b).components =
    normalComponents (a.components ++ b.innerComponents) := by
  by_cases ha : a.bytes = []
  · rw [join_of_bytes_eq_nil hb ha, components_of_bytes_eq_nil ha, List.nil_append, components_eq,
      normalComponents, List.foldl_append, foldl_leadingComponents, hb, normalComponents]
    rfl
  · rw [components_join hb ha]

end Join

/-- Components that are spelled out after a path are added to it. -/
theorem components_join_relative (a : Path) {cs : List Component} (h : ∀ c ∈ cs, IsInner c) :
    (a.join ⟨joinWith slash (cs.map Component.bytes)⟩).components = a.components ++ cs := by
  by_cases ha : a.bytes = []
  · rw [join_of_bytes_eq_nil (isAbsolute_relative h) ha, components_of_bytes_eq_nil ha,
      components_relative h, List.nil_append]
  · rw [components_join (isAbsolute_relative h) ha, innerComponents_relative h]

theorem normalize_join (a b : Path) : (a.join b).normalize = (a.normalize.join b).normalize := by
  cases hb : b.isAbsolute with
  | true => rw [join, if_pos hb, join, if_pos hb]
  | false =>
    have hcomponents : normalComponents (a.join b).components =
        normalComponents (a.normalize.join b).components := by
      calc
        normalComponents (a.join b).components
            = normalComponents (a.components ++ b.innerComponents) := normalComponents_join hb
        _ = normalComponents (normalComponents a.components ++ b.innerComponents) :=
          (normalComponents_append _ _).symm
        _ = normalComponents (a.normalize.components ++ b.innerComponents) := by
          rw [components_normalize]
        _ = normalComponents (a.normalize.join b).components := (normalComponents_join hb).symm
    rw [normalize, hcomponents, ← normalize]

/-! ## The normal form of a path -/

/-- The path `q` is what is left of `p` when no more simplification is possible, written with single
slashes. -/
structure HasNormalForm (p q : Path) : Prop where
  simplified : ReflTransGen Simplifies p.components q.components
  irreducible : ∀ next, ¬ Simplifies q.components next
  spelled : ofComponents q.components = q

theorem hasNormalForm_normalize (p : Path) : HasNormalForm p p.normalize := by
  refine ⟨?_, ?_, ?_⟩
  · rw [components_normalize]
    exact simplifies_normalComponents p.components
  · rw [irreducible_iff, components_normalize, normalComponents_normalComponents]
  · rw [components_normalize, ← normalize]

theorem HasNormalForm.eq_normalize {p q : Path} (h : HasNormalForm p q) : q = p.normalize := by
  have hnormal : q.components = normalComponents p.components := by
    rw [← irreducible_iff.1 h.irreducible, ← normalComponents_eq_of_simplifies h.simplified]
  rw [← h.spelled, hnormal, ← normalize]

/-- Normalising gives names after the root, or after some steps up if the path is relative.  It
keeps absolute paths absolute and relative ones relative, does nothing the second time, and can be
done before joining as well as after.  The result is the one normal form of the path. -/
theorem normalize_lexical (p other : Path) :
    Normal p.isAbsolute p.normalize.components ∧
      p.normalize.isAbsolute = p.isAbsolute ∧
      p.normalize.normalize = p.normalize ∧
      (p.join other).normalize = (p.normalize.join other).normalize ∧
      ∀ q, HasNormalForm p q ↔ q = p.normalize := by
  refine ⟨?_, isAbsolute_normalize p, normalize_normalize p, normalize_join p other, fun q ↦ ?_⟩
  · rw [components_normalize]
    exact normal_normalComponents p
  · exact ⟨HasNormalForm.eq_normalize, fun h ↦ h ▸ hasNormalForm_normalize p⟩

end BinaryNames.Path
