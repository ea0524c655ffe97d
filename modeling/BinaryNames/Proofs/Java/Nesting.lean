import BinaryNames.Proofs.Java.Growth
import BinaryNames.Proofs.Tree.Laminar

/-!
# Nested Outlines

The parts of an outline are nested when each stands after the part before it and inside the part
around it.  Parts that declare nothing hand what they hold on to the declaration around them, so
nesting is stated by bounds rather than by the spans of neighbours.  The declarations of a nested
outline lie inside their parents, one after the other.
-/

namespace BinaryNames

/-- The span holds something, starts as `starts` asks and lies between two offsets. -/
structure Span.LiesIn (starts : Nat → Prop) (lo hi : Nat) (s : Span) : Prop where
  starts : starts s.offset
  lower : lo ≤ s.offset
  nonempty : s.offset < s.stop
  upper : s.stop ≤ hi

theorem Span.LiesIn.mono {starts : Nat → Prop} {lo hi lo' hi' : Nat} {s : Span}
    (h : s.LiesIn starts lo hi) (hlo : lo' ≤ lo) (hhi : hi ≤ hi') : s.LiesIn starts lo' hi' :=
  ⟨h.starts, hlo.trans h.lower, h.nonempty, h.upper.trans hhi⟩

namespace Java

open DeclarationTree

mutual

/-- The part stands between two offsets, and what it holds stands inside it. -/
def Part.NestedIn (starts : Nat → Prop) (lo hi : Nat) : Part → Prop
  | .type span _ _ members =>
    span.LiesIn starts lo hi ∧ NestedAll starts span.offset span.stop members
  | .method span _ _ body => span.LiesIn starts lo hi ∧ NestedAll starts span.offset span.stop body
  | .field span _ parts => span.LiesIn starts lo hi ∧ NestedAll starts span.offset span.stop parts
  | .staticInitializer span parts =>
    span.LiesIn starts lo hi ∧ NestedAll starts span.offset span.stop parts
  | .block span parts => span.LiesIn starts lo hi ∧ NestedAll starts span.offset span.stop parts
  | .host arguments body members =>
    NestedAll starts lo body.offset arguments ∧ body.LiesIn starts body.offset hi ∧
      NestedAll starts body.offset body.stop members
  | .other parts => NestedAll starts lo hi parts

/-- The parts stand between two offsets, one after the other. -/
def NestedAll (starts : Nat → Prop) (lo hi : Nat) : List Part → Prop
  | [] => lo ≤ hi
  | part :: rest => ∃ mid, part.NestedIn starts lo mid ∧ NestedAll starts mid hi rest

end

mutual

theorem Part.NestedIn.le {starts : Nat → Prop} {lo hi : Nat} {part : Part}
    (h : part.NestedIn starts lo hi) : lo ≤ hi := by
  cases part with
  | type | method | field | staticInitializer | block =>
    rw [Part.NestedIn] at h
    have := h.1.lower
    have := h.1.nonempty
    have := h.1.upper
    omega
  | host arguments body members =>
    rw [Part.NestedIn] at h
    have := h.1.le
    have := h.2.1.nonempty
    have := h.2.1.upper
    omega
  | other parts =>
    rw [Part.NestedIn] at h
    exact h.le

theorem NestedAll.le {starts : Nat → Prop} {lo hi : Nat} {parts : List Part}
    (h : NestedAll starts lo hi parts) : lo ≤ hi := by
  cases parts with
  | nil =>
    rw [NestedAll] at h
    exact h
  | cons part rest =>
    rw [NestedAll] at h
    obtain ⟨mid, hpart, hrest⟩ := h
    exact hpart.le.trans hrest.le

end

/-- Every declaration lies inside its parent, after its elder siblings, and starts as `starts`
asks. -/
structure Laid (starts : Nat → Prop) (t : DeclarationTree) : Prop extends t.Laminar where
  starts : ∀ id, 0 < id → id < t.size →
    starts (t.spanAt id).offset ∧ (t.spanAt id).offset < (t.spanAt id).stop

/-- The children of the node at `p` end before `x`. -/
def ChildrenBefore (t : DeclarationTree) (p x : Nat) : Prop :=
  ∀ c, t.parent? c = some p → (t.spanAt c).stop ≤ x

/-- There is room below the node at `p` from `lo` up to `hi`. -/
structure Room (starts : Nat → Prop) (t : DeclarationTree) (p lo hi : Nat) : Prop where
  laid : Laid starts t
  lt_size : p < t.size
  lower : (t.spanAt p).offset ≤ lo
  upper : hi ≤ (t.spanAt p).stop
  before : ChildrenBefore t p lo

/-- Growth below the node at `p` that stays before `hi`: other old nodes get no children. -/
structure GrowsBelow (starts : Nat → Prop) (p hi : Nat) (t t' : DeclarationTree) : Prop where
  laid : Laid starts t'
  size_le : t.size ≤ t'.size
  spanAt_eq : ∀ id, id < t.size → t'.spanAt id = t.spanAt id
  before : ChildrenBefore t' p hi
  others : ∀ q x, q < t.size → q ≠ p → ChildrenBefore t q x → ChildrenBefore t' q x

section Growth

variable {starts : Nat → Prop} {t t' t'' : DeclarationTree} {p lo mid hi : Nat}

theorem ChildrenBefore.mono {x y : Nat} (h : ChildrenBefore t p x) (hxy : x ≤ y) :
    ChildrenBefore t p y :=
  fun c hc ↦ (h c hc).trans hxy

theorem Room.narrow (h : Room starts t p lo hi) {lo' hi' : Nat} (hlo : lo ≤ lo') (hhi : hi' ≤ hi) :
    Room starts t p lo' hi' :=
  ⟨h.laid, h.lt_size, h.lower.trans hlo, hhi.trans h.upper, h.before.mono hlo⟩

theorem Room.growsBelow_self (h : Room starts t p lo hi) (hle : lo ≤ hi) :
    GrowsBelow starts p hi t t :=
  ⟨h.laid, le_rfl, fun _ _ ↦ rfl, h.before.mono hle, fun _ _ _ _ hq ↦ hq⟩

theorem Room.after (h : Room starts t p lo hi) (hle : lo ≤ mid)
    (hgrows : GrowsBelow starts p mid t t') : Room starts t' p mid hi where
  laid := hgrows.laid
  lt_size := h.lt_size.trans_le hgrows.size_le
  lower := by
    rw [hgrows.spanAt_eq p h.lt_size]
    exact h.lower.trans hle
  upper := by
    rw [hgrows.spanAt_eq p h.lt_size]
    exact h.upper
  before := hgrows.before

theorem GrowsBelow.mono (h : GrowsBelow starts p mid t t') (hle : mid ≤ hi) :
    GrowsBelow starts p hi t t' :=
  { h with before := h.before.mono hle }

theorem GrowsBelow.trans (h : GrowsBelow starts p mid t t') (h' : GrowsBelow starts p hi t' t'') :
    GrowsBelow starts p hi t t'' where
  laid := h'.laid
  size_le := h.size_le.trans h'.size_le
  spanAt_eq := fun id hid ↦ (h'.spanAt_eq id (hid.trans_le h.size_le)).trans (h.spanAt_eq id hid)
  before := h'.before
  others := fun q x hq hne hbefore ↦
    h'.others q x (hq.trans_le h.size_le) hne (h.others q x hq hne hbefore)

section Push

variable {d : Declaration} (h : Room starts t p lo hi) (hd : d.kind ≠ .unit)
  (hspan : d.span.LiesIn starts lo hi)
include h hd hspan

theorem Room.laid_push : Laid starts (t.push p d) where
  toLaminar := by
    apply h.laid.toLaminar.push h.lt_size hd
    · exact ⟨h.lower.trans hspan.lower, hspan.upper.trans h.upper⟩
    · exact fun c hc ↦ (h.before c hc).trans hspan.lower
  starts := by
    intro id hpos hid
    rw [size_push] at hid
    rcases Nat.lt_succ_iff_lt_or_eq.1 hid with hlt | rfl
    · rw [spanAt_push_of_lt t p d hlt]
      exact h.laid.starts id hpos hlt
    · rw [spanAt_push_size]
      exact ⟨hspan.starts, hspan.nonempty⟩

theorem Room.growsBelow_push : GrowsBelow starts p d.span.stop t (t.push p d) where
  laid := h.laid_push hd hspan
  size_le := by
    rw [size_push]
    omega
  spanAt_eq := fun id hid ↦ spanAt_push_of_lt t p d hid
  before := by
    intro c hc
    have hlt := lt_size_of_parent? hc
    rw [size_push] at hlt
    rcases Nat.lt_succ_iff_lt_or_eq.1 hlt with hlt | rfl
    · rw [parent?_push_of_lt t p d hlt] at hc
      rw [spanAt_push_of_lt t p d hlt]
      exact (h.before c hc).trans (hspan.lower.trans hspan.nonempty.le)
    · rw [spanAt_push_size]
  others := by
    intro q x hq hne hbefore c hc
    have hlt := lt_size_of_parent? hc
    rw [size_push] at hlt
    rcases Nat.lt_succ_iff_lt_or_eq.1 hlt with hlt | rfl
    · rw [parent?_push_of_lt t p d hlt] at hc
      rw [spanAt_push_of_lt t p d hlt]
      exact hbefore c hc
    · rw [parent?_push_size, attachPoint_of_lt h.lt_size, Option.some.injEq] at hc
      exact absurd hc.symm hne

/-- The whole span of a declaration is free below it. -/
theorem Room.room_push : Room starts (t.push p d) t.size d.span.offset d.span.stop where
  laid := h.laid_push hd hspan
  lt_size := by
    rw [size_push]
    omega
  lower := by rw [spanAt_push_size]
  upper := by rw [spanAt_push_size]
  before := by
    intro c hc
    have hlt := lt_size_of_parent? hc
    have hafter := parent?_lt hc
    rw [size_push] at hlt
    omega

/-- Growth below a new declaration is growth below its parent. -/
theorem Room.growsBelow_of_push
    (hgrows : GrowsBelow starts t.size d.span.stop (t.push p d) t') :
    GrowsBelow starts p hi t t' := by
  have hpush := h.growsBelow_push hd hspan
  have hlt : ∀ {id}, id < t.size → id < (t.push p d).size := fun hid ↦ hid.trans_le hpush.size_le
  refine ⟨hgrows.laid, hpush.size_le.trans hgrows.size_le, fun id hid ↦ ?_, ?_, ?_⟩
  · rw [hgrows.spanAt_eq id (hlt hid), hpush.spanAt_eq id hid]
  · exact (hgrows.others p _ (hlt h.lt_size) h.lt_size.ne hpush.before).mono hspan.upper
  · intro q x hq hne hbefore
    exact hgrows.others q x (hlt hq) hq.ne (hpush.others q x hq hne hbefore)

end Push

end Growth

/-! ## Growing a nested outline -/

section Parts

variable {starts : Nat → Prop} {package : String}

/-- A declaration with everything that it holds. -/
theorem growsBelow_pushed {g g₁ : Growth} {scope inner : Scope} {d : Declaration} {lo hi : Nat}
    {parts : List Part} (h : Room starts g.tree scope.parent lo hi) (hd : d.kind ≠ .unit)
    (hspan : d.span.LiesIn starts lo hi) (htree : g₁.tree = g.tree.push scope.parent d)
    (hinner : inner.parent = g₁.lastId)
    (hparts : Room starts g₁.tree inner.parent d.span.offset d.span.stop →
      GrowsBelow starts inner.parent d.span.stop g₁.tree (growParts package inner g₁ parts).tree) :
    GrowsBelow starts scope.parent hi g.tree (growParts package inner g₁ parts).tree := by
  have hid : inner.parent = g.tree.size := by
    rw [hinner, Growth.lastId, htree, lastId_push]
  rw [hid, htree] at hparts
  exact h.growsBelow_of_push hd hspan (hparts (h.room_push hd hspan))

mutual

theorem growsBelow_growPart {g : Growth} {scope : Scope} {lo hi : Nat} (part : Part)
    (h : Room starts g.tree scope.parent lo hi) (hpart : part.NestedIn starts lo hi) :
    GrowsBelow starts scope.parent hi g.tree (growPart package scope g part).tree := by
  cases part with
  | type span name header members =>
    rw [Part.NestedIn] at hpart
    rw [growPart]
    exact growsBelow_pushed h (by simp) hpart.1 rfl rfl
      fun hroom ↦ growsBelow_growParts members hroom hpart.2
  | method span name header body =>
    rw [Part.NestedIn] at hpart
    rw [growPart]
    exact growsBelow_pushed h (by simp) hpart.1 rfl rfl
      fun hroom ↦ growsBelow_growParts body hroom hpart.2
  | field span name parts =>
    rw [Part.NestedIn] at hpart
    rw [growPart]
    exact growsBelow_pushed h (by simp) hpart.1 rfl rfl
      fun hroom ↦ growsBelow_growParts parts hroom hpart.2
  | staticInitializer span parts =>
    rw [Part.NestedIn] at hpart
    rw [growPart]
    exact growsBelow_pushed h (by simp) hpart.1 rfl rfl
      fun hroom ↦ growsBelow_growParts parts hroom hpart.2
  | block span parts =>
    rw [Part.NestedIn] at hpart
    rw [growPart]
    split
    · exact growsBelow_pushed h (by simp) hpart.1 rfl rfl
        fun hroom ↦ growsBelow_growParts parts hroom hpart.2
    · -- outside the body of a type the block hands its parts on
      obtain ⟨hspan, hparts⟩ := hpart
      exact (growsBelow_growParts parts (h.narrow hspan.lower hspan.upper) hparts).mono hspan.upper
  | host arguments body members =>
    rw [Part.NestedIn] at hpart
    obtain ⟨harguments, hbody, hmembers⟩ := hpart
    have hlt := hbody.nonempty.le.trans hbody.upper
    have hfirst := growsBelow_growParts arguments (h.narrow le_rfl hlt) harguments
    have hroom := h.after harguments.le hfirst
    rw [growPart]
    refine hfirst.trans (growsBelow_pushed hroom ?_ ?_ (Growth.tree_pushAnonymous _ _ _) rfl ?_)
    · simp
    · exact hbody
    · exact fun hroom' ↦ growsBelow_growParts members hroom' hmembers
  | other parts =>
    rw [Part.NestedIn] at hpart
    rw [growPart]
    exact growsBelow_growParts parts h hpart

theorem growsBelow_growParts {g : Growth} {scope : Scope} {lo hi : Nat} (parts : List Part)
    (h : Room starts g.tree scope.parent lo hi) (hparts : NestedAll starts lo hi parts) :
    GrowsBelow starts scope.parent hi g.tree (growParts package scope g parts).tree := by
  cases parts with
  | nil =>
    rw [NestedAll] at hparts
    rw [growParts]
    exact h.growsBelow_self hparts
  | cons part rest =>
    rw [NestedAll] at hparts
    obtain ⟨mid, hpart, hrest⟩ := hparts
    have hfirst := growsBelow_growPart part (h.narrow le_rfl hrest.le) hpart
    rw [growParts]
    exact hfirst.trans (growsBelow_growParts rest (h.after hpart.le hfirst) hrest)

end

end Parts

/-- The declarations of a nested outline are laid out as the outline is. -/
theorem laid_declarations {starts : Nat → Prop} (outline : Outline) {size : Nat}
    (hsize : size ≤ maxOffset) (suggested : Option String)
    (hnested : NestedAll starts 0 size outline.parts) :
    Laid starts (outline.declarations size suggested) := by
  have hspan : (DeclarationTree.empty (offsetOfSize size)).spanAt 0 = ⟨0, size⟩ := by
    simp [spanAt, declaration?, node?, empty, offsetOfSize, hsize]
  have hroom : Room starts (Growth.start size).tree ({} : Scope).parent 0 size := by
    refine ⟨⟨laminar_empty _, ?_⟩, Nat.zero_lt_one, ?_, ?_, ?_⟩
    · intro id hpos hid
      rw [Growth.start, size_empty] at hid
      omega
    · rw [Growth.start, hspan]
    · rw [Growth.start, hspan]
      simp [Span.stop, hsize]
    · intro c hc
      have hlt := lt_size_of_parent? hc
      have hafter := parent?_lt hc
      rw [Growth.start, size_empty] at hlt
      omega
  exact (growsBelow_growParts outline.parts hroom hnested).laid

end Java

end BinaryNames
