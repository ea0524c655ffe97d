import BinaryNames.Java.Declarations
import BinaryNames.Proofs.Tree.Chain

/-!
# Growth in Steps

Whatever an outline holds, its declarations are attached one at a time, and there are only three
ways to attach one: as a named type, as a body without a name, or as a member that holds code.  The
scope in which this happens is no extra state: it can be read off the tree at the declaration that
is attached to (`scopeAt`).  An invariant of growth is therefore proved for one `Step`, and
`steps_declarations` carries it to the tree of every outline.
-/

namespace BinaryNames.Java

/-- A method, field or initializer. -/
def holdsCode (d : Declaration) : Bool := d.kind ≠ .unit && d.kind ≠ .type

theorem kind_of_holdsCode {d : Declaration} (h : holdsCode d = true) :
    d.kind ≠ .unit ∧ d.kind ≠ .type := by
  simpa [holdsCode] using h

/-- The scope of what stands directly in the declaration at `p`. -/
def scopeAt (t : DeclarationTree) (p : Nat) : Scope :=
  ⟨t.typeAround? p, (t.declaration? p).any holdsCode, p⟩

theorem scopeAt_push_of_lt (t : DeclarationTree) {p : Nat} (hp : p < t.size) (parent : Nat)
    (d : Declaration) : scopeAt (t.push parent d) p = scopeAt t p := by
  unfold scopeAt
  rw [DeclarationTree.typeAround?_push_of_lt t parent d hp,
    DeclarationTree.declaration?_push_of_lt t parent d hp]

theorem scopeAt_push_type (t : DeclarationTree) (p : Nat) {d : Declaration} (hd : d.kind = .type) :
    scopeAt (t.push p d) t.size = .body t.size := by
  have hunit : d.kind ≠ .unit := by simp [hd]
  unfold scopeAt Scope.body
  rw [DeclarationTree.typeAround?_push_size t p hunit, DeclarationTree.declaration?_push_size]
  simp [hd, holdsCode]

theorem scopeAt_push_code (t : DeclarationTree) {p : Nat} (hp : p < t.size) {d : Declaration}
    (hd : holdsCode d = true) : scopeAt (t.push p d) t.size = (scopeAt t p).code t.size := by
  obtain ⟨hunit, htype⟩ := kind_of_holdsCode hd
  unfold scopeAt Scope.code
  rw [DeclarationTree.typeAround?_push_size t p hunit, DeclarationTree.declaration?_push_size,
    DeclarationTree.attachPoint_of_lt hp]
  simp [hd, htype]

theorem Growth.tree_countAnonymous (g : Growth) (scope : Scope) :
    (g.countAnonymous scope).tree = g.tree := by
  unfold countAnonymous
  split <;> rfl

theorem Growth.tree_pushAnonymous (g : Growth) (scope : Scope) (body : Span) :
    (g.pushAnonymous scope body).tree = g.tree.push scope.parent
      { kind := .type, span := body, isAnonymous := true,
        qualifiedName := (g.countAnonymous scope).anonymousName? scope } := by
  rw [← g.tree_countAnonymous scope]
  rfl

/-- One more declaration below an existing one. -/
inductive Step (package : String) (g : Growth) : Growth → Prop where
  | type {p : Nat} (hp : p < g.tree.size) (span : Span) (name : String) :
    Step package g (g.pushType package (scopeAt g.tree p) span name)
  | anonymous {p : Nat} (hp : p < g.tree.size) (body : Span) :
    Step package g (g.pushAnonymous (scopeAt g.tree p) body)
  | code {p : Nat} (hp : p < g.tree.size) {d : Declaration} (hd : holdsCode d = true) :
    Step package g (g.push (scopeAt g.tree p) d)

abbrev Steps (package : String) : Growth → Growth → Prop := Relation.ReflTransGen (Step package)

section Steps

variable {package : String} {g g' : Growth}

/-- The tree of a step is the old one with one declaration pushed, which is not a unit. -/
theorem Step.exists_push (h : Step package g g') :
    ∃ p d, p < g.tree.size ∧ d.kind ≠ .unit ∧ g'.tree = g.tree.push p d := by
  cases h with
  | type hp span name => exact ⟨_, _, hp, by simp, rfl⟩
  | anonymous hp body => exact ⟨_, _, hp, by simp, g.tree_pushAnonymous _ body⟩
  | code hp hd => exact ⟨_, _, hp, (kind_of_holdsCode hd).1, rfl⟩

theorem size_le_of_steps (h : Steps package g g') : g.tree.size ≤ g'.tree.size := by
  induction h with
  | refl => exact le_rfl
  | tail _ hstep ih =>
    obtain ⟨p, d, -, -, heq⟩ := hstep.exists_push
    rw [heq, DeclarationTree.size_push]
    omega

theorem rooted_of_steps (h : Steps package g g') (hg : g.tree.Rooted) : g'.tree.Rooted := by
  induction h with
  | refl => exact hg
  | tail _ hstep ih =>
    obtain ⟨p, d, -, hd, heq⟩ := hstep.exists_push
    rw [heq]
    exact ih.push p hd

/-- A declaration stays what it is while the tree grows. -/
theorem declaration?_of_steps (h : Steps package g g') {id : Nat} (hid : id < g.tree.size) :
    g'.tree.declaration? id = g.tree.declaration? id := by
  induction h with
  | refl => rfl
  | tail hsteps hstep ih =>
    obtain ⟨p, d, -, -, heq⟩ := hstep.exists_push
    have hlt := hid.trans_le (size_le_of_steps hsteps)
    rw [heq, DeclarationTree.declaration?_push_of_lt _ p d hlt, ih]

/-- The scope at a declaration stays what it is while the tree grows. -/
theorem scopeAt_of_steps (h : Steps package g g') {p : Nat} (hp : p < g.tree.size) :
    scopeAt g'.tree p = scopeAt g.tree p := by
  induction h with
  | refl => rfl
  | tail hsteps hstep ih =>
    obtain ⟨q, d, -, -, heq⟩ := hstep.exists_push
    rw [heq, scopeAt_push_of_lt _ (hp.trans_le (size_le_of_steps hsteps)), ih]

end Steps

/-! ## The walk over an outline -/

theorem Growth.lastId_lt (g : Growth) : g.lastId < g.tree.size := by
  have := g.tree.nodes_pos
  unfold lastId DeclarationTree.lastId DeclarationTree.size
  omega

section Attached

variable (package : String) (g : Growth) (p : Nat)

theorem scopeAt_pushType (span : Span) (name : String) :
    .body (g.pushType package (scopeAt g.tree p) span name).lastId =
      scopeAt (g.pushType package (scopeAt g.tree p) span name).tree
        (g.pushType package (scopeAt g.tree p) span name).lastId := by
  simp only [Growth.pushType, Growth.push, Growth.lastId, DeclarationTree.lastId_push]
  exact (scopeAt_push_type g.tree p rfl).symm

theorem scopeAt_pushAnonymous (body : Span) :
    .body (g.pushAnonymous (scopeAt g.tree p) body).lastId =
      scopeAt (g.pushAnonymous (scopeAt g.tree p) body).tree
        (g.pushAnonymous (scopeAt g.tree p) body).lastId := by
  simp only [Growth.lastId, Growth.tree_pushAnonymous, DeclarationTree.lastId_push]
  exact (scopeAt_push_type g.tree p rfl).symm

theorem scopeAt_push {p : Nat} (hp : p < g.tree.size) {d : Declaration} (hd : holdsCode d = true) :
    (scopeAt g.tree p).code (g.push (scopeAt g.tree p) d).lastId =
      scopeAt (g.push (scopeAt g.tree p) d).tree (g.push (scopeAt g.tree p) d).lastId := by
  simp only [Growth.push, Growth.lastId, DeclarationTree.lastId_push]
  exact (scopeAt_push_code g.tree hp hd).symm

end Attached

mutual

theorem steps_growPart (package : String) (g : Growth) {p : Nat} (hp : p < g.tree.size)
    (part : Part) : Steps package g (growPart package (scopeAt g.tree p) g part) := by
  cases part with
  | type span name header members =>
    rw [growPart, scopeAt_pushType]
    exact .head (.type hp span name) (steps_growParts package _ (Growth.lastId_lt _) members)
  | method span name header body =>
    rw [growPart, scopeAt_push g hp rfl]
    exact .head (.code hp rfl) (steps_growParts package _ (Growth.lastId_lt _) body)
  | field span name parts =>
    rw [growPart, scopeAt_push g hp rfl]
    exact .head (.code hp rfl) (steps_growParts package _ (Growth.lastId_lt _) parts)
  | staticInitializer span parts =>
    rw [growPart, scopeAt_push g hp rfl]
    exact .head (.code hp rfl) (steps_growParts package _ (Growth.lastId_lt _) parts)
  | block span parts =>
    rw [growPart]
    split
    · dsimp only
      rw [scopeAt_push g hp rfl]
      exact .head (.code hp rfl) (steps_growParts package _ (Growth.lastId_lt _) parts)
    · exact steps_growParts package g hp parts
  | host arguments body members =>
    have harguments := steps_growParts package g hp arguments
    -- the arguments may add declarations, but the scope of the body is still the one at `p`
    have hscope := scopeAt_of_steps harguments hp
    have hp' := hp.trans_le (size_le_of_steps harguments)
    rw [growPart]
    generalize growParts package (scopeAt g.tree p) g arguments = g₁ at *
    rw [← hscope, scopeAt_pushAnonymous]
    exact harguments.trans
      (.head (.anonymous hp' body) (steps_growParts package _ (Growth.lastId_lt _) members))
  | other parts =>
    rw [growPart]
    exact steps_growParts package g hp parts

theorem steps_growParts (package : String) (g : Growth) {p : Nat} (hp : p < g.tree.size)
    (parts : List Part) : Steps package g (growParts package (scopeAt g.tree p) g parts) := by
  cases parts with
  | nil => rw [growParts]
  | cons part rest =>
    have hpart := steps_growPart package g hp part
    have hscope := scopeAt_of_steps hpart hp
    have hp' := hp.trans_le (size_le_of_steps hpart)
    rw [growParts]
    generalize growPart package (scopeAt g.tree p) g part = g₁ at *
    rw [← hscope]
    exact hpart.trans (steps_growParts package g₁ hp' rest)

end

/-- What growth starts from. -/
def Growth.start (size : Nat) : Growth := { tree := .empty (offsetOfSize size) }

theorem scopeAt_start (size : Nat) : scopeAt (Growth.start size).tree 0 = {} := by
  have hchain := (DeclarationTree.rooted_empty (offsetOfSize size)).typeAround?_root
  unfold scopeAt Growth.start
  rw [hchain]
  rfl

/-- The tree of an outline is reached in steps. -/
theorem steps_declarations (outline : Outline) (size : Nat) (suggested : Option String) :
    ∃ g, Steps (outline.packageName suggested) (.start size) g ∧
      outline.declarations size suggested = g.tree := by
  refine ⟨_, steps_growParts _ (.start size) (p := 0) Nat.zero_lt_one outline.parts, ?_⟩
  rw [scopeAt_start]
  rfl

theorem rooted_declarations (outline : Outline) (size : Nat) (suggested : Option String) :
    (outline.declarations size suggested).Rooted := by
  obtain ⟨g, hsteps, heq⟩ := steps_declarations outline size suggested
  rw [heq]
  exact rooted_of_steps hsteps (DeclarationTree.rooted_empty _)

/-- The root stands for the whole source. -/
theorem declaration?_root (outline : Outline) (size : Nat) (suggested : Option String) :
    (outline.declarations size suggested).declaration? 0 =
      some { kind := .unit, span := ⟨0, offsetOfSize size⟩ } := by
  obtain ⟨g, hsteps, heq⟩ := steps_declarations outline size suggested
  rw [heq, declaration?_of_steps hsteps Nat.zero_lt_one]
  rfl

/-- Where the source declares its package, no other is taken into account. -/
theorem Outline.declarations_of_package {outline : Outline} (h : outline.package ≠ none)
    (size : Nat) (suggested suggested' : Option String) :
    outline.declarations size suggested = outline.declarations size suggested' := by
  obtain ⟨package, hpackage⟩ := Option.ne_none_iff_exists'.1 h
  simp only [declarations, packageName, hpackage, Option.some_or]

/-- A Java file of no more than the largest size is read, and the declarations are those of its
outline. -/
theorem declarations_eq_ok_iff {file : Path} {source : String} {suggested : Option String}
    {t : DeclarationTree} : declarations file source suggested = .ok t ↔
      source.utf8ByteSize ≤ maxSourceSize ∧ isJavaFile file = true ∧
        (Outline.ofSource source).declarations source.utf8ByteSize suggested = t := by
  unfold declarations checkLanguage
  by_cases hsize : source.utf8ByteSize > maxSourceSize
  · simp [hsize, Nat.not_le.2 hsize]
  · by_cases hjava : isJavaFile file = true
    · simp [hsize, hjava, Nat.not_lt.1 hsize, bind, Except.bind, pure, Except.pure]
    · simp [hsize, hjava, bind, Except.bind]

end BinaryNames.Java
