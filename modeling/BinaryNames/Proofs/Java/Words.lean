import BinaryNames.Proofs.Java.Correspondence
import BinaryNames.Proofs.Java.Outline

/-!
# Names Are Words

The scanner makes words of word characters only, and folding brackets leaves words as they are.
Wherever the head of a declaration is recognized, its name is one of the words.  So every simple
name in the tree of a source is a word of the source, whatever else stands there.
-/

namespace BinaryNames.Java

/-- A text of word characters. -/
def IsWord (text : String) : Prop := ∀ c ∈ text.toList, isWordChar c = true

/-! ## Scanning -/

/-- A word is spelled with word characters. -/
def Lexeme.Spelled : Lexeme → Prop
  | word _ text => IsWord text
  | _ => True

/-- So is a word that has begun. -/
def ScanMode.Spelled : ScanMode → Prop
  | word _ reversed => ∀ c ∈ reversed, isWordChar c = true
  | pass _ after => after.Spelled
  | _ => True

/-- The words that the scanner has found and the one that it is in. -/
structure Spelling (mode : ScanMode) (found : List Lexeme) : Prop where
  mode : mode.Spelled
  found : ∀ l ∈ found, l.Spelled

namespace Spelling

variable {mode : ScanMode} {found : List Lexeme} (h : Spelling mode found)
include h

theorem finish (position : Nat) : ∀ l ∈ mode.finish position found, l.Spelled := by
  cases mode with
  | word start reversed =>
    refine List.forall_mem_cons.2 ⟨fun c hc ↦ ?_, h.found⟩
    rw [String.toList_ofList, List.mem_reverse] at hc
    exact h.mode c hc
  | between | pass | lineComment | blockComment | string | textBlock | character => exact h.found

theorem extend {c : Char} (hc : isWordChar c = true) (position : Nat) :
    Spelling (mode.extend position c) found := by
  refine ⟨?_, h.found⟩
  cases mode with
  | word start reversed => exact List.forall_mem_cons.2 ⟨hc, h.mode⟩
  | between | pass | lineComment | blockComment | string | textBlock | character =>
    exact List.forall_mem_singleton.2 hc

theorem exists_text_step (hmode : mode.IsText) (position : Nat) (c : Char) (rest : List Char) :
    ∃ mode' found', Lexeme.scan mode position found (c :: rest) =
      Lexeme.scan mode' (position + c.utf8Size) found' rest ∧ Spelling mode' found' := by
  have hfinish := h.finish position
  rw [scan_text hmode]
  split
  · next hc => exact ⟨_, _, rfl, h.extend hc position⟩
  dsimp only
  split
  · exact ⟨_, _, rfl, trivial, hfinish⟩
  split
  · exact ⟨_, _, rfl, trivial, hfinish⟩
  split
  · exact ⟨_, _, rfl, trivial, hfinish⟩
  split
  · exact ⟨_, _, rfl, trivial, hfinish⟩
  split
  · exact ⟨_, _, rfl, trivial, hfinish⟩
  split
  · exact ⟨_, _, rfl, trivial, hfinish⟩
  split
  · exact ⟨_, _, rfl, trivial, List.forall_mem_cons.2 ⟨trivial, hfinish⟩⟩
  · refine ⟨_, _, rfl, trivial, List.forall_mem_cons.2 ⟨?_, hfinish⟩⟩
    unfold Lexeme.ofChar
    split <;> trivial

theorem exists_step (position : Nat) (c : Char) (rest : List Char) :
    ∃ mode' found', Lexeme.scan mode position found (c :: rest) =
      Lexeme.scan mode' (position + c.utf8Size) found' rest ∧ Spelling mode' found' := by
  have hskip : Spelling (.pass 0 mode) found := ⟨h.mode, h.found⟩
  have hliteral (span : Span) : ∀ l ∈ Lexeme.literal span :: found, l.Spelled :=
    List.forall_mem_cons.2 ⟨trivial, h.found⟩
  cases mode with
  | between => exact h.exists_text_step trivial position c rest
  | word => exact h.exists_text_step trivial position c rest
  | pass more after =>
    cases more with
    | zero => exact ⟨_, _, rfl, h.mode, h.found⟩
    | succ more => exact ⟨_, _, rfl, h.mode, h.found⟩
  | lineComment =>
    refine ⟨_, _, rfl, ?_, h.found⟩
    split <;> trivial
  | blockComment =>
    rw [Lexeme.scan]
    split
    · exact ⟨_, _, rfl, trivial, h.found⟩
    · exact ⟨_, _, rfl, h⟩
  | string start | character start =>
    rw [Lexeme.scan]
    split
    · exact ⟨_, _, rfl, trivial, hliteral _⟩
    split
    · exact ⟨_, _, rfl, hskip⟩
    · exact ⟨_, _, rfl, h⟩
  | textBlock start =>
    rw [Lexeme.scan]
    split
    · exact ⟨_, _, rfl, trivial, hliteral _⟩
    split
    · exact ⟨_, _, rfl, hskip⟩
    · exact ⟨_, _, rfl, h⟩

end Spelling

theorem spelled_scan {mode : ScanMode} {position : Nat} {found lexemes : List Lexeme}
    {chars : List Char} (h : Spelling mode found)
    (hscan : Lexeme.scan mode position found chars = some lexemes) :
    ∀ l ∈ lexemes, l.Spelled := by
  induction chars generalizing mode position found with
  | nil =>
    have hfinish := h.finish position
    cases mode with
    | between | lineComment | word =>
      obtain rfl := Option.some.inj hscan
      exact fun l hl ↦ hfinish l (List.mem_reverse.1 hl)
    | pass | blockComment | string | textBlock | character => cases hscan
  | cons c rest ih =>
    obtain ⟨mode', found', heq, h'⟩ := h.exists_step position c rest
    exact ih h' (heq ▸ hscan)

/-! ## Tokens -/

/-- The words in a token, at any depth, are spelled with word characters. -/
inductive Token.Spelled : Token → Prop where
  | word {s : Span} {text : String} (h : IsWord text) : Token.Spelled (.word s text)
  | mark (s : Span) (text : String) : Token.Spelled (.mark s text)
  | literal (s : Span) : Token.Spelled (.literal s)
  | group {s : Span} {bracket : Bracket} {items : List Token} (h : ∀ t ∈ items, t.Spelled) :
    Token.Spelled (.group s bracket items)

theorem Token.Spelled.items {s : Span} {bracket : Bracket} {items : List Token}
    (h : (Token.group s bracket items).Spelled) : ∀ t ∈ items, t.Spelled := by
  cases h with
  | group h => exact h

/-- Folding brackets keeps the words. -/
theorem spelled_nest {stack : List Token.Open} {items tokens : List Token} {lexemes : List Lexeme}
    (hstack : ∀ o ∈ stack, ∀ t ∈ o.before, t.Spelled) (hitems : ∀ t ∈ items, t.Spelled)
    (hlexemes : ∀ l ∈ lexemes, l.Spelled) (hnest : Token.nest stack items lexemes = some tokens) :
    ∀ t ∈ tokens, t.Spelled := by
  induction lexemes generalizing stack items with
  | nil =>
    rw [Token.nest] at hnest
    split at hnest
    · obtain rfl := Option.some.inj hnest
      exact fun t ht ↦ hitems t (List.mem_reverse.1 ht)
    · cases hnest
  | cons lexeme rest ih =>
    rw [List.forall_mem_cons] at hlexemes
    obtain ⟨hlexeme, hrest⟩ := hlexemes
    cases lexeme with
    | word s text => exact ih hstack (List.forall_mem_cons.2 ⟨.word hlexeme, hitems⟩) hrest hnest
    | mark s text => exact ih hstack (List.forall_mem_cons.2 ⟨.mark s text, hitems⟩) hrest hnest
    | literal s => exact ih hstack (List.forall_mem_cons.2 ⟨.literal s, hitems⟩) hrest hnest
    | opening s b =>
      exact ih (List.forall_mem_cons.2 ⟨hitems, hstack⟩) (by simp) hrest hnest
    | closing s b =>
      cases stack with
      | nil => cases hnest
      | cons o below =>
        rw [List.forall_mem_cons] at hstack
        rw [Token.nest] at hnest
        split at hnest
        · refine ih hstack.2 (List.forall_mem_cons.2 ⟨.group fun t ht ↦ ?_, hstack.1⟩) hrest hnest
          exact hitems t (List.mem_reverse.1 ht)
        · cases hnest

theorem spelled_ofSource? {source : String} {tokens : List Token}
    (h : Token.ofSource? source = some tokens) : ∀ t ∈ tokens, t.Spelled := by
  obtain ⟨lexemes, hlexemes, hnest⟩ := Option.bind_eq_some_iff.1 h
  have hstart : Spelling .between [] := ⟨trivial, by simp⟩
  refine spelled_nest (by simp) (by simp) ?_ hnest
  unfold Lexeme.ofSource? at hlexemes
  split at hlexemes
  · exact spelled_scan hstart hlexemes
  · exact spelled_scan hstart hlexemes

/-! ## Heads -/

theorem name_of_upToBody {form : BodyForm} {name : String} {named : Nat} {rest : List Token}
    {head : TypeHead} (h : TypeHead.upToBody? form name named rest = some head) :
    head.name = name := by
  obtain ⟨n, -, rfl⟩ := Option.map_eq_some_iff.1 h
  rfl

section Heads

variable {tokens : List Token} (h : ∀ t ∈ tokens, t.Spelled)
include h

theorem isWord_of_mem {s : Span} {name : String} (hmem : .word s name ∈ tokens) : IsWord name := by
  cases h _ hmem with
  | word h => exact h

/-- A word that stands behind some tokens. -/
theorem isWord_of_drop {n : Nat} {behind : List Token} {s : Span} {name : String}
    (hdrop : tokens.drop n = behind) (hmem : .word s name ∈ behind) : IsWord name :=
  isWord_of_mem h (List.mem_of_mem_drop (hdrop ▸ hmem))

theorem isWord_typeHead {head : TypeHead} (hhead : typeHead? tokens = some head) :
    IsWord head.name := by
  unfold typeHead? at hhead
  dsimp only at hhead
  split at hhead
  · next hdrop =>
    rw [name_of_upToBody hhead]
    exact isWord_of_drop h hdrop (List.mem_cons_of_mem _ List.mem_cons_self)
  · next hdrop =>
    rw [name_of_upToBody hhead]
    exact isWord_of_drop h hdrop (List.mem_cons_of_mem _ List.mem_cons_self)
  · next hdrop =>
    rw [name_of_upToBody hhead]
    exact isWord_of_drop h hdrop (List.mem_cons_of_mem _ List.mem_cons_self)
  · next hdrop =>
    rw [name_of_upToBody hhead]
    exact isWord_of_drop h hdrop
      (List.mem_cons_of_mem _ (List.mem_cons_of_mem _ List.mem_cons_self))
  · next hdrop =>
    split at hhead
    · rw [name_of_upToBody hhead]
      exact isWord_of_drop h hdrop (List.mem_cons_of_mem _ List.mem_cons_self)
    · cases hhead
  · cases hhead

theorem isWord_typedMemberHead {form : BodyForm} {start : Nat} {head : MemberHead}
    (hhead : typedMemberHead? form start tokens = some head) : IsWord head.name := by
  unfold typedMemberHead? at hhead
  dsimp only at hhead
  split at hhead
  · next hdrop =>
    obtain rfl := Option.some.inj hhead
    exact isWord_of_drop h hdrop List.mem_cons_self
  · next hdrop =>
    obtain rfl := Option.some.inj hhead
    exact isWord_of_drop h hdrop List.mem_cons_self
  · cases hhead

theorem isWord_memberHead {form : BodyForm} {head : MemberHead}
    (hhead : memberHead? form tokens = some head) : IsWord head.name := by
  unfold memberHead? at hhead
  dsimp only at hhead
  split at hhead
  · next hdrop =>
    obtain rfl := Option.some.inj hhead
    exact isWord_of_drop h hdrop List.mem_cons_self
  · next hdrop =>
    obtain rfl := Option.some.inj hhead
    exact isWord_of_drop h hdrop List.mem_cons_self
  · exact isWord_typedMemberHead h hhead

theorem isWord_methodHead {head : MemberHead} (hhead : methodHead? tokens = some head) :
    IsWord head.name := by
  unfold methodHead? at hhead
  dsimp only at hhead
  split at hhead
  · split at hhead
    · cases hhead
    · exact isWord_typedMemberHead h (Option.filter_eq_some_iff.1 hhead).1
  · cases hhead

end Heads

/-! ## Parts -/

/-- The names of what the node holds outside of headers, itself included, are words. -/
inductive SyntaxNode.Spelled : SyntaxNode → Prop where
  | intro {node : SyntaxNode}
    (name : ∀ inBody d n, node.declared? inBody = some d → d.simpleName = some n → IsWord n)
    (contents : ∀ child ∈ node.contents, child.Spelled) : SyntaxNode.Spelled node

/-- What is declared below such a node has a word for its name. -/
theorem SyntaxNode.Spelled.isWord {node : SyntaxNode} (h : node.Spelled) {inBody : Bool}
    {address : List Nat} {d : Declaration} {n : String}
    (hd : node.declaredAt? inBody address = some d) (hn : d.simpleName = some n) : IsWord n := by
  induction address generalizing node inBody with
  | nil =>
    cases h with
    | intro name contents => exact name inBody d n hd hn
  | cons i rest ih =>
    cases h with
    | intro name contents =>
      rw [declaredAt?] at hd
      split at hd
      · cases hd
      · next hi =>
        obtain ⟨child, hchild, hbelow⟩ := Option.bind_eq_some_iff.1 hd
        obtain ⟨j, rfl⟩ := Nat.exists_eq_add_of_le (Nat.le_of_not_lt hi)
        rw [← List.getElem?_drop] at hchild
        exact ih (contents child (List.mem_of_getElem? hchild)) hbelow

/-- The names in the parts are words. -/
def SpelledAll (parts : List Part) : Prop := ∀ part ∈ parts, (SyntaxNode.part part).Spelled

theorem SpelledAll.cons {part : Part} {parts : List Part} (hpart : (SyntaxNode.part part).Spelled)
    (hparts : SpelledAll parts) : SpelledAll (part :: parts) :=
  List.forall_mem_cons.2 ⟨hpart, hparts⟩

theorem SpelledAll.append {first second : List Part} (hfirst : SpelledAll first)
    (hsecond : SpelledAll second) : SpelledAll (first ++ second) :=
  List.forall_mem_append.2 ⟨hfirst, hsecond⟩

section Parts

variable {parts : List Part} (hparts : SpelledAll parts)
include hparts

theorem SpelledAll.nodes : ∀ child ∈ parts.map SyntaxNode.part, child.Spelled := by
  intro child hchild
  obtain ⟨part, hpart, rfl⟩ := List.mem_map.1 hchild
  exact hparts part hpart

theorem SpelledAll.type {name : String} (hname : IsWord name) (span : Span) (header : List Part) :
    (SyntaxNode.part (.type span name header parts)).Spelled := by
  refine .intro (fun inBody d n hd hn ↦ ?_) ?_
  · cases hd
    cases hn
    exact hname
  · rw [SyntaxNode.contents_type]
    exact hparts.nodes

theorem SpelledAll.method {name : String} (hname : IsWord name) (span : Span)
    (header : List Part) : (SyntaxNode.part (.method span name header parts)).Spelled := by
  refine .intro (fun inBody d n hd hn ↦ ?_) ?_
  · cases hd
    cases hn
    exact hname
  · rw [SyntaxNode.contents_method]
    exact hparts.nodes

theorem SpelledAll.field {name : String} (hname : IsWord name) (span : Span) :
    (SyntaxNode.part (.field span name parts)).Spelled := by
  refine .intro (fun inBody d n hd hn ↦ ?_) hparts.nodes
  cases hd
  cases hn
  exact hname

theorem SpelledAll.staticInitializer (span : Span) :
    (SyntaxNode.part (.staticInitializer span parts)).Spelled := by
  refine .intro (fun inBody d n hd hn ↦ ?_) hparts.nodes
  cases hd
  cases hn

theorem SpelledAll.block (span : Span) : (SyntaxNode.part (.block span parts)).Spelled := by
  refine .intro (fun inBody d n hd hn ↦ ?_) hparts.nodes
  cases inBody with
  | true =>
    cases hd
    cases hn
  | false => cases hd

theorem SpelledAll.other : (SyntaxNode.part (.other parts)).Spelled :=
  .intro (fun _ _ _ hd ↦ nomatch hd) hparts.nodes

theorem SpelledAll.host {arguments : List Part} (harguments : SpelledAll arguments) (body : Span) :
    (SyntaxNode.part (.host arguments body parts)).Spelled := by
  have hbody : (SyntaxNode.classBody body parts).Spelled := by
    refine .intro (fun inBody d n hd hn ↦ ?_) hparts.nodes
    cases hd
    cases hn
  refine .intro (fun _ _ _ hd ↦ nomatch hd) ?_
  exact List.forall_mem_append.2 ⟨harguments.nodes, List.forall_mem_singleton.2 hbody⟩

theorem SpelledAll.partWithoutBody {head : MemberHead} (hname : IsWord head.name) (span : Span) :
    (SyntaxNode.part (head.partWithoutBody span parts)).Spelled := by
  unfold MemberHead.partWithoutBody
  split
  · exact SpelledAll.method (by simp [SpelledAll]) hname span parts
  · exact hparts.field hname span
  · exact hparts.other

end Parts

/-- Whatever the tokens are read as, the names in their parts are words. -/
structure SpelledParts (tokens : List Token) : Prop where
  code : ∀ outside start, SpelledAll (codeParts outside start tokens)
  members : ∀ form, SpelledAll (memberParts form tokens)
  body : ∀ form, SpelledAll (bodyParts form tokens)

section Tokens

variable {tokens : List Token}
  (ih : ∀ smaller : List Token, sizeOf smaller < sizeOf tokens → (∀ t ∈ smaller, t.Spelled) →
    SpelledParts smaller)
  (h : ∀ t ∈ tokens, t.Spelled)
include ih h

section Cuts

variable {n : Nat} {last : Token} {after : List Token} (hdrop : tokens.drop n = last :: after)
include hdrop

theorem spelledParts_take : SpelledParts (tokens.take n) := by
  have hsize := sizeOf_cut hdrop
  exact ih _ (by omega) fun t ht ↦ h t (List.mem_of_mem_take ht)

theorem spelledParts_after : SpelledParts after := by
  have hsize := sizeOf_cut hdrop
  exact ih _ (by omega) fun t ht ↦
    h t (List.mem_of_mem_drop (hdrop ▸ List.mem_cons_of_mem last ht))

omit hdrop in
theorem spelledParts_items {s : Span} {bracket : Bracket} {items : List Token}
    (hdrop : tokens.drop n = .group s bracket items :: after) : SpelledParts items := by
  have hsize := sizeOf_cut hdrop
  rw [Token.group.sizeOf_spec] at hsize
  exact ih _ (by omega) (h _ (List.mem_of_mem_drop (hdrop ▸ List.mem_cons_self))).items

end Cuts

omit ih h in
/-- An object creation after its first word. -/
theorem spelledAll_creation {t : Token} {rest : List Token}
    (ih : ∀ smaller : List Token, sizeOf smaller < sizeOf (t :: rest) →
      (∀ t ∈ smaller, t.Spelled) → SpelledParts smaller)
    (h : ∀ x ∈ t :: rest, x.Spelled) {n : Nat} {s body : Span}
    {arguments items after : List Token}
    (hdrop : rest.drop n = .group s .round arguments :: .group body .curly items :: after)
    (outside : Bool) :
    SpelledAll (.host (codeParts false false (rest.take n) ++ codeParts false false arguments) body
      (memberParts .ordinary items) :: codeParts outside false after) := by
  have ih' : ∀ smaller : List Token, sizeOf smaller < sizeOf rest →
      (∀ t ∈ smaller, t.Spelled) → SpelledParts smaller :=
    fun smaller hlt ↦ ih smaller (hlt.trans (sizeOf_lt_cons ..))
  have h' := (List.forall_mem_cons.1 h).2
  have hbody : rest.drop (n + 1) = .group body .curly items :: after := by
    rw [List.drop_add_one_eq_tail_drop, hdrop, List.tail_cons]
  have hcreator := (spelledParts_take ih' h' hdrop).code false false
  have harguments := (spelledParts_items ih' h' hdrop).code false false
  have hmembers := (spelledParts_items ih' h' hbody).members .ordinary
  exact .cons (hmembers.host (hcreator.append harguments) body)
    ((spelledParts_after ih' h' hbody).code outside false)

theorem spelledAll_codeParts (outside start : Bool) :
    SpelledAll (codeParts outside start tokens) := by
  unfold codeParts
  split
  · simp [SpelledAll]
  next t rest =>
  have hafter : ∀ {n : Nat} {last : Token} {after : List Token},
      (t :: rest).drop n = last :: after → ∀ start, SpelledAll (codeParts outside start after) :=
    fun hdrop start ↦ (spelledParts_after ih h hdrop).code outside start
  have hrest : ∀ start, SpelledAll (codeParts outside start rest) := hafter (n := 0) rfl
  split
  · next head hhead =>
    split
    · next body items after hdrop =>
      have hname : IsWord head.name := by
        split at hhead
        · exact isWord_typeHead h hhead
        · cases hhead
      exact .cons (((spelledParts_items ih h hdrop).body head.form).type hname _ _)
        (hafter hdrop true)
    · exact hrest false
  split
  · next head hhead =>
    have hname : IsWord head.name := by
      split at hhead
      · exact isWord_methodHead h hhead
      · cases hhead
    split
    · next body items after hdrop =>
      exact .cons (((spelledParts_items ih h hdrop).code false true).method hname _ _)
        (hafter hdrop true)
    · next last after _ hdrop =>
      exact .cons (((spelledParts_take ih h hdrop).code false false).partWithoutBody hname _)
        (hafter hdrop true)
    · exact hrest false
  -- the rest of an expression or statement, by its first tokens
  split
  · split
    · next hdrop => exact spelledAll_creation ih h hdrop outside
    · exact hrest false
  · have hsubject := (spelledParts_items ih h (n := 1) rfl).code false false
    have hcases := (spelledParts_items ih h (n := 2) rfl).code false true
    exact (hsubject.append hcases).append (hafter (n := 2) rfl true)
  · exact ((spelledParts_items ih h (n := 1) rfl).code false false).append (hafter (n := 1) rfl _)
  · exact .cons (((spelledParts_items ih h (n := 1) rfl).code false true).block _)
      (hafter (n := 1) rfl false)
  · split
    · exact .cons (((spelledParts_items ih h (n := 0) rfl).code false true).block _) (hrest true)
    · exact ((spelledParts_items ih h (n := 0) rfl).code false false).append (hrest false)
  · exact ((spelledParts_items ih h (n := 0) rfl).code false false).append (hrest false)
  · exact hrest _

theorem spelledAll_memberParts (form : BodyForm) : SpelledAll (memberParts form tokens) := by
  unfold memberParts
  split
  · simp [SpelledAll]
  · exact .cons (((spelledParts_items ih h (n := 0) rfl).code false true).block _)
      ((spelledParts_after ih h (n := 0) rfl).members form)
  · exact .cons (((spelledParts_items ih h (n := 1) rfl).code false true).staticInitializer _)
      ((spelledParts_after ih h (n := 1) rfl).members form)
  next t rest _ _ =>
  have hafter : ∀ {n : Nat} {last : Token} {after : List Token},
      (t :: rest).drop n = last :: after → SpelledAll (memberParts form after) :=
    fun hdrop ↦ (spelledParts_after ih h hdrop).members form
  have hrest : SpelledAll (memberParts form rest) := hafter (n := 0) rfl
  split
  · next head hhead =>
    split
    · next body items after hdrop =>
      exact .cons
        (((spelledParts_items ih h hdrop).body head.form).type (isWord_typeHead h hhead) _ _)
        (hafter hdrop)
    · exact hrest
  split
  · next head hhead =>
    have hname := isWord_memberHead h hhead
    split
    · next body items after hdrop =>
      exact .cons (((spelledParts_items ih h hdrop).code false true).method hname _ _)
        (hafter hdrop)
    · next last after _ hdrop =>
      exact .cons (((spelledParts_take ih h hdrop).code false false).partWithoutBody hname _)
        (hafter hdrop)
    · exact hrest
  · exact hrest

theorem spelledAll_constantParts : SpelledAll (constantParts tokens) := by
  have hconstants : ∀ {after : List Token}, SpelledParts after →
      SpelledAll (constantParts after) := by
    intro after hafter
    have hbody := hafter.body .enumeration
    rw [bodyParts, if_pos rfl] at hbody
    exact hbody
  unfold constantParts
  split
  · next hdrop =>
    have hmembers := (spelledParts_items ih h hdrop).members .ordinary
    exact .cons (hmembers.host ((spelledParts_take ih h hdrop).code false false) _)
      (hconstants (spelledParts_after ih h hdrop))
  · next hdrop =>
    refine .cons ((spelledParts_take ih h hdrop).code false false).other ?_
    split
    · exact (spelledParts_after ih h hdrop).members .ordinary
    · exact hconstants (spelledParts_after ih h hdrop)
  · exact .cons (spelledAll_codeParts ih h false false).other (by simp [SpelledAll])

end Tokens

/-- The parts of spelled tokens are spelled. -/
theorem spelledParts {tokens : List Token} (h : ∀ t ∈ tokens, t.Spelled) : SpelledParts tokens := by
  induction hn : sizeOf tokens using Nat.strong_induction_on generalizing tokens with
  | _ n ih =>
    subst hn
    have ih' : ∀ smaller : List Token, sizeOf smaller < sizeOf tokens →
        (∀ t ∈ smaller, t.Spelled) → SpelledParts smaller := fun smaller hlt hs ↦ ih _ hlt hs rfl
    refine ⟨spelledAll_codeParts ih' h, spelledAll_memberParts ih' h, fun form ↦ ?_⟩
    rw [bodyParts]
    split
    · exact spelledAll_constantParts ih' h
    · exact spelledAll_memberParts ih' h form

theorem spelledAll_ofSource (source : String) : SpelledAll (Outline.ofSource source).parts := by
  unfold Outline.ofSource
  split
  · simp [SpelledAll]
  · next tokens htokens => exact (spelledParts (spelled_ofSource? htokens)).code true true

/-- The simple names in the tree of a source are words. -/
theorem isWord_simpleName {source : String} {size : Nat} {suggested : Option String} {id : Nat}
    {d : Declaration} {n : String}
    (hd : ((Outline.ofSource source).declarations size suggested).declaration? id = some d)
    (hn : d.simpleName = some n) : IsWord n := by
  have hsited := sited_declarations (Outline.ofSource source) size suggested
  rcases Nat.eq_zero_or_pos id with rfl | hpos
  · rw [declaration?_root] at hd
    cases hd
    cases hn
  · have hplace := hsited.bare_declaration hpos (DeclarationTree.lt_size_of_declaration? hd)
    rw [hd, Option.map_some] at hplace
    have hunit : (SyntaxNode.unit (Outline.ofSource source).parts).Spelled :=
      .intro (fun _ _ _ h ↦ nomatch h) (spelledAll_ofSource source).nodes
    exact hunit.isWord hplace.symm (d.bare_simpleName.trans hn)

end BinaryNames.Java
