import BinaryNames.Java.Head

/-!
# Outlines of Java Sources

A source is outlined by the parts of it that declare something or that hold such parts.  What stands
between them, such as the operators of an expression, leaves no trace.

The outline is read off the nested tokens.  Code is searched for declarations, blocks, object
creations with a body, lambda bodies and switches, and the body of a type is cut into its members;
what declares nothing is passed over.  A text whose brackets do not match has an empty outline.
-/

namespace BinaryNames.Java

inductive Part where
  /-- A named class, interface, enum, record or annotation type. -/
  | type (span : Span) (name : String) (header members : List Part)
  /-- A method or constructor; one without a body has no parts in it. -/
  | method (span : Span) (name : String) (header body : List Part)
  /-- A field or constant, named for the first variable that it declares. -/
  | field (span : Span) (name : String) (parts : List Part)
  | staticInitializer (span : Span) (parts : List Part)
  /-- Statements in curly brackets, wherever they stand. -/
  | block (span : Span) (parts : List Part)
  /-- An object creation or an enum constant that has a class body of its own. -/
  | host (arguments : List Part) (body : Span) (members : List Part)
  /-- Parts that stand together inside something that declares nothing. -/
  | other (parts : List Part)
deriving Repr, Inhabited

/-- A whole source: the package that it declares and its parts. -/
structure Outline where
  package : Option String
  parts : List Part
deriving Repr, Inhabited

theorem sizeOf_take_drop (n : Nat) (tokens : List Token) :
    sizeOf (tokens.take n) + sizeOf (tokens.drop n) = sizeOf tokens + 1 := by
  induction tokens generalizing n with
  | nil => simp
  | cons t rest ih =>
    cases n with
    | zero => simp; omega
    | succ n =>
      have := ih n
      simp only [List.take_succ_cons, List.drop_succ_cons, List.cons.sizeOf_spec]
      omega

theorem sizeOf_tokens_pos (tokens : List Token) : 0 < sizeOf tokens := by
  cases tokens with
  | nil => simp
  | cons t rest => rw [List.cons.sizeOf_spec]; omega

/-- When a head is cut off, the head and what follows it add up to the whole. -/
theorem sizeOf_cut {n : Nat} {tokens rest : List Token} {t : Token}
    (h : tokens.drop n = t :: rest) :
    sizeOf (tokens.take n) + sizeOf t + sizeOf rest = sizeOf tokens ∧
      0 < sizeOf (tokens.take n) ∧ 0 < sizeOf rest := by
  have total := sizeOf_take_drop n tokens
  rw [h, List.cons.sizeOf_spec] at total
  exact ⟨by omega, sizeOf_tokens_pos _, sizeOf_tokens_pos _⟩

/-- From the first of the tokens to the end of `last`. -/
def spanFrom (tokens : List Token) (last : Span) : Span :=
  match tokens with
  | [] => last
  | t :: _ => t.span.upTo last

/-- The words before something in round brackets after which a statement begins. -/
def conditionWords : List String := ["if", "while", "for", "synchronized", "catch", "try"]

/-- The words after which a statement begins at once. -/
def openingWords : List String := ["else", "do", "try", "finally"]

/-- Whether a statement begins after this token. -/
def Token.startsStatement : Token → Bool
  | .word _ text => openingWords.contains text
  | .mark _ text => text = ";" || text = ":"
  | .literal _ => false
  | .group .. => false

/-- Whether an enum constant ends here. -/
def Token.endsConstant (t : Token) : Bool := t.isGroup .curly || t.isMark "," || t.isMark ";"

/-- A member that ends with a semicolon. -/
def MemberHead.partWithoutBody (head : MemberHead) (span : Span) (header : List Part) : Part :=
  match head.kind with
  | .method => .method span head.name header []
  | .field => .field span head.name header
  | .element => .other header

mutual

/-- The parts of statements or of an expression.  Methods are looked for only `outside` every type,
and a declaration or a block only at the `start` of a statement; other curly brackets hold the
elements of an array. -/
def codeParts (outside start : Bool) (tokens : List Token) : List Part :=
  match tokens with
  | [] => []
  | t :: rest =>
    match if start then typeHead? (t :: rest) else none with
    | some head =>
      match h : (t :: rest).drop head.length with
      | .group body .curly items :: after =>
        have := sizeOf_cut h
        .type (spanFrom (t :: rest) body) head.name
            (codeParts false false ((t :: rest).take head.length)) (bodyParts head.form items) ::
          codeParts outside true after
      | _ => codeParts outside false rest
    | none =>
      match if start && outside then methodHead? (t :: rest) else none with
      | some head =>
        match h : (t :: rest).drop head.length with
        | .group body .curly items :: after =>
          have := sizeOf_cut h
          .method (spanFrom (t :: rest) body) head.name
              (codeParts false false ((t :: rest).take head.length)) (codeParts false true items) ::
            codeParts outside true after
        | last :: after =>
          have := sizeOf_cut h
          head.partWithoutBody (spanFrom (t :: rest) last.span)
              (codeParts false false ((t :: rest).take head.length)) ::
            codeParts outside true after
        | [] => codeParts outside false rest
      | none =>
        match t, rest with
        | .word _ "new", rest =>
          match h : rest.drop (creatorLength rest) with
          | .group _ .round arguments :: .group body .curly items :: after =>
            have := sizeOf_cut h
            .host (codeParts false false (rest.take (creatorLength rest)) ++
                codeParts false false arguments) body (memberParts .ordinary items) ::
              codeParts outside false after
          | _ => codeParts outside false rest
        | .word _ "switch", .group _ .round subject :: .group _ .curly cases :: after =>
          codeParts false false subject ++ codeParts false true cases ++
            codeParts outside true after
        | .word _ text, .group _ .round items :: after =>
          codeParts false false items ++ codeParts outside (conditionWords.contains text) after
        | .mark _ "->", .group span .curly items :: after =>
          .block span (codeParts false true items) :: codeParts outside false after
        | .group span .curly items, rest =>
          if start then .block span (codeParts false true items) :: codeParts outside true rest
          else codeParts false false items ++ codeParts outside false rest
        | .group _ _ items, rest => codeParts false false items ++ codeParts outside false rest
        | t, rest => codeParts outside t.startsStatement rest
termination_by 2 * sizeOf tokens
decreasing_by
  all_goals try simp only [List.cons.sizeOf_spec, Token.group.sizeOf_spec] at *
  all_goals omega

/-- The parts of the body of a type. -/
def bodyParts (form : BodyForm) (items : List Token) : List Part :=
  if form = .enumeration then constantParts items else memberParts form items
termination_by 2 * sizeOf items + 2

/-- The parts of an enum body, which begins with constants; members may follow a semicolon. -/
def constantParts (tokens : List Token) : List Part :=
  match h : tokens.drop (tokens.findIdx Token.endsConstant) with
  | .group body .curly items :: after =>
    have := sizeOf_cut h
    .host (codeParts false false (tokens.take (tokens.findIdx Token.endsConstant))) body
        (memberParts .ordinary items) :: constantParts after
  | last :: after =>
    have := sizeOf_cut h
    .other (codeParts false false (tokens.take (tokens.findIdx Token.endsConstant))) ::
      if last.isMark ";" then memberParts .ordinary after else constantParts after
  | [] => [.other (codeParts false false tokens)]
termination_by 2 * sizeOf tokens + 1
decreasing_by
  all_goals try simp only [Token.group.sizeOf_spec] at *
  all_goals omega

/-- The parts of a list of members. -/
def memberParts (form : BodyForm) (tokens : List Token) : List Part :=
  match tokens with
  | [] => []
  | .group span .curly items :: rest =>
    .block span (codeParts false true items) :: memberParts form rest
  | .word s "static" :: .group body .curly items :: rest =>
    .staticInitializer (s.upTo body) (codeParts false true items) :: memberParts form rest
  | t :: rest =>
    match typeHead? (t :: rest) with
    | some head =>
      match h : (t :: rest).drop head.length with
      | .group body .curly items :: after =>
        have := sizeOf_cut h
        .type (spanFrom (t :: rest) body) head.name
            (codeParts false false ((t :: rest).take head.length)) (bodyParts head.form items) ::
          memberParts form after
      | _ => memberParts form rest
    | none =>
      match memberHead? form (t :: rest) with
      | some head =>
        match h : (t :: rest).drop head.length with
        | .group body .curly items :: after =>
          have := sizeOf_cut h
          .method (spanFrom (t :: rest) body) head.name
              (codeParts false false ((t :: rest).take head.length)) (codeParts false true items) ::
            memberParts form after
        | last :: after =>
          have := sizeOf_cut h
          head.partWithoutBody (spanFrom (t :: rest) last.span)
              (codeParts false false ((t :: rest).take head.length)) ::
            memberParts form after
        | [] => memberParts form rest
      | none => memberParts form rest
termination_by 2 * sizeOf tokens + 1
decreasing_by
  all_goals try simp only [List.cons.sizeOf_spec, Token.group.sizeOf_spec] at *
  all_goals omega

end

/-- The bytes of the source in a span, as text. -/
def textAt? (source : String) (span : Span) : Option String :=
  String.fromUTF8? (source.toUTF8.extract span.offset span.stop)

/-- The name in the first package declaration, with whatever stands between its words. -/
def declaredPackage? (source : String) (tokens : List Token) : Option String :=
  let after := (tokens.dropWhile (fun t ↦ !t.isWord "package")).drop 1
  let words := (after.takeWhile (fun t ↦ !t.isMark ";")).filter Token.isName
  match words with
  | [] => none
  | first :: rest => textAt? source (first.span.upTo ((first :: rest).getLast (by simp)).span)

def Outline.ofSource (source : String) : Outline :=
  match Token.ofSource? source with
  | none => ⟨none, []⟩
  | some tokens => ⟨declaredPackage? source tokens, codeParts true true tokens⟩

end BinaryNames.Java
