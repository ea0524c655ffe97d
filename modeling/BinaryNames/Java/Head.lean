import BinaryNames.Java.Token

/-!
# Heads of Java Declarations

The head of a declaration is everything before its body or its final semicolon.  The functions here
look at the tokens of one nesting level only: brackets have been folded into groups, so a body is a
single token, and a head is known by how many tokens it has.
-/

namespace BinaryNames.Java

namespace Token

def isWord (text : String) : Token → Bool
  | word _ t => t = text
  | _ => false

def isName : Token → Bool
  | word .. => true
  | _ => false

def isMark (text : String) : Token → Bool
  | mark _ t => t = text
  | _ => false

def isGroup (bracket : Bracket) : Token → Bool
  | group _ b _ => b = bracket
  | _ => false

end Token

/-- The words that may stand before a declaration. -/
def modifierWords : List String :=
  ["public", "protected", "private", "abstract", "static", "final", "strictfp", "default",
    "synchronized", "native", "transient", "volatile", "sealed"]

/-- The rest of an annotation after the first word of its name. -/
def annotationTail : List Token → Nat
  | .mark _ "." :: .word _ _ :: rest => annotationTail rest + 2
  | .group _ .round _ :: _ => 1
  | _ => 0

/-- The tokens of the one modifier or annotation in front. -/
def modifierLength : List Token → Nat
  | .mark _ "@" :: .word _ name :: rest => if name = "interface" then 0 else annotationTail rest + 2
  | .word _ "non" :: .mark _ "-" :: .word _ "sealed" :: _ => 3
  | .word _ text :: _ => if modifierWords.contains text then 1 else 0
  | _ => 0

/-- The tokens of all modifiers and annotations in front. -/
def modifiersLength (tokens : List Token) : Nat :=
  let length := modifierLength tokens
  if 0 < length ∧ tokens ≠ [] then length + modifiersLength (tokens.drop length) else 0
termination_by tokens.length
decreasing_by
  rename_i h
  have := List.length_pos_iff.2 h.2
  simp only [List.length_drop]
  omega

/-- The tokens up to the angle bracket that closes the one in front, `depth` being open already;
none if there is no angle bracket. -/
def anglesLength (depth : Nat) : List Token → Nat
  | [] => 0
  | t :: rest =>
    if t.isMark "<" then anglesLength (depth + 1) rest + 1
    else if depth = 0 then 0
    else if t.isMark ">" then (if depth = 1 then 1 else anglesLength (depth - 1) rest + 1)
    else anglesLength depth rest + 1

/-- The tokens of the next piece of a type after its first word: type arguments, one dimension or
one further word of the name. -/
def typePieceLength (tokens : List Token) : Nat :=
  let angles := anglesLength 0 tokens
  let marked := modifiersLength tokens
  if 0 < angles then angles
  else match tokens.drop marked with
    | .group _ .square _ :: _ => marked + 1
    | .mark _ "." :: rest =>
      let inner := modifiersLength rest
      if (rest.drop inner).head?.any Token.isName then marked + inner + 2 else 0
    | _ => 0

/-- The tokens of a type after its first word. -/
def typeTail (tokens : List Token) : Nat :=
  let length := typePieceLength tokens
  if 0 < length ∧ tokens ≠ [] then length + typeTail (tokens.drop length) else 0
termination_by tokens.length
decreasing_by
  rename_i h
  have := List.length_pos_iff.2 h.2
  simp only [List.length_drop]
  omega

/-- The tokens of the type in front. -/
def typeLength (tokens : List Token) : Nat :=
  let marked := modifiersLength tokens
  match tokens.drop marked with
  | .word _ _ :: rest => marked + 1 + typeTail rest
  | _ => 0

/-- The tokens between `new` and the arguments. -/
def creatorLength (tokens : List Token) : Nat :=
  let marked := modifiersLength tokens
  let argued := marked + anglesLength 0 (tokens.drop marked)
  argued + typeLength (tokens.drop argued)

/-- What a type body may hold. -/
inductive BodyForm where
  | ordinary
  | enumeration
  | annotationType
deriving DecidableEq, Repr

/-- The head of a type declaration, the body being the token after it. -/
structure TypeHead where
  form : BodyForm
  name : String
  length : Nat

/-- The head of a type with the keywords and name in `named` tokens. -/
def TypeHead.upToBody? (form : BodyForm) (name : String) (named : Nat) (rest : List Token) :
    Option TypeHead :=
  (rest.findIdx? (Token.isGroup .curly)).map (fun n ↦ ⟨form, name, named + n⟩)

/-- The head of the type declared in front, if one is.  The word `record` only begins a declaration
when a name and then parameters follow. -/
def typeHead? (tokens : List Token) : Option TypeHead :=
  let marked := modifiersLength tokens
  match tokens.drop marked with
  | .word _ "class" :: .word _ name :: rest =>
    TypeHead.upToBody? .ordinary name (marked + 2) rest
  | .word _ "interface" :: .word _ name :: rest =>
    TypeHead.upToBody? .ordinary name (marked + 2) rest
  | .word _ "enum" :: .word _ name :: rest =>
    TypeHead.upToBody? .enumeration name (marked + 2) rest
  | .mark _ "@" :: .word _ "interface" :: .word _ name :: rest =>
    TypeHead.upToBody? .annotationType name (marked + 3) rest
  | .word _ "record" :: .word _ name :: next :: rest =>
    if next.isGroup .round || next.isMark "<" then
      TypeHead.upToBody? .ordinary name (marked + 3) rest
    else none
  | _ => none

inductive MemberKind where
  | method
  | field
  /-- A method of an annotation type, which may only have a default value. -/
  | element
deriving DecidableEq, Repr

/-- The head of a member, the body or the semicolon being the token after it. -/
structure MemberHead where
  kind : MemberKind
  name : String
  length : Nat

/-- Whether a method ends here. -/
def Token.endsMethod (t : Token) : Bool := t.isGroup .curly || t.isMark ";"

/-- The head of a member with its name after `named` tokens. -/
def MemberHead.ending (kind : MemberKind) (name : String) (named : Nat) (tokens : List Token) :
    MemberHead :=
  let ends := match kind with
    | .method => Token.endsMethod
    | .field | .element => Token.isMark ";"
  ⟨kind, name, named + (tokens.drop named).findIdx ends⟩

/-- The kind of a member that has parameters. -/
def BodyForm.methodKind : BodyForm → MemberKind
  | .annotationType => .element
  | .ordinary | .enumeration => .method

/-- The head of the method or field in front, its type being the next tokens after `start`. -/
def typedMemberHead? (form : BodyForm) (start : Nat) (tokens : List Token) : Option MemberHead :=
  let named := start + typeLength (tokens.drop start)
  match tokens.drop named with
  | .word _ name :: .group _ .round _ :: _ =>
    some (MemberHead.ending form.methodKind name named tokens)
  | .word _ name :: _ => some (MemberHead.ending .field name named tokens)
  | _ => none

/-- The tokens before the type of a member: modifiers, type parameters and annotations. -/
def memberStart (tokens : List Token) : Nat :=
  let marked := modifiersLength tokens
  let generic := marked + anglesLength 0 (tokens.drop marked)
  generic + modifiersLength (tokens.drop generic)

/-- The head of the constructor, method or field in front. -/
def memberHead? (form : BodyForm) (tokens : List Token) : Option MemberHead :=
  let start := memberStart tokens
  match tokens.drop start with
  | .word _ name :: .group _ .round _ :: _ => some (MemberHead.ending .method name start tokens)
  | .word _ name :: .group _ .curly _ :: _ => some (MemberHead.ending .method name start tokens)
  | _ => typedMemberHead? form start tokens

/-- The words that begin a statement in which a type could seem to follow. -/
def statementWords : List String :=
  ["return", "throw", "new", "assert", "yield", "else", "case", "package", "import"]

/-- The head of a method that stands in front outside every type. -/
def methodHead? (tokens : List Token) : Option MemberHead :=
  let start := memberStart tokens
  match tokens.drop start with
  | .word _ text :: _ =>
    if statementWords.contains text then none
    else (typedMemberHead? .ordinary start tokens).filter (fun head ↦ head.kind = .method)
  | _ => none

end BinaryNames.Java
