import BinaryNames.Source.Span
import BinaryNames.Text.Character

/-!
# Java Tokens

A source is read in two steps.  `Lexeme.scan` cuts the characters into words, marks, literals and
brackets, leaving out blanks and comments; `Token.nest` folds matching brackets into groups.  Words
hold identifiers, keywords and numbers alike, since only the grammar tells them apart.
-/

namespace BinaryNames.Java

inductive Bracket where
  | round
  | square
  | curly
deriving DecidableEq, Repr, Inhabited

/-- A piece of the source text. -/
inductive Lexeme where
  | word (span : Span) (text : String)
  | mark (span : Span) (text : String)
  | literal (span : Span)
  | opening (span : Span) (bracket : Bracket)
  | closing (span : Span) (bracket : Bracket)
deriving DecidableEq, Repr

/-- What the scanner is in the middle of.  A word or literal remembers where it began, and a word
its characters, last first; `pass` takes one character and `more` others without a look and goes on
as `after` says. -/
inductive ScanMode where
  | between
  | pass (more : Nat) (after : ScanMode)
  | word (start : Nat) (reversed : List Char)
  | lineComment
  | blockComment
  | string (start : Nat)
  | textBlock (start : Nat)
  | character (start : Nat)

def isWordChar (c : Char) : Bool :=
  c.isAlphanum || c = '_' || c = '$' || (0x80 ≤ c.toNat && !isBlank c)

def openingBracket? (c : Char) : Option Bracket :=
  if c = '(' then some .round
  else if c = '[' then some .square
  else if c = '\x7b' then some .curly
  else none

def closingBracket? (c : Char) : Option Bracket :=
  if c = ')' then some .round
  else if c = ']' then some .square
  else if c = '\x7d' then some .curly
  else none

/-- A character that is neither blank nor part of a word. -/
def Lexeme.ofChar (position : Nat) (c : Char) : Lexeme :=
  let span := Span.ofBounds position (position + c.utf8Size)
  match openingBracket? c, closingBracket? c with
  | some b, _ => .opening span b
  | none, some b => .closing span b
  | none, none => .mark span (String.singleton c)

/-- The word that ends before `position`. -/
def Lexeme.ofWord (start position : Nat) (reversed : List Char) : Lexeme :=
  .word (Span.ofBounds start position) (String.ofList reversed.reverse)

/-- The mode after one more word character. -/
def ScanMode.extend (mode : ScanMode) (position : Nat) (c : Char) : ScanMode :=
  match mode with
  | .word start reversed => .word start (c :: reversed)
  | _ => .word position [c]

/-- The lexemes found so far when a word, if there is one, ends before `position`. -/
def ScanMode.finish (mode : ScanMode) (position : Nat) (found : List Lexeme) : List Lexeme :=
  match mode with
  | .word start reversed => Lexeme.ofWord start position reversed :: found
  | _ => found

namespace Lexeme

/-- The marks of two characters that the grammar cares about; `--` is one of them because `-->` is
not an arrow. -/
def longMark? (c : Char) (next : Option Char) : Option String :=
  if c = '-' ∧ next = some '>' then some "->"
  else if c = '-' ∧ next = some '-' then some "--"
  else if c = ':' ∧ next = some ':' then some "::"
  else none

/-- Scans the characters from `position` on, with the lexemes found so far in `found`, last first.
There is no answer when a comment or literal is not closed. -/
def scan (mode : ScanMode) (position : Nat) (found : List Lexeme) :
    List Char → Option (List Lexeme)
  | [] =>
    match mode with
    | .between | .lineComment | .word .. => some (mode.finish position found).reverse
    | _ => none
  | c :: rest =>
    let next := position + c.utf8Size
    match mode with
    | .pass 0 after => scan after next found rest
    | .pass (more + 1) after => scan (.pass more after) next found rest
    | .lineComment => scan (if c = '\n' then .between else .lineComment) next found rest
    | .blockComment =>
      if c = '*' ∧ rest.head? = some '/' then scan (.pass 0 .between) next found rest
      else scan .blockComment next found rest
    | .string start =>
      if c = '"' then scan .between next (.literal (Span.ofBounds start next) :: found) rest
      else if c = '\\' then scan (.pass 0 mode) next found rest
      else scan mode next found rest
    | .textBlock start =>
      if c = '"' ∧ rest.take 2 = ['"', '"'] then
        let literal := .literal (Span.ofBounds start (position + 3))
        scan (.pass 1 .between) next (literal :: found) rest
      else if c = '\\' then scan (.pass 0 mode) next found rest
      else scan mode next found rest
    | .character start =>
      if c = '\'' then scan .between next (.literal (Span.ofBounds start next) :: found) rest
      else if c = '\\' then scan (.pass 0 mode) next found rest
      else scan mode next found rest
    | .between | .word .. =>
      if isWordChar c then scan (mode.extend position c) next found rest
      else
        let found := mode.finish position found
        if isBlank c then scan .between next found rest
        else if c = '/' ∧ rest.head? = some '/' then scan .lineComment next found rest
        else if c = '/' ∧ rest.head? = some '*' then scan (.pass 0 .blockComment) next found rest
        else if c = '"' ∧ rest.take 2 = ['"', '"'] then
          scan (.pass 1 (.textBlock position)) next found rest
        else if c = '"' then scan (.string position) next found rest
        else if c = '\'' then scan (.character position) next found rest
        else match longMark? c rest.head? with
          | some text =>
            let mark := .mark (Span.ofBounds position (position + 2)) text
            scan (.pass 0 .between) next (mark :: found) rest
          | none => scan .between next (ofChar position c :: found) rest

/-- The lexemes of a source; a byte order mark at the front is passed over. -/
def ofSource? (source : String) : Option (List Lexeme) :=
  match source.toList with
  | '\uFEFF' :: rest => scan .between 3 [] rest
  | chars => scan .between 0 [] chars

end Lexeme

/-- A lexeme that is no bracket, or everything between two matching brackets. -/
inductive Token where
  | word (span : Span) (text : String)
  | mark (span : Span) (text : String)
  | literal (span : Span)
  | group (span : Span) (bracket : Bracket) (items : List Token)
deriving Repr, Inhabited

namespace Token

def span : Token → Span
  | word s _ => s
  | mark s _ => s
  | literal s => s
  | group s _ _ => s

/-- A bracket that has been opened, with what came before it, last first. -/
structure Open where
  bracket : Bracket
  span : Span
  before : List Token

/-- Folds matching brackets into groups; `items` are the tokens since the last open bracket, last
first.  There is no answer when brackets do not match. -/
def nest (stack : List Open) (items : List Token) : List Lexeme → Option (List Token)
  | [] => if stack.isEmpty then some items.reverse else none
  | .word s t :: rest => nest stack (word s t :: items) rest
  | .mark s t :: rest => nest stack (mark s t :: items) rest
  | .literal s :: rest => nest stack (literal s :: items) rest
  | .opening s b :: rest => nest (⟨b, s, items⟩ :: stack) [] rest
  | .closing s b :: rest =>
    match stack with
    | [] => none
    | o :: below =>
      if o.bracket = b then nest below (group (o.span.upTo s) b items.reverse :: o.before) rest
      else none

/-- The tokens of a source that can be read. -/
def ofSource? (source : String) : Option (List Token) :=
  (Lexeme.ofSource? source).bind (nest [] [])

end Token

end BinaryNames.Java
