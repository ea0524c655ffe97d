import BinaryNames.Toml.Scalar
import BinaryNames.Toml.Value

/-!
# TOML Documents

A document is a sequence of sections: keys with values, first without a header, then under headers
that name a table or the next element of an array.  A document is refused if it is not well formed
or if it says something twice.
-/

namespace BinaryNames.Toml

open Reader

/-- How deeply arrays and tables may be nested in a value. -/
def maxNesting : Nat := 79

/-- How many parts a dotted key may have. -/
def maxKeyParts : Nat := 79

def isBareKeyChar (c : Char) : Bool := c.isAlphanum || c = '_' || c = '-'

def keyPart : Reader String := do
  spaces
  let part ← quoted <|> verbatim <|> (do return .ofList (← run1 isBareKeyChar))
  spaces
  return part

/-- A key with its dots. -/
def key : Reader KeyPath := do
  let parts ← separated keyPart (char '.')
  if parts.length ≤ maxKeyParts then return parts else failure

def comment : Reader Unit := do
  let _ ← char '#'
  let _ ← run isPlain

/-- Blanks, comments and line ends. -/
def gap : Reader Unit := do
  let _ ← many ((do let _ ← run1 isSpace) <|> newline <|> (do comment; newline))

/-- The rest of a line on which nothing more is said. -/
def lineEnd : Reader Unit := do
  spaces
  let _ ← optional comment
  newline <|> done

/-- The items of an array, with an optional comma after the last. -/
def arrayOf (item : Reader Value) : Reader Value := do
  let _ ← char '['
  let items ← (do
    let items ← separated (do gap; let v ← item; gap; return v) (char ',')
    let _ ← optional (char ',')
    return items) <|> pure []
  gap
  let _ ← char ']'
  return .array false items

/-- A key and its value. -/
def pairOf (item : Reader Value) : Reader (KeyPath × Value) := do
  let path ← key
  let _ ← char '='
  spaces
  return (path, ← item)

/-- A table in curly brackets, all on one line. -/
def inlineTableOf (item : Reader Value) : Reader Value := do
  let _ ← char '\x7b'
  let pairs ← separated (do let pair ← pairOf item; spaces; return pair) (char ',') <|>
    (do spaces; return [])
  let _ ← char '\x7d'
  match addAll? .inline [] pairs with
  | some entries => return .table .inline entries
  | none => failure

/-- A value with at most `nesting` levels of arrays and tables in it. -/
def value : Nat → Reader Value
  | 0 => (do return .text (← anyText)) <|> (do return .scalar (← anyScalar))
  | nesting + 1 =>
    (do return .text (← anyText)) <|> arrayOf (value nesting) <|>
      inlineTableOf (value nesting) <|> (do return .scalar (← anyScalar))

/-- What a section is about. -/
inductive Header where
  | table (path : KeyPath)
  | element (path : KeyPath)
deriving Repr

structure Section where
  header : Option Header
  pairs : List (KeyPath × Value)

def pair : Reader (KeyPath × Value) := do
  let pair ← pairOf (value maxNesting)
  lineEnd
  return pair

def header : Reader Header := do
  let header ← (do text "[["; let path ← key; text "]]"; return .element path) <|>
    (do text "["; let path ← key; text "]"; return .table path)
  lineEnd
  return header

/-- Blank lines and comments, up to the next thing said. -/
def blankLines : Reader Unit := do
  let _ ← many (newline <|> (do let _ ← run1 isSpace) <|> (do comment; newline <|> done))

def pairs : Reader (List (KeyPath × Value)) := many do
  let pair ← pair
  blankLines
  return pair

/-- All sections of a document; a byte order mark at the front is passed over. -/
def sections : Reader (List Section) := do
  let _ ← optional (char '\uFEFF')
  blankLines
  let top := ⟨none, ← pairs⟩
  let others ← many do
    let header ← header
    blankLines
    return ⟨some header, ← pairs⟩
  return top :: others

/-- Adds what a section says. -/
def addSection? (root : Entries) (s : Section) : Option Entries :=
  match s.header with
  | none => addAll? .header root s.pairs
  | some (.table path) =>
    changeAt? .implied path.dropLast (fun _ parent ↦
      let name := path.getLast?.getD ""
      let before : Option Entries := match parent.find? name with
        | none => some []
        | some (.table .implied entries) => some entries
        | some _ => none
      (before.bind fun entries ↦ addAll? .header entries s.pairs).map fun entries ↦
        parent.put name (.table .header entries)) .header root
  | some (.element path) =>
    changeAt? .implied path.dropLast (fun _ parent ↦
      let name := path.getLast?.getD ""
      let before : Option (List Value) := match parent.find? name with
        | none => some []
        | some (.array true items) => some items
        | some _ => none
      match before, addAll? .header [] s.pairs with
      | some items, some entries =>
        some (parent.put name (.array true (items ++ [.table .header entries])))
      | _, _ => none) .header root

/-- The table that a document describes. -/
def parse? (text : String) : Option Entries :=
  (whole? sections text.toList).bind fun sections ↦ sections.foldlM addSection? []

end BinaryNames.Toml
