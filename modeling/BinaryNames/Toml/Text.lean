import BinaryNames.Text.Character
import BinaryNames.Text.Reader

/-!
# TOML Texts

A text stands in quotes or apostrophes, on one line or, with the mark tripled, on several.  Only in
quotes does a backslash begin an escape.  Line ends inside a text are line feeds.
-/

namespace BinaryNames.Toml

open Reader

def isSpace (c : Char) : Bool := c = ' ' || c = '\t'

/-- Whether a character may stand in a comment or a text as it is. -/
def isPlain (c : Char) : Bool := c = '\t' || (0x20 ≤ c.toNat && c.toNat ≠ 0x7F)

def spaces : Reader Unit := do
  let _ ← run isSpace

def newline : Reader Unit := text "\n" <|> text "\r\n"

/-- A code point of `n` hexadecimal digits. -/
def codePoint (n : Nat) : Reader Char := do
  let code := valueIn 16 (← exactly n isHexDigit)
  if code.isValidChar then return Char.ofNat code else failure

/-- A backslash with what it stands for. -/
def escape : Reader Char := do
  let _ ← char '\\'
  match ← satisfy (fun _ ↦ true) with
  | 'b' => return '\x08'
  | 't' => return '\t'
  | 'n' => return '\n'
  | 'f' => return '\x0c'
  | 'r' => return '\r'
  | '"' => return '"'
  | '\\' => return '\\'
  | 'u' => codePoint 4
  | 'U' => codePoint 8
  | _ => failure

/-- Characters that stand for themselves before the closing mark. -/
def plainBefore (mark : Char) : Reader (List Char) := run1 (fun c ↦ isPlain c && c ≠ mark)

/-- Characters that stand for themselves between quotes. -/
def plainInQuotes : Reader (List Char) := run1 (fun c ↦ isPlain c && c ≠ '"' && c ≠ '\\')

/-- An escape as a piece of a text. -/
def escapePiece : Reader (List Char) := do return [← escape]

/-- A text in quotes. -/
def quoted : Reader String := do
  let _ ← char '"'
  let pieces ← many (plainInQuotes <|> escapePiece)
  let _ ← char '"'
  return .ofList pieces.flatten

/-- A text in apostrophes. -/
def verbatim : Reader String := do
  let _ ← char '\''
  let chars ← optional (plainBefore '\'')
  let _ ← char '\''
  return .ofList (chars.getD [])

/-- A backslash at the end of a line, with all blanks and line ends up to the next character. -/
def continuation : Reader Unit := do
  let _ ← char '\\'
  spaces
  newline
  let _ ← many (newline <|> (do let _ ← run1 isSpace))

/-- One mark, unless three stand together. -/
def loneMark (mark : Char) : Reader Char := fun chars ↦
  if chars.take 3 = [mark, mark, mark] then none else char mark chars

/-- The end of a text on several lines.  Up to two marks before the last three belong to it. -/
def closing (mark : Char) : Reader (List Char) := do
  let marks ← run (· = mark)
  if 3 ≤ marks.length ∧ marks.length ≤ 5 then return marks.drop 3 else failure

/-- A text on several lines, made of pieces; a line end right after the opening is dropped. -/
def tripled (mark : Char) (piece : Reader (List Char)) : Reader String := do
  let _ ← text (String.ofList [mark, mark, mark])
  let _ ← optional newline
  let pieces ← many piece
  return .ofList (pieces.flatten ++ (← closing mark))

def quotedLines : Reader String :=
  tripled '"' <|
    plainInQuotes <|> (do continuation; return []) <|> escapePiece <|>
      (do newline; return ['\n']) <|> (do return [← loneMark '"'])

def verbatimLines : Reader String :=
  tripled '\'' <|
    plainBefore '\'' <|> (do newline; return ['\n']) <|> (do return [← loneMark '\''])

/-- A text of any form. -/
def anyText : Reader String := quotedLines <|> quoted <|> verbatimLines <|> verbatim

end BinaryNames.Toml
