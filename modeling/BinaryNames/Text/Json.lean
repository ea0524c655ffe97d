import BinaryNames.Text.Character

/-!
# JSON Values

Values are printed with their fields in the given order, on one line or indented by two blanks.
-/

namespace BinaryNames

inductive JsonValue where
  | bool (value : Bool)
  | number (value : Int)
  | text (value : String)
  | array (items : List JsonValue)
  | object (fields : List (String × JsonValue))
deriving Repr, Inhabited

namespace JsonValue

/-- A character as it is written between quotes: marks and controls are escaped. -/
def escapeChar (c : Char) : List Char :=
  match c with
  | '"' => ['\\', '"']
  | '\\' => ['\\', '\\']
  | '\x08' => ['\\', 'b']
  | '\x0c' => ['\\', 'f']
  | '\n' => ['\\', 'n']
  | '\r' => ['\\', 'r']
  | '\t' => ['\\', 't']
  | _ =>
    if c.toNat < 0x20 then
      ['\\', 'u', '0', '0', (hexDigit (c.toNat / 16)).toLower, (hexDigit (c.toNat % 16)).toLower]
    else [c]

def quote (text : String) : String :=
  "\"" ++ String.ofList (text.toList.flatMap escapeChar) ++ "\""

mutual

/-- The value on one line, without blanks. -/
def compact : JsonValue → String
  | bool b => if b then "true" else "false"
  | number n => toString n
  | text s => quote s
  | array items => "[" ++ compactItems items ++ "]"
  | object fields => "\x7b" ++ compactFields fields ++ "\x7d"

def compactItems : List JsonValue → String
  | [] => ""
  | [item] => item.compact
  | item :: rest => item.compact ++ "," ++ compactItems rest

def compactFields : List (String × JsonValue) → String
  | [] => ""
  | [(name, value)] => quote name ++ ":" ++ value.compact
  | (name, value) :: rest => quote name ++ ":" ++ value.compact ++ "," ++ compactFields rest

end

/-- A line break and the blanks of a level. -/
def newLine (level : Nat) : String := "\n" ++ String.ofList (List.replicate (2 * level) ' ')

mutual

/-- The value with each item and field on a line of its own. -/
def pretty (level : Nat) : JsonValue → String
  | array [] => "[]"
  | array items => "[" ++ prettyItems (level + 1) items ++ newLine level ++ "]"
  | object [] => "\x7b\x7d"
  | object fields => "\x7b" ++ prettyFields (level + 1) fields ++ newLine level ++ "\x7d"
  | bool b => if b then "true" else "false"
  | number n => toString n
  | text s => quote s

def prettyItems (level : Nat) : List JsonValue → String
  | [] => ""
  | [item] => newLine level ++ item.pretty level
  | item :: rest => newLine level ++ item.pretty level ++ "," ++ prettyItems level rest

def prettyFields (level : Nat) : List (String × JsonValue) → String
  | [] => ""
  | [(name, value)] => newLine level ++ quote name ++ ": " ++ value.pretty level
  | (name, value) :: rest =>
    newLine level ++ quote name ++ ": " ++ value.pretty level ++ "," ++ prettyFields level rest

end

end JsonValue

end BinaryNames
