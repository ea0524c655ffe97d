/-!
# Readers

A reader takes something off the front of a text or fails.  After a failure the next choice starts
where the failed one did.
-/

namespace BinaryNames

abbrev Reader (α : Type) := StateT (List Char) Option α

namespace Reader

/-- Takes one character of a kind. -/
def satisfy (p : Char → Bool) : Reader Char := fun chars ↦
  match chars with
  | c :: rest => if p c then some (c, rest) else none
  | [] => none

def char (c : Char) : Reader Char := satisfy (· = c)

/-- Takes exactly the given text. -/
def text (expected : String) : Reader Unit := fun chars ↦
  let length := expected.toList.length
  if chars.take length = expected.toList then some ((), chars.drop length) else none

/-- Takes the longest run of characters of a kind. -/
def run (p : Char → Bool) : Reader (List Char) := fun chars ↦
  some (chars.takeWhile p, chars.dropWhile p)

/-- Takes the longest run of characters of a kind, at least one. -/
def run1 (p : Char → Bool) : Reader (List Char) := do
  let chars ← run p
  if chars.isEmpty then failure else return chars

/-- Takes exactly `n` characters of a kind. -/
def exactly (n : Nat) (p : Char → Bool) : Reader (List Char) := fun chars ↦
  let taken := chars.take n
  if taken.length = n ∧ taken.all p then some (taken, chars.drop n) else none

/-- Succeeds at the end only. -/
def done : Reader Unit := fun chars ↦ if chars.isEmpty then some ((), []) else none

/-- What the reader takes, in place of what it makes of it. -/
def spelling {α : Type} (item : Reader α) : Reader (List Char) := fun chars ↦
  (item chars).map fun (_, rest) ↦ (chars.take (chars.length - rest.length), rest)

/-- Takes items as long as there are any and each takes something. -/
def many {α : Type} (item : Reader α) (chars : List Char) : Option (List α × List Char) :=
  match item chars with
  | none => some ([], chars)
  | some (a, rest) =>
    if rest.length < chars.length then
      (many item rest).map fun (items, last) ↦ (a :: items, last)
    else some ([a], rest)
termination_by chars.length

/-- Takes items with a separator between neighbours, at least one. -/
def separated {α β : Type} (item : Reader α) (separator : Reader β) : Reader (List α) := do
  let first ← item
  let others ← many (separator *> item)
  return first :: others

/-- The result when the reader takes the whole text. -/
def whole? {α : Type} (item : Reader α) (chars : List Char) : Option α :=
  (item chars).bind fun (a, rest) ↦ if rest.isEmpty then some a else none

end Reader

end BinaryNames
