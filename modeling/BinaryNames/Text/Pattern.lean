/-!
# Patterns

Regular expressions over classes of characters.  A text is matched character by character: what is
left of the pattern after one character has to match the rest of the text.
-/

namespace BinaryNames

inductive Pattern where
  /-- Matches no text. -/
  | nothing
  /-- Matches the text without characters. -/
  | empty
  /-- Matches one character of a class. -/
  | one (inClass : Char → Bool)
  | either (p q : Pattern)
  | followedBy (p q : Pattern)
  /-- Matches any number of texts in a row. -/
  | many (p : Pattern)

namespace Pattern

/-- Whether the text without characters is matched. -/
def acceptsEmpty : Pattern → Bool
  | nothing | one _ => false
  | empty | many _ => true
  | either p q => p.acceptsEmpty || q.acceptsEmpty
  | followedBy p q => p.acceptsEmpty && q.acceptsEmpty

/-- The alternative, without a side that matches nothing. -/
def either' : Pattern → Pattern → Pattern
  | nothing, q => q
  | p, nothing => p
  | p, q => either p q

/-- The sequence, which matches nothing if its first pattern does not. -/
def followedBy' : Pattern → Pattern → Pattern
  | nothing, _ => nothing
  | empty, q => q
  | p, q => followedBy p q

/-- What is left of the pattern after a character. -/
def after (c : Char) : Pattern → Pattern
  | nothing | empty => nothing
  | one inClass => if inClass c then empty else nothing
  | either p q => either' (p.after c) (q.after c)
  | followedBy p q =>
    if p.acceptsEmpty then either' (followedBy' (p.after c) q) (q.after c)
    else followedBy' (p.after c) q
  | many p => followedBy' (p.after c) (many p)

/-- Whether the pattern matches the whole text. -/
def accepts (p : Pattern) (text : List Char) : Bool :=
  (text.foldl (fun p c ↦ p.after c) p).acceptsEmpty

end Pattern

end BinaryNames
