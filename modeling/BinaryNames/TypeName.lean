import BinaryNames.Error
import BinaryNames.Text.Character
import BinaryNames.Text.Pattern

/-!
# Names of Top-Level Types

Everything after the first `$` of a binary name speaks of what is nested in a top-level type.  The
part before it is a dotted sequence of identifiers: the package and the simple name.
-/

namespace BinaryNames

/-- A top-level type. -/
structure TypeName where
  package : String
  simpleName : String
deriving DecidableEq, Repr, Inhabited

namespace TypeName

/-- Where a text first occurs in another one. -/
def indexOf? (part : List Char) : List Char → Option Nat
  | [] => if part.isEmpty then some 0 else none
  | c :: rest =>
    if part.isPrefixOf (c :: rest) then some 0 else (indexOf? part rest).map (· + 1)

/-- The text up to the first marker of something nested, be it the `$` of a member or the `$$` of a
lambda. -/
def outerPart (text : List Char) : List Char :=
  let cuts := (indexOf? ['$', '$'] text).toList ++ (indexOf? ['$'] text).toList
  match cuts.min? with
  | some cut => text.take cut
  | none => text

/-- The name up to the first `$`. -/
def outerName (name : String) : String := String.ofList (outerPart name.toList)

def isIdentifierStart (c : Char) : Bool := isLetter c || c = '_'

def isIdentifierPart (c : Char) : Bool := isLetter c || isNumber c || c = '_'

/-- Packages with a dot after each, which may have a `$` in them, and then a simple name. -/
def qualifiedName : Pattern :=
  let package := .followedBy (.one fun c ↦ isIdentifierStart c || c = '$')
    (.followedBy (.many (.one fun c ↦ isIdentifierPart c || c = '$')) (.one (· = '.')))
  .followedBy (.many package) (.followedBy (.one isIdentifierStart) (.many (.one isIdentifierPart)))

/-- What stands before and after the last dot. -/
def splitAtLastDot? (text : List Char) : Option (List Char × List Char) :=
  let after := (text.reverse.takeWhile (· ≠ '.')).reverse
  if after.length = text.length then none
  else some (text.take (text.length - after.length - 1), after)

/-- The package and simple name of the top-level type that a binary name speaks of. -/
def ofBinaryName? (name : String) : Option TypeName :=
  let outer := outerPart (trimBlanks name.toList)
  if qualifiedName.accepts outer then
    match splitAtLastDot? outer with
    | some (package, simple) => some ⟨.ofList package, .ofList simple⟩
    | none => some ⟨"", .ofList outer⟩
  else none

/-- The top-level type that a binary name speaks of; any other text is malformed input. -/
def ofBinaryName (name : String) : Except Error TypeName :=
  match ofBinaryName? name with
  | some t => .ok t
  | none => .error (.malformedInput s!"`{name}` is not a binary class name")

/-- The name with its package. -/
def qualified (t : TypeName) : String :=
  if t.package = "" then t.simpleName else t.package ++ "." ++ t.simpleName

end TypeName

end BinaryNames
