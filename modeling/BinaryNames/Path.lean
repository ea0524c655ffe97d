import BinaryNames.Text.Split
import BinaryNames.Text.Utf8

/-!
# Paths

A path is a string of bytes cut into components by slashes.  Empty components are ignored, and so
is `.` except at the front of a relative path.  One path lies under another when its components
start with the other's.

Normalising drops every `.` and lets every `..` cancel the name before it.  At the root `..` goes
nowhere; at the front of a relative path it has nothing to cancel and stays.
-/

namespace BinaryNames

/-- One step of a path. -/
inductive Component where
  | root
  | current
  | parent
  | name (bytes : List UInt8)
deriving DecidableEq, Repr

namespace Component

/-- The bytes of a component; the root is written by the slash that follows it. -/
def bytes : Component → List UInt8
  | root => []
  | current => [46]
  | parent => [46, 46]
  | name b => b

/-- The component that stands between two slashes, if any. -/
def ofPiece? (piece : List UInt8) : Option Component :=
  if piece = [] then none
  else if piece = [46] then none
  else if piece = [46, 46] then some parent
  else some (name piece)

def name? : Component → Option (List UInt8)
  | name b => some b
  | _ => none

end Component

structure Path where
  bytes : List UInt8
deriving DecidableEq, Repr, Inhabited

namespace Path

/-- The separator of components. -/
def slash : UInt8 := 47

/-- Bytes that can be the name of a file: no slash cuts them, and they are no step of their own. -/
structure IsFileName (b : List UInt8) : Prop where
  ne_nil : b ≠ []
  slash_notMem : slash ∉ b
  ne_current : b ≠ [46]
  ne_parent : b ≠ [46, 46]

theorem isFileName_iff {b : List UInt8} :
    b ≠ [] ∧ slash ∉ b ∧ b ≠ [46] ∧ b ≠ [46, 46] ↔ IsFileName b :=
  ⟨fun ⟨hnil, hslash, hcurrent, hparent⟩ ↦ ⟨hnil, hslash, hcurrent, hparent⟩,
    fun h ↦ ⟨h.ne_nil, h.slash_notMem, h.ne_current, h.ne_parent⟩⟩

instance (b : List UInt8) : Decidable (IsFileName b) :=
  decidable_of_decidable_of_iff isFileName_iff

def ofString (text : String) : Path := ⟨Utf8.encode text⟩

/-- The path as text, for messages. -/
def display (p : Path) : String := Utf8.decodeLossy p.bytes

def isAbsolute (p : Path) : Bool := p.bytes.head? == some slash

def pieces (p : Path) : List (List UInt8) := splitOn slash p.bytes

def components (p : Path) : List Component :=
  let steps := p.pieces.filterMap Component.ofPiece?
  if p.isAbsolute then .root :: steps
  else if p.pieces.head? = some [46] then .current :: steps
  else steps

def ofComponents : List Component → Path
  | .root :: steps => ⟨slash :: joinWith slash (steps.map Component.bytes)⟩
  | steps => ⟨joinWith slash (steps.map Component.bytes)⟩

/-- `other` as seen from `base`: an absolute path stands for itself. -/
def join (base other : Path) : Path :=
  if other.isAbsolute then other
  else if base.bytes = [] then other
  else if base.bytes.getLast? = some slash then ⟨base.bytes ++ other.bytes⟩
  else ⟨base.bytes ++ slash :: other.bytes⟩

/-- Whether the components of `root` begin those of `p`. -/
def isUnder (p root : Path) : Bool := root.components.isPrefixOf p.components

def fileName? (p : Path) : Option (List UInt8) :=
  p.components.getLast?.bind Component.name?

/-- What follows the last dot of the file name; a name that only starts with a dot has no
extension. -/
def extension? (p : Path) : Option (List UInt8) :=
  p.fileName?.bind fun name ↦
    let tail := (name.reverse.takeWhile (· ≠ 46)).reverse
    if name.length ≤ tail.length + 1 then none else some tail

/-- The path of what contains `p`, unless `p` is the root or empty. -/
def parentComponents? (steps : List Component) : Option (List Component) :=
  match steps.getLast? with
  | none => none
  | some .root => none
  | some _ => some steps.dropLast

/-! ## Normal form -/

/-- One more component on a stack whose top is the head of the list. -/
def pushNormal (stack : List Component) (c : Component) : List Component :=
  match c with
  | .current => stack
  | .parent =>
    match stack with
    | .name _ :: below => below
    | .root :: _ => stack
    | _ => .parent :: stack
  | _ => c :: stack

def normalComponents (steps : List Component) : List Component :=
  (steps.foldl pushNormal []).reverse

/-- The path without `.` and without any `..` that can be carried out. -/
def normalize (p : Path) : Path := ofComponents (normalComponents p.components)

end Path

/-- The name of an entry of a directory. -/
structure FileName where
  bytes : List UInt8
  isFileName : Path.IsFileName bytes
deriving DecidableEq

def FileName.ofBytes? (bytes : List UInt8) : Option FileName :=
  if h : Path.IsFileName bytes then some ⟨bytes, h⟩ else none

end BinaryNames
