import BinaryNames.Path

/-!
# Packages and Directories

The directories between a source root and a file spell the package of the file, and a package with
a simple name spells the path at which the type is expected.
-/

namespace BinaryNames

/-- The last of the elements with the greatest key. -/
def lastMaxBy {α : Type} (key : α → Nat) (l : List α) : Option α :=
  l.foldl (fun best a ↦
    match best with
    | none => some a
    | some b => if key b ≤ key a then some a else some b) none

namespace Package

/-- The root with the most components among those that contain `file`. -/
def deepestRoot (file : Path) (roots : List Path) : Option Path :=
  lastMaxBy (fun root ↦ root.components.length) (roots.filter file.isUnder)

/-- The names of the directories that lead from `root` to a file. -/
def directoryNames (file root : Path) : List (List UInt8) :=
  let below := file.components.drop root.components.length
  ((Path.parentComponents? below).getD []).filterMap Component.name?

/-- The dotted package that the place of `file` under its deepest source root spells. -/
def ofFile? (file : Path) (roots : List Path) : Option String :=
  (deepestRoot file roots).map fun root ↦
    String.intercalate "." ((directoryNames file root).map Utf8.decodeLossy)

/-- Where the file of a top-level type is expected, relative to a source root. -/
def sourcePath (package simpleName : String) : Path :=
  let segments := (splitOn '.' package.toList).filter (· ≠ [])
  let directory : Path := segments.foldl (fun p s ↦ Path.join p (.ofString (.ofList s))) ⟨[]⟩
  directory.join (.ofString (simpleName ++ ".java"))

end Package

end BinaryNames
