import BinaryNames.Error
import BinaryNames.Package

/-!
# Workspaces

A workspace has projects, whose types are found in source files under their source roots, and
libraries, whose types are listed or found in an archive.
-/

namespace BinaryNames

structure Project where
  name : String
  root : Path
  sourceRoots : List Path
deriving DecidableEq, Repr, Inhabited

structure Library where
  id : String
  archive : Option Path
  /-- Names of types that the library is known to declare. -/
  types : List String
deriving DecidableEq, Repr, Inhabited

structure Workspace where
  projects : List Project := []
  libraries : List Library := []
deriving DecidableEq, Repr, Inhabited

namespace Workspace

/-- The project with the deepest root that contains a file; of equals, the last. -/
def projectFor? (w : Workspace) (file : Path) : Option Project :=
  lastMaxBy (fun p ↦ p.root.components.length)
    (w.projects.filter (fun p ↦ file.normalize.isUnder p.root))

/-- The project that owns a file. -/
def projectFor (w : Workspace) (file : Path) : Except Error Project :=
  match w.projectFor? file with
  | some p => .ok p
  | none => .error (.projectNotFound file.normalize)

end Workspace

end BinaryNames
