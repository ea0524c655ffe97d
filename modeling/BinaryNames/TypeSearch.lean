import BinaryNames.Archive
import BinaryNames.Cancellation
import BinaryNames.Java.Declarations
import BinaryNames.Snapshot
import BinaryNames.TypeName
import BinaryNames.Workspace.Basic

/-!
# Searching for Types

The declarations of a top-level type are sought in the sources of every project, then in every
library.  In a package directory the file named for the type comes first, and only if it does not
declare the type are the other files read.
-/

namespace BinaryNames

/-- A place that declares a type. -/
inductive TypeHandle where
  | source (file : Path) (project topLevel : String)
  | binary (libraryId topLevel : String)
deriving DecidableEq, Repr

namespace TypeSearch

/-- Whether a file declares a top-level type.  One that cannot be read declares nothing. -/
def fileDeclares (s : Snapshot) (t : TypeName) (file : Path) : Bool :=
  match s.readText file with
  | .error _ => false
  | .ok source =>
    match Java.declarations file source (some t.package) with
    | .error _ => false
    | .ok tree =>
      tree.topLevelTypes.any fun id ↦
        (tree.node? id).any fun node ↦ node.qualifiedName = some t.qualified

/-- The file in which a type is expected under a source root. -/
def expectedFile (t : TypeName) (root : Path) : Path :=
  root.join (Package.sourcePath t.package t.simpleName)

/-- The directory that holds a file. -/
def directoryOf (file : Path) : Path := .ofComponents file.components.dropLast

/-- The other Java files of the package directory, in the order of their names. -/
def otherFiles (s : Snapshot) (expected : Path) : List Path :=
  let directory := directoryOf expected
  ((s.names directory).map fun name ↦ directory.join ⟨name⟩).filter fun file ↦
    file.components ≠ expected.components && Java.isJavaFile file

/-- The files under a source root that declare a type. -/
def filesUnder (s : Snapshot) (t : TypeName) (root : Path) : List Path :=
  let expected := expectedFile t root
  if s.isFile expected && fileDeclares s t expected then [expected]
  else (otherFiles s expected).filter (fileDeclares s t)

def filesIn (s : Snapshot) (t : TypeName) (project : Project) : List Path :=
  project.sourceRoots.flatMap (filesUnder s t)

/-- The archive entry of a type. -/
def classEntry (topLevel : String) : String :=
  String.ofList (topLevel.toList.map fun c ↦ if c = '.' then '/' else c) ++ ".class"

/-- Whether an archive has an entry for a type. -/
def archiveDeclares (s : Snapshot) (archive : Path) (topLevel : String) : Except Error Bool :=
  let unreadable reason := .error (.archiveUnreadable archive reason)
  match s.readBytes archive with
  | .error .isDirectory => unreadable ArchiveFault.cutShort.message
  | .error fault => unreadable fault.message
  | .ok bytes =>
    match Archive.contains bytes (classEntry topLevel) with
    | .error fault => unreadable fault.message
    | .ok found => .ok found

/-- Whether a library declares a type, by its list or by its archive. -/
def libraryDeclares (s : Snapshot) (library : Library) (topLevel : String) : Except Error Bool :=
  if library.types.any fun t ↦ TypeName.outerName t = topLevel then .ok true
  else match library.archive with
    | none => .ok false
    | some archive => archiveDeclares s archive topLevel

/-- What a search has come to: the places so far, and the first error that a library gave. -/
structure Progress where
  found : List TypeHandle := []
  unreadable : Option Error := none

namespace Progress

/-- Adds the places in the sources of a project. -/
def addProject (s : Snapshot) (t : TypeName) (p : Progress) (project : Project) : Progress :=
  { p with found := p.found ++
      (filesIn s t project).map fun file ↦ .source file project.name t.qualified }

/-- Adds a library that declares the type.  One that cannot be read is passed over. -/
def addLibrary (s : Snapshot) (t : TypeName) (p : Progress) (library : Library) : Progress :=
  match libraryDeclares s library t.qualified with
  | .ok true => { p with found := p.found ++ [.binary library.id t.qualified] }
  | .ok false => p
  | .error e => { p with unreadable := p.unreadable.or (some e) }

/-- What the search has found.  An error matters only when that is nothing. -/
def result (p : Progress) : Except Error (List TypeHandle) :=
  match p.found, p.unreadable with
  | [], some e => .error e
  | found, _ => .ok found

end Progress

/-- Goes through projects or libraries and looks at the token before each of them; `polls n` tells
whether it has been cancelled when it is looked at after `n` other times. -/
def scan {α : Type} (polls : Nat → Bool) (add : Progress → α → Progress) (n : Nat) (p : Progress) :
    List α → Except Error Progress
  | [] => .ok p
  | place :: places => do
    checkCancelled (polls n)
    scan polls add (n + 1) (add p place) places

/-- Every place that declares the top-level type of a binary name: sources first, then libraries.
The token may be cancelled while the search goes on. -/
def search (s : Snapshot) (w : Workspace) (polls : Nat → Bool) (name : String) :
    Except Error (List TypeHandle) := do
  let t ← TypeName.ofBinaryName name
  let p ← scan polls (.addProject s t) 0 {} w.projects
  let p ← scan polls (.addLibrary s t) w.projects.length p w.libraries
  p.result

/-- The search with a token that stays as it is. -/
def find (s : Snapshot) (w : Workspace) (cancelled : Bool) (name : String) :
    Except Error (List TypeHandle) :=
  search s w (fun _ ↦ cancelled) name

end TypeSearch

end BinaryNames
