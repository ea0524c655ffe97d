import BinaryNames.Declaration.Naming
import BinaryNames.Report
import BinaryNames.Source.Lines
import BinaryNames.Text.Json
import BinaryNames.TypeSearch
import BinaryNames.Uri.File
import BinaryNames.Workspace.Config

/-!
# Queries

The questions that a workspace answers: which type a line of a file belongs to, where a type is
declared, and which types a file declares.
-/

namespace BinaryNames

/-- Where a type lives: in a library, of which only the name is known, or on a line of a source. -/
inductive Location where
  /-- A member of a library, under the name that was asked for. -/
  | archive (libraryId memberName : String)
  /-- A line of a source file. -/
  | source (fileUri : String) (span : Span)
deriving DecidableEq, Repr

namespace Location

def display : Location → String
  | archive libraryId memberName => s!"{libraryId}!{memberName}"
  | source fileUri span => s!"{fileUri}:{span.offset}..{span.stop}"

def toJson : Location → JsonValue
  | archive libraryId memberName =>
    .object [("kind", .text "archive"), ("library_id", .text libraryId),
      ("member_binary_name", .text memberName)]
  | source fileUri span =>
    .object [("kind", .text "source"), ("file_uri", .text fileUri),
      ("range", .object [("length", .number span.length), ("offset", .number span.offset)])]

end Location

namespace Snapshot

/-- The path as an absolute one; the empty path has none. -/
def absolute? (s : Snapshot) (path : Path) : Except Error Path :=
  if path.bytes = [] then .error (.io "cannot make an empty path absolute")
  else .ok (s.absolute path)

end Snapshot

/-- The file that describes the workspace in a directory. -/
def Workspace.configFile (directory : Path) : Path := directory.join (.ofString configFileName)

/-- The workspace that the file in a directory describes. -/
def Workspace.load (s : Snapshot) (directory : Path) : Except Error Workspace :=
  let file := configFile directory
  match s.readText file with
  | .error .missing => .error (.configNotFound file)
  | .error fault => .error (.io fault.message)
  | .ok text => do ofToml text (← s.absolute? directory)

namespace Query

/-- The name of the declaration on a line of a source. -/
def nameOnLine? (file : Path) (source : String) (package : String) (span : Span) :
    Option String :=
  match Java.declarations file source (some package) with
  | .error _ => none
  | .ok tree => (tree.find? span.offset span.stop).map tree.binaryName

/-- The binary name of the innermost type on a line of a file.  A text that is no file URI, or one
of a file outside the source roots, is returned as it is. -/
def nameAt (s : Snapshot) (w : Workspace) (input : String) (line : Int)
    (rule : FileUri.DriveRule := .keepBar) : Except Error String := do
  match ← FileUri.path? input rule with
  | none => return input
  | some file =>
    let project ← w.projectFor file
    match Package.ofFile? file project.sourceRoots with
    | none => return input
    | some package =>
      match s.readText file with
      | .error _ => throw (.locationNotResolvable file line)
      | .ok source =>
        let span ← (Lines.ofText source).span line
        match nameOnLine? file source package span with
        | none => throw (.locationNotResolvable file line)
        | some name => return name

/-- The place of a line in the file of a handle, or the member of its library. -/
def locationIn (s : Snapshot) (name : String) (line : Int) : TypeHandle → Except Error Location
  | .binary libraryId _ => .ok (.archive libraryId name)
  | .source file _ _ =>
    match s.readText file with
    | .error _ => .error (.fileNotFound file)
    | .ok source => do
      let span ← (Lines.ofText source).span line
      return .source (← FileUri.ofPath? file) span

/-- Where the type of a binary name is declared, with a line of its file. -/
def locationOf (s : Snapshot) (w : Workspace) (cancelled : Bool) (name : String) (line : Int) :
    Except Error Location := do
  match ← TypeSearch.find s w cancelled name with
  | [] => throw (.typeNotFound name)
  | first :: _ => locationIn s name line first

/-- A type that a file declares, with the lines that it covers. -/
structure TypeSummary where
  binaryName : String
  firstLine : Nat
  lastLine : Nat
  isAnonymous : Bool
  isLocal : Bool
deriving DecidableEq, Repr

namespace TypeSummary

def ofNode (tree : DeclarationTree) (lines : Lines) (id : Nat) (node : DeclarationNode) :
    TypeSummary where
  binaryName := tree.binaryName ⟨id, tree.chain id⟩
  firstLine := lines.lineOf node.span.offset
  lastLine := lines.lineOf (max (node.span.stop - 1) node.span.offset)
  isAnonymous := node.isAnonymous
  isLocal := node.isLocal

def toJson (t : TypeSummary) : JsonValue :=
  .object [("binary_name", .text t.binaryName), ("first_line", .number t.firstLine),
    ("is_anonymous", .bool t.isAnonymous), ("is_local", .bool t.isLocal),
    ("last_line", .number t.lastLine)]

end TypeSummary

/-- The types of a tree in the order of their declaration. -/
def summaries (tree : DeclarationTree) (lines : Lines) : List TypeSummary :=
  tree.nodes.toList.zipIdx.filterMap fun (node, id) ↦
    if node.kind = .type then some (TypeSummary.ofNode tree lines id node) else none

/-- The package that the place of a file in the workspace suggests. -/
def suggestedPackage? (w : Workspace) (file : Path) : Option String :=
  (w.projectFor? file).bind fun p ↦ Package.ofFile? file p.sourceRoots

/-- The types that a file declares. -/
def declarationsIn (s : Snapshot) (w : Workspace) (file : Path) :
    Except Error (List TypeSummary) := do
  let path := (← s.absolute? file).normalize
  match s.readText path with
  | .error _ => throw (.fileNotFound path)
  | .ok source =>
    let tree ← Java.declarations path source (suggestedPackage? w path)
    return summaries tree (Lines.ofText source)

end Query

end BinaryNames
