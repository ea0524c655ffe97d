import BinaryNames.Path

/-!
# File System Snapshots

What the queries see of the file system: a tree of directories and files, and the directory that
relative paths start from.  A path is followed step by step, so going up leads to the directory that
was actually entered, and only directories can be entered.  Nothing is at the empty path.
-/

namespace BinaryNames

inductive FileEntry where
  | file (content : ByteArray)
  | directory (entries : List (FileName × FileEntry))
deriving Inhabited

/-- Why a file cannot be read. -/
inductive ReadFault where
  | missing
  | notDirectory
  | isDirectory
  | notText
deriving DecidableEq, Repr

def ReadFault.message : ReadFault → String
  | missing => "No such file or directory (os error 2)"
  | notDirectory => "Not a directory (os error 20)"
  | isDirectory => "Is a directory (os error 21)"
  | notText => "stream did not contain valid UTF-8"

namespace FileEntry

def empty : FileEntry := directory []

/-- The entry of a directory with a given name. -/
def child? (name : List UInt8) : FileEntry → Option FileEntry
  | file _ => none
  | directory entries => (entries.find? fun e ↦ e.1.bytes = name).map Prod.snd

/-- The names in a directory. -/
def names : FileEntry → List FileName
  | file _ => []
  | directory entries => entries.map Prod.fst

def isDirectory : FileEntry → Bool
  | file _ => false
  | directory _ => true

/-- The directory with an entry set; a file stays as it is. -/
def setChild (here : FileEntry) (name : FileName) (entry : FileEntry) : FileEntry :=
  match here with
  | file content => file content
  | directory entries =>
    if entries.any fun e ↦ e.1 = name then
      directory (entries.map fun (n, e) ↦ if n = name then (n, entry) else (n, e))
    else directory (entries ++ [(name, entry)])

/-- Puts an entry at the end of a path of names, with directories on the way to it. -/
def insert (here entry : FileEntry) : List FileName → FileEntry
  | [] => entry
  | name :: names =>
    here.setChild name (insert ((here.child? name.bytes).getD empty) entry names)

/-- Removes what is at the end of a path of names. -/
def remove (here : FileEntry) : List FileName → FileEntry
  | [] => here
  | name :: names =>
    match names, here with
    | _, file content => file content
    | [], directory entries => directory (entries.filter fun e ↦ e.1 ≠ name)
    | _, _ =>
      match here.child? name.bytes with
      | some inner => here.setChild name (remove inner names)
      | none => here

/-- Follows the steps of a path from an entry; `above` are the directories it was reached through,
the last first. -/
def follow (above : List FileEntry) (here : FileEntry) :
    List Component → Except ReadFault FileEntry
  | [] => .ok here
  | step :: steps =>
    if here.isDirectory then
      match step with
      | .name name =>
        match here.child? name with
        | some inner => follow (here :: above) inner steps
        | none => .error .missing
      | .parent =>
        match above with
        | outer :: above => follow above outer steps
        | [] => follow [] here steps
      | .current | .root => follow above here steps
    else .error .notDirectory

end FileEntry

structure Snapshot where
  root : FileEntry
  workingDirectory : Path
deriving Inhabited

namespace Snapshot

/-- A path as seen from the root. -/
def absolute (s : Snapshot) (path : Path) : Path := s.workingDirectory.join path

def entry (s : Snapshot) (path : Path) : Except ReadFault FileEntry :=
  if path.bytes = [] then .error .missing else s.root.follow [] (s.absolute path).components

def readBytes (s : Snapshot) (path : Path) : Except ReadFault ByteArray :=
  match s.entry path with
  | .ok (.file content) => .ok content
  | .ok (.directory _) => .error .isDirectory
  | .error fault => .error fault

def readText (s : Snapshot) (path : Path) : Except ReadFault String :=
  match s.readBytes path with
  | .ok content => (String.fromUTF8? content).elim (.error .notText) .ok
  | .error fault => .error fault

def isFile (s : Snapshot) (path : Path) : Bool :=
  match s.entry path with
  | .ok (.file _) => true
  | _ => false

/-- The names in a directory in the order of their bytes; none if there is no such directory. -/
def names (s : Snapshot) (path : Path) : List (List UInt8) :=
  match s.entry path with
  | .ok entry => (entry.names.map FileName.bytes).mergeSort (fun a b ↦ a ≤ b)
  | .error _ => []

/-- The names on the way from the root to a path, after carrying out its `..`. -/
def namesTo (s : Snapshot) (path : Path) : List FileName :=
  (s.absolute path).normalize.components.filterMap fun c ↦ c.name?.bind FileName.ofBytes?

/-- The snapshot with an entry put at a path. -/
def put (s : Snapshot) (path : Path) (entry : FileEntry) : Snapshot :=
  if path.bytes = [] then s else { s with root := s.root.insert entry (s.namesTo path) }

/-- The snapshot after writing a file. -/
def writeFile (s : Snapshot) (path : Path) (content : ByteArray) : Snapshot :=
  s.put path (.file content)

/-- The snapshot after making a directory, if there is none. -/
def makeDirectory (s : Snapshot) (path : Path) : Snapshot :=
  match s.entry path with
  | .ok _ => s
  | .error _ => s.put path .empty

/-- The snapshot after removing a file or a directory with all that is in it. -/
def remove (s : Snapshot) (path : Path) : Snapshot :=
  if path.bytes = [] then s else { s with root := s.root.remove (s.namesTo path) }

end Snapshot

end BinaryNames
