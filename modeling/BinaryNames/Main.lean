import BinaryNames.Command

/-!
# The Program

Takes what a command needs from the disk into a snapshot, carries the command out in it, and prints
the answer.
-/

namespace BinaryNames

/-- Adds a file or directory as it is on the disk; what is not there is left out. -/
def Snapshot.take (s : Snapshot) (path : Path) : IO Snapshot := do
  match ← (IO.FS.realPath path.display).toBaseIO with
  | .error _ => return s
  | .ok real =>
    if ← real.isDir then return s.makeDirectory path
    match ← (IO.FS.readBinFile real).toBaseIO with
    | .ok content => return s.writeFile path content
    | .error _ => return s

/-- Adds a file, or a directory with the files in it. -/
def Snapshot.takePlace (s : Snapshot) (place : Path) : IO Snapshot := do
  let mut s ← s.take place
  match ← (IO.FS.realPath place.display).toBaseIO with
  | .error _ => return s
  | .ok real =>
    if ← real.isDir then
      for entry in ← real.readDir do
        s ← s.take (place.join (.ofString entry.fileName))
    return s

/-- Adds every directory on the way to a file, and the file. -/
def Snapshot.takeWay (s : Snapshot) (file : Path) : IO Snapshot := do
  let steps := (s.absolute file).components
  (List.range (steps.length + 1)).foldlM (fun s n ↦ s.take (.ofComponents (steps.take n))) s

def Command.usage : String :=
  "usage: classloc [--root DIR] COMMAND\n\n" ++
  "  name-at FILE LINE\n  location-of NAME LINE [--json]\n  types NAME\n  symbols FILE [--json]\n"

/-- A snapshot with all that a command looks at. -/
def Command.gather (command : Command) : IO Snapshot := do
  let start : Snapshot := ⟨.empty, .ofString (← IO.currentDir).toString⟩
  let root := Path.ofString command.root
  let s ← start.takeWay (Workspace.configFile root)
  match Workspace.load s root with
  | .error _ => return s
  | .ok workspace => (places s workspace command.request).foldlM Snapshot.takePlace s

/-- Carries out the command that the words spell and gives the exit code. -/
def Command.runOnDisk (words : List String) : IO UInt32 := do
  match ofWords? words with
  | none =>
    IO.eprint usage
    return 2
  | some command =>
    match execute (← command.gather) command with
    | .ok output =>
      IO.print output
      return 0
    | .error error =>
      IO.eprint error.terminalReport
      return (exitCode error).toUInt32

end BinaryNames

def main (words : List String) : IO UInt32 := BinaryNames.Command.runOnDisk words
