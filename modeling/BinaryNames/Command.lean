import BinaryNames.Query

/-!
# Commands

The command line names a directory and asks one question about the workspace in it.  Options may
stand anywhere before a lone `--`; after it every word is an operand.
-/

namespace BinaryNames

/-- A question about a workspace. -/
inductive Request where
  | nameAt (input : String) (line : Int)
  | locationOf (name : String) (line : Int) (json : Bool)
  | types (name : String)
  | symbols (file : String) (json : Bool)
deriving DecidableEq, Repr

structure Command where
  /-- The directory of the workspace. -/
  root : String
  request : Request
deriving DecidableEq, Repr

namespace Command

/-- A whole number of 64 bits, with an optional sign. -/
def line? (text : String) : Option Int :=
  let (negative, digits) := match text.toList with
    | '-' :: digits => (true, digits)
    | '+' :: digits => (false, digits)
    | digits => (false, digits)
  if digits.isEmpty || !digits.all Char.isDigit then none
  else
    let value : Int := valueIn 10 digits
    let value := if negative then -value else value
    if -Int.pow 2 63 ≤ value ∧ value < Int.pow 2 63 then some value else none

/-- What the kinds of question look like on the command line. -/
inductive Verb where
  | nameAt
  | locationOf
  | types
  | symbols
deriving DecidableEq, Repr

namespace Verb

def ofWord? : String → Option Verb
  | "name-at" => some nameAt
  | "location-of" => some locationOf
  | "types" => some types
  | "symbols" => some symbols
  | _ => none

/-- Whether the answer can be asked for as JSON. -/
def hasJson : Verb → Bool
  | nameAt => false
  | locationOf => true
  | types => false
  | symbols => true

/-- Whether the operand at a position is a line number, which may be negative. -/
def isLineAt : Verb → Nat → Bool
  | nameAt, 1 => true
  | locationOf, 1 => true
  | _, _ => false

def request? (verb : Verb) (operands : List String) (json : Bool) : Option Request :=
  match verb, operands with
  | nameAt, [input, line] => (line? line).map (.nameAt input)
  | locationOf, [name, line] => (line? line).map (.locationOf name · json)
  | types, [name] => some (.types name)
  | symbols, [file] => if file = "" then none else some (.symbols file json)
  | _, _ => none

end Verb

/-- What has been read of a command line: the directories before and after the verb, the flag for
JSON and the operands so far. -/
structure Reading where
  verb : Option Verb := none
  outerRoot : Option String := none
  innerRoot : Option String := none
  json : Bool := false
  operands : List String := []
  /-- Whether the next word is the directory of the workspace. -/
  awaitsRoot : Bool := false
  /-- Whether only operands follow. -/
  operandsOnly : Bool := false

namespace Reading

/-- Takes the directory of the workspace, once before the verb and once after it. -/
def setRoot? (r : Reading) (root : String) : Option Reading :=
  if root = "" then none
  else if r.verb.isNone then
    if r.outerRoot.isSome then none
    else some { r with outerRoot := some root, awaitsRoot := false }
  else if r.innerRoot.isSome then none
  else some { r with innerRoot := some root, awaitsRoot := false }

/-- Takes the verb or an operand. -/
def addWord? (r : Reading) (word : String) : Option Reading :=
  match r.verb with
  | some _ => some { r with operands := r.operands ++ [word] }
  | none =>
    if r.operandsOnly then none
    else (Verb.ofWord? word).map fun verb ↦ { r with verb := some verb }

def setJson? (r : Reading) : Option Reading :=
  if r.json || !r.verb.any Verb.hasJson then none else some { r with json := true }

/-- Whether a word that starts with a hyphen may be a number here. -/
def takesNegative (r : Reading) (digits : List Char) : Bool :=
  r.verb.any (·.isLineAt r.operands.length) && !digits.isEmpty && digits.all Char.isDigit

/-- Takes a word that is no option. -/
def addValue? (r : Reading) (word : String) : Option Reading :=
  if r.awaitsRoot then r.setRoot? word else r.addWord? word

def step? (r : Reading) (word : String) : Option Reading :=
  if r.operandsOnly then r.addWord? word
  else match word.toList with
    | '-' :: '-' :: option =>
      if r.awaitsRoot then none
      else if option = [] then some { r with operandsOnly := true }
      else if option = "root".toList then some { r with awaitsRoot := true }
      else if option = "json".toList then r.setJson?
      else if option.take 5 = "root=".toList then r.setRoot? (.ofList (option.drop 5))
      else none
    | '-' :: digit :: digits =>
      if r.takesNegative (digit :: digits) then r.addValue? word else none
    | _ => r.addValue? word

/-- The command, when nothing is missing. -/
def command? (r : Reading) : Option Command := do
  if r.awaitsRoot then none
  let request ← (← r.verb).request? r.operands r.json
  return ⟨(r.innerRoot.or r.outerRoot).getD ".", request⟩

end Reading

/-- The command that the words of a command line spell. -/
def ofWords? (words : List String) : Option Command :=
  (words.foldlM Reading.step? {}).bind Reading.command?

/-- One line of output. -/
def outputLine (text : String) : String := text ++ "\n"

def handleLine : TypeHandle → String
  | .binary libraryId topLevel => outputLine s!"binary  {topLevel}  {libraryId}"
  | .source file project topLevel => outputLine s!"source  {topLevel}  {project}  {file.display}"

def summaryLine (file : String) (t : Query.TypeSummary) : String :=
  outputLine s!"{file}:{t.firstLine}-{t.lastLine}  {t.binaryName}"

/-- What is printed in answer to a question. -/
def answer (s : Snapshot) (w : Workspace) : Request → Except Error String
  | .nameAt input line => do return outputLine (← Query.nameAt s w input line)
  | .locationOf name line json => do
    let location ← Query.locationOf s w false name line
    return outputLine (if json then location.toJson.pretty 0 else location.display)
  | .types name => do
    match ← TypeSearch.find s w false name with
    | [] => throw (.typeNotFound name)
    | handles => return String.join (handles.map handleLine)
  | .symbols file json => do
    let summaries ← Query.declarationsIn s w (.ofString file)
    if json then
      return outputLine ((JsonValue.array (summaries.map Query.TypeSummary.toJson)).pretty 0)
    else return String.join (summaries.map (summaryLine file))

/-- The files and directories that matter for an answer. -/
def places (s : Snapshot) (w : Workspace) : Request → List Path
  | .nameAt input _ =>
    match FileUri.path? input with
    | .ok (some file) => [file]
    | _ => []
  | .locationOf name .. | .types name =>
    match TypeName.ofBinaryName? name with
    | none => []
    | some t =>
      let roots := w.projects.flatMap (·.sourceRoots)
      roots.map (fun root ↦ TypeSearch.directoryOf (TypeSearch.expectedFile t root)) ++
        w.libraries.filterMap (·.archive)
  | .symbols file _ => [(s.absolute (.ofString file)).normalize]

/-- How a run ends. -/
inductive Outcome where
  /-- The words spell no command. -/
  | misused
  | answered (output : String)
  | failed (error : Error)

/-- The exit code for a failure: what was asked for does not exist, the question is malformed, or
something else went wrong. -/
def exitCode (error : Error) : UInt8 :=
  if error.isNotFound then 1
  else match error with
    | .malformedInput _ => 2
    | _ => 3

def Outcome.code : Outcome → UInt8
  | misused => 2
  | answered _ => 0
  | failed error => exitCode error

/-- Carries out a command in a snapshot of the file system. -/
def execute (s : Snapshot) (command : Command) : Except Error String := do
  let workspace ← Workspace.load s (.ofString command.root)
  answer s workspace command.request

def run (s : Snapshot) (words : List String) : Outcome :=
  match ofWords? words with
  | none => .misused
  | some command =>
    match execute s command with
    | .ok output => .answered output
    | .error error => .failed error

end Command

end BinaryNames
