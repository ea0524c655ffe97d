import BinaryNames.Error

/-!
# Error Reports

A failure is reported as a short markdown text: what happened and, where the user can act on it,
how to fix it.  On a terminal the headings of the text are set in bold.
-/

namespace BinaryNames

/-- The file that describes a workspace. -/
def configFileName : String := ".classloc.toml"

namespace Error

/-- The failure as markdown. -/
def report : Error → String
  | archiveUnreadable path reason =>
    "# Error: Archive Unreadable\n\n" ++
    s!"`{path.display}` could not be read as a jar: {reason}\n\n" ++
    "## Fix\n\n" ++
    s!"Check the `archive` path of the library in `{configFileName}`.\n"
  | cancelled => "# Cancelled\n\nThe lookup was cancelled before it finished.\n"
  | configNotFound path =>
    "# Error: Config Not Found\n\n" ++
    s!"`{path.display}` does not exist.\n\n" ++
    "## Fix\n\nCreate it with at least one project:\n\n" ++
    "    [[projects]]\n    name = \"app\"\n    source_roots = [\"src/main/java\"]\n"
  | fileNotFound path => s!"# Error: File Not Found\n\n`{path.display}` does not exist.\n"
  | fileTooLarge file size limit =>
    s!"# Error: File Too Large\n\n`{file.display}` is {size} bytes (max {limit}).\n"
  | io reason => s!"# Error: I/O\n\n{reason}\n"
  | locationNotResolvable file line =>
    "# Error: Location Not Resolvable\n\n" ++
    s!"Line {line} of `{file.display}` is not inside any type declaration.\n\n" ++
    "## Fix\n\nPick a line inside a class body, or list the declared types:\n\n" ++
    s!"    classloc symbols {file.display}\n"
  | malformedInput reason => s!"# Error: Malformed Input\n\n{reason}\n"
  | parseFailed file reason =>
    s!"# Error: Parse Failed\n\nCould not parse `{file.display}`: {reason}\n"
  | projectNotFound file =>
    "# Error: Project Not Found\n\n" ++
    s!"No configured project contains `{file.display}`.\n\n" ++
    "## Fix\n\nAdd a `[[projects]]` entry whose `root` contains the file to " ++
    s!"`{configFileName}`.\n"
  | invalidToml reason => s!"# Error: Invalid TOML\n\n{reason}\n"
  | typeNotFound name =>
    "# Error: Type Not Found\n\n" ++
    s!"No project or library declares the outer class of `{name}`.\n\n" ++
    "## Fix\n\nCheck the source roots and libraries in " ++
    s!"`{configFileName}`, or list matches:\n\n    classloc types {name}\n"
  | unsupportedLanguage extension =>
    "# Error: Unsupported Language\n\n" ++
    s!"No tree-sitter grammar for `.{extension}` files.\n\n" ++
    "## Supported extensions\n\n- `.java`: Java\n"

/-- The lines of a text: each ends at a line feed, and a carriage return before it is dropped.  An
empty last line does not count. -/
def reportLines (text : String) : List (List Char) :=
  let pieces := splitOn '\n' text.toList
  let whole := if pieces.getLast? = some [] then pieces.dropLast else pieces
  let closed := pieces.length - 1
  whole.zipIdx.map fun (piece, i) ↦
    if i < closed ∧ piece.getLast? = some '\r' then piece.dropLast else piece

/-- The report as written to a terminal. -/
def terminalReport (e : Error) : String :=
  let bold := "\x1b[1m"
  let plain := "\x1b[0m"
  (reportLines e.report).foldl (fun out line ↦
    let text := String.ofList line
    if line.head? = some '#' then out ++ bold ++ text ++ plain ++ "\n" else out ++ text ++ "\n") ""

end Error

end BinaryNames
