import BinaryNames.Path

/-!
# Errors

Every failure is a cause with the path, name, line or reason that it concerns.  `message` is the one
place where causes become text.
-/

namespace BinaryNames

inductive Error where
  | archiveUnreadable (path : Path) (reason : String)
  | cancelled
  | configNotFound (path : Path)
  | fileNotFound (path : Path)
  | fileTooLarge (file : Path) (size limit : Nat)
  | io (reason : String)
  | locationNotResolvable (file : Path) (line : Int)
  | malformedInput (reason : String)
  | parseFailed (file : Path) (reason : String)
  | projectNotFound (file : Path)
  | invalidToml (reason : String)
  | typeNotFound (name : String)
  | unsupportedLanguage (extension : String)
deriving DecidableEq, Repr, Inhabited

namespace Error

/-- The failure in one line. -/
def message : Error → String
  | archiveUnreadable path reason => s!"archive unreadable: {path.display}: {reason}"
  | cancelled => "cancelled"
  | configNotFound path => s!"config not found: {path.display}"
  | fileNotFound path => s!"file not found: {path.display}"
  | fileTooLarge file size limit =>
    s!"file too large ({size} bytes, max {limit}): {file.display}"
  | io reason => s!"io: {reason}"
  | locationNotResolvable file line => s!"no declaration at line {line} of {file.display}"
  | malformedInput reason => s!"malformed input: {reason}"
  | parseFailed file reason => s!"parse failed: {file.display}: {reason}"
  | projectNotFound file => s!"no project owns {file.display}"
  | invalidToml reason => s!"toml deserialize: {reason}"
  | typeNotFound name => s!"type not found: `{name}`"
  | unsupportedLanguage extension => s!"no grammar for extension: .{extension}"

/-- Whether the failure says that what was asked for does not exist. -/
def isNotFound : Error → Bool
  | locationNotResolvable .. => true
  | projectNotFound .. => true
  | typeNotFound .. => true
  | _ => false

end Error

end BinaryNames
