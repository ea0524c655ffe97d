import BinaryNames.Error
import BinaryNames.Path
import BinaryNames.Uri.Host

/-!
# File URIs

A file URI is a path with the scheme `file`, written with up to three slashes and escapes.  Reading
follows the rules for URLs: blanks around the text and line ends inside it are dropped, a backslash
is a slash, dot segments are resolved, and queries and fragments are ignored.
-/

namespace BinaryNames.FileUri

/-- The text without controls and spaces at its ends, and without tabs and line ends. -/
def clean (text : List Char) : List Char :=
  let outer := fun (c : Char) ↦ c.toNat ≤ 0x20
  let trimmed := ((text.dropWhile outer).reverse.dropWhile outer).reverse
  trimmed.filter fun c ↦ c ≠ '\t' && c ≠ '\n' && c ≠ '\r'

def isSchemeChar (c : Char) : Bool := c.isAlphanum || c = '+' || c = '-' || c = '.'

/-- The scheme in lower case and what follows its colon. -/
def scheme? (text : List Char) : Option (String × List Char) :=
  let scheme := text.takeWhile isSchemeChar
  match text.dropWhile isSchemeChar with
  | ':' :: rest =>
    if scheme.head?.any Char.isAlpha then some (.ofList (scheme.map Char.toLower), rest) else none
  | _ => none

def isSlash (c : Char) : Bool := c = '/' || c = '\\'

/-- Whether the part of a URI with hosts and segments ends here. -/
def endsPath (c : Char) : Bool := c = '?' || c = '#'

/-- What becomes of a first segment such as `C|`.  The rules for URLs write a colon for the bar of
such a drive letter; a reader may also keep it. -/
inductive DriveRule where
  | keepBar
  | writeColon
deriving DecidableEq, Repr

/-- Whether a segment is a drive letter. -/
def isDriveLetter : List Char → Bool
  | [letter, mark] => letter.isAlpha && (mark = ':' || mark = '|')
  | _ => false

/-- The segments between slashes of either kind. -/
def segments (text : List Char) : List (List Char) :=
  splitOn '/' (text.map fun c ↦ if isSlash c then '/' else c)

/-- The segment with each escaped dot replaced by a dot. -/
def plainDots : List Char → List Char
  | '%' :: '2' :: e :: rest =>
    if e = 'e' ∨ e = 'E' then '.' :: plainDots rest else '%' :: plainDots ('2' :: e :: rest)
  | c :: rest => c :: plainDots rest
  | [] => []

/-- The first segment of a path after its drive letter has been looked at. -/
def DriveRule.apply : DriveRule → List Char → List Char
  | writeColon, [letter, '|'] => if letter.isAlpha then [letter, ':'] else [letter, '|']
  | _, segment => segment

/-- Goes on by one segment from the segments so far, last first.  A drive letter is never left. -/
def step (rule : DriveRule) (found : List (List Char)) (segment : List Char) : List (List Char) :=
  if plainDots segment = ['.', '.'] then
    match found with
    | last :: before => if isDriveLetter last then found else before
    | [] => []
  else if plainDots segment = ['.'] then found
  else if found = [] then [rule.apply segment]
  else segment :: found

/-- The text without the slash that it may start with. -/
def dropSlash : List Char → List Char
  | c :: rest => if isSlash c then rest else c :: rest
  | [] => []

/-- The path that the text of a URI after its host spells. -/
def pathOf (rule : DriveRule) (text : List Char) : Path :=
  let names := ((segments (dropSlash text)).foldl (step rule) []).reverse
  let bytes := names.map fun s ↦ Percent.decode (Utf8.encode (String.ofList s))
  ⟨Path.slash :: joinWith Path.slash bytes⟩

/-- What a text means as a URI. -/
inductive Meaning where
  /-- It is no file URI. -/
  | other
  /-- It names a file on another machine. -/
  | remote
  | file (path : Path)
deriving DecidableEq, Repr

/-- The meaning of what follows two slashes: a host, unless it looks like a drive letter, and a
path. -/
def meaningWithHost (rule : DriveRule) (text : List Char) : Meaning :=
  let host := text.takeWhile fun c ↦ !isSlash c
  if host.isEmpty || isDriveLetter host then .file (pathOf rule text)
  else match Host.ofText? host with
    | none => .other
    | some .elsewhere => .remote
    | some .here => .file (pathOf rule (text.dropWhile fun c ↦ !isSlash c))

def meaning (rule : DriveRule) (text : String) : Meaning :=
  match scheme? (clean text.toList) with
  | some ("file", rest) =>
    match rest.takeWhile fun c ↦ !endsPath c with
    | a :: b :: after =>
      if isSlash a && isSlash b then meaningWithHost rule after
      else .file (pathOf rule (a :: b :: after))
    | short => .file (pathOf rule short)
  | _ => .other

/-- The path of a local file URI in normal form; nothing for a text that is no file URI.  The bar of
a drive letter is kept, unless the rule says otherwise. -/
def path? (text : String) (rule : DriveRule := .keepBar) : Except Error (Option Path) :=
  match meaning rule text with
  | .other => .ok none
  | .remote => .error (.malformedInput s!"`{text}` is not a local file URI")
  | .file path => .ok (some path.normalize)

/-- The URI of an absolute path. -/
def ofPath (path : Path) : String :=
  match path.components.drop 1 with
  | [] => "file:///"
  | steps => "file://" ++ String.ofList (steps.flatMap fun c ↦ '/' :: Percent.encode c.bytes)

/-- The URI of a path; one that is not absolute is malformed input. -/
def ofPath? (path : Path) : Except Error String :=
  if path.isAbsolute then .ok (ofPath path)
  else .error (.malformedInput s!"`{path.display}` is not an absolute path")

end BinaryNames.FileUri
