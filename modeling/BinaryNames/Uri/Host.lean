import BinaryNames.Text.Character
import BinaryNames.Text.Split
import BinaryNames.Uri.Percent

/-!
# Hosts in File URIs

A file URI may name a host.  Either it is this machine, or it is some other one, or the text is no
host at all: a domain with characters that are not allowed, or an address that is out of range.
-/

namespace BinaryNames

inductive Host where
  | here
  | elsewhere
deriving DecidableEq, Repr

namespace Host

def isDigits (text : List Char) : Bool := !text.isEmpty && text.all Char.isDigit

/-- One number of an IPv4 address, which may be octal or hexadecimal. -/
def ipv4Number? (text : List Char) : Option Nat :=
  match text with
  | [] => none
  | '0' :: 'x' :: digits => if digits.all isHexDigit then some (valueIn 16 digits) else none
  | '0' :: digit :: digits =>
    if (digit :: digits).all (fun c ↦ '0' ≤ c && c ≤ '7') then some (valueIn 8 (digit :: digits))
    else none
  | _ => if isDigits text then some (valueIn 10 text) else none

/-- The labels of a domain, without the empty one after a final dot. -/
def labels (domain : List Char) : List (List Char) :=
  let labels := splitOn '.' domain
  if 1 < labels.length ∧ labels.getLast? = some [] then labels.dropLast else labels

/-- Whether a domain must be an IPv4 address. -/
def endsInNumber (domain : List Char) : Bool :=
  (labels domain).getLast?.any fun label ↦ isDigits label || (ipv4Number? label).isSome

/-- Whether the labels are an IPv4 address, of which the last number may fill what is left. -/
def isIpv4 (labels : List (List Char)) : Bool :=
  match labels.mapM ipv4Number? with
  | none => false
  | some numbers =>
    numbers.length ≤ 4 && numbers.dropLast.all (· ≤ 255) &&
      numbers.getLast?.any (· < Nat.pow 256 (5 - numbers.length))

/-- Whether a text is a group of an IPv6 address. -/
def isIpv6Group (text : List Char) : Bool :=
  !text.isEmpty && text.length ≤ 4 && text.all isHexDigit

/-- Whether a text is an IPv4 address of four plain numbers. -/
def isDottedQuad (text : List Char) : Bool :=
  let numbers := splitOn '.' text
  numbers.length = 4 && numbers.all fun n ↦
    isDigits n && valueIn 10 n ≤ 255 && (n.length = 1 || n.head? ≠ some '0')

/-- The number of groups that a text stands for, if it is a sequence of them; where `atEnd`, an IPv4
address may take the place of the last two. -/
def ipv6Groups? (atEnd : Bool) (text : List Char) : Option Nat :=
  if text.isEmpty then some 0
  else
    let groups := splitOn ':' text
    if groups.all isIpv6Group then some groups.length
    else if atEnd && groups.dropLast.all isIpv6Group && groups.getLast?.any isDottedQuad then
      some (groups.length + 1)
    else none

/-- What stands before and after the first two colons in a row. -/
def cutAtGap? : List Char → Option (List Char × List Char)
  | ':' :: ':' :: rest => some ([], rest)
  | c :: rest => (cutAtGap? rest).map fun (before, after) ↦ (c :: before, after)
  | [] => none

def isIpv6 (text : List Char) : Bool :=
  match cutAtGap? text with
  | none => ipv6Groups? true text = some 8
  | some (before, after) =>
    match ipv6Groups? false before, ipv6Groups? true after with
    | some a, some b => a + b ≤ 7
    | _, _ => false

/-- Whether a character may not occur in a domain. -/
def isForbidden (c : Char) : Bool :=
  c.toNat ≤ 0x20 || c.toNat = 0x7F || isBlank c || c = Utf8.replacement ||
    "%#/:<>?@[\\]^|".toList.contains c

/-- The host that a text names, if it names one. -/
def ofText? (text : List Char) : Option Host :=
  match text with
  | '[' :: rest =>
    if rest.getLast? = some ']' ∧ isIpv6 rest.dropLast then some elsewhere else none
  | _ =>
    let decoded := Utf8.decodeLossy (Percent.decode (Utf8.encode (String.ofList text)))
    let domain := decoded.toList.map Char.toLower
    if domain.isEmpty || domain.any isForbidden then none
    else if endsInNumber domain then if isIpv4 (labels domain) then some elsewhere else none
    else if domain = "localhost".toList then some here
    else some elsewhere

end Host

end BinaryNames
