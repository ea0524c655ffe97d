import BinaryNames.Text.Character
import BinaryNames.Text.Utf8

/-!
# Percent Coding

A byte that may not stand for itself in a URI is written as a percent sign and two hexadecimal
digits.  Decoding leaves a percent sign alone that no two digits follow.
-/

namespace BinaryNames.Percent

/-- The percent sign. -/
def percent : UInt8 := 37

/-- The byte that two digits spell. -/
def byteOf? (high low : UInt8) : Option UInt8 :=
  let high := Char.ofNat high.toNat
  let low := Char.ofNat low.toNat
  if isHexDigit high ∧ isHexDigit low then
    some (UInt8.ofNat (hexDigitValue high * 16 + hexDigitValue low))
  else none

def decode : List UInt8 → List UInt8
  | [] => []
  | [b] => [b]
  | [a, b] => [a, b]
  | a :: b :: c :: rest =>
    if a = percent then
      match byteOf? b c with
      | some byte => byte :: decode rest
      | none => a :: decode (b :: c :: rest)
    else a :: decode (b :: c :: rest)

/-- The characters other than controls that are never written as themselves in a path segment. -/
def reserved : List Char :=
  [' ', '"', '#', '<', '>', '?', '`', '\x7b', '\x7d', '%', '/', '\\']

/-- Whether a byte stands for itself in a path segment. -/
def isPlain (b : UInt8) : Bool :=
  0x20 ≤ b.toNat && b.toNat < 0x7F && !reserved.contains (Char.ofNat b.toNat)

def encodeByte (b : UInt8) : List Char :=
  if isPlain b then [Char.ofNat b.toNat]
  else ['%', hexDigit (b.toNat / 16), hexDigit (b.toNat % 16)]

def encode (bytes : List UInt8) : List Char := bytes.flatMap encodeByte

end BinaryNames.Percent
