/-!
# UTF-8 Text

Files and path names are bytes and may hold anything.  `decode?` reads valid UTF-8 and refuses the
rest; `decodeLossy` always answers, with one replacement character for each maximal run of bytes
that starts a character and cannot finish it.
-/

namespace BinaryNames.Utf8

/-- The UTF-8 bytes of a text. -/
def encode (text : String) : List UInt8 := text.toList.flatMap String.utf8EncodeChar

/-- The text that the bytes spell, if they are valid UTF-8. -/
def decode? (bytes : List UInt8) : Option String := String.fromUTF8? ⟨bytes.toArray⟩

/-- What a first byte announces: how many bytes follow, the least and greatest second byte, and
the bits that it contributes. -/
def lead (b : Nat) : Option (Nat × Nat × Nat × Nat) :=
  if b < 0xC2 then none
  else if b < 0xE0 then some (1, 0x80, 0xBF, b - 0xC0)
  else if b = 0xE0 then some (2, 0xA0, 0xBF, 0)
  else if b = 0xED then some (2, 0x80, 0x9F, 0xD)
  else if b < 0xF0 then some (2, 0x80, 0xBF, b - 0xE0)
  else if b = 0xF0 then some (3, 0x90, 0xBF, 0)
  else if b < 0xF4 then some (3, 0x80, 0xBF, b - 0xF0)
  else if b = 0xF4 then some (3, 0x80, 0x8F, 4)
  else none

/-- The character that stands for bytes which spell none. -/
def replacement : Char := '�'

/-- A character that has begun: the bytes still missing, the range of the next one and the bits
read so far. -/
structure Pending where
  missing : Nat
  least : Nat
  greatest : Nat
  bits : Nat

/-- One byte outside a character: either a character of its own, the start of one, or junk. -/
def start (b : UInt8) : List Char × Option Pending :=
  if b.toNat < 0x80 then ([Char.ofNat b.toNat], none)
  else match lead b.toNat with
    | some (n, lo, hi, bits) => ([], some ⟨n, lo, hi, bits⟩)
    | none => ([replacement], none)

/-- One byte in the light of what has begun. -/
def step (pending : Option Pending) (b : UInt8) : List Char × Option Pending :=
  match pending with
  | none => start b
  | some p =>
    if p.least ≤ b.toNat && b.toNat ≤ p.greatest then
      let bits := p.bits * 64 + (b.toNat - 0x80)
      if p.missing ≤ 1 then ([Char.ofNat bits], none)
      else ([], some ⟨p.missing - 1, 0x80, 0xBF, bits⟩)
    else
      let (chars, next) := start b
      (replacement :: chars, next)

def lossyChars (pending : Option Pending) : List UInt8 → List Char
  | [] => if pending.isSome then [replacement] else []
  | b :: rest =>
    let (chars, next) := step pending b
    chars ++ lossyChars next rest

/-- The text that the bytes spell, with replacement characters where they spell none. -/
def decodeLossy (bytes : List UInt8) : String := String.ofList (lossyChars none bytes)

end BinaryNames.Utf8
