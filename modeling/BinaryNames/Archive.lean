import BinaryNames.Text.Utf8

/-!
# Zip Archives

The last part of an archive is an end record, which tells how many entries there are and where
their directory starts.  A file may hold other bytes before and after the archive, so the end record
is searched for from the back; the first directory entry found after the recorded place then shows
by how much the archive has been shifted.  Only what tells whether an entry can be opened is read.

The names of entries that are not marked as UTF-8 are in code page 437, which is ASCII below 128.
-/

namespace BinaryNames

namespace CodePage437

/-- The code points of the bytes from 128 on. -/
def upperHalf : List Nat :=
  [0xC7, 0xFC, 0xE9, 0xE2, 0xE4, 0xE0, 0xE5, 0xE7, 0xEA, 0xEB, 0xE8, 0xEF, 0xEE, 0xEC, 0xC4, 0xC5,
   0xC9, 0xE6, 0xC6, 0xF4, 0xF6, 0xF2, 0xFB, 0xF9, 0xFF, 0xD6, 0xDC, 0xA2, 0xA3, 0xA5, 0x20A7,
   0x192, 0xE1, 0xED, 0xF3, 0xFA, 0xF1, 0xD1, 0xAA, 0xBA, 0xBF, 0x2310, 0xAC, 0xBD, 0xBC, 0xA1,
   0xAB, 0xBB, 0x2591, 0x2592, 0x2593, 0x2502, 0x2524, 0x2561, 0x2562, 0x2556, 0x2555, 0x2563,
   0x2551, 0x2557, 0x255D, 0x255C, 0x255B, 0x2510, 0x2514, 0x2534, 0x252C, 0x251C, 0x2500, 0x253C,
   0x255E, 0x255F, 0x255A, 0x2554, 0x2569, 0x2566, 0x2560, 0x2550, 0x256C, 0x2567, 0x2568, 0x2564,
   0x2565, 0x2559, 0x2558, 0x2552, 0x2553, 0x256B, 0x256A, 0x2518, 0x250C, 0x2588, 0x2584, 0x258C,
   0x2590, 0x2580, 0x3B1, 0xDF, 0x393, 0x3C0, 0x3A3, 0x3C3, 0xB5, 0x3C4, 0x3A6, 0x398, 0x3A9, 0x3B4,
   0x221E, 0x3C6, 0x3B5, 0x2229, 0x2261, 0xB1, 0x2265, 0x2264, 0x2320, 0x2321, 0xF7, 0x2248, 0xB0,
   0x2219, 0xB7, 0x221A, 0x207F, 0xB2, 0x25A0, 0xA0]

/-- The character that a byte stands for. -/
def decodeByte (b : UInt8) : Char :=
  if b.toNat < 128 then Char.ofNat b.toNat else Char.ofNat (upperHalf[b.toNat - 128]?.getD 0)

def decode (bytes : List UInt8) : String := String.ofList (bytes.map decodeByte)

end CodePage437

/-- Why a file is not an archive. -/
inductive ArchiveFault where
  | noEndRecord
  | cutShort
  | directoryAfterEnd
  | noDirectory
deriving DecidableEq, Repr

def ArchiveFault.message : ArchiveFault → String
  | noEndRecord => "invalid Zip archive: Could not find EOCD"
  | cutShort => "i/o error"
  | directoryAfterEnd => "invalid Zip archive: Invalid CDFH offset in EOCD"
  | noDirectory => "invalid Zip archive: No CDFH found"

/-- An entry of the directory. -/
structure ArchiveEntry where
  name : String
  isEncrypted : Bool
  method : Nat
  /-- Where the header in front of the content should be. -/
  header : Nat
deriving DecidableEq, Repr

namespace Archive

def byteAt (bytes : ByteArray) (position : Nat) : Nat := (bytes.data[position]?.getD 0).toNat

/-- The number in the two bytes from `position` on, the low byte first. -/
def short (bytes : ByteArray) (position : Nat) : Nat :=
  byteAt bytes position + 256 * byteAt bytes (position + 1)

/-- The number in the four bytes from `position` on, the low byte first. -/
def long (bytes : ByteArray) (position : Nat) : Nat :=
  short bytes position + 65536 * short bytes (position + 2)

/-- The mark of a part of an archive: the letters PK and two small numbers. -/
def mark (first second : Nat) : Nat := 0x50 + 256 * 0x4B + 65536 * first + 16777216 * second

def endMark : Nat := mark 5 6

def entryMark : Nat := mark 1 2

def contentMark : Nat := mark 3 4

/-- Whether the four bytes from `position` on are the mark. -/
def hasMark (bytes : ByteArray) (m position : Nat) : Bool :=
  position + 4 ≤ bytes.size && long bytes position = m

/-- What the end record says. -/
structure EndRecord where
  disk : Nat
  directoryDisk : Nat
  entriesHere : Nat
  entries : Nat
  directory : Nat

/-- The end record at `position`, if it and its comment are complete. -/
def endRecord? (bytes : ByteArray) (position : Nat) : Option EndRecord :=
  if position + 22 + short bytes (position + 20) ≤ bytes.size then
    some ⟨short bytes (position + 4), short bytes (position + 6), short bytes (position + 8),
      short bytes (position + 10), long bytes (position + 16)⟩
  else none

/-- By how much the archive with the end record at `position` is shifted. -/
def shift (bytes : ByteArray) (record : EndRecord) (position : Nat) :
    Except ArchiveFault Nat :=
  if record.entries = 0 then .ok (position - record.directory)
  else if position ≤ record.directory then .error .directoryAfterEnd
  else
    let places := (List.range' record.directory (position - record.directory)).find? fun p ↦
      p + 4 ≤ position && hasMark bytes entryMark p
    match places with
    | some start => .ok (start - record.directory)
    | none => .error .noDirectory

/-- The name of the entry whose directory record is at `position`. -/
def entryName (bytes : ByteArray) (position flags length : Nat) : String :=
  let raw := (bytes.extract (position + 46) (position + 46 + length)).toList
  if flags.testBit 11 then Utf8.decodeLossy raw else CodePage437.decode raw

/-- The entries of a directory of `count` records that starts at `position`. -/
def entries? (bytes : ByteArray) (shift : Nat) : (count position : Nat) → Option (List ArchiveEntry)
  | 0, _ => some []
  | count + 1, position =>
    let flags := short bytes (position + 8)
    let nameLength := short bytes (position + 28)
    let next :=
      position + 46 + nameLength + short bytes (position + 30) + short bytes (position + 32)
    if position + 46 ≤ bytes.size ∧ hasMark bytes entryMark position ∧ next ≤ bytes.size then
      (entries? bytes shift count next).map fun others ↦
        { name := entryName bytes position flags nameLength, isEncrypted := flags.testBit 0,
          method := short bytes (position + 10), header := long bytes (position + 42) + shift } ::
          others
    else none

/-- The entries of the archive whose end record is at `position`. -/
def entriesAt? (bytes : ByteArray) (record : EndRecord) (shift : Nat) :
    Option (List ArchiveEntry) :=
  if record.disk = record.directoryDisk then
    entries? bytes shift record.entriesHere (record.directory + shift)
  else none

/-- The entries by the first end record that leads to a whole directory; `fault` is what was wrong
with the ones before. -/
def search (bytes : ByteArray) (fault : Option ArchiveFault) :
    List Nat → Except ArchiveFault (List ArchiveEntry)
  | [] => .error (fault.getD .noEndRecord)
  | position :: others =>
    match endRecord? bytes position with
    | none => search bytes (fault.or (some .cutShort)) others
    | some record =>
      match shift bytes record position with
      | .error f => search bytes (some f) others
      | .ok s =>
        match entriesAt? bytes record s with
        | some entries => .ok entries
        | none => search bytes none others

/-- The places where an end record may be, the last first. -/
def endPlaces (bytes : ByteArray) : List Nat :=
  ((List.range bytes.size).filter (hasMark bytes endMark)).reverse

/-- The entries of an archive. -/
def entries (bytes : ByteArray) : Except ArchiveFault (List ArchiveEntry) :=
  search bytes none (endPlaces bytes)

/-- The ways of compression that are understood. -/
def knownMethods : List Nat := [0, 8, 9, 12, 14, 93, 95]

/-- Whether the content of an entry can be opened. -/
def opens (bytes : ByteArray) (entry : ArchiveEntry) : Bool :=
  !entry.isEncrypted && knownMethods.contains entry.method &&
    (entry.header + 30 ≤ bytes.size && hasMark bytes contentMark entry.header)

/-- Whether an archive holds an entry that can be opened; of entries with one name, the last
counts. -/
def contains (bytes : ByteArray) (name : String) : Except ArchiveFault Bool := do
  let entries ← entries bytes
  return (entries.reverse.find? (·.name = name)).any (opens bytes)

end Archive

end BinaryNames
