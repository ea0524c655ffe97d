/-!
# TOML Values

Texts, arrays and tables are kept as such.  Numbers, truth values and dates are checked and kept as
they are spelled.
-/

namespace BinaryNames.Toml

/-- How a table came to be, which decides what may be added to it. -/
inductive Origin where
  /-- A header names it. -/
  | header
  /-- A header names something inside it. -/
  | implied
  /-- A dotted key names something inside it. -/
  | dotted
  /-- It is written out in curly brackets, and complete. -/
  | inline
deriving DecidableEq, Repr

inductive Value where
  | text (value : String)
  | scalar (spelling : String)
  /-- An array is `growing` if headers add its elements. -/
  | array (growing : Bool) (items : List Value)
  | table (origin : Origin) (entries : List (String × Value))
deriving Repr, Inhabited

abbrev Entries := List (String × Value)

namespace Entries

def find? (entries : Entries) (key : String) : Option Value := entries.lookup key

/-- The entries with a value set for a key, in its old place or at the end. -/
def put (entries : Entries) (key : String) (value : Value) : Entries :=
  match entries with
  | [] => [(key, value)]
  | (k, v) :: rest => if k = key then (k, value) :: rest else (k, v) :: put rest key value

/-- Adds a key, which must be new. -/
def add? (entries : Entries) (key : String) (value : Value) : Option Entries :=
  if (entries.find? key).isSome then none else some (entries ++ [(key, value)])

end Entries

/-- The keys on the way to a value. -/
abbrev KeyPath := List String

/-- The part of a table at the end of a path, changed by `change`.  Tables on the way that do not
exist come into being with the given origin, and the last element stands for a growing array.  A
dotted key does not lead into a table with a header of its own. -/
def changeAt? (origin : Origin) (path : KeyPath) (change : Origin → Entries → Option Entries)
    (here : Origin) (entries : Entries) : Option Entries :=
  match path with
  | [] => change here entries
  | key :: path =>
    match entries.find? key with
    | none =>
      (changeAt? origin path change origin []).map fun inner ↦
        entries.put key (.table origin inner)
    | some (.table own inner) =>
      if own = .inline ∨ (origin = .dotted ∧ own = .header) then none
      else (changeAt? origin path change own inner).map fun inner ↦
        entries.put key (.table own inner)
    | some (.array true items) =>
      match items.getLast? with
      | some (.table own inner) =>
        (changeAt? origin path change own inner).map fun inner ↦
          entries.put key (.array true (items.dropLast ++ [.table own inner]))
      | _ => none
    | some _ => none

/-- Adds a value under a dotted key.  The last table on the way belongs to dotted keys, or there is
no such table. -/
def addAt? (here : Origin) (entries : Entries) (path : KeyPath) (value : Value) :
    Option Entries :=
  match path.getLast? with
  | none => none
  | some key =>
    changeAt? .dotted path.dropLast (fun own inner ↦
      if decide (own = .dotted) = path.dropLast.isEmpty then none
      else inner.add? key value) here entries

/-- The entries with pairs added one by one. -/
def addAll? (here : Origin) (entries : Entries) (pairs : List (KeyPath × Value)) :
    Option Entries :=
  pairs.foldlM (fun entries (path, value) ↦ addAt? here entries path value) entries

end BinaryNames.Toml
