import BinaryNames.Declaration.Search

/-!
# Binary Names

Member and anonymous types carry their binary name in the tree.  The segment of a local type is
numbered here: it is its one-based position among the local types of the same parent, put before its
simple name.
-/

namespace BinaryNames

/-- `text` without `head`, if it starts with it. -/
def stripHead? (head text : List Char) : Option (List Char) :=
  if head.isPrefixOf text then some (text.drop head.length) else none

/-- `text` without `tail`, if it ends with it. -/
def stripTail? (tail text : List Char) : Option (List Char) :=
  if tail.isSuffixOf text then some (text.take (text.length - tail.length)) else none

/-- `text` with every occurrence of `old`, from left to right, turned into `new`; the occurrences
do not overlap, and `skip` characters of the current one are still to be passed over. -/
def replaceAll (old new : List Char) (skip : Nat) : List Char → List Char
  | [] => []
  | c :: rest =>
    match skip with
    | n + 1 => replaceAll old new n rest
    | 0 =>
      if old.isPrefixOf (c :: rest) then new ++ replaceAll old new (old.length - 1) rest
      else c :: replaceAll old new 0 rest

namespace DeclarationNode

/-- The name that a declaration reports for itself. -/
def ownName (node : DeclarationNode) : String :=
  (node.qualifiedName.or node.simpleName).getD ""

/-- A named type that is declared in code. -/
def isLocalType (node : DeclarationNode) : Bool :=
  node.kind = .type && node.isLocal && !node.isAnonymous

/-- The segment of a local type with its number. -/
def numberedSegment (ordinal : Nat) (simple : String) : List Char :=
  '$' :: (toString ordinal).toList ++ simple.toList

/-- `name` with the segment of the local type `node` numbered where it stands, which is at the end
of the type's own qualified name; nothing if `name` does not continue that qualified name. -/
def numberInPlace? (node : DeclarationNode) (simple : String) (ordinal : Nat) (name : List Char) :
    Option (List Char) := do
  let own ← node.qualifiedName
  let rest ← stripHead? own.toList name
  let outer ← stripTail? ('$' :: simple.toList) own.toList
  if rest = [] ∨ rest.head? = some '$' then some (outer ++ numberedSegment ordinal simple ++ rest)
  else none

/-- `name` with the segment of the local type `node` numbered.  A name that does not continue the
type's own qualified name gets every such segment numbered. -/
def numberSegment (node : DeclarationNode) (ordinal : Nat) (name : String) : String :=
  match node.simpleName with
  | none => name
  | some simple =>
    String.ofList ((node.numberInPlace? simple ordinal name.toList).getD
      (replaceAll ('$' :: simple.toList) (numberedSegment ordinal simple) 0 name.toList))

end DeclarationNode

namespace DeclarationTree

/-- Whether the node at `id` counts when the local types of its parent are numbered. -/
def isNumbered (t : DeclarationTree) (id : Nat) : Bool :=
  (t.node? id).any (fun node ↦ node.isLocalType && node.simpleName.isSome)

/-- The one-based position of the node at `id` among the local types of its parent. -/
def localOrdinal? (t : DeclarationTree) (id : Nat) : Option Nat := do
  let node ← t.node? id
  let p ← node.parent
  let parentNode ← t.node? p
  let position ← (parentNode.children.toList.filter t.isNumbered).idxOf? id
  return position + 1

/-- `name` after the segment of the declaration at `id`, if it is a local type, is numbered. -/
def numberAt (t : DeclarationTree) (name : String) (id : Nat) : String :=
  match t.node? id with
  | none => name
  | some node =>
    if node.isLocalType then
      match t.localOrdinal? id with
      | some ordinal => node.numberSegment ordinal name
      | none => name
    else name

def ownName (t : DeclarationTree) (id : Nat) : String :=
  ((t.node? id).map DeclarationNode.ownName).getD ""

/-- The binary name of the innermost type of the chain; without a type, the declaration's own
name. -/
def binaryName (t : DeclarationTree) (found : Found) : String :=
  match found.chain.dropWhile (fun id ↦ !t.isType id) with
  | [] => t.ownName found.declaration
  | id :: above => (id :: above).foldl t.numberAt (t.ownName id)

end DeclarationTree

end BinaryNames
