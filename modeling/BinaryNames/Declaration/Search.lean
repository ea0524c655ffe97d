import BinaryNames.Declaration.Tree

/-!
# Searching a Span

A line covers many offsets, and a declaration is sought at any of them: first at the start, then at
the end, then in the lower and the upper half of what lies between.
-/

namespace BinaryNames.DeclarationTree

/-- The declaration at `offset`, unless only the root is there. -/
def hit? (t : DeclarationTree) (offset : Nat) : Option Nat :=
  let id := t.elementAt offset
  if id = 0 then none else some id

/-- The first hit among the offsets from `start` to `stop`, in the order of bisection. -/
def probe (t : DeclarationTree) (start stop : Nat) : Option Nat :=
  match t.hit? start with
  | some id => some id
  | none =>
    if stop ≤ start then none
    else match t.hit? stop with
      | some id => some id
      | none =>
        let mid := start + (stop - start) / 2
        if mid ≤ start then none
        else match t.probe (start + 1) mid with
          | some id => some id
          | none => t.probe (mid + 1) (stop - 1)
termination_by stop - start

/-- A declaration with the declarations around it, innermost first. -/
structure Found where
  declaration : Nat
  chain : List Nat
deriving DecidableEq, Repr

/-- The declaration found between `start` and `stop`. -/
def find? (t : DeclarationTree) (start stop : Nat) : Option Found :=
  (t.probe start stop).map (fun id ↦ ⟨id, t.chain id⟩)

end BinaryNames.DeclarationTree
