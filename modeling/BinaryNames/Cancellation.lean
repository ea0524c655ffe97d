import BinaryNames.Error

/-!
# Cancellation

A long search can be called off through a token.  Copies of a token share one flag, and a flag that
has been raised stays up.
-/

namespace BinaryNames

/-- All tokens that have been handed out, each with the number of its flag. -/
structure Cancellation where
  flags : List Bool
  tokens : List Nat
deriving DecidableEq, Repr

/-- Stops a search whose token has been cancelled. -/
def checkCancelled (cancelled : Bool) : Except Error Unit :=
  if cancelled then .error .cancelled else .ok ()

namespace Cancellation

/-- One token that is not cancelled. -/
def start : Cancellation := ⟨[false], [0]⟩

/-- Hands out a new token. -/
def fresh (c : Cancellation) : Cancellation :=
  ⟨c.flags ++ [false], c.tokens ++ [c.flags.length]⟩

/-- Hands out a copy of a token. -/
def copy (c : Cancellation) (token : Nat) : Cancellation :=
  ⟨c.flags, c.tokens ++ [c.tokens[token]?.getD 0]⟩

/-- Raises the flag of a token. -/
def cancel (c : Cancellation) (token : Nat) : Cancellation :=
  ⟨c.flags.set (c.tokens[token]?.getD 0) true, c.tokens⟩

def isCancelled (c : Cancellation) (token : Nat) : Bool :=
  (c.tokens[token]?.bind (c.flags[·]?)).getD false

def check (c : Cancellation) (token : Nat) : Except Error Unit :=
  checkCancelled (c.isCancelled token)

end Cancellation

end BinaryNames
