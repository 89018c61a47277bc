import Apportion.Sparse.Universe

namespace Apportion.Sparse.Availability

open Apportion.Sparse.Universe

structure Warning where
  uid : Int
  size : Nat
  deriving DecidableEq, Repr

def Warning.message (warning : Warning) : String :=
  s!"subnet unavailable: dropping weight for uid {warning.uid}"

/-- The pairs of a sparse vector that stay, the positions that were left out, and the warnings that
were logged meanwhile, each in the order of the input. -/
structure Restricted (β : Type) where
  uids : List Int
  values : List β
  dropped : List Int
  warnings : List Warning
  deriving DecidableEq, Repr

def isAvailable (size : Nat) (available : List Int) (uid : Int) : Bool :=
  inUniverse size uid && available.contains uid

namespace Restricted

variable {β : Type}

def empty : Restricted β :=
  ⟨[], [], [], []⟩

def isEmpty (restricted : Restricted β) : Bool :=
  restricted.uids.isEmpty

/-- Look at the next pair: keep it, or warn of it and leave it out. -/
def add (size : Nat) (available : List Int) (restricted : Restricted β) (pair : Int × β) :
    Restricted β :=
  if isAvailable size available pair.1 then
    { restricted with
      uids := restricted.uids ++ [pair.1]
      values := restricted.values ++ [pair.2] }
  else
    { restricted with
      dropped := restricted.dropped ++ [pair.1]
      warnings := restricted.warnings ++ [⟨pair.1, size⟩] }

end Restricted

/-- Restrict a sparse vector to the available positions. Leaving others out is never an error. -/
def restrict {β : Type} (n : Int) (uids : List Int) (values : List β)
    (available : List Int) : Except SparseError (Restricted β) := do
  let size ← positionCount n
  requireSameLength "uids" uids "values" values
  return (uids.zip values).foldl (Restricted.add size available) Restricted.empty

end Apportion.Sparse.Availability
