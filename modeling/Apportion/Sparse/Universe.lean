namespace Apportion.Sparse.Universe

inductive SparseError where
  | negativeSize (size : Int)
  | lengthMismatch (left : String) (leftLength : Nat) (right : String) (rightLength : Nat)
  | outOfRange (index : Int) (size : Nat)
  deriving DecidableEq, Repr

def SparseError.message : SparseError → String
  | .negativeSize size => s!"Invalid value for `n`: universe size must be >= 0, got {size}"
  | .lengthMismatch left leftLength right rightLength =>
      s!"Length mismatch: `{left}` has {leftLength} elements but `{right}` has {rightLength}"
  | .outOfRange index size => s!"Index {index} is out of range for universe of size {size}"

def positionCount (n : Int) : Except SparseError Nat :=
  if n < 0 then .error (.negativeSize n) else .ok n.toNat

def inUniverse (size : Nat) (index : Int) : Bool :=
  0 ≤ index && index < size

def requireSameLength {α β : Type} (leftName : String) (left : List α) (rightName : String)
    (right : List β) : Except SparseError Unit :=
  if left.length = right.length then .ok ()
  else .error (.lengthMismatch leftName left.length rightName right.length)

theorem positionCount_natCast (size : Nat) : positionCount size = .ok size := by
  simp [positionCount]

theorem inUniverse_iff {size : Nat} {index : Int} :
    inUniverse size index = true ↔ 0 ≤ index ∧ index < size := by
  simp [inUniverse]

end Apportion.Sparse.Universe
