import Apportion.Sparse.Universe

namespace Apportion.Sparse.Scatter

open Apportion.Sparse.Universe

def place {β : Type} (dense : List β) (pairs : List (Int × β)) : List β :=
  pairs.foldl (fun dense pair => dense.set pair.1.toNat pair.2) dense

/-- The dense vector of `n` positions that holds the given values at the given positions and `zero`
at the others. The first position outside the universe is an error. -/
def scatter {β : Type} (zero : β) (n : Int) (indices : List Int) (values : List β) :
    Except SparseError (List β) := do
  let size ← positionCount n
  requireSameLength "indices" indices "values" values
  match indices.find? (!inUniverse size ·) with
  | some index => .error (.outOfRange index size)
  | none => .ok (place (List.replicate size zero) (indices.zip values))

@[simp]
theorem place_nil {β : Type} (dense : List β) : place dense [] = dense := rfl

@[simp]
theorem place_cons {β : Type} (dense : List β) (pair : Int × β) (pairs : List (Int × β)) :
    place dense (pair :: pairs) = place (dense.set pair.1.toNat pair.2) pairs := rfl

@[simp]
theorem length_place {β : Type} (dense : List β) (pairs : List (Int × β)) :
    (place dense pairs).length = dense.length := by
  induction pairs generalizing dense with
  | nil => rfl
  | cons pair pairs ih => rw [place_cons, ih, List.length_set]

end Apportion.Sparse.Scatter
