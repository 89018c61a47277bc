namespace Apportion.Tensor.Shapes

abbrev Shape := List Nat

def Shape.count : Shape → Nat
  | [] => 1
  | dimension :: inner => dimension * Shape.count inner

/-- The shape announces an empty array or a single element. -/
def Shape.isPlaceholder (shape : Shape) : Bool :=
  shape == [0]

def Shape.listText (separator : String) (shape : Shape) : String :=
  "[" ++ separator.intercalate (shape.map fun dimension => toString dimension) ++ "]"

def Shape.text (shape : Shape) : String :=
  shape.listText ", "

/-- The position of an element in row-major order, from its index along each axis. -/
def Shape.offset : Shape → List Nat → Nat
  | _ :: inner, index :: rest => index * Shape.count inner + Shape.offset inner rest
  | _, _ => 0

def Shape.indices : Shape → Nat → List Nat
  | [], _ => []
  | _ :: inner, position =>
      position / Shape.count inner :: Shape.indices inner (position % Shape.count inner)

theorem Shape.count_append (outer inner : Shape) :
    Shape.count (outer ++ inner) = outer.count * inner.count := by
  induction outer with
  | nil => simp [Shape.count]
  | cons dimension outer ih => rw [List.cons_append, Shape.count, ih, Shape.count, Nat.mul_assoc]

theorem Shape.count_reverse (shape : Shape) : Shape.count shape.reverse = shape.count := by
  induction shape with
  | nil => rfl
  | cons dimension shape ih =>
      rw [List.reverse_cons, Shape.count_append, ih, Nat.mul_comm]
      simp [Shape.count]

end Apportion.Tensor.Shapes
