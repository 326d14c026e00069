import NetBlueprint.Text.Integer

/-!
Contract: shapes of activations.

A shape is a list of dimensions. The dimension `-1` is a wildcard that matches any size; a batch
or sequence axis is often known at execution only.
-/

namespace NetBlueprint

structure Shape where
  dims : List Int
deriving DecidableEq, Repr, Inhabited

namespace Shape

/-- The dimension that matches every size. -/
def wildcard : Int := -1

/-- The shape of a vector. A length beyond the signed 64-bit range wraps around. -/
def vector (length : Nat) : Shape :=
  ⟨[(length : Int).bmod (Nat.pow 2 64)]⟩

def rank (shape : Shape) : Nat :=
  shape.dims.length

def render (shape : Shape) : String :=
  "[" ++ String.intercalate ", " (shape.dims.map toString) ++ "]"

/-- Multiplies a running count by the sizes of further dimensions: a wildcard counts as one, any
other size must be positive, and the count has to fit signed 64 bits. -/
def countFrom : Int → List Int → Option Int
  | count, [] => some count
  | count, size :: rest =>
    if size = wildcard then countFrom count rest
    else if 0 < size then (Text.signed? (count * size)).bind fun next => countFrom next rest
    else none

/-- Number of elements to allocate for a batch of one. -/
def elements? (shape : Shape) : Option Int :=
  countFrom 1 shape.dims

def dimsAgree (left right : Int) : Bool :=
  left == right || left == wildcard || right == wildcard

/-- Decides whether two shapes have the same rank and agree in every dimension. -/
def compatible (left right : Shape) : Bool :=
  left.rank == right.rank &&
    (left.dims.zip right.dims).all fun pair => dimsAgree pair.1 pair.2

/-- Replaces the last dimension; a shape without dimensions becomes a vector. -/
def withLastDim (shape : Shape) (units : Int) : Shape :=
  ⟨shape.dims.dropLast ++ [units]⟩

/-- Whether two dimensions agree does not depend on their order. -/
theorem dimsAgree_comm (left right : Int) : dimsAgree left right = dimsAgree right left := by
  unfold dimsAgree
  rw [Bool.or_assoc, Bool.or_assoc, Bool.or_comm (left == wildcard),
    show (left == right) = (right == left) from Bool.beq_comm]

/-- Replacing the last dimension keeps the rank of a shape that has dimensions. -/
theorem rank_withLastDim (shape : Shape) (units : Int) :
    (shape.withLastDim units).rank = max shape.rank 1 := by
  simp only [rank, withLastDim, List.length_append, List.length_dropLast, List.length_singleton]
  omega

end Shape

end NetBlueprint
