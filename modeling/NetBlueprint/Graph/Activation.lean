/-!
Contract: activation functions on vectors of 32-bit numbers.

All arithmetic is carried out in 32 bits and in the order written. The exponential and the
hyperbolic tangent are the 64-bit functions rounded to 32 bits.
-/

namespace NetBlueprint

abbrev Vector32 := List Float32

inductive Activation where
  | linear
  | relu
  | sigmoid
  | tanh
  | softmax
  | gelu
deriving DecidableEq, Repr, Inhabited

namespace Activation

def name : Activation → String
  | .linear => "linear"
  | .relu => "relu"
  | .sigmoid => "sigmoid"
  | .tanh => "tanh"
  | .softmax => "softmax"
  | .gelu => "gelu"

def ofName? (text : String) : Option Activation :=
  match text.toLower with
  | "linear" | "identity" | "none" | "" => some .linear
  | "relu" => some .relu
  | "sigmoid" | "logistic" => some .sigmoid
  | "tanh" => some .tanh
  | "softmax" => some .softmax
  | "gelu" => some .gelu
  | _ => none

def exp32 (value : Float32) : Float32 :=
  value.toFloat.exp.toFloat32

def tanh32 (value : Float32) : Float32 :=
  value.toFloat.tanh.toFloat32

/-- The greater of two numbers; where one is not a number, the other. -/
def greater (left right : Float32) : Float32 :=
  if left.isNaN then right
  else if right.isNaN then left
  else if left < right then right
  else left

/-- The 32-bit number nearest to the square root of two over pi. -/
def rootTwoOverPi : Float32 := Float32.ofBits 0x3f4c422a

/-- The cubic coefficient of the Gaussian error unit. -/
def gaussianCubic : Float32 := Float32.ofBits 0x3d372713

def zero32 : Float32 := Float32.ofBits 0

def one32 : Float32 := Float32.ofBits 0x3f800000

def half32 : Float32 := Float32.ofBits 0x3f000000

def negativeInfinity32 : Float32 := Float32.ofBits 0xff800000

/-- A positive number, and zero in place of any other. This zero has no sign. -/
def positivePart (value : Float32) : Float32 :=
  if zero32 < value then value else zero32

def logistic (value : Float32) : Float32 :=
  one32 / (one32 + exp32 (-value))

/-- The Gaussian error unit in its hyperbolic approximation. -/
def gaussian (value : Float32) : Float32 :=
  let inner := rootTwoOverPi * (value + gaussianCubic * value * value * value)
  half32 * value * (one32 + tanh32 inner)

/-- Exponentials relative to the greatest element, divided by their sum where that is positive. -/
def normalizedExponentials (values : Vector32) : Vector32 :=
  let greatest := values.foldl greater negativeInfinity32
  let exponentials := values.map fun value => exp32 (value - greatest)
  let total := exponentials.foldl (· + ·) zero32
  if zero32 < total then exponentials.map (· / total) else exponentials

def apply : Activation → Vector32 → Vector32
  | .linear, values => values
  | .relu, values => values.map positivePart
  | .sigmoid, values => values.map logistic
  | .tanh, values => values.map tanh32
  | .softmax, values => normalizedExponentials values
  | .gelu, values => values.map gaussian

/-- Every activation keeps the length of the vector. -/
theorem length_apply (activation : Activation) (values : Vector32) :
    (activation.apply values).length = values.length := by
  cases activation <;> simp only [apply, List.length_map]
  simp only [normalizedExponentials]
  split <;> simp

end Activation

end NetBlueprint
