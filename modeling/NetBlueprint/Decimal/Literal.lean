import NetBlueprint.Decimal.Binary
import NetBlueprint.Text.Integer

/-!
Contract: decimal literals read as binary numbers.

A literal is an optional sign followed by `inf`, `infinity` or `nan` in any letter case, or by
digits with at most one point and at least one digit, and an optional exponent. The number read is
the representable one closest to the literal's exact value; too great a value gives infinity.
-/

namespace NetBlueprint.Decimal

open NetBlueprint.Text

/-- The exact value of a literal without its sign: `digits * 10 ^ exponent`, or a special one. -/
inductive Unsigned where
  | finite (digits : Nat) (exponent : Int)
  | infinite
  | notANumber
deriving DecidableEq, Repr

structure Literal where
  negative : Bool
  value : Unsigned
deriving DecidableEq, Repr

/-- Takes an optional sign off a text; the flag says that it was a minus. -/
def cutSign : List Char → Bool × List Char
  | '-' :: rest => (true, rest)
  | '+' :: rest => (false, rest)
  | whole => (false, whole)

/-- Reads the exponent that ends a literal: nothing, or `e`, an optional sign and digits. -/
def readExponent? : List Char → Option Int
  | [] => some 0
  | mark :: rest =>
    if mark = 'e' || mark = 'E' then
      let (negative, digits) := cutSign rest
      (readDigits? digits).map fun value => if negative then -(value : Int) else value
    else none

/-- Reads digits, an optional point and an optional exponent. -/
def readFinite? (text : List Char) : Option Unsigned :=
  let whole := text.takeWhile Char.isDigit
  let rest := text.dropWhile Char.isDigit
  let (fraction, tail) := match rest with
    | '.' :: after => (after.takeWhile Char.isDigit, after.dropWhile Char.isDigit)
    | _ => ([], rest)
  if whole.isEmpty && fraction.isEmpty then none
  else
    (readExponent? tail).map fun exponent =>
      .finite (naturalOfDigits (whole ++ fraction)) (exponent - fraction.length)

def Literal.read? (text : List Char) : Option Literal :=
  let (negative, rest) := cutSign text
  let lowered := rest.map Char.toLower
  let value? :=
    if lowered = "inf".toList || lowered = "infinity".toList then some Unsigned.infinite
    else if lowered = "nan".toList then some Unsigned.notANumber
    else readFinite? rest
  value?.map fun value => ⟨negative, value⟩

/-- Beyond this many places the value is certainly infinite, or certainly zero, in either
format. -/
def farPlaces : Int := 400

def BinaryFormat.bitsOf (format : BinaryFormat) : Unsigned → Nat
  | .infinite => format.infinityBits
  | .notANumber => format.infinityBits + Nat.pow 2 (format.fractionBits - 1)
  | .finite digits exponent =>
    let point := (Nat.toDigits 10 digits).length + exponent
    if digits = 0 || point < -farPlaces then 0
    else if farPlaces < point then format.infinityBits
    else format.nearest (digits * Nat.pow 10 exponent.toNat) (Nat.pow 10 (-exponent).toNat)

def BinaryFormat.bitsOfLiteral (format : BinaryFormat) (literal : Literal) : Nat :=
  format.bitsOf literal.value +
    (if literal.negative then Nat.pow 2 (format.fractionBits + format.exponentBits) else 0)

def readFloat? (text : List Char) : Option Float :=
  (Literal.read? text).map fun literal =>
    Float.ofBits (UInt64.ofNat (binary64.bitsOfLiteral literal))

def readFloat32? (text : List Char) : Option Float32 :=
  (Literal.read? text).map fun literal =>
    Float32.ofBits (UInt32.ofNat (binary32.bitsOfLiteral literal))

end NetBlueprint.Decimal
