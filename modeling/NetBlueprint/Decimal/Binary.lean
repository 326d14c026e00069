/-!
Contract: the numbers that a binary floating-point format holds.

A format is given by the widths of its fraction and exponent fields. `decode` reads a bit pattern
as a sign and an exact magnitude `significand * 2 ^ exponent`; `nearest` is the bit pattern of the
representable magnitude closest to a quotient, an exact half going to the even significand.
-/

namespace NetBlueprint.Decimal

structure BinaryFormat where
  fractionBits : Nat
  exponentBits : Nat
deriving DecidableEq, Repr

def binary64 : BinaryFormat := ⟨52, 11⟩

def binary32 : BinaryFormat := ⟨23, 8⟩

/-- An exact magnitude `significand * 2 ^ exponent`. `narrowBelow` says that the representable
neighbour below is half as far away as the one above. -/
structure Magnitude where
  significand : Nat
  exponent : Int
  narrowBelow : Bool
deriving DecidableEq, Repr

inductive Decoded where
  | notANumber
  | infinite (negative : Bool)
  | finite (negative : Bool) (magnitude : Magnitude)
deriving DecidableEq, Repr

namespace BinaryFormat

/-- The exponent of the last place of the least positive number. -/
def leastExponent (format : BinaryFormat) : Int :=
  2 - (Nat.pow 2 (format.exponentBits - 1) : Nat) - format.fractionBits

def infinityBits (format : BinaryFormat) : Nat :=
  (Nat.pow 2 format.exponentBits - 1) * Nat.pow 2 format.fractionBits

def decode (format : BinaryFormat) (bits : Nat) : Decoded :=
  let fraction := bits % Nat.pow 2 format.fractionBits
  let biased := bits / Nat.pow 2 format.fractionBits % Nat.pow 2 format.exponentBits
  let negative := bits / Nat.pow 2 (format.fractionBits + format.exponentBits) % 2 == 1
  if biased + 1 = Nat.pow 2 format.exponentBits then
    if fraction = 0 then .infinite negative else .notANumber
  else if biased = 0 then
    .finite negative ⟨fraction, format.leastExponent, false⟩
  else
    .finite negative
      ⟨fraction + Nat.pow 2 format.fractionBits, format.leastExponent + (biased - 1 : Nat),
        fraction == 0 && biased != 1⟩

end BinaryFormat

/-- The integer closest to a quotient; an exact half goes to the even one. -/
def roundQuotient (numerator denominator : Nat) : Nat :=
  let quotient := numerator / denominator
  let twice := 2 * (numerator % denominator)
  if twice < denominator then quotient
  else if denominator < twice then quotient + 1
  else if quotient % 2 = 0 then quotient else quotient + 1

/-- Rounding stays within half a unit of the quotient. -/
theorem roundQuotient_close (numerator : Nat) {denominator : Nat} (positive : 0 < denominator) :
    2 * numerator ≤ 2 * (roundQuotient numerator denominator * denominator) + denominator ∧
      2 * (roundQuotient numerator denominator * denominator) ≤ 2 * numerator + denominator := by
  have parts := Nat.div_add_mod numerator denominator
  have small := Nat.mod_lt numerator positive
  have swap : numerator / denominator * denominator = denominator * (numerator / denominator) :=
    Nat.mul_comm _ _
  have next : (numerator / denominator + 1) * denominator
      = denominator * (numerator / denominator) + denominator := by
    rw [Nat.add_mul, Nat.one_mul, swap]
  simp only [roundQuotient]
  split
  · omega
  · split
    · omega
    · split <;> omega

/-- The exponent of the greatest power of two that is at most a positive quotient. -/
def floorLogTwo (numerator denominator : Nat) : Int :=
  let guess : Int := (numerator.log2 : Int) - denominator.log2
  let reaches :=
    if 0 ≤ guess then denominator * Nat.pow 2 guess.toNat ≤ numerator
    else denominator ≤ numerator * Nat.pow 2 (-guess).toNat
  if reaches then guess else guess - 1

/-- The bit pattern of the magnitude closest to a quotient; too great a quotient gives infinity. -/
def BinaryFormat.nearest (format : BinaryFormat) (numerator denominator : Nat) : Nat :=
  if numerator = 0 then 0
  else
    let exponent :=
      max format.leastExponent (floorLogTwo numerator denominator - format.fractionBits)
    let significand :=
      if 0 ≤ exponent then roundQuotient numerator (denominator * Nat.pow 2 exponent.toNat)
      else roundQuotient (numerator * Nat.pow 2 (-exponent).toNat) denominator
    let biased := (exponent - format.leastExponent).toNat
    let bits := biased * Nat.pow 2 format.fractionBits + significand
    min bits format.infinityBits

def decode64 (value : Float) : Decoded :=
  binary64.decode value.toBits.toNat

def decode32 (value : Float32) : Decoded :=
  binary32.decode value.toBits.toNat

end NetBlueprint.Decimal
