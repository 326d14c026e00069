import NetBlueprint.Decimal.Binary
import NetBlueprint.Text.Integer
import NetBlueprint.Json.Value

/-!
Contract: reading JSON numbers.

A number without point and exponent that fits 64 bits is an integer. Any other number, and minus
zero, is a 64-bit decimal: its leading digits are gathered as long as they fit an unsigned 64-bit
significand, and the significand is then multiplied or divided by a power of ten. That quotient
may miss the nearest number by one unit in the last place. A number too great for a decimal is
malformed.
-/

namespace NetBlueprint.Json

open NetBlueprint.Text

/-- Why a text is not JSON: it ends early, or a character does not fit. -/
inductive Fault where
  | unfinished
  | malformed
deriving DecidableEq, Repr

/-- What is read from the front of a text, with the rest of the text. -/
abbrev Read (Result : Type) := Except Fault (Result × List Char)

/-- Gathers digits while the significand fits; returns it with the number of digits gathered. -/
def gatherDigits : Nat → List Char → Nat × Nat
  | significand, [] => (significand, 0)
  | significand, digit :: rest =>
    let next := 10 * significand + digitValue digit
    if next ≤ maxUnsigned then
      let (final, count) := gatherDigits next rest
      (final, count + 1)
    else (significand, 0)

def powerOfTen (exponent : Nat) : Float :=
  Float.ofBits (UInt64.ofNat (Decimal.binary64.nearest (Nat.pow 10 exponent) 1))

/-- The greatest power of ten that is finite in 64 bits. -/
def greatestPower : Nat := 308

/-- Divides by a power of ten, at most `greatestPower` at a time. After three such steps nothing
is left of a 64-bit significand. -/
def scaleDown : Nat → Float → Nat → Float
  | 0, value, _ => value
  | budget + 1, value, exponent =>
    if exponent ≤ greatestPower then value / powerOfTen exponent
    else scaleDown budget (value / powerOfTen greatestPower) (exponent - greatestPower)

/-- The decimal `significand * 10 ^ exponent`; none if it is too great. -/
def scale? (significand : Nat) (exponent : Int) : Option Float :=
  let value := (UInt64.ofNat significand).toFloat
  if exponent < 0 then some (scaleDown 4 value (-exponent).toNat)
  else if significand = 0 then some value
  else if exponent ≤ greatestPower then
    let scaled := value * powerOfTen exponent.toNat
    if scaled.isInf then none else some scaled
  else none

def readDigitRun (text : List Char) : Read (List Char) :=
  match text with
  | [] => .error .unfinished
  | first :: _ =>
    if first.isDigit then .ok (text.takeWhile Char.isDigit, text.dropWhile Char.isDigit)
    else .error .malformed

/-- Reads the digits before the point: a zero is not followed by another digit. -/
def readWhole (text : List Char) : Read (List Char) :=
  match readDigitRun text with
  | .error fault => .error fault
  | .ok (digits, rest) =>
    if digits.head? = some '0' && digits.length != 1 then .error .malformed
    else .ok (digits, rest)

def readFraction (text : List Char) : Read (Option (List Char)) :=
  match text with
  | '.' :: rest =>
    match readDigitRun rest with
    | .error fault => .error fault
    | .ok (digits, after) => .ok (some digits, after)
  | _ => .ok (none, text)

def readPower (negative : Bool) (text : List Char) : Read (Option Int) :=
  match readDigitRun text with
  | .error fault => .error fault
  | .ok (digits, after) =>
    let value : Int := naturalOfDigits digits
    .ok (some (if negative then -value else value), after)

def readSignedPower (text : List Char) : Read (Option Int) :=
  match text with
  | '-' :: digits => readPower true digits
  | '+' :: digits => readPower false digits
  | digits => readPower false digits

def readExponent (text : List Char) : Read (Option Int) :=
  match text with
  | [] => .ok (none, [])
  | mark :: rest =>
    if mark = 'e' || mark = 'E' then readSignedPower rest else .ok (none, text)

/-- The number with given digits, or none if it is too great. -/
def numberOf? (negative : Bool) (whole : List Char) (fraction : Option (List Char))
    (exponent : Option Int) : Option Value :=
  let (leading, kept) := gatherDigits 0 whole
  let isWhole := fraction.isNone && exponent.isNone && kept == whole.length
  if isWhole && !negative then some (.integer leading)
  else if isWhole && leading != 0 && minSigned ≤ -(leading : Int) then
    some (.integer (-(leading : Int)))
  else
    let (significand, places) := gatherDigits leading (fraction.getD [])
    let shift : Int := (whole.length - kept : Nat) - (places : Int) + exponent.getD 0
    (scale? significand shift).map fun value => .decimal (if negative then -value else value)

/-- Reads a number whose sign is known. -/
def readMagnitude (negative : Bool) (text : List Char) : Read Value :=
  match readWhole text with
  | .error fault => .error fault
  | .ok (whole, afterWhole) =>
    match readFraction afterWhole with
    | .error fault => .error fault
    | .ok (fraction, afterFraction) =>
      match readExponent afterFraction with
      | .error fault => .error fault
      | .ok (exponent, rest) =>
        match numberOf? negative whole fraction exponent with
        | some value => .ok (value, rest)
        | none => .error .malformed

def readNumber (text : List Char) : Read Value :=
  match text with
  | '-' :: digits => readMagnitude true digits
  | digits => readMagnitude false digits

end NetBlueprint.Json
