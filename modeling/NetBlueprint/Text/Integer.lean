/-!
Contract: decimal integers that fit 64 bits.

Reading takes an optional sign (a minus only where negative numbers fit) and one or more ASCII
digits, and nothing else: no blanks, no separators. A number outside the range is refused.
-/

namespace NetBlueprint.Text

def maxSigned : Int := 9223372036854775807

def minSigned : Int := -9223372036854775808

def maxUnsigned : Nat := 18446744073709551615

def fitsSigned (value : Int) : Bool :=
  decide (minSigned ≤ value) && decide (value ≤ maxSigned)

/-- Keeps an integer that fits signed 64 bits. -/
def signed? (value : Int) : Option Int :=
  if fitsSigned value then some value else none

def digitValue (character : Char) : Nat :=
  character.toNat - '0'.toNat

/-- The number that a run of decimal digits writes. -/
def naturalOfDigits (digits : List Char) : Nat :=
  digits.foldl (fun total digit => 10 * total + digitValue digit) 0

/-- Reads a non-empty run of digits that is the whole text. -/
def readDigits? (text : List Char) : Option Nat :=
  if text.isEmpty || !text.all Char.isDigit then none else some (naturalOfDigits text)

def readSigned? (text : List Char) : Option Int :=
  match text with
  | '-' :: digits => (readDigits? digits).bind fun value => signed? (-(value : Int))
  | '+' :: digits => (readDigits? digits).bind fun value => signed? value
  | digits => (readDigits? digits).bind fun value => signed? value

/-- Reads a decimal integer that fits unsigned 64 bits. -/
def readUnsigned? (text : List Char) : Option Nat :=
  let digits := match text with
    | '+' :: rest => rest
    | whole => whole
  (readDigits? digits).bind fun value => if value ≤ maxUnsigned then some value else none

/-- An integer is kept exactly if it lies in the signed range. -/
theorem signed?_eq_some_iff {value result : Int} :
    signed? value = some result ↔ minSigned ≤ value ∧ value ≤ maxSigned ∧ value = result := by
  simp [signed?, fitsSigned, and_assoc]

end NetBlueprint.Text
