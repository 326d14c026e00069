import NetBlueprint.Decimal.Shortest

/-!
Contract: how a number is written out in decimal.

A layout says from where to where the point is written in place, whether a whole number keeps a
final `.0`, and where ties go. The layouts of this library are the three values below; `fixedTwo`
writes two places and rounds an exact half to the even neighbour.
-/

namespace NetBlueprint.Decimal

/-- Decisions of a decimal format. The point is written in place when its position lies between
`leastPoint` and `greatestPoint`; a missing bound is no bound. -/
structure Layout where
  leastPoint : Option Int
  greatestPoint : Option Int
  keepsPoint : Bool
  tie : Tie
deriving DecidableEq, Repr

/-- Numbers inside messages: never an exponent, no trailing `.0`. -/
def plainLayout : Layout := ⟨none, none, false, .up⟩

/-- Vectors shown to a reader: an exponent below `1e-4` and from `1e16` on. -/
def vectorLayout : Layout := ⟨some (-3), some 16, true, .up⟩

def jsonLayout64 : Layout := ⟨some (-4), some 16, true, .toEven⟩

def jsonLayout32 : Layout := ⟨some (-5), some 13, true, .toEven⟩

namespace Layout

def inPlace (layout : Layout) (digits : List Char) (point : Int) : List Char :=
  if point ≤ 0 then
    '0' :: '.' :: (List.replicate (-point).toNat '0' ++ digits)
  else if (digits.length : Int) ≤ point then
    digits ++ List.replicate (point.toNat - digits.length) '0'
      ++ (if layout.keepsPoint then ['.', '0'] else [])
  else
    digits.take point.toNat ++ '.' :: digits.drop point.toNat

def scientific (digits : List Char) (point : Int) : List Char :=
  let fraction := digits.drop 1
  digits.take 1 ++ (if fraction.isEmpty then [] else '.' :: fraction)
    ++ 'e' :: (toString (point - 1)).toList

def placesPoint (layout : Layout) (point : Int) : Bool :=
  layout.leastPoint.all (fun bound => decide (bound ≤ point))
    && layout.greatestPoint.all (fun bound => decide (point ≤ bound))

def magnitude (layout : Layout) (value : Magnitude) : List Char :=
  if value.significand = 0 then
    if layout.keepsPoint then ['0', '.', '0'] else ['0']
  else
    let decimal := shortest layout.tie value
    let digits := Nat.toDigits 10 decimal.digits
    let point := digits.length + decimal.exponent
    if layout.placesPoint point then layout.inPlace digits point else scientific digits point

def write (layout : Layout) : Decoded → List Char
  | .notANumber => ['N', 'a', 'N']
  | .infinite negative => (if negative then ['-'] else []) ++ ['i', 'n', 'f']
  | .finite negative value => (if negative then ['-'] else []) ++ layout.magnitude value

end Layout

def plain (value : Float) : String :=
  String.ofList (plainLayout.write (decode64 value))

def hundredths (count : Nat) : String :=
  let cents := Nat.toDigits 10 (count % 100)
  toString (count / 100) ++ "." ++ String.ofList (List.replicate (2 - cents.length) '0' ++ cents)

/-- A 64-bit number with two places. The exact binary value is rounded, a half to the even
neighbour. -/
def fixedTwo (value : Float) : String :=
  match decode64 value with
  | .notANumber => "NaN"
  | .infinite negative => (if negative then "-" else "") ++ "inf"
  | .finite negative magnitude =>
    let count := roundQuotient (magnitude.significand * 100 * Nat.pow 2 magnitude.exponent.toNat)
      (Nat.pow 2 (-magnitude.exponent).toNat)
    (if negative then "-" else "") ++ hundredths count

end NetBlueprint.Decimal
