import NetBlueprint.Decimal.Literal
import NetBlueprint.Toml.Table

/-!
Contract: values of TOML that stand without quotes.

A boolean, an integer in one of four bases, a number with a fraction or exponent, or a date or
time. Underscores may stand between two digits. A decimal integer has no leading zero, and every
integer fits signed 64 bits. A number with a fraction or exponent is refused where its 64-bit value
is positive infinity; infinity itself has a name.
-/

namespace NetBlueprint.Toml

open NetBlueprint.Decimal NetBlueprint.Text

/-- Decides whether a character may stand in an unquoted value. -/
def isScalarChar (character : Char) : Bool :=
  character.isAlphanum || "+-_.:".toList.contains character

/-- Removes underscores, each of which has to stand between two digits. -/
def digits? (isDigit : Char → Bool) : List Char → Option (List Char)
  | [] => none
  | [last] => if isDigit last then some [last] else none
  | first :: second :: rest =>
    if isDigit first then
      if second = '_' then
        (digits? isDigit rest).map (first :: ·)
      else (digits? isDigit (second :: rest)).map (first :: ·)
    else none

def baseDigit? (character : Char) : Option Nat :=
  if character.isDigit then some (digitValue character)
  else if 'a' ≤ character && character ≤ 'f' then some (character.toNat - 'a'.toNat + 10)
  else if 'A' ≤ character && character ≤ 'F' then some (character.toNat - 'A'.toNat + 10)
  else none

def isDigitOf (base : Nat) (character : Char) : Bool :=
  (baseDigit? character).any fun value => value < base

def numberIn (base : Nat) (digits : List Char) : Nat :=
  digits.foldl (fun total digit => total * base + (baseDigit? digit).getD 0) 0

def naturalIn? (base : Nat) (text : List Char) : Option Nat :=
  (digits? (isDigitOf base) text).map (numberIn base)

/-- Reads decimal digits without a leading zero. -/
def decimal? (text : List Char) : Option Nat :=
  if text.head? = some '0' && text.length != 1 then none else naturalIn? 10 text

def integer? (text : List Char) : Option Int :=
  let value? : Option Int := match text with
    | '0' :: 'x' :: digits => (naturalIn? 16 digits).map Int.ofNat
    | '0' :: 'o' :: digits => (naturalIn? 8 digits).map Int.ofNat
    | '0' :: 'b' :: digits => (naturalIn? 2 digits).map Int.ofNat
    | _ =>
      let (negative, digits) := cutSign text
      (decimal? digits).map fun value => if negative then -(value : Int) else value
  value?.bind signed?

/-- Decides whether digits with a fraction or an exponent write a number that is too great for
64 bits. -/
def overflows (text : List Char) : Bool :=
  match Literal.read? (text.filter (· != '_')) with
  | some ⟨false, value⟩ => binary64.bitsOf value == binary64.infinityBits
  | _ => false

/-- Decides whether a text is a number with a fraction or an exponent, or a special number. -/
def isFractional (text : List Char) : Bool :=
  let (_, unsigned) := cutSign text
  let mantissa := unsigned.takeWhile fun character => character != 'e' && character != 'E'
  let exponent := (unsigned.drop mantissa.length).drop 1
  let hasExponent := mantissa.length != unsigned.length
  let whole := mantissa.takeWhile (· != '.')
  let fraction := (mantissa.drop whole.length).drop 1
  let hasFraction := whole.length != mantissa.length
  unsigned = "inf".toList || unsigned = "nan".toList ||
    ((hasExponent || hasFraction) && (decimal? whole).isSome
      && (!hasFraction || (naturalIn? 10 fraction).isSome)
      && (!hasExponent || (naturalIn? 10 (cutSign exponent).2).isSome)
      && !overflows text)

/-- Reads a number of exactly so many digits that lies between two bounds. -/
def isField (width low high : Nat) (text : List Char) : Bool :=
  text.length == width && text.all Char.isDigit
    && decide (low ≤ naturalOfDigits text) && decide (naturalOfDigits text ≤ high)

/-- Number of days of a month in the Gregorian calendar. -/
def daysIn (year month : Nat) : Nat :=
  if month = 2 then
    if year % 4 = 0 && (year % 100 != 0 || year % 400 = 0) then 29 else 28
  else if [4, 6, 9, 11].contains month then 30
  else 31

def isDate (text : List Char) : Bool :=
  let year := text.take 4
  let month := (text.drop 5).take 2
  text.length == 10 && isField 4 0 9999 year && (text.drop 4).head? == some '-'
    && isField 2 1 12 month && (text.drop 7).head? == some '-'
    && isField 2 1 (daysIn (naturalOfDigits year) (naturalOfDigits month)) (text.drop 8)

def isTime (text : List Char) : Bool :=
  isField 2 0 23 (text.take 2) && (text.drop 2).head? == some ':'
    && isField 2 0 59 ((text.drop 3).take 2) && (text.drop 5).head? == some ':'
    && isField 2 0 60 ((text.drop 6).take 2)
    && (match text.drop 8 with
      | [] => true
      | '.' :: fraction => !fraction.isEmpty && fraction.all Char.isDigit
      | _ => false)

def isOffset (text : List Char) : Bool :=
  isField 2 0 23 (text.take 2) && (text.drop 2).head? == some ':' && isField 2 0 59 (text.drop 3)

def isZonedTime (text : List Char) : Bool :=
  let clock := text.takeWhile fun character =>
    character.isDigit || character == ':' || character == '.'
  isTime clock && (match text.drop clock.length with
    | [] => true
    | ['Z'] | ['z'] => true
    | '+' :: offset | '-' :: offset => isOffset offset
    | _ => false)

/-- Decides whether a text is a date, a time, or both with `T` between them. -/
def isMoment (text : List Char) : Bool :=
  isDate text || isTime text ||
    (isDate (text.take 10) && ((text.drop 10).head? == some 'T' || (text.drop 10).head? == some 't')
      && isZonedTime (text.drop 11))

def scalar? (text : List Char) : Option Node :=
  if text = "true".toList then some (.boolean true)
  else if text = "false".toList then some (.boolean false)
  else
    match integer? text with
    | some value => some (.integer value)
    | none => if isFractional text || isMoment text then some .other else none

end NetBlueprint.Toml
