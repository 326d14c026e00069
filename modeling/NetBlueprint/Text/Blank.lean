/-!
Contract: the blank characters of Unicode and the trimming of a text.

The property is Unicode's `White_Space`: twenty-five characters, kept as ranges of code
points. Everything that skips or trims blanks in this library goes through `isBlank`, so the
no-break space and the ideographic space count, and the zero-width space does not.
-/

namespace NetBlueprint.Text

/-- The code points with the property `White_Space`, as inclusive ranges in ascending order. -/
def blankRanges : List (Nat × Nat) :=
  [(0x09, 0x0d), (0x20, 0x20), (0x85, 0x85), (0xa0, 0xa0), (0x1680, 0x1680), (0x2000, 0x200a),
    (0x2028, 0x2029), (0x202f, 0x202f), (0x205f, 0x205f), (0x3000, 0x3000)]

/-- Decides whether a character has the property `White_Space`. -/
def isBlank (character : Char) : Bool :=
  blankRanges.any fun range => range.1 ≤ character.toNat && character.toNat ≤ range.2

def skipBlank (text : List Char) : List Char :=
  text.dropWhile isBlank

def trimmed (text : List Char) : List Char :=
  (skipBlank (skipBlank text).reverse).reverse

/-- Drops the blanks at both ends of a text. -/
def trim (text : String) : String :=
  String.ofList (trimmed text.toList)

theorem skipBlank_nil : skipBlank [] = [] := rfl

theorem skipBlank_cons (character : Char) (rest : List Char) :
    skipBlank (character :: rest) =
      if isBlank character then skipBlank rest else character :: rest := by
  simp [skipBlank, List.dropWhile_cons]

/-- Dropping blanks makes no text longer. -/
theorem length_skipBlank_le (text : List Char) : (skipBlank text).length ≤ text.length :=
  (List.dropWhile_sublist _).length_le

end NetBlueprint.Text
