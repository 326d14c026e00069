/-!
Contract: words, the identifiers of programs, conditions and expressions.

A word character is an ASCII letter, an ASCII digit or an underscore; an identifier is a
non-empty run of them that does not start with a digit. `cutWords` cuts a text into its maximal
runs of word characters and the single characters between them, and loses nothing.
-/

namespace NetBlueprint.Text

/-- Decides whether a character may stand inside a word. -/
def isWordChar (character : Char) : Bool :=
  character.isAlphanum || character == '_'

def startsIdentifier (character : Char) : Bool :=
  character.isAlpha || character == '_'

def isIdentifier : List Char → Bool
  | [] => false
  | first :: rest => startsIdentifier first && rest.all isWordChar

/-- A piece of a text: a maximal run of word characters, or one character outside every run. -/
inductive Piece where
  | word (characters : List Char)
  | other (character : Char)
deriving DecidableEq, Repr

def Piece.characters : Piece → List Char
  | .word characters => characters
  | .other character => [character]

/-- Puts one character in front of a text that is already cut. -/
def Piece.extend (character : Char) (pieces : List Piece) : List Piece :=
  if isWordChar character then
    match pieces with
    | .word characters :: rest => .word (character :: characters) :: rest
    | _ => .word [character] :: pieces
  else
    .other character :: pieces

/-- Cuts a text into maximal words and the characters between them. -/
def cutWords : List Char → List Piece
  | [] => []
  | character :: rest => Piece.extend character (cutWords rest)

def words (text : List Char) : List (List Char) :=
  (cutWords text).filterMap fun
    | .word characters => some characters
    | .other _ => none

/-- A character that is put in front stands in front of all pieces. -/
theorem Piece.characters_extend (character : Char) (pieces : List Piece) :
    (Piece.extend character pieces).flatMap Piece.characters =
      character :: pieces.flatMap Piece.characters := by
  unfold Piece.extend
  split
  · split <;> simp [Piece.characters]
  · simp [Piece.characters]

/-- Cutting a text loses nothing. -/
theorem characters_cutWords (text : List Char) :
    (cutWords text).flatMap Piece.characters = text := by
  induction text with
  | nil => rfl
  | cons character rest inductionHypothesis =>
      rw [cutWords, Piece.characters_extend, inductionHypothesis]

end NetBlueprint.Text
