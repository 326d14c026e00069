import NetBlueprint.Proofs.Substitution.Filling
import NetBlueprint.Proofs.Substitution.Scanning

/-!
Contract: what filling in integers does to a text.

The counter of a loop only ever stands for an integer. Both scans of a substitution then put
integers in the place of stretches of the text and keep the rest, so what is said of a text
character by character carries over to what it becomes.

Owns: texts with integers spliced in, and substitutions that bind nothing else.
-/

namespace NetBlueprint

/-- Integers are put in the place of some stretches of a text. -/
inductive Spliced : List Char → List Char → Prop where
  | done : Spliced [] []
  | keep (character : Char) {text spliced : List Char} (rest : Spliced text spliced) :
      Spliced (character :: text) (character :: spliced)
  | put (dropped : List Char) (number : Int) {text spliced : List Char}
      (rest : Spliced text spliced) :
      Spliced (dropped ++ text) ((toString number).toList ++ spliced)

namespace Spliced

theorem refl : ∀ text : List Char, Spliced text text
  | [] => .done
  | character :: rest => .keep character (refl rest)

/-- Integers may be spliced into one part and into the next. -/
theorem append {first second firstSpliced secondSpliced : List Char}
    (earlier : Spliced first firstSpliced) (later : Spliced second secondSpliced) :
    Spliced (first ++ second) (firstSpliced ++ secondSpliced) := by
  induction earlier with
  | done => exact later
  | keep character _ inductionHypothesis => exact .keep character inductionHypothesis
  | put dropped number _ inductionHypothesis =>
      rw [List.append_assoc, List.append_assoc]
      exact .put dropped number inductionHypothesis

/-- An integer may take the place of any stretch. -/
theorem number (dropped : List Char) (number : Int) :
    Spliced dropped (toString number).toList := by
  have spliced := Spliced.put dropped number .done
  rwa [List.append_nil, List.append_nil] at spliced

/-- Scanning a text piece by piece splices it when every piece is spliced. -/
theorem flatMap {Piece : Type} {characters fill : Piece → List Char} {pieces : List Piece}
    (each : ∀ piece ∈ pieces, Spliced (characters piece) (fill piece)) :
    Spliced (pieces.flatMap characters) (pieces.flatMap fill) := by
  induction pieces with
  | nil => exact .done
  | cons first rest inductionHypothesis =>
      exact (each first List.mem_cons_self).append
        (inductionHypothesis fun piece member => each piece (List.mem_cons_of_mem _ member))

/-- An integer ends with a digit. -/
theorem last_digit (number : Int) :
    ∃ front digit, (toString number).toList = front ++ [digit] ∧ digit.isDigit = true := by
  have digits (value : Nat) :
      ∃ front digit, value.repr.toList = front ++ [digit] ∧ digit.isDigit = true := by
    rw [Nat.toList_repr]
    rcases List.eq_nil_or_concat (Nat.toDigits 10 value) with empty | ⟨front, digit, same⟩
    · exact absurd empty Nat.toDigits_ne_nil
    · rw [List.concat_eq_append] at same
      refine ⟨front, digit, same, ?_⟩
      have member : digit ∈ Nat.toDigits 10 value := by
        rw [same]
        exact List.mem_append_right _ (List.mem_singleton_self _)
      exact Nat.isDigit_of_mem_toDigits (by decide) (by decide) member
  cases number with
  | ofNat value => exact digits value
  | negSucc value =>
      obtain ⟨front, digit, same, isDigit⟩ := digits (value + 1)
      refine ⟨'-' :: front, digit, ?_, isDigit⟩
      show ("-" ++ (value + 1).repr).toList = _
      rw [String.toList_append, same]
      rfl

theorem exists_digit (number : Int) : ∃ digit ∈ (toString number).toList, digit.isDigit = true := by
  obtain ⟨front, digit, same, isDigit⟩ := last_digit number
  exact ⟨digit, by rw [same]; exact List.mem_append_right _ (List.mem_singleton_self _), isDigit⟩

/-- Whatever is spliced in leaves a digit. -/
theorem eq_of_noDigit {text spliced : List Char} (splices : Spliced text spliced)
    (noDigit : ∀ character ∈ spliced, character.isDigit = false) : spliced = text := by
  induction splices with
  | done => rfl
  | keep character _ inductionHypothesis =>
      rw [inductionHypothesis fun other member => noDigit other (List.mem_cons_of_mem _ member)]
  | put dropped number _ _ =>
      obtain ⟨digit, member, isDigit⟩ := exists_digit number
      have isNone := noDigit digit (List.mem_append_left _ member)
      rw [isDigit] at isNone
      cases isNone

end Spliced

def Segment.characters : Segment → List Char
  | .plain characters => characters
  | .group inner => '[' :: inner ++ [']']

private theorem characters_segmentsFrom :
    ∀ (text : List Char) (pending : Option (List Char)),
      (segmentsFrom pending text).flatMap Segment.characters =
        (match pending with
          | none => []
          | some inner => '[' :: inner.reverse) ++ text
  | [], none => rfl
  | [], some inner => by simp [segmentsFrom, Segment.characters]
  | character :: rest, none => by
      rw [segmentsFrom]
      split
      · rename_i isOpening
        rw [characters_segmentsFrom rest, isOpening]
        rfl
      · rw [List.flatMap_cons, characters_segmentsFrom rest]
        rfl
  | character :: rest, some inner => by
      rw [segmentsFrom]
      split
      · rename_i isClosing
        rw [List.flatMap_cons, characters_segmentsFrom rest, isClosing]
        simp [Segment.characters]
      · rw [characters_segmentsFrom rest]
        simp

/-- Cutting a text at its bracket groups loses nothing. -/
theorem characters_segments (text : List Char) :
    (segments text).flatMap Segment.characters = text :=
  characters_segmentsFrom text none

namespace Substitution

variable {substitution : Substitution}

/-- Every value is the spelling of an integer, and no name is renamed. -/
structure IsNumeric (substitution : Substitution) : Prop where
  values : ∀ entry ∈ substitution.bindings, ∃ number : Int, entry.2 = toString number
  noRenames : substitution.renames = []

theorem IsNumeric.without (numeric : substitution.IsNumeric) (names : List String) :
    (substitution.without names).IsNumeric :=
  ⟨fun entry member => numeric.values entry (List.mem_filter.1 member).1, numeric.noRenames⟩

/-- What a name is bound to is an integer. -/
theorem IsNumeric.value? (numeric : substitution.IsNumeric) {key value : String}
    (found : substitution.value? key = some value) : ∃ number : Int, value = toString number :=
  numeric.values (key, value) (Table.mem_of_lookup found)

/-- Names are filled in like any other text. -/
theorem IsNumeric.name_eq (numeric : substitution.IsNumeric) (text : String) :
    substitution.name text = substitution.substitute text := by
  rw [name]
  cases substitution.substitute text with
  | error error => rfl
  | ok filled =>
      show Except.ok (substitution.rename filled) = _
      rw [rename, numeric.noRenames]
      rfl

/-- The first scan only splices integers in. -/
theorem spliced_fillSegments (numeric : substitution.IsNumeric) :
    ∀ {parts : List Segment} {filled : List Char},
      substitution.fillSegments parts = .ok filled →
        Spliced (parts.flatMap Segment.characters) filled
  | [], filled, same => by
      cases same
      exact .done
  | .plain characters :: rest, filled, same => by
      rw [fillSegments] at same
      split at same
      · rename_i others fills
        cases same
        exact (Spliced.refl characters).append (spliced_fillSegments numeric fills)
      · cases same
  | .group inner :: rest, filled, same => by
      rw [fillSegments] at same
      split at same
      · cases same
      rename_i first fillsFirst
      split at same
      · rename_i others fills
        cases same
        refine Spliced.append ?_ (spliced_fillSegments numeric fills)
        rw [fillGroup] at fillsFirst
        split at fillsFirst
        · dsimp only at fillsFirst
          split at fillsFirst
          · rename_i value found
            cases fillsFirst
            obtain ⟨number, rfl⟩ := numeric.value? found
            exact .number _ number
          · split at fillsFirst
            · rename_i number _
              cases fillsFirst
              exact .number _ number
            · cases fillsFirst
        · cases fillsFirst
          exact .refl _
      · cases same

/-- The second scan only splices integers in. -/
theorem spliced_fillWords (numeric : substitution.IsNumeric) (text : List Char) :
    Spliced text (substitution.fillWords text) := by
  have spliced : Spliced ((Text.cutWords text).flatMap Text.Piece.characters)
      (substitution.fillWords text) := by
    refine .flatMap fun piece _ => ?_
    cases piece with
    | other character => exact .refl _
    | word characters =>
        rw [fillPiece]
        split
        · rename_i value found
          obtain ⟨number, rfl⟩ := numeric.value? found
          exact .number _ number
        · exact .refl _
  rwa [Text.characters_cutWords] at spliced

/-- Filling in integers splices a text twice. -/
theorem spliced_of_substitute (numeric : substitution.IsNumeric) {text filled : String}
    (fills : substitution.substitute text = .ok filled) :
    ∃ between, Spliced text.toList between ∧ Spliced between filled.toList := by
  rw [substitute_eq] at fills
  obtain ⟨scanned, scans, rfl⟩ := Outcome.map_eq_ok.1 fills
  refine ⟨scanned, ?_, ?_⟩
  · have spliced := spliced_fillSegments numeric scans
    rwa [characters_segments] at spliced
  · rw [String.toList_ofList]
    exact spliced_fillWords numeric scanned

/-- A text without digits was not touched by the integers. -/
theorem eq_of_substitute (numeric : substitution.IsNumeric) {text filled : String}
    (fills : substitution.substitute text = .ok filled)
    (noDigit : ∀ character ∈ filled.toList, character.isDigit = false) : filled = text := by
  obtain ⟨between, first, second⟩ := spliced_of_substitute numeric fills
  have same := second.eq_of_noDigit noDigit
  rw [same] at noDigit
  exact String.toList_inj.1 (same.trans (first.eq_of_noDigit noDigit))

end Substitution

end NetBlueprint
