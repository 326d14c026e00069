import NetBlueprint.Json.Number
import NetBlueprint.Json.Writer
import NetBlueprint.Proofs.Words

/-!
Contract: written numbers read back, also where a list or a record goes on behind them.

Owns:
- `readNumber_append`: what is read as a number is read as the same number when a comma or a
  closing bracket and anything at all follow;
- `readNumber_toString`: an integer that a reader keeps as an integer is read back from its
  digits.

Does not own: whether a decimal is read back. That is a property of the decimal, `ReadsBack`.
-/

namespace NetBlueprint.Json

open Text

/-- The text ends here or goes on as it may behind an element of a list or a record. -/
def Delimited (rest : List Char) : Prop :=
  ∀ next ∈ rest.head?, next = ',' ∨ next = ']' ∨ next = '\x7d'

theorem delimited_nil : Delimited [] := fun _ none => nomatch none

theorem delimited_comma (rest : List Char) : Delimited (',' :: rest) :=
  fun _ same => .inl (Option.some.inj same).symm

theorem delimited_bracket (rest : List Char) : Delimited (']' :: rest) :=
  fun _ same => .inr (.inl (Option.some.inj same).symm)

theorem delimited_brace (rest : List Char) : Delimited ('\x7d' :: rest) :=
  fun _ same => .inr (.inr (Option.some.inj same).symm)

/-- No character of a kind that a closing bracket and a comma are not of comes next. -/
theorem Delimited.head_ne {rest : List Char} {kind : Char → Bool} (delimited : Delimited rest)
    (comma : kind ',' = false) (bracket : kind ']' = false) (brace : kind '\x7d' = false) :
    ∀ next ∈ rest.head?, kind next = false := by
  intro next first
  rcases delimited next first with rfl | rfl | rfl
  · exact comma
  · exact bracket
  · exact brace

/-! ## Runs of digits -/

/-- A run of digits is complete: it is not empty and no digit follows. -/
structure IsRun (digits after : List Char) : Prop where
  notEmpty : digits ≠ []
  isDigit : ∀ digit ∈ digits, digit.isDigit = true
  ends : ∀ next ∈ after.head?, next.isDigit = false

/-- The digits in front are cut off where the run is complete. -/
theorem readDigitRun_eq_ok_iff {text digits after : List Char} :
    readDigitRun text = .ok (digits, after) ↔ IsRun digits after ∧ text = digits ++ after := by
  constructor
  · intro read
    rw [readDigitRun.eq_def] at read
    split at read
    · cases read
    · rename_i first rest
      split at read
      · rename_i digit
        cases read
        refine ⟨⟨?_, List.all_eq_true.1 List.all_takeWhile, fun next head => ?_⟩,
          List.takeWhile_append_dropWhile.symm⟩
        · rw [List.takeWhile_cons_of_pos digit]
          exact List.cons_ne_nil _ _
        · have kept := List.head?_dropWhile_not Char.isDigit (first :: rest)
          rw [Option.mem_def.1 head] at kept
          simpa using kept
      · cases read
  · rintro ⟨run, rfl⟩
    cases digits with
    | nil => exact absurd rfl run.notEmpty
    | cons first digits =>
      have whole : ((first :: digits) ++ after).takeWhile Char.isDigit = first :: digits ∧
          ((first :: digits) ++ after).dropWhile Char.isDigit = after := by
        rw [List.takeWhile_append_of_pos run.isDigit, List.dropWhile_append_of_pos run.isDigit]
        cases after with
        | nil => simp
        | cons next after =>
          have stops : ¬ next.isDigit = true := by simp [run.ends next rfl]
          rw [List.takeWhile_cons_of_neg stops, List.dropWhile_cons_of_neg stops]
          simp
      rw [List.cons_append] at whole ⊢
      rw [readDigitRun, if_pos (run.isDigit first List.mem_cons_self), whole.1, whole.2]

/-- A complete run stays complete when the text goes on as it may behind an element. -/
theorem IsRun.append {digits after rest : List Char} (run : IsRun digits after)
    (delimited : Delimited rest) : IsRun digits (after ++ rest) := by
  refine ⟨run.notEmpty, run.isDigit, ?_⟩
  cases after with
  | nil => exact delimited.head_ne (by decide) (by decide) (by decide)
  | cons next after => exact run.ends

/-! ## Numbers in front of more text -/

section Append

variable {text after rest : List Char}

private theorem readDigitRun_append {digits : List Char}
    (read : readDigitRun text = .ok (digits, after))
    (delimited : Delimited rest) :
    readDigitRun (text ++ rest) = .ok (digits, after ++ rest) := by
  obtain ⟨run, rfl⟩ := readDigitRun_eq_ok_iff.1 read
  exact readDigitRun_eq_ok_iff.2 ⟨run.append delimited, List.append_assoc _ _ _⟩

private theorem readWhole_append {digits : List Char} (read : readWhole text = .ok (digits, after))
    (delimited : Delimited rest) : readWhole (text ++ rest) = .ok (digits, after ++ rest) := by
  rw [readWhole] at read ⊢
  split at read
  · cases read
  · rename_i found behind run
    rw [readDigitRun_append run delimited]
    split at read
    · cases read
    · rename_i noZero
      cases read
      simp only [if_neg noZero]

private theorem readFraction_append {fraction : Option (List Char)}
    (read : readFraction text = .ok (fraction, after)) (delimited : Delimited rest) :
    readFraction (text ++ rest) = .ok (fraction, after ++ rest) := by
  have unpointed : ∀ {text : List Char}, (∀ next ∈ text.head?, (next == '.') = false) →
      readFraction text = .ok (none, text) := by
    intro text noPoint
    rw [readFraction.eq_def]
    split
    · exact absurd (noPoint '.' rfl) (by decide)
    · rfl
  cases text with
  | nil =>
    cases read
    exact unpointed (delimited.head_ne (by decide) (by decide) (by decide))
  | cons first text =>
    by_cases point : first = '.'
    · subst point
      rw [List.cons_append]
      rw [readFraction] at read ⊢
      split at read
      · cases read
      · rename_i digits behind run
        cases read
        rw [readDigitRun_append run delimited]
    · have noPoint : ∀ tail, readFraction (first :: tail) = .ok (none, first :: tail) :=
        fun tail => unpointed fun next same => by
          cases same
          simpa using point
      rw [noPoint] at read
      cases read
      exact noPoint _

private theorem readPower_append {negative : Bool} {exponent : Option Int}
    (read : readPower negative text = .ok (exponent, after)) (delimited : Delimited rest) :
    readPower negative (text ++ rest) = .ok (exponent, after ++ rest) := by
  rw [readPower] at read ⊢
  split at read
  · cases read
  · rename_i digits behind run
    cases read
    rw [readDigitRun_append run delimited]

private theorem readSignedPower_append {exponent : Option Int}
    (read : readSignedPower text = .ok (exponent, after)) (delimited : Delimited rest) :
    readSignedPower (text ++ rest) = .ok (exponent, after ++ rest) := by
  cases text with
  | nil => cases read
  | cons sign text =>
    by_cases minus : sign = '-'
    · subst minus
      exact readPower_append read delimited
    · by_cases plus : sign = '+'
      · subst plus
        exact readPower_append read delimited
      · have unsigned : ∀ tail, readSignedPower (sign :: tail) = readPower false (sign :: tail) :=
          fun tail => by simp [readSignedPower, minus, plus]
        rw [unsigned] at read
        rw [List.cons_append, unsigned]
        exact readPower_append read delimited

private theorem readExponent_append {exponent : Option Int}
    (read : readExponent text = .ok (exponent, after)) (delimited : Delimited rest) :
    readExponent (text ++ rest) = .ok (exponent, after ++ rest) := by
  have unmarked : ∀ {text : List Char},
      (∀ next ∈ text.head?, (next = 'e' || next = 'E') = false) →
      readExponent text = .ok (none, text) := by
    intro text noMark
    cases text with
    | nil => rfl
    | cons first text => simp [readExponent.eq_def, noMark first rfl]
  cases text with
  | nil =>
    cases read
    exact unmarked (delimited.head_ne (by decide) (by decide) (by decide))
  | cons first text =>
    cases marked : (first = 'e' || first = 'E' : Bool) with
    | true =>
      rw [List.cons_append]
      rw [readExponent, if_pos marked] at read ⊢
      exact readSignedPower_append read delimited
    | false =>
      have noMark : ∀ tail, readExponent (first :: tail) = .ok (none, first :: tail) :=
        fun tail => unmarked fun next same => by
          cases same
          exact marked
      rw [noMark] at read
      cases read
      exact noMark _

private theorem readMagnitude_append {negative : Bool} {value : Value}
    (read : readMagnitude negative text = .ok (value, after)) (delimited : Delimited rest) :
    readMagnitude negative (text ++ rest) = .ok (value, after ++ rest) := by
  rw [readMagnitude] at read ⊢
  split at read
  · cases read
  · rename_i whole afterWhole wholeRead
    rw [readWhole_append wholeRead delimited]
    simp only
    split at read
    · cases read
    · rename_i fraction afterFraction fractionRead
      rw [readFraction_append fractionRead delimited]
      simp only
      split at read
      · cases read
      · rename_i exponent behind exponentRead
        rw [readExponent_append exponentRead delimited]
        simp only
        split at read
        · cases read
          rfl
        · cases read

theorem readNumber_unsigned (unsigned : text.head? ≠ some '-') :
    readNumber text = readMagnitude false text := by
  rw [readNumber.eq_def]
  split
  · exact absurd rfl unsigned
  · rfl

/-- A number is read as the same number when the text goes on behind it. -/
theorem readNumber_append {value : Value} (read : readNumber text = .ok (value, after))
    (delimited : Delimited rest) : readNumber (text ++ rest) = .ok (value, after ++ rest) := by
  cases text with
  | nil => cases read
  | cons sign text =>
    by_cases minus : sign = '-'
    · subst minus
      exact readMagnitude_append read delimited
    · have noMinus : ∀ tail, (sign :: tail).head? ≠ some '-' := fun _ same =>
        minus (Option.some.inj same)
      rw [readNumber_unsigned (noMinus text)] at read
      rw [List.cons_append, readNumber_unsigned (noMinus (text ++ rest))]
      exact readMagnitude_append read delimited

end Append

/-! ## Integers -/

/-- Only zero is written with a zero in front. -/
theorem head?_toDigits_ne (value : Nat) (positive : 0 < value) :
    (Nat.toDigits 10 value).head? ≠ some '0' := by
  induction value using Nat.strongRecOn with
  | ind value ih =>
    rw [Nat.toDigits_eq_if (by decide)]
    split
    · rename_i small
      have digits : ∀ digit : Fin 10, 0 < digit.val → Nat.digitChar digit.val ≠ '0' := by decide
      simpa using digits ⟨value, small⟩ positive
    · rename_i large
      have ahead := ih (value / 10) (by omega) (by omega)
      obtain ⟨first, others, same⟩ := List.exists_cons_of_ne_nil
        (Nat.toDigits_ne_nil (n := value / 10) (b := 10))
      rw [same] at ahead ⊢
      exact ahead

/-- The digits of a number that fits are all gathered. -/
theorem gatherDigits_of_le : ∀ (digits : List Char) (significand : Nat),
    Nat.ofDigitChars 10 digits significand ≤ maxUnsigned →
    gatherDigits significand digits = (Nat.ofDigitChars 10 digits significand, digits.length)
  | [], significand, _ => by rw [gatherDigits, Nat.ofDigitChars_nil, List.length_nil]
  | digit :: digits, significand, fits => by
      rw [Nat.ofDigitChars_cons] at fits ⊢
      have grows : 10 * significand + digitValue digit ≤
          Nat.ofDigitChars 10 digits (10 * significand + digitValue digit) := by
        rw [Nat.ofDigitChars_eq_ofDigitChars_zero]
        exact Nat.le_add_right_of_le (Nat.le_mul_of_pos_left _ (Nat.pow_pos (by decide)))
      have rest := gatherDigits_of_le digits (10 * significand + digitValue digit) fits
      rw [gatherDigits]
      simp only [if_pos (Nat.le_trans grows fits), rest, List.length_cons]
      rfl

private theorem gatherDigits_toDigits {value : Nat} (fits : value ≤ maxUnsigned) :
    gatherDigits 0 (Nat.toDigits 10 value) = (value, (Nat.toDigits 10 value).length) := by
  have gathered := gatherDigits_of_le (Nat.toDigits 10 value) 0
  rw [Nat.ofDigitChars_toDigits (by decide) (by decide)] at gathered
  exact gathered fits

private theorem readWhole_toDigits (value : Nat) :
    readWhole (Nat.toDigits 10 value) = .ok (Nat.toDigits 10 value, []) := by
  have run : readDigitRun (Nat.toDigits 10 value) = .ok (Nat.toDigits 10 value, []) :=
    readDigitRun_eq_ok_iff.2 ⟨⟨Nat.toDigits_ne_nil,
      fun _ member => Nat.isDigit_of_mem_toDigits (by decide) (by decide) member,
      fun _ none => nomatch none⟩, (List.append_nil _).symm⟩
  have noZero : ((Nat.toDigits 10 value).head? = some '0' &&
      (Nat.toDigits 10 value).length != 1) = false := by
    rcases Nat.eq_zero_or_pos value with rfl | positive
    · rfl
    · simp [head?_toDigits_ne value positive]
  rw [readWhole, run]
  simp only [noZero, Bool.false_eq_true, if_false]

private theorem readMagnitude_toDigits {negative : Bool} {value : Nat} {number : Value}
    (whole : numberOf? negative (Nat.toDigits 10 value) none none = some number) :
    readMagnitude negative (Nat.toDigits 10 value) = .ok (number, []) := by
  rw [readMagnitude, readWhole_toDigits]
  simp only [readFraction, readExponent, whole]

/-- An integer that fits 64 bits, with or without a sign, is read back from its digits. -/
theorem readNumber_toString {value : Int} (least : minSigned ≤ value)
    (greatest : value ≤ maxUnsigned) :
    readNumber (toString value).toList = .ok (.integer value, []) := by
  rcases Int.lt_or_le value 0 with negative | notNegative
  · obtain ⟨size, rfl⟩ := Int.exists_eq_neg_ofNat (Int.le_of_lt negative)
    have fits : size ≤ maxUnsigned := by
      simp only [minSigned] at least
      simp only [maxUnsigned]
      omega
    have nonzero : size ≠ 0 := by omega
    rw [toList_toString_neg (by omega), readNumber]
    refine readMagnitude_toDigits ?_
    simp [numberOf?, gatherDigits_toDigits fits, nonzero, least]
  · obtain ⟨size, rfl⟩ := Int.eq_ofNat_of_zero_le notNegative
    have fits : size ≤ maxUnsigned := Int.ofNat_le.1 greatest
    have unsigned : (Nat.toDigits 10 size).head? ≠ some '-' := fun same => by
      have digit := Nat.isDigit_of_mem_toDigits (by decide) (by decide) (List.mem_of_head? same)
      exact absurd digit (by decide)
    rw [toList_toString_natCast, readNumber_unsigned unsigned]
    refine readMagnitude_toDigits ?_
    simp [numberOf?, gatherDigits_toDigits fits]

end NetBlueprint.Json
