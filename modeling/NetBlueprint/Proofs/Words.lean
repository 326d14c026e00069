import Mathlib.Data.List.DropRight
import Mathlib.Data.List.TakeWhile
import NetBlueprint.Text.Blank
import NetBlueprint.Text.Integer
import NetBlueprint.Text.Word

/-!
Contract: characters of words, blanks and digits.

A word character is not blank, so blanks and words do not run into each other. The decimal text of a
number consists of digits, and these spell the number.

Owns: what tells words, blanks and digits apart, and the decimal texts of integers.

Does not own: how a text is cut into words.
-/

namespace NetBlueprint.Text

/-! ## Words and blanks -/

/-- No character of a word is blank. -/
theorem isBlank_of_isWordChar {character : Char} (isWord : isWordChar character = true) :
    isBlank character = false := by
  have range : character = '_' ∨ 48 ≤ character.toNat ∧ character.toNat ≤ 122 := by
    rw [isWordChar, Bool.or_eq_true] at isWord
    rcases isWord with letter | underscore
    · right
      delta Char.isAlphanum Char.isAlpha Char.isUpper Char.isLower Char.isDigit at letter
      simp only [Bool.or_eq_true, Bool.and_eq_true, decide_eq_true_eq,
        UInt32.le_iff_toNat_le] at letter
      simp only [Char.toNat]
      have values : 'A'.val.toNat = 65 ∧ 'Z'.val.toNat = 90 ∧ 'a'.val.toNat = 97 ∧
          'z'.val.toNat = 122 ∧ '0'.val.toNat = 48 ∧ '9'.val.toNat = 57 := by decide
      omega
    · exact .inl (eq_of_beq underscore)
  rcases range with rfl | ⟨low, high⟩
  · decide
  · simp only [isBlank, blankRanges, List.any_cons, List.any_nil, Bool.or_false,
      Bool.or_eq_false_iff, Bool.and_eq_false_iff, decide_eq_false_iff_not]
    omega

/-- Nothing is trimmed off a text without blanks. -/
theorem trimmed_of_notBlank {text : List Char}
    (notBlank : ∀ character ∈ text, isBlank character = false) : trimmed text = text := by
  have skips : ∀ run : List Char, (∀ character ∈ run, isBlank character = false) →
      skipBlank run = run := by
    intro run each
    cases run with
    | nil => rfl
    | cons first rest =>
        rw [skipBlank_cons, each first List.mem_cons_self]
        rfl
  have backwards : ∀ character ∈ text.reverse, isBlank character = false :=
    fun character member => notBlank character (List.mem_reverse.1 member)
  rw [trimmed, skips text notBlank, skips text.reverse backwards, List.reverse_reverse]

theorem trimmed_of_isWord {run : List Char}
    (isWord : ∀ character ∈ run, isWordChar character = true) : trimmed run = run :=
  trimmed_of_notBlank fun character member => isBlank_of_isWordChar (isWord character member)

/-- An identifier is a word. -/
theorem isWord_of_isIdentifier {text : List Char} (identifier : isIdentifier text = true) :
    text ≠ [] ∧ ∀ character ∈ text, isWordChar character = true := by
  cases text with
  | nil => cases identifier
  | cons first rest =>
      simp only [isIdentifier, Bool.and_eq_true, List.all_eq_true] at identifier
      obtain ⟨starts, following⟩ := identifier
      refine ⟨List.cons_ne_nil first rest, ?_⟩
      intro character member
      rcases List.mem_cons.1 member with rfl | later
      · simp only [startsIdentifier, isWordChar, Char.isAlphanum, Bool.or_eq_true] at starts ⊢
        exact starts.imp_left Or.inl
      · exact following character later

/-- A blank stands outside every word. -/
theorem isWordChar_of_isBlank {character : Char} (blank : isBlank character = true) :
    isWordChar character = false := by
  rw [Bool.eq_false_iff]
  intro isWord
  rw [isBlank_of_isWordChar isWord] at blank
  cases blank

/-- Neither blanks nor a symbol behind them go on with a word. -/
theorem notWord_of_blanks {blanks rest : List Char} {symbol : Char}
    (blank : ∀ character ∈ blanks, isBlank character = true)
    (notWord : isWordChar symbol = false) :
    ∀ next ∈ (blanks ++ symbol :: rest).head?, isWordChar next = false := by
  intro next first
  cases blanks with
  | nil =>
      cases first
      exact notWord
  | cons character others =>
      cases first
      exact isWordChar_of_isBlank (blank _ List.mem_cons_self)

/-- A digit is a character of words. -/
theorem isWordChar_of_isDigit {character : Char} (digit : character.isDigit = true) :
    isWordChar character = true := by
  rw [isWordChar, Char.isAlphanum, digit, Bool.or_true, Bool.true_or]

/-- No identifier starts with a digit. -/
theorem startsIdentifier_of_isDigit {character : Char} (digit : character.isDigit = true) :
    startsIdentifier character = false := by
  rw [Bool.eq_false_iff]
  intro starts
  rw [startsIdentifier, Bool.or_eq_true] at starts
  rcases starts with letter | underscore
  · delta Char.isAlpha Char.isUpper Char.isLower Char.isDigit at letter digit
    simp only [Bool.or_eq_true, Bool.and_eq_true, decide_eq_true_eq, UInt32.le_iff_toNat_le]
      at letter digit
    have values : 'A'.val.toNat = 65 ∧ 'Z'.val.toNat = 90 ∧ 'a'.val.toNat = 97 ∧
        'z'.val.toNat = 122 ∧ '0'.val.toNat = 48 ∧ '9'.val.toNat = 57 := by decide
    omega
  · rw [eq_of_beq underscore] at digit
    exact absurd digit (by decide)

/-! ## Leading blanks -/

theorem skipBlank_append_of_blank {blanks : List Char}
    (blank : ∀ character ∈ blanks, isBlank character = true) (text : List Char) :
    skipBlank (blanks ++ text) = skipBlank text :=
  List.dropWhile_append_of_pos blank

theorem skipBlank_skipBlank (text : List Char) : skipBlank (skipBlank text) = skipBlank text :=
  List.dropWhile_idempotent isBlank text

/-- Leading blanks are cut off. -/
theorem exists_blanks_append_skipBlank (text : List Char) :
    ∃ blanks, (∀ character ∈ blanks, isBlank character = true) ∧
      text = blanks ++ skipBlank text :=
  ⟨text.takeWhile isBlank, fun _ member => List.mem_takeWhile_imp member,
    List.takeWhile_append_dropWhile.symm⟩

/-! ## Blanks at both ends -/

/-- Trimming cuts off blanks at both ends and nothing else. -/
theorem exists_blanks_trimmed (text : List Char) :
    ∃ front back, (∀ character ∈ front, isBlank character = true) ∧
      (∀ character ∈ back, isBlank character = true) ∧ text = front ++ (trimmed text ++ back) := by
  obtain ⟨front, blankFront, same⟩ := exists_blanks_append_skipBlank text
  obtain ⟨back, blankBack, sameBack⟩ := exists_blanks_append_skipBlank (skipBlank text).reverse
  refine ⟨front, back.reverse, blankFront, ?_, ?_⟩
  · exact fun character member => blankBack character (List.mem_reverse.1 member)
  · rw [trimmed, ← List.reverse_append, ← sameBack, List.reverse_reverse]
    exact same

/-- What is between blanks and neither starts nor ends with one is what trimming leaves. -/
theorem trimmed_of_blanks {front core back : List Char}
    (blankFront : ∀ character ∈ front, isBlank character = true)
    (blankBack : ∀ character ∈ back, isBlank character = true)
    (starts : ∀ first ∈ core.head?, isBlank first = false)
    (ends : ∀ last ∈ core.getLast?, isBlank last = false) :
    trimmed (front ++ (core ++ back)) = core := by
  have skips {run : List Char} (solid : ∀ first ∈ run.head?, isBlank first = false)
      (rest : List Char) (nonempty : run ≠ []) : skipBlank (run ++ rest) = run ++ rest := by
    obtain ⟨first, others, rfl⟩ := List.exists_cons_of_ne_nil nonempty
    rw [List.cons_append, skipBlank_cons, solid first rfl]
    rfl
  have blankReverse : ∀ character ∈ back.reverse, isBlank character = true :=
    fun character member => blankBack character (List.mem_reverse.1 member)
  rw [trimmed, skipBlank_append_of_blank blankFront]
  by_cases empty : core = []
  · subst empty
    have gone : skipBlank back = [] := List.dropWhile_eq_nil_iff.2 blankBack
    rw [List.nil_append, gone]
    rfl
  · rw [skips starts back empty, List.reverse_append, skipBlank_append_of_blank blankReverse,
      ← List.append_nil core.reverse, skips _ [] (by simpa using empty), List.append_nil,
      List.reverse_reverse]
    rw [List.head?_reverse]
    exact ends

/-! ## Decimal texts -/

/-- A natural number is written by its decimal digits. -/
theorem toList_toString_natCast (value : Nat) :
    (toString (value : Int)).toList = Nat.toDigits 10 value := by
  rw [Int.toString_eq_repr, Int.repr_eq_if, if_pos (Int.natCast_nonneg value), Int.toNat_natCast,
    Nat.toList_repr]

theorem toList_toString_neg {value : Nat} (positive : 0 < value) :
    (toString (-(value : Int))).toList = '-' :: Nat.toDigits 10 value := by
  rw [Int.toString_eq_repr, Int.repr_eq_if, if_neg (by omega), Int.neg_neg, Int.toNat_natCast,
    String.toList_append, Nat.toList_repr]
  rfl

/-- The digits of a number are read as this number. -/
theorem naturalOfDigits_toDigits (value : Nat) :
    naturalOfDigits (Nat.toDigits 10 value) = value :=
  Nat.ofDigitChars_toDigits (by decide) (by decide)

/-- A decimal text is made of digits, with a minus in front of those of a negative number. -/
theorem mem_toString {value : Int} {character : Char}
    (member : character ∈ (toString value).toList) :
    character = '-' ∨ character.isDigit = true := by
  have digit {size : Nat} (inside : character ∈ Nat.toDigits 10 size) :
      character.isDigit = true :=
    Nat.isDigit_of_mem_toDigits (by decide) (by decide) inside
  rcases Int.lt_or_le value 0 with negative | notNegative
  · obtain ⟨size, rfl⟩ := Int.exists_eq_neg_ofNat (Int.le_of_lt negative)
    rw [toList_toString_neg (by omega)] at member
    exact (List.mem_cons.1 member).imp_right digit
  · obtain ⟨size, rfl⟩ := Int.eq_ofNat_of_zero_le notNegative
    rw [toList_toString_natCast] at member
    exact .inr (digit member)

/-- No integer is written with a blank. -/
theorem isBlank_of_mem_toString {value : Int} {character : Char}
    (member : character ∈ (toString value).toList) : isBlank character = false := by
  rcases mem_toString member with rfl | digit
  · decide
  · exact isBlank_of_isWordChar (isWordChar_of_isDigit digit)

private theorem readDigits?_toDigits (size : Nat) :
    readDigits? (Nat.toDigits 10 size) = some size := by
  have nonempty : (Nat.toDigits 10 size).isEmpty = false := by
    rw [List.isEmpty_eq_false_iff]
    exact Nat.toDigits_ne_nil
  have digits : (Nat.toDigits 10 size).all Char.isDigit = true :=
    List.all_eq_true.2 fun _ member => Nat.isDigit_of_mem_toDigits (by decide) (by decide) member
  rw [readDigits?, nonempty, digits, naturalOfDigits_toDigits]
  rfl

/-- An integer that fits 64 bits is read back from its decimal text. -/
theorem readSigned?_toString {value : Int} (least : minSigned ≤ value)
    (greatest : value ≤ maxSigned) : readSigned? (toString value).toList = some value := by
  have fits : signed? value = some value := signed?_eq_some_iff.2 ⟨least, greatest, rfl⟩
  rcases Int.lt_or_le value 0 with negative | notNegative
  · obtain ⟨size, rfl⟩ := Int.exists_eq_neg_ofNat (Int.le_of_lt negative)
    rw [toList_toString_neg (by omega), readSigned?, readDigits?_toDigits]
    exact fits
  · obtain ⟨size, rfl⟩ := Int.eq_ofNat_of_zero_le notNegative
    rw [toList_toString_natCast]
    unfold readSigned?
    split
    · rename_i same
      have digit : ('-' : Char).isDigit = true :=
        Nat.isDigit_of_mem_toDigits (by decide) (by decide) (same ▸ List.mem_cons_self)
      exact absurd digit (by decide)
    · rename_i same
      have digit : ('+' : Char).isDigit = true :=
        Nat.isDigit_of_mem_toDigits (by decide) (by decide) (same ▸ List.mem_cons_self)
      exact absurd digit (by decide)
    · rw [readDigits?_toDigits]
      exact fits

end NetBlueprint.Text
