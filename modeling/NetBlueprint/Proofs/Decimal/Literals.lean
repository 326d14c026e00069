import NetBlueprint.Decimal.Literal
import NetBlueprint.Proofs.Words

/-!
Contract: the grammar of decimal literals, and that the readers of numbers read exactly it.

The grammar says which texts write a number and what number that is; it does not look for the end of
a run of digits. A run ends where the grammar lets it end, because neither a point nor the mark of an
exponent is a digit.

Owns: the grammar of literals and of indices, that each reader accepts the texts of its grammar and
no others, and the characters such texts are made of.

Does not own: which binary number is nearest to a literal.
-/

namespace NetBlueprint.Text

/-! ## Indices -/

/-- A text writes a natural number that fits 64 bits: digits, with or without a plus in front. -/
inductive SpellsNatural : List Char → Nat → Prop where
  | digits {digits : List Char} (nonempty : digits ≠ [])
      (areDigits : ∀ digit ∈ digits, digit.isDigit = true)
      (fits : naturalOfDigits digits ≤ maxUnsigned) :
      SpellsNatural digits (naturalOfDigits digits)
  | plus {digits : List Char} (nonempty : digits ≠ [])
      (areDigits : ∀ digit ∈ digits, digit.isDigit = true)
      (fits : naturalOfDigits digits ≤ maxUnsigned) :
      SpellsNatural ('+' :: digits) (naturalOfDigits digits)

private theorem readDigits?_eq_some_iff {text : List Char} {value : Nat} :
    readDigits? text = some value ↔
      text ≠ [] ∧ (∀ digit ∈ text, digit.isDigit = true) ∧ naturalOfDigits text = value := by
  simp [readDigits?, and_assoc]

private theorem readBounded_eq_some_iff {digits : List Char} {value : Nat} :
    ((readDigits? digits).bind fun value => if value ≤ maxUnsigned then some value else none) =
        some value ↔
      digits ≠ [] ∧ (∀ digit ∈ digits, digit.isDigit = true) ∧
        naturalOfDigits digits ≤ maxUnsigned ∧ naturalOfDigits digits = value := by
  rw [Option.bind_eq_some_iff]
  constructor
  · rintro ⟨found, read, kept⟩
    obtain ⟨nonempty, areDigits, rfl⟩ := readDigits?_eq_some_iff.1 read
    obtain ⟨fits, same⟩ := Option.ite_none_right_eq_some.1 kept
    exact ⟨nonempty, areDigits, fits, Option.some.inj same⟩
  · rintro ⟨nonempty, areDigits, fits, rfl⟩
    exact ⟨_, readDigits?_eq_some_iff.2 ⟨nonempty, areDigits, rfl⟩, if_pos fits⟩

/-- What is read as a natural number is exactly what writes one. -/
theorem readUnsigned?_eq_some_iff {text : List Char} {value : Nat} :
    readUnsigned? text = some value ↔ SpellsNatural text value := by
  constructor
  · intro read
    unfold readUnsigned? at read
    split at read <;> obtain ⟨nonempty, areDigits, fits, rfl⟩ := readBounded_eq_some_iff.1 read
    · exact .plus nonempty areDigits fits
    · exact .digits nonempty areDigits fits
  · intro spells
    cases spells with
    | plus nonempty areDigits fits =>
        exact readBounded_eq_some_iff.2 ⟨nonempty, areDigits, fits, rfl⟩
    | digits nonempty areDigits fits =>
        unfold readUnsigned?
        split
        · -- A plus is no digit.
          exact absurd (areDigits '+' List.mem_cons_self) (by decide)
        · exact readBounded_eq_some_iff.2 ⟨nonempty, areDigits, fits, rfl⟩

theorem SpellsNatural.characters {text : List Char} {value : Nat}
    (spells : SpellsNatural text value) :
    ∀ character ∈ text, character = '+' ∨ character.isDigit = true := by
  cases spells with
  | digits _ areDigits _ => exact fun digit member => .inr (areDigits digit member)
  | plus _ areDigits _ =>
      exact List.forall_mem_cons.2
        ⟨.inl rfl, fun digit member => .inr (areDigits digit member)⟩

/-- Only a letter is lowered to a letter. -/
theorem isAlpha_of_toLower {character : Char} (letter : character.toLower.isAlpha = true) :
    character.isAlpha = true := by
  delta Char.toLower at letter
  split at letter
  · rename_i isUpper
    have upper : character.isUpper = true := decide_eq_true isUpper
    exact Bool.or_eq_true_iff.2 (.inl upper)
  · exact letter

private theorem isWordChar_of_isAlpha {character : Char} (letter : character.isAlpha = true) :
    isWordChar character = true := by
  rw [isWordChar, Char.isAlphanum, letter]
  rfl

end NetBlueprint.Text

namespace NetBlueprint.Decimal

open NetBlueprint.Text

/-! ## The grammar of literals -/

/-- The optional sign of a number; the flag says that it is a minus. -/
inductive IsSign : List Char → Bool → Prop where
  | missing : IsSign [] false
  | plus : IsSign ['+'] false
  | minus : IsSign ['-'] true

inductive SpellsExponent : List Char → Int → Prop where
  | missing : SpellsExponent [] 0
  | written {mark : Char} {sign digits : List Char} {negative : Bool}
      (isMark : mark = 'e' ∨ mark = 'E') (isSign : IsSign sign negative) (nonempty : digits ≠ [])
      (areDigits : ∀ digit ∈ digits, digit.isDigit = true) :
      SpellsExponent (mark :: (sign ++ digits))
        (if negative then -(naturalOfDigits digits : Int) else naturalOfDigits digits)

/-- A text writes a finite value: digits that may have a point among them, before them or behind
them, and an optional exponent. -/
inductive SpellsFinite : List Char → Unsigned → Prop where
  | whole {whole tail : List Char} {exponent : Int} (nonempty : whole ≠ [])
      (areDigits : ∀ digit ∈ whole, digit.isDigit = true)
      (spellsExponent : SpellsExponent tail exponent) :
      SpellsFinite (whole ++ tail) (.finite (naturalOfDigits whole) exponent)
  | pointed {whole fraction tail : List Char} {exponent : Int}
      (nonempty : whole ≠ [] ∨ fraction ≠ [])
      (areDigits : ∀ digit ∈ whole, digit.isDigit = true)
      (areTenths : ∀ digit ∈ fraction, digit.isDigit = true)
      (spellsExponent : SpellsExponent tail exponent) :
      SpellsFinite (whole ++ '.' :: (fraction ++ tail))
        (.finite (naturalOfDigits (whole ++ fraction)) (exponent - fraction.length))

/-- A text writes an unsigned value: a finite one, or a word in any letter case. -/
inductive SpellsUnsigned : List Char → Unsigned → Prop where
  | infinite {word : List Char}
      (isWord : word.map Char.toLower = "inf".toList ∨
        word.map Char.toLower = "infinity".toList) : SpellsUnsigned word .infinite
  | notANumber {word : List Char} (isWord : word.map Char.toLower = "nan".toList) :
      SpellsUnsigned word .notANumber
  | finite {text : List Char} {value : Unsigned} (spells : SpellsFinite text value) :
      SpellsUnsigned text value

/-- A text writes a literal: an optional sign and an unsigned value. -/
inductive SpellsLiteral : List Char → Literal → Prop where
  | signed {sign text : List Char} {negative : Bool} {value : Unsigned}
      (isSign : IsSign sign negative) (spells : SpellsUnsigned text value) :
      SpellsLiteral (sign ++ text) ⟨negative, value⟩

def Literal.float (literal : Literal) : Float :=
  Float.ofBits (UInt64.ofNat (binary64.bitsOfLiteral literal))

/-! ## Characters of literals -/

def IsNumeric (character : Char) : Prop :=
  isWordChar character = true ∨ character ∈ ['+', '-', '.']

private theorem isNumeric_of_digits {digits : List Char}
    (areDigits : ∀ digit ∈ digits, digit.isDigit = true) :
    ∀ character ∈ digits, IsNumeric character :=
  fun digit member => .inl (isWordChar_of_isDigit (areDigits digit member))

private theorem areLetters_of_lowered {text word : List Char}
    (lowered : text.map Char.toLower = word) (letters : word.all Char.isAlpha = true) :
    ∀ character ∈ text, character.isAlpha = true :=
  fun _ member => isAlpha_of_toLower (List.all_eq_true.1 letters _
    (lowered ▸ List.mem_map_of_mem (f := Char.toLower) member))

/-- A sign is made of characters of literals. -/
theorem IsSign.characters {sign : List Char} {negative : Bool} (isSign : IsSign sign negative) :
    ∀ character ∈ sign, IsNumeric character := by
  cases isSign <;> simp [IsNumeric]

/-- An exponent is made of characters of literals. -/
theorem SpellsExponent.characters {text : List Char} {exponent : Int}
    (spells : SpellsExponent text exponent) : ∀ character ∈ text, IsNumeric character := by
  cases spells with
  | missing => nofun
  | written isMark isSign _ areDigits =>
      rw [List.forall_mem_cons, List.forall_mem_append]
      refine ⟨.inl ?_, isSign.characters, isNumeric_of_digits areDigits⟩
      rcases isMark with rfl | rfl <;> decide

/-- A finite value is made of characters of literals. -/
theorem SpellsFinite.characters {text : List Char} {value : Unsigned}
    (spells : SpellsFinite text value) : ∀ character ∈ text, IsNumeric character := by
  cases spells with
  | whole _ areDigits spellsExponent =>
      exact List.forall_mem_append.2 ⟨isNumeric_of_digits areDigits, spellsExponent.characters⟩
  | pointed _ areDigits areTenths spellsExponent =>
      rw [List.forall_mem_append, List.forall_mem_cons, List.forall_mem_append]
      exact ⟨isNumeric_of_digits areDigits, .inr (by decide), isNumeric_of_digits areTenths,
        spellsExponent.characters⟩

/-- An unsigned value is made of characters of literals. -/
theorem SpellsUnsigned.characters {text : List Char} {value : Unsigned}
    (spells : SpellsUnsigned text value) : ∀ character ∈ text, IsNumeric character := by
  have letters {word : List Char} (lowered : text.map Char.toLower = word)
      (areLetters : word.all Char.isAlpha = true) :
      ∀ character ∈ text, IsNumeric character := fun character member =>
    .inl (isWordChar_of_isAlpha (areLetters_of_lowered lowered areLetters character member))
  cases spells with
  | infinite isWord =>
      rcases isWord with lowered | lowered <;> exact letters lowered (by decide)
  | notANumber isWord => exact letters isWord (by decide)
  | finite spells => exact spells.characters

/-- A literal is made of word characters, signs and points. -/
theorem SpellsLiteral.characters {text : List Char} {literal : Literal}
    (spells : SpellsLiteral text literal) : ∀ character ∈ text, IsNumeric character := by
  cases spells with
  | signed isSign spells => exact List.forall_mem_append.2 ⟨isSign.characters, spells.characters⟩

/-! ## Readers of literals -/

/-- What the text behind a sign starts with is no sign itself. -/
def Unsignable (text : List Char) : Prop :=
  ∀ first ∈ text.head?, first ≠ '-' ∧ first ≠ '+'

private theorem isSign_cutSign (text : List Char) :
    ∃ sign, IsSign sign (cutSign text).1 ∧ text = sign ++ (cutSign text).2 := by
  unfold cutSign
  split
  · exact ⟨_, .minus, rfl⟩
  · exact ⟨_, .plus, rfl⟩
  · exact ⟨_, .missing, rfl⟩

private theorem cutSign_of_isSign {sign text : List Char} {negative : Bool}
    (isSign : IsSign sign negative)
    (unsignable : Unsignable text) : cutSign (sign ++ text) = (negative, text) := by
  cases isSign with
  | minus | plus => rfl
  | missing =>
      rw [List.nil_append]
      unfold cutSign
      split
      · exact absurd rfl (unsignable _ rfl).1
      · exact absurd rfl (unsignable _ rfl).2
      · rfl

private theorem unsignable_of_digits {digits : List Char}
    (areDigits : ∀ digit ∈ digits, digit.isDigit = true) : Unsignable digits := by
  intro first head
  have isDigit := areDigits first (List.mem_of_mem_head? head)
  constructor <;> rintro rfl <;> exact absurd isDigit (by decide)

private theorem readExponent?_eq_some_iff {text : List Char} {exponent : Int} :
    readExponent? text = some exponent ↔ SpellsExponent text exponent := by
  constructor
  · intro read
    unfold readExponent? at read
    split at read
    · cases read
      exact .missing
    · rename_i mark rest
      obtain ⟨isMark, read⟩ := Option.ite_none_right_eq_some.1 read
      obtain ⟨sign, isSign, same⟩ := isSign_cutSign rest
      rw [same]
      generalize cutSign rest = cut at isSign read ⊢
      obtain ⟨_, found, rfl⟩ := Option.map_eq_some_iff.1 read
      obtain ⟨_, digits, kept⟩ := Option.bind_eq_some_iff.1 found
      cases kept
      obtain ⟨nonempty, areDigits, rfl⟩ := readDigits?_eq_some_iff.1 digits
      rw [Bool.or_eq_true, decide_eq_true_eq, decide_eq_true_eq] at isMark
      exact .written isMark isSign nonempty areDigits
  · intro spells
    cases spells with
    | missing => rfl
    | written isMark isSign nonempty areDigits =>
        have read := readDigits?_eq_some_iff.2 ⟨nonempty, areDigits, rfl⟩
        rw [readExponent?, if_pos (by simpa using isMark),
          cutSign_of_isSign isSign (unsignable_of_digits areDigits)]
        dsimp only
        rw [read]
        rfl

private theorem cut_digits {digits rest : List Char}
    (areDigits : ∀ digit ∈ digits, digit.isDigit = true)
    (ends : ∀ next ∈ rest.head?, next.isDigit = false) :
    (digits ++ rest).takeWhile Char.isDigit = digits ∧
      (digits ++ rest).dropWhile Char.isDigit = rest := by
  rw [List.takeWhile_append_of_pos areDigits, List.dropWhile_append_of_pos areDigits]
  cases rest with
  | nil => simp
  | cons next rest =>
      have stops : ¬ next.isDigit = true := by simp [ends next rfl]
      rw [List.takeWhile_cons_of_neg stops, List.dropWhile_cons_of_neg stops]
      simp

theorem SpellsExponent.ends {text : List Char} {exponent : Int}
    (spells : SpellsExponent text exponent) :
    ∀ next ∈ text.head?, next.isDigit = false ∧ next ≠ '.' := by
  intro next head
  cases spells with
  | missing => cases head
  | written isMark =>
      cases head
      rcases isMark with rfl | rfl <;> decide

private theorem spells_of_readFinite? {text : List Char} {value : Unsigned}
    (read : readFinite? text = some value) : SpellsFinite text value := by
  suffices spells : SpellsFinite (text.takeWhile Char.isDigit ++ text.dropWhile Char.isDigit)
      value by
    rwa [List.takeWhile_append_dropWhile] at spells
  have areDigits : ∀ digit ∈ text.takeWhile Char.isDigit, digit.isDigit = true :=
    fun _ => List.mem_takeWhile_imp
  unfold readFinite? at read
  dsimp only at read
  generalize text.takeWhile Char.isDigit = whole at areDigits read ⊢
  generalize text.dropWhile Char.isDigit = rest at read ⊢
  split at read <;> obtain ⟨nonempty, read⟩ := Option.ite_none_left_eq_some.1 read <;>
    obtain ⟨exponent, tail, rfl⟩ := Option.map_eq_some_iff.1 read <;>
    have spellsExponent := readExponent?_eq_some_iff.1 tail
  · rename_i after
    have pointed : SpellsFinite (whole ++ '.' :: _) _ :=
      .pointed (by simpa [imp_iff_not_or] using nonempty) areDigits
        (fun _ => List.mem_takeWhile_imp) spellsExponent
    rwa [List.takeWhile_append_dropWhile] at pointed
  · have bare := SpellsFinite.whole (by simpa using nonempty) areDigits spellsExponent
    simpa using bare

private theorem readFinite?_of_whole {whole tail : List Char} {exponent : Int}
    (nonempty : whole ≠ []) (areDigits : ∀ digit ∈ whole, digit.isDigit = true)
    (spells : SpellsExponent tail exponent) :
    readFinite? (whole ++ tail) = some (.finite (naturalOfDigits whole) exponent) := by
  obtain ⟨kept, behind⟩ := cut_digits areDigits fun next head => (spells.ends next head).1
  have read := readExponent?_eq_some_iff.2 spells
  have nonempty : whole.isEmpty = false := List.isEmpty_eq_false_iff.2 nonempty
  unfold readFinite?
  dsimp only
  rw [kept, behind]
  split
  · exact absurd rfl (spells.ends _ rfl).2
  · simp [nonempty, read]

private theorem readFinite?_of_pointed {whole fraction tail : List Char} {exponent : Int}
    (nonempty : whole ≠ [] ∨ fraction ≠ [])
    (areDigits : ∀ digit ∈ whole, digit.isDigit = true)
    (areTenths : ∀ digit ∈ fraction, digit.isDigit = true)
    (spells : SpellsExponent tail exponent) :
    readFinite? (whole ++ '.' :: (fraction ++ tail)) =
      some (.finite (naturalOfDigits (whole ++ fraction)) (exponent - fraction.length)) := by
  have noDigit : ∀ next ∈ ('.' :: (fraction ++ tail)).head?, next.isDigit = false := by simp
  obtain ⟨kept, behind⟩ := cut_digits areDigits noDigit
  obtain ⟨keptTenths, behindTenths⟩ :=
    cut_digits areTenths fun next head => (spells.ends next head).1
  have read := readExponent?_eq_some_iff.2 spells
  have nonempty : ¬ (whole.isEmpty && fraction.isEmpty) = true := by
    simpa [imp_iff_not_or] using nonempty
  unfold readFinite?
  dsimp only
  rw [kept, behind]
  simp only [keptTenths, behindTenths, if_neg nonempty, read, Option.map_some]

private theorem readFinite?_eq_some_iff {text : List Char} {value : Unsigned} :
    readFinite? text = some value ↔ SpellsFinite text value := by
  refine ⟨spells_of_readFinite?, fun spells => ?_⟩
  cases spells with
  | whole nonempty areDigits spellsExponent =>
      exact readFinite?_of_whole nonempty areDigits spellsExponent
  | pointed nonempty areDigits areTenths spellsExponent =>
      exact readFinite?_of_pointed nonempty areDigits areTenths spellsExponent

/-- A finite value starts with a digit or a point. -/
theorem SpellsFinite.starts {text : List Char} {value : Unsigned} (spells : SpellsFinite text value) :
    ∃ first rest, text = first :: rest ∧ (first.isDigit = true ∨ first = '.') := by
  cases spells with
  | @whole digits _ _ nonempty areDigits =>
      obtain ⟨first, rest, rfl⟩ := List.exists_cons_of_ne_nil nonempty
      exact ⟨first, _, rfl, .inl (areDigits first List.mem_cons_self)⟩
  | @pointed digits _ _ _ _ areDigits =>
      cases digits with
      | nil => exact ⟨'.', _, rfl, .inr rfl⟩
      | cons first rest => exact ⟨first, _, rfl, .inl (areDigits first List.mem_cons_self)⟩

private theorem isAlpha_of_isDigit {character : Char} (digit : character.isDigit = true) :
    character.isAlpha = false := by
  have starts := startsIdentifier_of_isDigit digit
  rw [startsIdentifier, Bool.or_eq_false_iff] at starts
  exact starts.1

/-- A finite value is none of the words. -/
theorem SpellsFinite.lowered_ne {text word : List Char} {value : Unsigned}
    (spells : SpellsFinite text value) (letters : word.all Char.isAlpha = true) :
    text.map Char.toLower ≠ word := by
  intro lowered
  obtain ⟨first, rest, rfl, starts⟩ := spells.starts
  have letter := areLetters_of_lowered lowered letters first List.mem_cons_self
  rcases starts with digit | rfl
  · rw [isAlpha_of_isDigit digit] at letter
    cases letter
  · exact absurd letter (by decide)

/-- Behind its sign an unsigned value starts with no further sign. -/
theorem SpellsUnsigned.unsignable {text : List Char} {value : Unsigned}
    (spells : SpellsUnsigned text value) : Unsignable text := by
  have letters {word : List Char} (lowered : text.map Char.toLower = word)
      (areLetters : word.all Char.isAlpha = true) : Unsignable text := by
    intro first head
    have letter := areLetters_of_lowered lowered areLetters first (List.mem_of_mem_head? head)
    constructor <;> rintro rfl <;> exact absurd letter (by decide)
  cases spells with
  | infinite isWord =>
      rcases isWord with lowered | lowered <;> exact letters lowered (by decide)
  | notANumber isWord => exact letters isWord (by decide)
  | finite spells =>
      obtain ⟨first, rest, rfl, starts⟩ := spells.starts
      intro character head
      cases head
      constructor <;> rintro rfl <;> exact absurd starts (by decide)

/-- What is read as a literal is exactly what writes one. -/
theorem Literal.read?_eq_some_iff {text : List Char} {literal : Literal} :
    Literal.read? text = some literal ↔ SpellsLiteral text literal := by
  constructor
  · intro read
    obtain ⟨sign, isSign, same⟩ := isSign_cutSign text
    rw [same]
    unfold Literal.read? at read
    generalize cutSign text = cut at isSign read ⊢
    obtain ⟨value, found, rfl⟩ := Option.map_eq_some_iff.1 read
    refine .signed isSign ?_
    simp only [Bool.or_eq_true, decide_eq_true_eq] at found
    split at found
    · rename_i isWord
      cases found
      exact .infinite isWord
    · split at found
      · rename_i isWord
        cases found
        exact .notANumber isWord
      · exact .finite (readFinite?_eq_some_iff.1 found)
  · intro spells
    cases spells with
    | @signed _ body _ _ isSign spells =>
        unfold Literal.read?
        rw [cutSign_of_isSign isSign spells.unsignable]
        simp only [Bool.or_eq_true, decide_eq_true_eq]
        cases spells with
        | infinite isWord => rw [if_pos isWord, Option.map_some]
        | notANumber isWord =>
            have notInfinite : ¬ (body.map Char.toLower = "inf".toList ∨
                body.map Char.toLower = "infinity".toList) := by
              rw [isWord]
              decide
            rw [if_neg notInfinite, if_pos isWord, Option.map_some]
        | finite spells =>
            have notInfinite : ¬ (body.map Char.toLower = "inf".toList ∨
                body.map Char.toLower = "infinity".toList) :=
              not_or.2 ⟨spells.lowered_ne (by decide), spells.lowered_ne (by decide)⟩
            rw [if_neg notInfinite, if_neg (spells.lowered_ne (by decide)),
              readFinite?_eq_some_iff.2 spells, Option.map_some]

/-- What is read as a 64-bit number is exactly what writes a literal, and the number is the one the
literal stands for. -/
theorem readFloat?_eq_some_iff {text : List Char} {value : Float} :
    readFloat? text = some value ↔
      ∃ literal, SpellsLiteral text literal ∧ literal.float = value := by
  simp only [readFloat?, Option.map_eq_some_iff, Literal.read?_eq_some_iff, Literal.float]

end NetBlueprint.Decimal
