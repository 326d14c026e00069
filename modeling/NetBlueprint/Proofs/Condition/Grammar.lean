import NetBlueprint.Graph.Condition
import NetBlueprint.Proofs.Condition.Spaced
import NetBlueprint.Proofs.Decimal.Literals

/-!
Contract: the grammar of conditions, and that reading accepts exactly it.

Reading looks for the leftmost comparison and cuts the text there, before it knows what stands on
either side. That loses no condition, because no character of an operand starts a comparison; and it
admits no other text, because both sides are read to their ends.

Owns: the grammar of conditions and that `parse` reads exactly the texts of the grammar.

Does not own: the texts of numbers, and the text that a condition is printed as.
-/

namespace NetBlueprint

open Text

/-! ## The leftmost comparison -/

def opensComparison (character : Char) : Bool :=
  character ∈ ['=', '!', '<', '>']

private theorem cut?_of_opensComparison {first : Char}
    (noComparison : opensComparison first = false)
    (rest : List Char) : Comparison.cut? (first :: rest) = none := by
  have apart : first ≠ '=' ∧ first ≠ '!' ∧ first ≠ '<' ∧ first ≠ '>' := by
    simpa [opensComparison] using noComparison
  obtain ⟨_, _, _, _⟩ := apart
  unfold Comparison.cut?
  dsimp only
  split <;> split <;> first | rfl | contradiction

/-- A comparison is cut off whole. -/
theorem eq_of_cut? {text after : List Char} {comparison : Comparison}
    (cut : Comparison.cut? text = some (comparison, after)) :
    text = comparison.symbol.toList ++ after := by
  unfold Comparison.cut? at cut
  split at cut
  · cases cut
  · rename_i first rest
    split at cut
    · rename_i equals
      obtain ⟨rest, rfl⟩ := List.head?_eq_some_iff.1 equals
      split at cut <;> cases cut <;> rfl
    · split at cut <;> cases cut <;> rfl

/-- A comparison is cut off where no `=` follows that would make it a longer one. -/
theorem cut?_symbol (comparison : Comparison) {after : List Char}
    (ends : ∀ next ∈ after.head?, next ≠ '=') :
    Comparison.cut? (comparison.symbol.toList ++ after) = some (comparison, after) := by
  have noEquals : after.head? ≠ some '=' := fun same => ends _ same rfl
  cases comparison with
  | less | greater => exact if_neg noEquals
  | equal | unequal | atMost | atLeast => rfl

/-- Where a text is split, it consists of what is before the comparison, the comparison and what is
behind it. -/
theorem eq_of_splitAtComparison {text before after : List Char} {comparison : Comparison}
    (split : splitAtComparison text = some (before, comparison, after)) :
    text = before ++ (comparison.symbol.toList ++ after) := by
  induction text generalizing before with
  | nil => cases split
  | cons first rest inductionHypothesis =>
      rw [splitAtComparison] at split
      split at split
      · rename_i cut
        cases split
        exact eq_of_cut? cut
      · obtain ⟨⟨front, found, behind⟩, parts, same⟩ := Option.map_eq_some_iff.1 split
        cases same
        rw [inductionHypothesis parts, List.cons_append]

/-- What no comparison starts in is passed over. -/
theorem splitAtComparison_append {front : List Char}
    (noComparison : ∀ character ∈ front, opensComparison character = false) (text : List Char) :
    splitAtComparison (front ++ text) =
      (splitAtComparison text).map fun parts => (front ++ parts.1, parts.2) := by
  induction front with
  | nil => simp
  | cons first front inductionHypothesis =>
      rw [List.forall_mem_cons] at noComparison
      rw [List.cons_append, splitAtComparison, cut?_of_opensComparison noComparison.1,
        inductionHypothesis noComparison.2, Option.map_map]
      rfl

private theorem splitAtComparison_eq_none {text : List Char}
    (noComparison : ∀ character ∈ text, opensComparison character = false) :
    splitAtComparison text = none := by
  rw [← List.append_nil text, splitAtComparison_append noComparison]
  rfl

private theorem splitAtComparison_symbol {before after : List Char} (comparison : Comparison)
    (noComparison : ∀ character ∈ before, opensComparison character = false)
    (ends : ∀ next ∈ after.head?, next ≠ '=') :
    splitAtComparison (before ++ (comparison.symbol.toList ++ after)) =
      some (before, comparison, after) := by
  have here : splitAtComparison (comparison.symbol.toList ++ after) =
      some ([], comparison, after) := by
    have cut := cut?_symbol comparison ends
    cases shape : comparison.symbol.toList ++ after with
    | nil =>
        rw [shape] at cut
        cases cut
    | cons first rest =>
        rw [shape] at cut
        rw [splitAtComparison, cut]
  rw [splitAtComparison_append noComparison, here, Option.map_some, List.append_nil]

namespace Condition

/-! ## The grammar -/

/-- The parts of an optional index: none, or a number in brackets. -/
inductive SpellsIndex : List (List Char) → Option Nat → Prop where
  | missing : SpellsIndex [] none
  | bracketed {text : List Char} {position : Nat} (spells : SpellsNatural text position) :
      SpellsIndex [['['], text, [']']] (some position)

/-- A text spells a condition: an identifier, an optional index, a comparison and a literal, with
blanks allowed around each part and inside none. -/
inductive Spells : List Char → Condition → Prop where
  | parts {text name written : List Char} {bracketed : List (List Char)} {index : Option Nat}
      {comparison : Comparison} {literal : Decimal.Literal}
      (identifier : isIdentifier name = true) (spellsIndex : SpellsIndex bracketed index)
      (spellsLiteral : Decimal.SpellsLiteral written literal)
      (spaced : Spaced (name :: bracketed ++ [comparison.symbol.toList, written]) text) :
      Spells text
        { ident := String.ofList name, index, comparison, literal := literal.float }

/-! ## What is read is in the grammar -/

private theorem spaced_of_operand {text name : List Char} {index : Option Nat}
    (read : operand text = .ok (name, index)) :
    ∃ bracketed, SpellsIndex bracketed index ∧ Spaced (name :: bracketed) text := by
  have whole : text.takeWhile (· != '[') ++ text.dropWhile (· != '[') = text :=
    List.takeWhile_append_dropWhile
  unfold operand at read
  split at read
  · cases read
    exact ⟨[], .missing, .single text⟩
  · rename_i bracket inner behind
    split at read
    · rename_i closes
      split at read
      · rename_i position spells
        cases read
        have opens : bracket = '[' := by
          have stops := List.head?_dropWhile_not (· != '[') text
          rw [behind] at stops
          simpa using stops
        have closed : inner.dropLast ++ [']'] = inner := by
          obtain ⟨front, rfl⟩ := List.getLast?_eq_some_iff.1 closes
          simp
        rw [behind, opens, ← closed] at whole
        have number := (Spaced.trimmed_single inner.dropLast).append (.single [']'])
        have all : Spaced [_, ['['], _, [']']]
            (text.takeWhile (· != '[') ++ '[' :: (inner.dropLast ++ [']'])) :=
          (Spaced.trimmed_single _).append ((Spaced.single ['[']).append number)
        rw [whole] at all
        exact ⟨_, .bracketed (readUnsigned?_eq_some_iff.1 spells), all⟩
      · cases read
    · cases read

private theorem spells_of_parseChars {text : List Char} {condition : Condition}
    (read : parseChars text = .ok condition) : Spells text condition := by
  unfold parseChars at read
  split at read
  · cases read
  · rename_i before comparison after split
    dsimp only at read
    split at read
    · cases read
    · split at read
      · cases read
      · rename_i value number
        split at read
        · cases read
        · rename_i name index left
          split at read
          · rename_i identifier
            cases read
            obtain ⟨literal, spellsLiteral, rfl⟩ := Decimal.readFloat?_eq_some_iff.1 number
            obtain ⟨bracketed, spellsIndex, spaced⟩ := spaced_of_operand left
            have right := (Spaced.single comparison.symbol.toList).append
              (Spaced.trimmed_single after)
            have all := (Spaced.of_trimmed spaced).append right
            rw [← eq_of_splitAtComparison split] at all
            exact .parts identifier spellsIndex spellsLiteral all
          · cases read

/-! ## What is in the grammar is read -/

private theorem apart_of_opensComparison {character : Char}
    (opens : opensComparison character = true) :
    isBlank character = false ∧ isWordChar character = false ∧
      character ∉ ['+', '-', '.', '[', ']'] := by
  have symbols : character = '=' ∨ character = '!' ∨ character = '<' ∨ character = '>' := by
    simpa [opensComparison] using opens
  rcases symbols with rfl | rfl | rfl | rfl <;> decide

private theorem opensComparison_of_isWordChar {character : Char}
    (isWord : isWordChar character = true) : opensComparison character = false := by
  rw [Bool.eq_false_iff]
  intro opens
  rw [(apart_of_opensComparison opens).2.1] at isWord
  cases isWord

private theorem opensComparison_of_isBlank {character : Char} (blank : isBlank character = true) :
    opensComparison character = false := by
  rw [Bool.eq_false_iff]
  intro opens
  rw [(apart_of_opensComparison opens).1] at blank
  cases blank

private theorem apart_of_isNumeric {character : Char} (isNumeric : Decimal.IsNumeric character) :
    opensComparison character = false ∧ isBlank character = false := by
  rcases isNumeric with isWord | symbol
  · exact ⟨opensComparison_of_isWordChar isWord, isBlank_of_isWordChar isWord⟩
  · simp only [List.mem_cons, List.not_mem_nil, or_false] at symbol
    rcases symbol with rfl | rfl | rfl <;> decide

private theorem apart_of_spellsNatural {text : List Char} {position : Nat}
    (spells : SpellsNatural text position) : ∀ character ∈ text,
      opensComparison character = false ∧ isBlank character = false := by
  intro character member
  rcases spells.characters character member with rfl | digit
  · decide
  · have isWord := isWordChar_of_isDigit digit
    exact ⟨opensComparison_of_isWordChar isWord, isBlank_of_isWordChar isWord⟩

private theorem opensComparison_of_operand {name text : List Char}
    {bracketed : List (List Char)} {index : Option Nat} (identifier : isIdentifier name = true)
    (spellsIndex : SpellsIndex bracketed index) (spaced : Spaced (name :: bracketed) text) :
    ∀ character ∈ text, opensComparison character = false := by
  intro character member
  rcases spaced.mem member with blank | ⟨part, among, inside⟩
  · exact opensComparison_of_isBlank blank
  · rcases List.mem_cons.1 among with rfl | among
    · exact opensComparison_of_isWordChar ((isWord_of_isIdentifier identifier).2 character inside)
    · cases spellsIndex with
      | missing => cases among
      | bracketed spells =>
          simp only [List.mem_cons, List.not_mem_nil, or_false] at among
          rcases among with rfl | rfl | rfl
          · rw [List.mem_singleton.1 inside]
            decide
          · exact (apart_of_spellsNatural spells character inside).1
          · rw [List.mem_singleton.1 inside]
            decide

private theorem operand_of_bracketed {name number : List Char} {position : Nat}
    (noBracket : ∀ character ∈ name, (character != '[') = true)
    (read : readUnsigned? (trimmed number) = some position) :
    operand (name ++ '[' :: (number ++ [']'])) = .ok (trimmed name, some position) := by
  have behind : (name ++ '[' :: (number ++ [']'])).dropWhile (· != '[') =
      '[' :: (number ++ [']']) := by
    rw [List.dropWhile_append_of_pos noBracket]
    rfl
  have front : (name ++ '[' :: (number ++ [']'])).takeWhile (· != '[') = name := by
    rw [List.takeWhile_append_of_pos noBracket]
    exact List.append_nil name
  unfold operand
  simp only [behind, front]
  rw [if_pos List.getLast?_concat, List.dropLast_concat, read]

private theorem operand_of_spaced {name text : List Char} {bracketed : List (List Char)}
    {index : Option Nat} (identifier : isIdentifier name = true)
    (spellsIndex : SpellsIndex bracketed index) (spaced : Spaced (name :: bracketed) text) :
    operand (trimmed text) = .ok (name, index) := by
  obtain ⟨nonempty, isWord⟩ := isWord_of_isIdentifier identifier
  have solid : ∀ character ∈ name, isBlank character = false :=
    fun character member => isBlank_of_isWordChar (isWord character member)
  have noBracket : ∀ character ∈ name, (character != '[') = true := by
    intro character member
    rw [bne_iff_ne]
    rintro rfl
    exact absurd (isWord '[' member) (by decide)
  cases spellsIndex with
  | missing =>
      rw [spaced.trimmed_eq solid, operand, List.dropWhile_eq_nil_iff.2 noBracket]
  | @bracketed digits position spells =>
      -- In front of the bracket stands the name, behind it the number and the closing bracket.
      obtain ⟨front, inner, rfl, spacedName, spacedInner⟩ :=
        Spaced.exists_around [name] ['['] spaced
      obtain ⟨number, back, rfl, spacedNumber, blanks⟩ :=
        Spaced.exists_around [digits] [']'] spacedInner
      have read : readUnsigned? (trimmed number) = some position := by
        rw [spacedNumber.trimmed_eq fun character member =>
          (apart_of_spellsNatural spells character member).2]
        exact readUnsigned?_eq_some_iff.2 spells
      cases blanks with
      | nil blankBack =>
      cases spacedName with
      | @cons before _ gap _ blankFront blanks =>
      cases blanks with
      | nil blankGap =>
          have core : before ++ (name ++ gap) ++ (['['] ++ (number ++ ([']'] ++ back))) =
              before ++ ((name ++ gap ++ '[' :: (number ++ [']'])) ++ back) := by
            simp
          have starts : ∀ first ∈ (name ++ gap ++ '[' :: (number ++ [']'])).head?,
              isBlank first = false := by
            obtain ⟨first, rest, rfl⟩ := List.exists_cons_of_ne_nil nonempty
            rintro _ ⟨⟩
            exact solid first List.mem_cons_self
          have ends : ∀ last ∈ (name ++ gap ++ '[' :: (number ++ [']'])).getLast?,
              isBlank last = false := by
            rw [← List.cons_append, ← List.append_assoc, List.getLast?_concat]
            rintro _ ⟨⟩
            decide
          have spacedName : Spaced [name] (name ++ gap) := (Spaced.single name).append (.nil blankGap)
          have noBracket : ∀ character ∈ name ++ gap, (character != '[') = true := by
            refine List.forall_mem_append.2 ⟨noBracket, fun character member => ?_⟩
            rw [bne_iff_ne]
            rintro rfl
            exact absurd (blankGap '[' member) (by decide)
          rw [core, trimmed_of_blanks blankFront blankBack starts ends,
            operand_of_bracketed noBracket read, spacedName.trimmed_eq solid]

private theorem parseChars_of_spells {text : List Char} {condition : Condition}
    (spells : Spells text condition) : parseChars text = .ok condition := by
  cases spells with
  | @parts name written bracketed index comparison literal identifier spellsIndex spellsLiteral
      spaced =>
      obtain ⟨before, after, rfl, left, right⟩ :=
        Spaced.exists_around (name :: bracketed) comparison.symbol.toList spaced
      have numeric := fun character member =>
        apart_of_isNumeric (spellsLiteral.characters character member)
      have trimmedRight : trimmed after = written :=
        right.trimmed_eq fun character member => (numeric character member).2
      have ends : ∀ next ∈ after.head?, next ≠ '=' := by
        rintro _ head rfl
        rcases right.mem (List.mem_of_mem_head? head) with blank | ⟨part, among, inside⟩
        · exact absurd blank (by decide)
        · rw [List.mem_singleton.1 among] at inside
          exact absurd (numeric '=' inside).1 (by decide)
      have once : splitAtComparison written = none :=
        splitAtComparison_eq_none fun character member => (numeric character member).1
      have read : Decimal.readFloat? written = some literal.float :=
        Decimal.readFloat?_eq_some_iff.2 ⟨literal, spellsLiteral, rfl⟩
      unfold parseChars
      rw [splitAtComparison_symbol comparison
        (opensComparison_of_operand identifier spellsIndex left) ends]
      simp only [trimmedRight, once, read, operand_of_spaced identifier spellsIndex left,
        identifier, Option.isSome_none, Bool.false_eq_true, if_false, if_true]

/-- What is read as a condition is exactly what spells it. -/
theorem parseChars_eq_ok_iff {text : List Char} {condition : Condition} :
    parseChars text = .ok condition ↔ Spells text condition :=
  ⟨spells_of_parseChars, parseChars_of_spells⟩

/-- A source is a condition exactly if its characters are. -/
theorem parse_eq_ok_iff {source : String} {condition : Condition} :
    parse source = .ok condition ↔ parseChars source.toList = .ok condition := by
  unfold parse
  split
  · rename_i parsed
    rw [parsed, Except.ok.injEq, Except.ok.injEq]
  · rename_i refused
    rw [refused]
    exact ⟨nofun, nofun⟩

/-- Reading a condition accepts exactly the texts of the grammar: an identifier, an optional index
in brackets, a comparison and a literal, with blanks around each and inside none; and it finds the
name, the index, the comparison and the number that stand there. -/
theorem parse_eq_ok_iff_spells {source : String} {condition : Condition} :
    parse source = .ok condition ↔ Spells source.toList condition :=
  parse_eq_ok_iff.trans parseChars_eq_ok_iff

/-- A blank inside a comparison ends it. -/
example : parseChars "x < = 1".toList = .error .notALiteral := by rfl

end Condition

end NetBlueprint
