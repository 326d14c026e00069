import NetBlueprint.Proofs.Condition.Grammar

/-!
Contract: the text of a condition is read back.

Owns: that printing a condition that was read spells that condition again.

Does not own: whether a number is read back from its text.
-/

namespace NetBlueprint.Condition

open Text

/-- The text of a natural number that fits 64 bits writes it. -/
theorem spellsNatural_toDigits {position : Nat} (fits : position ≤ maxUnsigned) :
    SpellsNatural (Nat.toDigits 10 position) position := by
  have digits : ∀ digit ∈ Nat.toDigits 10 position, digit.isDigit = true :=
    fun _ member => Nat.isDigit_of_mem_toDigits (by decide) (by decide) member
  have value := naturalOfDigits_toDigits position
  have spells := SpellsNatural.digits Nat.toDigits_ne_nil digits (by rwa [value])
  rwa [value] at spells

def renderedIndex : Option Nat → List (List Char)
  | none => []
  | some position => [['['], Nat.toDigits 10 position, [']']]

/-- What is printed for an index that was read is that index. -/
theorem SpellsIndex.renderedIndex {bracketed : List (List Char)} {index : Option Nat}
    (spells : SpellsIndex bracketed index) : SpellsIndex (renderedIndex index) index := by
  cases spells with
  | missing => exact .missing
  | bracketed spells =>
      refine .bracketed (spellsNatural_toDigits ?_)
      cases spells with
      | digits _ _ fits | plus _ _ fits => exact fits

/-- A condition is printed without blanks inside the left operand and with one on either side of the
comparison. -/
theorem spaced_render (condition : Condition) :
    Spaced (condition.ident.toList :: renderedIndex condition.index ++
      [condition.comparison.symbol.toList, (Decimal.plain condition.literal).toList])
      condition.render.toList := by
  have blank : ∀ character ∈ [' '], isBlank character = true :=
    List.forall_mem_singleton.2 (by decide)
  have text : condition.render.toList =
      (condition.ident.toList :: renderedIndex condition.index).flatten ++
        ([' '] ++ condition.comparison.symbol.toList ++
          ([' '] ++ (Decimal.plain condition.literal).toList)) := by
    have opens : (toString "[").toList = ['['] := rfl
    have closes : (toString "]").toList = [']'] := rfl
    unfold render renderedIndex
    cases condition.index <;> simp [Nat.toList_repr, opens, closes]
  rw [text]
  exact (Spaced.flatten _).append
    (((Spaced.single _).blanks blank).append ((Spaced.single _).blanks blank))

/-- The text of a condition that was read is read as the same condition, where the number in it is
read back from its own text. On every input the condition that is read again therefore decides as
the one that was printed. -/
theorem parse_render_of_readsBack {source : String} {condition : Condition}
    (parsed : parse source = .ok condition)
    (readsBack : Decimal.readFloat? (Decimal.plain condition.literal).toList =
      some condition.literal) :
    ∃ again, parse condition.render = .ok again ∧ again = condition ∧
      ∀ inputs, again.evaluate inputs = condition.evaluate inputs := by
  suffices same : parse condition.render = .ok condition from ⟨condition, same, rfl, fun _ => rfl⟩
  obtain ⟨literal, spellsLiteral, value⟩ := Decimal.readFloat?_eq_some_iff.1 readsBack
  have spaced := spaced_render condition
  rw [parse_eq_ok_iff, parseChars_eq_ok_iff] at parsed ⊢
  cases parsed with
  | parts identifier spellsIndex _ _ =>
      have again := Spells.parts identifier spellsIndex.renderedIndex spellsLiteral
        (by simpa only [String.toList_ofList] using spaced)
      rwa [value] at again

/-- A negative number beside an index, spaced differently from how they are printed. -/
theorem parse_render_negative :
    ∃ condition again, parse " x [ 3 ]>= -0.5" = .ok condition ∧
      parse condition.render = .ok again ∧ again = condition ∧
      ∀ inputs, again.evaluate inputs = condition.evaluate inputs := by
  have parsed : parse " x [ 3 ]>= -0.5" =
      .ok { ident := "x", index := some 3, comparison := .atLeast,
            literal := Float.ofBits 0xbfe0000000000000 } := rfl
  have readsBack : Decimal.readFloat? (Decimal.plain (.ofBits 0xbfe0000000000000)).toList =
      some (.ofBits 0xbfe0000000000000) := by decide +kernel
  exact ⟨_, _, parsed, (parse_render_of_readsBack parsed readsBack).choose_spec⟩

end NetBlueprint.Condition
