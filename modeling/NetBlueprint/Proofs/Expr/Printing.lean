import NetBlueprint.Compiler.Expansion
import NetBlueprint.Compiler.Materialize
import NetBlueprint.Proofs.Substitution.Valuing

/-!
Contract: texts that are written here are read back.

An expression that was read holds no negative integer, since a minus is an operation of its own, and
every operation is written in parentheses. So its text determines it. The text of an integer, on the
other hand, is a minus and digits, and the digits are read before the minus is: the least integer is
lost, because its size alone is beyond 64 bits.

Owns: the texts of expressions and of integers, and what they are read as.

Does not own: expressions in whose text integers are filled in.
-/

namespace NetBlueprint

open Text

namespace Expr

/-! ## Expressions -/

/-- An expression that some text spells: its integers have no sign and its variables are
identifiers. -/
def IsPlain : Expr → Prop
  | .number value => 0 ≤ value ∧ value ≤ maxSigned
  | .reference name => isIdentifier name.toList = true
  | .negate operand => operand.IsPlain
  | .binary _ left right => left.IsPlain ∧ right.IsPlain

/-- What a text spells is plain. -/
theorem Spells.isPlain {rank : Rank} {text : List Char} {expression : Expr}
    (spells : Spells rank text expression) : expression.IsPlain := by
  induction spells with
  | number _ _ fits =>
      obtain ⟨_, greatest, rfl⟩ := signed?_eq_some_iff.1 fits
      exact ⟨Int.natCast_nonneg _, greatest⟩
  | reference identifier =>
      rw [IsPlain, String.toList_ofList]
      exact identifier
  | blank _ _ inductionHypothesis | group _ _ inductionHypothesis
  | unsigned _ inductionHypothesis | minus _ inductionHypothesis
  | plus _ inductionHypothesis | operand _ inductionHypothesis => exact inductionHypothesis
  | binary _ _ _ _ leftHypothesis rightHypothesis => exact ⟨leftHypothesis, rightHypothesis⟩

private theorem Spells.operand_of_signed {text : List Char} {expression : Expr}
    (spells : Spells .signed text expression) :
    ∀ precedence : Precedence, Spells precedence.operand text expression
  | .multiplicative => spells
  | .additive => .operand spells

private theorem Spells.additive {precedence : Precedence} {text : List Char} {expression : Expr}
    (spells : Spells (.ranked precedence) text expression) :
    Spells (.ranked .additive) text expression := by
  cases precedence with
  | multiplicative => exact .operand spells
  | additive => exact spells

private theorem exists_precedence : ∀ operator : Operator,
    ∃ precedence : Precedence, precedence.operator? operator.symbol = some operator
  | .add | .subtract => ⟨.additive, rfl⟩
  | .multiply | .divide => ⟨.multiplicative, rfl⟩

private theorem spells_binary {operator : Operator} {left right : Expr} {first second : List Char}
    (spellsLeft : Spells .signed first left) (spellsRight : Spells .signed second right) :
    Spells .signed
      ('(' :: (first ++ ' ' :: operator.symbol :: ' ' :: (second ++ [')'])))
      (.binary operator left right) := by
  obtain ⟨precedence, isOperator⟩ := exists_precedence operator
  have space : ∀ character ∈ [' '], isBlank character = true := by
    intro character member
    rw [List.mem_singleton.1 member]
    decide
  have inside : Spells (.ranked precedence) (first ++ ([' '] ++ operator.symbol :: ' ' :: second))
      (.binary operator left right) :=
    .binary (.operand (spellsLeft.operand_of_signed precedence)) space isOperator
      (.blank (by decide) (spellsRight.operand_of_signed precedence))
  have noBlank : ∀ character ∈ ([] : List Char), isBlank character = true := nofun
  have grouped : Spells .atom _ (.binary operator left right) := .group inside.additive noBlank
  simpa using Spells.unsigned grouped

/-- The text of a plain expression spells it. -/
theorem spells_characters : ∀ {expression : Expr}, expression.IsPlain →
    Spells .signed expression.characters expression
  | .number value, ⟨notNegative, greatest⟩ => by
      obtain ⟨size, rfl⟩ := Int.eq_ofNat_of_zero_le notNegative
      rw [characters, toList_toString_natCast]
      exact .unsigned (spells_natural greatest)
  | .reference name, identifier => by
      have spells : Spells .atom name.toList (.reference (String.ofList name.toList)) :=
        .reference identifier
      rw [String.ofList_toList] at spells
      exact .unsigned spells
  | .negate _, isPlain => .minus (spells_characters isPlain)
  | .binary _ _ _, ⟨leftPlain, rightPlain⟩ =>
      spells_binary (spells_characters leftPlain) (spells_characters rightPlain)

private theorem parse_render_of_isPlain {expression : Expr} (isPlain : expression.IsPlain) :
    parse expression.render = .ok expression := by
  rw [parse_eq_ok_iff, render, String.toList_ofList]
  exact ⟨_, [], (List.append_nil _).symm, nofun, .operand (.operand (spells_characters isPlain))⟩

/-- The text of an expression that was read is read as the same expression. In every environment it
therefore has the value of the text that was read first, or the same fault. -/
theorem render_read_back {source : String} {expression : Expr}
    (parsed : parse source = .ok expression) :
    parse expression.render = .ok expression ∧
      ∀ environment : Environment,
        Outcome.Matches (fun one other : ExprError => one.fault = other.fault) Eq
          (evaluateIn environment expression.render) (evaluateIn environment source) := by
  obtain ⟨_, _, _, _, spells⟩ := parse_eq_ok_iff.1 parsed
  have again := parse_render_of_isPlain spells.isPlain
  refine ⟨again, fun environment => ?_⟩
  rw [evaluateIn, evaluateIn, again, parsed]
  dsimp only
  cases expression.eval environment with
  | error fault => exact .error rfl
  | ok value => exact .ok rfl

/-- Negations of negations, of a product and of the greatest integer. -/
theorem negations_read_back :
    let product := Expr.binary .multiply (.reference "a_1") (.negate (.number 9223372036854775807))
    let expression := Expr.binary .divide (.negate (.negate product))
      (.binary .subtract (.reference "b") (.negate (.reference "b")))
    parse "--(+a_1*-9223372036854775807) / (b- -b)" = .ok expression ∧
      parse "(--(a_1 * -9223372036854775807) / (b - -b))" = .ok expression := by
  intro product expression
  have parsed : parse "--(+a_1*-9223372036854775807) / (b- -b)" = .ok expression := by
    decide +kernel
  have text : expression.render = "(--(a_1 * -9223372036854775807) / (b - -b))" := by
    decide +kernel
  exact ⟨parsed, text ▸ (render_read_back parsed).1⟩

/-! ## Integers -/

private theorem evaluate_decimal_least :
    evaluate (toString minSigned) = .error ⟨toString minSigned, .overflow⟩ := by
  decide +kernel

end Expr

/-- The decimal text of an integer of 64 bits evaluates to the integer exactly when that is not the
least one, whose text is an overflow, and the same holds where the text stands as an integer field
or as the bound of a loop. Read without evaluation, or as the value of a variable, no integer is
lost. -/
theorem decimal_read_back {value : Int} (least : minSigned ≤ value)
    (greatest : value ≤ maxSigned) :
    Expr.evaluate (toString value) =
        (if value = minSigned then .error ⟨toString value, .overflow⟩ else .ok value) ∧
      LayerSpec.integer (.expression (toString value)) =
        (if value = minSigned then .error (.expression ⟨toString value, .overflow⟩)
          else .ok value) ∧
      (∀ counter, Compile.bound counter (toString value) =
        (if value = minSigned then throw (.nonNumericBound counter (toString value))
          else return value)) ∧
      IntField.literal? (.expression (toString value)) = some value ∧
      ∀ (substitution : Substitution) (name : String),
        substitution.value? name = some (toString value) →
          substitution.environment name = .ok (some value) := by
  have evaluated : Expr.evaluate (toString value) =
      (if value = minSigned then .error ⟨toString value, .overflow⟩ else .ok value) := by
    split
    · rename_i isLeast
      subst isLeast
      exact Expr.evaluate_decimal_least
    · exact Expr.evaluate_decimal (by omega) greatest
  have trimmedDecimal : readSigned? (trimmed (toString value).toList) = some value := by
    rw [trimmed_of_notBlank fun _ member => isBlank_of_mem_toString member]
    exact readSigned?_toString least greatest
  refine ⟨evaluated, ?_, fun counter => ?_, trimmedDecimal, fun substitution name bound => ?_⟩
  · rw [LayerSpec.integer, unbracket_decimal, evaluated]
    split <;> rfl
  · unfold Compile.bound
    rw [unbracket_decimal, evaluated]
    by_cases isLeast : value = minSigned
    · simp only [if_pos isLeast]
    · simp only [if_neg isLeast]
  · rw [Substitution.environment, bound]
    dsimp only
    rw [trimmedDecimal]

/-- The integer above the least one. -/
theorem decimal_above_least_read_back :
    minSigned ≤ minSigned + 1 ∧ minSigned + 1 ≤ maxSigned ∧
      Expr.evaluate "-9223372036854775807" = .ok (-9223372036854775807) := by
  have least : minSigned ≤ minSigned + 1 := by decide
  have greatest : minSigned + 1 ≤ maxSigned := by decide
  exact ⟨least, greatest, (decimal_read_back least greatest).1⟩

/-- The least integer is not read back from its text, although a variable can have it as value. -/
theorem decimal_least_lost :
    toString minSigned = "-9223372036854775808" ∧
      Expr.evaluate "-9223372036854775808" ≠ .ok minSigned ∧
      Expr.evaluate "-9223372036854775808" = .error ⟨"-9223372036854775808", .overflow⟩ ∧
      IntField.literal? (.expression "-9223372036854775808") = some minSigned := by
  decide +kernel

end NetBlueprint
