import NetBlueprint.Proofs.Expr.Grammar
import NetBlueprint.Proofs.Outcome
import NetBlueprint.Proofs.Substitution.Scanning
import NetBlueprint.Proofs.Table

/-!
Contract: expressions into which integers are filled in.

An integer takes the place of a variable as its decimal text. A text that spells an expression then
spells the expression with the integers in the place of the variables, a negative one as the
negation of its size. So filling in and evaluating without variables comes to the same as evaluating
with the integers as environment, faults included.

Owns: expressions with integers in the place of variables, and their texts.

Does not own: bindings to texts that spell no integer.
-/

namespace NetBlueprint

open Text

/-! ## Trees -/

namespace Environment

def ofValues (values : List (String × Int)) : Environment :=
  fun name => .ok (values.lookup name)

end Environment

namespace Expr

/-- The expression that the decimal text of an integer spells. -/
def ofInt (value : Int) : Expr :=
  if value < 0 then .negate (.number (-value)) else .number value

def withValues (values : List (String × Int)) : Expr → Expr
  | .number value => .number value
  | .reference name => ((values.lookup name).map ofInt).getD (.reference name)
  | .negate operand => .negate (operand.withValues values)
  | .binary operator left right =>
    .binary operator (left.withValues values) (right.withValues values)

private theorem eval_ofInt {value : Int} (least : minSigned ≤ value) (greatest : value ≤ maxSigned)
    (environment : Environment) : (ofInt value).eval environment = .ok value := by
  rw [ofInt]
  split
  · have fits : signed? (- -value) = some value :=
      signed?_eq_some_iff.2 ⟨by omega, by omega, by omega⟩
    rw [eval, eval]
    dsimp only
    rw [fits]
  · rfl

/-- Integers in the place of variables have the effect of an environment. -/
theorem eval_withValues {values : List (String × Int)}
    (fits : ∀ name value, values.lookup name = some value →
      minSigned ≤ value ∧ value ≤ maxSigned) (expression : Expr) :
    (expression.withValues values).eval Environment.empty =
      expression.eval (Environment.ofValues values) := by
  induction expression with
  | number value => rfl
  | reference name =>
      rw [withValues, eval, Environment.ofValues]
      cases found : values.lookup name with
      | none => rfl
      | some value => exact eval_ofInt (fits name value found).1 (fits name value found).2 _
  | negate operand inductionHypothesis =>
      rw [withValues, eval, eval, inductionHypothesis]
  | binary operator left right leftHypothesis rightHypothesis =>
      rw [withValues, eval, eval, leftHypothesis, rightHypothesis]

/-! ## Texts -/

/-- A natural number in range is an atom. -/
theorem spells_natural {value : Nat} (fits : (value : Int) ≤ maxSigned) :
    Spells .atom (Nat.toDigits 10 value) (.number value) := by
  refine .number Nat.toDigits_ne_nil
    (fun _ member => Nat.isDigit_of_mem_toDigits (by decide) (by decide) member) ?_
  rw [naturalOfDigits_toDigits]
  exact signed?_eq_some_iff.2
    ⟨Int.le_trans (by decide : minSigned ≤ 0) (Int.natCast_nonneg value), fits, rfl⟩

/-- The decimal text of an integer spells it, unless the integer is the least one. -/
theorem spells_ofInt {value : Int} (least : minSigned < value) (greatest : value ≤ maxSigned) :
    Spells .signed (toString value).toList (ofInt value) := by
  rcases Int.lt_or_le value 0 with negative | notNegative
  · obtain ⟨size, rfl⟩ := Int.exists_eq_neg_ofNat (Int.le_of_lt negative)
    have fits : (size : Int) ≤ maxSigned := by
      simp only [minSigned, maxSigned] at least ⊢
      omega
    rw [toList_toString_neg (by omega), ofInt, if_pos negative, Int.neg_neg]
    exact .minus (.unsigned (spells_natural fits))
  · obtain ⟨size, rfl⟩ := Int.eq_ofNat_of_zero_le notNegative
    rw [toList_toString_natCast, ofInt, if_neg (Int.not_lt.2 notNegative)]
    exact .unsigned (spells_natural greatest)

/-- The decimal text of an integer evaluates to it, unless the integer is the least one. -/
theorem evaluate_decimal {value : Int} (least : minSigned < value)
    (greatest : value ≤ maxSigned) : evaluate (toString value) = .ok value := by
  have parsed : parse (toString value) = .ok (ofInt value) :=
    parse_eq_ok_iff.2 ⟨_, [], (List.append_nil _).symm, nofun,
      .operand (.operand (spells_ofInt least greatest))⟩
  rw [evaluate, evaluateIn, parsed]
  dsimp only
  rw [eval_ofInt (Int.le_of_lt least) greatest]

/-- The rank of a phrase once integers are filled in: an integer may bring a sign. -/
def Rank.filled : Rank → Rank
  | .atom => .signed
  | rank => rank

end Expr

/-- A decimal text has no brackets and no blanks around it. -/
theorem unbracket_decimal (value : Int) : unbracket (toString value) = toString value := by
  unfold unbracket
  rw [trimmed_of_notBlank fun _ member => isBlank_of_mem_toString member]
  split
  · rename_i rest same
    have opening : '[' ∈ (toString value).toList := same ▸ List.mem_cons_self
    exact absurd (mem_toString opening) (by decide)
  · exact String.ofList_toList

namespace Substitution

open NetBlueprint.Expr

variable {values : List (String × Int)} {renames : List (String × String)}

def ofValues (values : List (String × Int)) (renames : List (String × String)) : Substitution :=
  ⟨values.map fun entry => (entry.1, toString entry.2), renames⟩

/-- The names are identifiers, and the integers fit 64 bits without the sign as well. -/
structure IsReadable (values : List (String × Int)) : Prop where
  identifier : ∀ entry ∈ values, isIdentifier entry.1.toList = true
  least : ∀ entry ∈ values, minSigned < entry.2
  greatest : ∀ entry ∈ values, entry.2 ≤ maxSigned

theorem value?_ofValues (name : String) :
    (ofValues values renames).value? name = (values.lookup name).map toString := by
  rw [value?, ofValues]
  induction values with
  | nil => rfl
  | cons entry rest inductionHypothesis =>
      rw [List.map_cons, List.lookup_cons, List.lookup_cons]
      split
      · rfl
      · exact inductionHypothesis

private theorem IsReadable.of_lookup (readable : IsReadable values) {name : String} {value : Int}
    (found : values.lookup name = some value) :
    isIdentifier name.toList = true ∧ minSigned < value ∧ value ≤ maxSigned :=
  have member := Table.mem_of_lookup found
  ⟨readable.identifier _ member, readable.least _ member, readable.greatest _ member⟩

private theorem fillWords_digits (readable : IsReadable values) {digits : List Char}
    (nonempty : digits ≠ []) (areDigits : ∀ digit ∈ digits, digit.isDigit = true) :
    (ofValues values renames).fillWords digits = digits := by
  rw [fillWords_of_isWord (fun digit member => isWordChar_of_isDigit (areDigits digit member))
    nonempty]
  refine fillPiece_of_unbound (Bool.eq_false_iff.2 fun bound => ?_)
  rw [binds, value?_ofValues, Option.isSome_map] at bound
  obtain ⟨value, found⟩ := Option.isSome_iff_exists.1 bound
  have identifier := (readable.of_lookup found).1
  obtain ⟨first, following, rfl⟩ := List.exists_cons_of_ne_nil nonempty
  rw [String.toList_ofList, isIdentifier, Bool.and_eq_true,
    startsIdentifier_of_isDigit (areDigits first List.mem_cons_self)] at identifier
  exact Bool.false_ne_true identifier.1

private theorem spells_fillWords_reference (readable : IsReadable values) {name : List Char}
    (identifier : isIdentifier name = true) :
    Spells .signed ((ofValues values renames).fillWords name)
      ((Expr.reference (String.ofList name)).withValues values) := by
  obtain ⟨nonempty, isWord⟩ := isWord_of_isIdentifier identifier
  rw [fillWords_of_isWord isWord nonempty, fillPiece, value?_ofValues, withValues]
  cases found : values.lookup (String.ofList name) with
  | none => exact .unsigned (.reference identifier)
  | some value =>
      obtain ⟨_, least, greatest⟩ := readable.of_lookup found
      exact spells_ofInt least greatest

private theorem fillWords_cons_other {substitution : Substitution} {character : Char}
    (isOther : isWordChar character = false) (text : List Char) :
    substitution.fillWords (character :: text) = character :: substitution.fillWords text :=
  fillWords_append_other isOther [] text

private theorem fillWords_append_blanks {substitution : Substitution} {blanks : List Char}
    (blank : ∀ character ∈ blanks, isBlank character = true) (front : List Char) :
    substitution.fillWords (front ++ blanks) = substitution.fillWords front ++ blanks := by
  induction blanks generalizing front with
  | nil => rw [List.append_nil, List.append_nil]
  | cons first others inductionHypothesis =>
      rw [List.forall_mem_cons] at blank
      have following := inductionHypothesis blank.2 []
      rw [List.nil_append] at following
      rw [fillWords_append_other (isWordChar_of_isBlank blank.1), following]
      rfl

private theorem fillWords_append_symbol {substitution : Substitution} {blanks : List Char}
    (blank : ∀ character ∈ blanks, isBlank character = true) {symbol : Char}
    (isOther : isWordChar symbol = false) (front rest : List Char) :
    substitution.fillWords (front ++ (blanks ++ symbol :: rest)) =
      substitution.fillWords front ++ (blanks ++ symbol :: substitution.fillWords rest) := by
  rw [← List.append_assoc, fillWords_append_other isOther, fillWords_append_blanks blank,
    List.append_assoc]

/-- A filled in phrase spells the expression with the integers in it. -/
theorem spells_fillWords (readable : IsReadable values) {rank : Rank} {text : List Char}
    {expression : Expr} (spells : Spells rank text expression) :
    Spells rank.filled ((ofValues values renames).fillWords text)
      (expression.withValues values) := by
  induction spells with
  | blank isBlank _ inductionHypothesis =>
      rw [fillWords_cons_other (isWordChar_of_isBlank isBlank)]
      exact .blank isBlank inductionHypothesis
  | number nonempty areDigits fits =>
      rw [fillWords_digits readable nonempty areDigits]
      exact .unsigned (.number nonempty areDigits fits)
  | reference identifier => exact spells_fillWords_reference readable identifier
  | group _ blank inductionHypothesis =>
      rw [fillWords_cons_other (by decide), fillWords_append_symbol blank (by decide)]
      exact .unsigned (.group inductionHypothesis blank)
  | unsigned _ inductionHypothesis => exact inductionHypothesis
  | minus _ inductionHypothesis =>
      rw [fillWords_cons_other (by decide)]
      exact .minus inductionHypothesis
  | plus _ inductionHypothesis =>
      rw [fillWords_cons_other (by decide)]
      exact .plus inductionHypothesis
  | @operand precedence _ _ _ inductionHypothesis =>
      cases precedence <;> exact .operand inductionHypothesis
  | @binary precedence operator symbol _ _ _ _ _ _ blank isOperator _ leftHypothesis
      rightHypothesis =>
      rw [fillWords_append_symbol blank
        (symbol_of_operator? isOperator ▸ isWordChar_symbol operator)]
      cases precedence <;> exact .binary leftHypothesis blank isOperator rightHypothesis

private theorem isSentence_fillWords (readable : IsReadable values) {text : List Char}
    {expression : Expr} (sentence : IsSentence text expression) :
    IsSentence ((ofValues values renames).fillWords text) (expression.withValues values) := by
  obtain ⟨spelled, blanks, rfl, blank, spells⟩ := sentence
  exact ⟨_, blanks, fillWords_append_blanks blank spelled, blank, spells_fillWords readable spells⟩

/-- Filling integers into an expression and evaluating it without variables has the outcome of
evaluating it with the integers as environment: the same integer, or the same fault. -/
theorem evaluate_filled_as_in_environment {source : String} {expression : Expr}
    (readable : IsReadable values) (parsed : Expr.parse source = .ok expression) :
    ∃ filled, (ofValues values renames).substitute source = .ok filled ∧
      Outcome.Matches (fun error fault => error.source = filled ∧ error.fault = fault) Eq
        (Expr.evaluate filled) (expression.eval (Environment.ofValues values)) := by
  have sentence := parse_eq_ok_iff.1 parsed
  refine ⟨_, substitute_of_noClosing sentence.noClosing, ?_⟩
  have filledParsed : Expr.parse (String.ofList
      ((ofValues values renames).fillWords source.toList)) =
        .ok (expression.withValues values) := by
    rw [parse_eq_ok_iff, String.toList_ofList]
    exact isSentence_fillWords readable sentence
  have fits (name : String) (value : Int) (found : values.lookup name = some value) :
      minSigned ≤ value ∧ value ≤ maxSigned :=
    have ⟨_, least, greatest⟩ := readable.of_lookup found
    ⟨Int.le_of_lt least, greatest⟩
  rw [evaluate, evaluateIn, filledParsed]
  dsimp only
  rw [eval_withValues fits]
  cases expression.eval (Environment.ofValues values) with
  | error fault => exact .error ⟨rfl, rfl⟩
  | ok value => exact .ok rfl

/-- A negative integer behind a minus, an overflow and an unbound variable. -/
theorem evaluate_negative_filled :
    let values : List (String × Int) := [("i", -5), ("big", 9223372036854775807)]
    IsReadable values ∧
      Expr.parse "2 - -i*(big+i)/n_1" =
        .ok (.binary .subtract (.number 2) (.binary .divide (.binary .multiply
          (.negate (.reference "i")) (.binary .add (.reference "big") (.reference "i")))
            (.reference "n_1"))) ∧
      ∃ filled, (ofValues values [("i", "j")]).substitute "2 - -i*(big+i)/n_1" = .ok filled ∧
        Outcome.Matches (fun error fault => error.source = filled ∧ error.fault = fault) Eq
          (Expr.evaluate filled) ((Expr.binary .subtract (.number 2) (.binary .divide
            (.binary .multiply (.negate (.reference "i"))
              (.binary .add (.reference "big") (.reference "i")))
                (.reference "n_1"))).eval (Environment.ofValues values)) := by
  intro values
  have readable : IsReadable values := ⟨by decide, by decide, by decide⟩
  have parsed : Expr.parse "2 - -i*(big+i)/n_1" =
      .ok (.binary .subtract (.number 2) (.binary .divide (.binary .multiply
        (.negate (.reference "i")) (.binary .add (.reference "big") (.reference "i")))
          (.reference "n_1"))) := by decide +kernel
  exact ⟨readable, parsed, evaluate_filled_as_in_environment readable parsed⟩

end Substitution

end NetBlueprint
