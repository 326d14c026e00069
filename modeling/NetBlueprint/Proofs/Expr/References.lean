import Mathlib.Data.List.TakeWhile
import NetBlueprint.Expr.Evaluation

/-!
Contract: texts with underscores as expressions.

An underscore stands inside an identifier or the text is no expression. So a text with underscores
has a value only where a variable with underscores is bound, and a text without underscores has the
same value in all environments that agree on their variables.

Owns: where an underscore goes when a text is read, and evaluation in environments that agree.
-/

namespace NetBlueprint

/-- Two environments that resolve the same variables to the same integers. -/
def Environment.Agrees (one other : Environment) : Prop :=
  ∀ name value, one name = .ok value ↔ other name = .ok value

namespace Expr

open Text

def HasUnderscore (expression : Expr) : Prop :=
  ∃ name ∈ expression.occurrences, '_' ∈ name.toList

/-- What a parser takes of a text with an underscore has it in a variable, or leaves it. -/
def KeepsUnderscore (parser : Parser) : Prop :=
  ∀ {text expression rest}, parser text = .ok (expression, rest) → '_' ∈ text →
    '_' ∈ rest ∨ expression.HasUnderscore

private theorem HasUnderscore.binary_left {operator : Operator} {left right : Expr}
    (has : left.HasUnderscore) : (Expr.binary operator left right).HasUnderscore := by
  obtain ⟨name, occurs, member⟩ := has
  exact ⟨name, List.mem_append_left _ occurs, member⟩

private theorem HasUnderscore.binary_right {operator : Operator} {left right : Expr}
    (has : right.HasUnderscore) : (Expr.binary operator left right).HasUnderscore := by
  obtain ⟨name, occurs, member⟩ := has
  exact ⟨name, List.mem_append_right _ occurs, member⟩

theorem mem_skipBlank_of_mem {text : List Char} (member : '_' ∈ text) : '_' ∈ skipBlank text := by
  rw [skipBlank]
  rw [← List.takeWhile_append_dropWhile (p := isBlank) (l := text)] at member
  rcases List.mem_append.1 member with blank | rest
  · exact absurd (List.mem_takeWhile_imp blank) (by decide)
  · exact rest

private theorem keeps_atom {inner : Parser} (keeps : KeepsUnderscore inner) :
    KeepsUnderscore (atom inner) := by
  intro text expression rest parsed member
  have member := mem_skipBlank_of_mem member
  unfold atom at parsed
  generalize skipBlank text = blankFree at parsed member
  cases blankFree with
  | nil => cases parsed
  | cons first following =>
      dsimp only at parsed
      split at parsed
      · rename_i opens
        split at parsed
        · cases parsed
        · rename_i _ within after inside
          have kept := keeps inside ((List.mem_cons.1 member).resolve_left fun same => by
            rw [← same] at opens
            exact absurd opens (by decide))
          split at parsed
          · rename_i remaining closes
            cases parsed
            refine kept.imp_left fun later => ?_
            have behind := mem_skipBlank_of_mem later
            rw [closes] at behind
            exact (List.mem_cons.1 behind).resolve_left (by decide)
          · cases parsed
      · split at parsed
        · rename_i isDigit
          split at parsed
          · cases parsed
            rw [← List.takeWhile_append_dropWhile (p := Char.isDigit) (l := first :: following)]
              at member
            rcases List.mem_append.1 member with digit | later
            · exact absurd (List.mem_takeWhile_imp digit) (by decide)
            · exact .inl later
          · cases parsed
        · split at parsed
          · cases parsed
            rw [← List.takeWhile_append_dropWhile (p := isWordChar) (l := first :: following)]
              at member
            rcases List.mem_append.1 member with inName | later
            · exact .inr ⟨_, List.mem_singleton_self _, by rwa [String.toList_ofList]⟩
            · exact .inl later
          · cases parsed

private theorem keeps_signed {atom : Parser} (keeps : KeepsUnderscore atom) :
    KeepsUnderscore (signed atom) := by
  intro text
  induction text with
  | nil => exact keeps
  | cons first following inductionHypothesis =>
      intro expression rest parsed member
      have later (apart : first ≠ '_') : '_' ∈ following :=
        (List.mem_cons.1 member).resolve_left fun same => apart same.symm
      unfold signed at parsed
      split at parsed
      · rename_i isBlank
        exact inductionHypothesis parsed (later fun same => by
          rw [same] at isBlank
          exact absurd isBlank (by decide))
      split at parsed
      · rename_i minus
        split at parsed
        · cases parsed
        · rename_i _ operand after inside
          cases parsed
          exact (inductionHypothesis inside (later (minus ▸ by decide))).imp_right id
      split at parsed
      · rename_i plus
        exact inductionHypothesis parsed (later (plus ▸ by decide))
      · exact keeps parsed member

private theorem keeps_chain {operator? : Char → Option Operator} {operand : Parser}
    (noOperator : operator? '_' = none) (keeps : KeepsUnderscore operand) :
    ∀ {budget : Nat} {left expression : Expr} {text rest : List Char},
      chain operator? operand budget left text = .ok (expression, rest) →
        '_' ∈ text ∨ left.HasUnderscore → '_' ∈ rest ∨ expression.HasUnderscore
  | 0, _, _, text, _, parsed, has => by
      cases parsed
      exact has.imp_left mem_skipBlank_of_mem
  | budget + 1, left, expression, text, rest, parsed, has => by
      have has := has.imp_left mem_skipBlank_of_mem
      unfold chain at parsed
      generalize skipBlank text = blankFree at parsed has
      cases blankFree with
      | nil =>
          cases parsed
          exact has
      | cons first following =>
          dsimp only at parsed
          split at parsed
          · cases parsed
            exact has
          · rename_i operator isOperator
            split at parsed
            · cases parsed
            · rename_i _ right after inside
              refine keeps_chain noOperator keeps parsed ?_
              rcases has with member | inLeft
              · have later : '_' ∈ following :=
                  (List.mem_cons.1 member).resolve_left fun same => by
                    rw [← same, noOperator] at isOperator
                    cases isOperator
                exact (keeps inside later).imp_right HasUnderscore.binary_right
              · exact .inr inLeft.binary_left

private theorem keeps_ranked {operator? : Char → Option Operator} {operand : Parser}
    (noOperator : operator? '_' = none) (keeps : KeepsUnderscore operand) :
    KeepsUnderscore (ranked operator? operand) := by
  intro text expression rest parsed member
  unfold ranked at parsed
  split at parsed
  · cases parsed
  · rename_i first after inside
    exact keeps_chain noOperator keeps parsed (keeps inside member)

private theorem keeps_sum : ∀ budget, KeepsUnderscore (sum budget)
  | 0, _, _, _, parsed, _ => by cases parsed
  | budget + 1, _, _, _, parsed, member =>
      keeps_ranked rfl (keeps_ranked rfl (keeps_signed (keeps_atom (keeps_sum budget))))
        parsed member

/-- An expression that is read from a text with an underscore has it in a variable. -/
theorem hasUnderscore_of_parse {source : String} {expression : Expr} (member : '_' ∈ source.toList)
    (parsed : parse source = .ok expression) : expression.HasUnderscore := by
  unfold parse at parsed
  split at parsed
  · rename_i isParsed
    cases parsed
    unfold parseChars at isParsed
    split at isParsed
    · cases isParsed
    · rename_i after inside
      have kept := keeps_sum _ inside member
      split at isParsed
      · rename_i nothing
        cases isParsed
        refine kept.resolve_left fun later => ?_
        have behind := mem_skipBlank_of_mem later
        rw [nothing] at behind
        cases behind
      · cases isParsed
  · cases parsed

/-! ## Evaluation -/

/-- A value needs every variable. -/
theorem resolved_of_eval {environment : Environment} : ∀ {expression : Expr} {value : Int},
    expression.eval environment = .ok value →
      ∀ name ∈ expression.occurrences, ∃ number, environment name = .ok (some number) := by
  intro expression
  induction expression with
  | number _ => exact fun _ _ occurs => absurd occurs List.not_mem_nil
  | reference name =>
      intro value evaluates other occurs
      cases List.mem_singleton.1 occurs
      unfold eval at evaluates
      split at evaluates
      · cases evaluates
      · cases evaluates
      · rename_i number resolved
        exact ⟨number, resolved⟩
  | negate operand inductionHypothesis =>
      intro value evaluates
      unfold eval at evaluates
      split at evaluates
      · cases evaluates
      · rename_i inner
        exact inductionHypothesis inner
  | binary operator left right leftHypothesis rightHypothesis =>
      intro value evaluates name occurs
      unfold eval at evaluates
      split at evaluates
      · cases evaluates
      · rename_i isLeft
        split at evaluates
        · cases evaluates
        · rename_i isRight
          rcases List.mem_append.1 occurs with inLeft | inRight
          · exact leftHypothesis isLeft name inLeft
          · exact rightHypothesis isRight name inRight

/-- An expression keeps its value where its variables keep theirs. -/
theorem eval_of_occurrences {one other : Environment} : ∀ {expression : Expr} {value : Int},
    (∀ name ∈ expression.occurrences, ∀ number, one name = .ok (some number) →
      other name = .ok (some number)) →
    expression.eval one = .ok value → expression.eval other = .ok value := by
  intro expression
  induction expression with
  | number _ => exact fun _ evaluates => evaluates
  | reference name =>
      intro value agree evaluates
      obtain ⟨number, resolved⟩ := resolved_of_eval evaluates name (List.mem_singleton_self _)
      unfold eval at evaluates ⊢
      rw [resolved] at evaluates
      rw [agree name (List.mem_singleton_self _) number resolved]
      exact evaluates
  | negate operand inductionHypothesis =>
      intro value agree evaluates
      unfold eval at evaluates ⊢
      split at evaluates
      · cases evaluates
      · rename_i inner
        rw [inductionHypothesis agree inner]
        exact evaluates
  | binary operator left right leftHypothesis rightHypothesis =>
      intro value agree evaluates
      unfold eval at evaluates ⊢
      split at evaluates
      · cases evaluates
      · rename_i isLeft
        split at evaluates
        · cases evaluates
        · rename_i isRight
          rw [leftHypothesis (fun name inLeft => agree name (List.mem_append_left _ inLeft)) isLeft]
          dsimp only
          rw [rightHypothesis (fun name inRight => agree name (List.mem_append_right _ inRight))
            isRight]
          exact evaluates

/-- Environments that agree give an expression the same value. -/
theorem eval_of_agrees {one other : Environment} (agrees : one.Agrees other)
    {expression : Expr} {value : Int} (evaluates : expression.eval one = .ok value) :
    expression.eval other = .ok value :=
  eval_of_occurrences (fun name _ number resolved => (agrees name number).1 resolved) evaluates

/-- A text that has a value keeps it in every environment that agrees. -/
theorem evaluateIn_of_agrees {one other : Environment} (agrees : one.Agrees other)
    {source : String} {value : Int} (evaluates : evaluateIn one source = .ok value) :
    evaluateIn other source = .ok value := by
  unfold evaluateIn at evaluates ⊢
  split at evaluates
  · cases evaluates
  · split at evaluates
    · cases evaluates
    · rename_i inner
      rw [eval_of_agrees agrees inner]
      exact evaluates

/-- A text with an underscore has no value where no variable with an underscore is resolved. -/
theorem evaluateIn_ne_ok {environment : Environment}
    (unresolved : ∀ name number, '_' ∈ name.toList → environment name ≠ .ok (some number))
    {source : String} (member : '_' ∈ source.toList) (value : Int) :
    evaluateIn environment source ≠ .ok value := by
  intro evaluates
  unfold evaluateIn at evaluates
  split at evaluates
  · cases evaluates
  · rename_i expression parsed
    split at evaluates
    · cases evaluates
    · rename_i inner
      obtain ⟨name, occurs, inName⟩ := hasUnderscore_of_parse member parsed
      obtain ⟨number, resolved⟩ := resolved_of_eval inner name occurs
      exact unresolved name number inName resolved

end Expr

end NetBlueprint
