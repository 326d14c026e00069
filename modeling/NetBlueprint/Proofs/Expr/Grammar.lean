import NetBlueprint.Expr.Parser
import NetBlueprint.Proofs.Words

/-!
Contract: the grammar of expressions, and that the parser reads exactly it.

The grammar says which texts spell an expression and never mentions what follows them. The parser
takes as much as it can and returns the rest. So reading is right in two ways: what is taken spells
the expression that is returned, and a text that spells an expression is taken whole when nothing
behind it could continue it.

Owns: the grammar, that what is read spells its expression, and that what spells an expression is
read.

Does not own: which character a refused text is blamed on.
-/

namespace NetBlueprint.Expr

open Text

/-! ## The grammar -/

inductive Precedence where
  | multiplicative
  | additive
deriving DecidableEq, Repr

/-- The ranks of phrases: atoms, atoms with signs, and operands with operations of one precedence
between them. -/
inductive Rank where
  | atom
  | signed
  | ranked (precedence : Precedence)
deriving DecidableEq, Repr

def Precedence.operator? : Precedence → Char → Option Operator
  | .multiplicative => multiplicative?
  | .additive => additive?

def Precedence.operand : Precedence → Rank
  | .multiplicative => .signed
  | .additive => .ranked .multiplicative

/-- A text spells an expression: blanks may stand in front of every token, and an operation whose
left operand has the same rank associates to the left. -/
inductive Spells : Rank → List Char → Expr → Prop where
  | blank {rank : Rank} {character : Char} {text : List Char} {expression : Expr}
      (isBlank : isBlank character = true) (spells : Spells rank text expression) :
      Spells rank (character :: text) expression
  | number {digits : List Char} {value : Int} (nonempty : digits ≠ [])
      (areDigits : ∀ digit ∈ digits, digit.isDigit = true)
      (fits : signed? (naturalOfDigits digits) = some value) :
      Spells .atom digits (.number value)
  | reference {name : List Char} (identifier : isIdentifier name = true) :
      Spells .atom name (.reference (String.ofList name))
  | group {text blanks : List Char} {expression : Expr}
      (spells : Spells (.ranked .additive) text expression)
      (blank : ∀ character ∈ blanks, isBlank character = true) :
      Spells .atom ('(' :: (text ++ (blanks ++ [')']))) expression
  | unsigned {text : List Char} {expression : Expr} (spells : Spells .atom text expression) :
      Spells .signed text expression
  | minus {text : List Char} {expression : Expr} (spells : Spells .signed text expression) :
      Spells .signed ('-' :: text) (.negate expression)
  | plus {text : List Char} {expression : Expr} (spells : Spells .signed text expression) :
      Spells .signed ('+' :: text) expression
  | operand {precedence : Precedence} {text : List Char} {expression : Expr}
      (spells : Spells precedence.operand text expression) :
      Spells (.ranked precedence) text expression
  | binary {precedence : Precedence} {operator : Operator} {symbol : Char}
      {first blanks second : List Char} {left right : Expr}
      (spellsLeft : Spells (.ranked precedence) first left)
      (blank : ∀ character ∈ blanks, isBlank character = true)
      (isOperator : precedence.operator? symbol = some operator)
      (spellsRight : Spells precedence.operand second right) :
      Spells (.ranked precedence) (first ++ (blanks ++ symbol :: second))
        (.binary operator left right)

def IsSentence (text : List Char) (expression : Expr) : Prop :=
  ∃ spelled blanks, text = spelled ++ blanks ∧
    (∀ character ∈ blanks, isBlank character = true) ∧
      Spells (.ranked .additive) spelled expression

/-- Blanks may stand in front of a phrase. -/
theorem Spells.blanks {rank : Rank} {text blanks : List Char} {expression : Expr}
    (spells : Spells rank text expression)
    (blank : ∀ character ∈ blanks, isBlank character = true) :
    Spells rank (blanks ++ text) expression := by
  induction blanks with
  | nil => exact spells
  | cons first others inductionHypothesis =>
      rw [List.forall_mem_cons] at blank
      exact .blank blank.1 (inductionHypothesis blank.2)

/-- The character of an operation. -/
theorem symbol_of_operator? {precedence : Precedence} {operator : Operator} {symbol : Char}
    (isOperator : precedence.operator? symbol = some operator) : symbol = operator.symbol := by
  cases precedence with
  | multiplicative =>
      simp only [Precedence.operator?, multiplicative?] at isOperator
      split at isOperator <;> cases isOperator <;> rfl
  | additive =>
      simp only [Precedence.operator?, additive?] at isOperator
      split at isOperator <;> cases isOperator <;> rfl

private theorem isBlank_symbol (operator : Operator) : isBlank operator.symbol = false := by
  cases operator <;> decide

theorem isWordChar_symbol (operator : Operator) : isWordChar operator.symbol = false := by
  cases operator <;> decide

/-- The characters that phrases are made of. -/
theorem Spells.characters {rank : Rank} {text : List Char} {expression : Expr}
    (spells : Spells rank text expression) : ∀ character ∈ text,
      isBlank character = true ∨ isWordChar character = true ∨
        character ∈ ['+', '-', '*', '/', '(', ')'] := by
  induction spells with
  | blank isBlank _ inductionHypothesis =>
      exact List.forall_mem_cons.2 ⟨.inl isBlank, inductionHypothesis⟩
  | number _ areDigits _ =>
      exact fun digit member => .inr (.inl (isWordChar_of_isDigit (areDigits digit member)))
  | reference identifier =>
      exact fun character member =>
        .inr (.inl ((isWord_of_isIdentifier identifier).2 character member))
  | group _ blank inductionHypothesis =>
      simp only [List.forall_mem_cons, List.forall_mem_append]
      exact ⟨by simp, inductionHypothesis, fun character member => .inl (blank character member),
        by simp, nofun⟩
  | unsigned _ inductionHypothesis | operand _ inductionHypothesis => exact inductionHypothesis
  | minus _ inductionHypothesis | plus _ inductionHypothesis =>
      exact List.forall_mem_cons.2 ⟨by simp, inductionHypothesis⟩
  | @binary _ operator _ _ _ _ _ _ _ blank isOperator _ leftHypothesis rightHypothesis =>
      simp only [List.forall_mem_append, List.forall_mem_cons]
      refine ⟨leftHypothesis, fun character member => .inl (blank character member), ?_,
        rightHypothesis⟩
      rw [symbol_of_operator? isOperator]
      exact .inr (.inr (by cases operator <;> decide))

/-- An expression holds no closing bracket. -/
theorem IsSentence.noClosing {text : List Char} {expression : Expr}
    (sentence : IsSentence text expression) : ']' ∉ text := by
  obtain ⟨spelled, blanks, rfl, blank, spells⟩ := sentence
  intro member
  have kinds : isBlank ']' = true ∨ isWordChar ']' = true ∨
      ']' ∈ ['+', '-', '*', '/', '(', ')'] := by
    rcases List.mem_append.1 member with inside | behind
    · exact spells.characters _ inside
    · exact .inl (blank _ behind)
  exact absurd kinds (by decide)

/-! ## What is read spells its expression -/

/-- What a parser takes spells the expression, with blanks behind it. -/
def IsSound (rank : Rank) (parser : Parser) : Prop :=
  ∀ {text expression rest}, parser text = .ok (expression, rest) →
    ∃ spelled blanks, text = spelled ++ (blanks ++ rest) ∧
      (∀ character ∈ blanks, isBlank character = true) ∧ Spells rank spelled expression

private theorem isSound_atom {inner : Parser} (sound : IsSound (.ranked .additive) inner) :
    IsSound .atom (atom inner) := by
  intro text expression rest parsed
  obtain ⟨leading, blank, same⟩ := exists_blanks_append_skipBlank text
  suffices ∃ spelled, skipBlank text = spelled ++ rest ∧ Spells .atom spelled expression by
    obtain ⟨spelled, cut, spells⟩ := this
    refine ⟨leading ++ spelled, [], ?_, fun _ member => absurd member List.not_mem_nil,
      spells.blanks blank⟩
    rw [List.append_assoc, List.nil_append, ← cut]
    exact same
  unfold atom at parsed
  generalize skipBlank text = token at parsed
  cases token with
  | nil => cases parsed
  | cons first following =>
      dsimp only at parsed
      split at parsed
      · rename_i opens
        split at parsed
        · cases parsed
        · rename_i _ within after inside
          obtain ⟨spelled, blanks, rfl, blank, spells⟩ := sound inside
          split at parsed
          · rename_i remaining closes
            cases parsed
            obtain ⟨more, moreBlank, cut⟩ := exists_blanks_append_skipBlank after
            rw [closes] at cut
            refine ⟨'(' :: (spelled ++ ((blanks ++ more) ++ [')'])), ?_,
              .group spells (List.forall_mem_append.2 ⟨blank, moreBlank⟩)⟩
            rw [opens, cut]
            simp
          · cases parsed
      · split at parsed
        · rename_i digit
          split at parsed
          · rename_i value fits
            cases parsed
            refine ⟨_, (List.takeWhile_append_dropWhile (p := Char.isDigit)).symm, .number ?_
              (fun _ member => List.mem_takeWhile_imp member) fits⟩
            rw [List.takeWhile_cons_of_pos digit]
            exact List.cons_ne_nil _ _
          · cases parsed
        · split at parsed
          · rename_i starts
            cases parsed
            refine ⟨_, (List.takeWhile_append_dropWhile (p := isWordChar)).symm, .reference ?_⟩
            have isWord : isWordChar first = true := by
              rw [startsIdentifier, Bool.or_eq_true] at starts
              rw [isWordChar, Char.isAlphanum, Bool.or_eq_true, Bool.or_eq_true]
              exact starts.imp_left .inl
            rw [List.takeWhile_cons_of_pos isWord, isIdentifier, starts, Bool.true_and,
              List.all_eq_true]
            exact fun _ member => List.mem_takeWhile_imp member
          · cases parsed

private theorem isSound_signed {atom : Parser} (sound : IsSound .atom atom) :
    IsSound .signed (signed atom) := by
  have unsigned {text : List Char} {expression : Expr} {rest : List Char}
      (parsed : atom text = .ok (expression, rest)) :
      ∃ spelled blanks, text = spelled ++ (blanks ++ rest) ∧
        (∀ character ∈ blanks, isBlank character = true) ∧ Spells .signed spelled expression := by
    obtain ⟨spelled, blanks, same, blank, spells⟩ := sound parsed
    exact ⟨spelled, blanks, same, blank, .unsigned spells⟩
  intro text
  induction text with
  | nil => exact unsigned
  | cons first following inductionHypothesis =>
      intro expression rest parsed
      unfold signed at parsed
      split at parsed
      · rename_i isBlank
        obtain ⟨spelled, blanks, rfl, blank, spells⟩ := inductionHypothesis parsed
        exact ⟨first :: spelled, blanks, rfl, blank, .blank isBlank spells⟩
      split at parsed
      · rename_i minus
        split at parsed
        · cases parsed
        · rename_i inside
          cases parsed
          obtain ⟨spelled, blanks, rfl, blank, spells⟩ := inductionHypothesis inside
          exact ⟨'-' :: spelled, blanks, minus ▸ rfl, blank, .minus spells⟩
      split at parsed
      · rename_i plus
        obtain ⟨spelled, blanks, rfl, blank, spells⟩ := inductionHypothesis parsed
        exact ⟨'+' :: spelled, blanks, plus ▸ rfl, blank, .plus spells⟩
      · exact unsigned parsed

private theorem isSound_chain {precedence : Precedence} {operand : Parser}
    (sound : IsSound precedence.operand operand) :
    ∀ {budget : Nat} {left expression : Expr} {front between text rest : List Char},
      Spells (.ranked precedence) front left →
      (∀ character ∈ between, isBlank character = true) →
      chain precedence.operator? operand budget left text = .ok (expression, rest) →
        ∃ spelled blanks, front ++ (between ++ text) = spelled ++ (blanks ++ rest) ∧
          (∀ character ∈ blanks, isBlank character = true) ∧
            Spells (.ranked precedence) spelled expression := by
  intro budget
  induction budget with
  | zero =>
      intro left expression front between text rest spells blank parsed
      obtain ⟨leading, isLeading, same⟩ := exists_blanks_append_skipBlank text
      cases parsed
      refine ⟨front, between ++ leading, ?_, List.forall_mem_append.2 ⟨blank, isLeading⟩, spells⟩
      rw [List.append_assoc, ← same]
  | succ budget inductionHypothesis =>
      intro left expression front between text rest spells blank parsed
      obtain ⟨leading, isLeading, same⟩ := exists_blanks_append_skipBlank text
      have allBlank := List.forall_mem_append.2 ⟨blank, isLeading⟩
      rw [same]
      unfold chain at parsed
      generalize skipBlank text = token at parsed
      cases token with
      | nil =>
          cases parsed
          exact ⟨front, between ++ leading, by simp, allBlank, spells⟩
      | cons first following =>
          dsimp only at parsed
          split at parsed
          · cases parsed
            exact ⟨front, between ++ leading, by simp, allBlank, spells⟩
          · rename_i operator isOperator
            split at parsed
            · cases parsed
            · rename_i right after inside
              obtain ⟨spelled, blanks, rfl, isBlank, spellsRight⟩ := sound inside
              obtain ⟨whole, last, cut, lastBlank, spellsWhole⟩ :=
                inductionHypothesis (.binary spells allBlank isOperator spellsRight) isBlank parsed
              refine ⟨whole, last, ?_, lastBlank, spellsWhole⟩
              rw [← cut]
              simp

private theorem isSound_ranked {precedence : Precedence} {operand : Parser}
    (sound : IsSound precedence.operand operand) :
    IsSound (.ranked precedence) (ranked precedence.operator? operand) := by
  intro text expression rest parsed
  unfold ranked at parsed
  split at parsed
  · cases parsed
  · rename_i inside
    obtain ⟨spelled, blanks, rfl, blank, spells⟩ := sound inside
    exact isSound_chain sound (.operand spells) blank parsed

def Rank.parser (budget : Nat) : Rank → Parser
  | .atom => Expr.atom (sum budget)
  | .signed => Expr.signed (Expr.atom (sum budget))
  | .ranked .multiplicative => Expr.ranked multiplicative? (Expr.signed (Expr.atom (sum budget)))
  | .ranked .additive =>
    Expr.ranked additive?
      (Expr.ranked multiplicative? (Expr.signed (Expr.atom (sum budget))))

private theorem Rank.parser_ranked (budget : Nat) (precedence : Precedence) :
    (Rank.ranked precedence).parser budget =
      Expr.ranked precedence.operator? (precedence.operand.parser budget) := by
  cases precedence <;> rfl

private theorem isSound_parser_of_sum {budget : Nat}
    (sound : IsSound (.ranked .additive) (sum budget)) :
    ∀ rank : Rank, IsSound rank (rank.parser budget) := by
  have signed : IsSound .signed (Rank.signed.parser budget) := isSound_signed (isSound_atom sound)
  intro rank
  cases rank with
  | atom => exact isSound_atom sound
  | signed => exact signed
  | ranked precedence =>
      cases precedence with
      | multiplicative => exact @isSound_ranked .multiplicative _ signed
      | additive =>
          exact @isSound_ranked .additive _ (@isSound_ranked .multiplicative _ signed)

private theorem isSound_sum : ∀ budget, IsSound (.ranked .additive) (sum budget)
  | 0 => fun parsed => nomatch parsed
  | budget + 1 => isSound_parser_of_sum (isSound_sum budget) (.ranked .additive)

/-- What the parser of a rank takes spells the expression. -/
theorem isSound_ofRank (rank : Rank) (budget : Nat) : IsSound rank (rank.parser budget) :=
  isSound_parser_of_sum (isSound_sum budget) rank

/-- Parsers take characters and give none back. -/
theorem length_le_of_reads {rank : Rank} {budget : Nat} {text rest : List Char}
    {expression : Expr} (parsed : rank.parser budget text = .ok (expression, rest)) :
    rest.length ≤ text.length := by
  obtain ⟨spelled, blanks, rfl, _⟩ := isSound_ofRank rank budget parsed
  simp only [List.length_append]
  omega

/-! ## What spells an expression is read -/

/-- Without an operation in front a chain ends. -/
theorem chain_of_no_operator {operator? : Char → Option Operator} {operand : Parser}
    {text : List Char} (none : ∀ next ∈ (skipBlank text).head?, operator? next = .none) :
    ∀ (budget : Nat) (left : Expr),
      chain operator? operand budget left text = .ok (left, skipBlank text)
  | 0, _ => rfl
  | budget + 1, left => by
      unfold chain
      generalize skipBlank text = token at none
      cases token with
      | nil => rfl
      | cons first following =>
          dsimp only
          rw [none first rfl]

/-- Budgets that cover a text make no difference, and neither do blanks in front of it. -/
theorem chain_congr {operator? : Char → Option Operator} {operand : Parser}
    (consumes : ∀ {text expression rest}, operand text = .ok (expression, rest) →
      rest.length ≤ text.length) :
    ∀ {budget otherBudget : Nat} {left : Expr} {text other : List Char},
      skipBlank text = skipBlank other → (skipBlank text).length ≤ budget →
      (skipBlank text).length ≤ otherBudget →
        chain operator? operand budget left text =
          chain operator? operand otherBudget left other := by
  intro budget
  induction budget with
  | zero =>
      intro otherBudget left text other same covers _
      have empty := List.length_eq_zero_iff.1 (Nat.le_zero.1 covers)
      rw [chain_of_no_operator (by rw [empty]; exact fun _ none => nomatch none),
        chain_of_no_operator (by rw [← same, empty]; exact fun _ none => nomatch none), same]
  | succ budget inductionHypothesis =>
      intro otherBudget left text other same covers otherCovers
      cases otherBudget with
      | zero =>
          have empty := List.length_eq_zero_iff.1 (Nat.le_zero.1 otherCovers)
          rw [chain_of_no_operator (by rw [empty]; exact fun _ none => nomatch none),
            chain_of_no_operator (by rw [← same, empty]; exact fun _ none => nomatch none), same]
      | succ otherBudget =>
          unfold chain
          rw [← same]
          generalize skipBlank text = token at covers otherCovers
          cases token with
          | nil => rfl
          | cons first following =>
              dsimp only
              split
              · rfl
              · split
                · rfl
                · rename_i inside
                  have shorter := consumes inside
                  rw [List.length_cons] at covers otherCovers
                  refine inductionHypothesis rfl ?_ ?_ <;>
                    exact Nat.le_trans (length_skipBlank_le _) (by omega)

/-- The operations that would extend the last operand of a phrase. -/
def Rank.inner? : Rank → Char → Option Operator
  | .ranked .additive => multiplicative?
  | _ => fun _ => none

private theorem inner?_of_operator? {precedence : Precedence} {operator : Operator} {symbol : Char}
    (isOperator : precedence.operator? symbol = some operator) :
    (Rank.ranked precedence).inner? symbol = none := by
  cases precedence with
  | multiplicative => rfl
  | additive =>
      simp only [Precedence.operator?, additive?] at isOperator
      split at isOperator <;> first | rfl | cases isOperator

/-- What stands behind a phrase does not continue it, an operation of its own rank apart. -/
structure Closes (rank : Rank) (rest : List Char) : Prop where
  noWord : ∀ next ∈ rest.head?, isWordChar next = false
  noOperator : ∀ next ∈ (skipBlank rest).head?, rank.inner? next = none

/-- What the parser of a rank goes on to do with a phrase that it has read. -/
def Rank.finish (budget : Nat) : Rank → Expr → List Char →
    Except ParseFault (Expr × List Char)
  | .ranked precedence, expression, rest =>
    chain precedence.operator? (precedence.operand.parser budget) rest.length expression rest
  | _, expression, rest => .ok (expression, rest)

private theorem Closes.operand {precedence : Precedence} {rest : List Char}
    (closes : Closes (.ranked precedence) rest) : Closes precedence.operand rest :=
  ⟨closes.noWord, fun _ _ => by cases precedence <;> rfl⟩

private theorem Closes.finish_operand {precedence : Precedence} {rest : List Char}
    (closes : Closes (.ranked precedence) rest) (budget : Nat) (expression : Expr) :
    ∃ after, precedence.operand.finish budget expression rest = .ok (expression, after) ∧
      skipBlank after = skipBlank rest := by
  cases precedence with
  | multiplicative => exact ⟨rest, rfl, rfl⟩
  | additive =>
      exact ⟨skipBlank rest, chain_of_no_operator closes.noOperator _ _, skipBlank_skipBlank rest⟩

private theorem closes_of_symbol {rank : Rank} {blanks rest : List Char} {symbol : Char}
    (blank : ∀ character ∈ blanks, isBlank character = true)
    (notBlank : isBlank symbol = false) (notWord : isWordChar symbol = false)
    (notInner : rank.inner? symbol = none) : Closes rank (blanks ++ symbol :: rest) where
  noWord := notWord_of_blanks blank notWord
  noOperator next first := by
    rw [skipBlank_append_of_blank blank, skipBlank_cons, notBlank] at first
    cases first
    exact notInner

private theorem signed_of_atom {text : List Char} {expression : Expr} {inner : Parser}
    {rest : List Char} {rank : Rank} (spells : Spells rank text expression)
    (isAtom : rank = .atom) :
    signed (atom inner) (text ++ rest) = atom inner (text ++ rest) := by
  have direct {first : Char} {following : List Char} (notBlank : isBlank first = false)
      (noMinus : first ≠ '-') (noPlus : first ≠ '+') :
      signed (atom inner) (first :: following) = atom inner (first :: following) := by
    rw [signed, notBlank, if_neg Bool.false_ne_true, if_neg noMinus, if_neg noPlus]
  have word {run : List Char} (nonempty : run ≠ [])
      (isWord : ∀ character ∈ run, isWordChar character = true) :
      signed (atom inner) (run ++ rest) = atom inner (run ++ rest) := by
    obtain ⟨first, following, rfl⟩ := List.exists_cons_of_ne_nil nonempty
    have firstIsWord := isWord first List.mem_cons_self
    refine direct (isBlank_of_isWordChar firstIsWord) ?_ ?_
    · rintro rfl
      exact absurd firstIsWord (by decide)
    · rintro rfl
      exact absurd firstIsWord (by decide)
  induction spells with
  | blank isBlank _ inductionHypothesis =>
      rw [List.cons_append, signed, if_pos isBlank, inductionHypothesis isAtom]
      unfold atom
      rw [skipBlank_cons, if_pos isBlank]
  | number nonempty areDigits _ =>
      exact word nonempty fun digit member => isWordChar_of_isDigit (areDigits digit member)
  | reference identifier =>
      obtain ⟨nonempty, isWord⟩ := isWord_of_isIdentifier identifier
      exact word nonempty isWord
  | group _ _ => exact direct (by decide) (by decide) (by decide)
  | unsigned | minus | plus | operand | binary => cases isAtom

private theorem takeWhile_of_closed {kind : Char → Bool} {run rest : List Char}
    (each : ∀ character ∈ run, kind character = true)
    (closed : ∀ next ∈ rest.head?, kind next = false) :
    (run ++ rest).takeWhile kind = run ∧ (run ++ rest).dropWhile kind = rest := by
  rw [List.takeWhile_append_of_pos each, List.dropWhile_append_of_pos each]
  cases rest with
  | nil => simp
  | cons next following =>
      have stops := closed next rfl
      simp [stops]

private theorem atom_of_number {digits rest : List Char} {value : Int} {inner : Parser}
    (nonempty : digits ≠ []) (areDigits : ∀ digit ∈ digits, digit.isDigit = true)
    (fits : signed? (naturalOfDigits digits) = some value)
    (closed : ∀ next ∈ rest.head?, isWordChar next = false) :
    atom inner (digits ++ rest) = .ok (.number value, rest) := by
  have noDigit : ∀ next ∈ rest.head?, next.isDigit = false := by
    intro next first
    rw [Bool.eq_false_iff]
    intro digit
    exact Bool.false_ne_true ((closed next first).symm.trans (isWordChar_of_isDigit digit))
  obtain ⟨taken, left⟩ := takeWhile_of_closed areDigits noDigit
  obtain ⟨first, following, rfl⟩ := List.exists_cons_of_ne_nil nonempty
  have digit := areDigits first List.mem_cons_self
  have noParenthesis : first ≠ '(' := by
    rintro rfl
    exact absurd digit (by decide)
  rw [List.cons_append] at taken left ⊢
  unfold atom
  rw [skipBlank_cons, isBlank_of_isWordChar (isWordChar_of_isDigit digit),
    if_neg Bool.false_ne_true]
  dsimp only
  rw [if_neg noParenthesis, if_pos digit, taken, left, fits]

private theorem atom_of_reference {name rest : List Char} {inner : Parser}
    (identifier : isIdentifier name = true)
    (closed : ∀ next ∈ rest.head?, isWordChar next = false) :
    atom inner (name ++ rest) = .ok (.reference (String.ofList name), rest) := by
  obtain ⟨nonempty, isWord⟩ := isWord_of_isIdentifier identifier
  obtain ⟨taken, left⟩ := takeWhile_of_closed isWord closed
  obtain ⟨first, following, rfl⟩ := List.exists_cons_of_ne_nil nonempty
  rw [isIdentifier, Bool.and_eq_true] at identifier
  have starts := identifier.1
  have noDigit : first.isDigit = false := by
    rw [Bool.eq_false_iff]
    intro digit
    rw [startsIdentifier_of_isDigit digit] at starts
    cases starts
  have noParenthesis : first ≠ '(' := by
    rintro rfl
    exact absurd starts (by decide)
  rw [List.cons_append] at taken left ⊢
  unfold atom
  rw [skipBlank_cons, isBlank_of_isWordChar (isWord first List.mem_cons_self),
    if_neg Bool.false_ne_true]
  dsimp only
  rw [if_neg noParenthesis, noDigit, if_neg Bool.false_ne_true, if_pos starts, taken, left]

private theorem parser_blank {character : Char} (isBlank : isBlank character = true)
    (budget : Nat) (text : List Char) :
    ∀ rank : Rank, rank.parser budget (character :: text) = rank.parser budget text := by
  have signedBlank :
      Rank.signed.parser budget (character :: text) = Rank.signed.parser budget text := by
    show signed _ (character :: text) = _
    rw [signed, if_pos isBlank]
    rfl
  have rankedBlank {operator? : Char → Option Operator} {operand : Parser}
      (same : operand (character :: text) = operand text) :
      ranked operator? operand (character :: text) = ranked operator? operand text := by
    rw [ranked, ranked, same]
  intro rank
  cases rank with
  | atom =>
      show atom _ (character :: text) = atom _ text
      unfold atom
      rw [skipBlank_cons, if_pos isBlank]
  | signed => exact signedBlank
  | ranked precedence =>
      cases precedence with
      | multiplicative => exact rankedBlank signedBlank
      | additive => exact rankedBlank (rankedBlank signedBlank)

private theorem atom_of_group {inner : Parser} {text blanks rest : List Char} {expression : Expr}
    (read : inner (text ++ (blanks ++ ')' :: rest)) = .ok (expression, ')' :: rest)) :
    atom inner ('(' :: (text ++ (blanks ++ [')'])) ++ rest) = .ok (expression, rest) := by
  have whole : '(' :: (text ++ (blanks ++ [')'])) ++ rest =
      '(' :: (text ++ (blanks ++ ')' :: rest)) := by simp
  rw [whole]
  unfold atom
  rw [skipBlank_cons, show isBlank '(' = false by decide, if_neg Bool.false_ne_true]
  dsimp only
  rw [if_pos rfl, read]
  dsimp only
  rw [skipBlank_cons, show isBlank ')' = false by decide, if_neg Bool.false_ne_true]
  rfl

/-- A phrase is read, and the parser goes on with what stands behind it. -/
theorem parser_of_spells {rank : Rank} {text : List Char} {expression : Expr}
    (spells : Spells rank text expression) :
    ∀ {budget : Nat} {rest : List Char}, text.length ≤ budget → Closes rank rest →
      rank.parser budget (text ++ rest) = rank.finish budget expression rest := by
  induction spells with
  | blank isBlank _ inductionHypothesis =>
      intro budget rest fits closes
      rw [List.cons_append, parser_blank isBlank]
      exact inductionHypothesis (Nat.le_of_succ_le fits) closes
  | number nonempty areDigits inRange =>
      intro budget rest _ closes
      exact atom_of_number nonempty areDigits inRange closes.noWord
  | reference identifier =>
      intro budget rest _ closes
      exact atom_of_reference identifier closes.noWord
  | @group text blanks expression _ blank inductionHypothesis =>
      intro budget rest fits _
      have room : text.length < budget := by
        simp only [List.length_cons, List.length_append] at fits
        omega
      obtain ⟨smaller, rfl⟩ := Nat.exists_eq_add_of_lt room
      have closes : Closes (.ranked .additive) (blanks ++ ')' :: rest) :=
        closes_of_symbol blank (by decide) (by decide) rfl
      have closing : skipBlank (blanks ++ ')' :: rest) = ')' :: rest :=
        skipBlank_append_of_blank blank _
      refine atom_of_group ((inductionHypothesis (Nat.le_add_right _ smaller) closes).trans ?_)
      refine (chain_of_no_operator ?_ _ _).trans (by rw [closing])
      rw [closing]
      rintro next ⟨⟩
      rfl
  | unsigned spells inductionHypothesis =>
      intro budget rest fits closes
      exact (signed_of_atom spells rfl).trans
        (inductionHypothesis fits ⟨closes.noWord, fun _ _ => rfl⟩)
  | @minus text expression _ inductionHypothesis =>
      intro budget rest fits closes
      have inside : signed (atom (sum budget)) (text ++ rest) = .ok (expression, rest) :=
        inductionHypothesis (Nat.le_of_succ_le fits) closes
      show signed _ ('-' :: (text ++ rest)) = _
      rw [signed, if_neg (by decide), if_pos rfl, inside]
      rfl
  | @plus text expression _ inductionHypothesis =>
      intro budget rest fits closes
      have inside : signed (atom (sum budget)) (text ++ rest) = .ok (expression, rest) :=
        inductionHypothesis (Nat.le_of_succ_le fits) closes
      show signed _ ('+' :: (text ++ rest)) = _
      rw [signed, if_neg (by decide), if_neg (by decide), if_pos rfl, inside]
      rfl
  | @operand precedence text expression _ inductionHypothesis =>
      intro budget rest fits closes
      obtain ⟨after, finished, same⟩ := closes.finish_operand budget expression
      rw [Rank.parser_ranked, ranked, inductionHypothesis fits closes.operand, finished]
      exact chain_congr length_le_of_reads same (length_skipBlank_le _)
        (same ▸ length_skipBlank_le _)
  | @binary precedence operator symbol first blanks second left right _ blank isOperator _
      leftHypothesis rightHypothesis =>
      intro budget rest fits closes
      simp only [List.length_append, List.length_cons] at fits
      obtain ⟨after, finished, same⟩ := closes.finish_operand budget right
      have isSymbol := symbol_of_operator? isOperator
      have notBlank : isBlank symbol = false := isSymbol ▸ isBlank_symbol operator
      have closesLeft : Closes (.ranked precedence) (blanks ++ symbol :: (second ++ rest)) :=
        closes_of_symbol blank notBlank (isSymbol ▸ isWordChar_symbol operator)
          (inner?_of_operator? isOperator)
      have front := leftHypothesis (Nat.le_of_add_right_le fits) closesLeft
      have back := (rightHypothesis (by omega) closes.operand).trans finished
      have next : skipBlank (blanks ++ symbol :: (second ++ rest)) =
          symbol :: (second ++ rest) := by
        rw [skipBlank_append_of_blank blank, skipBlank_cons, notBlank, if_neg Bool.false_ne_true]
      have whole : first ++ (blanks ++ symbol :: second) ++ rest =
          first ++ (blanks ++ symbol :: (second ++ rest)) := by simp
      obtain ⟨room, isRoom⟩ : ∃ room, (blanks ++ symbol :: (second ++ rest)).length = room + 1 :=
        ⟨_, by rw [List.length_append, List.length_cons, ← Nat.add_assoc]⟩
      have covers : rest.length ≤ room := by
        simp only [List.length_append, List.length_cons] at isRoom
        omega
      rw [whole, front]
      show chain _ _ _ _ _ = chain _ _ _ _ _
      rw [isRoom, chain, next]
      dsimp only
      rw [isOperator]
      dsimp only
      rw [back]
      refine chain_congr length_le_of_reads same ?_ (same ▸ length_skipBlank_le _)
      rw [same]
      exact (length_skipBlank_le _).trans covers

/-- A text is read as an expression exactly when it spells it, with blanks behind it. -/
theorem parseChars_eq_ok_iff {text : List Char} {expression : Expr} :
    parseChars text = .ok expression ↔ IsSentence text expression := by
  constructor
  · intro parsed
    unfold parseChars at parsed
    split at parsed
    · cases parsed
    · rename_i after inside
      obtain ⟨spelled, blanks, same, blank, spells⟩ :=
        isSound_ofRank (.ranked .additive) text.length inside
      split at parsed
      · rename_i nothing
        cases parsed
        obtain ⟨more, moreBlank, cut⟩ := exists_blanks_append_skipBlank after
        rw [nothing, List.append_nil] at cut
        exact ⟨spelled, blanks ++ more, by rw [same, cut],
          List.forall_mem_append.2 ⟨blank, moreBlank⟩, spells⟩
      · cases parsed
  · rintro ⟨spelled, blanks, rfl, blank, spells⟩
    have nothing : skipBlank blanks = [] := by
      have skipped := skipBlank_append_of_blank blank []
      rwa [List.append_nil] at skipped
    have closes : Closes (.ranked .additive) blanks := by
      refine ⟨fun next first => ?_, ?_⟩
      · exact isWordChar_of_isBlank (blank next (List.mem_of_mem_head? first))
      · rw [nothing]
        exact fun _ none => nomatch none
    have read :
        sum ((spelled ++ blanks).length + 1) (spelled ++ blanks) = .ok (expression, []) := by
      refine (parser_of_spells spells ?_ closes).trans ?_
      · simp
      · refine (chain_of_no_operator ?_ _ _).trans (by rw [nothing])
        rw [nothing]
        exact fun _ none => nomatch none
    rw [parseChars, read]
    rfl

/-- A source is an expression exactly if its characters are a sentence. -/
theorem parse_eq_ok_iff {source : String} {expression : Expr} :
    parse source = .ok expression ↔ IsSentence source.toList expression := by
  rw [← parseChars_eq_ok_iff, parse]
  split
  · rename_i parsed
    rw [parsed, Except.ok.injEq, Except.ok.injEq]
  · rename_i failed
    rw [failed]
    exact ⟨nofun, nofun⟩

end NetBlueprint.Expr
