import NetBlueprint.Proofs.Expr.Grammar

/-!
Contract: expressions as sentences of tokens.

A text is cut into tokens, each as long as it can be, and blanks may stand anywhere between them.
The grammar is then one of tokens: it decides which sequences of them are an expression, and of
which tree, and never looks at a character. A text is read as an expression exactly when its tokens
derive it.

Owns: tokens, the grammar over them, and that the parser accepts exactly its sentences.

Does not own: phrases as stretches of characters, of which the parser's own lemmas speak.
-/

namespace NetBlueprint.Expr

open Text

/-! ## Tokens -/

/-- A run of digits, an identifier, an operation or a parenthesis. -/
inductive Token where
  | digits (run : List Char)
  | identifier (run : List Char)
  | operation (operator : Operator)
  | opening
  | closing
deriving DecidableEq, Repr

namespace Token

def characters : Token → List Char
  | .digits run => run
  | .identifier run => run
  | .operation operator => [operator.symbol]
  | .opening => ['(']
  | .closing => [')']

/-- A run of digits has a digit and nothing else, and an identifier does not start with one. -/
def IsProper : Token → Prop
  | .digits run => run ≠ [] ∧ ∀ digit ∈ run, digit.isDigit = true
  | .identifier run => isIdentifier run = true
  | .operation _ => True
  | .opening => True
  | .closing => True

/-- Decides whether a character behind a token would make it longer. -/
def isExtendedBy : Token → Char → Bool
  | .digits _ => Char.isDigit
  | .identifier _ => isWordChar
  | .operation _ => fun _ => false
  | .opening => fun _ => false
  | .closing => fun _ => false

/-- No token goes on over a character that stands in no word. -/
theorem isExtendedBy_of_notWord {character : Char} (notWord : isWordChar character = false) :
    ∀ token : Token, token.isExtendedBy character = false
  | .digits _ => by
      rw [Bool.eq_false_iff]
      intro digit
      rw [isWordChar_of_isDigit digit] at notWord
      cases notWord
  | .identifier _ => notWord
  | .operation _ | .opening | .closing => rfl

end Token

/-- A text is cut into tokens: none of them could be longer, and blanks stand anywhere between
them. -/
inductive Tokenizes : List Char → List Token → Prop where
  | done : Tokenizes [] []
  | blank {character : Char} {text : List Char} {tokens : List Token}
      (isBlank : isBlank character = true) (rest : Tokenizes text tokens) :
      Tokenizes (character :: text) tokens
  | token (token : Token) {text : List Char} {tokens : List Token} (isProper : token.IsProper)
      (isMaximal : ∀ next ∈ text.head?, token.isExtendedBy next = false)
      (rest : Tokenizes text tokens) :
      Tokenizes (token.characters ++ text) (token :: tokens)

/-! ## The grammar -/

def Precedence.operators : Precedence → List Operator
  | .multiplicative => [.multiply, .divide]
  | .additive => [.add, .subtract]

/-- Tokens derive an expression of a rank. An integer fits 64 bits. Of several operations of one
precedence the last is the root of the tree, so they associate to the left, and a plus in front of
an atom leaves no trace. -/
inductive Derives : Rank → List Token → Expr → Prop where
  | number {run : List Char} (fits : Nat.ofDigitChars 10 run 0 ≤ maxSigned) :
      Derives .atom [.digits run] (.number (Nat.ofDigitChars 10 run 0))
  | reference {run : List Char} :
      Derives .atom [.identifier run] (.reference (String.ofList run))
  | parentheses {tokens : List Token} {expression : Expr}
      (derives : Derives (.ranked .additive) tokens expression) :
      Derives .atom (.opening :: (tokens ++ [.closing])) expression
  | unsigned {tokens : List Token} {expression : Expr}
      (derives : Derives .atom tokens expression) : Derives .signed tokens expression
  | minus {tokens : List Token} {expression : Expr}
      (derives : Derives .signed tokens expression) :
      Derives .signed (.operation .subtract :: tokens) (.negate expression)
  | plus {tokens : List Token} {expression : Expr}
      (derives : Derives .signed tokens expression) :
      Derives .signed (.operation .add :: tokens) expression
  | operand {precedence : Precedence} {tokens : List Token} {expression : Expr}
      (derives : Derives precedence.operand tokens expression) :
      Derives (.ranked precedence) tokens expression
  | binary {precedence : Precedence} {operator : Operator} {first second : List Token}
      {left right : Expr} (isOperator : operator ∈ precedence.operators)
      (derivesLeft : Derives (.ranked precedence) first left)
      (derivesRight : Derives precedence.operand second right) :
      Derives (.ranked precedence) (first ++ .operation operator :: second)
        (.binary operator left right)

private theorem operator?_eq_some_iff {precedence : Precedence} {operator : Operator}
    {symbol : Char} :
    precedence.operator? symbol = some operator ↔
      symbol = operator.symbol ∧ operator ∈ precedence.operators := by
  constructor
  · intro isOperator
    refine ⟨symbol_of_operator? isOperator, ?_⟩
    rw [symbol_of_operator? isOperator] at isOperator
    revert isOperator
    cases precedence <;> cases operator <;> decide
  · rintro ⟨rfl, member⟩
    revert member
    cases precedence <;> cases operator <;> decide

/-- A run of digits is read as what it writes, unless that is beyond 64 bits. -/
theorem signed?_digits {run : List Char} {value : Int} :
    signed? (naturalOfDigits run) = some value ↔
      Nat.ofDigitChars 10 run 0 ≤ maxSigned ∧ (Nat.ofDigitChars 10 run 0 : Int) = value := by
  have same : naturalOfDigits run = Nat.ofDigitChars 10 run 0 := rfl
  have least : minSigned ≤ Nat.ofDigitChars 10 run 0 :=
    Int.le_trans (by decide : minSigned ≤ 0) (Int.natCast_nonneg _)
  rw [signed?_eq_some_iff, same]
  exact and_iff_right least

/-! ## Phrases have tokens -/

/-- Blanks in front of a text do not change its tokens. -/
theorem Tokenizes.blanks {blanks text : List Char} {tokens : List Token}
    (blank : ∀ character ∈ blanks, isBlank character = true) (rest : Tokenizes text tokens) :
    Tokenizes (blanks ++ text) tokens := by
  induction blanks with
  | nil => exact rest
  | cons first others inductionHypothesis =>
      rw [List.forall_mem_cons] at blank
      exact .blank blank.1 (inductionHypothesis blank.2)

private theorem Tokenizes.token_of_notWord (token : Token) {text : List Char}
    {tokens : List Token} (isProper : token.IsProper)
    (notWord : ∀ next ∈ text.head?, isWordChar next = false) (rest : Tokenizes text tokens) :
    Tokenizes (token.characters ++ text) (token :: tokens) :=
  .token token isProper (fun next first => token.isExtendedBy_of_notWord (notWord next first)) rest

/-- A phrase has tokens that derive its expression. The last of them may be a run of digits or an
identifier, so the text behind the phrase, which is arbitrary otherwise, starts with no word. -/
theorem exists_tokens_of_spells {rank : Rank} {text : List Char} {expression : Expr}
    (spells : Spells rank text expression) :
    ∃ tokens, Derives rank tokens expression ∧
      ∀ {rest : List Char} {more : List Token},
        (∀ next ∈ rest.head?, isWordChar next = false) → Tokenizes rest more →
          Tokenizes (text ++ rest) (tokens ++ more) := by
  induction spells with
  | blank isBlank _ inductionHypothesis =>
      obtain ⟨tokens, derives, cut⟩ := inductionHypothesis
      exact ⟨tokens, derives, fun notWord rest => .blank isBlank (cut notWord rest)⟩
  | @number digits value nonempty areDigits fits =>
      obtain ⟨small, rfl⟩ := signed?_digits.1 fits
      exact ⟨[.digits digits], .number small, fun notWord rest =>
        .token_of_notWord (.digits digits) ⟨nonempty, areDigits⟩ notWord rest⟩
  | @reference name identifier =>
      exact ⟨[.identifier name], .reference, fun notWord rest =>
        .token_of_notWord (.identifier name) identifier notWord rest⟩
  | @group text blanks expression _ blank inductionHypothesis =>
      obtain ⟨tokens, derives, cut⟩ := inductionHypothesis
      refine ⟨_, .parentheses derives, fun {rest more} notWord cutRest => ?_⟩
      have closed : Tokenizes (blanks ++ ')' :: rest) (.closing :: more) :=
        .blanks blank (.token_of_notWord .closing trivial notWord cutRest)
      have inside := cut (notWord_of_blanks blank (by decide)) closed
      have opened : Tokenizes ('(' :: (text ++ (blanks ++ ')' :: rest)))
          (.opening :: (tokens ++ .closing :: more)) :=
        .token .opening trivial (fun _ _ => rfl) inside
      simpa using opened
  | unsigned _ inductionHypothesis =>
      obtain ⟨tokens, derives, cut⟩ := inductionHypothesis
      exact ⟨tokens, .unsigned derives, cut⟩
  | minus _ inductionHypothesis =>
      obtain ⟨tokens, derives, cut⟩ := inductionHypothesis
      exact ⟨_, .minus derives, fun notWord rest =>
        .token (.operation .subtract) trivial (fun _ _ => rfl) (cut notWord rest)⟩
  | plus _ inductionHypothesis =>
      obtain ⟨tokens, derives, cut⟩ := inductionHypothesis
      exact ⟨_, .plus derives, fun notWord rest =>
        .token (.operation .add) trivial (fun _ _ => rfl) (cut notWord rest)⟩
  | operand _ inductionHypothesis =>
      obtain ⟨tokens, derives, cut⟩ := inductionHypothesis
      exact ⟨tokens, .operand derives, cut⟩
  | @binary precedence operator symbol first blanks second left right _ blank isOperator _
      leftHypothesis rightHypothesis =>
      obtain ⟨front, derivesLeft, cutLeft⟩ := leftHypothesis
      obtain ⟨behind, derivesRight, cutRight⟩ := rightHypothesis
      obtain ⟨rfl, member⟩ := operator?_eq_some_iff.1 isOperator
      refine ⟨_, .binary member derivesLeft derivesRight, fun {rest more} notWord cutRest => ?_⟩
      have cutSecond : Tokenizes (blanks ++ operator.symbol :: (second ++ rest))
          (.operation operator :: (behind ++ more)) :=
        .blanks blank (.token (.operation operator) trivial (fun _ _ => rfl)
          (cutRight notWord cutRest))
      have whole := cutLeft (notWord_of_blanks blank (isWordChar_symbol operator)) cutSecond
      simpa using whole

/-! ## Tokens spell phrases -/

/-- Tokens that stand in front of others are those of the front of the text. -/
theorem Tokenizes.exists_append {front behind : List Token} {text : List Char}
    (cut : Tokenizes text (front ++ behind)) :
    ∃ first second, text = first ++ second ∧ Tokenizes first front ∧
      Tokenizes second behind := by
  generalize same : front ++ behind = tokens at cut
  induction cut generalizing front with
  | done =>
      obtain ⟨rfl, rfl⟩ := List.append_eq_nil_iff.1 same
      exact ⟨[], [], rfl, .done, .done⟩
  | @blank character text _ isBlank _ inductionHypothesis =>
      obtain ⟨first, second, rfl, cutFirst, cutSecond⟩ := inductionHypothesis same
      exact ⟨character :: first, second, rfl, .blank isBlank cutFirst, cutSecond⟩
  | @token token text tokens isProper isMaximal rest inductionHypothesis =>
      cases front with
      | nil =>
          cases same
          exact ⟨[], _, rfl, .done, .token token isProper isMaximal rest⟩
      | cons head others =>
          obtain ⟨rfl, sameRest⟩ := List.cons.inj same
          obtain ⟨first, second, rfl, cutFirst, cutSecond⟩ := inductionHypothesis sameRest
          refine ⟨head.characters ++ first, second, (List.append_assoc _ _ _).symm, ?_, cutSecond⟩
          refine .token head isProper (fun next isNext => isMaximal next ?_) cutFirst
          rw [List.head?_append, Option.mem_def.1 isNext]
          rfl

/-- The first token stands at the front of a text, blanks aside. -/
theorem Tokenizes.exists_cons {token : Token} {tokens : List Token} {text : List Char}
    (cut : Tokenizes text (token :: tokens)) :
    ∃ blanks rest, text = blanks ++ (token.characters ++ rest) ∧
      (∀ character ∈ blanks, isBlank character = true) ∧ token.IsProper ∧
        Tokenizes rest tokens := by
  generalize same : token :: tokens = all at cut
  induction cut with
  | done => cases same
  | @blank character _ _ isBlank _ inductionHypothesis =>
      obtain ⟨blanks, rest, rfl, blank, isProper, cutRest⟩ := inductionHypothesis same
      exact ⟨character :: blanks, rest, rfl, List.forall_mem_cons.2 ⟨isBlank, blank⟩, isProper,
        cutRest⟩
  | @token _ text _ isProper _ rest _ =>
      cases same
      exact ⟨[], text, rfl, nofun, isProper, rest⟩

/-- A text without tokens is blank. -/
theorem Tokenizes.blank_of_nil {text : List Char} (cut : Tokenizes text []) :
    ∀ character ∈ text, isBlank character = true := by
  generalize same : [] = tokens at cut
  induction cut with
  | done => exact nofun
  | blank isBlank _ inductionHypothesis =>
      exact List.forall_mem_cons.2 ⟨isBlank, inductionHypothesis same⟩
  | token _ _ _ _ _ => cases same

/-- A text whose tokens derive an expression spells it, with blanks behind it. -/
theorem exists_spelled_of_derives {rank : Rank} {tokens : List Token} {expression : Expr}
    (derives : Derives rank tokens expression) :
    ∀ {text : List Char}, Tokenizes text tokens →
      ∃ spelled blanks, text = spelled ++ blanks ∧
        (∀ character ∈ blanks, isBlank character = true) ∧ Spells rank spelled expression := by
  induction derives with
  | @number run fits =>
      intro text cut
      obtain ⟨leading, rest, rfl, blank, ⟨nonempty, areDigits⟩, cutRest⟩ := cut.exists_cons
      exact ⟨leading ++ run, rest, (List.append_assoc _ _ _).symm, cutRest.blank_of_nil,
        .blanks (.number nonempty areDigits (signed?_digits.2 ⟨fits, rfl⟩)) blank⟩
  | @reference run =>
      intro text cut
      obtain ⟨leading, rest, rfl, blank, identifier, cutRest⟩ := cut.exists_cons
      exact ⟨leading ++ run, rest, (List.append_assoc _ _ _).symm, cutRest.blank_of_nil,
        .blanks (.reference identifier) blank⟩
  | parentheses _ inductionHypothesis =>
      intro text cut
      obtain ⟨leading, opened, rfl, blank, _, cutOpened⟩ := cut.exists_cons
      obtain ⟨inside, closed, rfl, cutInside, cutClosed⟩ := cutOpened.exists_append
      obtain ⟨spelled, between, rfl, betweenBlank, spells⟩ := inductionHypothesis cutInside
      obtain ⟨more, rest, rfl, moreBlank, _, cutRest⟩ := cutClosed.exists_cons
      refine ⟨leading ++ '(' :: (spelled ++ ((between ++ more) ++ [')'])), rest, ?_,
        cutRest.blank_of_nil,
        .blanks (.group spells (List.forall_mem_append.2 ⟨betweenBlank, moreBlank⟩)) blank⟩
      simp [Token.characters]
  | unsigned _ inductionHypothesis =>
      intro text cut
      obtain ⟨spelled, blanks, same, blank, spells⟩ := inductionHypothesis cut
      exact ⟨spelled, blanks, same, blank, .unsigned spells⟩
  | minus _ inductionHypothesis =>
      intro text cut
      obtain ⟨leading, rest, rfl, blank, _, cutRest⟩ := cut.exists_cons
      obtain ⟨spelled, blanks, rfl, isBlank, spells⟩ := inductionHypothesis cutRest
      exact ⟨leading ++ '-' :: spelled, blanks,
        (List.append_assoc leading ('-' :: spelled) blanks).symm, isBlank,
        .blanks (.minus spells) blank⟩
  | plus _ inductionHypothesis =>
      intro text cut
      obtain ⟨leading, rest, rfl, blank, _, cutRest⟩ := cut.exists_cons
      obtain ⟨spelled, blanks, rfl, isBlank, spells⟩ := inductionHypothesis cutRest
      exact ⟨leading ++ '+' :: spelled, blanks,
        (List.append_assoc leading ('+' :: spelled) blanks).symm, isBlank,
        .blanks (.plus spells) blank⟩
  | operand _ inductionHypothesis =>
      intro text cut
      obtain ⟨spelled, blanks, same, blank, spells⟩ := inductionHypothesis cut
      exact ⟨spelled, blanks, same, blank, .operand spells⟩
  | @binary precedence operator _ _ left right isOperator _ _ leftHypothesis rightHypothesis =>
      intro text cut
      obtain ⟨first, second, rfl, cutFirst, cutSecond⟩ := cut.exists_append
      obtain ⟨front, between, rfl, betweenBlank, spellsLeft⟩ := leftHypothesis cutFirst
      obtain ⟨more, rest, rfl, moreBlank, _, cutRest⟩ := cutSecond.exists_cons
      obtain ⟨behind, blanks, rfl, blank, spellsRight⟩ := rightHypothesis cutRest
      refine ⟨front ++ ((between ++ more) ++ operator.symbol :: behind), blanks, ?_, blank,
        .binary spellsLeft (List.forall_mem_append.2 ⟨betweenBlank, moreBlank⟩)
          (operator?_eq_some_iff.2 ⟨rfl, isOperator⟩) spellsRight⟩
      simp [Token.characters]

/-! ## The parser -/

/-- A text is read as an expression exactly when it is cut into tokens that derive it. -/
theorem parse_eq_ok_iff_derives {source : String} {expression : Expr} :
    parse source = .ok expression ↔
      ∃ tokens, Tokenizes source.toList tokens ∧
        Derives (.ranked .additive) tokens expression := by
  rw [parse_eq_ok_iff]
  constructor
  · rintro ⟨spelled, blanks, same, blank, spells⟩
    obtain ⟨tokens, derives, cut⟩ := exists_tokens_of_spells spells
    have nothing : Tokenizes blanks [] := by
      simpa using Tokenizes.blanks blank .done
    have notWord : ∀ next ∈ blanks.head?, isWordChar next = false :=
      fun next first => isWordChar_of_isBlank (blank next (List.mem_of_mem_head? first))
    have whole := cut notWord nothing
    rw [List.append_nil, ← same] at whole
    exact ⟨tokens, whole, derives⟩
  · rintro ⟨tokens, cut, derives⟩
    exact exists_spelled_of_derives derives cut

end NetBlueprint.Expr
