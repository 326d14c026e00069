import NetBlueprint.Compiler.Names
import NetBlueprint.Proofs.Substitution.Splicing

/-!
Contract: names that a hygiene suffix can be taken off.

A suffix starts with two underscores, so it is found again when the name in front of it has no two
of them in a row and does not end with one. Integers bring no underscores, so filling them in keeps
such names.

Owns: clean names.
-/

namespace NetBlueprint

namespace Name

/-- A name that is not empty, does not end with an underscore, and has no two of them in a row. -/
structure IsClean (name : List Char) : Prop where
  nonempty : name ≠ []
  single : beforeSuffix? name = none
  closed : name.getLast? ≠ some '_'

instance (name : List Char) : Decidable (IsClean name) :=
  decidable_of_iff (name ≠ [] ∧ beforeSuffix? name = none ∧ name.getLast? ≠ some '_')
    ⟨fun ⟨nonempty, single, closed⟩ => ⟨nonempty, single, closed⟩,
      fun clean => ⟨clean.nonempty, clean.single, clean.closed⟩⟩

/-- Two underscores in a row stand at the front of a text or behind its first character. -/
theorem beforeSuffix?_cons_eq_none {character : Char} {rest : List Char} :
    beforeSuffix? (character :: rest) = none ↔
      ¬ (character = '_' ∧ rest.head? = some '_') ∧ beforeSuffix? rest = none := by
  rw [beforeSuffix?]
  by_cases opens : character = '_' ∧ rest.head? = some '_'
  · rw [if_pos (by simpa using opens)]
    constructor
    · intro found
      cases found
    · rintro ⟨continues, _⟩
      exact absurd opens continues
  · rw [if_neg (by simpa using opens), Option.map_eq_none_iff, and_iff_right opens]

/-- What ends a text without two underscores in a row has none of them either. -/
theorem beforeSuffix?_of_append {front rest : List Char}
    (single : beforeSuffix? (front ++ rest) = none) : beforeSuffix? rest = none := by
  induction front with
  | nil => exact single
  | cons character front inductionHypothesis =>
      exact inductionHypothesis (beforeSuffix?_cons_eq_none.1 single).2

/-- A front of a text without two underscores in a row has none either. -/
theorem beforeSuffix?_of_isPrefix : ∀ {front text : List Char}, front <+: text →
    beforeSuffix? text = none → beforeSuffix? front = none
  | [], _, _, _ => rfl
  | character :: front, [], starts, _ => by cases List.prefix_nil.1 starts
  | character :: front, first :: rest, starts, single => by
      obtain ⟨rfl, follows⟩ := List.cons_prefix_cons.1 starts
      rw [beforeSuffix?_cons_eq_none] at single ⊢
      refine ⟨fun ⟨isUnderscore, next⟩ => single.1 ⟨isUnderscore, ?_⟩,
        beforeSuffix?_of_isPrefix follows single.2⟩
      cases front with
      | nil => cases next
      | cons second front =>
          obtain ⟨more, rfl⟩ := follows
          exact next

/-- Two underscores after a clean text are the first two in a row. -/
theorem beforeSuffix?_append : ∀ {name : List Char}, beforeSuffix? name = none →
    name.getLast? ≠ some '_' → ∀ rest : List Char,
      beforeSuffix? (name ++ '_' :: '_' :: rest) = some name
  | [], _, _, _ => by simp [beforeSuffix?]
  | character :: name, single, closed, rest => by
      obtain ⟨continues, following⟩ := beforeSuffix?_cons_eq_none.1 single
      have notLast : ¬ (character = '_' ∧ (name ++ '_' :: '_' :: rest).head? = some '_') := by
        rintro ⟨rfl, next⟩
        cases name with
        | nil => exact closed rfl
        | cons second name => exact continues ⟨rfl, next⟩
      have closedAfter : name.getLast? ≠ some '_' := by
        cases name with
        | nil => simp
        | cons second name => rwa [List.getLast?_cons_cons] at closed
      rw [List.cons_append, beforeSuffix?, if_neg (by simpa using notLast),
        beforeSuffix?_append following closedAfter rest]
      rfl

/-- A name without two underscores in a row has no suffix to drop. -/
theorem withoutSuffix_of_single {name : List Char} (single : beforeSuffix? name = none) :
    withoutSuffix name = name := by
  rw [withoutSuffix, single]

/-- What is left without the digits at the end starts the name. -/
theorem withoutDigits_isPrefix (name : List Char) : withoutDigits name <+: name := by
  have reversed := List.reverse_prefix.2 (List.dropWhile_suffix (l := name.reverse) Char.isDigit)
  rwa [List.reverse_reverse] at reversed

end Name

namespace Spliced

variable {text spliced : List Char}

/-- No integer is written with an underscore. -/
theorem noUnderscore (number : Int) : '_' ∉ (toString number).toList := by
  have digits (value : Nat) : '_' ∉ value.repr.toList := by
    rw [Nat.toList_repr]
    intro member
    have isDigit := Nat.isDigit_of_mem_toDigits (by decide) (by decide) member
    cases isDigit
  cases number with
  | ofNat value => exact digits value
  | negSucc value =>
      show '_' ∉ ("-" ++ (value + 1).repr).toList
      rw [String.toList_append]
      exact fun member => (List.mem_append.1 member).elim (by decide) (digits (value + 1))

/-- Integers that are spliced in bring no two underscores in a row. -/
theorem beforeSuffix? (splices : Spliced text spliced) (single : Name.beforeSuffix? text = none) :
    Name.beforeSuffix? spliced = none ∧ (spliced.head? = some '_' → text.head? = some '_') := by
  induction splices with
  | done => exact ⟨rfl, id⟩
  | keep character _ inductionHypothesis =>
      obtain ⟨continues, following⟩ := Name.beforeSuffix?_cons_eq_none.1 single
      obtain ⟨splicedSingle, heads⟩ := inductionHypothesis following
      exact ⟨Name.beforeSuffix?_cons_eq_none.2
        ⟨fun ⟨isUnderscore, next⟩ => continues ⟨isUnderscore, heads next⟩, splicedSingle⟩, id⟩
  | @put dropped number text spliced _ inductionHypothesis =>
      have following := (inductionHypothesis (Name.beforeSuffix?_of_append single)).1
      have none := noUnderscore number
      obtain ⟨digit, member, _⟩ := exists_digit number
      revert none member
      generalize (toString number).toList = digits
      intro none member
      refine ⟨?_, ?_⟩
      · clear member
        induction digits with
        | nil => exact following
        | cons first digits digitsFollow =>
            rw [List.mem_cons, not_or] at none
            exact Name.beforeSuffix?_cons_eq_none.2
              ⟨fun opens => none.1 opens.1.symm, digitsFollow none.2⟩
      · intro starts
        cases digits with
        | nil => cases member
        | cons first digits =>
            cases Option.some.inj starts
            exact absurd List.mem_cons_self none

theorem nonempty (splices : Spliced text spliced) (nonempty : text ≠ []) : spliced ≠ [] := by
  cases splices with
  | done => exact nonempty
  | keep character _ => exact List.cons_ne_nil _ _
  | put dropped number _ =>
      obtain ⟨digit, member, _⟩ := exists_digit number
      exact List.append_ne_nil_of_left_ne_nil (List.ne_nil_of_mem member) _

/-- An underscore at the end was there before the integers were put in. -/
theorem closed (splices : Spliced text spliced) (closed : text.getLast? ≠ some '_') :
    spliced.getLast? ≠ some '_' := by
  induction splices with
  | done => exact closed
  | @keep character text spliced rest inductionHypothesis =>
      cases spliced with
      | nil =>
          have empty : text = [] := by
            by_contra nonempty
            exact rest.nonempty nonempty rfl
          rwa [empty] at closed
      | cons first spliced =>
          rw [List.getLast?_cons_cons]
          refine inductionHypothesis fun last => closed ?_
          cases text with
          | nil => cases last
          | cons second text => rwa [List.getLast?_cons_cons]
  | @put dropped number text spliced rest inductionHypothesis =>
      obtain ⟨front, digit, same, isDigit⟩ := last_digit number
      cases spliced with
      | nil =>
          rw [List.append_nil, same, List.getLast?_concat]
          rintro isUnderscore
          cases Option.some.inj isUnderscore
          cases isDigit
      | cons first spliced =>
          rw [List.getLast?_append_of_ne_nil _ (List.cons_ne_nil _ _)]
          refine inductionHypothesis fun last => closed ?_
          rw [List.getLast?_append_of_ne_nil _ fun empty => by rw [empty] at last; cases last]
          exact last

/-- A clean name stays clean when integers are spliced in. -/
theorem isClean (splices : Spliced text spliced) (clean : Name.IsClean text) :
    Name.IsClean spliced :=
  ⟨splices.nonempty clean.nonempty, (splices.beforeSuffix? clean.single).1,
    splices.closed clean.closed⟩

end Spliced

end NetBlueprint
