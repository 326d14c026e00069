import Mathlib.Data.List.Infix
import NetBlueprint.Compiler.Expansion
import NetBlueprint.Proofs.Expr.References
import NetBlueprint.Proofs.Substitution.FreeOccurrences
import NetBlueprint.Proofs.Substitution.Splicing
import NetBlueprint.Proofs.Substitution.Valuing

/-!
Contract: templates inside several loops.

The loops around a template are unrolled from the outermost to the innermost, and each of them fills
its counter in before the next one does. A bracket is evaluated by the first loop whose counter it
mentions. So what comes out is the template with its brackets evaluated under all counters at once
exactly as long as no bracket waits for a second counter, and as long as no value spells a counter
together with the text around it.

Owns: brackets evaluated under several counters, and what one more counter makes of a template.

Does not own: that a compilation unrolls loops in this order.
-/

namespace NetBlueprint

open Text

/-! ## Several counters at once -/

/-- The counter of a loop with the bounds, both of them included. -/
structure Counter where
  name : String
  first : Int
  last : Int
deriving DecidableEq, Repr

/-- A number of integers in ascending order, from a value on. -/
def upward : Nat → Int → List Int
  | 0, _ => []
  | count + 1, value => value :: upward count (value + 1)

def Counter.span (counter : Counter) : List Int :=
  upward (counter.last - counter.first + 1).toNat counter.first

/-- The index tuples of loops, the outermost first, in lexicographic order. -/
def assignments : List Counter → List (List (String × Int))
  | [] => [[]]
  | counter :: inner =>
    counter.span.flatMap fun value =>
      (assignments inner).map fun values => (counter.name, value) :: values

/-- A bracket that mentions one of the counters is replaced by its value; other brackets stay. -/
def Segment.interpolate (values : List (String × Int)) : Segment → Except ExprError Segment
  | .plain characters => .ok (.plain characters)
  | .group inner =>
    if (Substitution.ofValues values []).mentions inner then
      (Expr.evaluateIn (Environment.ofValues values) (String.ofList (trimmed inner))).map
        fun value => .plain (toString value).toList
    else .ok (.group inner)

def interpolateAll (values : List (String × Int)) (parts : List Segment) :
    Except ExprError (List Segment) :=
  Substitution.each (Segment.interpolate values) parts

/-- The template with every bracket that mentions a counter replaced by its value. -/
def interpolate (values : List (String × Int)) (template : String) : Except ExprError String :=
  (interpolateAll values (segments template.toList)).map fun parts =>
    String.ofList (parts.flatMap Segment.characters)

/-- Without counters a template stays as it is. -/
theorem interpolate_nil (template : String) : interpolate [] template = .ok template := by
  have untouched : ∀ part ∈ segments template.toList, part.interpolate [] = .ok part := by
    intro part _
    cases part with
    | plain characters => rfl
    | group inner =>
        have silent : (Substitution.ofValues [] []).mentions inner = false :=
          List.any_eq_false.2 fun _ _ => Bool.false_ne_true
        rw [Segment.interpolate, silent]
        rfl
  rw [interpolate, interpolateAll, Substitution.each_of_untouched untouched]
  show Except.ok (String.ofList ((segments template.toList).flatMap Segment.characters)) = _
  rw [characters_segments, String.ofList_toList]

/-- The index tuples are those that give every counter a value between its bounds. -/
theorem mem_assignments_iff {counters : List Counter} {values : List (String × Int)} :
    values ∈ assignments counters ↔
      List.Forall₂ (fun value counter => value.1 = counter.name ∧ value.2 ∈ counter.span)
        values counters := by
  induction counters generalizing values with
  | nil => simp [assignments, List.forall₂_nil_right_iff]
  | cons counter inner inductionHypothesis =>
      rw [assignments, List.forall₂_cons_right_iff]
      simp only [List.mem_flatMap, List.mem_map, inductionHypothesis]
      constructor
      · rintro ⟨value, inSpan, others, all, rfl⟩
        exact ⟨_, others, ⟨rfl, inSpan⟩, all, rfl⟩
      · rintro ⟨⟨name, value⟩, others, ⟨rfl, inSpan⟩, all, rfl⟩
        exact ⟨value, inSpan, others, all, rfl⟩

private theorem mem_upward_iff {count : Nat} {start value : Int} :
    value ∈ upward count start ↔ start ≤ value ∧ value < start + count := by
  induction count generalizing start with
  | zero =>
      rw [upward]
      simp only [List.not_mem_nil, false_iff]
      omega
  | succ count inductionHypothesis =>
      rw [upward, List.mem_cons, inductionHypothesis]
      omega

/-- The values of a counter lie between its bounds. -/
theorem mem_span_iff {counter : Counter} {value : Int} :
    value ∈ counter.span ↔ counter.first ≤ value ∧ value ≤ counter.last := by
  rw [Counter.span, mem_upward_iff]
  omega

/-- Whatever values some outermost counters have, every bracket that mentions one of them has a
value under these alone, and then the last of them is no word of the template. -/
structure Interpolates (counters : List Counter) (template : String) : Prop where
  values : ∀ outer ∈ counters.inits, ∀ values ∈ assignments outer,
    (interpolate values template).isOk = true
  spaced : ∀ outer ∈ counters.inits, ∀ values ∈ assignments outer,
    ∀ filled ∈ (interpolate values template).toOption, ∀ counter ∈ outer.getLast?,
      counter.name.toList ∉ words filled.toList

/-! ## Texts cut at their brackets -/

/-- Parts that a text made of them is cut into again, but for the size of the plain ones: brackets
stand around groups only, or open one that is never closed. -/
inductive Segment.Cut : List Segment → Prop where
  | nil : Cut []
  | plain {characters : List Char} {parts : List Segment} (noOpening : '[' ∉ characters)
      (rest : Cut parts) : Cut (.plain characters :: parts)
  | group {inner : List Char} {parts : List Segment} (noClosing : ']' ∉ inner)
      (rest : Cut parts) : Cut (.group inner :: parts)
  | unclosed {inner : List Char} (noClosing : ']' ∉ inner) : Cut [.plain ('[' :: inner)]

namespace Segment

private theorem cut_segmentsFrom (text : List Char) (pending : Option (List Char))
    (noClosing : ∀ inner ∈ pending, ']' ∉ inner) : Cut (segmentsFrom pending text) := by
  have nonePending : ∀ inner ∈ (none : Option (List Char)), ']' ∉ inner :=
    fun _ absent => absurd absent (Option.not_mem_none _)
  induction text generalizing pending with
  | nil =>
      cases pending with
      | none => exact .nil
      | some inner =>
          exact .unclosed fun member => noClosing inner rfl (List.mem_reverse.1 member)
  | cons character rest inductionHypothesis =>
      cases pending with
      | none =>
          rw [segmentsFrom]
          split
          · refine inductionHypothesis (some []) ?_
            rintro inner ⟨⟩
            exact List.not_mem_nil
          · rename_i noOpening
            refine .plain ?_ (inductionHypothesis none nonePending)
            exact fun member => noOpening (List.mem_singleton.1 member).symm
      | some inner =>
          rw [segmentsFrom]
          split
          · refine .group ?_ (inductionHypothesis none nonePending)
            exact fun member => noClosing inner rfl (List.mem_reverse.1 member)
          · rename_i apart
            refine inductionHypothesis (some (character :: inner)) ?_
            rintro _ ⟨⟩ member
            exact (List.mem_cons.1 member).elim (fun same => apart same.symm) (noClosing inner rfl)

private theorem cut_segments (text : List Char) : Cut (segments text) :=
  cut_segmentsFrom text none fun _ absent => absurd absent (Option.not_mem_none _)

/-- A part stays as it is or is a bracket that is evaluated. -/
theorem interpolate_cases {values : List (String × Int)} {part filled : Segment}
    (fills : part.interpolate values = .ok filled) :
    filled = part ∨ ∃ inner value, part = .group inner ∧
      (Substitution.ofValues values []).mentions inner = true ∧
      Expr.evaluateIn (Environment.ofValues values) (String.ofList (trimmed inner)) = .ok value ∧
      filled = .plain (toString value).toList := by
  cases part with
  | plain characters =>
      cases fills
      exact .inl rfl
  | group inner =>
      rw [interpolate] at fills
      split at fills
      · rename_i mentions
        obtain ⟨value, evaluates, rfl⟩ := Outcome.map_eq_ok.1 fills
        exact .inr ⟨inner, value, rfl, mentions, evaluates, rfl⟩
      · cases fills
        exact .inl rfl

/-- Values have no brackets, so a text stays cut where it was. -/
theorem Cut.of_interpolateAll {values : List (String × Int)} {parts filled : List Segment}
    (cut : Cut parts) (fills : interpolateAll values parts = .ok filled) : Cut filled := by
  have noOpening (value : Int) : '[' ∉ (toString value).toList :=
    fun member => absurd (mem_toString member) (by decide)
  replace fills := Substitution.each_eq_ok_iff.1 fills
  induction cut generalizing filled with
  | nil =>
      cases fills
      exact .nil
  | plain apart _ inductionHypothesis =>
      obtain ⟨_, others, first, rest, rfl⟩ := List.forall₂_cons_left_iff.1 fills
      cases first
      exact .plain apart (inductionHypothesis rest)
  | group noClosing _ inductionHypothesis =>
      obtain ⟨part, others, first, rest, rfl⟩ := List.forall₂_cons_left_iff.1 fills
      rcases interpolate_cases first with rfl | ⟨_, value, _, _, _, rfl⟩
      · exact .group noClosing (inductionHypothesis rest)
      · exact .plain (noOpening value) (inductionHypothesis rest)
  | unclosed noClosing =>
      obtain ⟨_, others, first, rest, rfl⟩ := List.forall₂_cons_left_iff.1 fills
      cases first
      cases rest
      exact .unclosed noClosing

/-- The first scan of a text goes over the parts that it is made of. -/
theorem Cut.fillSegments {parts : List Segment} (cut : Cut parts) (substitution : Substitution) :
    substitution.fillSegments (segments (parts.flatMap characters)) =
      substitution.fillSegments parts := by
  induction cut with
  | nil => rfl
  | @plain run parts noOpening _ inductionHypothesis =>
      rw [List.flatMap_cons, Substitution.fillSegments_plain, ← inductionHypothesis]
      exact Substitution.fillSegments_run substitution noOpening _
  | @group inner parts noClosing _ inductionHypothesis =>
      have whole : (Segment.group inner :: parts).flatMap characters =
          '[' :: (inner ++ ']' :: parts.flatMap characters) := by
        simp [Segment.characters]
      rw [whole, segments, segmentsFrom, if_pos rfl, Substitution.segmentsFrom_run noClosing,
        segmentsFrom, if_pos rfl, List.append_nil, List.reverse_reverse,
        Substitution.fillSegments_group, Substitution.fillSegments_group, ← inductionHypothesis]
      rfl
  | @unclosed inner noClosing =>
      rw [List.flatMap_singleton, characters, segments, segmentsFrom, if_pos rfl,
        Substitution.fillSegments_of_noClosing substitution (some []) inner noClosing]
      simp [Substitution.fillSegments]

end Segment

/-! ## One more counter -/

namespace Expr

/-- The variables of an expression are words of its text. -/
theorem mem_words_of_occurs {rank : Rank} {text : List Char} {expression : Expr}
    (spells : Spells rank text expression) :
    ∀ name ∈ expression.occurrences, name.toList ∈ words text := by
  have behind {character : Char} (isOther : isWordChar character = false) (text : List Char) :
      words (character :: text) = words text :=
    words_append_other isOther [] text
  induction spells with
  | blank isBlank _ inductionHypothesis =>
      rw [behind (isWordChar_of_isBlank isBlank)]
      exact inductionHypothesis
  | number _ _ _ => exact nofun
  | reference identifier =>
      obtain ⟨nonempty, isWord⟩ := isWord_of_isIdentifier identifier
      intro name occurs
      cases List.mem_singleton.1 occurs
      rw [words_of_isWord isWord nonempty, String.toList_ofList]
      exact List.mem_singleton_self _
  | group _ blank inductionHypothesis =>
      intro name occurs
      rw [behind (by decide), ← List.append_assoc, words_append_other (by decide),
        words_append_blanks blank]
      exact List.mem_append_left _ (inductionHypothesis name occurs)
  | unsigned _ inductionHypothesis | operand _ inductionHypothesis => exact inductionHypothesis
  | minus _ inductionHypothesis | plus _ inductionHypothesis =>
      rw [behind (by decide)]
      exact inductionHypothesis
  | @binary _ operator _ _ _ _ _ _ _ blank isOperator _ leftHypothesis rightHypothesis =>
      intro name occurs
      rw [← List.append_assoc,
        words_append_other (symbol_of_operator? isOperator ▸ isWordChar_symbol operator),
        words_append_blanks blank]
      exact (List.mem_append.1 occurs).elim
        (fun inLeft => List.mem_append_left _ (leftHypothesis name inLeft))
        (fun inRight => List.mem_append_right _ (rightHypothesis name inRight))

/-- A text has the same value in every environment that resolves its words alike. -/
theorem evaluateIn_of_words {one other : Environment} {source : String} {value : Int}
    (evaluates : evaluateIn one source = .ok value)
    (agree : ∀ name number, name.toList ∈ words source.toList → one name = .ok (some number) →
      other name = .ok (some number)) : evaluateIn other source = .ok value := by
  unfold evaluateIn at evaluates ⊢
  split at evaluates
  · cases evaluates
  · rename_i expression parsed
    split at evaluates
    · cases evaluates
    · rename_i inner
      cases evaluates
      obtain ⟨spelled, blanks, same, blank, spells⟩ := parse_eq_ok_iff.1 parsed
      have kept := eval_of_occurrences (fun name occurs number => agree name number (by
        rw [same, words_append_blanks blank]
        exact mem_words_of_occurs spells name occurs)) inner
      rw [kept]

end Expr

section Counter

variable {values : List (String × Int)} {counter : String} {value : Int}

private theorem mentions_ofValues {inner : List Char} :
    (Substitution.ofValues values []).mentions inner = true ↔
      ∃ name number, name.toList ∈ words inner ∧ values.lookup name = some number := by
  rw [Substitution.mentions, List.any_eq_true]
  constructor
  · rintro ⟨word, isWord, bound⟩
    rw [Substitution.binds, Substitution.value?_ofValues, Option.isSome_map] at bound
    obtain ⟨number, found⟩ := Option.isSome_iff_exists.1 bound
    exact ⟨String.ofList word, number, by rwa [String.toList_ofList], found⟩
  · rintro ⟨name, number, isWord, found⟩
    refine ⟨name.toList, isWord, ?_⟩
    rw [Substitution.binds, Substitution.value?_ofValues, String.ofList_toList, found]
    rfl

private theorem lookup_single {name : String} {number : Int} :
    [(counter, value)].lookup name = some number ↔ name = counter ∧ number = value := by
  rw [List.lookup_cons]
  by_cases same : name = counter
  · simp [same, eq_comm]
  · have other : (name == counter) = false := by simpa using same
    simp [other, same]

private theorem lookup_more (apart : values.lookup counter = none) {name : String} {number : Int} :
    (values ++ [(counter, value)]).lookup name = some number ↔
      values.lookup name = some number ∨ name = counter ∧ number = value := by
  rw [List.lookup_append, ← lookup_single]
  by_cases same : name = counter
  · rw [same, apart, Option.none_or]
    simp
  · have absent : [(counter, value)].lookup name = none := by
      rw [← Option.not_isSome_iff_eq_none, Option.isSome_iff_exists]
      rintro ⟨number, found⟩
      exact same (lookup_single.1 found).1
    rw [absent, Option.or_none]
    simp

private theorem roundSubstitution_eq :
    Compile.roundSubstitution counter value = Substitution.ofValues [(counter, value)] [] := rfl

private theorem evaluateIn_counter (identifier : isIdentifier counter.toList = true) {number : Int}
    (apart : values.lookup counter = none)
    (evaluates : Expr.evaluateIn (Environment.ofValues (values ++ [(counter, value)])) counter =
      .ok number) : number = value := by
  have parsed : Expr.parse counter = .ok (.reference counter) := by
    have spells := Expr.Spells.reference identifier
    rw [String.ofList_toList] at spells
    exact Expr.parse_eq_ok_iff.2
      ⟨_, [], (List.append_nil _).symm, nofun, .operand (.operand (.unsigned spells))⟩
  rw [Expr.evaluateIn, parsed] at evaluates
  simp only [Expr.eval, Environment.ofValues, (lookup_more apart).2 (.inr ⟨rfl, rfl⟩)] at evaluates
  exact (Except.ok.inj evaluates).symm

private theorem fillGroup_counter (identifier : isIdentifier counter.toList = true)
    (apart : values.lookup counter = none) (least : minSigned ≤ value)
    (greatest : value ≤ maxSigned) {inner : List Char} {number : Int}
    (early : ¬ (Substitution.ofValues values []).mentions inner = true)
    (mentions : (Substitution.ofValues (values ++ [(counter, value)]) []).mentions inner = true)
    (evaluates : Expr.evaluateIn (Environment.ofValues (values ++ [(counter, value)]))
      (String.ofList (trimmed inner)) = .ok number) :
    (Compile.roundSubstitution counter value).fillGroup inner = .ok (toString number).toList := by
  have only {name : String} {found : Int} (isWord : name.toList ∈ words inner)
      (resolved : (values ++ [(counter, value)]).lookup name = some found) :
      name = counter ∧ found = value := by
    refine ((lookup_more apart).1 resolved).resolve_left fun earlier => early ?_
    exact mentions_ofValues.2 ⟨name, found, isWord, earlier⟩
  have single : (Compile.roundSubstitution counter value).mentions inner = true := by
    obtain ⟨name, found, isWord, resolved⟩ := mentions_ofValues.1 mentions
    obtain ⟨rfl, rfl⟩ := only isWord resolved
    exact mentions_ofValues.2 ⟨name, found, isWord, lookup_single.2 ⟨rfl, rfl⟩⟩
  have bound : (Compile.roundSubstitution counter value).value? counter =
      some (toString value) := by
    rw [roundSubstitution_eq, Substitution.value?_ofValues, lookup_single.2 ⟨rfl, rfl⟩]
    rfl
  rw [Substitution.fillGroup, if_pos single]
  dsimp only
  by_cases bare : String.ofList (trimmed inner) = counter
  · rw [bare] at evaluates ⊢
    rw [bound, evaluateIn_counter identifier apart evaluates]
  · have unbound : (Compile.roundSubstitution counter value).value?
        (String.ofList (trimmed inner)) = none := by
      rw [roundSubstitution_eq, Substitution.value?_ofValues, Option.map_eq_none_iff,
        ← Option.not_isSome_iff_eq_none, Option.isSome_iff_exists]
      rintro ⟨found, resolved⟩
      exact bare (lookup_single.1 resolved).1
    have inRound : Expr.evaluateIn (Compile.roundSubstitution counter value).environment
        (String.ofList (trimmed inner)) = .ok number := by
      refine Expr.evaluateIn_of_words evaluates fun name found isWord resolved => ?_
      rw [String.toList_ofList, words_trimmed] at isWord
      obtain ⟨rfl, rfl⟩ := only isWord (Except.ok.inj resolved)
      rw [Substitution.environment, bound]
      dsimp only
      rw [trimmed_of_notBlank fun _ member => isBlank_of_mem_toString member,
        readSigned?_toString least greatest]
    rw [unbound, inRound]

private theorem fillSegments_counter (identifier : isIdentifier counter.toList = true)
    (apart : values.lookup counter = none) (least : minSigned ≤ value)
    (greatest : value ≤ maxSigned) {part before after : Segment}
    (earlier : part.interpolate values = .ok before)
    (later : part.interpolate (values ++ [(counter, value)]) = .ok after) (rest : List Segment) :
    (Compile.roundSubstitution counter value).fillSegments (before :: rest) =
      ((Compile.roundSubstitution counter value).fillSegments rest).map
        (after.characters ++ ·) := by
  have known {name : String} {number : Int} (found : values.lookup name = some number) :
      (values ++ [(counter, value)]).lookup name = some number :=
    (lookup_more apart).2 (.inl found)
  cases part with
  | plain characters =>
      cases earlier
      cases later
      exact Substitution.fillSegments_plain _ _ _
  | group inner =>
      rw [Segment.interpolate] at earlier later
      split at earlier
      · rename_i mentions
        obtain ⟨number, evaluates, rfl⟩ := Outcome.map_eq_ok.1 earlier
        obtain ⟨name, found, isWord, resolved⟩ := mentions_ofValues.1 mentions
        have kept : Expr.evaluateIn (Environment.ofValues (values ++ [(counter, value)]))
            (String.ofList (trimmed inner)) = .ok number :=
          Expr.evaluateIn_of_words evaluates fun name number _ resolved =>
            congrArg Except.ok (known (Except.ok.inj resolved))
        rw [if_pos (mentions_ofValues.2 ⟨name, found, isWord, known resolved⟩), kept] at later
        cases later
        exact Substitution.fillSegments_plain _ _ _
      · rename_i early
        cases earlier
        rw [Substitution.fillSegments_group]
        split at later
        · rename_i mentions
          obtain ⟨number, evaluates, rfl⟩ := Outcome.map_eq_ok.1 later
          rw [fillGroup_counter identifier apart least greatest early mentions evaluates]
          rfl
        · rename_i unmentioned
          cases later
          have silent : ¬ (Compile.roundSubstitution counter value).mentions inner = true := by
            intro mentions
            rw [roundSubstitution_eq] at mentions
            obtain ⟨name, found, isWord, resolved⟩ := mentions_ofValues.1 mentions
            exact unmentioned (mentions_ofValues.2
              ⟨name, found, isWord, (lookup_more apart).2 (.inr (lookup_single.1 resolved))⟩)
          rw [Substitution.fillGroup, if_neg silent]
          rfl

/-- The loop of one more counter makes of the template, as the loops around it left it, what all
these counters make of it, unless the counter comes to stand in it as a word. -/
theorem substitute_of_interpolate {template between filled : String}
    (identifier : isIdentifier counter.toList = true) (apart : values.lookup counter = none)
    (least : minSigned ≤ value) (greatest : value ≤ maxSigned)
    (earlier : interpolate values template = .ok between)
    (later : interpolate (values ++ [(counter, value)]) template = .ok filled)
    (free : counter.toList ∉ words filled.toList) :
    (Compile.roundSubstitution counter value).substitute between = .ok filled := by
  obtain ⟨parts, fills, rfl⟩ := Outcome.map_eq_ok.1 earlier
  obtain ⟨lasts, lastFills, rfl⟩ := Outcome.map_eq_ok.1 later
  have cut := (Segment.cut_segments template.toList).of_interpolateAll fills
  have scanned : (Compile.roundSubstitution counter value).fillSegments parts =
      .ok (lasts.flatMap Segment.characters) := by
    replace fills := Substitution.each_eq_ok_iff.1 fills
    replace lastFills := Substitution.each_eq_ok_iff.1 lastFills
    clear cut free earlier later
    generalize segments template.toList = whole at fills lastFills
    induction fills generalizing lasts with
    | nil =>
        cases lastFills
        rfl
    | cons first _ inductionHypothesis =>
        obtain ⟨last, others, lastFirst, lastRest, rfl⟩ := List.forall₂_cons_left_iff.1 lastFills
        rw [fillSegments_counter identifier apart least greatest first lastFirst,
          inductionHypothesis others lastRest]
        rfl
  have unbound : ∀ word ∈ words (lasts.flatMap Segment.characters),
      (Compile.roundSubstitution counter value).binds (String.ofList word) = false := by
    intro word isWord
    rw [Bool.eq_false_iff]
    intro bound
    rw [roundSubstitution_eq, Substitution.binds, Substitution.value?_ofValues,
      Option.isSome_map] at bound
    obtain ⟨number, found⟩ := Option.isSome_iff_exists.1 bound
    rw [String.toList_ofList, ← (lookup_single.1 found).1, String.toList_ofList] at free
    exact free isWord
  rw [Substitution.substitute_eq, String.toList_ofList, cut.fillSegments, scanned, Except.map,
    Substitution.fillWords_of_unbound unbound]

end Counter

end NetBlueprint
