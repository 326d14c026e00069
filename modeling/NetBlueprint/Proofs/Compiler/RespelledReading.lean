import NetBlueprint.Graph.Condition
import NetBlueprint.Compiler.Names
import NetBlueprint.Compiler.Wiring
import NetBlueprint.Proofs.Substitution.Filling
import NetBlueprint.Proofs.Substitution.RespelledTrees

/-!
Contract: what texts are read as, in two runs that differ in the marks of suffixes only.

A text with a suffix is no keyword, no number and no auto-input in either run, and any other text is
the same in both. So everything that is read from a text is read alike: numbers and keywords are
equal, the name without its suffix is equal, and the identifier of a condition is respelled.

Owns: keywords, numbers, conditions, bases of names, and the rename tables of bodies.

Does not own: which layers are declared.
-/

namespace NetBlueprint

namespace Decimal

open Text

private theorem mem_cutSign {text : List Char} (member : '_' ∈ text) : '_' ∈ (cutSign text).2 := by
  unfold cutSign
  split
  · exact (List.mem_cons.1 member).resolve_left (by decide)
  · exact (List.mem_cons.1 member).resolve_left (by decide)
  · exact member

private theorem mem_dropDigits {text : List Char} (member : '_' ∈ text) :
    '_' ∈ text.dropWhile Char.isDigit := by
  rw [← List.takeWhile_append_dropWhile (p := Char.isDigit) (l := text)] at member
  rcases List.mem_append.1 member with digit | rest
  · exact absurd (List.mem_takeWhile_imp digit) (by decide)
  · exact rest

private theorem readExponent?_eq_none {text : List Char} (member : '_' ∈ text) :
    readExponent? text = none := by
  cases text with
  | nil => cases member
  | cons mark rest =>
      rw [readExponent?]
      split
      · rename_i isMark
        have later : '_' ∈ rest := (List.mem_cons.1 member).resolve_left fun same => by
          rw [← same] at isMark
          exact absurd isMark (by decide)
        have digits := mem_cutSign later
        generalize cutSign rest = cut at digits ⊢
        obtain ⟨negative, text⟩ := cut
        dsimp only at digits ⊢
        rw [readDigits?_eq_none digits]
        rfl
      · rfl

private theorem readFinite?_eq_none {text : List Char} (member : '_' ∈ text) :
    readFinite? text = none := by
  have rest := mem_dropDigits member
  unfold readFinite?
  dsimp only
  generalize text.dropWhile Char.isDigit = rest at rest
  split
  · rename_i after
    have later := mem_dropDigits ((List.mem_cons.1 rest).resolve_left (by decide))
    split
    · rfl
    · rw [readExponent?_eq_none later, Option.map_none]
  · split
    · rfl
    · rw [readExponent?_eq_none rest, Option.map_none]

/-- A text with an underscore is no literal. -/
theorem readFloat?_eq_none {text : List Char} (member : '_' ∈ text) : readFloat? text = none := by
  have rest := mem_cutSign member
  have apart {word : List Char} (noUnderscore : '_' ∉ word) :
      (cutSign text).2.map Char.toLower ≠ word := by
    intro same
    exact noUnderscore (same ▸ List.mem_map.2 ⟨'_', rest, by decide⟩)
  unfold readFloat? Literal.read?
  simp only [apart (by decide : '_' ∉ "inf".toList), apart (by decide : '_' ∉ "infinity".toList),
    apart (by decide : '_' ∉ "nan".toList), readFinite?_eq_none rest, decide_false, Bool.or_self,
    Bool.false_eq_true, if_false, Option.map_none]

end Decimal

variable {pairs : List (String × String)}

namespace Respelled

/-! ## Keywords and numbers -/

/-- A number read from a text is the same in both runs. -/
theorem readFloat?_eq {one other : List Char} (respelled : Respelled pairs one other) :
    Decimal.readFloat? one = Decimal.readFloat? other := by
  rcases respelled.cases with ⟨rfl, _⟩ | ⟨first, second⟩
  · rfl
  · rw [Decimal.readFloat?_eq_none first.mem, Decimal.readFloat?_eq_none second.mem]

/-- A text with two underscores in a row has something in front of them. -/
theorem Doubled.beforeSuffix? {text : List Char} (doubled : Doubled text) :
    Name.beforeSuffix? text ≠ none := by
  obtain ⟨front, back, rfl⟩ := doubled
  intro single
  rw [List.append_assoc] at single
  cases Name.beforeSuffix?_of_append single

theorem Doubled.toLower {text : String} (doubled : Doubled text.toList) :
    Doubled text.toLower.toList := by
  have letters : text.toLower.toList = text.toList.map Char.toLower := String.toList_map
  rw [letters]
  exact doubled.map Char.toLower

/-- A text with two underscores in a row is none of the keywords, which have none. -/
theorem Doubled.ne {text keyword : String} (doubled : Doubled text.toList)
    (single : Name.beforeSuffix? keyword.toList = none) : text ≠ keyword := by
  rintro rfl
  exact doubled.beforeSuffix? single

/-- No activation has a name with two underscores in a row. -/
theorem Doubled.ofName?_eq_none {text : String} (doubled : Doubled text.toList) :
    Activation.ofName? text = none := by
  unfold Activation.ofName?
  split
  case h_11 => rfl
  all_goals
    rename_i isName
    exact absurd isName (doubled.toLower.ne (by decide))

section Keywords

variable {one other : String} (respelled : RespelledText pairs one other)

include respelled

/-- A text without suffixes is the same in both runs, any other has two underscores in a row in
both. -/
theorem text_cases : one = other ∨ (Doubled one.toList ∧ Doubled other.toList) :=
  respelled.cases.imp_left fun same => String.toList_inj.1 same.1

theorem ofName?_eq : Activation.ofName? one = Activation.ofName? other := by
  rcases respelled.text_cases with rfl | ⟨first, second⟩
  · rfl
  · rw [first.ofName?_eq_none, second.ofName?_eq_none]

/-- Dropping brackets keeps texts in correspondence. -/
theorem unbracket :
    RespelledText pairs (NetBlueprint.unbracket one) (NetBlueprint.unbracket other) := by
  have trimmed := respelled.trimmed
  have kept {text : String} (noBracket : (Text.trimmed text.toList).head? ≠ some '[') :
      NetBlueprint.unbracket text = String.ofList (Text.trimmed text.toList) := by
    unfold NetBlueprint.unbracket
    split
    · rename_i rest same
      rw [same] at noBracket
      exact absurd rfl noBracket
    · rfl
  have opened {text : String} {inner : List Char}
      (whole : Text.trimmed text.toList = '[' :: inner) :
      NetBlueprint.unbracket text = if inner.getLast? = some ']' then
        String.ofList (Text.trimmed inner.dropLast) else String.ofList ('[' :: inner) := by
    unfold NetBlueprint.unbracket
    rw [whole]
    rfl
  have same := trimmed.head?_eq
  by_cases bracket : (Text.trimmed one.toList).head? = some '['
  · obtain ⟨inner, whole⟩ := List.head?_eq_some_iff.1 bracket
    obtain ⟨otherInner, otherWhole⟩ := List.head?_eq_some_iff.1 (same ▸ bracket)
    rw [whole, otherWhole] at trimmed
    have inside := trimmed.tail (by decide)
    obtain ⟨sameEnd, cut⟩ := inside.dropLast (show Text.isWordChar ']' = false by decide)
    unfold RespelledText
    rw [opened whole, opened otherWhole]
    by_cases closed : inner.getLast? = some ']'
    · rw [if_pos closed, if_pos (sameEnd.1 closed), String.toList_ofList, String.toList_ofList]
      exact (cut closed).trimmed
    · rw [if_neg closed, if_neg fun otherClosed => closed (sameEnd.2 otherClosed),
        String.toList_ofList, String.toList_ofList]
      exact trimmed
  · unfold RespelledText
    rw [kept bracket, kept (same ▸ bracket), String.toList_ofList, String.toList_ofList]
    exact trimmed

/-- A text without underscores is equal to a text in brackets in both runs or in neither. -/
theorem unbracket_eq_iff (pairing : Suffix.Pairing pairs) {plain : String}
    (noUnderscore : '_' ∉ plain.toList) :
    NetBlueprint.unbracket one = plain ↔ NetBlueprint.unbracket other = plain :=
  equalAlike_text pairing respelled.unbracket (.refl_of_plain noUnderscore)

/-- An expression without variables has the same value in both runs or in neither. -/
theorem evaluate : Substitution.BothFill (· = ·) (Expr.evaluate (NetBlueprint.unbracket one))
    (Expr.evaluate (NetBlueprint.unbracket other)) := by
  have evaluated := Substitution.corresponds_empty.evaluateIn respelled.unbracket
  rwa [String.ofList_toList, String.ofList_toList] at evaluated

theorem hasBrackets_eq : Compile.hasBrackets one = Compile.hasBrackets other := by
  refine Respelled.any_eq (fun character isWord => ?_) respelled
  rw [Bool.or_eq_false_iff, beq_eq_false_iff_ne, beq_eq_false_iff_ne]
  constructor
  · rintro rfl
    cases isWord
  · rintro rfl
    cases isWord

/-- A text with an underscore is the name of no auto-input. -/
theorem isAutoInput_eq : Name.isAutoInput one = Name.isAutoInput other := by
  have none {text : String} (member : '_' ∈ text.toList) : Name.isAutoInput text = false := by
    unfold Name.isAutoInput
    split
    · rename_i digits same
      rw [same] at member
      simp only [List.mem_cons, Char.reduceEq, false_or] at member
      rw [List.all_eq_false.2 ⟨'_', member, by decide⟩, Bool.and_false]
    · rfl
  rcases respelled.text_cases with rfl | ⟨first, second⟩
  · rfl
  · rw [none first.mem, none second.mem]

end Keywords

/-! ## Conditions -/

private theorem cut? (first : Char) {one other : List Char}
    (respelled : Respelled pairs one other) :
    Option.Rel (fun cut otherCut => cut.1 = otherCut.1 ∧ Respelled pairs cut.2 otherCut.2)
      (Comparison.cut? (first :: one)) (Comparison.cut? (first :: other)) := by
  unfold Comparison.cut?
  dsimp only
  rw [← respelled.head?_eq]
  split
  · rename_i equals
    obtain ⟨rest, rfl⟩ := List.head?_eq_some_iff.1 equals
    obtain ⟨otherRest, rfl⟩ := List.head?_eq_some_iff.1 (respelled.head?_eq ▸ equals)
    have following := respelled.tail (by decide)
    split <;> first | exact .some ⟨rfl, following⟩ | exact .none
  · split <;> first | exact .some ⟨rfl, respelled⟩ | exact .none

private theorem splitAtComparison_run {run : List Char}
    (isWord : ∀ character ∈ run, Text.isWordChar character = true) (text : List Char) :
    NetBlueprint.splitAtComparison (run ++ text) = (NetBlueprint.splitAtComparison text).map
      fun parts => (run ++ parts.1, parts.2) := by
  induction run with
  | nil => simp
  | cons first run inductionHypothesis =>
      obtain ⟨isFirst, areWords⟩ := List.forall_mem_cons.1 isWord
      have none : Comparison.cut? (first :: (run ++ text)) = none := by
        unfold Comparison.cut?
        dsimp only
        split
        · split
          all_goals first | rfl | cases isFirst
        · split
          all_goals first | rfl | cases isFirst
      rw [List.cons_append, NetBlueprint.splitAtComparison, none, inductionHypothesis areWords]
      rw [Option.map_map]
      rfl

/-- Both texts are split at the same comparison or at none. -/
theorem splitAtComparison {one other : List Char} (respelled : Respelled pairs one other) :
    Option.Rel (fun parts otherParts => Respelled pairs parts.1 otherParts.1 ∧
        parts.2.1 = otherParts.2.1 ∧ Respelled pairs parts.2.2 otherParts.2.2)
      (NetBlueprint.splitAtComparison one) (NetBlueprint.splitAtComparison other) := by
  induction respelled with
  | nil => exact .none
  | @plain first one other noUnderscore rest inductionHypothesis =>
      rw [NetBlueprint.splitAtComparison, NetBlueprint.splitAtComparison]
      have cut := rest.cut? first
      generalize Comparison.cut? (first :: one) = found at cut ⊢
      generalize Comparison.cut? (first :: other) = otherFound at cut ⊢
      cases cut with
      | some cuts => exact .some ⟨.nil, cuts⟩
      | none =>
          dsimp only
          generalize NetBlueprint.splitAtComparison one = parts at inductionHypothesis ⊢
          generalize NetBlueprint.splitAtComparison other = otherParts at inductionHypothesis ⊢
          cases inductionHypothesis with
          | none => exact .none
          | some parts => exact .some ⟨.plain noUnderscore parts.1, parts.2⟩
  | @suffix first second one other listed twins _ inductionHypothesis =>
      rw [splitAtComparison_run twins.isWordChar, splitAtComparison_run twins.symm.isWordChar]
      generalize NetBlueprint.splitAtComparison one = parts at inductionHypothesis ⊢
      generalize NetBlueprint.splitAtComparison other = otherParts at inductionHypothesis ⊢
      cases inductionHypothesis with
      | none => exact .none
      | some parts => exact .some ⟨.suffix listed twins parts.1, parts.2⟩

abbrev BothRead {First Second : Type} (Results : First → Second → Prop) :
    Except Condition.ParseFault First → Except Condition.ParseFault Second → Prop :=
  Outcome.Matches (fun _ _ => True) Results

private theorem readUnsigned?_eq {one other : List Char} (respelled : Respelled pairs one other) :
    Text.readUnsigned? one = Text.readUnsigned? other := by
  rcases respelled.cases with ⟨rfl, _⟩ | ⟨first, second⟩
  · rfl
  · rw [Text.readUnsigned?_eq_none first.mem, Text.readUnsigned?_eq_none second.mem]

private theorem operand {one other : List Char} (respelled : Respelled pairs one other) :
    BothRead (fun parts otherParts => Respelled pairs parts.1 otherParts.1)
      (Condition.operand one) (Condition.operand other) := by
  obtain ⟨front, back⟩ : Respelled pairs (one.takeWhile (· != '[')) (other.takeWhile (· != '[')) ∧
      Respelled pairs (one.dropWhile (· != '[')) (other.dropWhile (· != '[')) := by
    refine respelled.dropWhile (.inr fun character isWord => ?_)
    rw [bne_iff_ne]
    rintro rfl
    cases isWord
  unfold Condition.operand
  have same := back.head?_eq
  cases whole : one.dropWhile (· != '[') with
  | nil =>
      rw [whole] at same
      rw [List.head?_eq_none_iff.1 same.symm]
      exact .ok respelled
  | cons first inner =>
      rw [whole] at same back
      obtain ⟨otherInner, otherWhole⟩ := List.head?_eq_some_iff.1 same.symm
      rw [otherWhole] at back ⊢
      have isBracket : first = '[' := by
        have stops := List.head?_dropWhile_not (· != '[') one
        rw [whole] at stops
        simpa using stops
      have inside := back.tail (isBracket ▸ by decide)
      obtain ⟨sameEnd, cut⟩ := inside.dropLast (show Text.isWordChar ']' = false by decide)
      dsimp only
      by_cases closed : inner.getLast? = some ']'
      · rw [if_pos closed, if_pos (sameEnd.1 closed), (cut closed).trimmed.readUnsigned?_eq]
        split
        · exact .ok front.trimmed
        · exact .error trivial
      · rw [if_neg closed, if_neg fun otherClosed => closed (sameEnd.2 otherClosed)]
        exact .error trivial

private theorem isIdentifier_eq {one other : List Char} (respelled : Respelled pairs one other) :
    Text.isIdentifier one = Text.isIdentifier other := by
  have whole (text : List Char) : Text.isIdentifier text =
      (text.head?.any Text.startsIdentifier && !text.any fun character =>
        !Text.isWordChar character) := by
    rw [← List.all_eq_not_any_not]
    cases text with
    | nil => rfl
    | cons first rest =>
        rw [Text.isIdentifier, List.all_cons, List.head?_cons, Option.any_some]
        cases starts : Text.startsIdentifier first with
        | false => rfl
        | true =>
            have alone : Text.isIdentifier [first] = true := by
              rw [Text.isIdentifier, starts]
              rfl
            rw [(Text.isWord_of_isIdentifier alone).2 first List.mem_cons_self]
            rfl
  rw [whole, whole, respelled.head?_eq, respelled.any_eq fun character isWord => by
    rw [isWord]
    rfl]

/-- A condition is read from both texts or from neither, and it reads the input of one name. -/
theorem parseChars {one other : List Char} (respelled : Respelled pairs one other) :
    BothRead (fun condition otherCondition =>
        RespelledText pairs condition.ident otherCondition.ident)
      (Condition.parseChars one) (Condition.parseChars other) := by
  unfold Condition.parseChars
  have split := respelled.splitAtComparison
  generalize NetBlueprint.splitAtComparison one = parts at split ⊢
  generalize NetBlueprint.splitAtComparison other = otherParts at split ⊢
  cases split with
  | none => exact .error trivial
  | @some parts otherParts related =>
      obtain ⟨before, comparison, after⟩ := parts
      obtain ⟨otherBefore, otherComparison, otherAfter⟩ := otherParts
      obtain ⟨fronts, rfl, backs⟩ := related
      dsimp only at fronts backs ⊢
      have sameRest : (NetBlueprint.splitAtComparison (Text.trimmed after)).isSome =
          (NetBlueprint.splitAtComparison (Text.trimmed otherAfter)).isSome := by
        have again := backs.trimmed.splitAtComparison
        generalize NetBlueprint.splitAtComparison (Text.trimmed after) = rest at again ⊢
        generalize NetBlueprint.splitAtComparison (Text.trimmed otherAfter) = otherRest at again ⊢
        cases again <;> rfl
      have operands := fronts.trimmed.operand
      rw [sameRest, backs.trimmed.readFloat?_eq]
      split
      · exact .error trivial
      split
      · exact .error trivial
      generalize Condition.operand (Text.trimmed before) = left at operands ⊢
      generalize Condition.operand (Text.trimmed otherBefore) = otherLeft at operands ⊢
      cases operands with
      | error => exact .error trivial
      | @ok parts otherParts idents =>
          obtain ⟨ident, index⟩ := parts
          obtain ⟨otherIdent, otherIndex⟩ := otherParts
          dsimp only at idents ⊢
          rw [idents.isIdentifier_eq]
          split
          · refine .ok ?_
            rw [RespelledText, String.toList_ofList, String.toList_ofList]
            exact idents
          · exact .error trivial

/-! ## Bases of names -/

/-- What stands in front of the first suffix is the same in both runs. -/
theorem beforeSuffix? {one other : List Char} (respelled : Respelled pairs one other) :
    (Name.beforeSuffix? one = none ∧ one = other ∧ '_' ∉ one) ∨
      ∃ base, '_' ∉ base ∧ (StartsPlain one → base ≠ []) ∧
        Name.beforeSuffix? one = some base ∧ Name.beforeSuffix? other = some base := by
  induction respelled with
  | nil => exact .inl ⟨rfl, rfl, List.not_mem_nil⟩
  | @plain character one other noUnderscore _ inductionHypothesis =>
      have stepped (text : List Char) : Name.beforeSuffix? (character :: text) =
          (Name.beforeSuffix? text).map (character :: ·) := by
        rw [Name.beforeSuffix?, if_neg (by simp [noUnderscore])]
      have apart {text : List Char} (free : '_' ∉ text) : '_' ∉ character :: text := fun member =>
        (List.mem_cons.1 member).elim (fun same => noUnderscore same.symm) free
      rw [stepped, stepped]
      rcases inductionHypothesis with ⟨found, rfl, free⟩ | ⟨base, free, _, found, otherFound⟩
      · exact .inl ⟨by rw [found]; rfl, rfl, apart free⟩
      · exact .inr ⟨character :: base, apart free, fun _ => List.cons_ne_nil _ _,
          by rw [found]; rfl, by rw [otherFound]; rfl⟩
  | suffix _ twins _ _ =>
      obtain ⟨rest, opens⟩ := twins.opens
      obtain ⟨otherRest, otherOpens⟩ := twins.symm.opens
      rw [opens, otherOpens]
      refine .inr ⟨[], List.not_mem_nil, ?_, by simp [Name.beforeSuffix?],
        by simp [Name.beforeSuffix?]⟩
      rintro ⟨first, _, same, plain⟩
      exact absurd (List.cons.inj same).1.symm plain

end Respelled

/-- A name without its suffix is the same in both runs. -/
theorem RespelledName.base {one other : String} (name : RespelledName pairs one other) :
    Name.base one = Name.base other ∧ '_' ∉ (Name.base one).toList ∧ Name.base one ≠ "" := by
  obtain ⟨respelled, starts⟩ := name
  suffices ∃ base, '_' ∉ base ∧ base ≠ [] ∧ Name.withoutSuffix one.toList = base ∧
      Name.withoutSuffix other.toList = base by
    obtain ⟨base, noUnderscore, nonempty, found, otherFound⟩ := this
    unfold Name.base
    rw [found, otherFound, String.toList_ofList]
    refine ⟨rfl, noUnderscore, fun empty => nonempty ?_⟩
    rw [← String.toList_ofList (l := base), empty]
    rfl
  rcases respelled.beforeSuffix? with ⟨found, same, free⟩ | ⟨base, free, given, found, otherFound⟩
  · rw [← same]
    refine ⟨one.toList, free, ?_, Name.withoutSuffix_of_single found,
      Name.withoutSuffix_of_single found⟩
    obtain ⟨first, rest, same, _⟩ := starts
    rw [same]
    exact List.cons_ne_nil _ _
  · obtain ⟨first, rest, rfl⟩ := List.exists_cons_of_ne_nil (given starts)
    exact ⟨first :: rest, free, List.cons_ne_nil _ _, by rw [Name.withoutSuffix, found],
      by rw [Name.withoutSuffix, otherFound]⟩

/-- An endpoint without its suffix is the same in both runs. -/
theorem RespelledEndpoint.base {one other : String} (endpoint : RespelledEndpoint pairs one other) :
    Name.base one = Name.base other ∧ '_' ∉ (Name.base one).toList := by
  rcases endpoint.cases with ⟨rfl, rfl⟩ | name
  · exact ⟨rfl, by decide⟩
  · exact ⟨name.base.1, name.base.2.1⟩

/-! ## Rename tables -/

structure Definition.Corresponds (pairs : List (String × String)) (one other : Definition) :
    Prop where
  template : RespelledName pairs one.template other.template
  isInput : one.isInput = other.isInput
  isOutput : one.isOutput = other.isOutput

namespace LayerSpec.Corresponds

variable {one other : LayerSpec}

/-- A type without suffixes is the same in both runs, any other is no keyword in either. -/
theorem kind (spec : one.Corresponds pairs other) : one.kind = other.kind ∨
    (Respelled.Doubled one.kind.toList ∧ Respelled.Doubled other.kind.toList) :=
  (Respelled.text_cases spec.layerType).imp (congrArg String.toLower) fun ⟨first, second⟩ =>
    ⟨first.toLower, second.toLower⟩

private theorem kind_beq (spec : one.Corresponds pairs other) {keyword : String}
    (single : Name.beforeSuffix? keyword.toList = none) :
    (one.kind == keyword) = (other.kind == keyword) := by
  rcases spec.kind with same | ⟨first, second⟩
  · rw [same]
  · rw [beq_eq_false_iff_ne.2 (first.ne single), beq_eq_false_iff_ne.2 (second.ne single)]

theorem isInput (spec : one.Corresponds pairs other) : one.isInput = other.isInput :=
  spec.kind_beq (by decide)

theorem isOutput (spec : one.Corresponds pairs other) : one.isOutput = other.isOutput :=
  spec.kind_beq (by decide)

end LayerSpec.Corresponds

namespace Instruction

mutual

/-- Instructions that correspond define names that correspond. -/
theorem Corresponds.definitions : ∀ {one other : Instruction}, one.Corresponds pairs other →
    List.Forall₂ (Definition.Corresponds pairs) one.definitions other.definitions
  | _, _, .layer spec => .cons ⟨spec.name, spec.isInput, spec.isOutput⟩ .nil
  | _, _, .moduleDef names _ _ body => .cons ⟨names, rfl, rfl⟩ body.definitionsOf
  | _, _, .branch names _ body alternatives => by
      refine List.rel_append ?_ (List.rel_append body.definitionsOf alternatives.definitionsOf)
      cases names with
      | none => exact .nil
      | some name => exact .cons ⟨name, rfl, rfl⟩ .nil
  | _, _, .program body => body.definitionsOf
  | _, _, .block body => body.definitionsOf
  | _, _, .loop _ _ _ body => body.definitionsOf
  | _, _, .expand _ _ body => body.definitionsOf
  | _, _, .otherwise body => body.definitionsOf
  | _, _, .templateDef _ _ _ => .nil
  | _, _, .connect _ _ => .nil
  | _, _, .moduleCall _ _ => .nil
  | _, _, .condition _ => .nil
  | _, _, .templateCall _ _ => .nil
  | _, _, .call _ _ => .nil
  | _, _, .constant _ _ => .nil
  | _, _, .file _ => .nil

/-- Lists that correspond define names that correspond. -/
theorem AllCorrespond.definitionsOf : ∀ {one other : List Instruction},
    AllCorrespond pairs one other →
      List.Forall₂ (Definition.Corresponds pairs) (definitionsOf one) (definitionsOf other)
  | _, _, .nil => .nil
  | _, _, .cons head rest => List.rel_append head.definitions rest.definitionsOf

end

end Instruction

private theorem containsText_suffixKey {one other : List Char}
    (respelled : Respelled pairs one other) : containsText suffixKey.toList one = false := by
  rw [Bool.eq_false_iff]
  intro contains
  obtain ⟨front, rest, same⟩ :=
    Substitution.eq_append_of_containsText contains
  exact respelled.not_suffixKey_infix front rest same

section Renames

variable (pairing : Suffix.Pairing pairs)

include pairing

private theorem isExempt_eq {one other : Definition} (definition : one.Corresponds pairs other)
    {parameters : List String} (plain : ∀ parameter ∈ parameters, '_' ∉ parameter.toList)
    (exemptOutputs : Bool) :
    one.isExempt parameters exemptOutputs = other.isExempt parameters exemptOutputs := by
  have sameParameter : parameters.contains (unbracket one.template) =
      parameters.contains (unbracket other.template) := by
    rw [Bool.eq_iff_iff, List.contains_iff_mem, List.contains_iff_mem]
    have same {parameter : String} (member : parameter ∈ parameters) :=
      Respelled.unbracket_eq_iff definition.template.respelled pairing (plain parameter member)
    constructor
    · exact fun member => (same member).1 rfl ▸ member
    · exact fun member => (same member).2 rfl ▸ member
  unfold Definition.isExempt
  rw [definition.isInput, definition.isOutput, sameParameter,
    containsText_suffixKey definition.template.respelled,
    containsText_suffixKey definition.template.respelled.swap]

private theorem addRename_corresponds {suffix otherSuffix name otherName : String}
    (listed : (suffix, otherSuffix) ∈ pairs) (twins : Suffix.Twins suffix otherSuffix)
    (names : RespelledName pairs name otherName) {renames otherRenames : List (String × String)}
    (related : List.Forall₂ (Substitution.RenameCorresponds pairs) renames otherRenames) :
    List.Forall₂ (Substitution.RenameCorresponds pairs) (addRename suffix name renames)
      (addRename otherSuffix otherName otherRenames) := by
  have sameKeys : renames.any (fun entry => entry.1 == name) =
      otherRenames.any fun entry => entry.1 == otherName := by
    induction related with
    | nil => rfl
    | cons first _ inductionHypothesis =>
        rw [List.any_cons, List.any_cons, inductionHypothesis,
          beq_eq_beq.2 (first.name.eq_iff pairing names)]
  have suffixed : RespelledName pairs (name ++ suffix) (otherName ++ otherSuffix) := by
    refine ⟨?_, ?_⟩
    · rw [String.toList_append, String.toList_append]
      exact names.respelled.append (.of_suffix listed twins)
    · rw [String.toList_append]
      exact names.starts.append _
  unfold addRename
  rw [sameKeys]
  split
  · exact related
  · exact List.rel_append related (.cons ⟨names, suffixed⟩ .nil)

/-- The rename table of a body is made in both runs or in neither. -/
theorem hygienicRenames_corresponds {body otherBody : List Instruction}
    {one other : Substitution} {parameters : List String} {suffix otherSuffix : String}
    (bodies : Instruction.AllCorrespond pairs body otherBody)
    (corresponds : one.Corresponds pairs other)
    (plain : ∀ parameter ∈ parameters, '_' ∉ parameter.toList)
    (listed : (suffix, otherSuffix) ∈ pairs) (twins : Suffix.Twins suffix otherSuffix)
    (exemptOutputs : Bool) :
    Substitution.BothFill (List.Forall₂ (Substitution.RenameCorresponds pairs))
      (hygienicRenames body one parameters suffix exemptOutputs)
      (hygienicRenames otherBody other parameters otherSuffix exemptOutputs) := by
  have made {definitions otherDefinitions : List Definition}
      (related : List.Forall₂ (Definition.Corresponds pairs) definitions otherDefinitions) :
      ∀ {renames otherRenames : List (String × String)},
        List.Forall₂ (Substitution.RenameCorresponds pairs) renames otherRenames →
          Substitution.BothFill (List.Forall₂ (Substitution.RenameCorresponds pairs))
            (renamesOf one suffix renames (definitions.filter fun definition =>
              !definition.isExempt parameters exemptOutputs))
            (renamesOf other otherSuffix otherRenames (otherDefinitions.filter fun definition =>
              !definition.isExempt parameters exemptOutputs)) := by
    induction related with
    | nil => exact fun tables => .ok tables
    | cons first _ inductionHypothesis =>
        intro renames otherRenames tables
        rw [List.filter_cons, List.filter_cons, isExempt_eq pairing first plain]
        split
        · rw [renamesOf, renamesOf]
          have filled := corresponds.substituteName pairing first.template
          generalize one.substitute _ = outcome at filled ⊢
          generalize other.substitute _ = otherOutcome at filled ⊢
          cases filled with
          | error => exact .error trivial
          | ok names =>
              exact inductionHypothesis (addRename_corresponds pairing listed twins names tables)
        · exact inductionHypothesis tables
  exact made bodies.definitionsOf .nil

end Renames

end NetBlueprint
