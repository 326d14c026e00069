import NetBlueprint.Proofs.Compiler.Drawing
import NetBlueprint.Proofs.Compiler.SuffixReading
import NetBlueprint.Proofs.Substitution.Filling
import NetBlueprint.Proofs.Substitution.Operations

/-!
Contract: which instruction every visit below another belongs to.

The visits below a visit come in a fixed order, so the position of each tells which child of the
instruction it belongs to. A loop fills in its counter before a child is compiled, and a branch its
own suffix; nothing else happens to a child between the two.

Owns: children by position, and what is filled in on the way to a child.

Does not own: the body of a template, which is filled in by its call.
-/

namespace NetBlueprint

namespace Compile

def countersOf : Instruction → List String
  | .loop counter _ _ _ => [counter]
  | _ => []

/-- The instructions of both sides of a branch, in the order in which they are compiled. -/
def sides (body alternative : List Instruction) : List Instruction :=
  (splitBody body alternative).1 ++ (splitBody body alternative).2

/-- The child of an instruction that the visit at a position below it belongs to. A loop goes
through its body again and again. -/
def childAt : Instruction → Nat → Option Instruction
  | .program body, position | .block body, position | .moduleDef _ _ _ body, position
  | .expand _ _ body, position => body[position]?
  | .loop _ _ _ body, position => body[position % body.length]?
  | .branch _ _ body alternative, position => (sides body alternative)[position]?
  | _, _ => none

/-! ## Children of a template -/

private theorem countersOf_of_apply {substitution : Substitution}
    {template instruction : Instruction}
    (applied : substitution.apply template = .ok instruction) :
    countersOf instruction = countersOf template := by
  have sameOpcode := Substitution.opcode_of_apply applied
  cases template with
  | loop counter first last body =>
      obtain ⟨_, _, rest⟩ := Outcome.bind_eq_ok.1 applied
      obtain ⟨_, _, rest⟩ := Outcome.bind_eq_ok.1 rest
      obtain ⟨_, _, rest⟩ := Outcome.bind_eq_ok.1 rest
      cases Outcome.pure_eq_ok.1 rest
      rfl
  | _ =>
      cases instruction with
      | loop _ _ _ _ => cases sameOpcode
      | _ => rfl

private theorem matching_sides {substitution : Substitution}
    {body alternative filled other : List Instruction}
    (bodyFilled : substitution.applyAll body = .ok filled)
    (alternativeFilled : substitution.applyAll alternative = .ok other) :
    List.Forall₂ (fun template instruction => substitution.apply template = .ok instruction)
      (sides body alternative) (sides filled other) := by
  have bodyMatches := Substitution.forall₂_of_applyAll bodyFilled
  have alternativeMatches := Substitution.forall₂_of_applyAll alternativeFilled
  unfold sides splitBody
  refine List.rel_append (List.rel_filter ?_ bodyMatches)
    (List.rel_append alternativeMatches (List.rel_flatten (List.rel_map ?_ bodyMatches)))
  · intro template instruction applied
    have sameOpcode := Substitution.opcode_of_apply applied
    cases template with
    | otherwise _ =>
        cases instruction with
        | otherwise _ => exact Iff.rfl
        | _ => cases sameOpcode
    | _ =>
        cases instruction with
        | otherwise _ => cases sameOpcode
        | _ => exact Iff.rfl
  · intro template instruction applied
    have sameOpcode := Substitution.opcode_of_apply applied
    cases template with
    | otherwise marked =>
        obtain ⟨_, markedFilled, rest⟩ := Outcome.bind_eq_ok.1 applied
        cases Outcome.pure_eq_ok.1 rest
        exact Substitution.forall₂_of_applyAll markedFilled
    | _ =>
        cases instruction with
        | otherwise _ => cases sameOpcode
        | _ => exact .nil

/-- Filling in reaches every child, less the names that are bound anew. -/
theorem childAt_of_apply {substitution : Substitution} {template instruction child : Instruction}
    {position : Nat} (applied : substitution.apply template = .ok instruction)
    (found : childAt template position = some child) :
    ∃ filled, childAt instruction position = some filled ∧
      (substitution.without (countersOf template)).apply child = .ok filled := by
  have nothingBound (same : countersOf template = []) :
      substitution.without (countersOf template) = substitution := by
    rw [same, Substitution.without_nil]
  have inBody {body filled : List Instruction}
      (bodyFilled : substitution.applyAll body = .ok filled)
      (found : body[position]? = some child) :
      ∃ last, filled[position]? = some last ∧ substitution.apply child = .ok last :=
    Table.exists_of_rel (Table.rel_getElem? (Substitution.forall₂_of_applyAll bodyFilled) _) found
  cases template with
  | program body | block body =>
      obtain ⟨_, bodyFilled, rest⟩ := Outcome.bind_eq_ok.1 applied
      cases Outcome.pure_eq_ok.1 rest
      rw [nothingBound rfl]
      exact inBody bodyFilled found
  | moduleDef _ _ _ body =>
      iterate 3 obtain ⟨_, _, applied⟩ := Outcome.bind_eq_ok.1 applied
      obtain ⟨_, bodyFilled, rest⟩ := Outcome.bind_eq_ok.1 applied
      cases Outcome.pure_eq_ok.1 rest
      rw [nothingBound rfl]
      exact inBody bodyFilled found
  | expand _ _ body =>
      iterate 2 obtain ⟨_, _, applied⟩ := Outcome.bind_eq_ok.1 applied
      obtain ⟨_, bodyFilled, rest⟩ := Outcome.bind_eq_ok.1 applied
      cases Outcome.pure_eq_ok.1 rest
      rw [nothingBound rfl]
      exact inBody bodyFilled found
  | loop counter _ _ body =>
      iterate 2 obtain ⟨_, _, applied⟩ := Outcome.bind_eq_ok.1 applied
      obtain ⟨filled, bodyFilled, rest⟩ := Outcome.bind_eq_ok.1 applied
      cases Outcome.pure_eq_ok.1 rest
      have bodyMatches := Substitution.forall₂_of_applyAll bodyFilled
      rw [childAt, ← bodyMatches.length_eq]
      exact Table.exists_of_rel (Table.rel_getElem? bodyMatches _) found
  | branch _ _ body alternative =>
      iterate 2 obtain ⟨_, _, applied⟩ := Outcome.bind_eq_ok.1 applied
      obtain ⟨_, bodyFilled, rest⟩ := Outcome.bind_eq_ok.1 applied
      obtain ⟨_, alternativeFilled, rest⟩ := Outcome.bind_eq_ok.1 rest
      cases Outcome.pure_eq_ok.1 rest
      rw [nothingBound rfl]
      exact Table.exists_of_rel
        (Table.rel_getElem? (matching_sides bodyFilled alternativeFilled) _) found
  | _ => cases found

/-- Filling in fills in the child at every position. -/
theorem filled_childAt {substitutions : List Substitution} {template instruction : Instruction}
    (filled : Substitution.Filled Substitution.apply substitutions template instruction)
    {position : Nat} : ∀ {child : Instruction}, childAt template position = some child →
      ∃ last, childAt instruction position = some last ∧
        Substitution.Filled Substitution.apply
          (substitutions.map fun substitution => substitution.without (countersOf template))
          child last := by
  induction filled with
  | done => exact fun found => ⟨_, found, .done _⟩
  | next applied _ inductionHypothesis =>
      intro child found
      obtain ⟨between, betweenFound, first⟩ := childAt_of_apply applied found
      obtain ⟨last, lastFound, following⟩ := inductionHypothesis betweenFound
      rw [countersOf_of_apply applied] at following
      exact ⟨last, lastFound, .next first following⟩

/-- Filling in binds the same counters. -/
theorem filled_countersOf {substitutions : List Substitution} {template instruction : Instruction}
    (filled : Substitution.Filled Substitution.apply substitutions template instruction) :
    countersOf instruction = countersOf template := by
  induction filled with
  | done => rfl
  | next applied _ inductionHypothesis =>
      exact inductionHypothesis.trans (countersOf_of_apply applied)

/-- What stands on a side stands in the body, in the alternative, or under a mark in the body. -/
theorem mem_of_mem_sides {body alternative : List Instruction} {child : Instruction}
    (member : child ∈ sides body alternative) :
    child ∈ body ∨ child ∈ alternative ∨ ∃ marked, .otherwise marked ∈ body ∧ child ∈ marked := by
  rcases List.mem_append.1 member with first | second
  · exact .inl (List.mem_filter.1 first).1
  rcases List.mem_append.1 second with given | fromBody
  · exact .inr (.inl given)
  · obtain ⟨other, otherMember, inOther⟩ := List.mem_flatMap.1 fromBody
    cases other with
    | otherwise marked => exact .inr (.inr ⟨marked, otherMember, inOther⟩)
    | _ => cases inOther

/-- A child defines nothing that its parent does not define. -/
theorem definitions_childAt {instruction child : Instruction} {position : Nat}
    (found : childAt instruction position = some child) :
    Instruction.definitions child ⊆ Instruction.definitions instruction := by
  have inBody {body : List Instruction} {position : Nat} (found : body[position]? = some child) :
      Instruction.definitions child ⊆ Instruction.definitionsOf body :=
    Instruction.definitions_subset (List.mem_of_getElem? found)
  cases instruction with
  | program body | block body | expand _ _ body | loop _ _ _ body => exact inBody found
  | moduleDef _ _ _ body => exact List.subset_cons_of_subset _ (inBody found)
  | branch _ _ body alternative =>
      refine List.subset_append_of_subset_right _ ?_
      rcases mem_of_mem_sides (List.mem_of_getElem? found) with first | given | ⟨_, marks, marked⟩
      · exact List.subset_append_of_subset_left _ (Instruction.definitions_subset first)
      · exact List.subset_append_of_subset_right _ (Instruction.definitions_subset given)
      · have inMarked := Instruction.definitions_subset marked
        exact List.subset_append_of_subset_left _
          (List.Subset.trans inMarked (Instruction.definitions_subset marks))
  | _ => cases found

/-- The operations of a child are operations of its parent. -/
theorem opcodes_childAt {instruction child : Instruction} {position : Nat}
    (found : childAt instruction position = some child) :
    child.opcodes ⊆ instruction.opcodes := by
  have inBody {body : List Instruction} (member : child ∈ body) :
      child.opcodes ⊆ Instruction.opcodesAll body :=
    (Instruction.opcodes_sublist_of_mem member).subset
  cases instruction with
  | program body | block body | expand _ _ body | moduleDef _ _ _ body | loop _ _ _ body =>
      exact List.subset_cons_of_subset _ (inBody (List.mem_of_getElem? found))
  | branch _ _ body alternative =>
      refine List.subset_cons_of_subset _ ?_
      rcases mem_of_mem_sides (List.mem_of_getElem? found) with
        first | given | ⟨_, marks, inMarked⟩
      · exact List.subset_append_of_subset_right _ (inBody first)
      · exact List.subset_append_of_subset_left _
          (List.subset_append_of_subset_right _ (inBody given))
      · have parts := (Instruction.opcodes_sublist_of_mem marks).subset
        exact List.subset_append_of_subset_right _ (List.Subset.trans
          (List.subset_cons_of_subset _ (inBody inMarked)) parts)
  | _ => cases found

/-- Filling in leaves no more children than there are. -/
theorem exists_childAt_of_apply {substitution : Substitution}
    {template instruction child : Instruction} {position : Nat}
    (applied : substitution.apply template = .ok instruction)
    (found : childAt instruction position = some child) :
    ∃ other, childAt template position = some other := by
  have asLong {templates body : List Instruction} {position : Nat}
      (sameLength : templates.length = body.length) (found : body[position]? = some child) :
      ∃ other, templates[position]? = some other :=
    ⟨_, List.getElem?_eq_getElem (sameLength ▸ (List.getElem?_eq_some_iff.1 found).1)⟩
  have filled {used : Substitution} {templates body : List Instruction}
      (fills : used.applyAll templates = .ok body) : templates.length = body.length :=
    (Substitution.forall₂_of_applyAll fills).length_eq
  have sameOpcode := Substitution.opcode_of_apply applied
  cases template with
  | program _ | block _ =>
      obtain ⟨_, fills, rest⟩ := Outcome.bind_eq_ok.1 applied
      cases Outcome.pure_eq_ok.1 rest
      exact asLong (filled fills) found
  | moduleDef _ _ _ _ =>
      iterate 3 obtain ⟨_, _, applied⟩ := Outcome.bind_eq_ok.1 applied
      obtain ⟨_, fills, rest⟩ := Outcome.bind_eq_ok.1 applied
      cases Outcome.pure_eq_ok.1 rest
      exact asLong (filled fills) found
  | expand _ _ _ =>
      iterate 2 obtain ⟨_, _, applied⟩ := Outcome.bind_eq_ok.1 applied
      obtain ⟨_, fills, rest⟩ := Outcome.bind_eq_ok.1 applied
      cases Outcome.pure_eq_ok.1 rest
      exact asLong (filled fills) found
  | loop _ _ _ _ =>
      iterate 2 obtain ⟨_, _, applied⟩ := Outcome.bind_eq_ok.1 applied
      obtain ⟨_, fills, rest⟩ := Outcome.bind_eq_ok.1 applied
      cases Outcome.pure_eq_ok.1 rest
      rw [childAt, filled fills]
      exact asLong (filled fills) found
  | branch _ _ _ _ =>
      iterate 2 obtain ⟨_, _, applied⟩ := Outcome.bind_eq_ok.1 applied
      obtain ⟨_, fills, rest⟩ := Outcome.bind_eq_ok.1 applied
      obtain ⟨_, fillsAlternative, rest⟩ := Outcome.bind_eq_ok.1 rest
      cases Outcome.pure_eq_ok.1 rest
      exact asLong (matching_sides fills fillsAlternative).length_eq found
  | _ =>
      cases instruction with
      | program _ | block _ | moduleDef _ _ _ _ | expand _ _ _ | loop _ _ _ _ | branch _ _ _ _ =>
          cases sameOpcode
      | _ => cases found

/-- A child of what was filled in was a child before. -/
theorem exists_childAt_of_filled {substitutions : List Substitution}
    {template instruction child : Instruction} {position : Nat}
    (filled : Substitution.Filled Substitution.apply substitutions template instruction)
    (found : childAt instruction position = some child) :
    ∃ other, childAt template position = some other := by
  induction filled generalizing child with
  | done => exact ⟨child, found⟩
  | next applied _ inductionHypothesis =>
      obtain ⟨between, isBetween⟩ := inductionHypothesis found
      exact exists_childAt_of_apply applied isBetween

mutual

/-- The counters of the loops in an instruction, through any nesting that its children are taken
from. -/
def loopCounters : Instruction → List String
  | .loop counter _ _ body => counter :: loopCountersOf body
  | .program body | .block body | .moduleDef _ _ _ body | .expand _ _ body | .otherwise body =>
    loopCountersOf body
  | .branch _ _ body alternative => loopCountersOf body ++ loopCountersOf alternative
  | _ => []

def loopCountersOf : List Instruction → List String
  | [] => []
  | first :: rest => loopCounters first ++ loopCountersOf rest

end

theorem loopCounters_subset {instruction : Instruction} {body : List Instruction}
    (member : instruction ∈ body) : loopCounters instruction ⊆ loopCountersOf body := by
  induction body with
  | nil => cases member
  | cons first rest inductionHypothesis =>
      rw [loopCountersOf]
      rcases List.mem_cons.1 member with rfl | later
      · exact List.subset_append_left _ _
      · exact List.subset_append_of_subset_right _ (inductionHypothesis later)

/-- The counters around a child and those inside it are counters of its parent. -/
theorem loopCounters_childAt {instruction child : Instruction} {position : Nat}
    (found : childAt instruction position = some child) :
    countersOf instruction ++ loopCounters child ⊆ loopCounters instruction := by
  have inBody {body : List Instruction} {position : Nat} (found : body[position]? = some child) :
      loopCounters child ⊆ loopCountersOf body :=
    loopCounters_subset (List.mem_of_getElem? found)
  cases instruction with
  | program body | block body | expand _ _ body | moduleDef _ _ _ body => exact inBody found
  | loop counter _ _ body => exact List.cons_subset_cons counter (inBody found)
  | branch _ _ body alternative =>
      rcases mem_of_mem_sides (List.mem_of_getElem? found) with first | given | ⟨_, marks, marked⟩
      · exact List.subset_append_of_subset_left _ (loopCounters_subset first)
      · exact List.subset_append_of_subset_right _ (loopCounters_subset given)
      · have inMarked := loopCounters_subset marked
        exact List.subset_append_of_subset_left _
          (List.Subset.trans inMarked (loopCounters_subset marks))
  | _ => cases found

/-! ## Visits by position -/

section Positions

variable {before after : CompileState} {inner : List Visit} {body : List Instruction}
  {position : Nat} {below : Visit}

/-- There is one visit for each instruction of a body. -/
theorem Sequence.length_eq {Matches : Instruction → Visit → Prop}
    (sequence : Sequence Matches body before inner after) : inner.length = body.length := by
  induction sequence with
  | done => rfl
  | next _ _ inductionHypothesis => exact congrArg Nat.succ inductionHypothesis

/-- The visit at a position matches the instruction at that position. -/
theorem Sequence.matching {Matches : Instruction → Visit → Prop}
    (sequence : Sequence Matches body before inner after) (found : inner[position]? = some below) :
    ∃ template, body[position]? = some template ∧ Matches template below := by
  induction sequence generalizing position with
  | done => cases found
  | next first _ inductionHypothesis =>
      cases position with
      | zero =>
          cases found
          exact ⟨_, rfl, first⟩
      | succ position => exact inductionHypothesis found

/-- A loop goes through its body again and again. -/
theorem Rounds.matching {counter : String} {count : Nat} {value : Int}
    (rounds : Rounds counter body count value before inner after)
    (found : inner[position]? = some below) :
    ∃ template value, body[position % body.length]? = some template ∧
      FilledIn (roundSubstitution counter value) template below := by
  induction rounds generalizing position with
  | done => cases found
  | @round _ value _ _ _ first rest filled _ inductionHypothesis =>
      have sameLength := filled.length_eq
      rcases Nat.lt_or_ge position first.length with inFirst | later
      · rw [List.getElem?_append_left inFirst] at found
        obtain ⟨template, isTemplate, matching⟩ := filled.matching found
        rw [Nat.mod_eq_of_lt (by omega)]
        exact ⟨template, value, isTemplate, matching⟩
      · rw [List.getElem?_append_right later] at found
        rw [Nat.mod_eq_sub_mod (by omega), ← sameLength]
        rw [← sameLength] at inductionHypothesis
        exact inductionHypothesis found

/-- A visit of a module stands at the position of its instruction. -/
theorem Children.matching {start : Nat} {gathered all : List LayerId}
    (children : Children start gathered body before inner all after)
    (found : inner[position]? = some below) : body[position]? = some below.instruction := by
  induction children generalizing position with
  | done => cases found
  | next _ _ inductionHypothesis =>
      cases position with
      | zero =>
          cases found
          rfl
      | succ position => exact inductionHypothesis found

/-- There is one visit for each instruction of a branch. -/
theorem Rooted.length_eq {label : String} {root : Option LayerId}
    (rooted : Rooted label body before inner root after) : inner.length = body.length := by
  cases rooted with
  | absent nothing =>
      subst nothing
      rfl
  | compiled _ filled _ => exact filled.length_eq

/-- The instructions of a branch are filled in under the suffix that is drawn at its start. -/
theorem Rooted.filled {label : String} {root : Option LayerId}
    (rooted : Rooted label body before inner root after) (found : inner[position]? = some below) :
    ∃ suffix drawn substitution, Draws label before suffix drawn ∧ Trail drawn inner after ∧
      (∀ key, substitution.binds key = true → key = suffixKey) ∧
      Substitution.Suffixes suffix substitution.renames ∧
      ∃ template, body[position]? = some template ∧ FilledIn substitution template below := by
  cases rooted with
  | absent _ => cases found
  | compiled entered filled left =>
      obtain ⟨suffix, drawn, renames, draws, table, rfl, rfl⟩ := runs_enterBranch entered
      refine ⟨suffix, drawn, _, draws_of_freshSuffix draws,
        .step (CompileState.leadsTo_entered drawn)
          (filled.trail.then_leadsTo (runs_leaveBranch left).1.leadsTo), ?_,
        Substitution.suffixes_of_hygienicRenames table, filled.matching found⟩
      intro key bound
      rw [Substitution.binds_withRenames] at bound
      rcases Substitution.eq_or_binds_of_binds_bind bound with same | other
      · exact same
      · cases other

end Positions

/-! ## What is filled in later -/

def BranchSuffix (outer : Visit) (suffix : String) : Prop :=
  ∃ branch, Visit.Within branch outer ∧ opened? branch = none ∧ branch.Drew suffix ∧
    Suffix.IsCode suffix.toList

/-- What loops and branches below a visit fill in: counters around the instruction, and the suffixes
of branches. -/
structure Later (outer : Visit) (counters : List String) (substitution : Substitution) :
    Prop where
  keys : ∀ key, substitution.binds key = true → key = suffixKey ∨ key ∈ counters
  renames : substitution.renames = [] ∨
    ∃ suffix, BranchSuffix outer suffix ∧ Substitution.Suffixes suffix substitution.renames

/-- An instruction is a template that loops and branches below a visit filled in. -/
def FilledLater (outer : Visit) (counters : List String) (template instruction : Instruction) :
    Prop :=
  ∃ substitutions, (∀ substitution ∈ substitutions, Later outer counters substitution) ∧
    Substitution.Filled Substitution.apply substitutions template instruction

theorem FilledLater.refl (outer : Visit) (counters : List String) (template : Instruction) :
    FilledLater outer counters template template :=
  ⟨[], fun _ member => absurd member List.not_mem_nil, .done _⟩

private theorem FilledLater.of_filledIn {outer below : Visit} {counters : List String}
    {substitution : Substitution} {template : Instruction}
    (filled : FilledIn substitution template below) (later : Later outer counters substitution) :
    FilledLater outer counters template below.instruction := by
  refine ⟨[substitution], fun other member => ?_, .next filled (.done _)⟩
  rw [List.mem_singleton.1 member]
  exact later

/-- A loop fills in its counter. -/
theorem later_roundSubstitution (outer : Visit) (counter : String) (value : Int) :
    Later outer [counter] (roundSubstitution counter value) where
  keys key bound := by
    rcases Substitution.eq_or_binds_of_binds_bind bound with rfl | other
    · exact .inr (List.mem_singleton_self _)
    · cases other
  renames := .inl rfl

private theorem isCode_of_draws {label suffix : String} {before after : CompileState}
    (draws : Draws label before suffix after) (isBranch : label.toList ∈ Suffix.branchLabels) :
    Suffix.IsCode suffix.toList := by
  obtain ⟨attempt, word, rfl⟩ := draws.spelled
  obtain ⟨mark, isMark, spelled⟩ := Suffix.toList_suffixText label attempt word
  exact ⟨_, isBranch, mark, isMark, spelled⟩

/-- A side of a branch fills in the suffix that the branch drew for it. -/
theorem Rooted.filledLater {label : String} {body : List Instruction} {before after : CompileState}
    {inner : List Visit} {root : Option LayerId} {position : Nat} {below : Visit} (branch : Visit)
    (rooted : Rooted label body before inner root after) (found : inner[position]? = some below)
    (isBranch : label.toList ∈ Suffix.branchLabels) (notCall : opened? branch = none)
    (drew : ∀ {suffix : String} {drawn : CompileState}, Draws label before suffix drawn →
      Trail drawn inner after → branch.Drew suffix) (counters : List String) :
    ∃ template, body[position]? = some template ∧
      FilledLater branch counters template below.instruction := by
  obtain ⟨suffix, drawn, substitution, draws, trail, keys, suffixes, template, isTemplate,
    matching⟩ := rooted.filled found
  have isSuffix : BranchSuffix branch suffix :=
    ⟨branch, .self branch, notCall, drew draws trail, isCode_of_draws draws isBranch⟩
  exact ⟨template, isTemplate, .of_filledIn matching
    ⟨fun key bound => .inl (keys key bound), .inr ⟨suffix, isSuffix, suffixes⟩⟩⟩

end Compile

namespace Visit

open Compile

/-- A child is filled in as loops and branches do, and then compiled. -/
theorem Faithful.filled {visit below : Visit} {position : Nat} {child : Instruction}
    (faithful : visit.Faithful) (found : visit.inner[position]? = some below)
    (isChild : childAt visit.instruction position = some child) :
    FilledLater visit (countersOf visit.instruction) child below.instruction := by
  have grow := faithful.allGrow
  cases faithful with
  | intro unfolds inner =>
      obtain ⟨instruction, before, after, visits⟩ := visit
      dsimp only at found isChild unfolds grow ⊢
      cases unfolds with
      | program sequence | block sequence | expand _ sequence =>
          obtain ⟨template, isTemplate, matching⟩ := sequence.matching found
          cases isTemplate.symm.trans isChild
          rw [matching]
          exact .refl _ _ _
      | moduleDef _ _ children _ =>
          cases (children.matching found).symm.trans isChild
          exact .refl _ _ _
      | moduleTaken _ _ => cases found
      | loop _ rounds =>
          obtain ⟨template, value, isTemplate, matching⟩ := rounds.matching found
          cases isTemplate.symm.trans isChild
          exact .of_filledIn matching (later_roundSubstitution _ _ value)
      | @branch name test body alternative _ start between finish _ plan first second _ _ plans
          thenRooted elseRooted finishes =>
          obtain ⟨quiet, tested, _, split⟩ := runs_planBranch plans
          have ends := (chooses_of_rooted tested thenRooted elseRooted finishes
            fun visit member => grow visit (List.mem_append_right _ member)).grows
          have sameSides : sides body alternative = plan.first ++ plan.second := by
            rw [sides, ← split]
          rw [childAt, sameSides] at isChild
          have firstLength := thenRooted.length_eq
          rcases Nat.lt_or_ge position first.length with inFirst | inSecond
          · rw [List.getElem?_append_left inFirst] at found
            rw [List.getElem?_append_left (firstLength ▸ inFirst)] at isChild
            obtain ⟨template, isTemplate, filled⟩ := thenRooted.filledLater
              ⟨.branch name test body alternative, before, after, first ++ second⟩ found
              (by decide) rfl (fun draws trail => drew_of_draws grow (List.nil_append _).symm
                (Trail.of_leadsTo quiet.leadsTo) draws (trail.append elseRooted.trail) ends) []
            cases isTemplate.symm.trans isChild
            exact filled
          · rw [List.getElem?_append_right inSecond] at found
            rw [List.getElem?_append_right (firstLength ▸ inSecond), ← firstLength] at isChild
            obtain ⟨template, isTemplate, filled⟩ := elseRooted.filledLater
              ⟨.branch name test body alternative, before, after, first ++ second⟩ found
              (by decide) rfl (fun draws trail => drew_of_draws grow rfl
                (Trail.step quiet.leadsTo thenRooted.trail) draws trail ends) []
            cases isTemplate.symm.trans isChild
            exact filled
      | _ => cases isChild

/-- A visit below one that neither calls a template nor connects belongs to a child. -/
theorem Faithful.exists_childAt {visit below : Visit} {position : Nat} (faithful : visit.Faithful)
    (found : visit.inner[position]? = some below)
    (noCall : visit.instruction.opcode ≠ .templateCall ∧ visit.instruction.opcode ≠ .call)
    (noConnection : visit.instruction.opcode ≠ .connect) :
    ∃ child, childAt visit.instruction position = some child := by
  have unfolds := faithful.unfolds
  obtain ⟨instruction, before, after, inner⟩ := visit
  dsimp only at found noCall noConnection unfolds ⊢
  cases unfolds with
  | program sequence | block sequence | expand _ sequence =>
      obtain ⟨template, isTemplate, _⟩ := sequence.matching found
      exact ⟨template, isTemplate⟩
  | moduleDef _ _ children _ => exact ⟨_, children.matching found⟩
  | loop _ rounds =>
      obtain ⟨template, _, isTemplate, _⟩ := rounds.matching found
      exact ⟨template, isTemplate⟩
  | branch plans thenRooted elseRooted _ =>
      obtain ⟨_, _, _, split⟩ := runs_planBranch plans
      rw [childAt, sides, ← split]
      have inside := (List.getElem?_eq_some_iff.1 found).1
      rw [List.length_append, thenRooted.length_eq, elseRooted.length_eq, ← List.length_append]
        at inside
      exact ⟨_, List.getElem?_eq_getElem inside⟩
  | layer _ | moduleTaken _ _ | templateDef _ => cases found
  | connect => exact absurd rfl noConnection
  | templateCall => exact absurd rfl noCall.1
  | call => exact absurd rfl noCall.2

end Visit

end NetBlueprint
