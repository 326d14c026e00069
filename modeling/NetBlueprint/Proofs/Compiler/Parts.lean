import NetBlueprint.Proofs.Compiler.Children

/-!
Contract: the parts of a template call.

The visits below a template call that belong to the body of its own template are its parts, each
reached by the positions that lead down to it. Templates that the body calls have parts of their
own. What a part compiles is the instruction of the body under the bindings of the call, less those
that loops around it shadow, and then under what those loops and the branches around it fill in.

Owns: the parts of a call, how each is filled in, and which layer a part defines.

Does not own: which names these layers have.
-/

namespace NetBlueprint

namespace Compile

/-- An instruction in the body of a template, the counters of the loops around it, and a visit of
it. -/
structure Part where
  counters : List String
  template : Instruction
  visit : Visit

def partFrom : Part → List Nat → Option Part
  | part, [] => some part
  | part, position :: path =>
    match childAt part.template position, part.visit.inner[position]? with
    | some template, some visit =>
      partFrom ⟨part.counters ++ countersOf part.template, template, visit⟩ path
    | _, _ => none

/-- The part that a path leads to in a call of a template, whose body is like a block. -/
def partAt (call : Visit) (opened : OpenTemplate) (path : List Nat) : Option Part :=
  partFrom ⟨[], .block opened.body, call⟩ path

/-- Whatever a path leads to stands inside the instruction at which it starts. -/
theorem subset_of_partFrom {path : List Nat} :
    ∀ {part last : Part}, partFrom part path = some last →
      Instruction.definitions last.template ⊆ Instruction.definitions part.template ∧
      last.counters ++ loopCounters last.template ⊆ part.counters ++ loopCounters part.template := by
  induction path with
  | nil =>
      intro part last found
      cases found
      exact ⟨List.Subset.refl _, List.Subset.refl _⟩
  | cons position path inductionHypothesis =>
      intro part last found
      rw [partFrom] at found
      split at found
      · rename_i isChild _
        obtain ⟨definitions, counters⟩ := inductionHypothesis found
        refine ⟨List.Subset.trans definitions (definitions_childAt isChild),
          List.Subset.trans counters ?_⟩
        dsimp only
        rw [List.append_assoc]
        exact List.append_subset.2 ⟨List.subset_append_left _ _,
          List.subset_append_of_subset_right _ (loopCounters_childAt isChild)⟩
      · cases found

private theorem Later.weaken {inner outer : Visit} {counters more : List String}
    {substitution : Substitution} (later : Later inner counters substitution)
    (within : inner.Within outer) (subset : counters ⊆ more) : Later outer more substitution where
  keys key bound := (later.keys key bound).imp_right fun counter => subset counter
  renames := by
    refine later.renames.imp_right ?_
    rintro ⟨suffix, ⟨branch, inside, notCall, drew, isCode⟩, suffixes⟩
    exact ⟨suffix, ⟨branch, inside.trans within, notCall, drew, isCode⟩, suffixes⟩

theorem Later.without {outer : Visit} {counters : List String} {substitution : Substitution}
    (later : Later outer counters substitution) (names : List String) :
    Later outer counters (substitution.without names) where
  keys key bound := later.keys key (Substitution.binds_of_binds_without bound)
  renames := later.renames

/-- A part stands in the body that a call opened, and was filled in by the bindings of the call
before anything else. -/
structure IsPartOf (call : Visit) (opened : OpenTemplate) (part : Part) : Prop where
  within : part.visit.Within call
  definitions : Instruction.definitions part.template ⊆ Instruction.definitionsOf opened.body
  counters : part.counters ++ loopCounters part.template ⊆ loopCountersOf opened.body
  filled : ∃ substitutions,
    (∀ substitution ∈ substitutions, Later call part.counters substitution) ∧
      Substitution.Filled Substitution.apply
        (opened.substitution.without part.counters :: substitutions) part.template
        part.visit.instruction

section Calls

variable {call : Visit} {opened : OpenTemplate} {label : String}

/-- The child of a part is a part. -/
theorem IsPartOf.child {part : Part} (isPart : IsPartOf call opened part)
    (faithful : call.Faithful) {position : Nat} {template : Instruction} {visit : Visit}
    (isChild : childAt part.template position = some template)
    (found : part.visit.inner[position]? = some visit) :
    IsPartOf call opened ⟨part.counters ++ countersOf part.template, template, visit⟩ := by
  obtain ⟨substitutions, later, filled⟩ := isPart.filled
  obtain ⟨between, isBetween, betweenFilled⟩ := filled_childAt filled isChild
  obtain ⟨last, lastLater, lastFilled⟩ :=
    (faithful.within isPart.within).filled found isBetween
  rw [filled_countersOf filled] at lastLater
  refine ⟨.trans (.under (List.mem_of_getElem? found) (.self visit)) isPart.within,
    List.Subset.trans (definitions_childAt isChild) isPart.definitions, ?_,
    (substitutions.map fun substitution => substitution.without (countersOf part.template)) ++ last,
    ?_, ?_⟩
  · dsimp only
    rw [List.append_assoc]
    refine List.Subset.trans (List.append_subset.2 ⟨List.subset_append_left _ _, ?_⟩)
      isPart.counters
    exact List.subset_append_of_subset_right _ (loopCounters_childAt isChild)
  · intro substitution member
    rcases List.mem_append.1 member with earlier | new
    · obtain ⟨other, otherMember, rfl⟩ := List.mem_map.1 earlier
      exact ((later other otherMember).without _).weaken (.self call)
        (List.subset_append_left _ _)
    · exact (lastLater substitution new).weaken isPart.within (List.subset_append_right _ _)
  · rw [List.map_cons, Substitution.without_without] at betweenFilled
    exact betweenFilled.append lastFilled

/-- What a path leads to from a part stands in the same call. -/
theorem isPartOf_of_partFrom (faithful : call.Faithful) {path : List Nat} :
    ∀ {part last : Part}, IsPartOf call opened part → partFrom part path = some last →
      IsPartOf call opened last := by
  induction path with
  | nil =>
      intro part last isPart found
      cases found
      exact isPart
  | cons position path inductionHypothesis =>
      intro part last isPart found
      rw [partFrom] at found
      split at found
      · rename_i isChild isVisit
        exact inductionHypothesis (isPart.child faithful isChild isVisit) found
      · cases found

/-- Whatever a path leads to below a call is one of its parts. -/
theorem isPartOf_of_partAt (faithful : call.Faithful)
    (opens : opened? call = some (label, opened)) {position : Nat} {path : List Nat} {part : Part}
    (found : partAt call opened (position :: path) = some part) : IsPartOf call opened part := by
  obtain ⟨_, _, _, sequence⟩ := filled_of_opened faithful opens
  rw [partAt, partFrom] at found
  split at found
  · rename_i template visit isChild isVisit
    refine isPartOf_of_partFrom faithful ?_ found
    have isTemplate : opened.body[position]? = some template := isChild
    obtain ⟨other, isOther, matching⟩ := sequence.matching isVisit
    cases isTemplate.symm.trans isOther
    refine ⟨.under (List.mem_of_getElem? isVisit) (.self visit),
      Instruction.definitions_subset (List.mem_of_getElem? isTemplate),
      loopCounters_subset (List.mem_of_getElem? isTemplate), [],
      fun _ member => absurd member List.not_mem_nil, ?_⟩
    rw [countersOf, List.append_nil, Substitution.without_nil]
    · exact .next matching (.done _)
    · exact nofun
  · cases found

end Calls

end Compile

namespace Visit

open Compile

/-- The layer that a visit of a definition adds has the defined name. -/
theorem Faithful.defines {visit : Visit} (faithful : visit.Faithful) {definition : Definition}
    (defines : visit.instruction.definition? = some definition) {id : LayerId}
    (own : visit.ownLayer? = some id) : visit.after.network.Named definition.template id := by
  have ofNodes {between : CompileState} {node : Layer} (grows : visit.before.GrowsTo between)
      (nodes : visit.after.network.nodes = between.network.nodes ++ [node]) :
      visit.after.network.Named node.name id := by
    obtain ⟨isOwn, layer, found, same⟩ := ownLayer?_of_nodes grows nodes
    cases own.symm.trans isOwn
    have sameName : layer.node.name = node.name := congrArg Layer.name same
    exact ⟨layer, found, sameName⟩
  have notNone (nodes : visit.after.network.nodes = visit.before.network.nodes) : False := by
    rw [ownLayer?_eq_none nodes] at own
    cases own
  have grow := faithful.allGrow
  cases faithful with
  | intro unfolds _ =>
      obtain ⟨instruction, before, after, visits⟩ := visit
      dsimp only at unfolds defines grow ofNodes notNone ⊢
      cases unfolds with
      | layer ran =>
          cases defines
          rcases (declares_of_layer ran).nodes with same | ⟨kind, nodes⟩
          · exact (notNone same).elim
          · exact ofNodes (.refl before) nodes
      | moduleTaken takes logs =>
          have quiet := (isQuiet_takeAhead _ _ _ _ _ takes).trans (isQuiet_log _ _ _ _ logs)
          exact (notNone quiet.nodes).elim
      | moduleDef takes logs children finishes =>
          cases defines
          have quiet := (isQuiet_takeAhead _ _ _ _ _ takes).trans (isQuiet_log _ _ _ _ logs)
          exact ofNodes (quiet.grows.trans (children.trail.grows grow))
            ((runs_finishModule finishes).nodes.trans (CompileState.nodes_withLayer _ _ _))
      | @branch name _ _ _ _ _ _ _ _ plan _ _ _ _ plans thenRooted elseRooted finishes =>
          cases name with
          | none => cases defines
          | some given =>
              cases defines
              obtain ⟨quiet, tested, named, _⟩ := runs_planBranch plans
              have chooses := chooses_of_rooted tested thenRooted elseRooted finishes
                fun visit member => grow visit (List.mem_append_right _ member)
              have nodes := chooses.nodes
              rw [named given rfl] at nodes
              exact ofNodes (quiet.grows.trans
                ((thenRooted.trail.append elseRooted.trail).grows grow)) nodes
      | _ => cases defines

end Visit

end NetBlueprint
