import NetBlueprint.Proofs.Compiler.Parts
import NetBlueprint.Proofs.Compiler.Rooting
import NetBlueprint.Proofs.Compiler.Scoping

/-!
Contract: what belongs to a side of a branch.

Each side of a branch is compiled in a scope of its own, filled in under a suffix of its own. What
is compiled ahead on the way stands in the root scope, and so in no scope that the branch opened.
So whatever stands in the scope of a side, or in one inside it, stands below a visit of this side,
and without template calls it belongs to an instruction that the side lists, at some depth.

Owns: the sides of a branch by their scopes, and which visits stand in these.

Does not own: which names the layers of a side have.
-/

namespace NetBlueprint

namespace Compile

open CompileState

/-- A side of a branch: the visits that stand in its scope belong to the instructions of its body,
filled in under the suffix that the branch drew for it. -/
structure Dressed (branch : Visit) (scope : ScopeId) (label : String) (body : List Instruction)
    (suffix : String) (renames : List (String × String)) : Prop where
  isLabel : label.toList ∈ Suffix.branchLabels
  drew : branch.Drew suffix
  spelled : ∃ mark, Suffix.IsMark mark ∧ suffix.toList = Suffix.spelling label.toList mark
  table : hygienicRenames body (Substitution.empty.bind suffixKey suffix) [] suffix true =
    .ok renames
  child : ∀ position below, branch.inner[position]? = some below →
    below.before.current = scope → ∃ template ∈ body,
      childAt branch.instruction position = some template ∧
      FilledIn ((Substitution.empty.bind suffixKey suffix).withRenames renames) template below

section Sides

variable {before after : CompileState} {inner : List Visit} {label : String}
  {body : List Instruction} {root : Option LayerId} {below branch : Visit} {scope : ScopeId}

/-- The visits of a side stand in the scope that is opened for it. -/
theorem Rooted.stands (rooted : Rooted label body before inner root after)
    (tracked : ∀ visit ∈ inner, Tracked visit) (member : below ∈ inner) :
    below.before.current = before.scopes.size := by
  cases rooted with
  | absent => cases member
  | compiled entered filled _ =>
      obtain ⟨isScope, current, _⟩ := scope_of_enterBranch entered
      exact (filled.stands tracked member).trans (current.trans isScope)

/-- Of the scopes that come up while a side is compiled, its visits open all but its own. -/
theorem Rooted.exists_entered (rooted : Rooted label body before inner root after)
    (fresh : ¬ scope < before.scopes.size) (present : scope < after.scopes.size)
    (notBelow : ∀ below ∈ inner,
      ¬ scope < below.after.scopes.size ∨ scope < below.before.scopes.size) :
    scope = before.scopes.size ∧ ∃ opened start finish,
      Runs (enterBranch label body) before opened start ∧
      Sequence (FilledIn opened.substitution) body start inner finish ∧
      finish.Quiet after := by
  cases rooted with
  | absent => exact absurd present fresh
  | @compiled start finish _ opened _ _ entered filled left =>
      have quiet := (runs_leaveBranch left).1
      refine ⟨?_, opened, start, finish, entered, filled, quiet⟩
      obtain ⟨isScope, _, size⟩ := scope_of_enterBranch entered
      have origin : scope < start.scopes.size ∨ False :=
        (filled.way : Way (fun _ _ => False) _ _ _).origin
          (fun state => scope < state.scopes.size) (fun impossible => impossible.elim)
          (fun below member present => .inl ((notBelow below member).resolve_left
            fun absent => absent present)) (quiet.scopes ▸ present)
      have entered := origin.resolve_right False.elim
      rw [size, isScope] at entered
      exact Nat.le_antisymm (Nat.le_of_lt_succ entered) (Nat.not_lt.1 fresh)

/-- What is known of a side by way of its place among the visits of its branch. -/
theorem dressed_of_entered {opened : OpenBranch} {start finish : CompileState}
    {early side late : List Visit} (faithful : branch.Faithful)
    (isLabel : label.toList ∈ Suffix.branchLabels)
    (parts : branch.inner = early ++ (side ++ late))
    (earlier : Trail branch.before early before)
    (entered : Runs (enterBranch label body) before opened start)
    (filled : Sequence (FilledIn opened.substitution) body start side finish)
    (later : Trail finish late after) (ends : after.GrowsTo branch.after)
    (others : ∀ below, below ∈ early ∨ below ∈ late → below.before.current ≠ before.scopes.size)
    (isChild : ∀ position template, body[position]? = some template →
      childAt branch.instruction (early.length + position) = some template) :
    ∃ suffix renames, Dressed branch before.scopes.size label body suffix renames := by
  obtain ⟨suffix, drawn, renames, drew, table, rfl, rfl⟩ := runs_enterBranch entered
  have draws := draws_of_freshSuffix drew
  refine ⟨suffix, renames, isLabel, ?_, ?_, table, fun position below found stands => ?_⟩
  · exact drew_of_draws faithful.allGrow parts earlier draws
      (.step (leadsTo_entered drawn) (filled.trail.append later)) ends
  · obtain ⟨attempt, word, rfl⟩ := draws.spelled
    exact Suffix.toList_suffixText label attempt word
  · rw [parts] at found
    rcases Nat.lt_or_ge position early.length with inEarly | behind
    · rw [List.getElem?_append_left inEarly] at found
      exact absurd stands (others below (.inl (List.mem_of_getElem? found)))
    rw [List.getElem?_append_right behind] at found
    rcases Nat.lt_or_ge (position - early.length) side.length with inSide | inLate
    · rw [List.getElem?_append_left inSide] at found
      obtain ⟨template, isTemplate, matching⟩ := filled.matching found
      have child := isChild _ template isTemplate
      rw [Nat.add_sub_cancel' behind] at child
      exact ⟨template, List.mem_of_getElem? isTemplate, child, matching⟩
    · rw [List.getElem?_append_right inLate] at found
      exact absurd stands (others below (.inr (List.mem_of_getElem? found)))

/-- The visits of a branch stand in scopes that it opens. -/
theorem stands_of_branch (faithful : branch.Faithful)
    (isBranch : branch.instruction.opcode = .branch) (member : below ∈ branch.inner) :
    branch.before.scopes.size ≤ below.before.current := by
  cases instruction : branch.instruction with
  | branch name test body alternative =>
      obtain ⟨run, runOf⟩ := exists_branchRun faithful instruction
      have grows := runOf.quiet.grows
      rw [runOf.parts] at member
      rcases List.mem_append.1 member with inFirst | inSecond
      · rw [runOf.thenRooted.stands runOf.firstTracked inFirst]
        exact grows.scopes_size_le
      · rw [runOf.elseRooted.stands runOf.secondTracked inSecond]
        exact (grows.trans (runOf.thenRooted.trail.grows runOf.firstGrow)).scopes_size_le
  | _ =>
      rw [instruction] at isBranch
      cases isBranch

/-- A scope that a branch opened is that of its first or its second side. -/
theorem exists_dressed (faithful : branch.Faithful) {name : Option String} {test : Instruction}
    {body alternative : List Instruction}
    (isBranch : branch.instruction = .branch name test body alternative) :
    ∃ first second, ∀ scope, branch.Opened scope →
      (scope = first ∧ ∃ suffix renames,
        Dressed branch scope "then" (splitBody body alternative).1 suffix renames) ∨
      (scope = second ∧ ∃ suffix renames,
        Dressed branch scope "else" (splitBody body alternative).2 suffix renames) := by
  obtain ⟨run, runOf⟩ := exists_branchRun faithful isBranch
  have thenRooted := runOf.thenRooted
  have elseRooted := runOf.elseRooted
  have startSize : run.start.scopes.size = branch.before.scopes.size :=
    congrArg Array.size runOf.quiet.scopes
  have finished : branch.after.scopes.size = run.finish.scopes.size := by
    rw [(still_of_finishBranch runOf.finishes).scopes]
    exact Array.size_modify
  have isChild (position : Nat) : childAt branch.instruction position =
      (run.plan.first ++ run.plan.second)[position]? := by
    rw [isBranch, childAt, sides, ← runOf.split]
  rw [← runOf.split]
  refine ⟨run.start.scopes.size, run.between.scopes.size, ?_⟩
  rintro scope ⟨fresh, present, notBelow⟩
  rw [finished] at present
  rw [runOf.parts] at notBelow
  obtain ⟨notFirst, notSecond⟩ := List.forall_mem_append.1 notBelow
  by_cases inFirst : scope < run.between.scopes.size
  · obtain ⟨rfl, opened, entered, left, enters, filled, leaves⟩ :=
      thenRooted.exists_entered (startSize ▸ fresh) inFirst notFirst
    refine .inl ⟨rfl, dressed_of_entered faithful (by decide)
      (runOf.parts.trans (List.nil_append _).symm) (.of_leadsTo runOf.quiet.leadsTo) enters
      filled (.step leaves.leadsTo elseRooted.trail) runOf.chooses.grows ?_
      fun position template listed => ?_⟩
    · rintro below (inEarly | inSecond)
      · cases inEarly
      · rw [elseRooted.stands runOf.secondTracked inSecond]
        exact Nat.ne_of_gt inFirst
    · rw [isChild, List.length_nil, Nat.zero_add]
      exact List.getElem?_append_left (List.getElem?_eq_some_iff.1 listed).1 ▸ listed
  · obtain ⟨rfl, opened, entered, left, enters, filled, leaves⟩ :=
      elseRooted.exists_entered inFirst present notSecond
    refine .inr ⟨rfl, dressed_of_entered faithful (by decide)
      (runOf.parts.trans (congrArg _ (List.append_nil _).symm))
      (.step runOf.quiet.leadsTo thenRooted.trail) enters filled
      (.of_leadsTo leaves.leadsTo) runOf.chooses.grows ?_ fun position template listed => ?_⟩
    · rintro below (inFirst | inLate)
      · rw [thenRooted.stands runOf.firstTracked inFirst]
        exact Nat.ne_of_lt ((thenRooted.opens runOf.firstGrow).resolve_left
          fun nothing => List.ne_nil_of_mem inFirst nothing.1)
      · cases inLate
    · rw [isChild, thenRooted.length_eq, List.getElem?_append_right (Nat.le_add_right _ _),
        Nat.add_sub_cancel_left]
      exact listed

end Sides

/-! ## What belongs to an instruction -/

def CallsNothing (instruction : Instruction) : Prop :=
  .templateCall ∉ instruction.opcodes ∧ .call ∉ instruction.opcodes

section Belonging

variable {call visit below : Visit} {opened : OpenTemplate} {part : Part}

/-- What is compiled ahead for an endpoint is compiled in the root scope. -/
theorem Ensured.at_root {scope : ScopeId} {endpoint : String} {before after : CompileState}
    {inner : List Visit} (ensured : Ensured scope endpoint before inner after)
    (member : below ∈ inner) : below.before.current = 0 := by
  rcases ensured.cases with ⟨_, rfl, _⟩ | ⟨_, ahead⟩
  · cases member
  · cases ahead.outcome with
    | skipped => cases member
    | turned _ turns =>
        cases List.mem_singleton.1 member
        exact turns.current

private theorem at_root_of_connect (faithful : visit.Faithful)
    (connects : visit.instruction.opcode = .connect) (member : below ∈ visit.inner) :
    below.before.current = 0 := by
  have unfolds := faithful.unfolds
  obtain ⟨instruction, before, after, inner⟩ := visit
  dsimp only at connects member unfolds
  cases unfolds with
  | connect _ sourceEnsured targetEnsured _ =>
      rcases List.mem_append.1 member with source | target
      · exact sourceEnsured.at_root source
      · exact targetEnsured.at_root target
  | _ => cases connects

private theorem opcode_mem_opcodes (instruction : Instruction) :
    instruction.opcode ∈ instruction.opcodes := by
  cases instruction <;> exact List.mem_cons_self

private theorem opcodes_of_filled {substitutions : List Substitution}
    {template instruction : Instruction}
    (filled : Substitution.Filled Substitution.apply substitutions template instruction) :
    instruction.opcodes = template.opcodes := by
  induction filled with
  | done => rfl
  | next applied _ inductionHypothesis =>
      exact inductionHypothesis.trans (Substitution.opcodes_of_apply applied)

/-- Without template calls, what stands below a part is a part, or it stands at or below something
that is compiled in the root scope. -/
theorem IsPartOf.reaches (faithful : call.Faithful) (within : visit.Within below) :
    ∀ {part : Part}, IsPartOf call opened part → part.visit = below →
      CallsNothing part.template →
      (∃ path last, partFrom part path = some last ∧ last.visit = visit) ∨
        ∃ turned : Visit, turned.Within below ∧ visit.Within turned ∧
          turned.before.current = 0 := by
  induction within with
  | self =>
      rintro part _ rfl _
      exact .inl ⟨[], part, rfl, rfl⟩
  | @under middle outer member within inductionHypothesis =>
      rintro part isPart rfl callsNothing
      obtain ⟨substitutions, _, filled⟩ := isPart.filled
      have partFaithful := faithful.within isPart.within
      by_cases connects : part.visit.instruction.opcode = .connect
      · exact .inr ⟨middle, .under member (.self middle), within,
          at_root_of_connect partFaithful connects member⟩
      obtain ⟨position, found⟩ := List.mem_iff_getElem?.1 member
      have opcodeKept : part.visit.instruction.opcode ∈ part.template.opcodes :=
        opcodes_of_filled filled ▸ opcode_mem_opcodes part.visit.instruction
      obtain ⟨child, isChild⟩ := partFaithful.exists_childAt found
        ⟨fun calls => callsNothing.1 (calls ▸ opcodeKept),
          fun calls => callsNothing.2 (calls ▸ opcodeKept)⟩ connects
      obtain ⟨template, isTemplate⟩ := exists_childAt_of_filled filled isChild
      have kept := opcodes_childAt isTemplate
      rcases inductionHypothesis (isPart.child faithful isTemplate found) rfl
        ⟨fun calls => callsNothing.1 (kept calls), fun calls => callsNothing.2 (kept calls)⟩ with
        ⟨path, last, reached, isLast⟩ | ⟨turned, inside, above, atRoot⟩
      · refine .inl ⟨position :: path, last, ?_, isLast⟩
        rw [partFrom, isTemplate, found]
        exact reached
      · exact .inr ⟨turned, .under member inside, above, atRoot⟩

end Belonging

/-! ## What stands in the scopes of a side -/

section Runs

variable {name : String} {seed : UInt64} {program : Instruction} {compiled : Compiled}
  {root visit branch turned : Visit} {scope : ScopeId}

namespace RootOf

variable (rootOf : RootOf name seed program compiled root)

include rootOf

private theorem not_surrounds_root (within : branch.Within root) (opened : branch.Opened scope) :
    ¬ root.after.Surrounds scope 0 := by
  intro surrounds
  refine opened.fresh ?_
  rw [Nat.le_zero.1 (surrounds.le rootOf.nested)]
  exact Nat.zero_lt_of_lt (rootOf.inside within)

/-- Whatever stands in a scope that a branch opened, or in one inside it, stands below a visit of
the branch that stands in this scope. -/
theorem exists_child_of_surrounds (branchWithin : branch.Within root)
    (isBranch : branch.instruction.opcode = .branch) (opened : branch.Opened scope) :
    ∀ {visit : Visit}, visit.Within root → root.after.Surrounds scope visit.before.current →
      ∃ below ∈ branch.inner, below.before.current = scope ∧ visit.Within below := by
  intro visit within surrounds
  induction stands : visit.before.current using Nat.strongRecOn generalizing visit with
  | ind here inductionHypothesis =>
      have atRoot (same : visit.before.current = 0) : False :=
        rootOf.not_surrounds_root branchWithin opened (same ▸ surrounds)
      rcases scope_of_within rootOf.faithful within with same | same |
        ⟨other, _, below, side, _, start, left, otherWithin, _, sideOf, isInside, belowSide, _⟩
      · exact (atRoot (same.trans rootOf.gains.1)).elim
      · exact (atRoot same).elim
      · rcases surrounds.eq_or_opened with rfl | ⟨parent, isParent, higher⟩
        · cases rootOf.faithful.eq_of_brings
            (fun grows has => Nat.lt_of_lt_of_le has grows.scopes_size_le) otherWithin branchWithin
            sideOf.opened opened
          have tracked : ∀ below ∈ side, Tracked below := fun below member =>
            tracked_of_faithful ((rootOf.faithful.within otherWithin).ofInner (sideOf.part member))
          refine ⟨below, sideOf.part isInside, ?_, belowSide⟩
          rcases sideOf.sided.course.stands tracked isInside with stands | atRoot
          · exact stands.trans sideOf.sided.stands
          · have opens := stands_of_branch (rootOf.faithful.within otherWithin) isBranch
              (sideOf.part isInside)
            rw [atRoot] at opens
            exact absurd (rootOf.inside otherWithin)
              (Nat.not_lt.2 (Nat.le_trans opens (Nat.zero_le _)))
        · cases (rootOf.parent_of_opened otherWithin sideOf.opened).symm.trans isParent
          obtain ⟨child, isChild, childStands, inside⟩ := inductionHypothesis _
            (stands ▸ rootOf.nested _ _ isParent) otherWithin higher rfl
          exact ⟨child, isChild, childStands,
            belowSide.trans (.trans (.under (sideOf.part isInside) (.self below)) inside)⟩

/-- Nothing that stands at or below something compiled in the root scope stands in a scope that was
opened before, or in one inside it. -/
theorem not_surrounds_of_turned (turnedWithin : turned.Within root)
    (atRoot : turned.before.current = 0) (branchWithin : branch.Within root)
    (opened : branch.Opened scope) (earlier : scope < turned.before.scopes.size) :
    ∀ {visit : Visit}, visit.Within turned →
      ¬ root.after.Surrounds scope visit.before.current := by
  intro visit within surrounds
  induction stands : visit.before.current using Nat.strongRecOn generalizing visit with
  | ind here inductionHypothesis =>
      have notRoot (same : visit.before.current = 0) : False :=
        rootOf.not_surrounds_root branchWithin opened (same ▸ surrounds)
      have faithful := rootOf.faithful.within turnedWithin
      rcases scope_of_within faithful within with same | same |
        ⟨other, _, below, side, _, start, left, otherWithin, _, sideOf, _⟩
      · exact notRoot (same.trans atRoot)
      · exact notRoot same
      · rcases surrounds.eq_or_opened with rfl | ⟨parent, isParent, higher⟩
        · exact sideOf.opened.fresh
            (Nat.lt_of_lt_of_le earlier (faithful.around otherWithin).1.scopes_size_le)
        · cases (rootOf.parent_of_opened (otherWithin.trans turnedWithin)
            sideOf.opened).symm.trans isParent
          exact inductionHypothesis _ (stands ▸ rootOf.nested _ _ isParent) otherWithin higher rfl

end RootOf

end Runs

end Compile

end NetBlueprint
