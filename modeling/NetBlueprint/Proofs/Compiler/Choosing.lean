import NetBlueprint.Proofs.Compiler.Branching

/-!
Contract: what becomes of the outputs that a run adds in the scopes of branches.

In the end a scope holds exactly the outputs that visits added there. Where it is the scope of a
branch, the layer of that branch chooses the first of them, no other layer chooses it as well, and
no layer chooses any later one.

Owns: the outputs and roots of a whole run.
Does not own: what evaluations make of them.
-/

namespace NetBlueprint.Compile

open CompileState

variable {name : String} {seed : UInt64} {program : Instruction} {compiled : Compiled}
  {root visit : Visit} {scope : ScopeId} {id chooser : LayerId}

private theorem keepsScope_prepare (name : String) (program : Instruction) :
    Keeps current (prepare name program) :=
  keeps_bind (keeps_log steady_current _) fun _ => keeps_bind (keeps_modify fun _ => rfl) fun _ =>
    keeps_get_bind fun _ => keeps_log steady_current _

def FirstIn (root : Visit) (scope : ScopeId) (id : LayerId) : Prop :=
  ∀ (visit : Visit) (other : LayerId), visit.Within root → visit.AddsOutput scope other → id ≤ other

/-- A visit is below the visit of a branch that opened the given scope and added the given layer. -/
structure Hosts (root branch visit : Visit) (scope : ScopeId) (chooser : LayerId) : Prop where
  within : branch.Within root
  below : visit.Within branch
  isBranch : branch.instruction.opcode = .branch
  opened : branch.Opened scope
  own : branch.ownLayer? = some chooser

namespace RootOf

/-- What a run adds and picks. -/
theorem gains (rootOf : RootOf name seed program compiled root) :
    root.before.current = 0 ∧
      Gains (fun scope id => root.AddsBelow scope id)
        (fun chooser id => root.PicksBelow chooser id) (CompileState.start name seed)
        root.after := by
  have quiet := isQuiet_prepare _ _ _ _ _ rootOf.prepared
  have atRoot : root.before.current = 0 := keepsScope_prepare _ _ _ _ _ rootOf.prepared
  have housed := housed_start name seed
  have inside : Inside root.before := by
    rw [Inside, atRoot, quiet.scopes]
    exact Nat.zero_lt_one
  exact ⟨atRoot, ((tracked_of_faithful rootOf.faithful).gains (quiet.spares.housed housed)
    inside).after_spares quiet.spares housed⟩

/-- Every output belongs to one scope at the end of a run. -/
theorem housed (rootOf : RootOf name seed program compiled root) : root.after.Housed :=
  rootOf.gains.2.housed

/-- A scope holds the outputs that were added there. -/
theorem mem_outputsIn_iff (rootOf : RootOf name seed program compiled root) :
    id ∈ root.after.outputsIn scope ↔
      ∃ visit : Visit, visit.Within root ∧ visit.AddsOutput scope id := by
  obtain ⟨added, whole, isAdded⟩ := rootOf.gains.2.outputs scope
  rw [whole, outputsIn_start, List.nil_append, isAdded]
  rfl

/-- Whatever is chosen as a root is the first output of a scope that a branch opened. -/
theorem picks_of_hasRoot (rootOf : RootOf name seed program compiled root)
    (chosen : root.after.network.HasRoot chooser id) :
    ∃ branch : Visit, branch.Within root ∧ branch.ownLayer? = some chooser ∧
      ∃ scope, branch.Opened scope ∧ (root.after.outputsIn scope).head? = some id := by
  rcases rootOf.gains.2.roots chosen with ⟨layer, found, _⟩ | ⟨branch, within, picks⟩
  · exact absurd (Network.lt_size_of_layer? found) (Nat.not_lt_zero chooser)
  · obtain ⟨scope, opened, first⟩ := picks.first
    have sound := (rootOf.faithful.within within).sound
      (rootOf.faithful.sound_before within rootOf.sound)
    obtain ⟨more, whole⟩ := (rootOf.faithful.around within).2.outputsIn sound scope
    refine ⟨branch, within, picks.own, scope, opened, ?_⟩
    rw [← whole, List.head?_append, first, Option.some_or]

/-- Only one visit opens a scope. -/
theorem eq_of_opened (rootOf : RootOf name seed program compiled root) {one other : Visit}
    (oneWithin : one.Within root) (otherWithin : other.Within root) (oneOpened : one.Opened scope)
    (otherOpened : other.Opened scope) : one = other :=
  rootOf.faithful.eq_of_brings
    (fun grows has => Nat.lt_of_lt_of_le has grows.scopes_size_le) oneWithin otherWithin oneOpened
    otherOpened

/-- The first output of a scope is the least one. -/
theorem firstIn_of_head (rootOf : RootOf name seed program compiled root)
    (first : (root.after.outputsIn scope).head? = some id) : FirstIn root scope id := by
  intro visit other within adds
  have member := rootOf.mem_outputsIn_iff.2 ⟨visit, within, adds⟩
  have ordered := rootOf.housed.ordered scope
  cases outputs : root.after.outputsIn scope with
  | nil =>
      rw [outputs] at member
      cases member
  | cons head rest =>
      rw [outputs] at first member ordered
      cases first
      rcases List.mem_cons.1 member with rfl | later
      · exact Nat.le_refl _
      · exact Nat.le_of_lt ((List.pairwise_cons.1 ordered).1 other later)

/-- The first output of the scope of a side is the root that is chosen of this side. -/
theorem root_of_firstIn (rootOf : RootOf name seed program compiled root)
    (within : visit.Within root) (adds : visit.AddsOutput scope id)
    (isFirst : FirstIn root scope id) {branch below : Visit} {side : List Visit}
    {chosen : Option LayerId} {start left : CompileState} (branchWithin : branch.Within root)
    (sideOf : SideOf branch scope side chosen start left) (isInside : below ∈ side)
    (belowSide : visit.Within below) : chosen = some id := by
  have branchFaithful := rootOf.faithful.within branchWithin
  obtain ⟨startGrows, leftGrows⟩ := sideOf.sided.trail.around
    (fun below part => (branchFaithful.ofInner (sideOf.part part)).grows) isInside
  obtain ⟨belowGrows, growsBelow⟩ :=
    (branchFaithful.ofInner (sideOf.part isInside)).around belowSide
  have faithful := rootOf.faithful.within within
  have sound := rootOf.faithful.sound_before within rootOf.sound
  have inside : Inside visit.before := by
    rw [Inside, adds.stands]
    refine Nat.lt_of_lt_of_le ?_ (startGrows.trans belowGrows).scopes_size_le
    rw [sideOf.sided.size]
    exact Nat.lt_succ_self scope
  have member := mem_outputsIn_of_addsOutput faithful sound inside adds
  -- What comes first in the scope by now comes first when the side is left, and at the end.
  have keepsHead {state : CompileState} (grows : visit.after.GrowsTo state) :
      (state.outputsIn scope).head? = (visit.after.outputsIn scope).head? := by
    obtain ⟨more, whole⟩ := grows.outputsIn (faithful.sound sound) scope
    rw [← whole, List.head?_append_of_ne_nil _ (List.ne_nil_of_mem member)]
  cases isHead : (visit.after.outputsIn scope).head? with
  | none =>
      rw [List.head?_eq_none_iff.1 isHead] at member
      cases member
  | some head =>
      have last := (keepsHead (rootOf.faithful.around within).2).trans isHead
      obtain ⟨adder, adderWithin, adderAdds⟩ :=
        rootOf.mem_outputsIn_iff.1 (List.mem_of_mem_head? last)
      have same : head = id := Nat.le_antisymm (rootOf.firstIn_of_head last visit id within adds)
        (isFirst adder head adderWithin adderAdds)
      rw [sideOf.sided.root, keepsHead (growsBelow.trans leftGrows), isHead, same]

/-- An output in a scope other than the root scope was added below the branch that opened it. The
layer of that branch chooses it where it is the first one, and no other layer does. -/
theorem output_of_scope (rootOf : RootOf name seed program compiled root)
    (within : visit.Within root) (adds : visit.AddsOutput scope id) (inBranch : scope ≠ 0) :
    ∃ branch chooser, Hosts root branch visit scope chooser ∧
      ∀ other, root.after.network.HasRoot other id ↔ FirstIn root scope id ∧ other = chooser := by
  have stands := adds.stands
  have isOutput := rootOf.mem_outputsIn_iff.2 ⟨visit, within, adds⟩
  rcases scope_of_within rootOf.faithful within with atRoot | atRoot |
    ⟨branch, chooser, below, side, first, start, left, branchWithin, branches, sideOf, isInside,
      belowSide, chosen⟩
  · exact absurd (stands.symm.trans (atRoot.trans rootOf.gains.1)) inBranch
  · exact absurd (stands.symm.trans atRoot) inBranch
  rw [stands] at sideOf
  have belowBranch : visit.Within branch := .under (sideOf.part isInside) belowSide
  refine ⟨branch, chooser,
    ⟨branchWithin, belowBranch, branches.isBranch, sideOf.opened, branches.own⟩,
    fun other => ⟨fun isRoot => ?_, ?_⟩⟩
  · obtain ⟨picker, pickerWithin, own, opened, isOpened, isFirst⟩ := rootOf.picks_of_hasRoot isRoot
    cases rootOf.housed.apart isOutput (List.mem_of_mem_head? isFirst)
    cases rootOf.eq_of_opened branchWithin pickerWithin sideOf.opened isOpened
    exact ⟨rootOf.firstIn_of_head isFirst, Option.some.inj (own.symm.trans branches.own)⟩
  · rintro ⟨isFirst, rfl⟩
    have isRoot := rootOf.root_of_firstIn within adds isFirst branchWithin sideOf isInside belowSide
    exact (rootOf.faithful.around branchWithin).2.network.hasRoot (chosen id isRoot)

end RootOf

end NetBlueprint.Compile
