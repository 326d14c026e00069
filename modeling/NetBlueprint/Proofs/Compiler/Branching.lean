import NetBlueprint.Proofs.Compiler.Connections
import NetBlueprint.Proofs.Compiler.Drawing
import NetBlueprint.Proofs.Compiler.Housing

/-!
Contract: the outputs of a branch and the layer that chooses between branches.

A visit ends in the scope in which it starts. On its way it turns to the root scope, where a name is
compiled ahead, and a branch opens a scope for each of its sides. So whatever is compiled in the
scope of a side is compiled below its branch, the outputs of the scope are those that these visits
add, and the first of them is the root that the layer of the branch chooses.

Owns: the scopes in which visits stand, the outputs that they add, and the roots that they choose.
-/

namespace NetBlueprint

namespace Visit

/-- A visit declares a layer and adds it as an output in a scope. -/
structure AddsOutput (scope : ScopeId) (id : LayerId) (visit : Visit) : Prop where
  declares : ∃ spec, visit.instruction = .layer spec
  stands : visit.before.current = scope
  own : visit.ownLayer? = some id
  isOutput : visit.after.network.isOutputAt id = true

/-- An output is added in a scope by a visit or below it. -/
def AddsBelow (scope : ScopeId) (id : LayerId) (visit : Visit) : Prop :=
  ∃ lowest : Visit, lowest.Within visit ∧ lowest.AddsOutput scope id

/-- A visit opened a scope on its way, between the visits below it. -/
def Opened (scope : ScopeId) (visit : Visit) : Prop :=
  visit.Brings fun state => scope < state.scopes.size

/-- A visit is one of a branch, and the layer that it defines chooses the first output of a scope
that it opened. -/
structure Picks (chooser root : LayerId) (visit : Visit) : Prop where
  isBranch : visit.instruction.opcode = .branch
  own : visit.ownLayer? = some chooser
  first : ∃ scope, visit.Opened scope ∧ (visit.after.outputsIn scope).head? = some root

def PicksBelow (chooser root : LayerId) (visit : Visit) : Prop :=
  ∃ lowest : Visit, lowest.Within visit ∧ lowest.Picks chooser root

variable {visit : Visit} {scope : ScopeId} {id chooser root : LayerId}

private theorem addsBelow_iff :
    visit.AddsBelow scope id ↔
      visit.AddsOutput scope id ∨ ∃ below ∈ visit.inner, below.AddsBelow scope id := by
  constructor
  · rintro ⟨lowest, within, adds⟩
    cases within with
    | self => exact .inl adds
    | under member within => exact .inr ⟨_, member, lowest, within, adds⟩
  · rintro (adds | ⟨below, member, lowest, within, adds⟩)
    · exact ⟨visit, .self visit, adds⟩
    · exact ⟨lowest, .under member within, adds⟩

/-- Only a declaration adds an output by itself. -/
theorem addsBelow_iff_of_ne (notLayer : ∀ spec, visit.instruction ≠ .layer spec) :
    visit.AddsBelow scope id ↔ ∃ below ∈ visit.inner, below.AddsBelow scope id :=
  addsBelow_iff.trans (or_iff_right fun adds => by
    obtain ⟨spec, declares⟩ := adds.declares
    exact notLayer spec declares)

private theorem picksBelow_of_inner (picks : ∃ below ∈ visit.inner, below.PicksBelow chooser root) :
    visit.PicksBelow chooser root := by
  obtain ⟨below, member, lowest, within, picks⟩ := picks
  exact ⟨lowest, .under member within, picks⟩

end Visit

namespace Compile

open CompileState

/-- What some visits do to the outputs of scopes and to the roots that are chosen. -/
structure Gains (Adds : ScopeId → LayerId → Prop) (Picks : LayerId → LayerId → Prop)
    (before after : CompileState) : Prop where
  housed : after.Housed
  outputs : ∀ scope, ∃ added, after.outputsIn scope = before.outputsIn scope ++ added ∧
    ∀ id, id ∈ added ↔ Adds scope id
  roots : ∀ {chooser root}, after.network.HasRoot chooser root →
    before.network.HasRoot chooser root ∨ Picks chooser root

def Inside (state : CompileState) : Prop :=
  state.current < state.scopes.size

/-- Steps that leave outputs alone, visits, and visits of what is compiled ahead: the steps stay in
their scope, and what is compiled ahead is compiled in the root scope. -/
inductive Course : CompileState → List Visit → CompileState → Prop where
  | done (state : CompileState) : Course state [] state
  | step {before between after : CompileState} {inner : List Visit}
      (spares : before.Spares between) (stays : between.current = before.current)
      (rest : Course between inner after) : Course before inner after
  | visit {visit : Visit} {inner : List Visit} {after : CompileState}
      (rest : Course visit.after inner after) : Course visit.before (visit :: inner) after
  | turned {before between after : CompileState} {visit : Visit} {inner : List Visit}
      (turns : before.Spares visit.before) (toRoot : visit.before.current = 0)
      (returns : visit.after.Spares between) (back : between.current = before.current)
      (rest : Course between inner after) : Course before (visit :: inner) after

section Gaining

variable {First Second Adds : ScopeId → LayerId → Prop}
  {FirstPicks SecondPicks Picks : LayerId → LayerId → Prop} {before between after : CompileState}

private theorem Gains.of_spares (spares : before.Spares after) (housed : before.Housed)
    (nothing : ∀ scope id, ¬ Adds scope id) : Gains Adds Picks before after where
  housed := spares.housed housed
  outputs scope := ⟨[], by rw [spares.outputs housed, List.append_nil],
    fun id => iff_of_false List.not_mem_nil (nothing scope id)⟩
  roots chosen := .inl (spares.roots chosen)

/-- What two stretches of a run gain adds up. -/
theorem Gains.trans (earlier : Gains First FirstPicks before between)
    (later : Gains Second SecondPicks between after) :
    Gains (fun scope id => First scope id ∨ Second scope id)
      (fun chooser root => FirstPicks chooser root ∨ SecondPicks chooser root) before after where
  housed := later.housed
  outputs scope := by
    obtain ⟨first, firstAdded, firstIff⟩ := earlier.outputs scope
    obtain ⟨second, secondAdded, secondIff⟩ := later.outputs scope
    refine ⟨first ++ second, by rw [secondAdded, firstAdded, List.append_assoc], fun id => ?_⟩
    rw [List.mem_append, firstIff, secondIff]
  roots chosen := by
    rcases later.roots chosen with old | picks
    · exact (earlier.roots old).imp_right .inl
    · exact .inr (.inr picks)

theorem Gains.imp (gains : Gains First FirstPicks before after)
    (same : ∀ scope id, First scope id ↔ Adds scope id)
    (picks : ∀ chooser root, FirstPicks chooser root → Picks chooser root) :
    Gains Adds Picks before after where
  housed := gains.housed
  outputs scope := by
    obtain ⟨added, whole, isAdded⟩ := gains.outputs scope
    exact ⟨added, whole, fun id => (isAdded id).trans (same scope id)⟩
  roots chosen := (gains.roots chosen).imp_right (picks _ _)

/-- Steps that leave outputs alone may come before or after. -/
theorem Gains.after_spares (gains : Gains Adds Picks between after)
    (spares : before.Spares between) (housed : before.Housed) : Gains Adds Picks before after where
  housed := gains.housed
  outputs scope := by
    obtain ⟨added, whole, isAdded⟩ := gains.outputs scope
    exact ⟨added, by rw [whole, spares.outputs housed], isAdded⟩
  roots chosen := (gains.roots chosen).imp_left spares.roots

private theorem Gains.before_spares (gains : Gains Adds Picks before between)
    (spares : between.Spares after) : Gains Adds Picks before after where
  housed := spares.housed gains.housed
  outputs scope := by
    obtain ⟨added, whole, isAdded⟩ := gains.outputs scope
    exact ⟨added, by rw [spares.outputs gains.housed, whole], isAdded⟩
  roots chosen := gains.roots (spares.roots chosen)

end Gaining

def GainsOf (inner : List Visit) (before after : CompileState) : Prop :=
  Gains (fun scope id => ∃ visit ∈ inner, visit.AddsBelow scope id)
    (fun chooser root => ∃ visit ∈ inner, visit.PicksBelow chooser root) before after

structure Tracked (visit : Visit) : Prop where
  faithful : visit.Faithful
  stays : visit.after.current = visit.before.current
  gains : visit.before.Housed → Inside visit.before →
    Gains (fun scope id => visit.AddsBelow scope id)
      (fun chooser root => visit.PicksBelow chooser root) visit.before visit.after

section Courses

variable {before between after : CompileState} {inner first second : List Visit}

private theorem GainsOf.of_spares (spares : before.Spares after) (housed : before.Housed) :
    GainsOf [] before after :=
  Gains.of_spares spares housed fun _ _ ⟨_, member, _⟩ => List.not_mem_nil member

theorem GainsOf.cons {visit : Visit}
    (gains : Gains (fun scope id => visit.AddsBelow scope id)
      (fun chooser root => visit.PicksBelow chooser root) before between)
    (rest : GainsOf inner between after) : GainsOf (visit :: inner) before after :=
  (gains.trans rest).imp (fun _ _ => by simp) fun _ _ => by simp

/-- What visits gain one after the other adds up. -/
theorem GainsOf.append (earlier : GainsOf first before between)
    (later : GainsOf second between after) : GainsOf (first ++ second) before after :=
  (Gains.trans earlier later).imp (fun _ _ => by simp [or_and_right, exists_or])
    fun _ _ => by simp [or_and_right, exists_or]

/-- The root scope is always there. -/
theorem Inside.at_root (inside : Inside before) (grows : before.GrowsTo after)
    (atRoot : after.current = 0) : Inside after := by
  rw [Inside, atRoot]
  exact Nat.lt_of_lt_of_le (Nat.zero_lt_of_lt inside) grows.scopes_size_le

theorem Inside.of_stays (inside : Inside before) (grows : before.GrowsTo after)
    (stays : after.current = before.current) : Inside after := by
  rw [Inside, stays]
  exact Nat.lt_of_lt_of_le inside grows.scopes_size_le

theorem Course.append (earlier : Course before first between)
    (later : Course between second after) : Course before (first ++ second) after := by
  induction earlier with
  | done => exact later
  | step spares stays _ inductionHypothesis =>
      exact .step spares stays (inductionHypothesis later)
  | visit _ inductionHypothesis => exact .visit (inductionHypothesis later)
  | turned turns toRoot returns back _ inductionHypothesis =>
      exact .turned turns toRoot returns back (inductionHypothesis later)

private theorem Course.then_spares (earlier : Course before inner between)
    (spares : between.Spares after) (stays : after.current = between.current) :
    Course before inner after := by
  have whole := earlier.append (.step spares stays (.done after))
  rwa [List.append_nil] at whole

/-- A course ends in the scope in which it starts. -/
theorem Course.stays (course : Course before inner after)
    (tracked : ∀ visit ∈ inner, Tracked visit) : after.current = before.current := by
  induction course with
  | done => rfl
  | step _ stays _ inductionHypothesis => exact (inductionHypothesis tracked).trans stays
  | visit _ inductionHypothesis =>
      obtain ⟨head, tail⟩ := List.forall_mem_cons.1 tracked
      exact (inductionHypothesis tail).trans head.stays
  | turned _ _ _ back _ inductionHypothesis =>
      exact (inductionHypothesis (List.forall_mem_cons.1 tracked).2).trans back

/-- The visits of a course stand in its scope or in the root scope. -/
theorem Course.stands (course : Course before inner after)
    (tracked : ∀ visit ∈ inner, Tracked visit) {visit : Visit} (member : visit ∈ inner) :
    visit.before.current = before.current ∨ visit.before.current = 0 := by
  induction course with
  | done => cases member
  | step _ stays _ inductionHypothesis => exact stays ▸ inductionHypothesis tracked member
  | visit _ inductionHypothesis =>
      obtain ⟨head, tail⟩ := List.forall_mem_cons.1 tracked
      rcases List.mem_cons.1 member with rfl | later
      · exact .inl rfl
      · exact head.stays ▸ inductionHypothesis tail later
  | turned _ toRoot _ back _ inductionHypothesis =>
      rcases List.mem_cons.1 member with rfl | later
      · exact .inr toRoot
      · exact back ▸ inductionHypothesis (List.forall_mem_cons.1 tracked).2 later

/-- Every visit of a course stands in a scope that is there. -/
theorem Course.inside (course : Course before inner after)
    (tracked : ∀ visit ∈ inner, Tracked visit) (inside : Inside before) {visit : Visit}
    (member : visit ∈ inner) : Inside visit.before := by
  induction course with
  | done => cases member
  | step spares stays _ inductionHypothesis =>
      exact inductionHypothesis tracked (inside.of_stays spares.grows stays) member
  | visit _ inductionHypothesis =>
      obtain ⟨head, tail⟩ := List.forall_mem_cons.1 tracked
      rcases List.mem_cons.1 member with rfl | later
      · exact inside
      · exact inductionHypothesis tail (inside.of_stays head.faithful.grows head.stays) later
  | turned turns toRoot returns back _ inductionHypothesis =>
      obtain ⟨head, tail⟩ := List.forall_mem_cons.1 tracked
      rcases List.mem_cons.1 member with rfl | later
      · exact inside.at_root turns.grows toRoot
      · have grows := (turns.grows.trans head.faithful.grows).trans returns.grows
        exact inductionHypothesis tail (inside.of_stays grows back) later

/-- A course adds and picks what its visits do. -/
theorem Course.gains (course : Course before inner after)
    (tracked : ∀ visit ∈ inner, Tracked visit) (housed : before.Housed) (inside : Inside before) :
    GainsOf inner before after := by
  induction course with
  | done => exact .of_spares (.refl _) housed
  | step spares stays _ inductionHypothesis =>
      exact (inductionHypothesis tracked (spares.housed housed)
        (inside.of_stays spares.grows stays)).after_spares spares housed
  | visit _ inductionHypothesis =>
      obtain ⟨head, tail⟩ := List.forall_mem_cons.1 tracked
      have gains := head.gains housed inside
      exact .cons gains (inductionHypothesis tail gains.housed
        (inside.of_stays head.faithful.grows head.stays))
  | turned turns toRoot returns back _ inductionHypothesis =>
      obtain ⟨head, tail⟩ := List.forall_mem_cons.1 tracked
      have gains := ((head.gains (turns.housed housed) (inside.at_root turns.grows
        toRoot)).after_spares turns housed).before_spares returns
      have grows := (turns.grows.trans head.faithful.grows).trans returns.grows
      exact .cons gains (inductionHypothesis tail gains.housed (inside.of_stays grows back))

end Courses

/-! ## Constructs as courses -/

section Constructs

variable {before after : CompileState} {inner : List Visit} {instruction : Instruction}

/-- The visits of a body are a course. -/
theorem Sequence.course {Matches : Instruction → Visit → Prop} {body : List Instruction}
    (sequence : Sequence Matches body before inner after) : Course before inner after := by
  induction sequence with
  | done state => exact .done state
  | next _ _ inductionHypothesis => exact .visit inductionHypothesis

/-- The visits of a loop are a course. -/
theorem Rounds.course {counter : String} {body : List Instruction} {count : Nat} {value : Int}
    (rounds : Rounds counter body count value before inner after) : Course before inner after := by
  induction rounds with
  | done _ state => exact .done state
  | round filled _ inductionHypothesis => exact filled.course.append inductionHypothesis

/-- The visits of a module are a course. -/
theorem Children.course {start : Nat} {gathered all : List LayerId} {body : List Instruction}
    (children : Children start gathered body before inner all after) :
    Course before inner after := by
  induction children with
  | done => exact .done _
  | next gathers _ inductionHypothesis =>
      obtain ⟨_, rfl⟩ := runs_gather.1 gathers
      exact .visit inductionHypothesis

/-- What is compiled ahead is a course. -/
theorem Ahead.course {name : String} (ahead : Ahead name before inner after) :
    Course before inner after := by
  cases ahead.outcome with
  | skipped => exact .done _
  | turned started turns finished =>
      exact .turned (isQuiet_startAhead _ _ _ _ started).spares turns.current
        (isQuiet_finishAhead _ _ _ _ _ finished).spares (runs_finishAhead finished).2 (.done _)

/-- What an endpoint is compiled ahead for is a course. -/
theorem Ensured.course {scope : ScopeId} {endpoint : String}
    (ensured : Ensured scope endpoint before inner after) : Course before inner after := by
  rcases ensured.cases with ⟨_, rfl, rfl⟩ | ⟨_, ahead⟩
  · exact .done _
  · exact ahead.course

/-- Everything but a declaration or a branch is a course. -/
theorem Unfolds.course (unfolds : Unfolds instruction before inner after) (grow : AllGrow inner)
    (notLayer : ∀ spec, instruction ≠ .layer spec) (notBranch : instruction.opcode ≠ .branch) :
    Course before inner after := by
  cases unfolds with
  | layer => exact absurd rfl (notLayer _)
  | branch => exact absurd rfl notBranch
  | program sequence => exact sequence.course
  | block sequence => exact sequence.course
  | connect starts sourceEnsured targetEnsured finishes =>
      exact .step (spares_of_startConnect starts)
        (keeps_startConnect steady_current _ _ _ _ _ starts)
        ((sourceEnsured.course.append targetEnsured.course).then_spares
          (spares_of_finishConnect finishes)
          (keeps_finishConnect steady_current _ _ _ _ _ _ finishes))
  | moduleTaken takes logs =>
      exact .step (isQuiet_takeAhead _ _ _ _ _ takes).spares
        (keepsScope_takeAhead _ _ _ _ _ takes)
        (.step (isQuiet_log _ _ _ _ logs).spares (keeps_log steady_current _ _ _ _ logs) (.done _))
  | moduleDef takes logs children finishes =>
      have accounted := children.accounted grow (Nat.le_refl _)
        ⟨List.nodup_nil, fun _ => (absurd · List.not_mem_nil)⟩
      have accepted : Network.Accepts _ (.composite _) :=
        ⟨fun _ => (absurd · List.not_mem_nil), accounted.nodup, accounted.inRange, rfl, trivial⟩
      exact .step (isQuiet_takeAhead _ _ _ _ _ takes).spares
        (keepsScope_takeAhead _ _ _ _ _ takes)
        (.step (isQuiet_log _ _ _ _ logs).spares (keeps_log steady_current _ _ _ _ logs)
          (children.course.then_spares (spares_of_finishModule accepted finishes)
            (keeps_finishModule steady_current _ _ _ _ _ finishes)))
  | loop opens rounds =>
      exact .step (isQuiet_loopRange _ _ _ _ _ _ _ opens).spares
        (keeps_loopRange steady_current _ _ _ _ _ _ _ opens) rounds.course
  | templateDef ran =>
      exact .step (isQuiet_templateDef _ _ _ _ _ _ ran).spares
        (keeps_templateDef fixed_current _ _ _ _ _ _ ran) (.done _)
  | templateCall opens filled =>
      exact .step (runs_openTemplate opens).1.quiet.spares
        (keeps_openTemplate fixed_current _ _ _ _ _ opens) filled.course
  | call opens filled =>
      exact .step (runs_openTemplate opens).1.quiet.spares
        (keeps_openTemplate fixed_current _ _ _ _ _ opens) filled.course
  | expand opens sequence =>
      exact .step (isQuiet_startExpand _ _ _ _ _ _ opens).spares
        (keeps_startExpand steady_current _ _ _ _ _ _ opens) sequence.course

/-- A side of a branch that was compiled: in a new scope, whose first output is its root. -/
structure Sided (scope : ScopeId) (side : List Visit) (root : Option LayerId)
    (start left : CompileState) : Prop where
  course : Course start side left
  trail : Trail start side left
  stands : start.current = scope
  size : start.scopes.size = scope + 1
  empty : start.outputsIn scope = []
  root : root = (left.outputsIn scope).head?

/-- A side of a branch is empty and has no root, or it is compiled. -/
theorem Rooted.cases {label : String} {body : List Instruction} {root : Option LayerId}
    (rooted : Rooted label body before inner root after) :
    (inner = [] ∧ root = none ∧ after = before) ∨
      ∃ start left, Sided before.scopes.size inner root start left ∧ before.Spares start ∧
        left.Quiet after ∧ start.parent? before.scopes.size = some before.current := by
  cases rooted with
  | absent => exact .inl ⟨rfl, rfl, rfl⟩
  | @compiled start finish _ _ _ _ entered filled left =>
      obtain ⟨isScope, current, size⟩ := scope_of_enterBranch entered
      obtain ⟨quiet, same⟩ := runs_leaveBranch left
      have spares := spares_of_enterBranch entered
      rw [isScope] at current size same
      refine .inr ⟨start, finish, ⟨filled.course, filled.trail, current, size, ?_, ?_⟩, spares,
        quiet, parent_of_enterBranch entered⟩
      · obtain ⟨_, drawn, _, draws, _, _, rfl⟩ := runs_enterBranch entered
        rw [outputsIn_entered]
        have quiet := (draws_of_freshSuffix draws).quiet
        exact outputsIn_of_size_le (Nat.le_of_eq (congrArg Array.size quiet.scopes))
      · rw [same, firstOutput_eq, quiet.outputsIn]

/-- A branch is left in the scope in which it was entered. -/
theorem Rooted.stays {label : String} {body : List Instruction} {root : Option LayerId}
    (rooted : Rooted label body before inner root after) : after.current = before.current := by
  cases rooted with
  | absent => rfl
  | compiled entered _ left =>
      exact (current_of_leaveBranch left).trans (outer_of_enterBranch entered)

theorem Sided.inside {scope : ScopeId} {root : Option LayerId} {start left : CompileState}
    (sided : Sided scope inner root start left) : Inside start := by
  rw [Inside, sided.stands, sided.size]
  exact Nat.lt_succ_self scope

/-- A side of a branch adds and picks what its visits do. -/
theorem Rooted.gains {label : String} {body : List Instruction} {root : Option LayerId}
    (rooted : Rooted label body before inner root after)
    (tracked : ∀ visit ∈ inner, Tracked visit) (housed : before.Housed) :
    GainsOf inner before after := by
  rcases rooted.cases with ⟨rfl, _, rfl⟩ | ⟨start, left, sided, spares, quiet, _⟩
  · exact .of_spares (.refl _) housed
  · exact ((sided.course.gains tracked (spares.housed housed) sided.inside).after_spares spares
      housed).before_spares quiet.spares

end Constructs

/-! ## Branches -/

/-- A side of the branch of a visit, and the root that is chosen of it. -/
structure SideOf (visit : Visit) (scope : ScopeId) (side : List Visit) (root : Option LayerId)
    (start left : CompileState) : Prop where
  sided : Sided scope side root start left
  part : side ⊆ visit.inner
  opened : visit.Opened scope
  parent : start.parent? scope = some visit.before.current
  housed : visit.before.Housed → start.Housed
  ends : left.GrowsTo visit.after

/-- A visit of a branch: the visits of its sides come first, and then a layer is added that chooses
between the roots of these. -/
structure Branches (visit : Visit) (chooser : LayerId) : Prop where
  isBranch : visit.instruction.opcode = .branch
  own : visit.ownLayer? = some chooser
  stays : visit.after.current = visit.before.current
  gains : visit.before.Housed → Gains
    (fun scope id => ∃ below ∈ visit.inner, below.AddsBelow scope id)
    (fun other root => (∃ below ∈ visit.inner, below.PicksBelow other root) ∨
      other = chooser ∧ ∃ scope side start left, SideOf visit scope side (some root) start left)
    visit.before visit.after
  sides : ∀ below ∈ visit.inner, ∃ scope side root start left,
    SideOf visit scope side root start left ∧ below ∈ side ∧
      ∀ id, root = some id → visit.after.network.HasRoot chooser id

/-- A layer that is no output adds none, and has its own roots. -/
theorem gains_withLayer {state : CompileState} (housed : state.Housed) (name : String)
    {kind : LayerKind} (accepted : state.network.Accepts kind) (noOutput : kind.isOutput = false) :
    Gains (fun _ _ => False) (fun chooser root => chooser = state.network.size ∧ root ∈ kind.roots)
      state (state.withLayer name kind) where
  housed := housed.withLayer name accepted
  outputs scope := by
    refine ⟨[], ?_, fun _ => iff_of_false List.not_mem_nil id⟩
    rw [outputsIn_withLayer housed.sound, if_neg]
    rintro ⟨_, _, isOutput⟩
    rw [noOutput] at isOutput
    cases isOutput
  roots chosen := Network.hasRoot_addLayer chosen

/-- Both sides of a branch are sides of its visit. -/
theorem sides_of_rooted {visit : Visit} {label : String} {body : List Instruction}
    {root : Option LayerId} {start finish : CompileState} {early side late : List Visit}
    (grow : AllGrow visit.inner) (parts : visit.inner = early ++ (side ++ late))
    (earlier : Trail visit.before early start) (stays : start.current = visit.before.current)
    (housed : visit.before.Housed → start.Housed)
    (rooted : Rooted label body start side root finish)
    (later : Trail finish late after) (ends : after.GrowsTo visit.after) :
    (side = [] ∧ root = none) ∨ ∃ entered left,
      SideOf visit start.scopes.size side root entered left := by
  rcases rooted.cases with ⟨nothing, none, _⟩ | ⟨entered, left, sided, spares, quiet, parent⟩
  · exact .inl ⟨nothing, none⟩
  · have rest := (sided.trail.then_leadsTo quiet.leadsTo).append later
    have present : start.scopes.size < entered.scopes.size := by
      rw [sided.size]
      exact Nat.lt_succ_self _
    have opened : visit.Opened start.scopes.size :=
      brings_of_trails (fun grows has => Nat.lt_of_lt_of_le has grows.scopes_size_le) grow parts
        earlier (Nat.lt_irrefl _) present rest ends
    have part : side ⊆ visit.inner := by
      rw [parts]
      exact List.subset_append_of_subset_right _ (List.subset_append_left _ _)
    have lateGrow : AllGrow late := fun below member =>
      grow below (by rw [parts]; exact List.mem_append_right _ (List.mem_append_right _ member))
    exact .inr ⟨entered, left, sided, part, opened, stays ▸ parent,
      fun outer => spares.housed (housed outer),
      (quiet.grows.trans (later.grows lateGrow)).trans ends⟩

/-- How a branch was compiled: what it was read as, the visits and the roots of its two sides, and
the states before, between and behind these. -/
structure BranchRun where
  plan : BranchPlan
  first : List Visit
  second : List Visit
  thenRoot : Option LayerId
  elseRoot : Option LayerId
  start : CompileState
  between : CompileState
  finish : CompileState

/-- A visit of a branch reads it, compiles one side after the other, and then adds the layer that
chooses between the roots of these. -/
structure BranchRun.Of (run : BranchRun) (visit : Visit) (name : Option String)
    (test : Instruction) (body alternative : List Instruction) : Prop where
  isBranch : visit.instruction = .branch name test body alternative
  parts : visit.inner = run.first ++ run.second
  tracked : ∀ below ∈ visit.inner, Tracked below
  plans : Runs (planBranch name test body alternative) visit.before run.plan run.start
  thenRooted : Rooted "then" run.plan.first run.start run.first run.thenRoot run.between
  elseRooted : Rooted "else" run.plan.second run.between run.second run.elseRoot run.finish
  finishes : Runs (finishBranch run.plan run.thenRoot run.elseRoot) run.finish () visit.after

private theorem exists_branchRun_of_tracked {visit : Visit} {name : Option String}
    {test : Instruction}
    {body alternative : List Instruction} (faithful : visit.Faithful)
    (tracked : ∀ below ∈ visit.inner, Tracked below)
    (isBranch : visit.instruction = .branch name test body alternative) :
    ∃ run : BranchRun, run.Of visit name test body alternative := by
  have unfolds := faithful.unfolds
  obtain ⟨instruction, before, after, inner⟩ := visit
  cases isBranch
  cases unfolds with
  | branch plans thenRooted elseRooted finishes =>
      exact ⟨⟨_, _, _, _, _, _, _, _⟩, rfl, rfl, tracked, plans, thenRooted, elseRooted, finishes⟩

namespace BranchRun.Of

variable {run : BranchRun} {visit : Visit} {name : Option String} {test : Instruction}
  {body alternative : List Instruction}

section Facts

variable (runOf : run.Of visit name test body alternative)

include runOf

theorem quiet : visit.before.Quiet run.start :=
  (runs_planBranch runOf.plans).1

theorem tested : conditionOf test = .ok (run.plan.text, run.plan.condition) :=
  (runs_planBranch runOf.plans).2.1

theorem split : (run.plan.first, run.plan.second) = splitBody body alternative :=
  (runs_planBranch runOf.plans).2.2.2

theorem stays : run.start.current = visit.before.current :=
  keeps_planBranch steady_current _ _ _ _ _ _ _ runOf.plans

theorem firstTracked : ∀ below ∈ run.first, Tracked below := fun below member =>
  runOf.tracked below (runOf.parts ▸ List.mem_append_left _ member)

theorem secondTracked : ∀ below ∈ run.second, Tracked below := fun below member =>
  runOf.tracked below (runOf.parts ▸ List.mem_append_right _ member)

theorem allGrow : AllGrow visit.inner :=
  fun below member => (runOf.tracked below member).faithful.grows

theorem firstGrow : AllGrow run.first :=
  fun below member => (runOf.firstTracked below member).faithful.grows

private theorem secondGrow : AllGrow run.second :=
  fun below member => (runOf.secondTracked below member).faithful.grows

theorem chooses : Chooses run.finish run.plan
    (.conditional run.plan.text run.thenRoot run.elseRoot) visit.after :=
  chooses_of_rooted runOf.tested runOf.thenRooted runOf.elseRooted runOf.finishes runOf.secondGrow

/-- The visits of both sides lead up to the layer that chooses. -/
theorem trail : Trail visit.before visit.inner run.finish :=
  runOf.parts ▸ .step runOf.quiet.leadsTo (runOf.thenRooted.trail.append runOf.elseRooted.trail)

/-- The layer that chooses is the one that the visit defines. -/
theorem exists_ownLayer :
    visit.ownLayer? = some run.finish.network.size ∧
      ∃ layer, visit.after.network.layer? run.finish.network.size = some layer ∧
        layer.name = run.plan.layerName ∧
        layer.kind = .conditional run.plan.text run.thenRoot run.elseRoot := by
  obtain ⟨own, layer, found, node⟩ :=
    Visit.ownLayer?_of_nodes (runOf.trail.grows runOf.allGrow) runOf.chooses.nodes
  exact ⟨own, layer, found, congrArg Layer.name node, congrArg Layer.kind node⟩

private theorem gains_first (housed : visit.before.Housed) :
    GainsOf run.first visit.before run.between :=
  (runOf.thenRooted.gains runOf.firstTracked (runOf.quiet.spares.housed housed)).after_spares
    runOf.quiet.spares housed

private theorem gains_both (housed : visit.before.Housed) :
    GainsOf visit.inner visit.before run.finish :=
  have first := runOf.gains_first housed
  runOf.parts ▸ first.append (runOf.elseRooted.gains runOf.secondTracked first.housed)

theorem thenSide : (run.first = [] ∧ run.thenRoot = none) ∨ ∃ entered left,
    SideOf visit run.start.scopes.size run.first run.thenRoot entered left :=
  have parts : visit.inner = [] ++ (run.first ++ run.second) := runOf.parts
  sides_of_rooted runOf.allGrow parts (.of_leadsTo runOf.quiet.leadsTo) runOf.stays
    runOf.quiet.spares.housed runOf.thenRooted runOf.elseRooted.trail runOf.chooses.grows

theorem elseSide : (run.second = [] ∧ run.elseRoot = none) ∨ ∃ entered left,
    SideOf visit run.between.scopes.size run.second run.elseRoot entered left :=
  have parts : visit.inner = run.first ++ (run.second ++ []) := by
    rw [runOf.parts, List.append_nil]
  sides_of_rooted runOf.allGrow parts (.step runOf.quiet.leadsTo runOf.thenRooted.trail)
    (runOf.thenRooted.stays.trans runOf.stays) (fun housed => (runOf.gains_first housed).housed)
    runOf.elseRooted (.done _) runOf.chooses.grows

end Facts

/-- The sides of a branch and the layer that chooses between them. -/
theorem branches (runOf : run.Of visit name test body alternative) :
    Branches visit run.finish.network.size := by
  obtain ⟨own, layer, found, _, kind⟩ := runOf.exists_ownLayer
  have chosen {root : LayerId} (isRoot : run.thenRoot = some root ∨ run.elseRoot = some root) :
      visit.after.network.HasRoot run.finish.network.size root := by
    refine ⟨layer, found, ?_⟩
    rw [kind]
    rcases isRoot with isRoot | isRoot <;> simp [LayerKind.roots, isRoot]
  refine ⟨congrArg Instruction.opcode runOf.isBranch, own, ?_, fun housed => ?_,
    fun below member => ?_⟩
  · exact (keeps_finishBranch steady_current _ _ _ _ _ _ runOf.finishes).trans
      (runOf.elseRooted.stays.trans (runOf.thenRooted.stays.trans runOf.stays))
  · have gains := runOf.gains_both housed
    have accepted :=
      accepts_of_rooted runOf.tested runOf.thenRooted runOf.elseRooted runOf.secondGrow
    have last := (gains_withLayer gains.housed run.plan.layerName accepted rfl).before_spares
      (spares_of_finishBranch runOf.finishes)
    refine (Gains.trans gains last).imp (fun _ _ => or_iff_left id) ?_
    rintro other root (below | ⟨same, isRoot⟩)
    · exact .inl below
    refine .inr ⟨same, ?_⟩
    rcases List.mem_append.1 isRoot with isThen | isElse
    · rcases runOf.thenSide with ⟨_, none⟩ | ⟨entered, left, side⟩
      · rw [none] at isThen
        cases isThen
      · exact ⟨_, _, _, _, Option.mem_toList.1 isThen ▸ side⟩
    · rcases runOf.elseSide with ⟨_, none⟩ | ⟨entered, left, side⟩
      · rw [none] at isElse
        cases isElse
      · exact ⟨_, _, _, _, Option.mem_toList.1 isElse ▸ side⟩
  · rw [runOf.parts] at member
    rcases List.mem_append.1 member with isFirst | isSecond
    · rcases runOf.thenSide with ⟨nothing, _⟩ | ⟨entered, left, side⟩
      · rw [nothing] at isFirst
        cases isFirst
      · exact ⟨_, _, _, _, _, side, isFirst, fun id isRoot => chosen (.inl isRoot)⟩
    · rcases runOf.elseSide with ⟨nothing, _⟩ | ⟨entered, left, side⟩
      · rw [nothing] at isSecond
        cases isSecond
      · exact ⟨_, _, _, _, _, side, isSecond, fun id isRoot => chosen (.inr isRoot)⟩

end BranchRun.Of

/-- What a branch adds and picks. -/
theorem branches_of_faithful {visit : Visit} (faithful : visit.Faithful)
    (isBranch : visit.instruction.opcode = .branch)
    (tracked : ∀ below ∈ visit.inner, Tracked below) : ∃ chooser, Branches visit chooser := by
  cases instruction : visit.instruction with
  | branch name test body alternative =>
      obtain ⟨_, runOf⟩ := exists_branchRun_of_tracked faithful tracked instruction
      exact ⟨_, runOf.branches⟩
  | _ =>
      rw [instruction] at isBranch
      cases isBranch

/-- The root of a side stays the first output of its scope. -/
theorem SideOf.head_after {visit : Visit} {scope : ScopeId} {side : List Visit} {root : LayerId}
    {start left : CompileState} (sideOf : SideOf visit scope side (some root) start left)
    (sound : left.Sound) : (visit.after.outputsIn scope).head? = some root := by
  obtain ⟨more, whole⟩ := sideOf.ends.outputsIn sound scope
  rw [← whole, List.head?_append, ← sideOf.sided.root, Option.some_or]

/-- The visit of a branch picks the roots of its sides. -/
theorem Branches.tracked {visit : Visit} {chooser : LayerId} (branches : Branches visit chooser)
    (faithful : visit.Faithful) (tracked : ∀ below ∈ visit.inner, Tracked below) :
    Tracked visit where
  faithful := faithful
  stays := branches.stays
  gains housed inside := by
    have notLayer (spec : LayerSpec) : visit.instruction ≠ .layer spec := by
      intro declares
      have isBranch := branches.isBranch
      rw [declares] at isBranch
      cases isBranch
    refine (branches.gains housed).imp (fun _ _ => (Visit.addsBelow_iff_of_ne notLayer).symm) ?_
    rintro other root (below | ⟨rfl, scope, side, start, left, sideOf⟩)
    · exact Visit.picksBelow_of_inner below
    · have sound : left.Sound := sideOf.sided.trail.sound
        (fun below member => (tracked below (sideOf.part member)).faithful.sound)
        (sideOf.housed housed).sound
      exact ⟨visit, .self visit, branches.isBranch, branches.own, scope, sideOf.opened,
        sideOf.head_after sound⟩

/-- Nothing is visited below a declaration. -/
theorem runs_of_layer {visit : Visit} (faithful : visit.Faithful) {spec : LayerSpec}
    (declares : visit.instruction = .layer spec) :
    visit.inner = [] ∧ Runs (layer spec) visit.before () visit.after := by
  have unfolds := faithful.unfolds
  obtain ⟨instruction, before, after, inner⟩ := visit
  cases declares
  cases unfolds with
  | layer ran => exact ⟨rfl, ran⟩

/-- What a declaration adds that adds a layer. -/
theorem addsOutput_iff {visit : Visit} {spec : LayerSpec} {kind : LayerKind} {scope : ScopeId}
    {id : LayerId} (declares : visit.instruction = .layer spec) (inside : Inside visit.before)
    (quiet : (visit.before.withLayer spec.name kind).Quiet visit.after) :
    visit.AddsOutput scope id ↔
      id ∈ if scope = visit.before.current ∧ scope < visit.before.scopes.size ∧
        kind.isOutput = true then [visit.before.network.size] else [] := by
  obtain ⟨isOwn, layer, found, node⟩ := Visit.ownLayer?_of_nodes (.refl visit.before)
    (quiet.nodes.trans (visit.before.nodes_withLayer spec.name kind))
  have sameKind : layer.kind = kind := congrArg Layer.kind node
  have isOutput : visit.after.network.isOutputAt visit.before.network.size = kind.isOutput := by
    rw [Network.isOutputAt, found, Option.any_some, sameKind]
  constructor
  · intro adds
    cases isOwn.symm.trans adds.own
    have here := adds.stands
    rw [if_pos ⟨here.symm, here ▸ inside, isOutput.symm.trans adds.isOutput⟩]
    exact List.mem_singleton_self _
  · intro member
    split at member
    · rename_i here
      cases List.mem_singleton.1 member
      exact ⟨⟨spec, declares⟩, here.1.symm, isOwn, isOutput.trans here.2.2⟩
    · cases member

/-- A declaration adds at most its own layer, and picks nothing. -/
theorem tracked_of_layer {visit : Visit} (faithful : visit.Faithful) {spec : LayerSpec}
    (declares : visit.instruction = .layer spec) : Tracked visit := by
  obtain ⟨nothing, ran⟩ := runs_of_layer faithful declares
  have own (scope : ScopeId) (id : LayerId) :
      visit.AddsBelow scope id ↔ visit.AddsOutput scope id := by
    rw [Visit.addsBelow_iff, nothing]
    exact or_iff_left fun ⟨_, member, _⟩ => List.not_mem_nil member
  refine ⟨faithful, keepsScope_layer _ _ _ _ ran, fun housed inside => ?_⟩
  rcases layer_cases ran with ⟨spares, nodes⟩ | ⟨kind, leaf, quiet⟩
  · refine .of_spares spares housed fun scope id adds => ?_
    have isOwn := ((own scope id).1 adds).own
    rw [Visit.ownLayer?_eq_none nodes] at isOwn
    cases isOwn
  · have accepted := Network.accepts_of_isLeaf leaf visit.before.network
    have outputs (scope : ScopeId) :=
      (quiet.outputsIn scope).trans (outputsIn_withLayer housed.sound spec.name kind scope)
    refine ⟨quiet.spares.housed (housed.withLayer spec.name accepted),
      fun scope => ⟨_, outputs scope, fun id => ?_⟩, fun {chooser root} chosen => ?_⟩
    · exact ((own scope id).trans (addsOutput_iff declares inside quiet)).symm
    · refine (Network.hasRoot_addLayer (quiet.spares.roots chosen)).imp_right fun ⟨_, isRoot⟩ => ?_
      rw [leaf.roots] at isRoot
      cases isRoot

/-- An output that is added stands among those of its scope. -/
theorem mem_outputsIn_of_addsOutput {visit : Visit} {scope : ScopeId} {id : LayerId}
    (faithful : visit.Faithful) (sound : visit.before.Sound) (inside : Inside visit.before)
    (adds : visit.AddsOutput scope id) : id ∈ visit.after.outputsIn scope := by
  obtain ⟨spec, declares⟩ := adds.declares
  rcases layer_cases (runs_of_layer faithful declares).2 with ⟨_, nodes⟩ | ⟨kind, _, quiet⟩
  · have isOwn := adds.own
    rw [Visit.ownLayer?_eq_none nodes] at isOwn
    cases isOwn
  · rw [quiet.outputsIn, outputsIn_withLayer sound]
    exact List.mem_append_right _ ((addsOutput_iff declares inside quiet).1 adds)

/-- What every visit adds and picks. -/
theorem tracked_of_faithful {visit : Visit} (faithful : visit.Faithful) : Tracked visit := by
  induction faithful with
  | @intro visit unfolds inner inductionHypothesis =>
      have faithful : visit.Faithful := .intro unfolds inner
      by_cases isBranch : visit.instruction.opcode = .branch
      · obtain ⟨_, branches⟩ := branches_of_faithful faithful isBranch inductionHypothesis
        exact branches.tracked faithful inductionHypothesis
      by_cases isLayer : ∃ spec, visit.instruction = .layer spec
      · obtain ⟨spec, declares⟩ := isLayer
        exact tracked_of_layer faithful declares
      have notLayer (spec : LayerSpec) : visit.instruction ≠ .layer spec :=
        fun declares => isLayer ⟨spec, declares⟩
      have course := unfolds.course faithful.allGrow notLayer isBranch
      exact ⟨faithful, course.stays inductionHypothesis, fun housed inside =>
        (course.gains inductionHypothesis housed inside).imp
          (fun _ _ => (Visit.addsBelow_iff_of_ne notLayer).symm)
          fun _ _ => Visit.picksBelow_of_inner⟩

/-- Every visit of a branch reads it, compiles its two sides and adds the layer that chooses. -/
theorem exists_branchRun {visit : Visit} {name : Option String} {test : Instruction}
    {body alternative : List Instruction} (faithful : visit.Faithful)
    (isBranch : visit.instruction = .branch name test body alternative) :
    ∃ run : BranchRun, run.Of visit name test body alternative :=
  exists_branchRun_of_tracked faithful
    (fun _ member => tracked_of_faithful (faithful.ofInner member)) isBranch

/-! ## The branch of a scope -/

/-- A visit stands in the scope of the one that it is below, in the root scope, or in the scope of
a side that it is below. -/
theorem scope_of_within {inner outer : Visit} (faithful : outer.Faithful)
    (within : inner.Within outer) :
    inner.before.current = outer.before.current ∨ inner.before.current = 0 ∨
      ∃ branch chooser below side root start left, branch.Within outer ∧ Branches branch chooser ∧
        SideOf branch inner.before.current side root start left ∧ below ∈ side ∧
        inner.Within below ∧ ∀ id, root = some id → branch.after.network.HasRoot chooser id := by
  induction within with
  | self => exact .inl rfl
  | @under below outer member within inductionHypothesis =>
      have tracked : ∀ below ∈ outer.inner, Tracked below :=
        fun below member => tracked_of_faithful (faithful.ofInner member)
      rcases inductionHypothesis (faithful.ofInner member) with same | atRoot |
        ⟨branch, chooser, lower, side, root, start, left, branchWithin, rest⟩
      · by_cases isBranch : outer.instruction.opcode = .branch
        · obtain ⟨chooser, branches⟩ := branches_of_faithful faithful isBranch tracked
          obtain ⟨scope, side, root, start, left, sideOf, isInside, chosen⟩ :=
            branches.sides below member
          rcases sideOf.sided.course.stands (fun visit part => tracked visit (sideOf.part part))
            isInside with stands | atRoot
          · rw [sideOf.sided.stands] at stands
            rw [← same.trans stands] at sideOf
            exact .inr (.inr ⟨outer, chooser, below, side, root, start, left, .self outer, branches,
              sideOf, isInside, within, chosen⟩)
          · exact .inr (.inl (same.trans atRoot))
        · have notLayer (spec : LayerSpec) : outer.instruction ≠ .layer spec := by
            intro declares
            rw [(runs_of_layer faithful declares).1] at member
            cases member
          have course := faithful.unfolds.course faithful.allGrow notLayer isBranch
          rcases course.stands tracked member with stands | atRoot
          · exact .inl (same.trans stands)
          · exact .inr (.inl (same.trans atRoot))
      · exact .inr (.inl atRoot)
      · exact .inr (.inr ⟨branch, chooser, lower, side, root, start, left,
          .under member branchWithin, rest⟩)

end Compile

end NetBlueprint
