import NetBlueprint.Proofs.Compiler.Materializing
import NetBlueprint.Proofs.Compiler.Unfolding

/-!
Contract: every visit of a compilation as a trail of steps and visits below it.

A trail alternates steps that neither record connections nor add edges with visits of inner
instructions. Apart from the last step of a connection or a branch, every instruction is such a
trail, so what holds of a whole run follows by induction on the tree of visits.

Owns: trails, what a visit does last, growth and soundness over a whole run, and the order and the
positions of visits.
-/

namespace NetBlueprint

namespace Compile

/-- Steps and visits that lead from one state to another. -/
inductive Trail : CompileState → List Visit → CompileState → Prop where
  | done (state : CompileState) : Trail state [] state
  | step {before between after : CompileState} {inner : List Visit}
      (leads : before.LeadsTo between) (rest : Trail between inner after) :
      Trail before inner after
  | visit {visit : Visit} {inner : List Visit} {after : CompileState}
      (rest : Trail visit.after inner after) : Trail visit.before (visit :: inner) after

def AllGrow (visits : List Visit) : Prop :=
  ∀ visit ∈ visits, visit.before.GrowsTo visit.after

section Trails

variable {before between after : CompileState} {inner first second : List Visit}

theorem Trail.of_leadsTo (leads : before.LeadsTo after) : Trail before [] after :=
  .step leads (.done after)

/-- One trail goes on with another. -/
theorem Trail.append (earlier : Trail before first between) (later : Trail between second after) :
    Trail before (first ++ second) after := by
  induction earlier with
  | done => exact later
  | step leads _ inductionHypothesis => exact .step leads (inductionHypothesis later)
  | visit _ inductionHypothesis => exact .visit (inductionHypothesis later)

theorem Trail.then_leadsTo (earlier : Trail before inner between) (leads : between.LeadsTo after) :
    Trail before inner after := by
  have whole := earlier.append (.of_leadsTo leads)
  rwa [List.append_nil] at whole

/-- A trail leads to a later stage. -/
theorem Trail.grows (trail : Trail before inner after) (grow : AllGrow inner) :
    before.GrowsTo after := by
  induction trail with
  | done => exact .refl _
  | step leads _ inductionHypothesis => exact leads.grows.trans (inductionHypothesis grow)
  | visit _ inductionHypothesis =>
      exact (grow _ List.mem_cons_self).trans
        (inductionHypothesis fun visit member => grow visit (List.mem_cons_of_mem _ member))

/-- A trail keeps a state sound, if its visits do. -/
theorem Trail.sound (trail : Trail before inner after)
    (each : ∀ visit ∈ inner, visit.before.Sound → visit.after.Sound) (sound : before.Sound) :
    after.Sound := by
  induction trail with
  | done => exact sound
  | step leads _ inductionHypothesis => exact inductionHypothesis each (leads.sound sound)
  | visit _ inductionHypothesis =>
      exact inductionHypothesis (fun visit member => each visit (List.mem_cons_of_mem _ member))
        (each _ List.mem_cons_self sound)

/-- A visit on a trail starts in a sound state. -/
theorem Trail.sound_before (trail : Trail before inner after)
    (each : ∀ visit ∈ inner, visit.before.Sound → visit.after.Sound) (sound : before.Sound)
    {visit : Visit} (member : visit ∈ inner) : visit.before.Sound := by
  induction trail with
  | done => cases member
  | step leads _ inductionHypothesis => exact inductionHypothesis each (leads.sound sound) member
  | visit _ inductionHypothesis =>
      rcases List.mem_cons.1 member with rfl | later
      · exact sound
      · exact inductionHypothesis (fun visit member => each visit (List.mem_cons_of_mem _ member))
          (each _ List.mem_cons_self sound) later

/-- A visit on a trail stands between its ends. -/
theorem Trail.around (trail : Trail before inner after) (grow : AllGrow inner) {visit : Visit}
    (member : visit ∈ inner) :
    before.GrowsTo visit.before ∧ visit.after.GrowsTo after := by
  induction trail with
  | done => cases member
  | step leads _ inductionHypothesis =>
      obtain ⟨start, finish⟩ := inductionHypothesis grow member
      exact ⟨leads.grows.trans start, finish⟩
  | visit rest inductionHypothesis =>
      have restGrow : AllGrow _ := fun visit member => grow visit (List.mem_cons_of_mem _ member)
      rcases List.mem_cons.1 member with rfl | later
      · exact ⟨.refl _, rest.grows restGrow⟩
      · obtain ⟨start, finish⟩ := inductionHypothesis restGrow later
        exact ⟨(grow _ List.mem_cons_self).trans start, finish⟩

/-- Of two visits on a trail one comes first, unless they are the same. -/
theorem Trail.ordered (trail : Trail before inner after) (grow : AllGrow inner)
    {one other : Visit} (oneMember : one ∈ inner) (otherMember : other ∈ inner) :
    one = other ∨ one.after.GrowsTo other.before ∨ other.after.GrowsTo one.before := by
  induction trail with
  | done => cases oneMember
  | step _ _ inductionHypothesis => exact inductionHypothesis grow oneMember otherMember
  | visit rest inductionHypothesis =>
      have restGrow : AllGrow _ := fun visit member => grow visit (List.mem_cons_of_mem _ member)
      rcases List.mem_cons.1 oneMember with rfl | oneLater
      · rcases List.mem_cons.1 otherMember with rfl | otherLater
        · exact .inl rfl
        · exact .inr (.inl (rest.around restGrow otherLater).1)
      · rcases List.mem_cons.1 otherMember with rfl | otherLater
        · exact .inr (.inr (rest.around restGrow oneLater).1)
        · exact inductionHypothesis restGrow oneLater otherLater

end Trails

/-! ## Constructs as trails -/

section Constructs

variable {before after : CompileState} {inner : List Visit}

/-- The visits of a body are a trail. -/
theorem Sequence.trail {Matches : Instruction → Visit → Prop} {body : List Instruction}
    (sequence : Sequence Matches body before inner after) : Trail before inner after := by
  induction sequence with
  | done state => exact .done state
  | next _ _ inductionHypothesis => exact .visit inductionHypothesis

theorem Rounds.trail {counter : String} {body : List Instruction} {count : Nat} {value : Int}
    (rounds : Rounds counter body count value before inner after) : Trail before inner after := by
  induction rounds with
  | done _ state => exact .done state
  | round filled _ inductionHypothesis => exact filled.trail.append inductionHypothesis

/-- What is compiled ahead is a trail. -/
theorem Ahead.trail {name : String} (ahead : Ahead name before inner after) :
    Trail before inner after := by
  cases ahead with
  | skipped started => exact .of_leadsTo (isQuiet_startAhead _ _ _ _ started).leadsTo
  | turned started finished =>
      exact .step (isQuiet_startAhead _ _ _ _ started).leadsTo
        (.visit (.of_leadsTo (isQuiet_finishAhead _ _ _ _ _ finished).leadsTo))

theorem Ensured.trail {scope : ScopeId} {endpoint : String}
    (ensured : Ensured scope endpoint before inner after) : Trail before inner after := by
  cases ensured with
  | known known => exact .of_leadsTo (isQuiet_isUnknown _ _ _ _ _ known).leadsTo
  | unknown unknown ahead => exact .step (isQuiet_isUnknown _ _ _ _ _ unknown).leadsTo ahead.trail

theorem Rooted.trail {label : String} {body : List Instruction} {root : Option LayerId}
    (rooted : Rooted label body before inner root after) : Trail before inner after := by
  cases rooted with
  | absent nothing => exact .done _
  | compiled entered filled left =>
      exact .step (leadsTo_of_enterBranch entered)
        (filled.trail.then_leadsTo (runs_leaveBranch left).1.leadsTo)

/-- The root of a branch is an output. -/
theorem Rooted.isOutput {label : String} {body : List Instruction} {root : Option LayerId}
    (rooted : Rooted label body before inner root after) {id : LayerId} (isRoot : root = some id) :
    ∃ layer, after.network.layer? id = some layer ∧ layer.kind.isOutput = true := by
  cases rooted with
  | absent nothing => cases isRoot
  | compiled entered filled left =>
      obtain ⟨_, same⟩ := runs_leaveBranch left
      exact isOutput_of_firstOutput (same.symm.trans isRoot)

/-- Gathering adds the new ones among the layers that a child accounts for. -/
theorem runs_gather {start count : Nat} {gathered more : List LayerId} {child : Instruction} :
    Runs (gather start count gathered child) before more after ↔
      more = gathered ++ (producedBy before start count child).filter
        (fun id => !gathered.contains id) ∧ after = before :=
  runs_get_bind.trans runs_pure

theorem Children.trail {start : Nat} {gathered all : List LayerId} {body : List Instruction}
    (children : Children start gathered body before inner all after) :
    Trail before inner after := by
  induction children with
  | done => exact .done _
  | next gathers _ inductionHypothesis =>
      obtain ⟨_, rfl⟩ := runs_gather.1 gathers
      exact .visit inductionHypothesis

structure Accounted (gathered : List LayerId) (state : CompileState) : Prop where
  nodup : gathered.Nodup
  inRange : ∀ id ∈ gathered, id < state.network.size

private theorem accounted_producedBy {state : CompileState} {start count : Nat}
    {child : Instruction} (inside : start ≤ state.network.size) :
    Accounted (producedBy state start count child) state := by
  unfold producedBy
  split
  · unfold earlierLayer
    dsimp only
    constructor
    · cases Option.filter _ _ with
      | none => exact List.nodup_nil
      | some _ => exact List.nodup_cons.2 ⟨List.not_mem_nil, List.nodup_nil⟩
    · intro id member
      have kept := (Option.mem_filter_iff.1 (Option.mem_toList.1 member)).2
      exact Nat.lt_of_lt_of_le (of_decide_eq_true kept) inside
  · constructor
    · exact List.Pairwise.map _ (fun _ _ apart same => apart (Nat.add_left_cancel same))
        List.nodup_range
    · intro id member
      obtain ⟨offset, offsetMember, rfl⟩ := List.mem_map.1 member
      exact Nat.add_lt_of_lt_sub' (List.mem_range.1 offsetMember)

private theorem accounted_append {gathered produced : List LayerId} {state : CompileState}
    (old : Accounted gathered state) (new : Accounted produced state) :
    Accounted (gathered ++ produced.filter fun id => !gathered.contains id) state where
  nodup := by
    refine List.nodup_append.2 ⟨old.nodup, new.nodup.filter _, ?_⟩
    rintro id oldMember _ newMember rfl
    have absent := (List.mem_filter.1 newMember).2
    rw [List.contains_iff_mem.2 oldMember] at absent
    cases absent
  inRange id member := by
    rcases List.mem_append.1 member with oldMember | newMember
    · exact old.inRange id oldMember
    · exact new.inRange id (List.mem_filter.1 newMember).1

/-- The children of a module are distinct and there when the module is added. -/
theorem Children.accounted {start : Nat} {gathered all : List LayerId} {body : List Instruction}
    (children : Children start gathered body before inner all after) (grow : AllGrow inner)
    (inside : start ≤ before.network.size) (accounted : Accounted gathered before) :
    Accounted all after := by
  induction children with
  | done => exact accounted
  | next gathers _ inductionHypothesis =>
      obtain ⟨rfl, rfl⟩ := runs_gather.1 gathers
      have grown := (grow _ List.mem_cons_self).network.size_le
      have insideAfter := Nat.le_trans inside grown
      refine inductionHypothesis (fun visit member => grow visit (List.mem_cons_of_mem _ member))
        insideAfter ?_
      exact accounted_append
        ⟨accounted.nodup, fun id member => Nat.lt_of_lt_of_le (accounted.inRange id member) grown⟩
        (accounted_producedBy insideAfter)

end Constructs

/-! ## What an instruction does last -/

inductive Closes (start : CompileState) : Instruction → CompileState → CompileState → Prop where
  | step {instruction : Instruction} {before after : CompileState}
      (noConnection : ∀ source target, instruction ≠ .connect source target)
      (leads : before.LeadsTo after) : Closes start instruction before after
  | connect {source target : String} {before after : CompileState}
      (settles : Settles start.current source target before after) :
      Closes start (.connect source target) before after
  | branch {name : Option String} {test : Instruction} {body alternative : List Instruction}
      {plan : BranchPlan} {thenRoot elseRoot : Option LayerId} {before after : CompileState}
      (tested : conditionOf test = .ok (plan.text, plan.condition))
      (chooses : Chooses before plan (.conditional plan.text thenRoot elseRoot) after) :
      Closes start (.branch name test body alternative) before after

variable {start before after : CompileState} {inner : List Visit} {instruction : Instruction}

/-- The last step of an instruction only adds. -/
theorem Closes.grows (closes : Closes start instruction before after) : before.GrowsTo after := by
  cases closes with
  | step _ leads => exact leads.grows
  | connect settles => exact settles.grows
  | branch _ chooses => exact chooses.grows

theorem Closes.sound (closes : Closes start instruction before after) (sound : before.Sound) :
    after.Sound := by
  cases closes with
  | step _ leads => exact leads.sound sound
  | connect settles => exact settles.sound sound
  | branch _ chooses => exact chooses.sound sound

private theorem trail_closes (noConnection : ∀ source target, instruction ≠ .connect source target)
    (trail : Trail before inner after) :
    ∃ between, Trail before inner between ∧ Closes before instruction between after :=
  ⟨after, trail, .step noConnection (.refl after)⟩

private theorem accepts_conditional {network : Network} {text : String}
    {thenRoot elseRoot : Option LayerId}
    (readable : ∃ condition, Condition.parse text = .ok condition)
    (thenIsOutput : ∀ id, thenRoot = some id →
      ∃ layer, network.layer? id = some layer ∧ layer.kind.isOutput = true)
    (elseIsOutput : ∀ id, elseRoot = some id →
      ∃ layer, network.layer? id = some layer ∧ layer.kind.isOutput = true) :
    network.Accepts (.conditional text thenRoot elseRoot) where
  roots root member := by
    rcases List.mem_append.1 member with first | second
    · exact thenIsOutput root (Option.mem_toList.1 first)
    · exact elseIsOutput root (Option.mem_toList.1 second)
  childrenOnce := List.nodup_nil
  children _ member := by cases member
  unrolled := rfl
  readable := readable

/-- What the test of a branch is read as can be read again from its text. -/
theorem readable_of_conditionOf {test : Instruction} {text : String} {condition : Condition}
    (tested : conditionOf test = .ok (text, condition)) : Condition.parse text = .ok condition := by
  unfold conditionOf at tested
  split at tested
  · split at tested
    · rename_i parsed
      cases tested
      rw [Condition.parse, parsed]
    · cases tested
  · cases tested

/-- What the roots of two sides are makes them acceptable as roots. -/
theorem accepts_of_rooted {plan : BranchPlan} {thenRoot elseRoot : Option LayerId}
    {start finish : CompileState} {first second : List Visit} {test : Instruction}
    (tested : conditionOf test = .ok (plan.text, plan.condition))
    (thenRooted : Rooted "then" plan.first start first thenRoot before)
    (elseRooted : Rooted "else" plan.second before second elseRoot finish)
    (grow : AllGrow second) :
    finish.network.Accepts (.conditional plan.text thenRoot elseRoot) := by
  have elseGrows := elseRooted.trail.grows grow
  have readable := readable_of_conditionOf tested
  refine accepts_conditional ⟨_, readable⟩ ?_ ?_
  · intro id isRoot
    exact elseGrows.network.ofKind (thenRooted.isOutput isRoot)
  · intro id isRoot
    exact elseRooted.isOutput isRoot

/-- The layer of a branch chooses between the roots of its two sides. -/
theorem chooses_of_rooted {plan : BranchPlan} {thenRoot elseRoot : Option LayerId}
    {start finish : CompileState} {first second : List Visit} {test : Instruction}
    (tested : conditionOf test = .ok (plan.text, plan.condition))
    (thenRooted : Rooted "then" plan.first start first thenRoot before)
    (elseRooted : Rooted "else" plan.second before second elseRoot finish)
    (finishes : Runs (finishBranch plan thenRoot elseRoot) finish () after)
    (grow : AllGrow second) :
    Chooses finish plan (.conditional plan.text thenRoot elseRoot) after :=
  chooses_of_finishBranch (accepts_of_rooted tested thenRooted elseRooted grow) finishes

/-- Every instruction is a trail and a last step. -/
theorem Unfolds.closes (unfolds : Unfolds instruction before inner after)
    (grow : AllGrow inner) :
    ∃ between, Trail before inner between ∧ Closes before instruction between after := by
  cases unfolds with
  | program sequence => exact trail_closes nofun sequence.trail
  | block sequence => exact trail_closes nofun sequence.trail
  | layer ran => exact trail_closes nofun (.of_leadsTo (declares_of_layer ran).leads)
  | connect starts sourceEnsured targetEnsured finishes =>
      obtain ⟨leads, rfl⟩ := runs_startConnect starts
      exact ⟨_, .step leads (sourceEnsured.trail.append targetEnsured.trail),
        .connect (settles_of_finishConnect finishes)⟩
  | moduleTaken takes logs =>
      exact trail_closes nofun (.of_leadsTo
        ((isQuiet_takeAhead _ _ _ _ _ takes).trans (isQuiet_log _ _ _ _ logs)).leadsTo)
  | moduleDef takes logs children finishes =>
      have quiet := (isQuiet_takeAhead _ _ _ _ _ takes).trans (isQuiet_log _ _ _ _ logs)
      have accounted := children.accounted grow (Nat.le_refl _)
        ⟨List.nodup_nil, fun _ => (absurd · List.not_mem_nil)⟩
      have accepted : Network.Accepts _ (.composite _) :=
        ⟨fun _ => (absurd · List.not_mem_nil), accounted.nodup, accounted.inRange, rfl, trivial⟩
      exact ⟨_, .step quiet.leadsTo children.trail,
        .step nofun ((CompileState.leadsTo_withLayer _ accepted).trans
          (runs_finishModule finishes).leadsTo)⟩
  | loop opens rounds =>
      exact trail_closes nofun (.step (isQuiet_loopRange _ _ _ _ _ _ _ opens).leadsTo rounds.trail)
  | branch plans thenRooted elseRooted finishes =>
      obtain ⟨quiet, tested, _⟩ := runs_planBranch plans
      have chooses := chooses_of_rooted tested thenRooted elseRooted finishes
        fun visit member => grow visit (List.mem_append_right _ member)
      exact ⟨_, .step quiet.leadsTo (thenRooted.trail.append elseRooted.trail),
        .branch tested chooses⟩
  | templateDef ran =>
      exact trail_closes nofun (.of_leadsTo (isQuiet_templateDef _ _ _ _ _ _ ran).leadsTo)
  | templateCall opens filled =>
      exact trail_closes nofun (.step (runs_openTemplate opens).1.quiet.leadsTo filled.trail)
  | call opens filled =>
      exact trail_closes nofun (.step (runs_openTemplate opens).1.quiet.leadsTo filled.trail)
  | expand opens sequence =>
      exact trail_closes nofun
        (.step (isQuiet_startExpand _ _ _ _ _ _ opens).leadsTo sequence.trail)

end Compile

/-! ## Whole runs -/

namespace Visit

open Compile

/-- A visit is a trail of the visits below it and one last step. -/
theorem Faithful.closes {visit : Visit} (faithful : visit.Faithful) (grow : AllGrow visit.inner) :
    ∃ between, Trail visit.before visit.inner between ∧
      Closes visit.before visit.instruction between visit.after := by
  cases faithful with
  | intro unfolds _ => exact unfolds.closes grow

theorem Faithful.unfolds {visit : Visit} (faithful : visit.Faithful) :
    Unfolds visit.instruction visit.before visit.inner visit.after := by
  cases faithful with
  | intro unfolds _ => exact unfolds

/-- Visits below a faithful one are faithful. -/
theorem Faithful.ofInner {visit below : Visit} (faithful : visit.Faithful)
    (member : below ∈ visit.inner) : below.Faithful := by
  cases faithful with
  | intro _ inner => exact inner below member

/-- Every visit leads to a later stage of its state. -/
theorem Faithful.grows {visit : Visit} (faithful : visit.Faithful) :
    visit.before.GrowsTo visit.after := by
  induction faithful with
  | intro unfolds _ inductionHypothesis =>
      obtain ⟨_, trail, closes⟩ := unfolds.closes inductionHypothesis
      exact (trail.grows inductionHypothesis).trans closes.grows

/-- Every visit leads to a later stage. -/
theorem Faithful.allGrow {visit : Visit} (faithful : visit.Faithful) : AllGrow visit.inner :=
  fun _ member => (faithful.ofInner member).grows

/-- What stands below a faithful visit is faithful. -/
theorem Faithful.within {inner outer : Visit} (faithful : outer.Faithful)
    (within : Within inner outer) : inner.Faithful := by
  induction within with
  | self => exact faithful
  | under member _ inductionHypothesis => exact inductionHypothesis (faithful.ofInner member)

theorem Within.trans {inner middle outer : Visit} (lower : Within inner middle)
    (upper : Within middle outer) : Within inner outer := by
  induction upper with
  | self => exact lower
  | under member _ inductionHypothesis => exact .under member inductionHypothesis

/-- A visit below another stands between its ends. -/
theorem Faithful.around {inner outer : Visit} (faithful : outer.Faithful)
    (within : Within inner outer) :
    outer.before.GrowsTo inner.before ∧ inner.after.GrowsTo outer.after := by
  induction within with
  | self => exact ⟨.refl _, .refl _⟩
  | under member _ inductionHypothesis =>
      obtain ⟨start, finish⟩ := inductionHypothesis (faithful.ofInner member)
      obtain ⟨_, trail, closes⟩ := faithful.closes faithful.allGrow
      obtain ⟨earlier, later⟩ := trail.around faithful.allGrow member
      exact ⟨earlier.trans start, (finish.trans later).trans closes.grows⟩

/-- Soundness is kept by every visit. -/
theorem Faithful.sound {visit : Visit} (faithful : visit.Faithful) (sound : visit.before.Sound) :
    visit.after.Sound := by
  induction faithful with
  | intro unfolds inner inductionHypothesis =>
      obtain ⟨_, trail, closes⟩ := unfolds.closes fun below member => (inner below member).grows
      exact closes.sound (trail.sound inductionHypothesis sound)

/-- Every visit below a sound start starts in a sound state itself. -/
theorem Faithful.sound_before {inner outer : Visit} (faithful : outer.Faithful)
    (within : Within inner outer) (sound : outer.before.Sound) : inner.before.Sound := by
  induction within with
  | self => exact sound
  | under member _ inductionHypothesis =>
      obtain ⟨_, trail, _⟩ := faithful.closes faithful.allGrow
      exact inductionHypothesis (faithful.ofInner member)
        (trail.sound_before (fun _ below => (faithful.ofInner below).sound) sound member)

/-- A visit that adds a layer at last defines that layer. -/
theorem ownLayer?_of_nodes {visit : Visit} {between : CompileState} {node : Layer}
    (grows : visit.before.GrowsTo between)
    (nodes : visit.after.network.nodes = between.network.nodes ++ [node]) :
    visit.ownLayer? = some between.network.size ∧
      ∃ layer, visit.after.network.layer? between.network.size = some layer ∧
        layer.node = node := by
  have size : visit.after.network.size = between.network.size + 1 := by
    rw [← Network.length_nodes, nodes, List.length_append, Network.length_nodes]
    rfl
  have smaller := grows.network.size_le
  have stored := Network.getElem?_nodes visit.after.network between.network.size
  rw [nodes, ← Network.length_nodes between.network, List.getElem?_concat_length] at stored
  obtain ⟨layer, found, same⟩ := Option.map_eq_some_iff.1 stored.symm
  rw [Network.length_nodes] at found
  refine ⟨?_, layer, found, same⟩
  rw [ownLayer?, if_pos (by omega), size]
  rfl

theorem ownLayer?_eq_none {visit : Visit}
    (nodes : visit.after.network.nodes = visit.before.network.nodes) : visit.ownLayer? = none := by
  have size : visit.after.network.size = visit.before.network.size := by
    rw [← Network.length_nodes, nodes, Network.length_nodes]
  rw [ownLayer?, if_neg (by omega)]

/-! ## Visits by position -/

def below? : List Nat → Visit → Option Visit
  | [], visit => some visit
  | position :: rest, visit => visit.inner[position]?.bind (below? rest)

/-- What a path leads down to stands below. -/
theorem within_of_below? : ∀ {path : List Nat} {visit lowest : Visit},
    visit.below? path = some lowest → Within lowest visit
  | [], _, _, found => by
      cases found
      exact .self _
  | position :: rest, visit, lowest, found => by
      obtain ⟨below, member, rest⟩ := Option.bind_eq_some_iff.1 found
      exact .under (List.mem_of_getElem? member) (within_of_below? rest)

/-! ## Tests of every visit -/

mutual

def all (test : Visit → Bool) : Visit → Bool
  | ⟨instruction, before, after, inner⟩ =>
    test ⟨instruction, before, after, inner⟩ && allOf test inner

def allOf (test : Visit → Bool) : List Visit → Bool
  | [] => true
  | first :: rest => all test first && allOf test rest

end

private theorem allOf_iff {test : Visit → Bool} : ∀ {visits : List Visit},
    allOf test visits = true ↔ ∀ visit ∈ visits, visit.all test = true
  | [] => iff_of_true rfl fun _ => (absurd · List.not_mem_nil)
  | first :: rest => by rw [allOf, Bool.and_eq_true, List.forall_mem_cons, allOf_iff]

private theorem all_eq (test : Visit → Bool) (visit : Visit) :
    visit.all test = (test visit && allOf test visit.inner) := by
  cases visit
  rw [all]

private theorem of_within {test : Visit → Bool} {visit outer : Visit}
    (within : Within visit outer) (all : outer.all test = true) : test visit = true := by
  induction within with
  | self =>
      rw [all_eq, Bool.and_eq_true] at all
      exact all.1
  | under member _ inductionHypothesis =>
      rw [all_eq, Bool.and_eq_true, allOf_iff] at all
      exact inductionHypothesis (all.2 _ member)

mutual

private theorem all_of_within {test : Visit → Bool} : ∀ {outer : Visit},
    (∀ visit, Within visit outer → test visit = true) → outer.all test = true
  | ⟨instruction, before, after, inner⟩, each => by
      rw [all, each _ (.self _), Bool.true_and]
      exact allOf_of_within fun below member visit within => each visit (.under member within)

private theorem allOf_of_within {test : Visit → Bool} : ∀ {visits : List Visit},
    (∀ below ∈ visits, ∀ visit, Within visit below → test visit = true) →
      allOf test visits = true
  | [], _ => rfl
  | first :: rest, each => by
      rw [allOf, all_of_within (each first List.mem_cons_self), Bool.true_and]
      exact allOf_of_within fun below member => each below (List.mem_cons_of_mem _ member)

end

/-- A test is passed everywhere exactly if each visit passes it. -/
theorem all_iff {test : Visit → Bool} {outer : Visit} :
    outer.all test = true ↔ ∀ visit, Within visit outer → test visit = true :=
  ⟨fun all _ within => of_within within all, all_of_within⟩

end Visit

end NetBlueprint
