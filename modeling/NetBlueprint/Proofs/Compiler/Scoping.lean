import NetBlueprint.Proofs.Compiler.OwnSteps
import Mathlib.Logic.Relation

/-!
Contract: what an endpoint of a connection stands for when everything is compiled.

A visit makes layers visible in the scope in which it stands and in no other, and a scope is opened
inside an older one. So the scopes around a connection form a chain, and the final wiring finds an
endpoint in the nearest of them in which it was made visible, as the last layer of that name there.
What other scopes hold, as the other side of the same branch does, makes no difference.

Owns: what was made visible where, the scopes around a scope, and how an endpoint is found in them.
-/

namespace NetBlueprint

namespace CompileState

variable {state before after : CompileState} {scope outer inner : ScopeId} {name : String}
  {id : LayerId}

def registrations (state : CompileState) (scope : ScopeId) : List (String × LayerId) :=
  match state.scopes[scope]? with
  | some found => found.entries.reverse
  | none => []

def Surrounds (state : CompileState) (outer inner : ScopeId) : Prop :=
  Relation.ReflTransGen (fun lower upper => state.parent? lower = some upper) inner outer

/-- A name is found in the nearest scope around a scope in which it is visible. -/
inductive Finds (state : CompileState) (name : String) : ScopeId → ScopeId → LayerId → Prop where
  | here {scope : ScopeId} {found : Scope} {id : LayerId}
      (isFound : state.scopes[scope]? = some found) (shown : found.entries.lookup name = some id) :
      Finds state name scope scope id
  | around {scope outer nearest : ScopeId} {found : Scope} {id : LayerId}
      (isFound : state.scopes[scope]? = some found) (hidden : found.entries.lookup name = none)
      (opened : found.parent = some outer) (older : outer < scope)
      (rest : Finds state name outer nearest id) : Finds state name scope nearest id

/-! ## Registrations -/

private theorem registrations_of_found {found : Scope}
    (isFound : state.scopes[scope]? = some found) :
    state.registrations scope = found.entries.reverse := by
  rw [registrations, isFound]

private theorem registrations_congr (scopes : after.scopes = before.scopes) (scope : ScopeId) :
    after.registrations scope = before.registrations scope := by
  rw [registrations, scopes, registrations]

/-- What was made visible stays visible, in its place. -/
theorem GrowsTo.registrations (grows : before.GrowsTo after) (scope : ScopeId) :
    before.registrations scope <+: after.registrations scope := by
  unfold CompileState.registrations
  cases found : before.scopes[scope]? with
  | none => exact List.nil_prefix
  | some earlier =>
      obtain ⟨later, isLater, _, entries⟩ := grows.scopes found
      rw [isLater]
      exact List.reverse_prefix.2 entries

/-- A scope that is opened is empty. -/
theorem registrations_entered (state : CompileState) (scope : ScopeId) :
    state.entered.registrations scope = state.registrations scope := by
  unfold registrations
  rcases scopes_entered state scope with same | ⟨absent, opened⟩
  · rw [same]
  · rw [absent, opened]
    rfl

/-- A layer is made visible in the current scope only. -/
theorem registrations_registered_of_ne (apart : scope ≠ state.current) (name : String)
    (id : LayerId) : (state.registered name id).registrations scope = state.registrations scope := by
  unfold registrations registered
  dsimp only
  rw [Array.getElem?_modify, if_neg (Ne.symm apart)]

/-! ## Scopes around a scope -/

theorem Surrounds.eq_or_opened (surrounds : state.Surrounds outer inner) :
    outer = inner ∨ ∃ parent, state.parent? inner = some parent ∧ state.Surrounds outer parent := by
  cases Relation.ReflTransGen.cases_head surrounds with
  | inl same => exact .inl same.symm
  | inr higher => exact .inr higher

def Nested (state : CompileState) : Prop :=
  ∀ scope outer, state.parent? scope = some outer → outer < scope

/-- An outer scope was opened before those inside of it. -/
theorem Surrounds.le (nested : state.Nested) (surrounds : state.Surrounds outer inner) :
    outer ≤ inner := by
  induction surrounds with
  | refl => exact Nat.le_refl _
  | tail _ opened inductionHypothesis =>
      exact Nat.le_trans (Nat.le_of_lt (nested _ _ opened)) inductionHypothesis

/-- No scope is both around a scope and inside it. -/
theorem Surrounds.antisymm (nested : state.Nested) (outward : state.Surrounds outer inner)
    (inward : state.Surrounds inner outer) : outer = inner :=
  Nat.le_antisymm (outward.le nested) (inward.le nested)

/-- Of two scopes around a scope one is around the other. -/
theorem Surrounds.total {one other : ScopeId} (first : state.Surrounds one inner)
    (second : state.Surrounds other inner) :
    state.Surrounds one other ∨ state.Surrounds other one := by
  refine (Relation.ReflTransGen.total_of_right_unique ?_ first second).symm
  intro scope upper same opened sameOpened
  exact Option.some.inj (opened.symm.trans sameOpened)

/-- Of the scopes that were opened in the same scope only one is around a scope. -/
theorem Surrounds.eq_of_parent {one other parent : ScopeId} (nested : state.Nested)
    (first : state.Surrounds one inner) (second : state.Surrounds other inner)
    (oneOpened : state.parent? one = some parent)
    (otherOpened : state.parent? other = some parent) : one = other := by
  -- A scope that is properly inside another one of the same parent would lie inside the parent.
  have inside {lower upper : ScopeId} (surrounds : state.Surrounds upper lower)
      (lowerOpened : state.parent? lower = some parent)
      (upperOpened : state.parent? upper = some parent) : upper = lower := by
    rcases surrounds.eq_or_opened with same | ⟨_, opened, higher⟩
    · exact same
    · cases lowerOpened.symm.trans opened
      exact absurd (higher.le nested) (Nat.not_le_of_lt (nested _ _ upperOpened))
  rcases first.total second with outward | inward
  · exact inside outward otherOpened oneOpened
  · exact (inside inward oneOpened otherOpened).symm

/-! ## How a name is found -/

theorem Finds.surrounds {nearest : ScopeId} (finds : state.Finds name scope nearest id) :
    state.Surrounds nearest scope := by
  induction finds with
  | here => exact .refl
  | around isFound _ opened _ _ inductionHypothesis =>
      refine .head ?_ inductionHypothesis
      rw [parent?, isFound, Option.bind_some, opened]

theorem Finds.shown {nearest : ScopeId} (finds : state.Finds name scope nearest id) :
    ∃ found, state.scopes[nearest]? = some found ∧ found.entries.lookup name = some id := by
  induction finds with
  | here isFound shown => exact ⟨_, isFound, shown⟩
  | around _ _ _ _ _ inductionHypothesis => exact inductionHypothesis

/-- A name that is visible in a scope around a scope is found, and not further out. -/
theorem exists_finds (nested : state.Nested) (surrounds : state.Surrounds outer scope)
    {found : Scope} (isFound : state.scopes[outer]? = some found)
    (visible : (found.entries.lookup name).isSome = true) :
    ∃ nearest id, state.Finds name scope nearest id := by
  induction surrounds using Relation.ReflTransGen.head_induction_on with
  | refl =>
      obtain ⟨id, shown⟩ := Option.isSome_iff_exists.1 visible
      exact ⟨outer, id, .here isFound shown⟩
  | head opened _ inductionHypothesis =>
      obtain ⟨nearest, id, finds⟩ := inductionHypothesis
      obtain ⟨lower, isLower, isOpened⟩ := Option.bind_eq_some_iff.1 opened
      cases shown : lower.entries.lookup name with
      | some id => exact ⟨_, id, .here isLower shown⟩
      | none => exact ⟨nearest, id, .around isLower shown isOpened (nested _ _ opened) finds⟩

/-- Where a name is visible around a scope, it is visible around the scope in which it is found. -/
theorem Finds.nearest {nearest : ScopeId} (finds : state.Finds name scope nearest id)
    (surrounds : state.Surrounds outer scope) {found : Scope}
    (isFound : state.scopes[outer]? = some found)
    (visible : (found.entries.lookup name).isSome = true) : state.Surrounds outer nearest := by
  induction finds with
  | here => exact surrounds
  | around isScope hidden opened _ _ inductionHypothesis =>
      rcases surrounds.eq_or_opened with rfl | ⟨parent, isParent, higher⟩
      · cases isFound.symm.trans isScope
        rw [hidden] at visible
        cases visible
      · rw [parent?, isScope, Option.bind_some, opened] at isParent
        cases isParent
        exact inductionHypothesis higher

/-- Only the scopes around a scope matter for what a name stands for in it. -/
theorem Finds.congr {other : CompileState} {nearest : ScopeId}
    (finds : state.Finds name scope nearest id)
    (same : ∀ outer, state.Surrounds outer scope → other.scopes[outer]? = state.scopes[outer]?) :
    other.Finds name scope nearest id := by
  induction finds with
  | here isFound shown => exact .here ((same _ .refl).trans isFound) shown
  | around isFound hidden opened older _ inductionHypothesis =>
      refine .around ((same _ .refl).trans isFound) hidden opened older
        (inductionHypothesis fun outer surrounds => same outer (.head ?_ surrounds))
      rw [parent?, isFound, Option.bind_some, opened]

private theorem Finds.findSome? {nearest : ScopeId} (finds : state.Finds name scope nearest id) :
    ∀ {budget : Nat}, scope < budget →
      (state.chainWithin budget scope).findSome? (fun found => found.entries.lookup name) =
        some id := by
  induction finds with
  | here isFound shown =>
      intro budget enough
      obtain ⟨rest, rfl⟩ := Nat.exists_eq_succ_of_ne_zero (Nat.ne_zero_of_lt enough)
      rw [chainWithin, isFound]
      dsimp only
      split <;> rw [List.findSome?_cons, shown]
  | around isFound hidden opened older _ inductionHypothesis =>
      intro budget enough
      obtain ⟨rest, rfl⟩ := Nat.exists_eq_succ_of_ne_zero (Nat.ne_zero_of_lt enough)
      rw [chainWithin, isFound]
      dsimp only
      rw [opened]
      dsimp only
      rw [List.findSome?_cons, hidden]
      exact inductionHypothesis (Nat.lt_of_lt_of_le older (Nat.le_of_lt_succ enough))

/-- A name that is found in a scope around a scope is resolved to what it stands for there. -/
theorem Finds.resolve {nearest : ScopeId} (finds : state.Finds name scope nearest id) :
    state.resolve scope name = some id := by
  have inside : scope < state.scopes.size := by
    cases finds with
    | here isFound | around isFound => exact (Array.getElem?_eq_some_iff.1 isFound).1
  have chained : state.lookupChain scope name = some id := finds.findSome? inside
  rw [CompileState.resolve, resolveExact, chained]
  rfl

end CompileState

/-- A visit makes a layer visible under a name, in a place among the registrations of a scope. -/
structure Visit.Registers (scope : ScopeId) (place : Nat) (name : String) (id : LayerId)
    (visit : Visit) : Prop where
  stands : visit.before.current = scope
  brings : visit.Brings fun state => place < (state.registrations scope).length
  entry : (visit.after.registrations scope)[place]? = some (name, id)

namespace Compile

open CompileState

/-- Some visit of a run makes a layer visible in a scope under a name. -/
def RegisteredIn (root : Visit) (scope : ScopeId) (name : String) : Prop :=
  ∃ visit place id, Visit.Within visit root ∧ visit.Registers scope place name id

/-- The last visit of a run that makes a layer visible in a scope under a name does so with a given
layer. -/
def LastIn (root : Visit) (scope : ScopeId) (name : String) (id : LayerId) : Prop :=
  ∃ visit place, Visit.Within visit root ∧ visit.Registers scope place name id ∧
    ∀ other later otherId, Visit.Within other root → other.Registers scope later name otherId →
      later ≤ place

/-- Whatever a step makes visible in a scope, it makes visible where its visit stands. -/
theorem OwnStep.stands {instruction : Instruction} {here scope : ScopeId}
    {before after : CompileState} (step : OwnStep instruction here before after)
    (more : after.registrations scope ≠ before.registrations scope) : here = scope := by
  refine Classical.byContradiction fun apart => more ?_
  cases step with
  | still still => exact registrations_congr still.scopes scope
  | enters => exact registrations_entered before scope
  | makes isHere =>
      exact registrations_registered_of_ne (fun same => apart (isHere.symm.trans same.symm)) _ _
  | shares isHere =>
      exact registrations_registered_of_ne (fun same => apart (isHere.symm.trans same.symm)) _ _

section Runs

variable {name : String} {seed : UInt64} {program : Instruction} {compiled : Compiled}
  {root : Visit} {scope : ScopeId} {key : String} {id : LayerId}

namespace RootOf

variable (rootOf : RootOf name seed program compiled root)

include rootOf

/-- Before the first instruction nothing is visible. -/
theorem nothing_registered : root.before.registrations scope = [] := by
  have quiet := isQuiet_prepare _ _ _ _ _ rootOf.prepared
  rw [registrations, quiet.scopes]
  cases scope <;> rfl

/-- What a visit makes visible keeps its place. -/
theorem entry_of_registers {visit : Visit} {place : Nat} (within : visit.Within root)
    (registers : visit.Registers scope place key id) :
    (root.after.registrations scope)[place]? = some (key, id) := by
  obtain ⟨rest, whole⟩ := (rootOf.faithful.around within).2.registrations scope
  rw [← whole, List.getElem?_append_left registers.brings.present, registers.entry]

/-- Whatever is visible in the end was made visible by a visit. -/
theorem exists_registers {place : Nat}
    (entry : (root.after.registrations scope)[place]? = some (key, id)) :
    ∃ visit : Visit, visit.Within root ∧ visit.Registers scope place key id := by
  have present : place < (root.after.registrations scope).length :=
    (List.getElem?_eq_some_iff.1 entry).1
  have fresh : ¬ place < (root.before.registrations scope).length := by
    rw [rootOf.nothing_registered]
    exact Nat.not_lt_zero place
  obtain ⟨visit, within, brings⟩ := rootOf.faithful.exists_brings
    (fun state => place < (state.registrations scope).length) fresh present
  have faithful := rootOf.faithful.within within
  obtain ⟨start, finish, step, absent, came, _⟩ := brings.exists_step faithful
  have more : finish.registrations scope ≠ start.registrations scope := by
    intro same
    rw [same] at came
    exact absent came
  obtain ⟨rest, whole⟩ := (rootOf.faithful.around within).2.registrations scope
  refine ⟨visit, within, step.stands more, brings, ?_⟩
  rw [← entry, ← whole, List.getElem?_append_left brings.present]

/-- A scope that a visit opened was opened in the scope in which the visit stands. -/
theorem parent_of_opened {visit : Visit} (within : visit.Within root)
    (opened : visit.Opened scope) : root.after.parent? scope = some visit.before.current := by
  have faithful := rootOf.faithful.within within
  obtain ⟨start, finish, step, absent, came, _, later⟩ := Visit.Brings.exists_step opened faithful
  cases step with
  | still still => exact absurd (still.scopes ▸ came) absent
  | makes | shares => exact absurd (Nat.lt_of_lt_of_eq came Array.size_modify) absent
  | enters here =>
      have size : scope = start.scopes.size :=
        Nat.le_antisymm (Nat.le_of_lt_succ (by simpa [entered] using came)) (Nat.not_lt.1 absent)
      have isOuter := (later.trans (rootOf.faithful.around within).2).parent? start.parent?_entered
      rw [size, ← here]
      exact isOuter

/-- Every scope was opened in an older one. -/
theorem nested : root.after.Nested := by
  intro scope outer opened
  have quiet := isQuiet_prepare _ _ _ _ _ rootOf.prepared
  by_cases fresh : scope < root.before.scopes.size
  · -- Only the root scope is there from the start.
    rw [quiet.scopes] at fresh
    cases Nat.lt_one_iff.1 fresh
    have isRoot : (CompileState.start name seed).scopes[0]? = some ⟨none, []⟩ := rfl
    obtain ⟨grown, isGrown, sameParent, _⟩ := rootOf.faithful.grows.scopes
      (quiet.scopes.symm ▸ isRoot)
    rw [parent?, isGrown, Option.bind_some, sameParent] at opened
    cases opened
  · have present : scope < root.after.scopes.size := by
      obtain ⟨_, isFound, _⟩ := Option.bind_eq_some_iff.1 opened
      exact (Array.getElem?_eq_some_iff.1 isFound).1
    obtain ⟨visit, within, brings⟩ := rootOf.faithful.exists_brings
      (fun state => scope < state.scopes.size) fresh present
    cases opened.symm.trans (rootOf.parent_of_opened within brings)
    exact Nat.lt_of_lt_of_le (rootOf.inside within) (Nat.not_lt.1 brings.fresh)

/-- A name is visible in a scope in the end exactly if a visit made it visible there. -/
theorem registeredIn_iff :
    RegisteredIn root scope key ↔
      ∃ found, root.after.scopes[scope]? = some found ∧
        (found.entries.lookup key).isSome = true := by
  constructor
  · rintro ⟨visit, place, id, within, registers⟩
    have entry := List.mem_of_getElem? (rootOf.entry_of_registers within registers)
    unfold registrations at entry
    split at entry
    · rename_i found isFound
      exact ⟨found, isFound, Table.isSome_lookup_iff.2 ⟨id, List.mem_reverse.1 entry⟩⟩
    · cases entry
  · rintro ⟨found, isFound, visible⟩
    obtain ⟨id, entry⟩ := Table.isSome_lookup_iff.1 visible
    have member : (key, id) ∈ root.after.registrations scope := by
      rw [registrations_of_found isFound]
      exact List.mem_reverse.2 entry
    obtain ⟨place, isEntry⟩ := List.mem_iff_getElem?.1 member
    obtain ⟨visit, within, registers⟩ := rootOf.exists_registers isEntry
    exact ⟨visit, place, id, within, registers⟩

/-- What a name stands for in a scope in the end was made visible there last. -/
theorem lastIn_of_lookup {found : Scope} (isFound : root.after.scopes[scope]? = some found)
    (shown : found.entries.lookup key = some id) : LastIn root scope key id := by
  obtain ⟨newer, older, whole, hidden⟩ := List.lookup_eq_some_iff.1 shown
  have entries : root.after.registrations scope = older.reverse ++ (key, id) :: newer.reverse := by
    rw [registrations_of_found isFound, whole, List.reverse_append, List.reverse_cons,
      List.append_assoc, List.singleton_append]
  have entry : (root.after.registrations scope)[older.reverse.length]? = some (key, id) := by
    rw [entries, List.getElem?_append_right (Nat.le_refl _), Nat.sub_self]
    rfl
  obtain ⟨visit, within, registers⟩ := rootOf.exists_registers entry
  refine ⟨visit, _, within, registers, fun other later otherId otherWithin otherRegisters => ?_⟩
  refine Nat.le_of_not_lt fun behind => ?_
  have otherEntry := rootOf.entry_of_registers otherWithin otherRegisters
  rw [entries, List.getElem?_append_right (Nat.le_of_lt behind), List.getElem?_cons,
    if_neg (Nat.sub_ne_zero_of_lt behind)] at otherEntry
  have apart := hidden _ (List.mem_reverse.1 (List.mem_of_getElem? otherEntry))
  simp at apart

/-- An endpoint that was made visible in a scope around a connection is found there. -/
theorem exists_finds {surrounding : ScopeId} (surrounds : root.after.Surrounds surrounding scope)
    (registered : RegisteredIn root surrounding key) :
    ∃ nearest id, root.after.Finds key scope nearest id ∧ LastIn root nearest key id ∧
      ∀ other, root.after.Surrounds other scope → RegisteredIn root other key →
        root.after.Surrounds other nearest := by
  obtain ⟨found, isFound, visible⟩ := rootOf.registeredIn_iff.1 registered
  obtain ⟨nearest, id, finds⟩ :=
    CompileState.exists_finds rootOf.nested surrounds isFound visible
  obtain ⟨holder, isHolder, shown⟩ := finds.shown
  refine ⟨nearest, id, finds, rootOf.lastIn_of_lookup isHolder shown,
    fun other otherSurrounds otherRegistered => ?_⟩
  obtain ⟨otherFound, isOther, otherVisible⟩ := rootOf.registeredIn_iff.1 otherRegistered
  exact finds.nearest otherSurrounds isOther otherVisible

end RootOf

/-- Scopes do not leak into each other. A connection is wired in the scope in which it stands. Of
the scopes that were opened in the same scope, as the two sides of a branch were, at most one is
around it, and no scope inside its own is. An endpoint that some visit made visible in a scope
around it is resolved, wherever the final wiring has come to, to the layer that the last such visit
made visible in the nearest of these scopes, and so it is in every state that agrees on the scopes
around the connection, whatever else is visible there. -/
theorem scopes_apart (compiles : compile name seed program = .ok compiled) :
    ∃ root built, rootVisit? name seed program = some root ∧ root.instruction = program ∧
      built = builtState name seed program ∧
      ∀ visit source target, Visit.Within visit root →
        visit.instruction = .connect source target →
        (∃ flagged,
          ⟨source, target, visit.before.current, flagged⟩ ∈ built.pending.toList) ∧
        (∀ one other parent, built.Surrounds one visit.before.current →
          built.Surrounds other visit.before.current → built.parent? one = some parent →
          built.parent? other = some parent → one = other) ∧
        (∀ inside, built.Surrounds visit.before.current inside →
          built.Surrounds inside visit.before.current → inside = visit.before.current) ∧
        ∀ endpoint ∈ [source, target],
          (∃ scope, built.Surrounds scope visit.before.current ∧
            RegisteredIn root scope endpoint) →
          ∃ nearest id, built.Surrounds nearest visit.before.current ∧
            (∀ scope, built.Surrounds scope visit.before.current →
              RegisteredIn root scope endpoint → built.Surrounds scope nearest) ∧
            LastIn root nearest endpoint id ∧
            (∀ earlier, earlier <+: built.pending.toList →
              (bindEach earlier (⟨0, 0⟩, built)).2.resolve visit.before.current endpoint =
                some id) ∧
            ∀ other : CompileState, (∀ scope, built.Surrounds scope visit.before.current →
                other.scopes[scope]? = built.scopes[scope]?) →
              other.resolve visit.before.current endpoint = some id := by
  obtain ⟨root, rootOf⟩ := exists_rootOf compiles
  have nested := rootOf.nested
  refine ⟨root, root.after, rootOf.isRoot, rootOf.instruction, rootOf.built.symm, ?_⟩
  intro visit source target within connects
  refine ⟨rootOf.exists_recorded within connects, ?_, ?_, ?_⟩
  · intro one other parent oneSurrounds otherSurrounds oneOpened otherOpened
    exact oneSurrounds.eq_of_parent nested otherSurrounds oneOpened otherOpened
  · intro inside outward inward
    exact inward.antisymm nested outward
  · rintro endpoint - ⟨scope, surrounds, registered⟩
    obtain ⟨nearest, id, finds, last, others⟩ := rootOf.exists_finds surrounds registered
    refine ⟨nearest, id, finds.surrounds, others, last, fun earlier _ => ?_, fun other same => ?_⟩
    · have binds := binds_bindEach earlier ⟨0, 0⟩ (rootOf.faithful.sound rootOf.sound)
      exact (binds.resolve _ _).trans finds.resolve
    · exact (finds.congr same).resolve

/-- A branch whose sides each connect the input to an output of the same name. -/
def sameOutputs : Instruction :=
  .program [sizedLayer "input" "x" 1,
    .branch none (.condition "x > 0") [sizedLayer "output" "y" 1, .connect "x" "y"]
      [sizedLayer "output" "y" 1, .connect "x" "y"]]

private def connectsInSecond (visit : Visit) : Bool :=
  match visit.instruction with
  | .connect "x" "y" => visit.before.current == 2
  | _ => false

/-- The connection of the second side stands for the output of that side, although the first side
has an output of the same name. -/
theorem sameOutputs_apart :
    ∃ root visit, rootVisit? "net" 0 sameOutputs = some root ∧ Visit.Within visit root ∧
      visit.instruction = .connect "x" "y" ∧ visit.before.current = 2 ∧ RegisteredIn root 1 "y" ∧
      LastIn root 2 "y" 2 ∧ (builtState "net" 0 sameOutputs).resolve 2 "y" = some 2 := by
  have passed : ((rootVisit? "net" 0 sameOutputs).bind (Visit.below? [1, 3])).any
      connectsInSecond = true := by decide +kernel
  have compiled : (compile "net" 0 sameOutputs).toOption.any (fun _ => true) = true := by
    decide +kernel
  have visible : ∀ scope ∈ [1, 2], ((builtState "net" 0 sameOutputs).scopes[scope]?).any
      (fun found => (found.entries.lookup "y").isSome) = true := by decide +kernel
  have resolved : (builtState "net" 0 sameOutputs).resolve 2 "y" = some 2 := by decide +kernel
  obtain ⟨compiled, compiles, _⟩ := exists_compiled compiled
  obtain ⟨root, rootOf⟩ := exists_rootOf compiles
  have registered {scope : ScopeId} (member : scope ∈ [1, 2]) : RegisteredIn root scope "y" := by
    have shown := visible scope member
    rw [rootOf.built] at shown
    exact rootOf.registeredIn_iff.2 ((Option.any_eq_true _ _).1 shown)
  obtain ⟨root, visit, isRoot, within, connects⟩ := exists_visit_at passed
  cases isRoot.symm.trans rootOf.isRoot
  unfold connectsInSecond at connects
  split at connects
  · rename_i isConnect
    have stands : visit.before.current = 2 := eq_of_beq connects
    obtain ⟨_, _, sameRoot, _, rfl, apart⟩ := scopes_apart compiles
    cases sameRoot.symm.trans isRoot
    obtain ⟨_, _, inward, found⟩ := apart visit "x" "y" within isConnect
    obtain ⟨nearest, id, surrounds, nearer, last, resolves, _⟩ :=
      found "y" (by simp) ⟨2, stands ▸ .refl, registered (by simp)⟩
    rw [stands] at surrounds nearer resolves inward
    cases inward nearest (nearer 2 .refl (registered (by simp))) surrounds
    cases (resolves [] (List.nil_prefix)).symm.trans resolved
    exact ⟨root, visit, isRoot, within, isConnect, stands, registered (by simp), last, resolved⟩
  · cases connects

end Runs

end Compile

end NetBlueprint
