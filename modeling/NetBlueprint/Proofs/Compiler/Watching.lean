import NetBlueprint.Proofs.Compiler.Success

/-!
Contract: watching a compilation changes nothing.

What compiles an instruction is one text for a plain and for a watched run. Both runs take the same
steps, so whatever succeeds plainly succeeds, with the same result and the same states, when it is
watched, and every successful compilation has a tree of visits.
-/

namespace NetBlueprint.Compile

/-- Whatever the plain action achieves, the watched one achieves from any visits gathered so far. -/
def Watches {Result : Type} (plain : CompileM Result) (watching : WatchedM Result) : Prop :=
  ∀ {before : CompileState} {result : Result} {after : CompileState},
    Runs plain before result after →
      ∀ earlier, ∃ later, Runs (watching earlier) before (result, later) after

section Combinators

variable {Result Next : Type}

theorem watches_pure (value : Result) : Watches (pure value) (pure value) := by
  intro before result after ran earlier
  obtain ⟨rfl, rfl⟩ := runs_pure.1 ran
  exact ⟨earlier, runs_watched_pure.2 ⟨rfl, rfl, rfl⟩⟩

theorem watches_lift (action : CompileM Result) :
    Watches (liftM action) (liftM action : WatchedM Result) := by
  intro before result after ran earlier
  exact ⟨earlier, runs_watched_lift.2 ⟨rfl, ran⟩⟩

theorem watches_bind {plain : CompileM Result} {watching : WatchedM Result}
    {plainNext : Result → CompileM Next} {watchingNext : Result → WatchedM Next}
    (first : Watches plain watching)
    (next : ∀ value, Watches (plainNext value) (watchingNext value)) :
    Watches (plain >>= plainNext) (watching >>= watchingNext) := by
  intro before result after ran earlier
  obtain ⟨middle, between, firstRan, nextRan⟩ := runs_bind.1 ran
  obtain ⟨visits, firstWatched⟩ := first firstRan earlier
  obtain ⟨later, nextWatched⟩ := next middle nextRan visits
  exact ⟨later, runs_watched_bind.2 ⟨middle, visits, between, firstWatched, nextWatched⟩⟩

end Combinators

section Inner

variable {plain : Instruction → CompileM Unit} {watching : Instruction → WatchedM Unit}

private theorem watches_all
    (each : ∀ instruction, Watches (plain instruction) (watching instruction)) :
    ∀ body, Watches (all plain body) (all watching body)
  | [] => watches_pure ()
  | first :: rest => watches_bind (each first) fun _ => watches_all each rest

private theorem watches_filled
    (each : ∀ instruction, Watches (plain instruction) (watching instruction))
    (substitution : Substitution) :
    ∀ body, Watches (filled plain substitution body) (filled watching substitution body)
  | [] => watches_pure ()
  | _ :: rest =>
      watches_bind (watches_lift _) fun instruction =>
        watches_bind (each instruction) fun _ => watches_filled each substitution rest

private theorem watches_ahead
    (each : ∀ instruction, Watches (plain instruction) (watching instruction))
    (name : String) : Watches (ahead plain name) (ahead watching name) := by
  refine watches_bind (watches_lift _) fun started => ?_
  cases started with
  | none => exact watches_pure ()
  | some turned => exact watches_bind (each turned.1) fun _ => watches_lift _

theorem watches_ensure (each : ∀ instruction, Watches (plain instruction) (watching instruction))
    (scope : ScopeId) (endpoint : String) :
    Watches (ensure plain scope endpoint) (ensure watching scope endpoint) := by
  refine watches_bind (watches_lift _) fun unknown => ?_
  cases unknown with
  | false => exact watches_pure ()
  | true => exact watches_ahead each endpoint

private theorem watches_connect
    (each : ∀ instruction, Watches (plain instruction) (watching instruction))
    (source target : String) :
    Watches (connect plain source target) (connect watching source target) :=
  watches_bind (watches_lift _) fun scope =>
    watches_bind (watches_ensure each scope source) fun _ =>
      watches_bind (watches_ensure each scope target) fun _ => watches_lift _

private theorem watches_branchRoot
    (each : ∀ instruction, Watches (plain instruction) (watching instruction)) (label : String)
    (body : List Instruction) :
    Watches (branchRoot plain label body) (branchRoot watching label body) := by
  unfold branchRoot
  split
  · exact watches_pure none
  · exact watches_bind (watches_lift _) fun opened =>
      watches_bind (watches_filled each opened.substitution body) fun _ => watches_lift _

private theorem watches_branch
    (each : ∀ instruction, Watches (plain instruction) (watching instruction))
    (name : Option String) (test : Instruction) (body alternative : List Instruction) :
    Watches (branch plain name test body alternative)
      (branch watching name test body alternative) :=
  watches_bind (watches_lift _) fun plan =>
    watches_bind (watches_branchRoot each "then" plan.first) fun _ =>
      watches_bind (watches_branchRoot each "else" plan.second) fun _ => watches_lift _

private theorem watches_children
    (each : ∀ instruction, Watches (plain instruction) (watching instruction)) (start : Nat) :
    ∀ gathered body,
      Watches (children plain start gathered body) (children watching start gathered body)
  | gathered, [] => watches_pure gathered
  | _, child :: rest =>
      watches_bind (watches_lift _) fun _ =>
        watches_bind (each child) fun _ =>
          watches_bind (watches_lift _) fun gathered => watches_children each start gathered rest

private theorem watches_moduleDef
    (each : ∀ instruction, Watches (plain instruction) (watching instruction)) (name : String)
    (inputs outputs : List String) (body : List Instruction) :
    Watches (moduleDef plain name inputs outputs body)
      (moduleDef watching name inputs outputs body) := by
  refine watches_bind (watches_lift _) fun taken => ?_
  cases taken with
  | true => exact watches_lift _
  | false =>
      exact watches_bind (watches_lift _) fun _ =>
        watches_bind (watches_lift _) fun start =>
          watches_bind (watches_children each start [] body) fun _ => watches_lift _

private theorem watches_rounds
    (each : ∀ instruction, Watches (plain instruction) (watching instruction))
    (counter : String) (body : List Instruction) :
    ∀ count value,
      Watches (rounds plain counter body count value) (rounds watching counter body count value)
  | 0, _ => watches_pure ()
  | count + 1, value =>
      watches_bind (watches_filled each (roundSubstitution counter value) body) fun _ =>
        watches_rounds each counter body count (value + 1)

private theorem watches_loop
    (each : ∀ instruction, Watches (plain instruction) (watching instruction))
    (counter first last : String) (body : List Instruction) :
    Watches (loop plain counter first last body) (loop watching counter first last body) :=
  watches_bind (watches_lift _) fun range => watches_rounds each counter body range.2 range.1

private theorem watches_templateCall
    (each : ∀ instruction, Watches (plain instruction) (watching instruction)) (name : String)
    (args : List String) :
    Watches (templateCall plain name args) (templateCall watching name args) :=
  watches_bind (watches_lift _) fun opened =>
    watches_filled each opened.substitution opened.body

private theorem watches_expand
    (each : ∀ instruction, Watches (plain instruction) (watching instruction))
    (group : Option String) (annotations : TextTable) (body : List Instruction) :
    Watches (expand plain group annotations body) (expand watching group annotations body) :=
  watches_bind (watches_lift _) fun _ => watches_all each body

private theorem watches_step
    (each : ∀ instruction, Watches (plain instruction) (watching instruction))
    (instruction : Instruction) : Watches (step plain instruction) (step watching instruction) := by
  cases instruction with
  | program body => exact watches_all each body
  | block body => exact watches_all each body
  | layer spec => exact watches_lift (layer spec)
  | connect source target => exact watches_connect each source target
  | moduleDef name inputs outputs body => exact watches_moduleDef each name inputs outputs body
  | loop counter first last body => exact watches_loop each counter first last body
  | branch name test body alternative => exact watches_branch each name test body alternative
  | templateDef name parameters body => exact watches_lift (templateDef name parameters body)
  | templateCall name args => exact watches_templateCall each name args
  | call name args => exact watches_templateCall each name args
  | expand group annotations body => exact watches_expand each group annotations body
  | moduleCall _ _ => exact watches_lift (refuse .moduleCall)
  | condition _ => exact watches_lift (refuse .condition)
  | constant _ _ => exact watches_lift (refuse .constant)
  | file _ => exact watches_lift (refuse .file)
  | otherwise _ => exact watches_lift (refuse .otherwise)

end Inner

/-- A watched instruction adds exactly one visit, from the state it starts in to the state it ends
in. -/
theorem runs_watched_succ {depth : Nat} {instruction : Instruction} {earlier later : List Visit}
    {before after : CompileState} :
    Runs (watched (depth + 1) instruction earlier) before ((), later) after ↔
      ∃ inner,
        Runs (step (watched depth) instruction []) before ((), inner) after ∧
          later = earlier ++ [⟨instruction, before, after, inner⟩] := by
  rw [watched]
  constructor
  · intro ran
    obtain ⟨_, _, started, rest⟩ := runs_bind.1 ran
    obtain ⟨rfl, rfl⟩ := runs_get.1 started
    obtain ⟨⟨_, inner⟩, between, stepped, last⟩ := runs_bind.1 rest
    obtain ⟨_, _, finished, noted⟩ := runs_bind.1 last
    obtain ⟨rfl, rfl⟩ := runs_get.1 finished
    obtain ⟨same, rfl⟩ := runs_pure.1 noted
    exact ⟨inner, stepped, (Prod.mk.inj same).2⟩
  · rintro ⟨inner, stepped, rfl⟩
    exact runs_bind.2 ⟨before, before, runs_get.2 ⟨rfl, rfl⟩,
      runs_bind.2 ⟨((), inner), after, stepped,
        runs_bind.2 ⟨after, after, runs_get.2 ⟨rfl, rfl⟩, runs_pure.2 ⟨rfl, rfl⟩⟩⟩⟩

theorem not_runs_watched_zero {instruction : Instruction} {earlier later : List Visit}
    {before after : CompileState} :
    ¬ Runs (watched 0 instruction earlier) before ((), later) after := by
  intro ran
  exact not_runs_throw (runs_watched_lift.1 ran).2

/-- Watching a compilation does not change what it comes to. -/
theorem watches_within : ∀ depth instruction,
    Watches (within depth instruction) (watched depth instruction)
  | 0, instruction => watches_lift (within 0 instruction)
  | depth + 1, instruction => by
      intro ran earlier
      obtain ⟨inner, stepped⟩ := watches_step (watches_within depth) instruction ran []
      exact ⟨_, runs_watched_succ.2 ⟨inner, stepped, rfl⟩⟩

/-- A watched instruction that succeeds is noted. -/
theorem exists_visit_of_watched {depth : Nat} {instruction : Instruction}
    {before after : CompileState} {later : List Visit}
    (ran : Runs (watched depth instruction []) before ((), later) after) :
    ∃ inner, later = [⟨instruction, before, after, inner⟩] := by
  cases depth with
  | zero => exact absurd ran not_runs_watched_zero
  | succ depth =>
      obtain ⟨inner, _, rfl⟩ := runs_watched_succ.1 ran
      exact ⟨inner, rfl⟩

private theorem wiredUp_eq_ok {outcome : Except CompileFault Unit × CompileState}
    {final : CompileState} (succeeded : wiredUp outcome = (.ok (), final)) :
    ∃ built, outcome = (.ok (), built) ∧ final = bindAll built := by
  obtain ⟨_ | _, built⟩ := outcome
  · cases succeeded
  · exact ⟨built, rfl, (Prod.mk.inj succeeded).2.symm⟩

/-- Every successful compilation has a tree of visits. It starts where the names are registered, and
wiring the state that it ends in gives the final state. -/
theorem exists_rootVisit {name : String} {seed : UInt64} {program : Instruction}
    {final : CompileState} (succeeded : run name seed program = (.ok (), final)) :
    ∃ root,
      Runs (prepare name program) (CompileState.start name seed) () root.before ∧
        Runs (watched (depthFor program) program []) root.before ((), [root]) root.after ∧
        Runs (build name program) (CompileState.start name seed) () root.after ∧
        root.instruction = program ∧ rootVisit? name seed program = some root ∧
        final = bindAll root.after := by
  obtain ⟨built, builds, rfl⟩ := wiredUp_eq_ok succeeded
  have parts : Runs (build name program) (CompileState.start name seed) () built := builds
  obtain ⟨_, prepared, prepares, compiles⟩ := runs_bind.1 parts
  obtain ⟨later, watches⟩ := watches_within _ _ compiles []
  obtain ⟨inner, rfl⟩ := exists_visit_of_watched watches
  have whole : Runs (watchedBuild name program) (CompileState.start name seed)
      ((), [⟨program, prepared, built, inner⟩]) built :=
    runs_bind.2 ⟨(), prepared, prepares, watches⟩
  refine ⟨⟨program, prepared, built, inner⟩, prepares, watches, parts, rfl, ?_, rfl⟩
  rw [rootVisit?, whole]
  rfl

end NetBlueprint.Compile
