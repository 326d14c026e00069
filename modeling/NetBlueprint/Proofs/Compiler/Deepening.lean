import NetBlueprint.Proofs.Compiler.Terminating

/-!
Contract: the bound of the depth is no part of what a program compiles to.

An instruction that does not run into the bound of its depth does the same within every larger one.
A program without template calls never runs into a bound that suffices for it, so all such bounds
give one answer, and this answer is a network or a fault of the program.

Owns: the comparison of depths, and the end of every compilation without template calls.
-/

namespace NetBlueprint

namespace Compile

section Approximating

variable {Result Next : Type}

/-- Unless an action runs into the bound of its depth, another one does the same. -/
def Approximates (shallow deep : CompileM Result) : Prop :=
  ∀ before, (∃ after, Fails shallow before .endlessExpansion after) ∨
    deep.run before = shallow.run before

theorem approximates_refl (action : CompileM Result) : Approximates action action :=
  fun _ => .inr rfl

theorem approximates_bind {shallow deep : CompileM Result}
    {shallowNext deepNext : Result → CompileM Next} (first : Approximates shallow deep)
    (next : ∀ value, Approximates (shallowNext value) (deepNext value)) :
    Approximates (shallow >>= shallowNext) (deep >>= deepNext) := by
  intro before
  rcases first before with ⟨after, endless⟩ | same
  · exact .inl ⟨after, fails_bind.2 (.inl endless)⟩
  rcases outcome : shallow.run before with ⟨fault | value, between⟩
  · right
    rw [Outcome.run_bind, Outcome.run_bind, same, outcome]
  · rcases next value between with ⟨after, endless⟩ | sameNext
    · exact .inl ⟨after, fails_bind.2 (.inr ⟨value, between, outcome, endless⟩)⟩
    · right
      rw [Outcome.run_bind, Outcome.run_bind, same, outcome]
      exact sameNext

end Approximating

section Constructs

variable {shallow deep : Instruction → CompileM Unit}
  (each : ∀ instruction, Approximates (shallow instruction) (deep instruction))

include each

private theorem approximates_all : ∀ body, Approximates (all shallow body) (all deep body)
  | [] => approximates_refl _
  | first :: rest => approximates_bind (each first) fun _ => approximates_all rest

private theorem approximates_filled (substitution : Substitution) :
    ∀ body, Approximates (filled shallow substitution body) (filled deep substitution body)
  | [] => approximates_refl _
  | _ :: rest =>
      approximates_bind (approximates_refl _) fun instruction =>
        approximates_bind (each instruction) fun _ => approximates_filled substitution rest

private theorem approximates_ahead (name : String) :
    Approximates (ahead shallow name) (ahead deep name) := by
  refine approximates_bind (approximates_refl _) fun started => ?_
  cases started with
  | none => exact approximates_refl _
  | some turned => exact approximates_bind (each turned.1) fun _ => approximates_refl _

private theorem approximates_ensure (scope : ScopeId) (endpoint : String) :
    Approximates (ensure shallow scope endpoint) (ensure deep scope endpoint) := by
  refine approximates_bind (approximates_refl _) fun unknown => ?_
  cases unknown with
  | false => exact approximates_refl _
  | true => exact approximates_ahead each endpoint

private theorem approximates_branchRoot (label : String) (body : List Instruction) :
    Approximates (branchRoot shallow label body) (branchRoot deep label body) := by
  unfold branchRoot
  split
  · exact approximates_refl _
  · exact approximates_bind (approximates_refl _) fun opened =>
      approximates_bind (approximates_filled each opened.substitution body) fun _ =>
        approximates_refl _

private theorem approximates_children (start : Nat) : ∀ gathered body,
    Approximates (children shallow start gathered body) (children deep start gathered body)
  | _, [] => approximates_refl _
  | _, child :: rest =>
      approximates_bind (approximates_refl _) fun _ =>
        approximates_bind (each child) fun _ =>
          approximates_bind (approximates_refl _) fun gathered =>
            approximates_children start gathered rest

private theorem approximates_rounds (counter : String) (body : List Instruction) : ∀ count value,
    Approximates (rounds shallow counter body count value) (rounds deep counter body count value)
  | 0, _ => approximates_refl _
  | count + 1, value =>
      approximates_bind (approximates_filled each (roundSubstitution counter value) body) fun _ =>
        approximates_rounds counter body count (value + 1)

private theorem approximates_connect (source target : String) :
    Approximates (connect shallow source target) (connect deep source target) :=
  approximates_bind (approximates_refl _) fun scope =>
    approximates_bind (approximates_ensure each scope source) fun _ =>
    approximates_bind (approximates_ensure each scope target) fun _ => approximates_refl _

private theorem approximates_moduleDef (name : String) (inputs outputs : List String)
    (body : List Instruction) :
    Approximates (moduleDef shallow name inputs outputs body)
      (moduleDef deep name inputs outputs body) := by
  refine approximates_bind (approximates_refl _) fun taken => ?_
  cases taken with
  | true =>
      simp only [if_true]
      exact approximates_refl _
  | false =>
      exact approximates_bind (approximates_refl _) fun _ =>
        approximates_bind (approximates_refl _) fun start =>
        approximates_bind (approximates_children each start [] body) fun _ =>
          approximates_refl _

private theorem approximates_loop (counter first last : String) (body : List Instruction) :
    Approximates (loop shallow counter first last body) (loop deep counter first last body) :=
  approximates_bind (approximates_refl _) fun range =>
    approximates_rounds each counter body range.2 range.1

private theorem approximates_branch (name : Option String) (test : Instruction)
    (body alternative : List Instruction) :
    Approximates (branch shallow name test body alternative)
      (branch deep name test body alternative) :=
  approximates_bind (approximates_refl _) fun plan =>
    approximates_bind (approximates_branchRoot each "then" plan.first) fun _ =>
    approximates_bind (approximates_branchRoot each "else" plan.second) fun _ =>
      approximates_refl _

private theorem approximates_templateCall (name : String) (args : List String) :
    Approximates (templateCall shallow name args) (templateCall deep name args) :=
  approximates_bind (approximates_refl _) fun opened =>
    approximates_filled each opened.substitution opened.body

private theorem approximates_expand (group : Option String) (annotations : TextTable)
    (body : List Instruction) :
    Approximates (expand shallow group annotations body) (expand deep group annotations body) :=
  approximates_bind (approximates_refl _) fun _ => approximates_all each body

/-- A step does the same with more depth for what is inside of it. -/
theorem approximates_step (instruction : Instruction) :
    Approximates (step shallow instruction) (step deep instruction) := by
  cases instruction with
  | program body | block body => exact approximates_all each body
  | connect source target => exact approximates_connect each source target
  | moduleDef name inputs outputs body => exact approximates_moduleDef each name inputs outputs body
  | loop counter first last body => exact approximates_loop each counter first last body
  | branch name test body alternative => exact approximates_branch each name test body alternative
  | templateCall name args | call name args => exact approximates_templateCall each name args
  | expand group annotations body => exact approximates_expand each group annotations body
  | _ => exact approximates_refl _

end Constructs

/-- More depth changes nothing but a run into the bound. -/
theorem approximates_within : ∀ (depth more : Nat) (instruction : Instruction),
    Approximates (within depth instruction) (within (depth + more) instruction)
  | 0, _, _ => fun before => .inl ⟨before, fails_throw.2 ⟨rfl, rfl⟩⟩
  | depth + 1, more, instruction => by
      rw [Nat.add_right_comm]
      exact approximates_step (approximates_within depth more) instruction

/-! ## The end of a compilation -/

def buildWithin (depth : Nat) (name : String) (program : Instruction) : CompileM Unit := do
  prepare name program
  within depth program

def compileWithin (depth : Nat) (name : String) (seed : UInt64) (program : Instruction) :
    Except CompileError Compiled :=
  answer (wiredUp ((buildWithin depth name program).run (CompileState.start name seed)))

/-- If a run stops at a request for a suffix, some number of further words would serve it. Every
other request of the run was served. -/
def Served (name : String) (seed : UInt64) (program : Instruction) : Prop :=
  ∀ label request, run name seed program =
      (.error (.suffixesExhausted label), request.afterWords Suffix.attemptLimit) →
    ∃ attempt, attempted label request attempt ∉ request.usedSuffixes

section Ending

variable {name : String} {seed : UInt64} {program : Instruction}

/-- A depth that suffices for a program without template calls. -/
def enoughFor (program : Instruction) : Nat :=
  (program.nodeCount + 1) * (program.nodeCount + 1)

private theorem bounded_prescan (callFree : program.isCallFree = true) :
    Bounded (program.prescan []) program.nodeCount := by
  intro name instruction member noTemplate
  rcases (Instruction.offered_of_prescan member).2 with offered | isTemplate
  · have sublist := Instruction.sublist_of_mem_offers offered
    refine ⟨Instruction.isCallFree_of_sublist sublist callFree, ?_⟩
    rw [← Instruction.length_opcodes, ← Instruction.length_opcodes]
    exact sublist.length_le
  · rw [noTemplate] at isTemplate
    cases isTemplate

/-- Within a depth that suffices, a build only stops at a fault that is accounted for. -/
theorem accounts_of_buildWithin (callFree : program.isCallFree = true) {depth : Nat}
    (deep : enoughFor program ≤ depth) {fault : CompileFault} {final : CompileState}
    (failed : Fails (buildWithin depth name program) (CompileState.start name seed) fault final) :
    Accounts fault final := by
  rcases fails_bind.1 failed with early | ⟨_, prepared, prepares, late⟩
  · exact absurd early (total_prepare name program).not_fails
  obtain ⟨registry, _, inProgress⟩ := Books.mk.inj (books_of_prepare prepares)
  have underway : Underway (program.prescan []) [] prepared :=
    ⟨registry ▸ List.Subset.refl _, inProgress⟩
  have registered : waiting (program.prescan []) [] ≤ program.nodeCount := by
    refine Nat.le_trans List.countP_le_length ?_
    have length := Instruction.length_prescan_le [] program
    rwa [List.length_nil, Nat.zero_add] at length
  refine (maintains_within (bounded_prescan callFree) depth [] program callFree ?_).excused
    underway late
  have product := Nat.mul_le_mul_right (program.nodeCount + 1) registered
  rw [enoughFor, Nat.add_mul, Nat.one_mul] at deep
  omega

/-- All depths that suffice give the same build. -/
theorem run_buildWithin (callFree : program.isCallFree = true) {depth : Nat}
    (deep : enoughFor program ≤ depth) :
    (buildWithin depth name program).run (CompileState.start name seed) =
      (buildWithin (enoughFor program) name program).run (CompileState.start name seed) := by
  obtain ⟨more, rfl⟩ := Nat.exists_eq_add_of_le deep
  have approximates : Approximates (buildWithin (enoughFor program) name program)
      (buildWithin (enoughFor program + more) name program) :=
    approximates_bind (approximates_refl _) fun _ => approximates_within _ more program
  rcases approximates (CompileState.start name seed) with ⟨final, endless⟩ | same
  · obtain ⟨_, _, other, _⟩ :=
      accounts_of_buildWithin callFree (Nat.le_refl _) endless rfl
    cases other
  · exact same

/-- The depth of a run is enough for a program without calls. -/
theorem enoughFor_le_depthFor (program : Instruction) : enoughFor program ≤ depthFor program :=
  Nat.le_add_right _ _

/-- Where all requests for suffixes are served, a run stops only at faults that are not endless. -/
theorem isEndless_of_run (callFree : program.isCallFree = true) (served : Served name seed program)
    {fault : CompileFault} {final : CompileState}
    (stopped : run name seed program = (.error fault, final)) : fault.isEndless = false := by
  have failed : Fails (buildWithin (depthFor program) name program) (CompileState.start name seed)
      fault final := by
    rcases outcome : (build name program).run (CompileState.start name seed) with ⟨early | _, last⟩
    · rw [run, outcome] at stopped
      cases stopped
      exact outcome
    · rw [run, outcome] at stopped
      cases stopped
  have accounts := accounts_of_buildWithin callFree (enoughFor_le_depthFor program) failed
  rw [← Bool.not_eq_true]
  intro endless
  obtain ⟨label, request, rfl, rfl, unserved⟩ := accounts endless
  obtain ⟨attempt, unused⟩ := served label request stopped
  exact unused (unserved attempt)

/-- Every compilation of a program without template calls comes to an end, however its loops,
branches, modules and connections are nested and refer to each other: within every depth from a
certain one on it gives the same answer, a network or a fault that is not endless. -/
theorem compile_ends (callFree : program.isCallFree = true) (served : Served name seed program) :
    ((∃ compiled, compile name seed program = .ok compiled) ∨
      ∃ error, compile name seed program = .error error ∧ error.fault.isEndless = false) ∧
      ∀ depth, enoughFor program ≤ depth →
        compileWithin depth name seed program = compile name seed program := by
  have whole : compile name seed program = compileWithin (depthFor program) name seed program :=
    rfl
  refine ⟨?_, fun depth deep => ?_⟩
  · rcases outcome : run name seed program with ⟨fault | _, final⟩
    · have answered : compile name seed program = .error ⟨fault, final.trace.toList⟩ := by
        rw [compile, outcome]
        rfl
      exact .inr ⟨_, answered, isEndless_of_run callFree served outcome⟩
    · have answered : compile name seed program = .ok ⟨final.network, final.trace.toList⟩ := by
        rw [compile, outcome]
        rfl
      exact .inl ⟨_, answered⟩
  · rw [whole, compileWithin, compileWithin, run_buildWithin callFree deep,
      run_buildWithin callFree (enoughFor_le_depthFor program)]

/-- Two modules that connect to each other and to themselves, in a loop and in a branch. -/
def mutualModules : Instruction :=
  .program
    [.moduleDef "a" [] [] [.connect "b" "a", sizedLayer "dense" "x" 1],
      .moduleDef "b" [] [] [.loop "i" "1" "2" [.connect "a" "b"]],
      .branch none (.condition "x > 0") [.connect "b" "a"] []]

/-- Modules that refer to each other are compiled, and every request for a suffix is served. -/
theorem mutual_modules_end :
    mutualModules.isCallFree = true ∧ Served "net" 0 mutualModules ∧
      ∃ compiled, compile "net" 0 mutualModules = .ok compiled ∧
        compileWithin (enoughFor mutualModules) "net" 0 mutualModules = .ok compiled := by
  have callFree : mutualModules.isCallFree = true := by decide
  have passed : (compile "net" 0 mutualModules).toOption.any fun _ => true := by decide +kernel
  obtain ⟨compiled, compiles, _⟩ := exists_compiled passed
  have served : Served "net" 0 mutualModules := by
    intro label request stopped
    rw [compile, stopped] at compiles
    cases compiles
  exact ⟨callFree, served, compiled, compiles,
    ((compile_ends callFree served).2 _ (Nat.le_refl _)).trans compiles⟩

end Ending

end Compile

end NetBlueprint
