import NetBlueprint.Proofs.Compiler.Connections
import NetBlueprint.Proofs.Compiler.RespelledRuns

/-!
Contract: what another seed changes.

Two compilations of one program with different seeds stay in step, so they fail with faults of one
kind, or they end with networks that differ in the suffixes of names and in texts that are kept as
they are. The program has no underscores, no empty names, and names of templates that are made of
letters and digits, and no request for a suffix needs many redraws. A name that is empty keeps its
suffix when suffixes are stripped, and then the seed shows.

Owns: the answers of two compilations.
-/

namespace NetBlueprint

variable {pairs : List (String × String)}

/-! ## What is registered -/

namespace Instruction

private theorem rel_forwardName? {one other : Instruction}
    (instructions : one.Corresponds pairs other) :
    Option.Rel (fun name otherName => RegisteredCorresponds pairs (name, one) (otherName, other))
      one.forwardName? other.forwardName? := by
  have sameBracket {name otherName : String} (names : RespelledText pairs name otherName) :
      name.toList.contains '[' = otherName.toList.contains '[' := by
    rw [List.contains_eq_any_beq, List.contains_eq_any_beq]
    refine Respelled.any_eq (fun character isWord => ?_) names
    rw [beq_eq_false_iff_ne]
    rintro rfl
    cases isWord
  have named {name otherName : String} (names : RespelledName pairs name otherName)
      (noTemplate : ∀ name parameters body, one ≠ .templateDef name parameters body) :
      Option.Rel (fun name otherName => RegisteredCorresponds pairs (name, one) (otherName, other))
        (if name.toList.contains '[' then none else some name)
        (if otherName.toList.contains '[' then none else some otherName) := by
    rw [sameBracket names.respelled]
    split
    · exact .none
    · exact .some ⟨names, instructions, fun _ _ _ same => absurd same (noTemplate _ _ _)⟩
  cases instructions with
  | layer specs => exact named specs.name nofun
  | moduleDef names => exact named names nofun
  | @templateDef name _ _ _ isLabel plain body =>
      have names : RespelledName pairs name name :=
        .refl_of_plain isLabel.noUnderscore fun empty => isLabel.1 (by rw [empty]; rfl)
      rw [forwardName?, forwardName?]
      split
      · exact .none
      · refine .some ⟨names, .templateDef isLabel plain body, fun _ _ _ same => ?_⟩
        cases same
        rfl
  | _ => exact .none

private theorem rel_register (pairing : Suffix.Pairing pairs) {one other : Instruction}
    (instructions : one.Corresponds pairs other)
    {registry otherRegistry : List (String × Instruction)}
    (registries : List.Forall₂ (RegisteredCorresponds pairs) registry otherRegistry) :
    List.Forall₂ (RegisteredCorresponds pairs)
      (match forwardName? one with
        | some name => CompileState.offered registry name one
        | none => registry)
      (match forwardName? other with
        | some name => CompileState.offered otherRegistry name other
        | none => otherRegistry) := by
  have names := rel_forwardName? instructions
  generalize forwardName? one = name at names ⊢
  generalize forwardName? other = otherName at names ⊢
  cases names with
  | none => exact registries
  | some entry =>
      have found := Table.rel_lookup registries fun registered =>
        entry.key.eq_iff pairing registered.key
      dsimp only at found ⊢
      unfold CompileState.offered
      rw [isSome_eq_of_rel found]
      split
      · exact registries
      · exact List.rel_append registries (.cons entry .nil)

private theorem prescan_templateDef (registry : List (String × Instruction)) (name : String)
    (parameters : List String) (body : List Instruction) :
    prescan registry (.templateDef name parameters body) =
      match forwardName? (.templateDef name parameters body) with
      | some declared => CompileState.offered registry declared (.templateDef name parameters body)
      | none => registry := by
  rw [prescan, forwardName?]
  by_cases bracket : name.toList.contains '[' = true
  · rw [if_pos bracket]
  · rw [if_neg bracket]

private theorem prescan_moduleDef (registry : List (String × Instruction)) (name : String)
    (inputs outputs : List String) (body : List Instruction) :
    prescan registry (.moduleDef name inputs outputs body) =
      Instruction.prescanAll
        (match forwardName? (.moduleDef name inputs outputs body) with
          | some declared =>
            CompileState.offered registry declared (.moduleDef name inputs outputs body)
          | none => registry) body := by
  rw [prescan, forwardName?]
  by_cases bracket : name.toList.contains '[' = true
  · rw [if_pos bracket]
  · rw [if_neg bracket]

mutual

/-- Programs that correspond register what corresponds. -/
theorem Corresponds.prescan (pairing : Suffix.Pairing pairs) {one other : Instruction}
    {registry otherRegistry : List (String × Instruction)}
    (instructions : one.Corresponds pairs other)
    (registries : List.Forall₂ (RegisteredCorresponds pairs) registry otherRegistry) :
    List.Forall₂ (RegisteredCorresponds pairs) (one.prescan registry)
      (other.prescan otherRegistry) := by
  cases instructions with
  | program body => exact body.prescanAll pairing registries
  | block body => exact body.prescanAll pairing registries
  | expand _ _ body => exact body.prescanAll pairing registries
  | layer specs => exact rel_register pairing (.layer specs) registries
  | moduleDef names allInputs allOutputs body =>
      rw [prescan_moduleDef, prescan_moduleDef]
      exact body.prescanAll pairing
        (rel_register pairing (.moduleDef names allInputs allOutputs body) registries)
  | templateDef isLabel plain body =>
      rw [prescan_templateDef, prescan_templateDef]
      exact rel_register pairing (.templateDef isLabel plain body) registries
  | _ => exact registries

/-- Lists that correspond register what corresponds. -/
theorem AllCorrespond.prescanAll (pairing : Suffix.Pairing pairs) {one other : List Instruction}
    {registry otherRegistry : List (String × Instruction)}
    (body : AllCorrespond pairs one other)
    (registries : List.Forall₂ (RegisteredCorresponds pairs) registry otherRegistry) :
    List.Forall₂ (RegisteredCorresponds pairs) (Instruction.prescanAll registry one)
      (Instruction.prescanAll otherRegistry other) := by
  cases body with
  | nil => exact registries
  | cons head rest => exact rest.prescanAll pairing (head.prescan pairing registries)

end

end Instruction

namespace Compile

/-! ## The final wiring -/

private theorem bindOne_corresponds (pairing : Suffix.Pairing pairs)
    {connection otherConnection : PendingConnect}
    (connections : connection.Corresponds pairs otherConnection) {state otherState : CompileState}
    (states : state.Corresponds pairs otherState) (tally otherTally : Tally) :
    (bindOne connection tally state).2.Corresponds pairs
      (bindOne otherConnection otherTally otherState).2 := by
  unfold bindOne
  rw [connections.scope, states.resolve_eq pairing _ connections.source,
    states.resolve_eq pairing _ connections.target]
  split
  · rename_i source target _ _
    have connects := states.network.connect source target
    generalize state.network.connect source target = outcome at connects ⊢
    generalize otherState.network.connect source target = otherOutcome at connects ⊢
    cases connects with
    | error => exact states
    | ok networks =>
        dsimp only
        split <;> split <;> exact { states with network := networks }
  · exact states

private theorem bindEach_corresponds (pairing : Suffix.Pairing pairs)
    {connections otherConnections : List PendingConnect}
    (related : List.Forall₂ (PendingConnect.Corresponds pairs) connections otherConnections) :
    ∀ {tally otherTally : Tally} {state otherState : CompileState},
      state.Corresponds pairs otherState →
        (bindEach connections (tally, state)).2.Corresponds pairs
          (bindEach otherConnections (otherTally, otherState)).2 := by
  induction related with
  | nil => exact id
  | cons first _ inductionHypothesis =>
      intro tally otherTally state otherState states
      exact inductionHypothesis (bindOne_corresponds pairing first states tally otherTally)

/-- States in step are wired alike. -/
theorem bindAll_corresponds {state otherState : CompileState}
    (states : state.InStep pairs otherState) :
    (bindAll state).Corresponds pairs (bindAll otherState) :=
  { bindEach_corresponds states.pairing states.corresponds.pending states.corresponds with }

private theorem usedSuffixes_bindEach : ∀ (connections : List PendingConnect) (tally : Tally)
    (state : CompileState),
    (bindEach connections (tally, state)).2.usedSuffixes = state.usedSuffixes
  | [], _, _ => rfl
  | connection :: rest, tally, state => by
      have kept : (bindOne connection tally state).2.usedSuffixes = state.usedSuffixes := by
        unfold bindOne
        split
        · split
          · rfl
          · dsimp only
            split <;> rfl
        · rfl
      exact (usedSuffixes_bindEach rest _ _).trans kept

private theorem fewRedraws_of_wiredUp {outcome : Except CompileFault Unit × CompileState}
    (few : FewRedraws (wiredUp outcome)) : FewRedraws outcome := by
  obtain ⟨fault | result, state⟩ := outcome
  · exact few
  · have kept : (bindAll state).usedSuffixes = state.usedSuffixes := usedSuffixes_bindEach _ _ _
    exact ⟨nofun, kept ▸ few.short⟩

end Compile

/-! ## Whole compilations -/

/-- A layer of one network and that of another in its place: the names are equal without their
suffixes. -/
structure Layer.SameButForSuffixes (one other : Layer) : Prop where
  id : one.id = other.id
  name : Name.base one.name = Name.base other.name
  kind : one.kind.SameUpToTexts other.kind
  inputs : one.inputs = other.inputs
  outputs : one.outputs = other.outputs

/-- Networks with the same layers, edges and numbers of issues, apart from the suffixes of names and
texts that are kept as they are. -/
structure Network.SameButForSuffixes (one other : Network) : Prop where
  layers : List.Forall₂ Layer.SameButForSuffixes one.layers.toList other.layers.toList
  issues : one.issues.length = other.issues.length

private theorem Network.Corresponds.sameButForSuffixes {one other : Network}
    (networks : one.Corresponds pairs other) : one.SameButForSuffixes other :=
  { layers := networks.layers.imp fun _ _ layer =>
      { layer with name := layer.name.base_eq }
    issues := networks.issues }

namespace Compile

section Reseeding

variable {name : String} {seed otherSeed : UInt64} {program : Instruction}

private theorem inStep_start : (CompileState.start name seed).InStep []
    (CompileState.start name otherSeed) where
  corresponds :=
    { network := ⟨.nil, .nil, rfl⟩
      registry := .nil
      compiledAhead := .nil
      aheadInProgress := .nil
      pending := .nil
      scopes := .cons ⟨rfl, .nil⟩ .nil
      current := rfl
      firstNamed := .nil
      inputCache := .nil
      branchCount := rfl }
  pairing := List.forall_mem_nil _
  used := rfl
  otherUsed := rfl

private theorem stayInStep_prepare (programs : program.Corresponds pairs program) :
    StayInStep pairs (· = ·) (prepare name program) (prepare name program) := by
  refine stayInStep_bind_eq (stayInStep_log _ _) fun _ => ?_
  refine stayInStep_bind_eq (stayInStep_modify (fun _ => rfl) (fun _ => rfl) fun states =>
    { states.corresponds with registry := programs.prescan states.pairing .nil }) fun _ => ?_
  exact stayInStep_get_bind fun _ => stayInStep_log _ _

/-- The seed changes nothing but suffixes: with another seed a compilation fails with a fault of the
same kind, or it gives the same network but for the suffixes of names. -/
theorem compile_reseeded (plain : ArePlain program.strings)
    (few : FewRedraws (run name seed program))
    (otherFew : FewRedraws (run name otherSeed program)) :
    Outcome.Matches
      (fun error otherError => error.fault.kindName = otherError.fault.kindName)
      (fun compiled otherCompiled =>
        compiled.network.SameButForSuffixes otherCompiled.network)
      (compile name seed program) (compile name otherSeed program) := by
  have programs : program.Corresponds [] program := Instruction.corresponds_self plain
  have builds : DrawInStep [] Same (build name program) (build name program) :=
    (stayInStep_prepare programs).bind_draws fun _ => drawInStep_within _ programs
  obtain ⟨pairs, _, ends⟩ :=
    builds.ends inStep_start (fewRedraws_of_wiredUp few) (fewRedraws_of_wiredUp otherFew)
  unfold compile run
  generalize (build name program).run _ = outcome at ends ⊢
  generalize (build name program).run _ = otherOutcome at ends ⊢
  cases ends with
  | failed faults => exact .error faults
  | succeeded _ states => exact .ok (bindAll_corresponds states).network.sameButForSuffixes

def callsBranch : Instruction :=
  .program
    [sizedLayer "input" "x" 1,
      .templateDef "block" ["p"]
        [sizedLayer "dense" "h" 1, .connect "x" "h",
          .branch (some "gate") (.condition "x > 0") [sizedLayer "output" "p" 1] []],
      .templateCall "block" ["y"]]

theorem compile_reseeded_call :
    ArePlain callsBranch.strings ∧ FewRedraws (run "net" 0 callsBranch) ∧
      FewRedraws (run "net" 1 callsBranch) ∧
      Outcome.Matches
        (fun error otherError => error.fault.kindName = otherError.fault.kindName)
        (fun compiled otherCompiled =>
          compiled.network.SameButForSuffixes otherCompiled.network)
        (compile "net" 0 callsBranch) (compile "net" 1 callsBranch) := by
  have plain : ArePlain callsBranch.strings := by decide +kernel
  have few : FewRedraws (run "net" 0 callsBranch) := by decide +kernel
  have otherFew : FewRedraws (run "net" 1 callsBranch) := by decide +kernel
  exact ⟨plain, few, otherFew, compile_reseeded plain few otherFew⟩

/-- A program without underscores, compiled with few redraws under two seeds, of which both
succeed with networks that differ in more than suffixes. -/
def ShowsSeed (program : Instruction) (seed otherSeed : UInt64) : Prop :=
  (∀ entry ∈ program.strings, '_' ∉ entry.2.toList) ∧ FewRedraws (run "net" seed program) ∧
    FewRedraws (run "net" otherSeed program) ∧
    ∃ compiled otherCompiled, compile "net" seed program = .ok compiled ∧
      compile "net" otherSeed program = .ok otherCompiled ∧
      ¬ compiled.network.SameButForSuffixes otherCompiled.network

/-- A template that declares a layer with an empty name. -/
def nameless : Instruction :=
  .program [.templateDef "m" [] [sizedLayer "dense" "" 1], .templateCall "m" []]

/-- Two templates whose names become equal when a loop fills its counter in. -/
def clashing : Instruction :=
  .program
    [sizedLayer "input" "x" 1,
      .templateDef "a i b" []
        [.loop "i" "1" "1" [sizedLayer "dense" "h" 1, .connect "x" "h"]],
      .templateDef "a 1 b" [] [sizedLayer "dense" "h" 1, .connect "x" "h"],
      .templateCall "a i b" [], .templateCall "a 1 b" []]

private theorem showsSeed_of_apart {program : Instruction} {seed otherSeed : UInt64}
    (plain : ∀ entry ∈ program.strings, '_' ∉ entry.2.toList)
    (few : FewRedraws (run "net" seed program)) (otherFew : FewRedraws (run "net" otherSeed program))
    (apart : (compile "net" seed program).toOption.any (fun compiled =>
      (compile "net" otherSeed program).toOption.any fun other =>
        compiled.network.layers.toList.map (fun layer => (Name.base layer.name, layer.outputs)) !=
          other.network.layers.toList.map
            fun layer => (Name.base layer.name, layer.outputs)) = true) :
    ShowsSeed program seed otherSeed := by
  obtain ⟨compiled, compiles, apart⟩ := exists_compiled apart
  obtain ⟨other, otherCompiles, apart⟩ := exists_compiled apart
  refine ⟨plain, few, otherFew, compiled, other, compiles, otherCompiles, fun same => ?_⟩
  refine bne_iff_ne.1 apart ?_
  rw [← List.forall₂_eq_eq_eq, List.forall₂_map_left_iff, List.forall₂_map_right_iff]
  exact same.layers.imp fun _ _ layer => Prod.ext layer.name layer.outputs

/-- An empty name keeps its suffix when suffixes are stripped. A name of a template that is no word
may change inside a suffix, and then two suffixes are equal for some seeds. -/
theorem showsSeed_nameless_and_clashing : ShowsSeed nameless 0 1 ∧ ShowsSeed clashing 0 5536 :=
  ⟨showsSeed_of_apart (by decide +kernel) (by decide +kernel) (by decide +kernel)
      (by decide +kernel),
    showsSeed_of_apart (by decide +kernel) (by decide +kernel) (by decide +kernel)
      (by decide +kernel)⟩

/-- A name that is written out may become empty where an empty argument is filled in. -/
example : ShowsSeed (.program
    [.templateDef "m" ["p"] [sizedLayer "dense" "[p][p]" 1], .templateCall "m" [""]]) 0 1 :=
  showsSeed_of_apart (by decide +kernel) (by decide +kernel) (by decide +kernel)
    (by decide +kernel)

end Reseeding

end Compile

end NetBlueprint
