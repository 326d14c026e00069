import NetBlueprint.Proofs.Compiler.Connections
import NetBlueprint.Proofs.Compiler.Parts
import NetBlueprint.Proofs.Substitution.Scanning

/-!
Contract: when a name that a caller passes to a template is taken for one of the template's own.

The rename table of a call is looked up by names as filled in, so it cannot tell an argument from a
definition that is spelled alike. A connection that starts at a parameter starts at the caller's
layer as long as the call leaves the argument alone; it starts at a layer of the template as soon as
the body defines the argument's name, and at another layer of the caller when a word of the argument
is a parameter itself.

Owns: where connections that start at a parameter start.
-/

namespace NetBlueprint

namespace Compile

def bracketed (parameter : String) : String :=
  "[" ++ parameter ++ "]"

section Sources

variable {call : Visit} {opened : OpenTemplate} {label : String}

private theorem name_of_connect {substitution : Substitution} {source target : String}
    {first last : String}
    (applied : substitution.apply (.connect source target) = .ok (.connect first last)) :
    substitution.name source = .ok first := by
  obtain ⟨filledSource, sourceFilled, rest⟩ := Outcome.bind_eq_ok.1 applied
  obtain ⟨filledTarget, _, same⟩ := Outcome.bind_eq_ok.1 rest
  cases Outcome.pure_eq_ok.1 same
  exact sourceFilled

private theorem rename_argument_iff (faithful : call.Faithful)
    (opens : opened? call = some (label, opened)) (argument : String) :
    opened.substitution.rename argument = argument ↔
      ∀ definition ∈ Instruction.definitionsOf opened.body,
        definition.isExempt opened.parameters false = false →
          opened.substitution.substitute definition.template ≠ .ok argument := by
  obtain ⟨args, start, ran, _⟩ := filled_of_opened faithful opens
  obtain ⟨draws, _, renames, built, isOpened⟩ := runs_openTemplate ran
  have held := Substitution.isSome_lookup_hygienicRenames built argument
  have texts (text : String) : opened.substitution.substitute text =
      (callSubstitution opened.parameters args opened.suffix).substitute text := by
    rw [isOpened, Substitution.substitute_withRenames]
  have table : opened.substitution.renames = renames := by rw [isOpened]; rfl
  simp only [texts]
  constructor
  · intro same definition listed hygienic filled
    have isHeld := held.2 ⟨definition, listed, hygienic, filled⟩
    obtain ⟨renamed, isRenamed⟩ := Option.isSome_iff_exists.1 isHeld
    have suffixes := Substitution.suffixes_of_hygienicRenames built
    have spelled : renamed = argument ++ opened.suffix :=
      suffixes argument renamed (Table.mem_of_lookup isRenamed)
    rw [Substitution.rename, table, isRenamed, Option.getD_some, spelled] at same
    obtain ⟨attempt, word, suffixIs⟩ := draws.spelled
    obtain ⟨mark, _, suffixText⟩ := Suffix.toList_suffixText label attempt word
    have length := congrArg (fun text : String => text.toList.length) same
    simp [String.toList_append, suffixIs, suffixText, Suffix.spelling] at length
  · intro undefined
    cases found : renames.lookup argument with
    | none => rw [Substitution.rename, table, found, Option.getD_none]
    | some renamed =>
        obtain ⟨definition, listed, hygienic, filled⟩ := held.1 (by rw [found]; rfl)
        exact absurd filled (undefined definition listed hygienic)

private theorem source_of_direct (faithful : call.Faithful)
    (opens : opened? call = some (label, opened)) {position : Nat} {part : Part}
    (found : partAt call opened [position] = some part) {parameter argument target : String}
    (identifier : Text.isIdentifier parameter.toList = true)
    (passed : opened.substitution.value? parameter = some argument)
    (plain : opened.substitution.fillWords argument.toList = argument.toList)
    (isTemplate : part.template = .connect (bracketed parameter) target) {first last : String}
    (connects : part.visit.instruction = .connect first last) :
    first = opened.substitution.rename argument := by
  obtain ⟨_, _, _, sequence⟩ := filled_of_opened faithful opens
  rw [partAt, partFrom] at found
  split at found
  · rename_i template visit isChild isVisit
    cases found
    have inBody : opened.body[position]? = some template := isChild
    obtain ⟨other, isOther, matching⟩ := sequence.matching isVisit
    cases inBody.symm.trans isOther
    have applied : opened.substitution.apply template = .ok visit.instruction := matching
    dsimp only at isTemplate connects
    rw [isTemplate, connects] at applied
    have named := name_of_connect applied
    rw [Substitution.name, bracketed, Substitution.substitute_parameter identifier passed, plain,
      String.ofList_toList] at named
    exact (Except.ok.inj named).symm
  · cases found

end Sources

section Runs

variable {name : String} {seed : UInt64} {program : Instruction} {compiled : Compiled}

/-- A connection in the body of a template starts at a parameter, and a call passes the name of a
layer that is visible from it and that no other layer has. Where what the
connection then starts at is the name of a layer, its edge starts at the caller's layer exactly when
the call leaves the argument as it is. For a connection that stands in the body itself, and an
argument that holds no parameter, this means that the body defines no name spelled like the
argument. -/
theorem argument_starts_edge_iff (compiles : compile name seed program = .ok compiled) :
    ∃ root, rootVisit? name seed program = some root ∧ root.instruction = program ∧
      ∀ call label opened parameter argument origin, Visit.Within call root →
        opened? call = some (label, opened) →
        opened.substitution.value? parameter = some argument →
        call.before.lookupChain call.before.current argument = some origin →
        (∀ id, compiled.network.Named argument id → id = origin) →
          ∀ position path part target first last source sink,
            partAt call opened (position :: path) = some part →
            part.template = .connect (bracketed parameter) target →
            part.visit.instruction = .connect first last →
            (∃ id, compiled.network.Named first id) →
            (finalState name seed program).resolve part.visit.before.current first = some source →
            (finalState name seed program).resolve part.visit.before.current last = some sink →
              compiled.network.Edge source sink ∧ (source = origin ↔ first = argument) ∧
                (path = [] → Text.isIdentifier parameter.toList = true →
                  opened.substitution.fillWords argument.toList = argument.toList →
                    (source = origin ↔
                      ∀ definition ∈ Instruction.definitionsOf opened.body,
                        definition.isExempt opened.parameters false = false →
                          opened.substitution.substitute definition.template ≠ .ok argument)) := by
  obtain ⟨root, rootOf⟩ := exists_rootOf compiles
  refine ⟨root, rootOf.isRoot, rootOf.instruction, ?_⟩
  intro call label opened parameter argument origin within opens passed visible unique position path
    part target first last source sink found isTemplate connects named sourceFound sinkFound
  have faithful := rootOf.faithful.within within
  have isPart := isPartOf_of_partAt faithful opens found
  rw [rootOf.final] at sourceFound sinkFound
  have edge : compiled.network.Edge source sink :=
    rootOf.edge_of_resolve (isPart.within.trans within) connects sourceFound sinkFound
  have sourceNamed : compiled.network.Named first source := by
    obtain ⟨id, firstNamed⟩ := named
    rw [rootOf.network] at firstNamed ⊢
    exact rootOf.binds.sound.named_of_resolve firstNamed sourceFound
  have originNamed : compiled.network.Named argument origin := by
    have around := rootOf.faithful.around within
    have callSound : call.before.Sound := rootOf.faithful.sound_before within rootOf.sound
    have early : call.before.network.Named argument origin := callSound.lookupChain visible
    have grows := faithful.grows.network.trans (around.2.network.trans rootOf.binds.grows)
    rw [rootOf.network]
    exact grows.named early
  have starts_iff : source = origin ↔ first = argument := by
    constructor
    · rintro rfl
      obtain ⟨layer, layerFound, isFirst⟩ := sourceNamed
      obtain ⟨same, sameFound, isArgument⟩ := originNamed
      cases layerFound.symm.trans sameFound
      exact isFirst.symm.trans isArgument
    · rintro rfl
      exact unique source sourceNamed
  refine ⟨edge, starts_iff, ?_⟩
  rintro rfl identifier plain
  have isSource : first = opened.substitution.rename argument :=
    source_of_direct faithful opens found identifier passed plain isTemplate connects
  rw [starts_iff, isSource]
  exact rename_argument_iff faithful opens argument

end Runs

/-! ## An argument that is spelled like a definition -/

/-- A layer `x` is passed to a template that connects it to a layer of its own and defines one
layer more. -/
def passesLayer (defined : String) : Instruction :=
  .program [sizedLayer "dense" "x" 1,
    .templateDef "m" ["p"]
      [sizedLayer "dense" defined 1, sizedLayer "dense" "t" 1, .connect "[p]" "t"],
    .templateCall "m" ["x"]]

private def passingCall? (root : Visit) : Option (Visit × OpenTemplate × Part × String × String) :=
  match root.inner with
  | [_, _, call] =>
    match opened? call with
    | some ("m", opened) =>
      match partAt call opened [2] with
      | some ⟨counters, .connect "[p]" "t", visit⟩ =>
        match visit.instruction with
        | .connect first last =>
          some (call, opened, ⟨counters, .connect "[p]" "t", visit⟩, first, last)
        | _ => none
      | _ => none
    | _ => none
  | _ => none

private structure Passes (defined : String) (compiled : Compiled) (call : Visit)
    (opened : OpenTemplate) (part : Part) (first last : String) (source : LayerId) : Prop where
  compiles : compile "net" 0 (passesLayer defined) = .ok compiled
  within : ∃ root, rootVisit? "net" 0 (passesLayer defined) = some root ∧ Visit.Within call root
  opens : opened? call = some ("m", opened)
  current : call.before.current = 0
  passed : opened.substitution.value? "p" = some "x"
  visible : call.before.lookupChain call.before.current "x" = some 0
  found : partAt call opened [2] = some part
  isTemplate : part.template = .connect (bracketed "p") "t"
  connects : part.visit.instruction = .connect first last
  sourceFound : (finalState "net" 0 (passesLayer defined)).resolve part.visit.before.current first =
    some source
  sinkFound : (finalState "net" 0 (passesLayer defined)).resolve part.visit.before.current last =
    some 2

private def passesWith (defined : String) (source : LayerId) (passes : Compiled → String → Bool) :
    Bool :=
  (compile "net" 0 (passesLayer defined)).toOption.any fun compiled =>
    ((rootVisit? "net" 0 (passesLayer defined)).bind passingCall?).any
      fun (call, opened, part, first, last) =>
        call.before.current == 0 && opened.substitution.value? "p" == some "x" &&
          call.before.lookupChain call.before.current "x" == some 0 &&
          (finalState "net" 0 (passesLayer defined)).resolve part.visit.before.current first ==
            some source &&
          (finalState "net" 0 (passesLayer defined)).resolve part.visit.before.current last ==
            some 2 && passes compiled first

private theorem exists_passes (defined : String) (source : LayerId)
    (passes : Compiled → String → Bool) (holds : passesWith defined source passes = true) :
    ∃ compiled call opened part first last,
      Passes defined compiled call opened part first last source ∧
        passes compiled first = true := by
  obtain ⟨compiled, compiles, holds⟩ := exists_compiled holds
  obtain ⟨⟨call, opened, part, first, last⟩, found, holds⟩ := (Option.any_eq_true _ _).1 holds
  simp only [Bool.and_eq_true] at holds
  obtain ⟨⟨⟨⟨⟨current, passed⟩, visible⟩, sourceFound⟩, sinkFound⟩, holds⟩ := holds
  obtain ⟨root, isRoot, isCall⟩ := Option.bind_eq_some_iff.1 found
  refine ⟨compiled, call, opened, part, first, last, ?_, holds⟩
  unfold passingCall? at isCall
  split at isCall
  · rename_i listed
    split at isCall
    · rename_i opens
      split at isCall
      · rename_i isPart
        split at isCall
        · rename_i connects
          cases isCall
          exact {
            compiles
            within := ⟨root, isRoot, .under (by rw [listed]; simp) (.self call)⟩
            opens
            current := eq_of_beq current
            passed := eq_of_beq passed
            visible := eq_of_beq visible
            found := isPart
            isTemplate := rfl
            connects
            sourceFound := eq_of_beq sourceFound
            sinkFound := eq_of_beq sinkFound }
        · cases isCall
      · cases isCall
    · cases isCall
  · cases isCall

/-- A template that defines `x` itself takes an argument `x` for its own layer: the connection that
starts at the parameter is wired from another layer than the caller's. -/
theorem argument_is_captured :
    ∃ compiled root call opened origin part first last source sink,
      compile "net" 0 (passesLayer "x") = .ok compiled ∧
      rootVisit? "net" 0 (passesLayer "x") = some root ∧ Visit.Within call root ∧
      opened? call = some ("m", opened) ∧ call.before.current = 0 ∧
      opened.substitution.value? "p" = some "x" ∧
      call.before.lookupChain call.before.current "x" = some origin ∧
      partAt call opened [2] = some part ∧ part.template = .connect (bracketed "p") "t" ∧
      part.visit.instruction = .connect first last ∧
      (finalState "net" 0 (passesLayer "x")).resolve part.visit.before.current first =
        some source ∧
      (finalState "net" 0 (passesLayer "x")).resolve part.visit.before.current last = some sink ∧
      compiled.network.Edge source sink ∧ ¬ compiled.network.Edge origin sink ∧
      source ≠ origin := by
  obtain ⟨compiled, call, opened, part, first, last, run, holds⟩ :=
    exists_passes "x" 1
      (fun compiled _ => compiled.network.hasEdge 1 2 && !compiled.network.hasEdge 0 2)
      (by decide +kernel)
  rw [Bool.and_eq_true, Bool.not_eq_true'] at holds
  obtain ⟨root, isRoot, within⟩ := run.within
  refine ⟨compiled, root, call, opened, 0, part, first, last, 1, 2, run.compiles, isRoot, within,
    run.opens, run.current, run.passed, run.visible, run.found, run.isTemplate, run.connects,
    run.sourceFound, run.sinkFound, Network.hasEdge_iff.1 holds.1, ?_, by decide⟩
  intro edge
  rw [Network.hasEdge_iff.2 edge] at holds
  cases holds.2

/-- A template that defines other names starts at the caller's layer. -/
theorem argument_starts_edge :
    ∃ compiled, compile "net" 0 (passesLayer "h") = .ok compiled ∧
      compiled.network.Named "x" 0 ∧ compiled.network.Edge 0 2 := by
  obtain ⟨compiled, call, opened, part, first, last, run, holds⟩ :=
    exists_passes "h" 0
      (fun compiled first =>
        compiled.network.names == ["x", "h__m_6f7f", "t__m_6f7f"] && first == "x")
      (by decide +kernel)
  rw [Bool.and_eq_true] at holds
  obtain ⟨names, isFirst⟩ := holds
  obtain ⟨root, isRoot, within⟩ := run.within
  have isArgument : compiled.network.Named "x" 0 := by
    rw [Network.named_iff_names, eq_of_beq names]
    rfl
  have unique : ∀ id, compiled.network.Named "x" id → id = 0 := by
    intro id named
    rw [Network.named_iff_names, eq_of_beq names] at named
    match id with
    | 0 => rfl
    | 1 => exact absurd named (by decide)
    | 2 => exact absurd named (by decide)
    | _ + 3 => cases named
  have starts : ∃ id, compiled.network.Named first id := by
    rw [eq_of_beq isFirst]
    exact ⟨0, isArgument⟩
  obtain ⟨_, sameRoot, _, holdsOf⟩ := argument_starts_edge_iff run.compiles
  cases isRoot.symm.trans sameRoot
  exact ⟨compiled, run.compiles, isArgument,
    (holdsOf call "m" opened "p" "x" 0 within run.opens run.passed run.visible unique 2 [] part "t"
      first last 0 2 run.found run.isTemplate run.connects starts run.sourceFound
      run.sinkFound).1⟩

end Compile

end NetBlueprint
