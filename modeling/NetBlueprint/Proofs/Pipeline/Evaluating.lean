import NetBlueprint.Analysis.Validation
import NetBlueprint.Proofs.Analysis.Cycle
import NetBlueprint.Proofs.Compiler.Connections
import NetBlueprint.Proofs.Graph.Evaluation

/-!
Contract: evaluating what a program compiled to.

A compiled network is well-formed and its conditions can be read, so every evaluation comes to an
end as foreseen. Validation looks at edges alone. A loop of dependencies that it cannot see goes
through a conditional layer, which depends on the root it selects, or which a module depends on.

Owns: evaluations of compiled networks, and of those that passed validation.
-/

namespace NetBlueprint

namespace Network

variable {network : Network} {feed : Feed} {id other : LayerId}

/-- A dependency without a conditional layer at either end is an edge. -/
theorem edge_of_depends (wellFormed : network.WellFormed) (depends : network.Depends feed id other)
    (notConditional : ¬ network.IsConditional id) (notSelected : ¬ network.IsConditional other) :
    network.Edge other id := by
  cases depends with
  | producer found _ _ stored =>
      obtain ⟨producer, isProducer⟩ := exists_layer?_of_lt (wellFormed.inputsInRange found stored)
      exact ⟨producer, isProducer, (wellFormed.mirrored isProducer found).2 stored⟩
  | root chooses _ _ =>
      obtain ⟨found, _, kind, _⟩ := chooses
      exact absurd ⟨_, found, by rw [kind]; rfl⟩ notConditional
  | grouped _ isConditional => exact absurd isConditional notSelected

/-- Where edges lead back to no layer, every loop of dependencies goes through a conditional
layer. -/
theorem exists_conditional_of_loop (wellFormed : network.WellFormed) (acyclic : network.Acyclic)
    (loops : Relation.TransGen (network.Depends feed) id id) :
    ∃ chooser, network.IsConditional chooser ∧
      Relation.ReflTransGen (network.Depends feed) id chooser ∧
      Relation.TransGen (network.Depends feed) chooser chooser := by
  by_contra none
  have notConditional (between : LayerId)
      (there : Relation.ReflTransGen (network.Depends feed) id between)
      (back : Relation.ReflTransGen (network.Depends feed) between id) :
      ¬ network.IsConditional between := fun isConditional =>
    none ⟨between, isConditional, there, .trans_right back (loops.trans_left there)⟩
  -- The part of the loop walked so far is a walk against the edges.
  have walked : ∀ {between}, Relation.TransGen (network.Depends feed) id between →
      Relation.ReflTransGen (network.Depends feed) between id →
        Relation.TransGen network.Edge between id := by
    intro between there
    induction there with
    | single depends =>
        intro back
        exact .single (edge_of_depends wellFormed depends (notConditional _ .refl .refl)
          (notConditional _ (.single depends) back))
    | tail there depends inductionHypothesis =>
        intro back
        have earlier := inductionHypothesis (.head depends back)
        have edge := edge_of_depends wellFormed depends
          (notConditional _ there.to_reflTransGen (.head depends back))
          (notConditional _ (there.to_reflTransGen.tail depends) back)
        exact .head edge earlier
  exact acyclic id (walked loops .refl)

/-- Networks that pass a level of validation other than none have no cycle. -/
theorem acyclic_of_validate (wired : network.Wired) {options : ShapeOptions}
    {level : ValidationLevel} (checked : level ≠ .none)
    (valid : network.validate options level = .ok ()) : network.Acyclic := by
  rw [← findCycle_eq_none_iff wired]
  have passed : network.checkCycles = .ok () := by
    cases level with
    | none => exact absurd rfl checked
    | structural => exact valid
    | shapes =>
        rw [validate] at valid
        split at valid
        · cases valid
        · assumption
  unfold checkCycles at passed
  split at passed
  · assumption
  · cases passed

end Network

namespace Compile

variable {name : String} {seed : UInt64} {program : Instruction} {compiled : Compiled}

/-- Compiled networks have what evaluations rely on. -/
theorem evaluable_of_compile (compiles : compile name seed program = .ok compiled) :
    compiled.network.WellFormed ∧ compiled.network.Readable := by
  obtain ⟨root, rootOf⟩ := exists_rootOf compiles
  rw [rootOf.network]
  exact ⟨rootOf.binds.sound.network, rootOf.binds.sound.readable⟩

/-- Every evaluation of a compiled network, also after earlier ones, comes to an end by itself: with
values, or with one of the foreseen faults. Running out of depth is not foreseen. -/
theorem forward_succeeds_or_foreseen (compiles : compile name seed program = .ok compiled)
    {current : Network} (evaluates : compiled.network.EvaluatesTo current) (feed : Feed) :
    (∃ values, (current.forward feed).1 = .ok values) ∨
      ∃ fault, (current.forward feed).1 = .error fault ∧
        compiled.network.Foreseen feed fault := by
  obtain ⟨wellFormed, readable⟩ := evaluable_of_compile compiles
  have same := evaluates.unweighted wellFormed readable
  obtain ⟨_, outcome⟩ := Network.forward_cases wellFormed readable same feed
  exact outcome.imp_left fun ⟨values, _, succeeded, _⟩ => ⟨values, succeeded⟩

/-- An evaluation without inputs fails, because the only input of the network is missing. -/
theorem forward_without_inputs_foreseen :
    ∃ compiled, compile "net" 0 forwardProgram = .ok compiled ∧
      compiled.network.EvaluatesTo compiled.network ∧
      (compiled.network.forward ⟨[], .parallel⟩).1 = .error (.missingInput "x") ∧
      compiled.network.Foreseen ⟨[], .parallel⟩ (.missingInput "x") := by
  have passed : (compile "net" 0 forwardProgram).toOption.any (fun compiled =>
      match (compiled.network.forward ⟨[], .parallel⟩).1 with
      | .error fault => fault == .missingInput "x"
      | .ok _ => false) = true := by decide +kernel
  obtain ⟨compiled, compiles, failed⟩ := exists_compiled passed
  rcases forward_succeeds_or_foreseen compiles .start ⟨[], .parallel⟩ with
    ⟨values, succeeded⟩ | ⟨fault, ended, foreseen⟩
  · rw [succeeded] at failed
    cases failed
  · rw [ended] at failed
    rw [eq_of_beq failed] at ended foreseen
    exact ⟨compiled, compiles, .start, ended, foreseen⟩

/-- Validation leaves one way for an evaluation to run into a cycle: through a conditional layer
that depends on itself. An evaluation that comes to such a layer does not succeed. -/
theorem cycle_only_through_conditional (compiles : compile name seed program = .ok compiled)
    {options : ShapeOptions} {level : ValidationLevel} (checked : level ≠ .none)
    (valid : compiled.network.validate options level = .ok ()) {current : Network}
    (evaluates : compiled.network.EvaluatesTo current) (feed : Feed) :
    (∀ layer, (current.forward feed).1 = .error (.cycle layer) →
      ∃ chooser, compiled.network.Reaches feed chooser ∧ compiled.network.IsConditional chooser ∧
        Relation.TransGen (compiled.network.Depends feed) chooser chooser) ∧
      ∀ values, (current.forward feed).1 = .ok values →
        ∀ id, compiled.network.Reaches feed id →
          ¬ Relation.TransGen (compiled.network.Depends feed) id id := by
  obtain ⟨wellFormed, readable⟩ := evaluable_of_compile compiles
  have acyclic := Network.acyclic_of_validate wellFormed.wired checked valid
  have same := evaluates.unweighted wellFormed readable
  obtain ⟨_, ⟨found, finished, succeeded, grounded, covers⟩ | ⟨fault, failed, foreseen⟩⟩ :=
    Network.forward_cases wellFormed readable same feed
  · refine ⟨fun layer failed => ?_, fun values _ id reaches => ?_⟩
    · rw [succeeded] at failed
      cases failed
    · obtain ⟨root, isRoot, leads⟩ := reaches
      exact grounded.not_transGen_self (grounded.mem_of_reflTransGen (covers root isRoot) leads)
  · refine ⟨fun layer cycles => ?_, fun values succeeded => ?_⟩
    · rw [failed] at cycles
      cases cycles
      cases foreseen with
      | cycle _ reaches loops =>
          obtain ⟨chooser, isConditional, leads, again⟩ :=
            Network.exists_conditional_of_loop wellFormed acyclic loops
          exact ⟨chooser, reaches.of_reflTransGen leads, isConditional, again⟩
    · rw [failed] at succeeded
      cases succeeded

/-- A network without conditional layers that passed validation is evaluated, and no layer depends
on itself. -/
theorem forward_valid_no_cycle :
    ∃ compiled, compile "net" 0 forwardProgram = .ok compiled ∧
      compiled.network.validate .standard .structural = .ok () ∧
      ∃ values, (compiled.network.forward ⟨[("x", [Activation.zero32])], .chained⟩).1 = .ok values ∧
        ∀ id, compiled.network.Reaches ⟨[("x", [Activation.zero32])], .chained⟩ id →
          ¬ Relation.TransGen (compiled.network.Depends ⟨[("x", [Activation.zero32])], .chained⟩)
            id id := by
  have passed : (compile "net" 0 forwardProgram).toOption.any (fun compiled =>
      decide (compiled.network.validate .standard .structural = .ok ()) &&
        (compiled.network.forward ⟨[("x", [Activation.zero32])], .chained⟩).1.toOption.isSome) =
      true := by decide +kernel
  obtain ⟨compiled, compiles, checks⟩ := exists_compiled passed
  rw [Bool.and_eq_true, decide_eq_true_iff] at checks
  obtain ⟨valid, evaluated⟩ := checks
  have structural : ValidationLevel.structural ≠ .none := by decide
  obtain ⟨_, apart⟩ := cycle_only_through_conditional compiles structural valid .start
    ⟨[("x", [Activation.zero32])], .chained⟩
  cases outcome : (compiled.network.forward ⟨[("x", [Activation.zero32])], .chained⟩).1 with
  | error fault =>
      rw [outcome] at evaluated
      cases evaluated
  | ok values => exact ⟨compiled, compiles, valid, values, outcome, apart values outcome⟩

/-- A condition that never holds; the output that is selected then is fed by the layer that selects
it. -/
def selfSelecting : Instruction :=
  .program [sizedLayer "input" "x" 1,
    .branch (some "c") (.condition "x > nan") [] [sizedLayer "output" "o" 1], .connect "c" "o"]

/-- An evaluation of it fails with a cycle, although it passes validation at every level. -/
theorem selfSelecting_valid_cycle :
    ∃ compiled, compile "net" 0 selfSelecting = .ok compiled ∧
      compiled.network.validate .standard .structural = .ok () ∧
      compiled.network.validate .standard .shapes = .ok () ∧
      (compiled.network.forward ⟨[("x", [Activation.zero32])], .parallel⟩).1 =
        .error (.cycle "c") := by
  have passed : (compile "net" 0 selfSelecting).toOption.any (fun compiled =>
      decide (compiled.network.validate .standard .structural = .ok ()) &&
        decide (compiled.network.validate .standard .shapes = .ok ()) &&
        match (compiled.network.forward ⟨[("x", [Activation.zero32])], .parallel⟩).1 with
        | .error fault => fault == .cycle "c"
        | .ok _ => false) = true := by decide +kernel
  obtain ⟨compiled, compiles, checks⟩ := exists_compiled passed
  rw [Bool.and_eq_true, Bool.and_eq_true, decide_eq_true_iff, decide_eq_true_iff] at checks
  obtain ⟨⟨structural, shapes⟩, cycles⟩ := checks
  refine ⟨compiled, compiles, structural, shapes, ?_⟩
  split at cycles
  · rename_i fault failed
    rw [failed, eq_of_beq cycles]
  · cases cycles

end Compile

end NetBlueprint
