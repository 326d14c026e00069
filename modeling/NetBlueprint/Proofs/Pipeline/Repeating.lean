import NetBlueprint.Proofs.Graph.Sharing
import NetBlueprint.Proofs.Pipeline.Evaluating

/-!
Contract: what evaluations of a compiled network have in common.

All forward roots are evaluated in one go: they share the values that are remembered and the weights
that are created. A compiled network is well-formed whatever weights it has, so neither makes a
difference to a result, and repeating an evaluation changes nothing.

Owns: evaluations of compiled networks compared with one another.
-/

namespace NetBlueprint.Compile

variable {name : String} {seed : UInt64} {program : Instruction} {compiled : Compiled}

/-- Whatever weights a compiled network has, repeating an evaluation leads to the same result and
creates no further weights, also where the first one failed after it had created some. -/
theorem forward_twice (compiles : compile name seed program = .ok compiled) {current : Network}
    (weighted : current.unweighted = compiled.network.unweighted) (feed : Feed) :
    (current.forward feed).2.forward feed = current.forward feed := by
  obtain ⟨wellFormed, _⟩ := evaluable_of_compile compiles
  exact Network.forward_again (Network.Numbered.of_unweighted wellFormed.numbered weighted) feed

/-- A dense layer that is fed two values by an edge, and one value inside a module of two layers
that are fed one after the other. -/
def narrowing : Instruction :=
  .program [sizedLayer "input" "x" 2, sizedLayer "output" "p" 1, sizedLayer "output" "o" 1,
    .moduleDef "m" [] []
      [sizedLayer "dense" "e" 1, sizedLayer "dense" "d" 1, .connect "x" "d", .connect "d" "p"],
    .connect "x" "m", .connect "m" "o"]

/-- An evaluation of it fails after it has created weights, and fails in the same way again. -/
theorem narrowing_fails_twice :
    ∃ compiled, compile "net" 0 narrowing = .ok compiled ∧
      let feed : Feed := ⟨[("x", [Activation.zero32, Activation.zero32])], .chained⟩
      (compiled.network.forward feed).1 = .error (.shapeMismatch "d" 2 1) ∧
        ((compiled.network.forward feed).2.forward feed).1 = .error (.shapeMismatch "d" 2 1) := by
  have passed : (compile "net" 0 narrowing).toOption.any (fun compiled =>
      match (compiled.network.forward
        ⟨[("x", [Activation.zero32, Activation.zero32])], .chained⟩).1 with
      | .error fault => fault == .shapeMismatch "d" 2 1
      | .ok _ => false) = true := by decide +kernel
  obtain ⟨compiled, compiles, fails⟩ := exists_compiled passed
  refine ⟨compiled, compiles, ?_⟩
  dsimp only
  rw [forward_twice compiles rfl]
  split at fails
  · rename_i fault failed
    rw [failed, eq_of_beq fails]
    exact ⟨rfl, rfl⟩
  · cases fails

/-- Where an evaluation succeeds, every forward root has a value also by itself, evaluated on the
network as it was before. Of the last forward root with a name it is the value that was found under
this name. -/
theorem value_alone_of_forward (compiles : compile name seed program = .ok compiled)
    {current : Network} (weighted : current.unweighted = compiled.network.unweighted) {feed : Feed}
    {results : List (String × Vector32)} (succeeded : (current.forward feed).1 = .ok results)
    {earlier later : List LayerId} {root : LayerId}
    (roots : current.forwardRoots = earlier ++ root :: later) :
    ∃ value, ((Evaluation.value feed root).run (EvalState.start current)).1 = .ok value ∧
      ((∀ other ∈ later, current.nameOf other ≠ current.nameOf root) →
        results.lookup (current.nameOf root) = some value) := by
  obtain ⟨wellFormed, readable⟩ := evaluable_of_compile compiles
  exact Network.value_of_forward wellFormed readable weighted succeeded roots

def sharedProducer : Instruction :=
  .program [sizedLayer "input" "x" 1, sizedLayer "dense" "h" 2, sizedLayer "output" "y" 1,
    sizedLayer "output" "z" 2, .connect "x" "h", .connect "h" "y", .connect "h" "z"]

example : (compile "net" 0 sharedProducer).toOption.map
    (fun compiled => compiled.network.forwardRoots) = some [2, 3] := by
  decide +kernel

/-- The second output has by itself the value that it has beside the first. -/
theorem sharedProducer_value_alone :
    ∃ compiled, compile "net" 0 sharedProducer = .ok compiled ∧
      let feed : Feed := ⟨[("x", [Activation.zero32])], .parallel⟩
      ∃ results value, (compiled.network.forward feed).1 = .ok results ∧
        compiled.network.forwardRoots = [2, 3] ∧ compiled.network.nameOf 3 = "z" ∧
        ((Evaluation.value feed 3).run (EvalState.start compiled.network)).1 = .ok value ∧
        results.lookup "z" = some value := by
  have passed : (compile "net" 0 sharedProducer).toOption.any (fun compiled =>
      decide (compiled.network.forwardRoots = [2, 3]) &&
        decide (compiled.network.nameOf 3 = "z") &&
        (compiled.network.forward ⟨[("x", [Activation.zero32])], .parallel⟩).1.toOption.isSome) =
      true := by decide +kernel
  obtain ⟨compiled, compiles, checks⟩ := exists_compiled passed
  rw [Bool.and_eq_true, Bool.and_eq_true, decide_eq_true_iff, decide_eq_true_iff] at checks
  obtain ⟨⟨roots, named⟩, evaluated⟩ := checks
  refine ⟨compiled, compiles, ?_⟩
  dsimp only
  cases outcome : (compiled.network.forward ⟨[("x", [Activation.zero32])], .parallel⟩).1 with
  | error fault =>
      rw [outcome] at evaluated
      cases evaluated
  | ok results =>
      have split : compiled.network.forwardRoots = [2] ++ 3 :: [] := roots
      obtain ⟨value, alone, found⟩ := value_alone_of_forward compiles rfl outcome split
      rw [named] at found
      exact ⟨results, value, rfl, roots, named, alone, found nofun⟩

end NetBlueprint.Compile
