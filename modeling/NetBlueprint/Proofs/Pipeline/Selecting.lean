import NetBlueprint.Proofs.Compiler.Choosing
import NetBlueprint.Proofs.Graph.Touching
import NetBlueprint.Proofs.Graph.Yielding
import NetBlueprint.Proofs.Pipeline.Evaluating

/-!
Contract: which outputs of a branch wait for the branch to be selected.

The first output of the scope of a branch is the root that the layer of the branch chooses, so an
evaluation does not start from it. Any other output of the scope is not chosen by any layer: it is
evaluated whether the branch is selected or not.

Owns: the outputs of branches in evaluations.
-/

namespace NetBlueprint.Compile

open CompileState

variable {name : String} {seed : UInt64} {program : Instruction} {compiled : Compiled}

/-- Of the outputs that are added in the scope of a branch, an evaluation does not start from the
first one, and it starts from all others. The first one is the root of the layer of its branch and
of no other layer. So an evaluation comes to it only where that layer is evaluated and selects it,
along an edge to a layer that is evaluated, or in a module. Whatever an evaluation does not come to
makes no difference to its outcome, and the results are those of forward roots alone. -/
theorem first_output_waits (compiles : compile name seed program = .ok compiled) :
    ∃ root, rootVisit? name seed program = some root ∧ root.instruction = program ∧
      (∀ visit scope id, Visit.Within visit root → visit.AddsOutput scope id → scope ≠ 0 →
        ∃ branch chooser, Hosts root branch visit scope chooser ∧
          (∀ other, compiled.network.HasRoot other id ↔ FirstIn root scope id ∧ other = chooser) ∧
          (id ∈ compiled.network.forwardRoots ↔ ¬ FirstIn root scope id) ∧
          (FirstIn root scope id → ∀ feed, compiled.network.Touches feed id →
            (compiled.network.Reaches feed chooser ∧ compiled.network.Selects feed chooser id) ∨
            (∃ consumer, compiled.network.Reaches feed consumer ∧
              compiled.network.Edge id consumer) ∨
            ∃ upper, compiled.network.Touches feed upper ∧ compiled.network.Groups upper id)) ∧
      ∀ (feed : Feed) (one other : Network), one.unweighted = compiled.network.unweighted →
        other.unweighted = compiled.network.unweighted →
        (∀ id, compiled.network.Touches feed id → other.layer? id = one.layer? id) →
        (other.forward feed).1 = (one.forward feed).1 ∧
          ∀ results, (one.forward feed).1 = .ok results →
            ∀ key, (∀ id ∈ compiled.network.forwardRoots, compiled.network.nameOf id ≠ key) →
              results.lookup key = none := by
  obtain ⟨root, rootOf⟩ := exists_rootOf compiles
  obtain ⟨wellFormed, readable⟩ := evaluable_of_compile compiles
  refine ⟨root, rootOf.isRoot, rootOf.instruction, fun visit scope id within adds inBranch => ?_,
    fun feed one other oneLayers otherLayers shared => ⟨?_, fun results succeeded key noRoot => ?_⟩⟩
  · obtain ⟨branch, chooser, hosts, roots⟩ := rootOf.output_of_scope within adds inBranch
    have chosen (other : LayerId) :
        compiled.network.HasRoot other id ↔ FirstIn root scope id ∧ other = chooser :=
      Iff.trans ⟨.of_nodes rootOf.nodes, .of_nodes rootOf.nodes.symm⟩ (roots other)
    obtain ⟨layer, found, isOutput⟩ :=
      (rootOf.grows_after within).ofKind (Network.isOutputAt_iff.1 adds.isOutput)
    have isRoot : id ∈ compiled.network.forwardRoots ↔ ¬ FirstIn root scope id := by
      rw [Network.mem_forwardRoots_iff wellFormed.numbered found, and_iff_right (.inl isOutput)]
      exact ⟨fun none first => none chooser ((chosen chooser).2 ⟨first, rfl⟩),
        fun notFirst other isChosen => notFirst ((chosen other).1 isChosen).1⟩
    refine ⟨branch, chooser, hosts, chosen, isRoot, fun first feed touches => ?_⟩
    have notConditional := Network.not_isConditional_of_isOutput found isOutput
    have notStart : id ∉ compiled.network.forwardRoots := fun starts => isRoot.1 starts first
    refine (touches.cases wellFormed notStart notConditional).imp_left ?_
    rintro ⟨other, reaches, selects⟩
    cases ((chosen other).1 selects.hasRoot).2
    exact ⟨reaches, selects⟩
  · exact Network.forward_eq_of_shared wellFormed readable oneLayers otherLayers shared
  · refine Network.lookup_eq_none_of_forward 
      (Network.Numbered.of_unweighted wellFormed.numbered oneLayers) succeeded fun id isRoot => ?_
    rw [Network.nameOf_of_unweighted oneLayers]
    rw [Network.forwardRoots_of_unweighted oneLayers] at isRoot
    exact noRoot id isRoot

/-- A branch with two outputs on one side, of which the second is fed by an input of its own. -/
def twoOutputs : Instruction :=
  .program [sizedLayer "input" "x" 1, sizedLayer "input" "y" 1,
    .branch (some "gate") (.condition "x > 0")
      [sizedLayer "output" "a" 1, sizedLayer "output" "b" 1, .connect "x" "a", .connect "y" "b"]
      [sizedLayer "output" "c" 1, .connect "x" "c"]]

/-- Both outputs are added in the scope of the first side, and an evaluation that is supplied only
with what the other side needs fails. -/
theorem twoOutputs_run :
    ∃ compiled root, compile "net" 0 twoOutputs = .ok compiled ∧
      RootOf "net" 0 twoOutputs compiled root ∧ root.after.outputsIn 1 = [2, 3] ∧
      compiled.network.forwardRoots = [3, 5] ∧
      (compiled.network.forward ⟨[("x", [Activation.zero32])], .parallel⟩).1 =
        .error (.missingInput "y") := by
  have passed : (compile "net" 0 twoOutputs).toOption.any (fun compiled =>
      decide (compiled.network.forwardRoots = [3, 5]) &&
        match (compiled.network.forward ⟨[("x", [Activation.zero32])], .parallel⟩).1 with
        | .error fault => fault == .missingInput "y"
        | .ok _ => false) = true := by decide +kernel
  have outputs : (builtState "net" 0 twoOutputs).outputsIn 1 = [2, 3] := by decide +kernel
  obtain ⟨compiled, compiles, checks⟩ := exists_compiled passed
  obtain ⟨root, rootOf⟩ := exists_rootOf compiles
  rw [Bool.and_eq_true, decide_eq_true_iff] at checks
  obtain ⟨roots, fails⟩ := checks
  refine ⟨compiled, root, compiles, rootOf, rootOf.built ▸ outputs, roots, ?_⟩
  split at fails
  · rename_i fault failed
    rw [failed, eq_of_beq fails]
  · cases fails

/-- The first of the two outputs is no forward root, and one layer has it as its root. -/
theorem twoOutputs_first_waits :
    ∃ compiled root, compile "net" 0 twoOutputs = .ok compiled ∧
      rootVisit? "net" 0 twoOutputs = some root ∧
      (∃ visit : Visit, visit.Within root ∧ visit.AddsOutput 1 2) ∧ FirstIn root 1 2 ∧
      2 ∉ compiled.network.forwardRoots ∧
      ∃ chooser, ∀ other, compiled.network.HasRoot other 2 ↔ other = chooser := by
  obtain ⟨compiled, root, compiles, rootOf, outputs, _⟩ := twoOutputs_run
  have first : FirstIn root 1 2 := rootOf.firstIn_of_head (by rw [outputs]; rfl)
  obtain ⟨visit, within, adds⟩ : ∃ visit : Visit, visit.Within root ∧ visit.AddsOutput 1 2 :=
    rootOf.mem_outputsIn_iff.1 (by rw [outputs]; exact List.mem_cons_self)
  obtain ⟨same, isRoot, _, waits, _⟩ := first_output_waits compiles
  cases isRoot.symm.trans rootOf.isRoot
  obtain ⟨_, chooser, _, chosen, starts, _⟩ := waits visit 1 2 within adds Nat.one_ne_zero
  exact ⟨compiled, root, compiles, rootOf.isRoot, ⟨visit, within, adds⟩, first,
    fun isRoot => starts.1 isRoot first, chooser,
    fun other => (chosen other).trans (and_iff_right first)⟩

/-- A branch whose only output feeds an output outside. -/
def tappedOutput : Instruction :=
  .program [sizedLayer "input" "x" 1, sizedLayer "output" "o" 1,
    .branch (some "gate") (.condition "x > 0")
      [sizedLayer "output" "a" 1, .connect "x" "a", .connect "a" "o"] []]

/-- The output of the branch is a root, and it is evaluated for the one that it feeds. -/
theorem tappedOutput_reached :
    ∃ compiled, compile "net" 0 tappedOutput = .ok compiled ∧ compiled.network.HasRoot 3 2 ∧
      ∀ feed, compiled.network.Reaches feed 2 := by
  have passed : (compile "net" 0 tappedOutput).toOption.any (fun compiled =>
      ((compiled.network.layer? 3).any fun layer => layer.kind.roots.contains 2) &&
      ((compiled.network.layer? 1).any fun layer =>
        !layer.kind.isInput && !layer.kind.isConditional && layer.inputs.contains 2) &&
      compiled.network.forwardRoots.contains 1) = true := by decide +kernel
  obtain ⟨compiled, compiles, checks⟩ := exists_compiled passed
  simp only [Bool.and_eq_true, Option.any_eq_true, Bool.not_eq_true', List.contains_iff_mem] at checks
  obtain ⟨⟨chosen, output, found, ⟨notInput, notConditional⟩, fed⟩, starts⟩ := checks
  exact ⟨compiled, compiles, chosen, fun feed =>
    ⟨1, starts, .single (.producer found notInput notConditional fed)⟩⟩

/-- Outputs are evaluated that stand in a branch that may not be selected. From the second output of
a side an evaluation starts, and it fails for want of an input that only this output needs. The only
output of a side is evaluated because it feeds an output outside. -/
theorem unselected_outputs_evaluated :
    (∃ compiled root, compile "net" 0 twoOutputs = .ok compiled ∧
      rootVisit? "net" 0 twoOutputs = some root ∧
      (∃ visit scope, Visit.Within visit root ∧ visit.AddsOutput scope 3 ∧ scope ≠ 0) ∧
      3 ∈ compiled.network.forwardRoots ∧
      (compiled.network.forward ⟨[("x", [Activation.zero32])], .parallel⟩).1 =
        .error (.missingInput "y")) ∧
    ∃ compiled, compile "net" 0 tappedOutput = .ok compiled ∧ compiled.network.HasRoot 3 2 ∧
      ∀ feed, compiled.network.Reaches feed 2 := by
  obtain ⟨compiled, root, compiles, rootOf, outputs, roots, fails⟩ := twoOutputs_run
  obtain ⟨visit, within, adds⟩ : ∃ visit : Visit, visit.Within root ∧ visit.AddsOutput 1 3 :=
    rootOf.mem_outputsIn_iff.1 (by rw [outputs]; exact List.mem_cons_of_mem _ List.mem_cons_self)
  refine ⟨⟨compiled, root, compiles, rootOf.isRoot, ⟨visit, 1, within, adds, Nat.one_ne_zero⟩, ?_,
    fails⟩, tappedOutput_reached⟩
  rw [roots]
  exact List.mem_cons_self

end NetBlueprint.Compile
