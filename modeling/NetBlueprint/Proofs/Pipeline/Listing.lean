import NetBlueprint.Proofs.Compiler.Connections
import NetBlueprint.Proofs.Graph.Outputs

/-!
Contract: the outputs that a network lists.

Whatever the roots of conditionals lead to, out of range, to each other or to themselves, the search
for outputs ends and lists every output once. A conditional may bring outputs forward that stand
behind it. In a compiled network no conditional does, since its roots are compiled before it.

Owns: the outputs that networks and compiled programs list.
-/

namespace NetBlueprint.Compile

open Network

/-- Output discovery neither loses nor repeats a layer: it comes to an end by itself, which is its
only end, lists every output once, and lists those of a compiled network in ascending order. -/
theorem outputs_listed {network : Network} (built : network.Built) :
    (∃! final, network.Collects (List.range network.size) ⟨[], []⟩ final ∧
        network.outputLayers = final.found.reverse) ∧
      network.outputLayers.Perm
        ((network.layers.toList.filter fun layer => layer.kind.isOutput).map Layer.id) ∧
      ∀ {name seed program compiled}, compile name seed program = .ok compiled →
        compiled.network.outputLayers =
            (compiled.network.layers.toList.filter fun layer => layer.kind.isOutput).map Layer.id ∧
          compiled.network.outputLayers.Pairwise (· < ·) := by
  obtain ⟨final, collects, found⟩ := outputLayers_collects network
  refine ⟨⟨final, ⟨collects, found⟩, fun _ other => collects.unique other.1⟩,
    outputLayers_perm built.wired, fun compiles => ?_⟩
  obtain ⟨root, rootOf⟩ := exists_rootOf compiles
  have wellFormed := rootOf.binds.sound.network
  rw [← rootOf.network] at wellFormed
  have listed := wellFormed.outputLayers_eq
  refine ⟨listed, ?_⟩
  rw [listed]
  exact outputIds_ascending wellFormed.wired

private def tangle : Network :=
  let gates := ((empty "tangle").addLayer "a" (.conditional "x > 0" (some 1) (some 9))).addLayer "b"
    (.conditional "x > 0" (some 1) (some 0))
  let gates := gates.addLayer "c" (.conditional "x > 0" (some 4) (some 0))
  (gates.addLayer "first" (.output none none .linear)).addLayer "last" (.output none none .linear)

private theorem built_tangle : tangle.Built :=
  .addLayer _ _ (.addLayer _ _ (.addLayer _ _ (.addLayer _ _ (.addLayer _ _ (.empty _)))))

def branchedOutputs : Instruction :=
  .program [sizedLayer "input" "x" 1,
    .branch none (.condition "x > 0") [sizedLayer "output" "a" 1] [sizedLayer "output" "b" 1],
    sizedLayer "output" "c" 1]

/-- A conditional brings the last output forward, and compiled outputs stand in ascending order. -/
theorem tangled_outputs_listed :
    tangle.Built ∧ tangle.outputLayers = [4, 3] ∧ tangle.outputLayers.Perm [3, 4] ∧
      ∃ compiled, compile "net" 0 branchedOutputs = .ok compiled ∧
        compiled.network.outputLayers.length = 3 ∧
        compiled.network.outputLayers.Pairwise (· < ·) := by
  obtain ⟨_, perm, ascends⟩ := outputs_listed built_tangle
  have passed : (compile "net" 0 branchedOutputs).toOption.any
      (fun compiled => compiled.network.outputLayers.length == 3) = true := by decide +kernel
  obtain ⟨compiled, compiles, three⟩ := exists_compiled passed
  exact ⟨built_tangle, by decide, perm, compiled, compiles, eq_of_beq three, (ascends compiles).2⟩

end NetBlueprint.Compile
