import NetBlueprint.Proofs.Outcome
import NetBlueprint.Substitution.Tree

/-!
Contract: filling bindings into a tree changes none of its operations.

The operations of a tree are listed in one order, each instruction before those inside it. Filling
in touches texts alone, so the list stays, and with it the number of instructions. The list of an
instruction inside another one is a part of the list of the other.
-/

namespace NetBlueprint

namespace Instruction

mutual

/-- The operation of an instruction and those of everything below it. -/
def opcodes : Instruction → List Opcode
  | .program body => .program :: opcodesAll body
  | .block body => .block :: opcodesAll body
  | .layer _ => [.layer]
  | .connect _ _ => [.connect]
  | .moduleDef _ _ _ body => .moduleDef :: opcodesAll body
  | .moduleCall _ _ => [.moduleCall]
  | .loop _ _ _ body => .loop :: opcodesAll body
  | .branch _ test body alternative =>
    .branch :: (opcodes test ++ opcodesAll alternative ++ opcodesAll body)
  | .condition _ => [.condition]
  | .templateDef _ _ body => .templateDef :: opcodesAll body
  | .templateCall _ _ => [.templateCall]
  | .call _ _ => [.call]
  | .expand _ _ body => .expand :: opcodesAll body
  | .constant _ _ => [.constant]
  | .file _ => [.file]
  | .otherwise body => .otherwise :: opcodesAll body

def opcodesAll : List Instruction → List Opcode
  | [] => []
  | first :: rest => opcodes first ++ opcodesAll rest

end

mutual

/-- An instruction has as many operations as it counts nodes. -/
theorem length_opcodes : ∀ instruction : Instruction,
    instruction.opcodes.length = instruction.nodeCount
  | .program body | .block body | .moduleDef _ _ _ body | .loop _ _ _ body
  | .templateDef _ _ body | .expand _ _ body | .otherwise body => by
      rw [opcodes, nodeCount, List.length_cons, length_opcodesAll body, Nat.add_comm]
  | .branch _ test body alternative => by
      rw [opcodes, nodeCount, List.length_cons, List.length_append, List.length_append,
        length_opcodes test, length_opcodesAll alternative, length_opcodesAll body]
      omega
  | .layer _ | .connect _ _ | .moduleCall _ _ | .condition _ | .templateCall _ _ | .call _ _
  | .constant _ _ | .file _ => rfl

private theorem length_opcodesAll : ∀ body : List Instruction,
    (opcodesAll body).length = nodeCountAll body := by
  intro body
  cases body with
  | nil => rfl
  | cons first rest =>
      rw [opcodesAll, nodeCountAll, List.length_append, length_opcodes first,
        length_opcodesAll rest]

end

/-- The operations of one of several instructions are among those of all. -/
theorem opcodes_sublist_of_mem {inner : Instruction} : ∀ {body : List Instruction},
    inner ∈ body → inner.opcodes.Sublist (opcodesAll body)
  | first :: rest, member => by
      rw [opcodesAll]
      rcases List.mem_cons.1 member with rfl | later
      · exact List.sublist_append_left _ _
      · exact (opcodes_sublist_of_mem later).trans (List.sublist_append_right _ _)

end Instruction

namespace Substitution

open Instruction

mutual

/-- Filling in keeps all operations. -/
theorem opcodes_of_apply : ∀ {template instruction : Instruction} {substitution : Substitution},
    substitution.apply template = .ok instruction → instruction.opcodes = template.opcodes := by
  intro template instruction substitution applied
  cases template with
  | program _ | block _ | templateDef _ _ _ | otherwise _ =>
      obtain ⟨body, fills, same⟩ := Outcome.bind_eq_ok.1 applied
      cases Outcome.pure_eq_ok.1 same
      rw [opcodes, opcodes, opcodesAll_of_applyAll fills]
  | layer _ | condition _ | constant _ _ =>
      obtain ⟨_, _, same⟩ := Outcome.bind_eq_ok.1 applied
      cases Outcome.pure_eq_ok.1 same
      rfl
  | connect _ _ | moduleCall _ _ | templateCall _ _ | call _ _ =>
      obtain ⟨_, _, rest⟩ := Outcome.bind_eq_ok.1 applied
      obtain ⟨_, _, same⟩ := Outcome.bind_eq_ok.1 rest
      cases Outcome.pure_eq_ok.1 same
      rfl
  | moduleDef _ _ _ _ =>
      iterate 3 obtain ⟨_, _, applied⟩ := Outcome.bind_eq_ok.1 applied
      obtain ⟨body, fills, same⟩ := Outcome.bind_eq_ok.1 applied
      cases Outcome.pure_eq_ok.1 same
      rw [opcodes, opcodes, opcodesAll_of_applyAll fills]
  | loop _ _ _ _ | expand _ _ _ =>
      iterate 2 obtain ⟨_, _, applied⟩ := Outcome.bind_eq_ok.1 applied
      obtain ⟨body, fills, same⟩ := Outcome.bind_eq_ok.1 applied
      cases Outcome.pure_eq_ok.1 same
      rw [opcodes, opcodes, opcodesAll_of_applyAll fills]
  | branch _ _ _ _ =>
      obtain ⟨_, _, rest⟩ := Outcome.bind_eq_ok.1 applied
      obtain ⟨test, fillsTest, rest⟩ := Outcome.bind_eq_ok.1 rest
      obtain ⟨body, fillsBody, rest⟩ := Outcome.bind_eq_ok.1 rest
      obtain ⟨alternative, fillsAlternative, same⟩ := Outcome.bind_eq_ok.1 rest
      cases Outcome.pure_eq_ok.1 same
      rw [opcodes, opcodes, opcodes_of_apply fillsTest, opcodesAll_of_applyAll fillsBody,
        opcodesAll_of_applyAll fillsAlternative]
  | file _ =>
      cases Outcome.pure_eq_ok.1 applied
      rfl

private theorem opcodesAll_of_applyAll : ∀ {templates body : List Instruction}
    {substitution : Substitution}, substitution.applyAll templates = .ok body →
      opcodesAll body = opcodesAll templates
  | [], _, _, applied => by
      cases applied
      rfl
  | _ :: _, _, _, applied => by
      obtain ⟨first, fills, following⟩ := Outcome.bind_eq_ok.1 applied
      obtain ⟨others, fillsOthers, same⟩ := Outcome.bind_eq_ok.1 following
      cases Outcome.pure_eq_ok.1 same
      rw [opcodesAll, opcodesAll, opcodes_of_apply fills, opcodesAll_of_applyAll fillsOthers]

end

end Substitution

end NetBlueprint
