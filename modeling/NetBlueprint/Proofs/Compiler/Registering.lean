import NetBlueprint.Proofs.Compiler.Growth
import NetBlueprint.Proofs.Compiler.Instances

/-!
Contract: what can be referred to before it is declared.

Before a run, every layer, module and template outside of loops, branches and templates is entered
in a registry under its name. So what is registered is offered by some instruction of the program,
and it is plain where the program is.

Owns: what an instruction offers, and what the registry of a program holds.
-/

namespace NetBlueprint

namespace Instruction

mutual

/-- The layers and modules that an instruction declares outside of loops, itself included. -/
def offers : Instruction → List Instruction
  | .layer spec => [.layer spec]
  | .moduleDef name inputs outputs body => .moduleDef name inputs outputs body :: offersAll body
  | .program body | .block body | .expand _ _ body => offersAll body
  | _ => []

def offersAll : List Instruction → List Instruction
  | [] => []
  | first :: rest => offers first ++ offersAll rest

end

def innerOffers : Instruction → List Instruction
  | .program body | .block body | .expand _ _ body | .moduleDef _ _ _ body => offersAll body
  | _ => []

def isModule : Instruction → Bool
  | .moduleDef _ _ _ _ => true
  | _ => false

/-- What can be referred to goes by the name it declares. -/
theorem declaredName?_of_forwardName? {instruction : Instruction} {name : String}
    (forward : instruction.forwardName? = some name) : instruction.declaredName? = some name := by
  cases instruction with
  | layer _ | moduleDef _ _ _ _ | templateDef _ _ _ =>
      rw [forwardName?] at forward
      split at forward
      · cases forward
      · exact forward
  | _ => cases forward

/-- A list offers what its instructions offer. -/
theorem offersAll_eq (body : List Instruction) : offersAll body = body.flatMap offers := by
  induction body with
  | nil => rfl
  | cons first rest inductionHypothesis => rw [offersAll, inductionHypothesis, List.flatMap_cons]

/-- What an instruction offers is the instruction, or is offered inside of it. -/
theorem eq_or_mem_innerOffers {instruction offered : Instruction}
    (member : offered ∈ instruction.offers) :
    offered = instruction ∨ offered ∈ instruction.innerOffers := by
  cases instruction with
  | layer spec => exact .inl (List.mem_singleton.1 member)
  | moduleDef name inputs outputs body => exact List.mem_cons.1 member
  | program _ | block _ | expand _ _ _ => exact .inr member
  | _ => cases member

def isTemplate : Instruction → Bool
  | .templateDef _ _ _ => true
  | _ => false

private def Registers (instruction : Instruction) (entry : String × Instruction) : Prop :=
  entry.2.forwardName? = some entry.1 ∧
    (entry.2 ∈ instruction.offers ∨ entry.2.isTemplate = true)

private theorem registers_of_offered {instruction offered : Instruction} {name : String}
    {registry : List (String × Instruction)} {entry : String × Instruction}
    (forward : offered.forwardName? = some name)
    (isOffered : offered ∈ instruction.offers ∨ offered.isTemplate = true)
    (member : entry ∈ CompileState.offered registry name offered) :
    entry ∈ registry ∨ Registers instruction entry := by
  rcases CompileState.mem_offered member with old | ⟨sameKey, sameValue⟩
  · exact .inl old
  · refine .inr ?_
    rw [Registers, sameKey, sameValue]
    exact ⟨forward, isOffered⟩

private theorem Registers.mono {first second : Instruction} {entry : String × Instruction}
    (registers : Registers first entry) (subset : first.offers ⊆ second.offers) :
    Registers second entry :=
  ⟨registers.1, registers.2.imp_left fun member => subset member⟩

mutual

private theorem mem_prescan (registry : List (String × Instruction))
    (entry : String × Instruction) : ∀ instruction : Instruction,
      entry ∈ prescan registry instruction → entry ∈ registry ∨ Registers instruction entry := by
  intro instruction member
  cases instruction with
  | layer spec =>
      rw [prescan] at member
      split at member
      · rename_i key forward
        exact registers_of_offered forward (.inl List.mem_cons_self) member
      · exact .inl member
  | templateDef name parameters body =>
      rw [prescan] at member
      split at member
      · rename_i key forward
        cases declaredName?_of_forwardName? forward
        exact registers_of_offered forward (.inr rfl) member
      · exact .inl member
  | moduleDef name inputs outputs body =>
      rw [prescan] at member
      rcases mem_prescanAll _ entry body member with old | new
      · split at old
        · rename_i key forward
          cases declaredName?_of_forwardName? forward
          exact registers_of_offered forward (.inl List.mem_cons_self) old
        · exact .inl old
      · exact .inr (new.mono (List.subset_cons_self _ _))
  | program body | block body | expand group annotations body =>
      exact mem_prescanAll registry entry body member
  | _ => exact .inl member

private theorem mem_prescanAll (registry : List (String × Instruction))
    (entry : String × Instruction) : ∀ body : List Instruction,
      entry ∈ prescanAll registry body → entry ∈ registry ∨ Registers (.block body) entry
  | [], member => .inl member
  | first :: rest, member => by
      rw [prescanAll] at member
      rcases mem_prescanAll _ entry rest member with earlier | later
      · refine (mem_prescan registry entry first earlier).imp_right fun registers => ?_
        exact registers.mono (List.subset_append_left (offers first) (offersAll rest))
      · exact .inr (later.mono (List.subset_append_right (offers first) (offersAll rest)))

end

mutual

private theorem isPlain_of_mem_offers : ∀ {instruction offered : Instruction},
    instruction.isPlain = true → offered ∈ instruction.offers → offered.isPlain = true := by
  intro instruction offered plain member
  cases instruction with
  | layer spec =>
      cases List.mem_singleton.1 member
      exact plain
  | moduleDef name inputs outputs body =>
      rcases List.mem_cons.1 member with rfl | inner
      · exact plain
      · exact isPlain_of_mem_offersAll plain inner
  | program body | block body | expand group annotations body =>
      exact isPlain_of_mem_offersAll plain member
  | _ => cases member

private theorem isPlain_of_mem_offersAll : ∀ {body : List Instruction} {offered : Instruction},
    isPlainAll body = true → offered ∈ offersAll body → offered.isPlain = true
  | first :: rest, offered, plain, member => by
      rw [isPlainAll, Bool.and_eq_true] at plain
      rcases List.mem_append.1 member with here | later
      · exact isPlain_of_mem_offers plain.1 here
      · exact isPlain_of_mem_offersAll plain.2 later

end

/-- What a program registers goes by its name, and is offered unless it is a template. -/
theorem offered_of_prescan {program instruction : Instruction} {name : String}
    (member : (name, instruction) ∈ program.prescan []) :
    instruction.forwardName? = some name ∧
      (instruction ∈ program.offers ∨ instruction.isTemplate = true) := by
  rcases mem_prescan _ _ _ member with absent | registers
  · cases absent
  · exact registers

/-- What a plain program registers under a name is plain, goes by that name, and is offered unless
it is a template. -/
theorem registered_of_prescan {program instruction : Instruction} {name : String}
    (plain : program.isPlain = true)
    (found : (program.prescan []).lookup name = some instruction) :
    instruction.isPlain = true ∧ instruction.forwardName? = some name ∧
      (instruction ∈ program.offers ∨ instruction.isTemplate = true) := by
  obtain ⟨forward, isOffered⟩ := offered_of_prescan (Table.mem_of_lookup found)
  refine ⟨?_, forward, isOffered⟩
  rcases isOffered with member | isTemplate
  · exact isPlain_of_mem_offers plain member
  · cases instruction with
    | templateDef _ _ _ => rfl
    | _ => cases isTemplate

mutual

/-- What is offered can be referred to by its name, unless a bracket stands in it. -/
theorem forwardName?_of_mem_offers {name : String} (noBracket : '[' ∉ name.toList) :
    ∀ {instruction offered : Instruction}, offered ∈ instruction.offers →
      offered.declaredName? = some name → offered.forwardName? = some name := by
  intro instruction offered member declares
  cases instruction with
  | layer spec =>
      cases List.mem_singleton.1 member
      cases declares
      exact if_neg (by rwa [List.contains_iff_mem])
  | moduleDef _ _ _ body =>
      rcases List.mem_cons.1 member with rfl | inner
      · cases declares
        exact if_neg (by rwa [List.contains_iff_mem])
      · exact forwardName?_of_mem_offersAll noBracket inner declares
  | program body | block body | expand _ _ body =>
      exact forwardName?_of_mem_offersAll noBracket member declares
  | _ => cases member

theorem forwardName?_of_mem_offersAll {name : String} (noBracket : '[' ∉ name.toList) :
    ∀ {body : List Instruction} {offered : Instruction}, offered ∈ offersAll body →
      offered.declaredName? = some name → offered.forwardName? = some name
  | _ :: _, _, member, declares => by
      rcases List.mem_append.1 member with here | later
      · exact forwardName?_of_mem_offers noBracket here declares
      · exact forwardName?_of_mem_offersAll noBracket later declares

end

mutual

/-- What is registered stays, and more is registered after it. -/
theorem prefix_prescan : ∀ (registry : List (String × Instruction)) (instruction : Instruction),
    registry <+: prescan registry instruction := by
  intro registry instruction
  cases instruction with
  | layer _ | templateDef _ _ _ =>
      rw [prescan]
      split
      · exact CompileState.prefix_offered _ _ _
      · exact List.prefix_refl _
  | moduleDef name inputs outputs body =>
      rw [prescan]
      refine List.IsPrefix.trans ?_ (prefix_prescanAll _ body)
      split
      · exact CompileState.prefix_offered _ _ _
      · exact List.prefix_refl _
  | program body | block body | expand _ _ body => exact prefix_prescanAll registry body
  | _ => exact List.prefix_refl _

/-- Registering names drops no name. -/
theorem prefix_prescanAll : ∀ (registry : List (String × Instruction))
    (body : List Instruction), registry <+: prescanAll registry body
  | _, [] => List.prefix_refl _
  | registry, first :: rest =>
      (prefix_prescan registry first).trans (prefix_prescanAll (prescan registry first) rest)

end

/-- A list is registered from its beginning to its end. -/
theorem prescanAll_append : ∀ {registry : List (String × Instruction)}
    {first second : List Instruction},
    prescanAll registry (first ++ second) = prescanAll (prescanAll registry first) second
  | _, [], _ => rfl
  | _, _ :: rest, _ => by
      rw [List.cons_append, prescanAll, prescanAll]
      exact prescanAll_append

private theorem isSome_lookup_offered (registry : List (String × Instruction)) (name : String)
    (instruction : Instruction) :
    ((CompileState.offered registry name instruction).lookup name).isSome = true := by
  cases free : registry.lookup name with
  | none => rw [CompileState.lookup_offered_self free, Option.isSome_some]
  | some found =>
      rw [Table.lookup_of_prefix (CompileState.prefix_offered _ _ _) free, Option.isSome_some]

private theorem isSome_lookup_of_prefix {registry longer : List (String × Instruction)}
    {name : String} (isPrefix : registry <+: longer)
    (isKnown : (registry.lookup name).isSome = true) : (longer.lookup name).isSome = true := by
  obtain ⟨found, known⟩ := Option.isSome_iff_exists.1 isKnown
  rw [Table.lookup_of_prefix isPrefix known, Option.isSome_some]

mutual

/-- A name under which something is offered is registered. -/
theorem isSome_lookup_prescan {name : String} {offered : Instruction}
    (forward : offered.forwardName? = some name) :
    ∀ (registry : List (String × Instruction)) (instruction : Instruction),
      offered ∈ instruction.offers →
        ((prescan registry instruction).lookup name).isSome = true := by
  intro registry instruction member
  cases instruction with
  | layer spec =>
      cases List.mem_singleton.1 member
      rw [prescan, forward]
      exact isSome_lookup_offered _ _ _
  | moduleDef declared inputs outputs body =>
      rw [prescan]
      rcases List.mem_cons.1 member with rfl | inner
      · rw [forward]
        cases declaredName?_of_forwardName? forward
        exact isSome_lookup_of_prefix (prefix_prescanAll _ body) (isSome_lookup_offered _ _ _)
      · exact isSome_lookup_prescanAll forward _ body inner
  | program body | block body | expand _ _ body =>
      exact isSome_lookup_prescanAll forward registry body member
  | _ => cases member

/-- Whatever a list offers under a name is registered under it, unless another one is. -/
theorem isSome_lookup_prescanAll {name : String} {offered : Instruction}
    (forward : offered.forwardName? = some name) :
    ∀ (registry : List (String × Instruction)) (body : List Instruction),
      offered ∈ offersAll body → ((prescanAll registry body).lookup name).isSome = true
  | registry, first :: rest, member => by
      rw [prescanAll]
      rcases List.mem_append.1 member with here | later
      · exact isSome_lookup_of_prefix (prefix_prescanAll _ rest)
          (isSome_lookup_prescan forward registry first here)
      · exact isSome_lookup_prescanAll forward _ rest later

end

private theorem length_offered_le (registry : List (String × Instruction)) (name : String)
    (instruction : Instruction) :
    (CompileState.offered registry name instruction).length ≤ registry.length + 1 := by
  unfold CompileState.offered
  split
  · exact Nat.le_succ _
  · exact Nat.le_of_eq List.length_append

mutual

/-- A program registers at most as many names as it counts nodes. -/
theorem length_prescan_le : ∀ (registry : List (String × Instruction)) (instruction : Instruction),
    (prescan registry instruction).length ≤ registry.length + instruction.nodeCount := by
  intro registry instruction
  cases instruction with
  | layer spec =>
      rw [prescan, nodeCount]
      split
      · exact length_offered_le _ _ _
      · exact Nat.le_succ _
  | templateDef name parameters body =>
      rw [prescan, nodeCount]
      split
      · exact Nat.le_trans (length_offered_le _ _ _) (by omega)
      · exact Nat.le_add_right _ _
  | moduleDef name inputs outputs body =>
      rw [prescan, nodeCount]
      refine Nat.le_trans (length_prescanAll_le _ body) ?_
      split
      · rename_i key _
        have one := length_offered_le registry key (.moduleDef key inputs outputs body)
        omega
      · omega
  | program body | block body | expand _ _ body =>
      rw [prescan, nodeCount]
      exact Nat.le_trans (length_prescanAll_le registry body) (by omega)
  | _ => exact Nat.le_add_right _ _

private theorem length_prescanAll_le : ∀ (registry : List (String × Instruction))
    (body : List Instruction),
    (prescanAll registry body).length ≤ registry.length + nodeCountAll body
  | _, [] => Nat.le_refl _
  | registry, first :: rest => by
      rw [prescanAll, nodeCountAll]
      have head := length_prescan_le registry first
      exact Nat.le_trans (length_prescanAll_le (prescan registry first) rest) (by omega)

end

end Instruction

end NetBlueprint
