import NetBlueprint.Proofs.Compiler.Bookkeeping
import NetBlueprint.Proofs.Compiler.Connections
import NetBlueprint.Proofs.Substitution.Operations

/-!
Contract: a program without template calls compiles in bounded depth.

An instruction comes to smaller instructions by itself, whatever is filled into them. A connection
may turn to any name that is registered, and the instruction behind it is as large as the program;
but a name is not turned to while it is being compiled ahead. So the names that are not, and then
the size of the instruction, decrease along every chain of instructions.

Owns: the measure, and that the bound of the depth is never reached.

Does not own: that a deeper bound makes no difference.
-/

namespace NetBlueprint

namespace Instruction

/-- Decides whether there is no template call in an instruction or below it. -/
def isCallFree (instruction : Instruction) : Bool :=
  instruction.opcodes.all fun opcode => opcode != .templateCall && opcode != .call

/-- A part of a program without calls has no calls. -/
theorem isCallFree_of_sublist {inner outer : Instruction}
    (sublist : inner.opcodes.Sublist outer.opcodes) (callFree : outer.isCallFree = true) :
    inner.isCallFree = true := by
  rw [isCallFree, List.all_eq_true] at callFree ⊢
  exact fun opcode member => callFree opcode (sublist.subset member)

/-- The instructions that a branch builds on either side are parts of its bodies. -/
theorem sublist_of_splitBody {child : Instruction} {body alternative : List Instruction}
    (member : child ∈ (Compile.splitBody body alternative).1 ∨
      child ∈ (Compile.splitBody body alternative).2) :
    child.opcodes.Sublist (opcodesAll alternative ++ opcodesAll body) := by
  have ofBody {inner : Instruction} (isInner : inner ∈ body) :=
    (opcodes_sublist_of_mem isInner).trans (List.sublist_append_right (opcodesAll alternative) _)
  rcases member with isFirst | isSecond
  · exact ofBody (List.mem_filter.1 isFirst).1
  · rcases List.mem_append.1 isSecond with given | marked
    · exact (opcodes_sublist_of_mem given).trans (List.sublist_append_left _ _)
    · obtain ⟨mark, isMark, isMarked⟩ := List.mem_flatMap.1 marked
      cases mark with
      | otherwise inner =>
          have below : child.opcodes.Sublist (otherwise inner).opcodes :=
            (opcodes_sublist_of_mem isMarked).cons _
          exact below.trans (ofBody isMark)
      | _ => cases isMarked

/-- Without calls an instruction comes to instructions with fewer operations. -/
theorem ComesTo.sublist {instruction inner : Instruction} (comes : instruction.ComesTo inner)
    (callFree : instruction.isCallFree = true) :
    ∃ first rest, instruction.opcodes = first :: rest ∧ inner.opcodes.Sublist rest := by
  cases comes with
  | program member | block member | moduleDef member | expand member =>
      exact ⟨_, _, rfl, opcodes_sublist_of_mem member⟩
  | loop member filled =>
      refine ⟨_, _, rfl, ?_⟩
      rw [Substitution.opcodes_of_apply filled]
      exact opcodes_sublist_of_mem member
  | first member filled =>
      refine ⟨_, _, rfl, ?_⟩
      rw [Substitution.opcodes_of_apply filled, List.append_assoc]
      exact (sublist_of_splitBody (.inl member)).trans (List.sublist_append_right _ _)
  | second member filled =>
      refine ⟨_, _, rfl, ?_⟩
      rw [Substitution.opcodes_of_apply filled, List.append_assoc]
      exact (sublist_of_splitBody (.inr member)).trans (List.sublist_append_right _ _)
  | templateCall _ | call _ => cases callFree

theorem ComesTo.isCallFree {instruction inner : Instruction} (comes : instruction.ComesTo inner)
    (callFree : instruction.isCallFree = true) : inner.isCallFree = true := by
  obtain ⟨first, rest, whole, sublist⟩ := comes.sublist callFree
  refine isCallFree_of_sublist ?_ callFree
  rw [whole]
  exact sublist.cons first

private theorem ComesTo.nodeCount_lt {instruction inner : Instruction}
    (comes : instruction.ComesTo inner)
    (callFree : instruction.isCallFree = true) : inner.nodeCount < instruction.nodeCount := by
  obtain ⟨first, rest, whole, sublist⟩ := comes.sublist callFree
  rw [← length_opcodes, ← length_opcodes, whole, List.length_cons]
  exact Nat.lt_succ_of_le sublist.length_le

mutual

/-- What an instruction offers is a part of it. -/
theorem sublist_of_mem_offers : ∀ {instruction offered : Instruction},
    offered ∈ instruction.offers → offered.opcodes.Sublist instruction.opcodes := by
  intro instruction offered member
  cases instruction with
  | layer spec =>
      cases List.mem_singleton.1 member
      exact List.Sublist.refl _
  | moduleDef name inputs outputs body =>
      rcases List.mem_cons.1 member with rfl | inner
      · exact List.Sublist.refl _
      · exact (sublist_of_mem_offersAll inner).cons _
  | program body | block body | expand group annotations body =>
      exact (sublist_of_mem_offersAll member).cons _
  | _ => cases member

private theorem sublist_of_mem_offersAll : ∀ {body : List Instruction} {offered : Instruction},
    offered ∈ offersAll body → offered.opcodes.Sublist (opcodesAll body)
  | first :: rest, offered, member => by
      rw [opcodesAll]
      rcases List.mem_append.1 member with here | later
      · exact (sublist_of_mem_offers here).trans (List.sublist_append_left _ _)
      · exact (sublist_of_mem_offersAll later).trans (List.sublist_append_right _ _)

end

end Instruction

namespace Compile

open CompileState

/-- How many entries of a registry do not stand under one of some names. -/
def waiting (registry : List (String × Instruction)) (names : List String) : Nat :=
  registry.countP fun entry => !names.contains entry.1

/-- Once a registered name is turned to, fewer are waiting. -/
theorem waiting_lt {registry : List (String × Instruction)} {names : List String} {name : String}
    {instruction : Instruction} (member : (name, instruction) ∈ registry)
    (notYet : name ∉ names) : waiting registry (name :: names) < waiting registry names :=
  Table.countP_lt_of_mem Prod.fst member notYet

/-- A state in which exactly some names of a registry are being compiled ahead. -/
structure Underway (registry : List (String × Instruction)) (names : List String)
    (state : CompileState) : Prop where
  registered : state.registry ⊆ registry
  inProgress : state.aheadInProgress = names

/-- A fault has an end to it, or a request that is never served came before it. -/
def Accounts (fault : CompileFault) (state : CompileState) : Prop :=
  fault.isEndless = true → ∃ label request, fault = .suffixesExhausted label ∧
    state = request.afterWords Suffix.attemptLimit ∧ Unserved label request

section Steps

variable {Result : Type} {registry : List (String × Instruction)} {names : List String}

private theorem accounts_of_finite {fault : CompileFault} (finite : fault.isEndless = false)
    (state : CompileState) : Accounts fault state := by
  intro endless
  rw [finite] at endless
  cases endless

theorem Underway.of_books {before after : CompileState} (underway : Underway registry names before)
    (books : after.books = before.books) : Underway registry names after := by
  obtain ⟨sameRegistry, _, sameInProgress⟩ := Books.mk.inj books
  exact ⟨sameRegistry ▸ underway.registered, sameInProgress ▸ underway.inProgress⟩

private theorem bookkeeps_underway : Bookkeeps (Underway registry names) Accounts where
  reads books _ underway := underway.of_books books
  excused state isLocal := accounts_of_finite (CompileFault.isEndless_of_isLocal isLocal) state
  unserved {label before _ _} failed _ := by
    obtain ⟨isFault, same, unserved⟩ := fails_freshSuffix failed
    exact ⟨label, before, isFault, same, unserved⟩
  takeAhead takes _ underway := by
    obtain ⟨sameRegistry, _, sameInProgress⟩ := Books.mk.inj takes.books
    refine ⟨?_, sameInProgress ▸ underway.inProgress⟩
    rw [sameRegistry]
    exact List.Subset.trans (List.filter_subset_self _) underway.registered
  templateDef ran underway :=
    underway.of_books (keeps_templateDef fixed_books _ _ _ _ _ _ ran)
  findTemplate finds underway := by
    refine ⟨?_, fun _ => accounts_of_finite rfl _⟩
    cases finds with
    | defined _ | missing _ _ => exact underway
    | registered _ _ _ => exact underway.of_books rfl

end Steps

section Within

variable {registry : List (String × Instruction)} {size : Nat}

/-- What is registered and no template has no calls and is no larger than a given size. -/
def Bounded (registry : List (String × Instruction)) (size : Nat) : Prop :=
  ∀ name instruction, (name, instruction) ∈ registry → instruction.isTemplate = false →
    instruction.isCallFree = true ∧ instruction.nodeCount ≤ size

/-- Turning to a registered name leaves fewer names waiting. -/
theorem maintains_ahead {compile : Instruction → CompileM Unit} {names : List String}
    {name : String}
    (each : ∀ instruction, (name, instruction) ∈ registry → instruction.isTemplate = false →
      name ∉ names → Maintains (Underway registry (name :: names)) Accounts (compile instruction)) :
    Maintains (Underway registry names) Accounts (ahead compile name) := by
  refine maintains_turning (fun instruction state =>
    ((name, instruction) ∈ registry ∧ instruction.isTemplate = false ∧ name ∉ names) ∧
      Underway registry (name :: names) state) ?_ ?_ ?_
  · intro turned before after ran underway
    rcases runs_startAhead ran with ⟨rfl, rfl⟩ | ⟨instruction, rfl, turns⟩
    · exact underway
    · obtain ⟨sameRegistry, _, sameInProgress⟩ := Books.mk.inj turns.books
      refine ⟨⟨underway.registered (Table.mem_of_lookup turns.registered), turns.isTemplate,
        underway.inProgress ▸ turns.notInProgress⟩, sameRegistry ▸ underway.registered, ?_⟩
      rw [sameInProgress, underway.inProgress]
  · intro instruction
    refine ⟨fun holds ran => ⟨holds.1, ?_⟩, fun holds failed => ?_⟩
    · exact (each instruction holds.1.1 holds.1.2.1 holds.1.2.2).kept holds.2 ran
    · exact (each instruction holds.1.1 holds.1.2.1 holds.1.2.2).excused holds.2 failed
  · rintro instruction saved before after ran ⟨_, underway⟩
    obtain ⟨sameRegistry, _, sameInProgress⟩ := Books.mk.inj (runs_finishAhead ran).1
    refine ⟨sameRegistry ▸ underway.registered, ?_⟩
    rw [sameInProgress, underway.inProgress, List.erase_cons_head]

/-- A depth suffices when it has room for the instruction, and for the largest one that is
registered with each of the names that wait. -/
theorem maintains_within (bounded : Bounded registry size) :
    ∀ (depth : Nat) (names : List String) (instruction : Instruction),
      instruction.isCallFree = true →
      waiting registry names * (size + 1) + instruction.nodeCount ≤ depth →
      Maintains (Underway registry names) Accounts (within depth instruction)
  | 0, names, instruction, _, room => by
      have positive : 0 < instruction.nodeCount := by
        rw [← Instruction.length_opcodes]
        cases instruction <;> exact Nat.succ_pos _
      omega
  | depth + 1, names, instruction, callFree, room => by
      refine maintains_step bookkeeps_underway.stepsMaintain (fun name => maintains_ahead
        fun inner member noTemplate notYet => ?_) fun inner comes => ?_
      · obtain ⟨innerFree, innerSize⟩ := bounded name inner member noTemplate
        refine maintains_within bounded depth (name :: names) inner innerFree ?_
        have fewer := waiting_lt member notYet
        have product : (waiting registry (name :: names) + 1) * (size + 1) ≤
            waiting registry names * (size + 1) := Nat.mul_le_mul_right _ fewer
        rw [Nat.add_mul, Nat.one_mul] at product
        omega
      · refine maintains_within bounded depth names inner (comes.isCallFree callFree) ?_
        have smaller := comes.nodeCount_lt callFree
        omega

end Within

end Compile

end NetBlueprint
