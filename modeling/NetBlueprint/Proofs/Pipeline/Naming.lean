import Mathlib.Data.List.Dedup
import NetBlueprint.Proofs.Compiler.Namesakes
import NetBlueprint.Proofs.Pipeline.Repeating

/-!
Contract: whose vector the result of an evaluation holds under a name.

The vectors of the forward roots are stored by name, one after the other, so of several roots with
one name the last one counts. Nothing keeps the names of all roots apart: conditional layers may
repeat a name, and so may outputs of different scopes. Only the outputs of one scope are kept apart.

Owns: the entries of a result, and which forward roots may share a name.
-/

namespace NetBlueprint

namespace Text

def Ascends {Value : Type} (table : List (String × Value)) : Prop :=
  table.Pairwise fun earlier later => earlier.1 < later.1

private theorem mem_insertSorted {Value : Type} {key : String} {value : Value}
    {entry : String × Value} :
    ∀ {table : List (String × Value)}, entry ∈ insertSorted key value table →
      entry = (key, value) ∨ entry ∈ table
  | [], member => .inl (List.mem_singleton.1 member)
  | first :: rest, member => by
      rw [insertSorted] at member
      split at member
      · exact List.mem_cons.1 member
      · split at member
        · exact (List.mem_cons.1 member).imp_right (List.mem_cons_of_mem _)
        · rcases List.mem_cons.1 member with rfl | later
          · exact .inr List.mem_cons_self
          · exact (mem_insertSorted later).imp_right (List.mem_cons_of_mem _)

/-- Storing keeps the keys in order. -/
theorem Ascends.insertSorted {Value : Type} (key : String) (value : Value) :
    ∀ {table : List (String × Value)}, Ascends table → Ascends (insertSorted key value table)
  | [], _ => List.pairwise_singleton _ _
  | first :: rest, ascends => by
      obtain ⟨least, later⟩ := List.pairwise_cons.1 ascends
      rw [Text.insertSorted]
      split
      · rename_i before
        refine List.pairwise_cons.2 ⟨fun entry member => ?_, ascends⟩
        rcases List.mem_cons.1 member with rfl | behind
        · exact before
        · exact String.lt_trans before (least entry behind)
      · rename_i notBefore
        split
        · rename_i same
          exact List.pairwise_cons.2 ⟨fun entry member => same ▸ least entry member, later⟩
        · rename_i different
          have behind : first.1 < key := Decidable.byContradiction fun notBehind =>
            different (String.le_antisymm (String.not_lt.1 notBehind) (String.not_lt.1 notBefore))
          refine List.pairwise_cons.2 ⟨fun entry member => ?_, Ascends.insertSorted key value later⟩
          rcases mem_insertSorted member with rfl | old
          · exact behind
          · exact least entry old

private theorem Ascends.nodup_keys {Value : Type} {table : List (String × Value)}
    (ascends : Ascends table) :
    (table.map Prod.fst).Nodup :=
  List.pairwise_map.2 (ascends.imp fun before => String.ne_of_lt before)

/-- In a table whose keys ascend every entry is found. -/
theorem lookup_eq_some_iff_of_nodup {Value : Type} {table : List (String × Value)}
    (distinct : (table.map Prod.fst).Nodup) {key : String} {value : Value} :
    table.lookup key = some value ↔ (key, value) ∈ table := by
  refine ⟨Table.mem_of_lookup, fun member => ?_⟩
  induction table with
  | nil => cases member
  | cons entry rest inductionHypothesis =>
      obtain ⟨apart, distinct⟩ := List.nodup_cons.1 distinct
      rcases List.mem_cons.1 member with rfl | behind
      · rw [List.lookup_cons_self]
      · have different : (key == entry.1) = false := beq_eq_false_iff_ne.2 fun same =>
          apart (same ▸ List.mem_map_of_mem (f := Prod.fst) behind)
        rw [List.lookup_cons, different]
        exact inductionHypothesis distinct behind

end Text

namespace Evaluation

/-- Vectors are stored in the order of their names. -/
theorem ascends_valuesByName {feed : Feed} : ∀ {done : List (String × Vector32)}
    {ids : List LayerId} {before after : EvalState} {results : List (String × Vector32)},
    (valuesByName feed done ids).run before = (.ok results, after) → Text.Ascends done →
      Text.Ascends results
  | done, [], before, after, results, ran, ascends => by
      cases ran
      exact ascends
  | done, first :: rest, before, after, results, ran, ascends => by
      rw [valuesByName, Outcome.run_bind] at ran
      split at ran
      · rw [Outcome.run_bind, run_get] at ran
        exact ascends_valuesByName ran (ascends.insertSorted _ _)
      · cases ran

end Evaluation

namespace Network

variable {network : Network} {feed : Feed}

private theorem nodup_keys_of_forward {results : List (String × Vector32)}
    (succeeded : (network.forward feed).1 = .ok results) : (results.map Prod.fst).Nodup := by
  rcases ended : (Evaluation.valuesByName feed [] network.forwardRoots).run
    (EvalState.start network) with ⟨outcome, after⟩
  have isOutcome : (network.forward feed).1 = outcome := by
    rw [forward, ended]
  cases isOutcome.symm.trans succeeded
  exact (Evaluation.ascends_valuesByName ended .nil).nodup_keys

/-- A forward root is the last one of its name. -/
def IsLastOf (network : Network) (key : String) (root : LayerId) : Prop :=
  ∃ earlier later, network.forwardRoots = earlier ++ root :: later ∧
    network.nameOf root = key ∧ ∀ other ∈ later, network.nameOf other ≠ key

private theorem exists_last {Entry : Type} (Has : Entry → Prop) : ∀ {entries : List Entry},
    (∃ entry ∈ entries, Has entry) →
      ∃ earlier last later, entries = earlier ++ last :: later ∧ Has last ∧
        ∀ entry ∈ later, ¬ Has entry
  | [], ⟨_, member, _⟩ => nomatch member
  | first :: rest, ⟨entry, member, has⟩ => by
      by_cases behind : ∃ entry ∈ rest, Has entry
      · obtain ⟨earlier, last, later, rfl, isLast⟩ := exists_last Has behind
        exact ⟨first :: earlier, last, later, rfl, isLast⟩
      · rcases List.mem_cons.1 member with rfl | inRest
        · exact ⟨[], entry, rest, rfl, has, fun other isOther hasOther =>
            behind ⟨other, isOther, hasOther⟩⟩
        · exact absurd ⟨entry, inRest, has⟩ behind

private theorem exists_isLastOf {key : String} {root : LayerId}
    (isRoot : root ∈ network.forwardRoots)
    (named : network.nameOf root = key) : ∃ last, network.IsLastOf key last := by
  obtain ⟨earlier, last, later, split, isLast⟩ :=
    exists_last (fun id => network.nameOf id = key) ⟨root, isRoot, named⟩
  exact ⟨last, earlier, later, split, isLast⟩

end Network

/-- Two layers that became visible under one name did not do so directly after one another in one
scope: a layer that is no output came between them. -/
structure Namesakes (state : CompileState) (key : String) (one other : LayerId) : Prop where
  visible : ∃ scope, one ∈ state.visibleAs scope key
  otherVisible : ∃ scope, other ∈ state.visibleAs scope key
  between : ∀ scope, one ∈ state.visibleAs scope key → other ∈ state.visibleAs scope key →
    ∃ middle, state.network.isOutputAt middle = false ∧
      [one, middle, other].Sublist (state.visibleAs scope key)

namespace Compile

variable {name : String} {seed : UInt64} {program : Instruction} {compiled : Compiled}

private theorem namesakes_of_roots (compiles : compile name seed program = .ok compiled)
    {one other : LayerId} (isRoot : one ∈ compiled.network.forwardRoots)
    (otherIsRoot : other ∈ compiled.network.forwardRoots) (earlier : one < other)
    (same : compiled.network.nameOf one = compiled.network.nameOf other) :
    compiled.network.IsConditional one ∨ compiled.network.IsConditional other ∨
      Namesakes (builtState name seed program) (compiled.network.nameOf one) one other := by
  obtain ⟨wellFormed, _⟩ := evaluable_of_compile compiles
  obtain ⟨root, rootOf⟩ := exists_rootOf compiles
  -- A root that is no conditional layer is an output, and it became visible under its name.
  have output {id : LayerId} (isRoot : id ∈ compiled.network.forwardRoots)
      (notConditional : ¬ compiled.network.IsConditional id) :
      root.after.network.isOutputAt id = true ∧
        ∃ scope, id ∈ root.after.visibleAs scope (compiled.network.nameOf id) := by
    obtain ⟨layer, found⟩ :=
      Network.exists_layer?_of_lt (Network.lt_size_of_forwardRoots wellFormed isRoot)
    have isOutput := ((Network.mem_forwardRoots_iff wellFormed.numbered found).1 isRoot).1
      |>.resolve_right fun isConditional => notConditional ⟨layer, found, isConditional⟩
    obtain ⟨built, isBuilt, node⟩ := Network.layer?_of_nodes rootOf.nodes found
    have named : compiled.network.nameOf id = built.name := by
      rw [Network.nameOf, found]
      exact (Layer.name_eq_of_node node).symm
    refine ⟨Network.isOutputAt_iff.2 ⟨built, isBuilt, ?_⟩, named ▸ rootOf.exists_visible isBuilt⟩
    rw [Layer.kind_eq_of_node node]
    exact isOutput
  by_cases conditional : compiled.network.IsConditional one
  · exact .inl conditional
  by_cases otherConditional : compiled.network.IsConditional other
  · exact .inr (.inl otherConditional)
  obtain ⟨isOutput, visible⟩ := output isRoot conditional
  obtain ⟨otherIsOutput, otherVisible⟩ := output otherIsRoot otherConditional
  rw [rootOf.built]
  exact .inr (.inr ⟨visible, same ▸ otherVisible, fun scope here there =>
    rootOf.exists_between here there isOutput otherIsOutput earlier⟩)

section Entries

variable {current : Network} {feed : Feed} {results : List (String × Vector32)} {key : String}

/-- Under the name of a forward root the value of the last root of this name is found. -/
theorem exists_value_of_isLastOf (compiles : compile name seed program = .ok compiled)
    (weighted : current.unweighted = compiled.network.unweighted)
    (succeeded : (current.forward feed).1 = .ok results) {root : LayerId}
    (isLast : compiled.network.IsLastOf key root) :
    ∃ value, ((Evaluation.value feed root).run (EvalState.start current)).1 = .ok value ∧
      (key, value) ∈ results := by
  obtain ⟨wellFormed, readable⟩ := evaluable_of_compile compiles
  have sameName := Network.nameOf_of_unweighted weighted
  obtain ⟨earlier, later, roots, rfl, last⟩ := isLast
  obtain ⟨value, alone, isFound⟩ := Network.value_of_forward wellFormed readable weighted
    succeeded ((Network.forwardRoots_of_unweighted weighted).trans roots)
  rw [sameName] at isFound
  exact ⟨value, alone, Table.mem_of_lookup
    (isFound fun other member => sameName other ▸ last other member)⟩

/-- The names in a result are those of the forward roots. -/
theorem mem_keys_iff_of_forward (compiles : compile name seed program = .ok compiled)
    (weighted : current.unweighted = compiled.network.unweighted)
    (succeeded : (current.forward feed).1 = .ok results) :
    key ∈ results.map Prod.fst ↔
      key ∈ compiled.network.forwardRoots.map compiled.network.nameOf := by
  obtain ⟨wellFormed, _⟩ := evaluable_of_compile compiles
  constructor
  · intro stored
    by_contra none
    have nothing := Network.lookup_eq_none_of_forward
      (Network.Numbered.of_unweighted wellFormed.numbered weighted) succeeded
      fun id isRoot named => none (List.mem_map.2 ⟨id,
        Network.forwardRoots_of_unweighted weighted ▸ isRoot,
        (Network.nameOf_of_unweighted weighted id).symm.trans named⟩)
    obtain ⟨⟨_, value⟩, member, rfl⟩ := List.mem_map.1 stored
    have found := Table.isSome_lookup_iff.2 ⟨value, member⟩
    rw [nothing] at found
    cases found
  · intro named
    obtain ⟨root, isRoot, isNamed⟩ := List.mem_map.1 named
    obtain ⟨last, isLast⟩ := Network.exists_isLastOf isRoot isNamed
    obtain ⟨value, _, member⟩ := exists_value_of_isLastOf compiles weighted succeeded isLast
    exact List.mem_map_of_mem (f := Prod.fst) member

/-- The entries of a result are the values of the roots that are the last of their names. -/
theorem mem_iff_of_forward (compiles : compile name seed program = .ok compiled)
    (weighted : current.unweighted = compiled.network.unweighted)
    (succeeded : (current.forward feed).1 = .ok results) {value : Vector32} :
    (key, value) ∈ results ↔ ∃ root, compiled.network.IsLastOf key root ∧
      ((Evaluation.value feed root).run (EvalState.start current)).1 = .ok value := by
  have distinct := Network.nodup_keys_of_forward succeeded
  constructor
  · intro stored
    have named := (mem_keys_iff_of_forward compiles weighted succeeded).1
      (List.mem_map_of_mem (f := Prod.fst) stored)
    obtain ⟨root, isRoot, isNamed⟩ := List.mem_map.1 named
    obtain ⟨last, isLast⟩ := Network.exists_isLastOf isRoot isNamed
    obtain ⟨own, alone, member⟩ := exists_value_of_isLastOf compiles weighted succeeded isLast
    rw [← Text.lookup_eq_some_iff_of_nodup distinct] at stored member
    cases stored.symm.trans member
    exact ⟨last, isLast, alone⟩
  · rintro ⟨root, isLast, alone⟩
    obtain ⟨own, ownAlone, member⟩ := exists_value_of_isLastOf compiles weighted succeeded isLast
    cases ownAlone.symm.trans alone
    exact member

/-- There are as many entries as forward roots exactly where the roots differ in their names. -/
theorem length_eq_iff_of_forward (compiles : compile name seed program = .ok compiled)
    (weighted : current.unweighted = compiled.network.unweighted)
    (succeeded : (current.forward feed).1 = .ok results) :
    results.length = compiled.network.forwardRoots.length ↔
      (compiled.network.forwardRoots.map compiled.network.nameOf).Nodup := by
  have same : (results.map Prod.fst).Perm
      (compiled.network.forwardRoots.map compiled.network.nameOf).dedup := by
    rw [List.perm_ext_iff_of_nodup (Network.nodup_keys_of_forward succeeded) (List.nodup_dedup _)]
    intro key
    rw [List.mem_dedup]
    exact mem_keys_iff_of_forward compiles weighted succeeded
  have count := same.length_eq
  rw [List.length_map] at count
  rw [count, ← List.length_map compiled.network.nameOf, ← List.dedup_eq_self]
  exact ⟨(List.dedup_sublist _).eq_of_length, congrArg List.length⟩

end Entries

/-- Where an evaluation succeeds, its result has exactly one entry for every name of a forward root,
with the vector that the last root of this name has by itself. So no vector is lost exactly where the
names of the forward roots differ. Of two forward roots that share a name one is a conditional
layer; or they are outputs that did not become visible under this name directly after one another in
one scope. -/
theorem entries_of_forward (compiles : compile name seed program = .ok compiled)
    {current : Network} (weighted : current.unweighted = compiled.network.unweighted) {feed : Feed}
    {results : List (String × Vector32)} (succeeded : (current.forward feed).1 = .ok results) :
    (results.map Prod.fst).Nodup ∧
      (∀ key value, (key, value) ∈ results ↔ ∃ root, compiled.network.IsLastOf key root ∧
        ((Evaluation.value feed root).run (EvalState.start current)).1 = .ok value) ∧
      (results.length = compiled.network.forwardRoots.length ↔
        (compiled.network.forwardRoots.map compiled.network.nameOf).Nodup) ∧
      ∀ one other, one ∈ compiled.network.forwardRoots →
        other ∈ compiled.network.forwardRoots → one < other →
        compiled.network.nameOf one = compiled.network.nameOf other →
          compiled.network.IsConditional one ∨ compiled.network.IsConditional other ∨
            Namesakes (builtState name seed program) (compiled.network.nameOf one) one other := by
  exact ⟨Network.nodup_keys_of_forward succeeded,
    fun _ _ => mem_iff_of_forward compiles weighted succeeded,
    length_eq_iff_of_forward compiles weighted succeeded,
    fun _ _ isRoot otherIsRoot earlier same =>
      namesakes_of_roots compiles isRoot otherIsRoot earlier same⟩

/-- Two conditional layers with one name, each of which selects an output. -/
def twinGates : Instruction :=
  .program [sizedLayer "input" "x" 1,
    .branch (some "gate") (.condition "x > nan") [] [sizedLayer "output" "a" 1],
    .branch (some "gate") (.condition "x > nan") [] [sizedLayer "output" "b" 1]]

/-- What is evaluated: neither condition holds, whatever `x` is. -/
def bothGates : Feed :=
  ⟨[("x", [Activation.zero32])], .parallel⟩

/-- Two roots share the only entry. -/
theorem twinGates_share_entry :
    ∃ compiled, compile "net" 0 twinGates = .ok compiled ∧
      compiled.network.forwardRoots.map compiled.network.nameOf = ["gate", "gate"] ∧
      ∃ results, (compiled.network.forward bothGates).1 = .ok results ∧
        results.map Prod.fst = ["gate"] := by
  have passed : (compile "net" 0 twinGates).toOption.any (fun compiled =>
      decide (compiled.network.forwardRoots.map compiled.network.nameOf = ["gate", "gate"]) &&
        match (compiled.network.forward bothGates).1 with
        | .ok results => decide (results.map Prod.fst = ["gate"])
        | .error _ => false) = true := by decide +kernel
  obtain ⟨compiled, compiles, checks⟩ := exists_compiled passed
  rw [Bool.and_eq_true, decide_eq_true_iff] at checks
  obtain ⟨named, evaluated⟩ := checks
  refine ⟨compiled, compiles, named, ?_⟩
  split at evaluated
  · rename_i results succeeded
    exact ⟨results, succeeded, of_decide_eq_true evaluated⟩
  · cases evaluated

/-- The entry is that of the root that comes last, and it is the only one. -/
theorem twinGates_entries :
    ∃ compiled, compile "net" 0 twinGates = .ok compiled ∧
      ∃ results, (compiled.network.forward bothGates).1 = .ok results ∧
        (results.map Prod.fst).Nodup ∧
        (∀ value, ("gate", value) ∈ results ↔ ∃ root, compiled.network.IsLastOf "gate" root ∧
          ((Evaluation.value bothGates root).run (EvalState.start compiled.network)).1 =
            .ok value) ∧
        results.length ≠ compiled.network.forwardRoots.length := by
  have passed : (compile "net" 0 twinGates).toOption.any (fun compiled =>
      decide (compiled.network.forwardRoots.map compiled.network.nameOf = ["gate", "gate"]) &&
        (compiled.network.forward bothGates).1.toOption.isSome) = true := by decide +kernel
  obtain ⟨compiled, compiles, checks⟩ := exists_compiled passed
  rw [Bool.and_eq_true, decide_eq_true_iff] at checks
  obtain ⟨named, evaluated⟩ := checks
  cases succeeded : (compiled.network.forward bothGates).1 with
  | error fault =>
      rw [succeeded] at evaluated
      cases evaluated
  | ok results =>
      obtain ⟨distinct, entries, asMany, _⟩ := entries_of_forward compiles rfl succeeded
      refine ⟨compiled, compiles, results, succeeded, distinct, entries "gate", ?_⟩
      rw [Ne, asMany, named]
      decide

end Compile

end NetBlueprint
