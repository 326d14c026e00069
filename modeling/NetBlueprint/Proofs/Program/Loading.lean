import NetBlueprint.Program.Loading
import NetBlueprint.Proofs.Program.Decoding

/-!
Contract: loading undoes writing.

Owns:
- `readRootMembers_fields`: behind its label the members of a root are read one after the other;
- `readRoot_compact`: the text of an instruction is read as its operation and its members, and
  nothing is left;
- `load_compact`: a program is loaded from the text that is written from it.

Does not own: texts that nobody wrote, and whether a decimal reads back.
-/

namespace NetBlueprint.Program

open Json

def IsFinite (rate : Float) : Prop :=
  ∃ negative magnitude, Decimal.decode64 rate = .finite negative magnitude

/-- The label of a written root is read as its operation. -/
theorem readLabel_quoted (opcode : Opcode) (rest : List Char) :
    readLabel ((quoted opcode.label).toList ++ rest) = .ok (opcode, rest) := by
  have read : readValue 0 ((quoted opcode.label).toList ++ rest)
      = .ok (.text opcode.label, rest) := by
    rw [toList_quoted, readValue.eq_def, List.cons_append, skipSpace_cons (by decide),
      List.append_assoc]
    simp only [List.cons_append, List.nil_append, readText_quoted]
    rfl
  have solid : skipSpace ((quoted opcode.label).toList ++ rest)
      = (quoted opcode.label).toList ++ rest := by
    rw [toList_quoted, List.cons_append, skipSpace_cons (by decide)]
  rw [readLabel, solid]
  split
  · rename_i same
    rw [toList_quoted] at same
    cases same
  · rename_i same
    rw [toList_quoted] at same
    cases same
  · simp only [read, Opcode.ofLabel?_label]

/-- Behind its label the members of a root are read one after the other. -/
theorem readRootMembers_more {opcode : Opcode} : ∀ (members done : Members) (budget : Nat),
    members.length < budget → (∀ member ∈ members, member.1 ≠ tagKey ∧
      Comes (readValue (nestingLimit - 1)) (fun value => (compact value).toList) member.2) →
    readRootMembers budget (some opcode) done
        (members.flatMap (fun member => ',' :: memberText member) ++ ['\x7d'])
      = .ok ((opcode, .named (done.reverse ++ members)), [])
  | [], done, budget, room, _ => by
      obtain ⟨fewer, rfl⟩ := Nat.exists_eq_add_one_of_ne_zero (Nat.ne_of_gt room)
      rw [List.flatMap_nil, List.nil_append, readRootMembers, nextElement_close (.inr rfl)]
      simp
  | member :: members, done, budget, room, each => by
      obtain ⟨fewer, rfl⟩ := Nat.exists_eq_add_one_of_ne_zero (Nat.ne_zero_of_lt room)
      obtain ⟨noLabel, comes⟩ := each member List.mem_cons_self
      have delimited := delimited_more (.inr rfl) memberText members []
      rw [List.flatMap_cons, List.append_assoc, List.cons_append, readRootMembers]
      simp only [Option.isNone_some, Bool.false_and]
      rw [(opens_memberText member).nextElement_comma (.inr rfl), memberText_append]
      simp only [readKey_quoted, noLabel, decide_false, Bool.false_and, readColon_colon,
        Bool.false_eq_true, if_false, comes.reads _ delimited]
      rw [readRootMembers_more members (member :: done) fewer (Nat.lt_of_succ_lt_succ room)
        fun other among => each other (List.mem_cons_of_mem _ among)]
      simp

/-- The text of an instruction is read as its operation and its members. -/
theorem readRoot_compact {instruction : Instruction}
    (comes : ∀ member ∈ fields instruction,
      Comes (readValue (nestingLimit - 1)) (fun value => (compact value).toList) member.2) :
    readRoot (compact (toValue instruction)).toList
      = .ok ((instruction.opcode, .named (fields instruction)), []) := by
  have each : ∀ member ∈ fields instruction, member.1 ≠ tagKey ∧
      Comes (readValue (nestingLimit - 1)) (fun value => (compact value).toList) member.2 :=
    fun member among => ⟨ne_tagKey_of_mem_fields among, comes member among⟩
  have label := opens_memberText (tagKey, Value.text instruction.opcode.label)
  have written : (compact (.text instruction.opcode.label)).toList
      = (quoted instruction.opcode.label).toList := rfl
  have fewer := length_le_flatMap_comma memberText (fields instruction)
  rw [toValue_eq, toList_compact_record, readRoot, skipSpace_cons (by decide)]
  simp only [separated, List.append_assoc, readRootMembers, Option.isNone_none, Bool.true_and,
    List.isEmpty_nil]
  rw [label.nextElement_first (.inr rfl), memberText_append]
  simp only [readKey_quoted, readColon_colon, written, readLabel_quoted, Option.isSome_none,
    Bool.and_false, Bool.false_eq_true, if_false, if_true]
  rw [readRootMembers_more (fields instruction) [] _ ?_ each]
  · rfl
  · simp only [List.length_append, List.length_cons]
    omega

/-- A program that is written no deeper than a text may be nested is loaded from its text, if each
dropout rate in it that is finite reads back. -/
theorem load_compact {program : Instruction}
    (root : program.opcode = .program ∨ program.opcode = .block) (held : program.IsHeld)
    (nested : (toValue program).depth ≤ nestingLimit)
    (finite : ∀ rate ∈ program.dropouts, IsFinite rate)
    (back : ∀ rate ∈ program.dropouts, IsFinite rate → ReadsBack rate) :
    load (compact (toValue program)) = .ok program := by
  have readable : ReadableMembers (fields program) := by
    have whole := readable_toValue held fun rate among => back rate among (finite rate among)
    rw [toValue_eq] at whole
    cases whole with
    | record each => exact fun member among => each member (List.mem_cons_of_mem _ among)
  have comes : ∀ member ∈ fields program,
      Comes (readValue (nestingLimit - 1)) (fun value => (compact value).toList) member.2 := by
    intro member among
    have bounded := depth_le_of_mem_members among
    rw [depth_toValue] at nested
    exact comes_compact (readable member among) (by omega)
  have decoded : ofFields? (ofValueWithin? nestingLimit) program.opcode (.named (fields program))
      = some program := by
    refine ofFields?_fields (held program program.self_mem_nodes) fun child member => ?_
    have part := Instruction.nodes_subset_of_mem_inside member
    have lower := depth_lt_of_mem_inside member
    exact ofValueWithin?_toValue (fun node inner => held node (part inner)) (by omega)
  rw [load, loadInstruction, readRoot_compact comes]
  simp only [decoded]
  rcases root with isProgram | isBlock
  · simp [skipSpace, isProgram]
  · simp [skipSpace, isBlock]

/-- A program with a dropout rate, integers of both kinds, a table, an empty interface and texts
that have to be escaped. -/
def annotatedProgram : Instruction :=
  .program [
    .layer ⟨"dense", "d \"1\"\n", some (.literal (-9223372036854775808)),
      some [.literal 3, .expression "[n]"], some "", none, some (.expression "2"), none, some 0.5,
      [("bias", "\x01"), ("note", "\\")], ["a"], [], ["b", "c"], none⟩,
    .expand (some "even") [("author", "\t"), ("year", "1")] [.connect "a" "b"],
    .branch (some "pick") (.condition "x > 0") [.moduleDef "m" [] ["out"] []]
      [.loop "i" "0" "[n]" [.call "t" ["[i]"]], .otherwise [.file "other.json"]]]

private theorem annotatedProgram_dropouts : annotatedProgram.dropouts = [0.5] := rfl

private theorem annotatedProgram_isHeld : annotatedProgram.IsHeld := by
  simp only [annotatedProgram, Instruction.IsHeld, Instruction.nodes, Instruction.nodesAll,
    List.append_nil, List.cons_append, List.nil_append, List.forall_mem_cons,
    Instruction.FieldsHeld, true_and, and_true, List.not_mem_nil, false_implies, implies_true]
  refine ⟨⟨?_, ?_, ?_, ?_, ?_, ?_⟩, ?_⟩
  · simp [IntField.IsHeld, Text.minSigned, Text.maxSigned]
  · simp [IntField.IsHeld, Text.minSigned, Text.maxSigned]
  · simp
  · simp [IntField.IsHeld]
  · simp
  · exact List.pairwise_pair.2 (by decide)
  · exact List.pairwise_pair.2 (by decide)

theorem annotatedProgram_loads :
    (annotatedProgram.opcode = .program ∨ annotatedProgram.opcode = .block) ∧
    annotatedProgram.IsHeld ∧ (toValue annotatedProgram).depth ≤ nestingLimit ∧
    (∀ rate ∈ annotatedProgram.dropouts, IsFinite rate) ∧
    (∀ rate ∈ annotatedProgram.dropouts, IsFinite rate → ReadsBack rate) ∧
    load (compact (toValue annotatedProgram)) = .ok annotatedProgram := by
  have shallow : (toValue annotatedProgram).depth ≤ nestingLimit := by decide
  have finite : ∀ rate ∈ annotatedProgram.dropouts, IsFinite rate := by
    rw [annotatedProgram_dropouts]
    intro rate member
    cases List.mem_singleton.1 member
    exact ⟨_, _, rfl⟩
  have back : ∀ rate ∈ annotatedProgram.dropouts, IsFinite rate → ReadsBack rate := by
    rw [annotatedProgram_dropouts]
    intro rate member _
    cases List.mem_singleton.1 member
    rfl
  exact ⟨.inl rfl, annotatedProgram_isHeld, shallow, finite, back,
    load_compact (.inl rfl) annotatedProgram_isHeld shallow finite back⟩

end NetBlueprint.Program
