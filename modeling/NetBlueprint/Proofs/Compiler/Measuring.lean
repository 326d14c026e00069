import NetBlueprint.Proofs.Compiler.Inheriting
import NetBlueprint.Proofs.Expr.Exactness
import NetBlueprint.Proofs.Expr.Printing
import NetBlueprint.Proofs.Graph.Fitting

/-!
Contract: the sizes and the weights of compiled layers.

A declared size is a literal or the value of an expression. Literals of a program that can be held
fit signed 64 bits, filling in keeps them, and a value that does not fit is an overflow. So the size
of every output that is compiled fits as well. No declaration gives a dense layer its weights.

Owns: the range of sizes, and that compiled networks have no weights.

Does not own: the widths of values.
-/

namespace NetBlueprint

namespace Expr

open Text

/-- The result of an operation fits 64 bits. -/
theorem inRange_of_apply {operator : Operator} {left right value : Int}
    (applied : operator.apply left right = .ok value) : InRange value := by
  rw [apply_eq] at applied
  unfold answer at applied
  split at applied
  · cases applied
  · cases fault : rangeFault? (operator.exact left right) with
    | none =>
        rw [fault] at applied
        cases applied
        exact rangeFault?_eq_none_iff.1 fault
    | some _ =>
        rw [fault] at applied
        cases applied

/-- An expression that some text spells has a value that fits 64 bits, if all variables have. -/
theorem inRange_of_eval {environment : Environment} {expression : Expr} {value : Int}
    (plain : expression.IsPlain)
    (bounded : ∀ name value, environment name = .ok (some value) → InRange value)
    (evaluates : expression.eval environment = .ok value) : InRange value := by
  cases expression with
  | number number =>
      cases evaluates
      exact ⟨Int.le_trans (by decide) plain.1, plain.2⟩
  | reference name =>
      rw [eval] at evaluates
      split at evaluates
      · cases evaluates
      · cases evaluates
      · rename_i resolved
        cases evaluates
        exact bounded name value resolved
  | negate operand =>
      rw [eval] at evaluates
      split at evaluates
      · cases evaluates
      split at evaluates
      · rename_i kept
        cases evaluates
        exact inRange_of_signed? kept
      · cases evaluates
  | binary operator left right =>
      rw [eval] at evaluates
      split at evaluates
      · cases evaluates
      split at evaluates
      · cases evaluates
      · exact inRange_of_apply evaluates

/-- A text without variables has a value that fits 64 bits. -/
theorem inRange_of_evaluate {source : String} {value : Int}
    (evaluates : evaluate source = .ok value) : InRange value := by
  unfold evaluate evaluateIn at evaluates
  split at evaluates
  · cases evaluates
  rename_i expression parsed
  obtain ⟨_, _, _, _, spells⟩ := parse_eq_ok_iff.1 parsed
  split at evaluates
  · cases evaluates
  rename_i evaluated
  cases evaluates
  exact inRange_of_eval spells.isPlain (fun _ _ unbound => by cases unbound) evaluated

end Expr

namespace LayerSpec

variable {spec : LayerSpec}

/-- The value of a field that can be held fits 64 bits. -/
theorem inRange_of_integer {field : IntField} {value : Int} (held : field.IsHeld)
    (evaluates : integer field = .ok value) : Expr.InRange value := by
  cases field with
  | literal number =>
      cases evaluates
      exact held
  | expression text =>
      rw [integer] at evaluates
      cases evaluated : Expr.evaluate (unbracket text) with
      | error fault =>
          rw [evaluated] at evaluates
          cases evaluates
      | ok result =>
          rw [evaluated] at evaluates
          cases evaluates
          exact Expr.inRange_of_evaluate evaluated

/-- What a field that can be held counts fits 64 bits. -/
theorem le_of_count {field : String} {given : Option IntField} {count : Nat}
    (held : ∀ value ∈ given, value.IsHeld) (counts : spec.count field given = .ok (some count)) :
    (count : Int) ≤ Text.maxSigned := by
  cases given with
  | none => cases counts
  | some value =>
      obtain ⟨number, evaluates, checked⟩ := Outcome.bind_eq_ok.1 counts
      split at checked
      · cases checked
      · rename_i nonnegative
        cases Outcome.pure_eq_ok.1 checked
        rw [Int.toNat_of_nonneg (Int.not_lt.1 nonnegative)]
        exact (inRange_of_integer (held value rfl) evaluates).2

end LayerSpec

/-- Filling in leaves literals as they are. -/
theorem IntField.isHeld_of_fill {substitution : Substitution} {field filled : IntField}
    (held : field.IsHeld) (fills : substitution.intField field = .ok filled) : filled.IsHeld := by
  cases field with
  | literal value =>
      cases fills
      exact held
  | expression text =>
      obtain ⟨_, _, rfl⟩ := Outcome.map_eq_ok.1 fills
      trivial

/-- The size of a layer declaration is filled in. -/
theorem Substitution.size_of_layerSpec {substitution : Substitution} {spec filled : LayerSpec}
    (fills : substitution.layerSpec spec = .ok filled) :
    Substitution.optional substitution.intField spec.size = .ok filled.size := by
  unfold Substitution.layerSpec at fills
  iterate 2 obtain ⟨_, _, fills⟩ := Outcome.bind_eq_ok.1 fills
  obtain ⟨_, fillsSize, rest⟩ := Outcome.bind_eq_ok.1 fills
  iterate 10 obtain ⟨_, _, rest⟩ := Outcome.bind_eq_ok.1 rest
  cases Outcome.pure_eq_ok.1 rest
  exact fillsSize

namespace Instruction

def SizeHeld : Instruction → Prop
  | .layer spec => ∀ size ∈ spec.size, size.IsHeld
  | _ => True

private theorem FieldsHeld.sizeHeld {instruction : Instruction} (held : instruction.FieldsHeld) :
    instruction.SizeHeld := by
  cases instruction with
  | layer spec => exact held.size
  | _ => trivial

/-- Filling in keeps the literals of sizes. -/
theorem sizeHeld_of_apply {substitution : Substitution} {template instruction : Instruction}
    (held : template.SizeHeld) (applied : substitution.apply template = .ok instruction) :
    instruction.SizeHeld := by
  have sameOpcode := Substitution.opcode_of_apply applied
  cases instruction with
  | layer spec =>
      cases template with
      | layer given =>
          obtain ⟨filled, fills, same⟩ := Outcome.bind_eq_ok.1 applied
          cases Outcome.pure_eq_ok.1 same
          intro size declared
          have fillsSize := Substitution.size_of_layerSpec fills
          rw [Option.mem_def.1 declared] at fillsSize
          cases isGiven : given.size with
          | none =>
              rw [isGiven] at fillsSize
              cases fillsSize
          | some field =>
              rw [isGiven] at fillsSize
              obtain ⟨_, fillsField, same⟩ := Outcome.map_eq_ok.1 fillsSize
              cases same
              exact IntField.isHeld_of_fill (held field isGiven) fillsField
      | _ => cases sameOpcode
  | _ => trivial

/-- The sizes in a tree are inherited. -/
theorem inherited_sizeHeld :
    Inherited fun instruction => ∀ node ∈ instruction.nodes, node.SizeHeld :=
  .of_nodes sizeHeld_of_apply

end Instruction

namespace Compile

variable {name : String} {seed : UInt64} {program : Instruction} {compiled : Compiled}
  {root : Visit} {id : LayerId} {layer : Layer}

/-- Every dense layer and every output of a compiled network was declared by an instruction that is
visited. -/
theorem RootOf.exists_declaration (rootOf : RootOf name seed program compiled root)
    (found : compiled.network.layer? id = some layer)
    (hasWidth : (layer.kind.dense?.isSome || layer.kind.isOutput) = true) :
    ∃ visit spec, Visit.Within visit root ∧ visit.instruction = .layer spec ∧
      spec.layerKind = .ok layer.kind := by
  obtain ⟨made, isMade, node⟩ := Network.layer?_of_nodes rootOf.nodes found
  obtain ⟨visit, start, within, _, makes⟩ := rootOf.origin_of_layer isMade
  rw [Layer.name_eq_of_node node, Layer.kind_eq_of_node node] at makes
  obtain ⟨spec, isLayer, declared⟩ :
      ∃ spec, visit.instruction = .layer spec ∧ spec.layerKind = .ok layer.kind := by
    generalize visit.instruction = instruction, layer.name = key, layer.kind = kind
      at makes hasWidth ⊢
    cases makes with
    | layer declared _ => exact ⟨_, rfl, declared⟩
    | autoInput | moduleDef | branch => cases hasWidth
  exact ⟨visit, spec, within, isLayer, declared⟩

/-- A compiled network has no weights yet. -/
theorem RootOf.isFitted (rootOf : RootOf name seed program compiled root) :
    compiled.network.IsFitted := by
  intro id layer dense found isDense
  obtain ⟨_, _, _, _, declared⟩ := rootOf.exists_declaration found (by rw [isDense]; rfl)
  rw [isDense] at declared
  have noWeights : dense.weights = none := LayerSpec.isDeclared_of_layerKind declared
  rw [Dense.IsFitted, noWeights]
  exact fun weights absent => by cases absent

/-- The size of a compiled output fits 64 bits. -/
theorem RootOf.size_le (rootOf : RootOf name seed program compiled root) (held : program.IsHeld)
    (found : compiled.network.layer? id = some layer) {size : Nat} {shape : Option Shape}
    {function : Activation} (isOutput : layer.kind = .output (some size) shape function) :
    (size : Int) ≤ Text.maxSigned := by
  obtain ⟨visit, spec, within, isLayer, declared⟩ :=
    rootOf.exists_declaration found (by rw [isOutput]; rfl)
  have sizeHeld : (Instruction.layer spec).SizeHeld := isLayer ▸
    rootOf.inherits Instruction.inherited_sizeHeld (fun node member => (held node member).sizeHeld)
      within _ visit.instruction.self_mem_nodes
  rw [isOutput] at declared
  have declaresOutput := (LayerSpec.isOutput_of_layerKind declared).symm
  obtain ⟨_, _, _, counts, _, same⟩ := LayerSpec.layerKind_of_isOutput declaresOutput declared
  cases same
  exact LayerSpec.le_of_count sizeHeld counts

end Compile

end NetBlueprint
