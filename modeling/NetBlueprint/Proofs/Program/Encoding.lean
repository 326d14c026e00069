import NetBlueprint.Program.Encoding
import NetBlueprint.Program.Decoding
import NetBlueprint.Proofs.Json.RoundTrip

/-!
Contract: what an instruction is written as.

Owns:
- `fields`: the members behind the label of a written instruction, and `toValue_eq`;
- `fields_sublist`: the keys of these members are names of fields in their order, so none is
  there twice and none is the key of the label;
- `IsHeld`: what holds of every tree that can be held in memory, whatever it says. Integers fit 64
  bits and tables are sorted;
- `readable_toValue`: such a tree is written as a value that reads back, provided the dropout
  rates in it do.

Does not own: how the members are read.
-/

namespace NetBlueprint

namespace Instruction

def inside : Instruction → List Instruction
  | .branch _ test body alternative => test :: (body ++ alternative)
  | instruction => instruction.body

mutual

def nodes : Instruction → List Instruction
  | .program body => .program body :: nodesAll body
  | .block body => .block body :: nodesAll body
  | .moduleDef name inputs outputs body => .moduleDef name inputs outputs body :: nodesAll body
  | .loop counter first last body => .loop counter first last body :: nodesAll body
  | .branch name test body alternative =>
    .branch name test body alternative :: (nodes test ++ (nodesAll body ++ nodesAll alternative))
  | .templateDef name parameters body => .templateDef name parameters body :: nodesAll body
  | .expand group annotations body => .expand group annotations body :: nodesAll body
  | .otherwise body => .otherwise body :: nodesAll body
  | .layer spec => [.layer spec]
  | .connect source target => [.connect source target]
  | .moduleCall name args => [.moduleCall name args]
  | .condition text => [.condition text]
  | .templateCall name args => [.templateCall name args]
  | .call name args => [.call name args]
  | .constant name text => [.constant name text]
  | .file path => [.file path]

def nodesAll : List Instruction → List Instruction
  | [] => []
  | first :: rest => nodes first ++ nodesAll rest

end

/-- The nodes of a list are those of its instructions. -/
theorem nodesAll_eq_flatMap (body : List Instruction) : nodesAll body = body.flatMap nodes := by
  induction body with
  | nil => rfl
  | cons first rest ih => rw [nodesAll, List.flatMap_cons, ih]

/-- A tree is its root and the trees directly below it. -/
theorem nodes_eq (instruction : Instruction) :
    instruction.nodes = instruction :: instruction.inside.flatMap nodes := by
  cases instruction <;> simp [nodes, inside, body, nodesAll_eq_flatMap]

def dropout? : Instruction → Option Float
  | .layer spec => spec.dropout
  | _ => none

def dropouts (instruction : Instruction) : List Float :=
  instruction.nodes.filterMap dropout?

/-! ## Trees that can be held -/

end Instruction

/-- A literal of a field fits signed 64 bits. -/
def IntField.IsHeld : IntField → Prop
  | .literal value => Text.minSigned ≤ value ∧ value ≤ Text.maxSigned
  | .expression _ => True

def TextTable.IsSorted (table : TextTable) : Prop :=
  table.Pairwise fun earlier later => earlier.1 < later.1

/-- The integers of a layer declaration fit and its parameters are sorted. -/
structure LayerSpec.IsHeld (spec : LayerSpec) : Prop where
  size : ∀ field ∈ spec.size, field.IsHeld
  shape : ∀ dims ∈ spec.shape, ∀ field ∈ dims, field.IsHeld
  dim : ∀ field ∈ spec.dim, field.IsHeld
  depth : ∀ field ∈ spec.depth, field.IsHeld
  heads : ∀ field ∈ spec.heads, field.IsHeld
  params : spec.params.IsSorted

namespace Instruction

def FieldsHeld : Instruction → Prop
  | .layer spec => spec.IsHeld
  | .expand _ annotations _ => annotations.IsSorted
  | _ => True

/-- A tree can be held: the fields of every instruction in it can. -/
def IsHeld (instruction : Instruction) : Prop :=
  ∀ node ∈ instruction.nodes, node.FieldsHeld

theorem self_mem_nodes (instruction : Instruction) : instruction ∈ instruction.nodes := by
  rw [nodes_eq]
  exact List.mem_cons_self

/-- The nodes of a child are nodes of its parent. -/
theorem nodes_subset_of_mem_inside {instruction child : Instruction}
    (member : child ∈ instruction.inside) : child.nodes ⊆ instruction.nodes := by
  intro node inner
  rw [nodes_eq instruction]
  exact List.mem_cons_of_mem _ (List.mem_flatMap.2 ⟨child, member, inner⟩)

end Instruction

namespace Program

open Json (Value Readable)

/-! ## The members of a written instruction -/

private theorem toValues_eq_map (body : List Instruction) : toValues body = body.map toValue := by
  induction body with
  | nil => rfl
  | cons first rest ih => rw [toValues, List.map_cons, ih]

def bodyValue (body : List Instruction) : Value :=
  .list (body.map toValue)

/-- The members of a written instruction behind its label. -/
def fields : Instruction → Members
  | .program body | .block body | .otherwise body => [("body", bodyValue body)]
  | .layer spec => layerMembers spec
  | .connect source target => [("from", .text source), ("to", .text target)]
  | .moduleDef name inputs outputs body =>
    [("name", .text name)] ++ unlessEmpty "inputs" textList inputs
      ++ unlessEmpty "outputs" textList outputs ++ [("body", bodyValue body)]
  | .moduleCall name args | .templateCall name args | .call name args =>
    [("name", .text name), ("args", textList args)]
  | .loop counter first last body =>
    [("var", .text counter), ("fromVal", .text first), ("toVal", .text last),
      ("body", bodyValue body)]
  | .branch name test body alternative =>
    given "name" .text name ++ [("cond", toValue test), ("body", bodyValue body)]
      ++ unlessEmpty "else" bodyValue alternative
  | .condition text => [("expr", .text text)]
  | .templateDef name parameters body =>
    [("name", .text name), ("params", textList parameters), ("body", bodyValue body)]
  | .expand group annotations body =>
    given "group" .text group ++ unlessEmpty "meta" textRecord annotations
      ++ [("body", bodyValue body)]
  | .constant name text => [("name", .text name), ("expr", .text text)]
  | .file path => [("path", .text path)]

private theorem unlessEmpty_map (key : String) (body : List Instruction) :
    unlessEmpty key .list (body.map toValue) = unlessEmpty key bodyValue body := by
  cases body <;> rfl

/-- An instruction is written as its label and its fields. -/
theorem toValue_eq (instruction : Instruction) :
    toValue instruction
      = .record ((tagKey, .text instruction.opcode.label) :: fields instruction) := by
  cases instruction <;> simp only [toValue, labelled, tagKey, fields, Instruction.opcode,
    toValues_eq_map, bodyValue, unlessEmpty_map]

/-- The keys of members are among given names and in their order. -/
def Keyed (members : Members) (names : List String) : Prop :=
  (members.map Prod.fst).Sublist names

/-- Keys that are in order stay so when later ones follow. -/
theorem Keyed.append {earlier later : Members} {names others : List String}
    (first : Keyed earlier names) (second : Keyed later others) :
    Keyed (earlier ++ later) (names ++ others) := by
  rw [Keyed, List.map_append]
  exact List.Sublist.append first second

theorem keyed_refl (members : Members) : Keyed members (members.map Prod.fst) :=
  List.Sublist.refl _

theorem keyed_given {Field : Type} (key : String) (write : Field → Value) (field : Option Field) :
    Keyed (given key write field) [key] := by
  cases field with
  | none => exact List.nil_sublist _
  | some field => exact keyed_refl _

theorem keyed_unlessEmpty {Item : Type} (key : String) (write : List Item → Value)
    (items : List Item) : Keyed (unlessEmpty key write items) [key] := by
  cases items with
  | nil => exact List.nil_sublist _
  | cons item items => exact keyed_refl _

private theorem keyed_layerMembers (spec : LayerSpec) : Keyed (layerMembers spec)
    (fieldNames .layer) := by
  have keyed := (keyed_refl [("type", .text spec.layerType), ("name", .text spec.name)])
    |>.append (keyed_given "size" intValue spec.size)
    |>.append (keyed_given "shape" (fun dims => .list (dims.map intValue)) spec.shape)
    |>.append (keyed_given "activation" .text spec.activation)
    |>.append (keyed_given "dim" intValue spec.dim)
    |>.append (keyed_given "depth" intValue spec.depth)
    |>.append (keyed_given "heads" intValue spec.heads)
    |>.append (keyed_given "dropout" .decimal spec.dropout)
    |>.append (keyed_unlessEmpty "params" textRecord spec.params)
    |>.append (keyed_unlessEmpty "tags" textList spec.tags)
    |>.append (keyed_unlessEmpty "inputs" textList spec.inputs)
    |>.append (keyed_unlessEmpty "outputs" textList spec.outputs)
    |>.append (keyed_given "weights" .text spec.weights)
  exact keyed

/-- The keys of an instruction's members are the names of its fields, in their order; some may be
left out. -/
theorem keyed_fields (instruction : Instruction) :
    Keyed (fields instruction) (fieldNames instruction.opcode) := by
  cases instruction with
  | layer spec => exact keyed_layerMembers spec
  | moduleDef name inputs outputs body =>
    exact (keyed_refl [("name", .text name)])
      |>.append (keyed_unlessEmpty "inputs" textList inputs)
      |>.append (keyed_unlessEmpty "outputs" textList outputs)
      |>.append (keyed_refl [("body", bodyValue body)])
  | branch name test body alternative =>
    exact (keyed_given "name" .text name)
      |>.append (keyed_refl [("cond", toValue test), ("body", bodyValue body)])
      |>.append (keyed_unlessEmpty "else" bodyValue alternative)
  | expand group annotations body =>
    exact (keyed_given "group" .text group)
      |>.append (keyed_unlessEmpty "meta" textRecord annotations)
      |>.append (keyed_refl [("body", bodyValue body)])
  | _ => exact keyed_refl _

/-- No field of an instruction has the name of another. -/
theorem nodup_fieldNames (opcode : Opcode) : (fieldNames opcode).Nodup := by
  cases opcode <;> decide

private theorem tagKey_notMem_fieldNames (opcode : Opcode) : tagKey ∉ fieldNames opcode := by
  cases opcode <;> decide

/-- No member of a written instruction but the first is its label. -/
theorem ne_tagKey_of_mem_fields {instruction : Instruction} {member : String × Value}
    (among : member ∈ fields instruction) : member.1 ≠ tagKey := by
  intro same
  have named := (keyed_fields instruction).subset (List.mem_map_of_mem (f := Prod.fst) among)
  rw [same] at named
  exact tagKey_notMem_fieldNames _ named

/-! ## Written trees read back -/

def ReadableMembers (members : Members) : Prop :=
  ∀ member ∈ members, Readable member.2

/-- Members that can be read can be read together. -/
theorem ReadableMembers.append {earlier later : Members} (first : ReadableMembers earlier)
    (second : ReadableMembers later) : ReadableMembers (earlier ++ later) := by
  intro member among
  rcases List.mem_append.1 among with among | among
  · exact first member among
  · exact second member among

theorem readableMembers_given {Field : Type} (key : String) (write : Field → Value)
    (field : Option Field) (each : ∀ given ∈ field, Readable (write given)) :
    ReadableMembers (given key write field) := by
  intro member among
  cases field with
  | none => cases among
  | some field =>
    cases List.mem_singleton.1 among
    exact each field rfl

private theorem readableMembers_unlessEmpty {Item : Type} {write : List Item → Value}
    {items : List Item}
    (key : String) (all : Readable (write items)) :
    ReadableMembers (unlessEmpty key write items) := by
  intro member among
  cases items with
  | nil => cases among
  | cons item items =>
    cases List.mem_singleton.1 among
    exact all

private theorem readable_textList (texts : List String) : Readable (textList texts) := by
  refine .list fun item member => ?_
  obtain ⟨text, _, rfl⟩ := List.mem_map.1 member
  exact .text text

private theorem readable_textRecord (table : TextTable) : Readable (textRecord table) := by
  refine .record fun member among => ?_
  obtain ⟨entry, _, rfl⟩ := List.mem_map.1 among
  exact .text entry.2

private theorem readable_intValue {field : IntField} (held : field.IsHeld) : Readable
    (intValue field) := by
  cases field with
  | literal value =>
    obtain ⟨least, greatest⟩ := held
    refine .integer least ?_
    simp only [Text.maxSigned] at greatest
    simp only [Text.maxUnsigned]
    omega
  | expression text => exact .text text

private theorem readable_layerMembers {spec : LayerSpec} (held : spec.IsHeld)
    (back : ∀ rate ∈ spec.dropout, Json.ReadsBack rate) : ReadableMembers (layerMembers spec) := by
  have heading : ReadableMembers [("type", .text spec.layerType), ("name", .text spec.name)] := by
    intro member among
    rcases List.mem_cons.1 among with rfl | among
    · exact .text _
    · cases List.mem_singleton.1 among
      exact .text _
  have shape : ∀ dims ∈ spec.shape, Readable (.list (dims.map intValue)) := by
    refine fun dims isShape => .list fun item member => ?_
    obtain ⟨dim, isDim, rfl⟩ := List.mem_map.1 member
    exact readable_intValue (held.shape dims isShape dim isDim)
  have integer (key : String) {field : Option IntField} (fits : ∀ given ∈ field, given.IsHeld) :
      ReadableMembers (given key intValue field) :=
    readableMembers_given key intValue field fun given declared =>
      readable_intValue (fits given declared)
  have text (key : String) (field : Option String) : ReadableMembers (given key .text field) :=
    readableMembers_given key .text field fun text _ => .text text
  have rate := readableMembers_given "dropout" .decimal spec.dropout fun rate declared =>
    .decimal (back rate declared)
  exact heading
    |>.append (integer "size" held.size)
    |>.append (readableMembers_given "shape" _ spec.shape shape)
    |>.append (text "activation" spec.activation)
    |>.append (integer "dim" held.dim)
    |>.append (integer "depth" held.depth)
    |>.append (integer "heads" held.heads)
    |>.append rate
    |>.append (readableMembers_unlessEmpty "params" (readable_textRecord spec.params))
    |>.append (readableMembers_unlessEmpty "tags" (readable_textList spec.tags))
    |>.append (readableMembers_unlessEmpty "inputs" (readable_textList spec.inputs))
    |>.append (readableMembers_unlessEmpty "outputs" (readable_textList spec.outputs))
    |>.append (text "weights" spec.weights)

private theorem readable_bodyValue {body : List Instruction}
    (each : ∀ child ∈ body, Readable (toValue child)) : Readable (bodyValue body) := by
  refine .list fun item member => ?_
  obtain ⟨child, isChild, rfl⟩ := List.mem_map.1 member
  exact each child isChild

/-- The members of an instruction read back when the instructions directly inside it do. -/
theorem readable_fields {instruction : Instruction} (held : instruction.FieldsHeld)
    (back : ∀ rate ∈ instruction.dropout?, Json.ReadsBack rate)
    (each : ∀ child ∈ instruction.inside, Readable (toValue child)) :
    ReadableMembers (fields instruction) := by
  have one (key : String) {value : Value} (readable : Readable value) :
      ReadableMembers [(key, value)] := by
    intro member among
    cases List.mem_singleton.1 among
    exact readable
  cases instruction with
  | program body | block body | otherwise body => exact one "body" (readable_bodyValue each)
  | layer spec => exact readable_layerMembers held back
  | connect source target => exact (one "from" (.text source)).append (one "to" (.text target))
  | moduleDef name inputs outputs body =>
    have readable := one "name" (.text name)
      |>.append (readableMembers_unlessEmpty "inputs" (readable_textList inputs))
      |>.append (readableMembers_unlessEmpty "outputs" (readable_textList outputs))
      |>.append (one "body" (readable_bodyValue each))
    exact readable
  | moduleCall name args | templateCall name args | call name args =>
    exact (one "name" (.text name)).append (one "args" (readable_textList args))
  | loop counter first last body =>
    have readable := one "var" (.text counter)
      |>.append (one "fromVal" (.text first))
      |>.append (one "toVal" (.text last))
      |>.append (one "body" (readable_bodyValue each))
    exact readable
  | branch name test body alternative =>
    have ofBody := readable_bodyValue fun child member =>
      each child (List.mem_cons_of_mem _ (List.mem_append_left alternative member))
    have ofAlternative := readable_bodyValue fun child member =>
      each child (List.mem_cons_of_mem _ (List.mem_append_right body member))
    have readable := readableMembers_given "name" .text name (fun text _ => .text text)
      |>.append (one "cond" (each test List.mem_cons_self))
      |>.append (one "body" ofBody)
      |>.append (readableMembers_unlessEmpty "else" ofAlternative)
    simpa [fields] using readable
  | condition text => exact one "expr" (.text text)
  | templateDef name parameters body =>
    have readable := one "name" (.text name)
      |>.append (one "params" (readable_textList parameters))
      |>.append (one "body" (readable_bodyValue each))
    exact readable
  | expand group annotations body =>
    have readable := readableMembers_given "group" .text group (fun text _ => .text text)
      |>.append (readableMembers_unlessEmpty "meta" (readable_textRecord annotations))
      |>.append (one "body" (readable_bodyValue each))
    exact readable
  | constant name text => exact (one "name" (.text name)).append (one "expr" (.text text))
  | file path => exact one "path" (.text path)

/-! ## Depth -/

/-- What stands directly inside an instruction is the value of a member or an item of one. -/
theorem exists_field_of_mem_inside {instruction child : Instruction}
    (member : child ∈ instruction.inside) : ∃ field ∈ fields instruction,
      field.2 = toValue child ∨ ∃ body, field.2 = bodyValue body ∧ child ∈ body := by
  cases instruction with
  | branch name test body alternative =>
    rcases List.mem_cons.1 member with rfl | member
    · refine ⟨("cond", toValue child), ?_, .inl rfl⟩
      simp [fields]
    · rcases List.mem_append.1 member with isFirst | isSecond
      · refine ⟨("body", bodyValue body), ?_, .inr ⟨body, rfl, isFirst⟩⟩
        simp [fields]
      · refine ⟨("else", bodyValue alternative), ?_, .inr ⟨alternative, rfl, isSecond⟩⟩
        obtain ⟨first, others, rfl⟩ := List.exists_cons_of_ne_nil (List.ne_nil_of_mem isSecond)
        simp [fields, unlessEmpty]
  | program body | block body | otherwise body | loop _ _ _ body | templateDef _ _ body =>
    refine ⟨("body", bodyValue body), ?_, .inr ⟨body, rfl, member⟩⟩
    simp [fields]
  | moduleDef _ _ _ body | expand _ _ body =>
    refine ⟨("body", bodyValue body), ?_, .inr ⟨body, rfl, member⟩⟩
    simp [fields]
  | _ => cases member

/-- A written instruction is one level deeper than its fields. -/
theorem depth_toValue (instruction : Instruction) :
    (toValue instruction).depth = 1 + Value.depthOfMembers (fields instruction) := by
  simp only [toValue_eq, Value.depth, Value.depthOfMembers, Nat.zero_max]

/-- What stands inside an instruction is written less deep. -/
theorem depth_lt_of_mem_inside {instruction child : Instruction}
    (member : child ∈ instruction.inside) :
    (toValue child).depth < (toValue instruction).depth := by
  obtain ⟨field, isField, holds⟩ := exists_field_of_mem_inside member
  have bounded := Json.depth_le_of_mem_members isField
  rw [depth_toValue instruction]
  rcases holds with same | ⟨body, same, isChild⟩
  · rw [same] at bounded
    omega
  · have inner := Json.depth_le_of_mem_items (List.mem_map_of_mem (f := toValue) isChild)
    rw [same, bodyValue, Value.depth] at bounded
    omega

/-- A tree that can be held and whose dropout rates read back is written as a value that does. -/
theorem readable_toValue {instruction : Instruction} (held : instruction.IsHeld)
    (back : ∀ rate ∈ instruction.dropouts, Json.ReadsBack rate) :
    Readable (toValue instruction) := by
  induction deep : (toValue instruction).depth using Nat.strongRecOn generalizing instruction with
  | ind depth ih =>
    have own : ∀ rate ∈ instruction.dropout?, Json.ReadsBack rate := fun rate declared =>
      back rate (List.mem_filterMap.2 ⟨instruction, instruction.self_mem_nodes, declared⟩)
    have each : ∀ child ∈ instruction.inside, Readable (toValue child) := by
      intro child member
      have part := Instruction.nodes_subset_of_mem_inside member
      refine ih _ (deep ▸ depth_lt_of_mem_inside member) (fun node inner => held node (part inner))
        (fun rate declared => back rate ?_) rfl
      exact List.filterMap_subset _ part declared
    have members := readable_fields (held instruction instruction.self_mem_nodes) own each
    rw [toValue_eq]
    refine .record fun member among => ?_
    rcases List.mem_cons.1 among with rfl | among
    · exact .text _
    · exact members member among

end Program

end NetBlueprint
