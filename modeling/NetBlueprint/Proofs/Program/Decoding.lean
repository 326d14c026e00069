import NetBlueprint.Proofs.Program.Encoding

/-!
Contract: written instructions are read back.

Owns:
- `sortedTable_of_isSorted`: sorting leaves a sorted table alone;
- one lemma for each kind of field: what is written for it, or left out, is read as the field;
- `ofFields?_fields`: an instruction is read from its members when the instructions directly
  inside it are read from their values;
- `ofValueWithin?_toValue`: a tree that can be held is read from its value, if the reader may go as
  deep as the value is.

Does not own: texts.
-/

namespace NetBlueprint

namespace Text

/-- What comes after every key is stored at the end. -/
theorem insertSorted_of_forall_lt {Value : Type} {key : String} {value : Value} :
    ∀ {table : List (String × Value)}, (∀ entry ∈ table, entry.1 < key) →
      insertSorted key value table = table ++ [(key, value)]
  | [], _ => rfl
  | entry :: rest, earlier => by
      have before := earlier entry List.mem_cons_self
      rw [insertSorted, if_neg (String.lt_asymm before), if_neg (String.ne_of_lt before).symm,
        insertSorted_of_forall_lt fun other member => earlier other (List.mem_cons_of_mem _ member)]
      rfl

end Text

/-- Sorting leaves a table alone whose keys ascend. -/
theorem TextTable.IsSorted.sortedTable_eq {table : TextTable} (sorted : table.IsSorted) :
    Text.sortedTable table = table := by
  have storing : ∀ (later earlier : TextTable), TextTable.IsSorted (earlier ++ later) →
      later.foldl (fun table entry => Text.insertSorted entry.1 entry.2 table) earlier
        = earlier ++ later := by
    intro later
    induction later with
    | nil => exact fun earlier _ => (List.append_nil earlier).symm
    | cons entry later ih =>
      intro earlier ascends
      have before : ∀ other ∈ earlier, other.1 < entry.1 := fun other member =>
        (List.pairwise_append.1 ascends).2.2 other member entry List.mem_cons_self
      rw [List.foldl_cons, Text.insertSorted_of_forall_lt before, ih (earlier ++ [entry])]
      · simp
      · simpa using ascends
  exact storing table [] sorted

namespace Program

open Json (Value)

/-! ## Looking members up -/

private theorem lookup_given {Field : Type} (key name : String) (write : Field → Value)
    (field : Option Field) :
    (given key write field).lookup name = if name == key then field.map write else none := by
  cases field with
  | none => simp [given]
  | some field => cases same : name == key <;> simp [given, List.lookup_cons, same]

private theorem lookup_unlessEmpty {Item : Type} (key name : String) (write : List Item → Value)
    (items : List Item) :
    (unlessEmpty key write items).lookup name =
      if name == key then if items = [] then none else some (write items) else none := by
  cases items with
  | nil => simp [unlessEmpty]
  | cons item items => cases same : name == key <;> simp [unlessEmpty, List.lookup_cons, same]

private theorem lookup_pair (key name : String) (value : Value) (rest : Members) :
    ((key, value) :: rest).lookup name = if name == key then some value else rest.lookup name := by
  cases same : name == key <;> simp [List.lookup_cons, same]

/-! ## Reading fields -/

private theorem mapM_map {Item : Type} {write : Item → Value} {read : Value → Option Item} :
    ∀ {items : List Item}, (∀ item ∈ items, read (write item) = some item) →
      (items.map write).mapM read = some items
  | [], _ => rfl
  | item :: rest, back => by
      rw [List.map_cons, List.mapM_cons, back item List.mem_cons_self,
        mapM_map fun other member => back other (List.mem_cons_of_mem _ member)]
      rfl

private theorem listOf?_textList (texts : List String) : listOf? text?
    (textList texts) = some texts :=
  mapM_map fun _ _ => rfl

private theorem table?_textRecord {table : TextTable} (sorted : table.IsSorted) :
    table? (textRecord table) = some table := by
  have entries : ∀ entries : TextTable,
      (entries.map fun entry => (entry.1, Value.text entry.2)).mapM
        (fun (member : String × Value) => (text? member.2).map fun content => (member.1, content))
        = some entries := by
    intro entries
    induction entries with
    | nil => rfl
    | cons entry rest ih =>
      rw [List.map_cons, List.mapM_cons, ih]
      rfl
  rw [textRecord, table?, entries, Option.map_some, sorted.sortedTable_eq]

private theorem intField?_intValue {field : IntField} (held : field.IsHeld) :
    intField? (intValue field) = some field := by
  cases field with
  | literal value =>
    rw [intValue, intField?, Text.signed?_eq_some_iff.2 ⟨held.1, held.2, rfl⟩]
    rfl
  | expression text => rfl

/-- A field that is written, or left out without a value, is read back. -/
theorem optional_map {Field : Type} {write : Field → Value} {read : Value → Option Field}
    {field : Option Field} (present : ∀ given, write given ≠ .null)
    (back : ∀ given ∈ field, read (write given) = some given) :
    optional read (field.map write) = some field := by
  cases field with
  | none => rfl
  | some field =>
    rw [Option.map_some, optional.eq_def]
    split
    · rename_i none
      cases none
    · rename_i same
      exact absurd (Option.some.inj same) (present field)
    · rename_i same
      cases same
      rw [back field rfl]
      rfl

/-- A list that is written, or left out when it is empty, is read back. -/
theorem defaulted_unlessEmpty {Item : Type} {write : List Item → Value}
    {read : Value → Option (List Item)} {items : List Item}
    (back : read (write items) = some items) :
    defaulted read [] (if items = [] then none else some (write items)) = some items := by
  cases items with
  | nil => rfl
  | cons item items => exact back

private theorem defaulted_some {Field : Type} (read : Value → Option Field) (default : Field)
    (value : Value) : defaulted read default (some value) = read value :=
  rfl

private theorem intValue_ne_null (field : IntField) : intValue field ≠ .null := by
  cases field <;> exact nofun

private theorem optional_intValue {field : Option IntField} (held : ∀ given ∈ field, given.IsHeld) :
    optional intField? (field.map intValue) = some field :=
  optional_map intValue_ne_null fun given declared => intField?_intValue (held given declared)

private theorem optional_text (field : Option String) : optional text?
    (field.map .text) = some field :=
  optional_map (fun _ => nofun) fun _ _ => rfl

private theorem optional_shape {shape : Option (List IntField)}
    (held : ∀ dims ∈ shape, ∀ field ∈ dims, field.IsHeld) :
    optional (listOf? intField?) (shape.map fun dims => .list (dims.map intValue)) = some shape :=
  optional_map (fun _ => nofun) fun dims declared =>
    mapM_map fun field member => intField?_intValue (held dims declared field member)

private theorem optional_rate (rate : Option Float) : optional rate?
    (rate.map .decimal) = some rate :=
  optional_map (fun _ => nofun) fun _ _ => rfl

/-- The fields of a layer declaration are read back from its members. -/
theorem layerSpec?_layerMembers {spec : LayerSpec} (held : spec.IsHeld) :
    layerSpec? (fun name => (layerMembers spec).lookup name) = some spec := by
  have texts (texts : List String) := defaulted_unlessEmpty (listOf?_textList texts)
  have params := defaulted_unlessEmpty (table?_textRecord held.params)
  simp [layerSpec?, layerMembers, List.lookup_append, lookup_given, lookup_unlessEmpty, lookup_pair,
    required, text?, optional_intValue held.size, optional_intValue held.dim,
    optional_intValue held.depth, optional_intValue held.heads, optional_shape held.shape,
    optional_text, optional_rate, texts, params]

/-- A body is read back when its instructions are. -/
theorem listOf?_bodyValue {child? : Value → Option Instruction} {body : List Instruction}
    (each : ∀ child ∈ body, child? (toValue child) = some child) :
    listOf? child? (bodyValue body) = some body :=
  mapM_map each

/-- Members whose keys are names of fields can be looked up. -/
theorem slots?_named {names : List String} {members : Members} (keyed : Keyed members names)
    (once : names.Nodup) :
    (Fields.named members).slots? names = some fun name => members.lookup name := by
  rw [Fields.slots?, if_pos]
  refine List.all_eq_true.2 fun name _ => decide_eq_true ?_
  have counted := List.nodup_iff_count.1 (once.sublist keyed) name
  rw [List.count, List.countP_map, List.countP_eq_length_filter] at counted
  exact counted

/-- An instruction is read from its members when the instructions directly inside it are read. -/
theorem ofFields?_fields {child? : Value → Option Instruction} {instruction : Instruction}
    (held : instruction.FieldsHeld)
    (each : ∀ child ∈ instruction.inside, child? (toValue child) = some child) :
    ofFields? child? instruction.opcode (.named (fields instruction)) = some instruction := by
  have texts (texts : List String) := defaulted_unlessEmpty (listOf?_textList texts)
  rw [ofFields?, slots?_named (keyed_fields instruction) (nodup_fieldNames _)]
  cases instruction with
  | layer spec =>
    simp [fields, Instruction.opcode, layerSpec?_layerMembers held]
  | branch name test body alternative =>
    have isTest := each test List.mem_cons_self
    have isBody := listOf?_bodyValue fun child member =>
      each child (List.mem_cons_of_mem _ (List.mem_append_left alternative member))
    have isAlternative := defaulted_unlessEmpty (listOf?_bodyValue fun child member =>
      each child (List.mem_cons_of_mem _ (List.mem_append_right body member)))
    simp [fields, Instruction.opcode, List.lookup_append, lookup_given, lookup_unlessEmpty,
      lookup_pair, required, defaulted_some, optional_text, isTest, isBody, isAlternative]
  | expand group annotations body =>
    have isBody : listOf? child? (bodyValue body) = some body := listOf?_bodyValue each
    have isTable := defaulted_unlessEmpty (table?_textRecord held)
    simp [fields, Instruction.opcode, List.lookup_append, lookup_given, lookup_unlessEmpty,
      lookup_pair, defaulted_some, optional_text, isBody, isTable]
  | program body | block body | otherwise body | moduleDef _ _ _ body | loop _ _ _ body
  | templateDef _ _ body =>
    have isBody : listOf? child? (bodyValue body) = some body := listOf?_bodyValue each
    simp [fields, Instruction.opcode, List.lookup_append, lookup_unlessEmpty, lookup_pair, required,
      defaulted_some, text?, texts, listOf?_textList, isBody]
  | connect _ _ | moduleCall _ _ | templateCall _ _ | call _ _ | condition _ | constant _ _
  | file _ =>
    simp [fields, Instruction.opcode, lookup_pair, required, defaulted_some, text?,
      listOf?_textList]

/-- A written instruction is taken apart into its operation and its members. -/
theorem tagged?_toValue (instruction : Instruction) :
    tagged? (toValue instruction) = some (instruction.opcode, .named (fields instruction)) := by
  have unlabelled : ∀ member ∈ fields instruction, (member.1 == tagKey) = false :=
    fun member among => by simpa using ne_tagKey_of_mem_fields among
  have noLabel : (fields instruction).filter (fun entry => entry.1 == tagKey) = [] :=
    List.filter_eq_nil_iff.2 fun member among => by simp [unlabelled member among]
  have others : (fields instruction).filter (fun entry => entry.1 != tagKey) = fields instruction :=
    List.filter_eq_self.2 fun member among => by simp [bne, unlabelled member among]
  rw [toValue_eq, tagged?, List.filter_cons_of_pos (by rfl), noLabel]
  simp only [opcode?, Opcode.ofLabel?_label, Option.map_some]
  rw [List.filter_cons_of_neg (by simp [tagKey]), others]

/-- A tree that can be held is read from its value. -/
theorem ofValueWithin?_toValue : ∀ {depth : Nat} {instruction : Instruction},
    instruction.IsHeld → (toValue instruction).depth ≤ depth →
      ofValueWithin? depth (toValue instruction) = some instruction
  | 0, instruction, _, shallow => by
      rw [depth_toValue] at shallow
      omega
  | depth + 1, instruction, held, shallow => by
      have each : ∀ child ∈ instruction.inside,
          ofValueWithin? depth (toValue child) = some child := by
        intro child member
        have part := Instruction.nodes_subset_of_mem_inside member
        have lower := depth_lt_of_mem_inside member
        exact ofValueWithin?_toValue (fun node inner => held node (part inner)) (by omega)
      rw [ofValueWithin?, tagged?_toValue]
      exact ofFields?_fields (held instruction instruction.self_mem_nodes) each

end Program

end NetBlueprint
