import Mathlib.Data.List.Forall2
import NetBlueprint.Proofs.Outcome
import NetBlueprint.Proofs.Table
import NetBlueprint.Substitution.Hygiene

/-!
Contract: what filling bindings into instructions does to the names they define.

Filling in keeps the shape of a tree: every child is filled in by the same bindings, less those that
a loop around it shadows, and every defined name is filled in and renamed. A rename table puts one
suffix on each name it holds, and it holds every name that a body defines unless the definition is
exempt.

Owns: bound names, rename tables, and the definitions of an instruction under substitution.

Does not own: which instructions are compiled, and in what order.
-/

namespace NetBlueprint

namespace Substitution

/-! ## Bound names -/

/-- A name is bound exactly if the bindings list it. -/
theorem binds_iff {substitution : Substitution} {name : String} :
    substitution.binds name = true ↔ ∃ value, (name, value) ∈ substitution.bindings :=
  Table.isSome_lookup_iff

/-- A name that is bound was bound before, or is the one that was bound last. -/
theorem eq_or_binds_of_binds_bind {substitution : Substitution} {name value key : String}
    (bound : (substitution.bind name value).binds key = true) :
    key = name ∨ substitution.binds key = true := by
  obtain ⟨text, member⟩ := binds_iff.1 bound
  unfold bind at member
  dsimp only at member
  split at member
  · obtain ⟨⟨other, old⟩, otherMember, same⟩ := List.mem_map.1 member
    split at same
    · exact .inl (Prod.mk.inj same).1.symm
    · cases same
      exact .inr (binds_iff.2 ⟨text, otherMember⟩)
  · rcases List.mem_append.1 member with old | new
    · exact .inr (binds_iff.2 ⟨text, old⟩)
    · exact .inl (Prod.mk.inj (List.mem_singleton.1 new)).1

/-- What a sequence of bindings binds is among them or was bound before. -/
theorem binds_foldl {key : String} :
    ∀ {pairs : List (String × String)} {substitution : Substitution},
      (pairs.foldl (fun substitution pair => substitution.bind pair.1 pair.2) substitution).binds
        key = true → (∃ value, (key, value) ∈ pairs) ∨ substitution.binds key = true
  | [], _, bound => .inr bound
  | (name, value) :: rest, substitution, bound => by
      rw [List.foldl_cons] at bound
      rcases binds_foldl bound with ⟨other, later⟩ | bound
      · exact .inl ⟨other, List.mem_cons_of_mem _ later⟩
      · rcases eq_or_binds_of_binds_bind bound with rfl | earlier
        · exact .inl ⟨value, List.mem_cons_self⟩
        · exact .inr earlier

theorem binds_of_binds_without {substitution : Substitution} {names : List String} {key : String}
    (bound : (substitution.without names).binds key = true) : substitution.binds key = true := by
  obtain ⟨value, member⟩ := binds_iff.1 bound
  exact binds_iff.2 ⟨value, (List.mem_filter.1 member).1⟩

theorem binds_withRenames (substitution : Substitution) (renames : List (String × String))
    (name : String) : (substitution.withRenames renames).binds name = substitution.binds name := rfl

/-- Taking bindings away twice takes them away at once. -/
theorem without_without (substitution : Substitution) (first second : List String) :
    (substitution.without first).without second = substitution.without (first ++ second) := by
  unfold without
  rw [List.filter_filter]
  congr 1
  refine List.filter_congr fun entry _ => ?_
  rw [List.contains_eq_any_beq, List.contains_eq_any_beq, List.contains_eq_any_beq, List.any_append,
    Bool.not_or, Bool.and_comm]

/-- Names that are not bound shadow nothing. -/
theorem without_eq_self {substitution : Substitution} {names : List String}
    (unbound : ∀ name ∈ names, substitution.binds name = false) :
    substitution.without names = substitution := by
  unfold without
  rw [List.filter_eq_self.2]
  intro entry member
  rw [Bool.not_eq_true', Bool.eq_false_iff]
  intro shadowed
  have bound := binds_iff.2 ⟨entry.2, member⟩
  rw [unbound entry.1 (List.contains_iff_mem.1 shadowed)] at bound
  cases bound

theorem without_nil (substitution : Substitution) : substitution.without [] = substitution :=
  without_eq_self fun _ member => absurd member List.not_mem_nil

/-! ## Rename tables -/

/-- A text that contains another has it somewhere. -/
theorem eq_append_of_containsText {part : List Char} : ∀ {text : List Char},
    containsText part text = true → ∃ front rest, text = front ++ (part ++ rest)
  | [], contains => ⟨[], [], by
      rw [containsText, List.isEmpty_iff] at contains
      rw [contains]
      rfl⟩
  | character :: text, contains => by
      rw [containsText, Bool.or_eq_true] at contains
      rcases contains with starts | later
      · obtain ⟨rest, same⟩ := List.isPrefixOf_iff_prefix.1 starts
        exact ⟨[], rest, same.symm⟩
      · obtain ⟨front, rest, rfl⟩ := eq_append_of_containsText later
        exact ⟨character :: front, rest, rfl⟩

/-- Every entry of a table puts the same suffix on its name. -/
def Suffixes (suffix : String) (renames : List (String × String)) : Prop :=
  ∀ name renamed, (name, renamed) ∈ renames → renamed = name ++ suffix

private theorem suffixes_addRename {suffix name : String} {renames : List (String × String)}
    (suffixes : Suffixes suffix renames) : Suffixes suffix (addRename suffix name renames) := by
  unfold addRename
  split
  · exact suffixes
  · intro other renamed member
    rcases List.mem_append.1 member with old | new
    · exact suffixes other renamed old
    · obtain ⟨rfl, rfl⟩ := Prod.mk.inj (List.mem_singleton.1 new)
      rfl

private theorem suffixes_of_renamesOf {substitution : Substitution} {suffix : String} :
    ∀ {definitions : List Definition} {renames table : List (String × String)},
      renamesOf substitution suffix renames definitions = .ok table → Suffixes suffix renames →
        Suffixes suffix table
  | [], _, _, built, suffixes => by
      cases built
      exact suffixes
  | _ :: _, _, _, built, suffixes => by
      rw [renamesOf] at built
      split at built
      · cases built
      · exact suffixes_of_renamesOf built (suffixes_addRename suffixes)

/-- The table of a call puts its suffix on every name that it holds. -/
theorem suffixes_of_hygienicRenames {body : List Instruction} {substitution : Substitution}
    {parameters : List String} {suffix : String} {exemptOutputs : Bool}
    {table : List (String × String)}
    (built : hygienicRenames body substitution parameters suffix exemptOutputs = .ok table) :
    Suffixes suffix table :=
  suffixes_of_renamesOf built fun _ _ member => absurd member List.not_mem_nil

private theorem subset_addRename (suffix name : String) (renames : List (String × String)) :
    renames ⊆ addRename suffix name renames := by
  unfold addRename
  split
  · exact List.Subset.refl _
  · exact List.subset_append_left _ _

private theorem mem_addRename (suffix name : String) (renames : List (String × String)) :
    ∃ renamed, (name, renamed) ∈ addRename suffix name renames := by
  unfold addRename
  split
  · rename_i taken
    obtain ⟨⟨key, renamed⟩, member, same⟩ := List.any_eq_true.1 taken
    cases eq_of_beq same
    exact ⟨renamed, member⟩
  · exact ⟨_, List.mem_append_right _ (List.mem_singleton_self _)⟩

private theorem subset_of_renamesOf {substitution : Substitution} {suffix : String} :
    ∀ {definitions : List Definition} {renames table : List (String × String)},
      renamesOf substitution suffix renames definitions = .ok table → renames ⊆ table
  | [], _, _, built => by
      cases built
      exact List.Subset.refl _
  | _ :: _, renames, _, built => by
      rw [renamesOf] at built
      split at built
      · cases built
      · exact List.Subset.trans (subset_addRename suffix _ renames) (subset_of_renamesOf built)

private theorem mem_of_renamesOf {substitution : Substitution} {suffix : String}
    {definition : Definition} :
    ∀ {definitions : List Definition} {renames table : List (String × String)},
      renamesOf substitution suffix renames definitions = .ok table → definition ∈ definitions →
        ∃ name renamed, substitution.substitute definition.template = .ok name ∧
          (name, renamed) ∈ table
  | [], _, _, _, member => by cases member
  | first :: rest, renames, _, built, member => by
      rw [renamesOf] at built
      split at built
      · cases built
      · rename_i name filled
        rcases List.mem_cons.1 member with rfl | later
        · obtain ⟨renamed, added⟩ := mem_addRename suffix name renames
          exact ⟨name, renamed, filled, subset_of_renamesOf built added⟩
        · exact mem_of_renamesOf built later

private theorem definition_of_addRename {suffix name key renamed : String}
    {renames : List (String × String)} (member : (key, renamed) ∈ addRename suffix name renames) :
    (key, renamed) ∈ renames ∨ key = name := by
  unfold addRename at member
  split at member
  · exact .inl member
  · rcases List.mem_append.1 member with old | new
    · exact .inl old
    · exact .inr (Prod.mk.inj (List.mem_singleton.1 new)).1

private theorem definition_of_renamesOf {substitution : Substitution}
    {suffix key renamed : String} :
    ∀ {definitions : List Definition} {renames table : List (String × String)},
      renamesOf substitution suffix renames definitions = .ok table → (key, renamed) ∈ table →
        (key, renamed) ∈ renames ∨
          ∃ definition ∈ definitions, substitution.substitute definition.template = .ok key
  | [], _, _, built, member => by
      cases built
      exact .inl member
  | first :: rest, _, _, built, member => by
      rw [renamesOf] at built
      split at built
      · cases built
      · rename_i name filled
        rcases definition_of_renamesOf built member with added | ⟨definition, later, same⟩
        · rcases definition_of_addRename added with old | rfl
          · exact .inl old
          · exact .inr ⟨first, List.mem_cons_self, filled⟩
        · exact .inr ⟨definition, List.mem_cons_of_mem _ later, same⟩

/-- The table of a body holds exactly what its definitions are filled in as, exempt ones apart. -/
theorem isSome_lookup_hygienicRenames {body : List Instruction} {substitution : Substitution}
    {parameters : List String} {suffix : String} {exemptOutputs : Bool}
    {table : List (String × String)}
    (built : hygienicRenames body substitution parameters suffix exemptOutputs = .ok table)
    (name : String) :
    (table.lookup name).isSome = true ↔
      ∃ definition ∈ Instruction.definitionsOf body,
        definition.isExempt parameters exemptOutputs = false ∧
          substitution.substitute definition.template = .ok name := by
  rw [Table.isSome_lookup_iff]
  constructor
  · rintro ⟨renamed, member⟩
    rcases definition_of_renamesOf built member with old | ⟨definition, kept, filled⟩
    · cases old
    · obtain ⟨listed, hygienic⟩ := List.mem_filter.1 kept
      exact ⟨definition, listed, by simpa using hygienic, filled⟩
  · rintro ⟨definition, listed, hygienic, filled⟩
    obtain ⟨key, renamed, same, held⟩ :=
      mem_of_renamesOf built (List.mem_filter.2 ⟨listed, by rw [hygienic]; rfl⟩)
    cases same.symm.trans filled
    exact ⟨renamed, held⟩

private theorem fillSegments_withRenames (substitution : Substitution)
    (renames : List (String × String)) :
    ∀ parts, (substitution.withRenames renames).fillSegments parts = substitution.fillSegments parts
  | [] => rfl
  | .plain characters :: rest => by
      rw [fillSegments, fillSegments, fillSegments_withRenames substitution renames rest]
  | .group inner :: rest => by
      have same : (substitution.withRenames renames).fillGroup inner =
          substitution.fillGroup inner := rfl
      rw [fillSegments, fillSegments, same, fillSegments_withRenames substitution renames rest]

/-- Texts are filled in without regard to the table. -/
theorem substitute_withRenames (substitution : Substitution) (renames : List (String × String))
    (text : String) :
    (substitution.withRenames renames).substitute text = substitution.substitute text := by
  unfold substitute
  rw [fillSegments_withRenames]
  rfl

/-- A name that the table holds gets the suffix. -/
theorem rename_of_mem {substitution : Substitution} {suffix name renamed : String}
    (suffixes : Suffixes suffix substitution.renames)
    (member : (name, renamed) ∈ substitution.renames) :
    substitution.rename name = name ++ suffix := by
  obtain ⟨found, isFound⟩ :=
    Option.isSome_iff_exists.1 (Table.isSome_lookup_iff.2 ⟨renamed, member⟩)
  rw [rename, isFound, Option.getD_some]
  exact suffixes name found (Table.mem_of_lookup isFound)

/-- A name stays or gets the suffix. -/
theorem rename_of_suffixes {substitution : Substitution} {suffix : String}
    (suffixes : Suffixes suffix substitution.renames) (name : String) :
    substitution.rename name = name ∨ substitution.rename name = name ++ suffix := by
  cases found : substitution.renames.lookup name with
  | none => exact .inl (by rw [rename, found, Option.getD_none])
  | some renamed => exact .inr (rename_of_mem suffixes (Table.mem_of_lookup found))

/-- A name that a body defines gets the suffix of the body, unless the definition is exempt. -/
theorem name_of_definition {body : List Instruction} {substitution : Substitution}
    {parameters : List String} {suffix : String} {exemptOutputs : Bool}
    {table : List (String × String)}
    (built : hygienicRenames body substitution parameters suffix exemptOutputs = .ok table)
    {definition : Definition} (member : definition ∈ Instruction.definitionsOf body)
    (hygienic : definition.isExempt parameters exemptOutputs = false) {name : String}
    (named : (substitution.withRenames table).name definition.template = .ok name) :
    ∃ plain, name = plain ++ suffix := by
  obtain ⟨plain, renamed, filled, held⟩ :=
    mem_of_renamesOf built (List.mem_filter.2 ⟨member, by rw [hygienic]; rfl⟩)
  rw [Substitution.name, substitute_withRenames, filled] at named
  cases named
  have suffixes : Suffixes suffix (substitution.withRenames table).renames :=
    suffixes_of_hygienicRenames built
  exact ⟨plain, rename_of_mem suffixes held⟩

/-! ## Trees -/

inductive Filled {Text : Type} (fill : Substitution → Text → Except ExprError Text) :
    List Substitution → Text → Text → Prop where
  | done (text : Text) : Filled fill [] text text
  | next {first : Substitution} {rest : List Substitution} {text between last : Text}
      (filled : fill first text = .ok between) (following : Filled fill rest between last) :
      Filled fill (first :: rest) text last

/-- Substitutions that are filled in can be followed by further ones. -/
theorem Filled.append {Text : Type} {fill : Substitution → Text → Except ExprError Text}
    {first second : List Substitution} {text between last : Text}
    (earlier : Filled fill first text between) (later : Filled fill second between last) :
    Filled fill (first ++ second) text last := by
  induction earlier with
  | done => exact later
  | next filled _ inductionHypothesis => exact .next filled (inductionHypothesis later)

/-- A list is filled in piece by piece. -/
theorem forall₂_of_applyAll {substitution : Substitution} :
    ∀ {body filled : List Instruction}, substitution.applyAll body = .ok filled →
      List.Forall₂ (fun template instruction => substitution.apply template = .ok instruction)
        body filled
  | [], _, applied => by
      cases applied
      exact .nil
  | first :: rest, _, applied => by
      rw [applyAll] at applied
      obtain ⟨instruction, one, following⟩ := Outcome.bind_eq_ok.1 applied
      obtain ⟨others, all, last⟩ := Outcome.bind_eq_ok.1 following
      cases Outcome.pure_eq_ok.1 last
      exact .cons one (forall₂_of_applyAll all)

end Substitution

namespace Instruction

/-- The layer, module or branch that an instruction defines by name. -/
def definition? : Instruction → Option Definition
  | .layer spec => some ⟨spec.name, spec.isInput, spec.isOutput⟩
  | .moduleDef name _ _ _ => some ⟨name, false, false⟩
  | .branch (some name) _ _ _ => some ⟨name, false, false⟩
  | _ => none

/-- What an instruction defines is among its definitions. -/
theorem mem_definitions {instruction : Instruction} {definition : Definition}
    (defines : instruction.definition? = some definition) :
    definition ∈ definitions instruction := by
  unfold definition? at defines
  split at defines
  · cases defines
    exact List.mem_singleton_self _
  · cases defines
    exact List.mem_cons_self
  · cases defines
    exact List.mem_append_left _ (List.mem_singleton_self _)
  · cases defines

/-- What an instruction of a body defines is defined by the body. -/
theorem definitions_subset {instruction : Instruction} {body : List Instruction}
    (member : instruction ∈ body) : definitions instruction ⊆ definitionsOf body := by
  induction body with
  | nil => cases member
  | cons first rest inductionHypothesis =>
      rw [definitionsOf]
      rcases List.mem_cons.1 member with rfl | later
      · exact List.subset_append_left _ _
      · exact List.subset_append_of_subset_right _ (inductionHypothesis later)

end Instruction

namespace Substitution

theorem layerType_of_layerSpec {substitution : Substitution} {spec filled : LayerSpec}
    (applied : substitution.layerSpec spec = .ok filled) :
    substitution.substitute spec.layerType = .ok filled.layerType := by
  unfold layerSpec at applied
  obtain ⟨_, fills, rest⟩ := Outcome.bind_eq_ok.1 applied
  iterate 12 obtain ⟨_, _, rest⟩ := Outcome.bind_eq_ok.1 rest
  cases Outcome.pure_eq_ok.1 rest
  exact fills

theorem name_of_layerSpec {substitution : Substitution} {spec filled : LayerSpec}
    (applied : substitution.layerSpec spec = .ok filled) :
    substitution.name spec.name = .ok filled.name := by
  unfold layerSpec at applied
  obtain ⟨_, _, rest⟩ := Outcome.bind_eq_ok.1 applied
  obtain ⟨name, named, rest⟩ := Outcome.bind_eq_ok.1 rest
  iterate 11 obtain ⟨_, _, rest⟩ := Outcome.bind_eq_ok.1 rest
  cases Outcome.pure_eq_ok.1 rest
  exact named

theorem references_of_layerSpec {substitution : Substitution} {spec filled : LayerSpec}
    (fills : substitution.layerSpec spec = .ok filled) :
    substitution.names spec.inputs = .ok filled.inputs ∧
      substitution.names spec.outputs = .ok filled.outputs := by
  unfold Substitution.layerSpec at fills
  obtain ⟨_, _, rest⟩ := Outcome.bind_eq_ok.1 fills
  iterate 9 obtain ⟨_, _, rest⟩ := Outcome.bind_eq_ok.1 rest
  obtain ⟨_, fillsInputs, rest⟩ := Outcome.bind_eq_ok.1 rest
  obtain ⟨_, fillsOutputs, rest⟩ := Outcome.bind_eq_ok.1 rest
  obtain ⟨_, _, last⟩ := Outcome.bind_eq_ok.1 rest
  cases Outcome.pure_eq_ok.1 last
  exact ⟨fillsInputs, fillsOutputs⟩

/-- Filling in keeps what an instruction defines, under the filled in name. -/
theorem definition?_of_apply {substitution : Substitution} {template instruction : Instruction}
    {definition : Definition} (applied : substitution.apply template = .ok instruction)
    (defines : template.definition? = some definition) :
    ∃ filled, instruction.definition? = some filled ∧
      substitution.name definition.template = .ok filled.template := by
  unfold Instruction.definition? at defines
  split at defines
  · cases defines
    obtain ⟨filled, specFilled, last⟩ := Outcome.bind_eq_ok.1 applied
    cases Outcome.pure_eq_ok.1 last
    exact ⟨_, rfl, name_of_layerSpec specFilled⟩
  · cases defines
    obtain ⟨name, named, rest⟩ := Outcome.bind_eq_ok.1 applied
    iterate 3 obtain ⟨_, _, rest⟩ := Outcome.bind_eq_ok.1 rest
    cases Outcome.pure_eq_ok.1 rest
    exact ⟨_, rfl, named⟩
  · cases defines
    obtain ⟨_, optional, rest⟩ := Outcome.bind_eq_ok.1 applied
    iterate 3 obtain ⟨_, _, rest⟩ := Outcome.bind_eq_ok.1 rest
    cases Outcome.pure_eq_ok.1 rest
    obtain ⟨name, named, rfl⟩ := Outcome.map_eq_ok.1 optional
    exact ⟨_, rfl, named⟩
  · cases defines

/-- Filling in fills in the name that an instruction defines. -/
theorem Filled.definition? {substitutions : List Substitution} {template instruction : Instruction}
    (filled : Filled apply substitutions template instruction) :
    ∀ {definition : Definition}, template.definition? = some definition →
      ∃ last, instruction.definition? = some last ∧
        Filled name substitutions definition.template last.template := by
  induction filled with
  | done => exact fun defines => ⟨_, defines, .done _⟩
  | next applied _ inductionHypothesis =>
      intro definition defines
      obtain ⟨between, betweenDefines, named⟩ := definition?_of_apply applied defines
      obtain ⟨last, lastDefines, following⟩ := inductionHypothesis betweenDefines
      exact ⟨last, lastDefines, .next named following⟩

/-- Filling in keeps the operation. -/
theorem opcode_of_apply {substitution : Substitution} {template instruction : Instruction}
    (applied : substitution.apply template = .ok instruction) :
    instruction.opcode = template.opcode := by
  have after {First : Type} {outcome : Except ExprError First}
      {next : First → Except ExprError Instruction}
      (each : ∀ value instruction, next value = .ok instruction →
        instruction.opcode = template.opcode) :
      ∀ instruction, outcome >>= next = .ok instruction →
        instruction.opcode = template.opcode := by
    intro instruction same
    obtain ⟨value, _, last⟩ := Outcome.bind_eq_ok.1 same
    exact each value instruction last
  have last {result : Instruction} (same : result.opcode = template.opcode) :
      ∀ instruction, (pure result : Except ExprError Instruction) = .ok instruction →
        instruction.opcode = template.opcode := by
    intro instruction outcome
    rwa [← Outcome.pure_eq_ok.1 outcome]
  cases template with
  | program _ | block _ | layer _ | condition _ | templateDef _ _ _ | constant _ _ | otherwise _ =>
      exact after (fun _ => last (by rfl)) _ applied
  | connect _ _ | moduleCall _ _ | templateCall _ _ | call _ _ =>
      exact after (fun _ => after fun _ => last (by rfl)) _ applied
  | loop _ _ _ _ | expand _ _ _ =>
      exact after (fun _ => after fun _ => after fun _ => last (by rfl)) _ applied
  | moduleDef _ _ _ _ | branch _ _ _ _ =>
      exact after (fun _ => after fun _ => after fun _ => after fun _ => last (by rfl)) _ applied
  | file _ => exact last (by rfl) _ applied

/-- Filling in lets nothing define a name that did not. -/
theorem exists_definition?_of_apply {substitution : Substitution}
    {template instruction : Instruction} {definition : Definition}
    (applied : substitution.apply template = .ok instruction)
    (defines : instruction.definition? = some definition) :
    ∃ other, template.definition? = some other := by
  have sameOpcode := opcode_of_apply applied
  cases template with
  | layer _ | moduleDef _ _ _ _ => exact ⟨_, rfl⟩
  | branch name _ _ _ =>
      cases name with
      | some _ => exact ⟨_, rfl⟩
      | none =>
          obtain ⟨_, optional, rest⟩ := Outcome.bind_eq_ok.1 applied
          iterate 3 obtain ⟨_, _, rest⟩ := Outcome.bind_eq_ok.1 rest
          cases Outcome.pure_eq_ok.1 rest
          cases optional
          cases defines
  | _ =>
      cases instruction with
      | layer _ | moduleDef _ _ _ _ | branch _ _ _ _ => cases sameOpcode
      | _ => cases defines

/-- What an instruction defines after filling in, it defined before. -/
theorem Filled.exists_definition? {substitutions : List Substitution}
    {template instruction : Instruction} {definition : Definition}
    (filled : Filled apply substitutions template instruction)
    (defines : instruction.definition? = some definition) :
    ∃ other, template.definition? = some other := by
  induction filled generalizing definition with
  | done => exact ⟨definition, defines⟩
  | next applied _ inductionHypothesis =>
      obtain ⟨_, betweenDefines⟩ := inductionHypothesis defines
      exact exists_definition?_of_apply applied betweenDefines

end Substitution

end NetBlueprint
