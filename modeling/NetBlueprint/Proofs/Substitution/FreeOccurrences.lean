import NetBlueprint.Proofs.Compiler.Materializing
import NetBlueprint.Proofs.Substitution.Filling
import NetBlueprint.Proofs.Substitution.Scanning

/-!
Contract: instructions that a substitution leaves alone.

A substitution fills in bound words and renames names, and does nothing else. The counter of a loop
and the parameters of a template hide the bindings of their names inside their bodies. So an
instruction stays as it is when every bound word of a text is hidden where the text stands, and no
name is in the rename table.

Owns: the texts of an instruction that are filled in, the names that are renamed, and what is filled
in as itself.

Does not own: how the two scans go over a text.
-/

namespace NetBlueprint

/-- The text of a field that is evaluated. -/
def IntField.text? : IntField → Option String
  | .literal _ => none
  | .expression text => some text

def LayerSpec.texts (spec : LayerSpec) : List String :=
  [spec.layerType, spec.name]
    ++ (spec.size.toList ++ spec.shape.getD [] ++ spec.dim.toList ++ spec.depth.toList
      ++ spec.heads.toList).filterMap IntField.text?
    ++ spec.activation.toList ++ spec.params.map Prod.snd ++ spec.tags ++ spec.inputs
    ++ spec.outputs ++ spec.weights.toList

namespace Substitution

variable {substitution : Substitution}

private theorem optional_of_untouched {Field : Type} {fill : Field → Except ExprError Field} :
    ∀ {field : Option Field}, (∀ value ∈ field.toList, fill value = .ok value) →
      optional fill field = .ok field
  | none, _ => rfl
  | some value, untouched => by
      rw [optional, untouched value (List.mem_singleton_self _)]
      rfl

private theorem each_of_changed {Field : Type} {fill : Field → Except ExprError Field}
    (change : Field → Field) : ∀ {fields : List Field},
      (∀ value ∈ fields, fill value = .ok (change value)) →
        each fill fields = .ok (fields.map change)
  | [], _ => rfl
  | first :: rest, changed => by
      refine Outcome.bind_eq_ok.2 ⟨change first, changed first List.mem_cons_self, ?_⟩
      exact Outcome.bind_eq_ok.2 ⟨rest.map change, each_of_changed change
        fun value member => changed value (List.mem_cons_of_mem _ member), rfl⟩

/-- A list whose items are left alone is left alone. -/
theorem each_of_untouched {Field : Type} {fill : Field → Except ExprError Field}
    {fields : List Field} (untouched : ∀ value ∈ fields, fill value = .ok value) :
    each fill fields = .ok fields := by
  rw [each_of_changed id untouched, List.map_id]

/-- A list of fields is filled in field by field. -/
theorem each_eq_ok_iff {Field : Type} {fill : Field → Except ExprError Field} :
    ∀ {fields filled : List Field}, each fill fields = .ok filled ↔
      List.Forall₂ (fun field last => fill field = .ok last) fields filled
  | [], filled => by
      rw [each, List.forall₂_nil_left_iff]
      exact ⟨fun same => (Except.ok.inj same).symm, fun same => congrArg Except.ok same.symm⟩
  | first :: rest, filled => by
      rw [each, Outcome.bind_eq_ok, List.forall₂_cons_left_iff]
      constructor
      · rintro ⟨value, fills, following⟩
        obtain ⟨others, all, last⟩ := Outcome.bind_eq_ok.1 following
        exact ⟨value, others, fills, each_eq_ok_iff.1 all, (Outcome.pure_eq_ok.1 last).symm⟩
      · rintro ⟨value, others, fills, all, rfl⟩
        exact ⟨value, fills, Outcome.bind_eq_ok.2 ⟨others, each_eq_ok_iff.2 all, rfl⟩⟩

private theorem table_of_untouched : ∀ {entries : TextTable},
    (∀ text ∈ entries.map Prod.snd, substitution.substitute text = .ok text) →
      substitution.table entries = .ok entries
  | [], _ => rfl
  | (key, text) :: rest, untouched => by
      refine Outcome.bind_eq_ok.2 ⟨text, untouched text List.mem_cons_self, ?_⟩
      exact Outcome.bind_eq_ok.2 ⟨rest, table_of_untouched
        fun other member => untouched other (List.mem_cons_of_mem _ member), rfl⟩

/-- A name in which nothing is filled in is only renamed. -/
theorem name_of_untouched {text : String} (untouched : substitution.substitute text = .ok text) :
    substitution.name text = .ok (substitution.rename text) := by
  rw [name, untouched]

/-- A declaration whose texts are left alone only has its names renamed. -/
theorem layerSpec_of_untouched {spec : LayerSpec}
    (untouched : ∀ text ∈ spec.texts, substitution.substitute text = .ok text) :
    substitution.layerSpec spec =
      .ok (spec.renamed (substitution.rename spec.name) (spec.inputs.map substitution.rename)
        (spec.outputs.map substitution.rename)) := by
  simp only [LayerSpec.texts, List.forall_mem_append, List.forall_mem_cons] at untouched
  obtain ⟨⟨⟨⟨⟨⟨⟨⟨layerType, name, _⟩, fields⟩, activation⟩, params⟩, tags⟩, inputs⟩, outputs⟩,
    weights⟩ := untouched
  have integer (field : IntField) (member : field ∈ spec.size.toList ++ spec.shape.getD [] ++
      spec.dim.toList ++ spec.depth.toList ++ spec.heads.toList) :
      substitution.intField field = .ok field := by
    cases field with
    | literal value => rfl
    | expression text =>
        rw [intField, fields text (List.mem_filterMap.2 ⟨_, member, rfl⟩)]
        rfl
  simp only [List.forall_mem_append] at integer
  obtain ⟨⟨⟨⟨size, shape⟩, dim⟩, depth⟩, heads⟩ := integer
  have shapeUntouched : optional (each substitution.intField) spec.shape = .ok spec.shape := by
    refine optional_of_untouched fun dims member => each_of_untouched ?_
    rw [Option.mem_toList] at member
    rw [member] at shape
    exact shape
  unfold layerSpec
  refine Outcome.bind_eq_ok.2 ⟨_, layerType, ?_⟩
  refine Outcome.bind_eq_ok.2 ⟨_, name_of_untouched name, ?_⟩
  refine Outcome.bind_eq_ok.2 ⟨_, optional_of_untouched size, ?_⟩
  refine Outcome.bind_eq_ok.2 ⟨_, shapeUntouched, ?_⟩
  refine Outcome.bind_eq_ok.2 ⟨_, optional_of_untouched activation, ?_⟩
  refine Outcome.bind_eq_ok.2 ⟨_, optional_of_untouched dim, ?_⟩
  refine Outcome.bind_eq_ok.2 ⟨_, optional_of_untouched depth, ?_⟩
  refine Outcome.bind_eq_ok.2 ⟨_, optional_of_untouched heads, ?_⟩
  refine Outcome.bind_eq_ok.2 ⟨_, table_of_untouched params, ?_⟩
  refine Outcome.bind_eq_ok.2 ⟨_, each_of_untouched tags, ?_⟩
  refine Outcome.bind_eq_ok.2 ⟨_, each_of_changed substitution.rename
    fun text member => name_of_untouched (inputs text member), ?_⟩
  refine Outcome.bind_eq_ok.2 ⟨_, each_of_changed substitution.rename
    fun text member => name_of_untouched (outputs text member), ?_⟩
  exact Outcome.bind_eq_ok.2 ⟨_, optional_of_untouched weights, rfl⟩

end Substitution

namespace Instruction

mutual

/-- The texts of an instruction that are filled in, each with the names that are hidden where it
stands; the names given are hidden everywhere. -/
def filledTexts (hidden : List String) : Instruction → List (List String × String)
  | .program body | .block body | .otherwise body => filledTextsAll hidden body
  | .layer spec => spec.texts.map fun text => (hidden, text)
  | .connect source target => [(hidden, source), (hidden, target)]
  | .moduleDef name inputs outputs body =>
    (name :: inputs ++ outputs).map (fun text => (hidden, text)) ++ filledTextsAll hidden body
  | .moduleCall name args | .templateCall name args | .call name args =>
    (name :: args).map fun text => (hidden, text)
  | .loop counter first last body =>
    (hidden, first) :: (hidden, last) :: filledTextsAll (hidden ++ [counter]) body
  | .branch name test body alternative =>
    name.toList.map (fun text => (hidden, text)) ++ filledTexts hidden test
      ++ filledTextsAll hidden body ++ filledTextsAll hidden alternative
  | .condition text | .constant _ text => [(hidden, text)]
  | .templateDef _ parameters body => filledTextsAll (hidden ++ parameters) body
  | .expand group annotations body =>
    (group.toList ++ annotations.map Prod.snd).map (fun text => (hidden, text))
      ++ filledTextsAll hidden body
  | .file _ => []

def filledTextsAll (hidden : List String) : List Instruction → List (List String × String)
  | [] => []
  | first :: rest => filledTexts hidden first ++ filledTextsAll hidden rest

end

mutual

/-- The names of an instruction that are renamed: those of layers, modules and branches, endpoints,
declared inputs and outputs, and arguments. -/
def renamedNames : Instruction → List String
  | .program body | .block body | .loop _ _ _ body | .templateDef _ _ body | .expand _ _ body
  | .otherwise body => renamedNamesAll body
  | .layer spec => spec.name :: spec.inputs ++ spec.outputs
  | .connect source target => [source, target]
  | .moduleDef name inputs outputs body => name :: inputs ++ outputs ++ renamedNamesAll body
  | .moduleCall _ args | .templateCall _ args | .call _ args => args
  | .branch name test body alternative =>
    name.toList ++ renamedNames test ++ renamedNamesAll body ++ renamedNamesAll alternative
  | .condition _ | .constant _ _ | .file _ => []

def renamedNamesAll : List Instruction → List String
  | [] => []
  | first :: rest => renamedNames first ++ renamedNamesAll rest

end

end Instruction

namespace Substitution

/-- Every bound word of a text is hidden where the text stands. -/
def Misses (substitution : Substitution) (entry : List String × String) : Prop :=
  ∀ word ∈ Text.words entry.2.toList, substitution.binds (String.ofList word) = true →
    String.ofList word ∈ entry.1

instance (substitution : Substitution) (entry : List String × String) :
    Decidable (substitution.Misses entry) :=
  inferInstanceAs (Decidable (∀ word ∈ Text.words entry.2.toList,
    substitution.binds (String.ofList word) = true → String.ofList word ∈ entry.1))

def KeepsName (substitution : Substitution) (name : String) : Prop :=
  name ∉ substitution.renames.map Prod.fst

instance (substitution : Substitution) (name : String) : Decidable (substitution.KeepsName name) :=
  inferInstanceAs (Decidable (name ∉ substitution.renames.map Prod.fst))

private theorem not_mem_of_binds_without {substitution : Substitution} {names : List String}
    {key : String}
    (bound : (substitution.without names).binds key = true) : key ∉ names := by
  obtain ⟨value, member⟩ := binds_iff.1 bound
  have kept := (List.mem_filter.1 member).2
  simpa using kept

/-- A text is left alone where everything bound in it is hidden. -/
theorem substitute_of_misses {substitution : Substitution} {hidden : List String} {text : String}
    (misses : substitution.Misses (hidden, text)) :
    (substitution.without hidden).substitute text = .ok text := by
  refine substitute_of_unbound fun word isWord => Bool.eq_false_iff.2 fun bound => ?_
  exact not_mem_of_binds_without bound (misses word isWord (binds_of_binds_without bound))

private theorem rename_of_keepsName {substitution : Substitution} {name : String}
    (keeps : substitution.KeepsName name) : substitution.rename name = name := by
  have absent : substitution.renames.lookup name = none := by
    rw [← Option.not_isSome_iff_eq_none, Table.isSome_lookup_iff]
    rintro ⟨renamed, member⟩
    exact keeps (List.mem_map.2 ⟨_, member, rfl⟩)
  rw [rename, absent, Option.getD_none]

/-! ## Whole trees -/

variable {substitution : Substitution} {hidden : List String}

private theorem name_of_misses {text : String} (misses : substitution.Misses (hidden, text))
    (keeps : substitution.KeepsName text) :
    (substitution.without hidden).name text = .ok text := by
  rw [name_of_untouched (substitute_of_misses misses)]
  exact congrArg Except.ok (rename_of_keepsName keeps)

private theorem names_of_misses {texts : List String}
    (misses : ∀ text ∈ texts, substitution.Misses (hidden, text))
    (keeps : ∀ text ∈ texts, substitution.KeepsName text) :
    (substitution.without hidden).names texts = .ok texts :=
  each_of_untouched fun text member => name_of_misses (misses text member) (keeps text member)

private theorem layerSpec_of_misses {spec : LayerSpec}
    (misses : ∀ text ∈ spec.texts, substitution.Misses (hidden, text))
    (keeps : ∀ text ∈ spec.name :: spec.inputs ++ spec.outputs, substitution.KeepsName text) :
    (substitution.without hidden).layerSpec spec = .ok spec := by
  simp only [List.cons_append, List.forall_mem_cons, List.forall_mem_append] at keeps
  obtain ⟨name, inputs, outputs⟩ := keeps
  have same {texts : List String} (each : ∀ text ∈ texts, substitution.KeepsName text) :
      texts.map (substitution.without hidden).rename = texts :=
    (List.map_congr_left fun text member => rename_of_keepsName (each text member)).trans
      (List.map_id texts)
  rw [layerSpec_of_untouched fun text member => substitute_of_misses (misses text member),
    same inputs, same outputs]
  exact congrArg (fun renamed => Except.ok (spec.renamed renamed spec.inputs spec.outputs))
    (rename_of_keepsName name)

mutual

private theorem apply_of_misses : ∀ {instruction : Instruction} {hidden : List String},
    (∀ entry ∈ instruction.filledTexts hidden, substitution.Misses entry) →
      (∀ name ∈ instruction.renamedNames, substitution.KeepsName name) →
        (substitution.without hidden).apply instruction = .ok instruction
  | .program body, _, misses, keeps | .block body, _, misses, keeps
  | .otherwise body, _, misses, keeps => by
      exact Outcome.bind_eq_ok.2 ⟨body, applyAll_of_misses misses keeps, rfl⟩
  | .layer spec, hidden, misses, keeps => by
      refine Outcome.bind_eq_ok.2 ⟨spec, layerSpec_of_misses ?_ keeps, rfl⟩
      exact List.forall_mem_map.1 misses
  | .connect source target, hidden, misses, keeps => by
      simp only [Instruction.filledTexts, Instruction.renamedNames, List.forall_mem_cons]
        at misses keeps
      refine Outcome.bind_eq_ok.2 ⟨source, name_of_misses misses.1 keeps.1, ?_⟩
      exact Outcome.bind_eq_ok.2 ⟨target, name_of_misses misses.2.1 keeps.2.1, rfl⟩
  | .moduleDef name inputs outputs body, hidden, misses, keeps => by
      simp only [Instruction.filledTexts, Instruction.renamedNames, List.cons_append,
        List.map_cons, List.map_append, List.forall_mem_cons, List.forall_mem_append,
        List.forall_mem_map] at misses keeps
      obtain ⟨nameMisses, ⟨inputsMiss, outputsMiss⟩, bodyMisses⟩ := misses
      obtain ⟨nameKept, ⟨inputsKept, outputsKept⟩, bodyKept⟩ := keeps
      refine Outcome.bind_eq_ok.2 ⟨name, name_of_misses nameMisses nameKept, ?_⟩
      refine Outcome.bind_eq_ok.2 ⟨inputs, names_of_misses inputsMiss inputsKept, ?_⟩
      refine Outcome.bind_eq_ok.2 ⟨outputs, names_of_misses outputsMiss outputsKept, ?_⟩
      exact Outcome.bind_eq_ok.2 ⟨body, applyAll_of_misses bodyMisses bodyKept, rfl⟩
  | .moduleCall name args, hidden, misses, keeps | .templateCall name args, hidden, misses, keeps
  | .call name args, hidden, misses, keeps => by
      simp only [Instruction.filledTexts, Instruction.renamedNames, List.forall_mem_map,
        List.forall_mem_cons] at misses keeps
      refine Outcome.bind_eq_ok.2 ⟨name, substitute_of_misses misses.1, ?_⟩
      exact Outcome.bind_eq_ok.2 ⟨args, names_of_misses misses.2 keeps, rfl⟩
  | .loop counter first last body, hidden, misses, keeps => by
      simp only [Instruction.filledTexts, Instruction.renamedNames, List.forall_mem_cons]
        at misses keeps
      obtain ⟨firstMisses, lastMisses, bodyMisses⟩ := misses
      refine Outcome.bind_eq_ok.2 ⟨first, substitute_of_misses firstMisses, ?_⟩
      refine Outcome.bind_eq_ok.2 ⟨last, substitute_of_misses lastMisses, ?_⟩
      refine Outcome.bind_eq_ok.2 ⟨body, ?_, rfl⟩
      rw [without_without]
      exact applyAll_of_misses bodyMisses keeps
  | .branch name test body alternative, hidden, misses, keeps => by
      simp only [Instruction.filledTexts, Instruction.renamedNames, List.forall_mem_append,
        List.forall_mem_map] at misses keeps
      obtain ⟨⟨⟨nameMisses, testMisses⟩, bodyMisses⟩, alternativeMisses⟩ := misses
      obtain ⟨⟨⟨nameKept, testKept⟩, bodyKept⟩, alternativeKept⟩ := keeps
      refine Outcome.bind_eq_ok.2 ⟨name, optional_of_untouched fun text member =>
        name_of_misses (nameMisses text member) (nameKept text member), ?_⟩
      refine Outcome.bind_eq_ok.2 ⟨test, apply_of_misses testMisses testKept, ?_⟩
      refine Outcome.bind_eq_ok.2 ⟨body, applyAll_of_misses bodyMisses bodyKept, ?_⟩
      exact Outcome.bind_eq_ok.2
        ⟨alternative, applyAll_of_misses alternativeMisses alternativeKept, rfl⟩
  | .condition text, hidden, misses, _ | .constant _ text, hidden, misses, _ => by
      have textMisses := misses (hidden, text) (List.mem_singleton_self _)
      exact Outcome.bind_eq_ok.2 ⟨text, substitute_of_misses textMisses, rfl⟩
  | .templateDef name parameters body, hidden, misses, keeps => by
      refine Outcome.bind_eq_ok.2 ⟨body, ?_, rfl⟩
      rw [without_without]
      exact applyAll_of_misses misses keeps
  | .expand group annotations body, hidden, misses, keeps => by
      simp only [Instruction.filledTexts, List.forall_mem_append, List.forall_mem_map] at misses
      obtain ⟨⟨groupMisses, annotationsMiss⟩, bodyMisses⟩ := misses
      refine Outcome.bind_eq_ok.2 ⟨group, optional_of_untouched fun text member =>
        substitute_of_misses (groupMisses text member), ?_⟩
      refine Outcome.bind_eq_ok.2 ⟨annotations, table_of_untouched (List.forall_mem_map.2
        fun entry member => substitute_of_misses (annotationsMiss entry member)), ?_⟩
      exact Outcome.bind_eq_ok.2 ⟨body, applyAll_of_misses bodyMisses keeps, rfl⟩
  | .file _, _, _, _ => rfl

private theorem applyAll_of_misses : ∀ {body : List Instruction} {hidden : List String},
    (∀ entry ∈ Instruction.filledTextsAll hidden body, substitution.Misses entry) →
      (∀ name ∈ Instruction.renamedNamesAll body, substitution.KeepsName name) →
        (substitution.without hidden).applyAll body = .ok body
  | [], _, _, _ => rfl
  | first :: rest, hidden, misses, keeps => by
      simp only [Instruction.filledTextsAll, Instruction.renamedNamesAll, List.forall_mem_append]
        at misses keeps
      refine Outcome.bind_eq_ok.2 ⟨first, apply_of_misses misses.1 keeps.1, ?_⟩
      exact Outcome.bind_eq_ok.2 ⟨rest, applyAll_of_misses misses.2 keeps.2, rfl⟩

end

/-- A substitution touches free occurrences only: an instruction in which every bound word is hidden
by a counter or a parameter, and none of whose names is in the rename table, is filled in as
itself. -/
theorem apply_of_no_free_occurrence {instruction : Instruction}
    (misses : ∀ entry ∈ instruction.filledTexts [], substitution.Misses entry)
    (keeps : ∀ name ∈ instruction.renamedNames, substitution.KeepsName name) :
    substitution.apply instruction = .ok instruction := by
  have applied := apply_of_misses misses keeps
  rwa [without_nil] at applied

/-- A counter and a parameter hide the bindings of their names; brackets without a partner stay. -/
theorem apply_of_shadowed_occurrences :
    let substitution : Substitution := ⟨[("i", "7"), ("p", "[q]")], [("h", "__h_m_0000")]⟩
    let instruction : Instruction := .program
      [.loop "i" "1" "n]" [.connect "h[i]" "[i"],
       .templateDef "m" ["p", "q"]
         [.layer ⟨"dense", "[p]", some (.expression "p * 2"), none, none, none, none, none, none,
           [("note", "p")], [], ["h[p]", "x]["], [], none⟩],
       .branch (some "b") (.condition "i_1 > [") [.file "i"] [.constant "p" "1"]]
    (∀ entry ∈ instruction.filledTexts [], substitution.Misses entry) ∧
      (∀ name ∈ instruction.renamedNames, substitution.KeepsName name) ∧
        substitution.apply instruction = .ok instruction := by
  intro substitution instruction
  have misses : ∀ entry ∈ instruction.filledTexts [], substitution.Misses entry := by decide
  have keeps : ∀ name ∈ instruction.renamedNames, substitution.KeepsName name := by decide
  exact ⟨misses, keeps, apply_of_no_free_occurrence misses keeps⟩

end Substitution

end NetBlueprint
