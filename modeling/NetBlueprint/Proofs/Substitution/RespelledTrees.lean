import NetBlueprint.Proofs.Substitution.RespelledFilling
import NetBlueprint.Substitution.Tree

/-!
Contract: instructions of two runs that differ in the marks of suffixes only.

Both runs compile the same program, so what they come to is the same tree with texts respelled.
Names of templates, counters and parameters are never filled in and stay the same. Instructions that
correspond are filled in alike, are equal to others in both runs or in neither, and define names
that correspond.

Owns: trees that correspond, and the strings of a program from which they start.

Does not own: what the texts of an instruction are read as.
-/

namespace NetBlueprint

/-- A text of one run and the text that another run has in its place. -/
abbrev RespelledText (pairs : List (String × String)) (one other : String) : Prop :=
  Respelled pairs one.toList other.toList

inductive IntField.Corresponds (pairs : List (String × String)) : IntField → IntField → Prop where
  | literal (value : Int) : Corresponds pairs (.literal value) (.literal value)
  | expression {one other : String} (text : RespelledText pairs one other) :
      Corresponds pairs (.expression one) (.expression other)

structure EntryCorresponds (pairs : List (String × String)) (one other : String × String) :
    Prop where
  key : one.1 = other.1
  text : RespelledText pairs one.2 other.2

structure LayerSpec.Corresponds (pairs : List (String × String)) (one other : LayerSpec) :
    Prop where
  layerType : RespelledText pairs one.layerType other.layerType
  name : RespelledName pairs one.name other.name
  size : Option.Rel (IntField.Corresponds pairs) one.size other.size
  shape : Option.Rel (List.Forall₂ (IntField.Corresponds pairs)) one.shape other.shape
  activation : Option.Rel (RespelledText pairs) one.activation other.activation
  dim : Option.Rel (IntField.Corresponds pairs) one.dim other.dim
  depth : Option.Rel (IntField.Corresponds pairs) one.depth other.depth
  heads : Option.Rel (IntField.Corresponds pairs) one.heads other.heads
  dropout : one.dropout = other.dropout
  params : List.Forall₂ (EntryCorresponds pairs) one.params other.params
  tags : List.Forall₂ (RespelledText pairs) one.tags other.tags
  inputs : List.Forall₂ (RespelledText pairs) one.inputs other.inputs
  outputs : List.Forall₂ (RespelledText pairs) one.outputs other.outputs
  weights : Option.Rel (RespelledText pairs) one.weights other.weights

namespace Instruction

mutual

/-- An instruction of one run and that of another in its place. -/
inductive Corresponds (pairs : List (String × String)) : Instruction → Instruction → Prop where
  | program {one other : List Instruction} (body : AllCorrespond pairs one other) :
      Corresponds pairs (.program one) (.program other)
  | block {one other : List Instruction} (body : AllCorrespond pairs one other) :
      Corresponds pairs (.block one) (.block other)
  | layer {one other : LayerSpec} (spec : LayerSpec.Corresponds pairs one other) :
      Corresponds pairs (.layer one) (.layer other)
  | connect {source target otherSource otherTarget : String}
      (sources : RespelledEndpoint pairs source otherSource)
      (targets : RespelledEndpoint pairs target otherTarget) :
      Corresponds pairs (.connect source target) (.connect otherSource otherTarget)
  | moduleDef {name otherName : String} {inputs outputs otherInputs otherOutputs : List String}
      {one other : List Instruction} (names : RespelledName pairs name otherName)
      (allInputs : List.Forall₂ (RespelledText pairs) inputs otherInputs)
      (allOutputs : List.Forall₂ (RespelledText pairs) outputs otherOutputs)
      (body : AllCorrespond pairs one other) :
      Corresponds pairs (.moduleDef name inputs outputs one)
        (.moduleDef otherName otherInputs otherOutputs other)
  | moduleCall {name otherName : String} {args otherArgs : List String}
      (names : RespelledText pairs name otherName)
      (allArgs : List.Forall₂ (RespelledText pairs) args otherArgs) :
      Corresponds pairs (.moduleCall name args) (.moduleCall otherName otherArgs)
  | loop {counter first last otherFirst otherLast : String} {one other : List Instruction}
      (plain : '_' ∉ counter.toList) (firsts : RespelledText pairs first otherFirst)
      (lasts : RespelledText pairs last otherLast) (body : AllCorrespond pairs one other) :
      Corresponds pairs (.loop counter first last one) (.loop counter otherFirst otherLast other)
  | branch {name otherName : Option String} {test otherTest : Instruction}
      {one other alternative otherAlternative : List Instruction}
      (names : Option.Rel (RespelledName pairs) name otherName)
      (tests : Corresponds pairs test otherTest) (body : AllCorrespond pairs one other)
      (alternatives : AllCorrespond pairs alternative otherAlternative) :
      Corresponds pairs (.branch name test one alternative)
        (.branch otherName otherTest other otherAlternative)
  | condition {one other : String} (text : RespelledText pairs one other) :
      Corresponds pairs (.condition one) (.condition other)
  | templateDef {name : String} {parameters : List String} {one other : List Instruction}
      (isLabel : Suffix.IsLabel name.toList)
      (plain : ∀ parameter ∈ parameters, '_' ∉ parameter.toList)
      (body : AllCorrespond pairs one other) :
      Corresponds pairs (.templateDef name parameters one) (.templateDef name parameters other)
  | templateCall {name otherName : String} {args otherArgs : List String}
      (names : RespelledText pairs name otherName)
      (allArgs : List.Forall₂ (RespelledName pairs) args otherArgs) :
      Corresponds pairs (.templateCall name args) (.templateCall otherName otherArgs)
  | call {name otherName : String} {args otherArgs : List String}
      (names : RespelledText pairs name otherName)
      (allArgs : List.Forall₂ (RespelledName pairs) args otherArgs) :
      Corresponds pairs (.call name args) (.call otherName otherArgs)
  | expand {group otherGroup : Option String} {annotations otherAnnotations : TextTable}
      {one other : List Instruction} (groups : Option.Rel (RespelledText pairs) group otherGroup)
      (entries : List.Forall₂ (EntryCorresponds pairs) annotations otherAnnotations)
      (body : AllCorrespond pairs one other) :
      Corresponds pairs (.expand group annotations one) (.expand otherGroup otherAnnotations other)
  | constant {one other : String} (name : String) (text : RespelledText pairs one other) :
      Corresponds pairs (.constant name one) (.constant name other)
  | file (path : String) : Corresponds pairs (.file path) (.file path)
  | otherwise {one other : List Instruction} (body : AllCorrespond pairs one other) :
      Corresponds pairs (.otherwise one) (.otherwise other)

inductive AllCorrespond (pairs : List (String × String)) :
    List Instruction → List Instruction → Prop where
  | nil : AllCorrespond pairs [] []
  | cons {first second : Instruction} {one other : List Instruction}
      (head : Corresponds pairs first second) (rest : AllCorrespond pairs one other) :
      AllCorrespond pairs (first :: one) (second :: other)

end

end Instruction

variable {pairs : List (String × String)}

/-! ## More suffixes -/

section Monotone

variable {more : List (String × String)} (grows : pairs ⊆ more)

include grows

theorem IntField.Corresponds.mono {one other : IntField} (field : one.Corresponds pairs other) :
    one.Corresponds more other := by
  cases field with
  | literal value => exact .literal value
  | expression text => exact .expression (text.mono grows)

theorem EntryCorresponds.mono {one other : String × String}
    (entry : EntryCorresponds pairs one other) : EntryCorresponds more one other :=
  ⟨entry.key, entry.text.mono grows⟩

theorem LayerSpec.Corresponds.mono {one other : LayerSpec} (spec : one.Corresponds pairs other) :
    one.Corresponds more other :=
  { layerType := spec.layerType.mono grows
    name := spec.name.mono grows
    size := Table.rel_imp (IntField.Corresponds.mono grows) spec.size
    shape := Table.rel_imp (fun fields => fields.imp fun _ _ field => field.mono grows) spec.shape
    activation := Table.rel_imp (fun text => text.mono grows) spec.activation
    dim := Table.rel_imp (IntField.Corresponds.mono grows) spec.dim
    depth := Table.rel_imp (IntField.Corresponds.mono grows) spec.depth
    heads := Table.rel_imp (IntField.Corresponds.mono grows) spec.heads
    dropout := spec.dropout
    params := spec.params.imp fun _ _ entry => entry.mono grows
    tags := spec.tags.imp fun _ _ text => text.mono grows
    inputs := spec.inputs.imp fun _ _ text => text.mono grows
    outputs := spec.outputs.imp fun _ _ text => text.mono grows
    weights := Table.rel_imp (fun text => text.mono grows) spec.weights }

private theorem texts_mono {one other : List String}
    (texts : List.Forall₂ (RespelledText pairs) one other) :
    List.Forall₂ (RespelledText more) one other :=
  texts.imp fun _ _ text => text.mono grows

private theorem names_mono {one other : List String}
    (names : List.Forall₂ (RespelledName pairs) one other) :
    List.Forall₂ (RespelledName more) one other :=
  names.imp fun _ _ name => name.mono grows

end Monotone

namespace Instruction

mutual

/-- Instructions that correspond still do so when more suffixes are drawn. -/
theorem Corresponds.mono {more : List (String × String)} (grows : pairs ⊆ more) :
    ∀ {one other : Instruction}, one.Corresponds pairs other → one.Corresponds more other
  | _, _, .program body => .program (body.mono grows)
  | _, _, .block body => .block (body.mono grows)
  | _, _, .layer spec => .layer (spec.mono grows)
  | _, _, .connect sources targets => .connect (sources.mono grows) (targets.mono grows)
  | _, _, .moduleDef names allInputs allOutputs body =>
      .moduleDef (names.mono grows) (texts_mono grows allInputs) (texts_mono grows allOutputs)
        (body.mono grows)
  | _, _, .moduleCall names allArgs => .moduleCall (names.mono grows) (texts_mono grows allArgs)
  | _, _, .loop plain firsts lasts body =>
      .loop plain (firsts.mono grows) (lasts.mono grows) (body.mono grows)
  | _, _, .branch names tests body alternatives =>
      .branch (Table.rel_imp (fun text => text.mono grows) names) (tests.mono grows)
        (body.mono grows) (alternatives.mono grows)
  | _, _, .condition text => .condition (text.mono grows)
  | _, _, .templateDef isLabel plain body => .templateDef isLabel plain (body.mono grows)
  | _, _, .templateCall names allArgs => .templateCall (names.mono grows) (names_mono grows allArgs)
  | _, _, .call names allArgs => .call (names.mono grows) (names_mono grows allArgs)
  | _, _, .expand groups entries body =>
      .expand (Table.rel_imp (fun text => text.mono grows) groups)
        (entries.imp fun _ _ entry => entry.mono grows) (body.mono grows)
  | _, _, .constant name text => .constant name (text.mono grows)
  | _, _, .file path => .file path
  | _, _, .otherwise body => .otherwise (body.mono grows)

/-- A correspondence lasts when further suffixes are drawn. -/
theorem AllCorrespond.mono {more : List (String × String)} (grows : pairs ⊆ more) :
    ∀ {one other : List Instruction}, AllCorrespond pairs one other → AllCorrespond more one other
  | _, _, .nil => .nil
  | _, _, .cons head rest => .cons (head.mono grows) (rest.mono grows)

end

end Instruction

/-! ## Filling in -/

namespace Substitution

variable {one other : Substitution}

private theorem bothFill_optional {Field : Type} {Related : Field → Field → Prop}
    {fill otherFill : Field → Except ExprError Field}
    (fills : ∀ {field last}, Related field last → BothFill Related (fill field) (otherFill last))
    {field last : Option Field} (related : Option.Rel Related field last) :
    BothFill (Option.Rel Related) (optional fill field) (optional otherFill last) := by
  cases related with
  | none => exact .ok .none
  | some related => exact (fills related).map fun _ _ filled => .some filled

private theorem bothFill_each {Field : Type} {Related : Field → Field → Prop}
    {fill otherFill : Field → Except ExprError Field}
    (fills : ∀ {field last}, Related field last → BothFill Related (fill field) (otherFill last))
    {fields lasts : List Field} (related : List.Forall₂ Related fields lasts) :
    BothFill (List.Forall₂ Related) (each fill fields) (each otherFill lasts) := by
  induction related with
  | nil => exact .ok .nil
  | cons first _ inductionHypothesis =>
      exact (fills first).bind fun _ _ head => inductionHypothesis.bind fun _ _ rest =>
        .ok (.cons head rest)

variable (pairing : Suffix.Pairing pairs) (corresponds : Corresponds pairs one other)

include pairing corresponds

private theorem bothFill_names {texts lasts : List String}
    (related : List.Forall₂ (RespelledName pairs) texts lasts) :
    BothFill (List.Forall₂ (RespelledName pairs)) (one.names texts) (other.names lasts) :=
  bothFill_each (corresponds.name pairing) related

private theorem bothFill_nameTexts {texts lasts : List String}
    (related : List.Forall₂ (RespelledText pairs) texts lasts) :
    BothFill (List.Forall₂ (RespelledText pairs)) (one.names texts) (other.names lasts) :=
  bothFill_each (corresponds.nameText pairing) related

private theorem bothFill_intField {field last : IntField} (related : field.Corresponds pairs last) :
    BothFill (IntField.Corresponds pairs) (one.intField field) (other.intField last) := by
  cases related with
  | literal value => exact .ok (.literal value)
  | expression text =>
      exact (corresponds.substituteText pairing text).map fun _ _ filled => .expression filled

private theorem bothFill_table {entries lasts : TextTable}
    (related : List.Forall₂ (EntryCorresponds pairs) entries lasts) :
    BothFill (List.Forall₂ (EntryCorresponds pairs)) (one.table entries) (other.table lasts) := by
  induction related with
  | nil => exact .ok .nil
  | cons first _ inductionHypothesis =>
      exact (corresponds.substituteText pairing first.text).bind fun _ _ filled =>
        inductionHypothesis.bind fun _ _ rest => .ok (.cons ⟨first.key, filled⟩ rest)

private theorem bothFill_layerSpec {spec last : LayerSpec} (related : spec.Corresponds pairs last) :
    BothFill (LayerSpec.Corresponds pairs) (one.layerSpec spec) (other.layerSpec last) := by
  have text {field last : String} (related : RespelledText pairs field last) :=
    corresponds.substituteText pairing related
  have number {field last : IntField} (related : field.Corresponds pairs last) :=
    bothFill_intField pairing corresponds related
  refine (text related.layerType).bind fun _ _ layerType => ?_
  refine (corresponds.name pairing related.name).bind fun _ _ name => ?_
  refine (bothFill_optional number related.size).bind fun _ _ size => ?_
  refine (bothFill_optional (bothFill_each number) related.shape).bind fun _ _ shape => ?_
  refine (bothFill_optional text related.activation).bind fun _ _ activation => ?_
  refine (bothFill_optional number related.dim).bind fun _ _ dim => ?_
  refine (bothFill_optional number related.depth).bind fun _ _ depth => ?_
  refine (bothFill_optional number related.heads).bind fun _ _ heads => ?_
  refine (bothFill_table pairing corresponds related.params).bind fun _ _ params => ?_
  refine (bothFill_each text related.tags).bind fun _ _ tags => ?_
  refine (bothFill_nameTexts pairing corresponds related.inputs).bind fun _ _ inputs => ?_
  refine (bothFill_nameTexts pairing corresponds related.outputs).bind fun _ _ outputs => ?_
  refine (bothFill_optional text related.weights).bind fun _ _ weights => ?_
  exact .ok ⟨layerType, name, size, shape, activation, dim, depth, heads, related.dropout, params,
    tags, inputs, outputs, weights⟩

end Substitution

namespace Instruction

open Substitution

mutual

/-- Instructions that correspond are filled in alike. -/
theorem Corresponds.apply (pairing : Suffix.Pairing pairs) : ∀ {template last : Instruction}
    {one other : Substitution}, template.Corresponds pairs last → one.Corresponds pairs other →
      BothFill (Instruction.Corresponds pairs) (one.apply template) (other.apply last)
  | _, _, _, _, .program body, corresponds =>
      (body.applyAll pairing corresponds).bind fun _ _ filled => .ok (.program filled)
  | _, _, _, _, .block body, corresponds =>
      (body.applyAll pairing corresponds).bind fun _ _ filled => .ok (.block filled)
  | _, _, _, _, .layer spec, corresponds =>
      (bothFill_layerSpec pairing corresponds spec).bind fun _ _ filled => .ok (.layer filled)
  | _, _, _, _, .connect sources targets, corresponds =>
      (corresponds.endpoint pairing sources).bind fun _ _ source =>
      (corresponds.endpoint pairing targets).bind fun _ _ target => .ok (.connect source target)
  | _, _, _, _, .moduleDef names allInputs allOutputs body, corresponds =>
      (corresponds.name pairing names).bind fun _ _ name =>
      (bothFill_nameTexts pairing corresponds allInputs).bind fun _ _ inputs =>
      (bothFill_nameTexts pairing corresponds allOutputs).bind fun _ _ outputs =>
      (body.applyAll pairing corresponds).bind fun _ _ filled =>
        .ok (.moduleDef name inputs outputs filled)
  | _, _, _, _, .moduleCall names allArgs, corresponds =>
      (corresponds.substituteText pairing names).bind fun _ _ name =>
      (bothFill_nameTexts pairing corresponds allArgs).bind fun _ _ args =>
        .ok (.moduleCall name args)
  | _, _, _, _, .loop plain firsts lasts body, corresponds =>
      (corresponds.substituteText pairing firsts).bind fun _ _ first =>
      (corresponds.substituteText pairing lasts).bind fun _ _ last =>
      (body.applyAll pairing (corresponds.without _)).bind fun _ _ filled =>
        .ok (.loop plain first last filled)
  | _, _, _, _, .branch names tests body alternatives, corresponds =>
      (bothFill_optional (corresponds.name pairing) names).bind fun _ _ name =>
      (tests.apply pairing corresponds).bind fun _ _ test =>
      (body.applyAll pairing corresponds).bind fun _ _ filled =>
      (alternatives.applyAll pairing corresponds).bind fun _ _ alternative =>
        .ok (.branch name test filled alternative)
  | _, _, _, _, .condition text, corresponds =>
      (corresponds.substituteText pairing text).bind fun _ _ filled => .ok (.condition filled)
  | _, _, _, _, .templateDef isLabel plain body, corresponds =>
      (body.applyAll pairing (corresponds.without _)).bind fun _ _ filled =>
        .ok (.templateDef isLabel plain filled)
  | _, _, _, _, .templateCall names allArgs, corresponds =>
      (corresponds.substituteText pairing names).bind fun _ _ name =>
      (bothFill_names pairing corresponds allArgs).bind fun _ _ args =>
        .ok (.templateCall name args)
  | _, _, _, _, .call names allArgs, corresponds =>
      (corresponds.substituteText pairing names).bind fun _ _ name =>
      (bothFill_names pairing corresponds allArgs).bind fun _ _ args => .ok (.call name args)
  | _, _, _, _, .expand groups entries body, corresponds =>
      (bothFill_optional (corresponds.substituteText pairing) groups).bind fun _ _ group =>
      (bothFill_table pairing corresponds entries).bind fun _ _ annotations =>
      (body.applyAll pairing corresponds).bind fun _ _ filled =>
        .ok (.expand group annotations filled)
  | _, _, _, _, .constant name text, corresponds =>
      (corresponds.substituteText pairing text).bind fun _ _ filled => .ok (.constant name filled)
  | _, _, _, _, .file path, _ => .ok (.file path)
  | _, _, _, _, .otherwise body, corresponds =>
      (body.applyAll pairing corresponds).bind fun _ _ filled => .ok (.otherwise filled)

/-- Lists that correspond are filled in to lists that correspond, or both cannot be. -/
theorem AllCorrespond.applyAll (pairing : Suffix.Pairing pairs) :
    ∀ {templates lasts : List Instruction} {one other : Substitution},
      AllCorrespond pairs templates lasts → one.Corresponds pairs other →
        BothFill (AllCorrespond pairs) (one.applyAll templates) (other.applyAll lasts)
  | _, _, _, _, .nil, _ => .ok .nil
  | _, _, _, _, .cons head rest, corresponds =>
      (head.apply pairing corresponds).bind fun _ _ first =>
      (rest.applyAll pairing corresponds).bind fun _ _ others => .ok (.cons first others)

end

end Instruction

/-! ## Equality -/

section Equality

def EqualAlike {Field : Type} (Related : Field → Field → Prop) : Prop :=
  ∀ ⦃one other text last : Field⦄, Related one other → Related text last →
    (one = text ↔ other = last)

variable {Field : Type} {Related : Field → Field → Prop}

theorem EqualAlike.list (alike : EqualAlike Related) : EqualAlike (List.Forall₂ Related) := by
  intro one other text last first second
  induction first generalizing text last with
  | nil => cases second <;> simp
  | cons head _ inductionHypothesis =>
      cases second with
      | nil => simp
      | cons otherHead rest =>
          rw [List.cons.injEq, List.cons.injEq, alike head otherHead, inductionHypothesis rest]

private theorem EqualAlike.option (alike : EqualAlike Related) : EqualAlike
    (Option.Rel Related) := by
  intro one other text last first second
  cases first with
  | none => cases second <;> simp
  | some head =>
      cases second with
      | none => simp
      | some otherHead => rw [Option.some.injEq, Option.some.injEq, alike head otherHead]

variable (pairing : Suffix.Pairing pairs)

include pairing

private theorem equalAlike_name : EqualAlike (RespelledName pairs) :=
  fun _ _ _ _ first second => first.eq_iff pairing second

/-- Texts are equal in both runs or in neither. -/
theorem equalAlike_text : EqualAlike (RespelledText pairs) := by
  intro one other text last first second
  rw [← String.toList_inj, ← String.toList_inj]
  exact first.eq_iff pairing second

private theorem equalAlike_intField : EqualAlike (IntField.Corresponds pairs) := by
  intro one other text last first second
  cases first with
  | literal value => cases second <;> simp
  | expression first =>
      cases second with
      | literal value => simp
      | expression second =>
          rw [IntField.expression.injEq, IntField.expression.injEq,
            equalAlike_text pairing first second]

private theorem equalAlike_entry : EqualAlike (EntryCorresponds pairs) := by
  intro one other text last first second
  rw [Prod.ext_iff, Prod.ext_iff, first.key, second.key,
    equalAlike_text pairing first.text second.text]

/-- Declarations agree in both runs or in neither. -/
theorem LayerSpec.Corresponds.same_eq {one other text last : LayerSpec}
    (first : one.Corresponds pairs other) (second : text.Corresponds pairs last) :
    one.same text = other.same last := by
  have field := equalAlike_intField pairing
  have string := equalAlike_text pairing
  unfold LayerSpec.same
  rw [beq_eq_beq.2 (string first.layerType second.layerType),
    beq_eq_beq.2 (first.name.eq_iff pairing second.name),
    beq_eq_beq.2 (field.option first.size second.size),
    beq_eq_beq.2 (field.list.option first.shape second.shape),
    beq_eq_beq.2 (string.option first.activation second.activation),
    beq_eq_beq.2 (field.option first.dim second.dim),
    beq_eq_beq.2 (field.option first.depth second.depth),
    beq_eq_beq.2 (field.option first.heads second.heads), first.dropout, second.dropout,
    beq_eq_beq.2 ((equalAlike_entry pairing).list first.params second.params),
    beq_eq_beq.2 (string.list first.tags second.tags),
    beq_eq_beq.2 (string.list first.inputs second.inputs),
    beq_eq_beq.2 (string.list first.outputs second.outputs),
    beq_eq_beq.2 (string.option first.weights second.weights)]

end Equality

namespace Instruction

mutual

/-- Instructions are equal in both runs or in neither. -/
theorem Corresponds.same_eq (pairing : Suffix.Pairing pairs) :
    ∀ {one other text last : Instruction}, one.Corresponds pairs other →
      text.Corresponds pairs last → one.same text = other.same last
  | _, _, _, _, .program body, second => by
      cases second with
      | program otherBody => exact body.sameAll_eq pairing otherBody
      | _ => rfl
  | _, _, _, _, .block body, second => by
      cases second with
      | block otherBody => exact body.sameAll_eq pairing otherBody
      | _ => rfl
  | _, _, _, _, .layer spec, second => by
      cases second with
      | layer otherSpec => exact spec.same_eq pairing otherSpec
      | _ => rfl
  | _, _, _, _, .connect sources targets, second => by
      cases second with
      | connect otherSources otherTargets =>
          have text := equalAlike_text pairing
          rw [same, same, beq_eq_beq.2 (text sources.respelled otherSources.respelled),
            beq_eq_beq.2 (text targets.respelled otherTargets.respelled)]
      | _ => rfl
  | _, _, _, _, .moduleDef names allInputs allOutputs body, second => by
      cases second with
      | moduleDef otherNames otherInputs otherOutputs otherBody =>
          have list := (equalAlike_text pairing).list
          rw [same, same, beq_eq_beq.2 (names.eq_iff pairing otherNames),
            beq_eq_beq.2 (list allInputs otherInputs),
            beq_eq_beq.2 (list allOutputs otherOutputs), body.sameAll_eq pairing otherBody]
      | _ => rfl
  | _, _, _, _, .moduleCall names allArgs, second => by
      cases second with
      | moduleCall otherNames otherArgs =>
          rw [same, same, beq_eq_beq.2 (equalAlike_text pairing names otherNames),
            beq_eq_beq.2 ((equalAlike_text pairing).list allArgs otherArgs)]
      | _ => rfl
  | _, _, _, _, .loop _ firsts lasts body, second => by
      cases second with
      | loop _ otherFirsts otherLasts otherBody =>
          rw [same, same, beq_eq_beq.2 (equalAlike_text pairing firsts otherFirsts),
            beq_eq_beq.2 (equalAlike_text pairing lasts otherLasts),
            body.sameAll_eq pairing otherBody]
      | _ => rfl
  | _, _, _, _, .branch names tests body alternatives, second => by
      cases second with
      | branch otherNames otherTests otherBody otherAlternatives =>
          rw [same, same, beq_eq_beq.2 ((equalAlike_name pairing).option names otherNames),
            tests.same_eq pairing otherTests, body.sameAll_eq pairing otherBody,
            alternatives.sameAll_eq pairing otherAlternatives]
      | _ => rfl
  | _, _, _, _, .condition text, second => by
      cases second with
      | condition otherText => exact beq_eq_beq.2 (equalAlike_text pairing text otherText)
      | _ => rfl
  | _, _, _, _, .templateDef _ _ body, second => by
      cases second with
      | templateDef _ _ otherBody => rw [same, same, body.sameAll_eq pairing otherBody]
      | _ => rfl
  | _, _, _, _, .templateCall names allArgs, second => by
      cases second with
      | templateCall otherNames otherArgs =>
          rw [same, same, beq_eq_beq.2 (equalAlike_text pairing names otherNames),
            beq_eq_beq.2 ((equalAlike_name pairing).list allArgs otherArgs)]
      | _ => rfl
  | _, _, _, _, .call names allArgs, second => by
      cases second with
      | call otherNames otherArgs =>
          rw [same, same, beq_eq_beq.2 (equalAlike_text pairing names otherNames),
            beq_eq_beq.2 ((equalAlike_name pairing).list allArgs otherArgs)]
      | _ => rfl
  | _, _, _, _, .expand groups entries body, second => by
      cases second with
      | expand otherGroups otherEntries otherBody =>
          rw [same, same, beq_eq_beq.2 ((equalAlike_text pairing).option groups otherGroups),
            beq_eq_beq.2 ((equalAlike_entry pairing).list entries otherEntries),
            body.sameAll_eq pairing otherBody]
      | _ => rfl
  | _, _, _, _, .constant _ text, second => by
      cases second with
      | constant _ otherText =>
          rw [same, same, beq_eq_beq.2 (equalAlike_text pairing text otherText)]
      | _ => rfl
  | _, _, _, _, .file _, second => by
      cases second <;> rfl
  | _, _, _, _, .otherwise body, second => by
      cases second with
      | otherwise otherBody => exact body.sameAll_eq pairing otherBody
      | _ => rfl

private theorem AllCorrespond.sameAll_eq (pairing : Suffix.Pairing pairs) :
    ∀ {one other text last : List Instruction}, AllCorrespond pairs one other →
      AllCorrespond pairs text last → sameAll one text = sameAll other last
  | _, _, _, _, .nil, second => by
      cases second <;> rfl
  | _, _, _, _, .cons head rest, second => by
      cases second with
      | nil => rfl
      | cons otherHead otherRest =>
          rw [sameAll, sameAll, head.same_eq pairing otherHead, rest.sameAll_eq pairing otherRest]

end

end Instruction

/-! ## The strings of a program -/

inductive StringRole where
  /-- A text that is filled in or kept. -/
  | text
  /-- The name of a layer, a module or a branch, or an argument. -/
  | name
  /-- The name of a template. -/
  | label
deriving DecidableEq

/-- What is asked of a string: it has no underscore, a name is not empty, and the name of a template
is made of letters and digits. -/
def StringRole.Allows (role : StringRole) (string : String) : Prop :=
  '_' ∉ string.toList ∧ (role = .name → string ≠ "") ∧
    (role = .label → string.toList ≠ [] ∧ string.toList.all Char.isAlphanum = true)

instance (role : StringRole) (string : String) : Decidable (role.Allows string) :=
  inferInstanceAs (Decidable (_ ∧ _ ∧ _))

def IntField.strings : IntField → List (StringRole × String)
  | .literal _ => []
  | .expression text => [(.text, text)]

def stringsAs (role : StringRole) (strings : List String) : List (StringRole × String) :=
  strings.map fun string => (role, string)

def tableStrings (table : TextTable) : List (StringRole × String) :=
  table.flatMap fun entry => [(.text, entry.1), (.text, entry.2)]

def LayerSpec.strings (spec : LayerSpec) : List (StringRole × String) :=
  (.text, spec.layerType) :: (.name, spec.name)
    :: ((spec.size.toList ++ spec.shape.getD [] ++ spec.dim.toList ++ spec.depth.toList
        ++ spec.heads.toList).flatMap IntField.strings
      ++ stringsAs .text spec.activation.toList ++ tableStrings spec.params
      ++ stringsAs .text spec.tags ++ stringsAs .text spec.inputs ++ stringsAs .text spec.outputs
      ++ stringsAs .text spec.weights.toList)

namespace Instruction

mutual

/-- The strings of an instruction and of everything below it. -/
def strings : Instruction → List (StringRole × String)
  | .program body | .block body | .otherwise body => stringsAll body
  | .layer spec => spec.strings
  | .connect source target => [(.text, source), (.text, target)]
  | .moduleDef name inputs outputs body =>
    (.name, name) :: (stringsAs .text inputs ++ stringsAs .text outputs ++ stringsAll body)
  | .moduleCall name args => (.text, name) :: stringsAs .text args
  | .templateCall name args | .call name args => (.text, name) :: stringsAs .name args
  | .loop counter first last body =>
    (.text, counter) :: (.text, first) :: (.text, last) :: stringsAll body
  | .branch name test body alternative =>
    stringsAs .name name.toList ++ strings test ++ stringsAll body ++ stringsAll alternative
  | .condition text => [(.text, text)]
  | .templateDef name parameters body =>
    (.label, name) :: (stringsAs .text parameters ++ stringsAll body)
  | .expand group annotations body =>
    stringsAs .text group.toList ++ tableStrings annotations ++ stringsAll body
  | .constant name text => [(.text, name), (.text, text)]
  | .file path => [(.text, path)]

def stringsAll : List Instruction → List (StringRole × String)
  | [] => []
  | first :: rest => strings first ++ stringsAll rest

end

end Instruction

/-- Strings without underscores of which each may stand where it does. -/
def ArePlain (strings : List (StringRole × String)) : Prop :=
  ∀ entry ∈ strings, entry.1.Allows entry.2

instance (strings : List (StringRole × String)) : Decidable (ArePlain strings) :=
  inferInstanceAs (Decidable (∀ entry ∈ strings, entry.1.Allows entry.2))

section Plain

variable {role : StringRole} {first second rest : List (StringRole × String)} {string : String}

theorem arePlain_cons : ArePlain ((role, string) :: rest) ↔ role.Allows string ∧ ArePlain rest :=
  List.forall_mem_cons

theorem arePlain_append : ArePlain (first ++ second) ↔ ArePlain first ∧ ArePlain second :=
  List.forall_mem_append

/-- A string without underscores corresponds to itself. -/
theorem StringRole.Allows.text (allows : role.Allows string) : RespelledText pairs string string :=
  .refl_of_plain allows.1

theorem StringRole.Allows.name (allows : StringRole.name.Allows string) :
    RespelledName pairs string string :=
  .refl_of_plain allows.1 (allows.2.1 rfl)

theorem StringRole.Allows.endpoint (allows : role.Allows string) :
    RespelledEndpoint pairs string string := by
  refine ⟨allows.text, or_iff_not_imp_left.2 fun nonempty => ?_⟩
  exact startsPlain_of_plain allows.1 fun empty => nonempty (String.toList_inj.1 empty)

theorem StringRole.Allows.isLabel (allows : StringRole.label.Allows string) :
    Suffix.IsLabel string.toList :=
  ⟨(allows.2.2 rfl).1, List.all_eq_true.1 (allows.2.2 rfl).2⟩

private theorem allows_of_stringsAs {strings : List String}
    (plain : ArePlain (stringsAs role strings)) :
    ∀ string ∈ strings, role.Allows string :=
  fun _ member => plain _ (List.mem_map_of_mem member)

end Plain

private theorem optionRel_self {Field : Type} {Related : Field → Field → Prop} :
    ∀ {field : Option Field}, (∀ value ∈ field.toList, Related value value) →
      Option.Rel Related field field
  | none, _ => .none
  | some _, each => .some (each _ (List.mem_singleton_self _))

private theorem names_self {names : List String} (plain : ArePlain (stringsAs .name names)) :
    List.Forall₂ (RespelledName pairs) names names :=
  List.forall₂_same.2 fun name member => (allows_of_stringsAs plain name member).name

private theorem texts_self {texts : List String} (plain : ArePlain (stringsAs .text texts)) :
    List.Forall₂ (RespelledText pairs) texts texts :=
  List.forall₂_same.2 fun text member => (allows_of_stringsAs plain text member).text

private theorem text?_self {text : Option String} (plain : ArePlain (stringsAs .text text.toList)) :
    Option.Rel (RespelledText pairs) text text :=
  optionRel_self fun text member => (allows_of_stringsAs plain text member).text

private theorem table_self {table : TextTable} (plain : ArePlain (tableStrings table)) :
    List.Forall₂ (EntryCorresponds pairs) table table :=
  List.forall₂_same.2 fun entry member => ⟨rfl, (plain (.text, entry.2)
    (List.mem_flatMap.2 ⟨entry, member, List.mem_cons_of_mem _ (List.mem_singleton_self _)⟩)).text⟩

private theorem fields_self {fields : List IntField}
    (plain : ArePlain (fields.flatMap IntField.strings)) :
    ∀ field ∈ fields, field.Corresponds pairs field := by
  intro field member
  cases field with
  | literal value => exact .literal value
  | expression text =>
      exact .expression (plain (.text, text) (List.mem_flatMap.2
        ⟨_, member, List.mem_singleton_self _⟩)).text

/-- A declaration without underscores corresponds to itself. -/
theorem LayerSpec.corresponds_self {spec : LayerSpec} (plain : ArePlain spec.strings) :
    spec.Corresponds pairs spec := by
  unfold LayerSpec.strings at plain
  simp only [arePlain_cons, arePlain_append, List.flatMap_append] at plain
  obtain ⟨layerType, name, ⟨⟨⟨⟨⟨numbers, activation⟩, params⟩, tags⟩, inputs⟩, outputs⟩, weights⟩ :=
    plain
  obtain ⟨⟨⟨⟨size, shape⟩, dim⟩, depth⟩, heads⟩ := numbers
  exact
    { layerType := layerType.text
      name := name.name
      size := optionRel_self (fields_self size)
      shape := optionRel_self fun dims member => List.forall₂_same.2 (fields_self (by
        rw [Option.mem_toList] at member
        rwa [member] at shape))
      activation := text?_self activation
      dim := optionRel_self (fields_self dim)
      depth := optionRel_self (fields_self depth)
      heads := optionRel_self (fields_self heads)
      dropout := rfl
      params := table_self params
      tags := texts_self tags
      inputs := texts_self inputs
      outputs := texts_self outputs
      weights := text?_self weights }

namespace Instruction

mutual

/-- An instruction without underscores is the same in both runs. -/
theorem corresponds_self : ∀ {instruction : Instruction}, ArePlain instruction.strings →
    instruction.Corresponds pairs instruction := by
  intro instruction plain
  cases instruction with
  | program body => exact .program (allCorrespond_self plain)
  | block body => exact .block (allCorrespond_self plain)
  | otherwise body => exact .otherwise (allCorrespond_self plain)
  | layer spec => exact .layer (LayerSpec.corresponds_self plain)
  | connect source target =>
      obtain ⟨sources, targets⟩ := arePlain_cons.1 plain
      exact .connect sources.endpoint (arePlain_cons.1 targets).1.endpoint
  | moduleDef name inputs outputs body =>
      simp only [strings, arePlain_cons, arePlain_append] at plain
      obtain ⟨names, ⟨allInputs, allOutputs⟩, bodies⟩ := plain
      exact .moduleDef names.name (texts_self allInputs) (texts_self allOutputs)
        (allCorrespond_self bodies)
  | moduleCall name args =>
      obtain ⟨names, allArgs⟩ := arePlain_cons.1 plain
      exact .moduleCall names.text (texts_self allArgs)
  | templateCall name args =>
      obtain ⟨names, allArgs⟩ := arePlain_cons.1 plain
      exact .templateCall names.text (names_self allArgs)
  | call name args =>
      obtain ⟨names, allArgs⟩ := arePlain_cons.1 plain
      exact .call names.text (names_self allArgs)
  | loop counter first last body =>
      simp only [strings, arePlain_cons] at plain
      obtain ⟨counters, firsts, lasts, bodies⟩ := plain
      exact .loop counters.1 firsts.text lasts.text (allCorrespond_self bodies)
  | branch name test body alternative =>
      simp only [strings, arePlain_append] at plain
      obtain ⟨⟨⟨names, tests⟩, bodies⟩, alternatives⟩ := plain
      exact .branch (optionRel_self fun name member => (allows_of_stringsAs names name member).name)
        (corresponds_self tests) (allCorrespond_self bodies) (allCorrespond_self alternatives)
  | condition text => exact .condition (arePlain_cons.1 plain).1.text
  | templateDef name parameters body =>
      simp only [strings, arePlain_cons, arePlain_append] at plain
      obtain ⟨label, allParameters, bodies⟩ := plain
      exact .templateDef label.isLabel
        (fun parameter member => (allows_of_stringsAs allParameters parameter member).1)
        (allCorrespond_self bodies)
  | expand group annotations body =>
      simp only [strings, arePlain_append] at plain
      obtain ⟨⟨groups, entries⟩, bodies⟩ := plain
      exact .expand (text?_self groups) (table_self entries) (allCorrespond_self bodies)
  | constant name text =>
      exact .constant name (arePlain_cons.1 (arePlain_cons.1 plain).2).1.text
  | file path => exact .file path

private theorem allCorrespond_self : ∀ {body : List Instruction}, ArePlain (stringsAll body) →
    AllCorrespond pairs body body := by
  intro body plain
  cases body with
  | nil => exact .nil
  | cons first rest =>
      obtain ⟨head, others⟩ := arePlain_append.1 plain
      exact .cons (corresponds_self head) (allCorrespond_self others)

end

end Instruction

end NetBlueprint
