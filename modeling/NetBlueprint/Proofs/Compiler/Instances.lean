import NetBlueprint.Compiler.Expansion
import NetBlueprint.Proofs.Substitution.Splicing

/-!
Contract: the instances of the layers and modules that a program declares.

A program without templates and branches says by itself what it becomes: every declaration outside
of loops stands for one layer, and every declaration inside a loop for one layer in each round. The
rounds are counted on the program as it is written, with the counters of the loops around a
declaration filled in where it stands.

Owns: the unrolled declarations of a program, and that neither filling in nor a comparison of
instructions changes them.

Does not own: which of them are compiled.
-/

namespace NetBlueprint

/-- What a layer is called, and whether it groups other layers. -/
abbrev Heading := String × Bool

/-- Fills several substitutions into a text, one after the other. -/
def Substitution.fillAll (fill : Substitution → String → Except ExprError String) :
    List Substitution → String → Option String
  | [], text => some text
  | substitution :: rest, text => (fill substitution text).toOption.bind (fillAll fill rest)

private theorem Substitution.fillAll_cons {fill : Substitution → String → Except ExprError String}
    {substitution : Substitution} {text filled : String}
    (fills : fill substitution text = .ok filled) (pending : List Substitution) :
    fillAll fill (substitution :: pending) text = fillAll fill pending filled := by
  rw [fillAll, fills]
  rfl

namespace Instruction

/-- The value of the bound of a loop under substitutions that are still to be filled in. -/
def boundUnder (pending : List Substitution) (text : String) : Option Int :=
  (Substitution.fillAll Substitution.substitute pending text).bind fun filled =>
    (Expr.evaluate (unbracket filled)).toOption

/-- What the rounds of a loop add up to, from a value of the counter on. -/
def gatherRounds (round : Int → Option (List Heading)) : Nat → Int → Option (List Heading)
  | 0, _ => some []
  | count + 1, value => do
    let first ← round value
    let rest ← gatherRounds round count (value + 1)
    return first ++ rest

mutual

/-- The layers that an instruction stands for under substitutions that are still to be filled in,
with its loops unrolled. A module follows the layers of its body. -/
def unrolled : List Substitution → Instruction → Option (List Heading)
  | pending, .program body | pending, .block body | pending, .expand _ _ body =>
    unrolledAll pending body
  | pending, .layer spec =>
    (Substitution.fillAll Substitution.name pending spec.name).map fun name => [(name, false)]
  | pending, .moduleDef name _ _ body => do
    let inner ← unrolledAll pending body
    let name ← Substitution.fillAll Substitution.name pending name
    return inner ++ [(name, true)]
  | pending, .loop counter first last body => do
    let low ← boundUnder pending first
    let high ← boundUnder pending last
    gatherRounds
      (fun value =>
        unrolledAll
          (pending.map (fun substitution => substitution.without [counter])
            ++ [Compile.roundSubstitution counter value])
          body)
      (high - low + 1).toNat low
  | _, _ => some []

def unrolledAll : List Substitution → List Instruction → Option (List Heading)
  | _, [] => some []
  | pending, first :: rest => do
    let headings ← unrolled pending first
    let others ← unrolledAll pending rest
    return headings ++ others

end

mutual

/-- Decides whether an instruction calls no template, has no branches, and declares neither inputs
nor outputs. Nothing is asked of a template that is never called. -/
def isPlain : Instruction → Bool
  | .program body | .block body | .moduleDef _ _ _ body | .loop _ _ _ body | .expand _ _ body =>
    isPlainAll body
  | .layer spec => !spec.isInput && !spec.isOutput
  | .branch _ _ _ _ | .templateCall _ _ | .call _ _ => false
  | _ => true

def isPlainAll : List Instruction → Bool
  | [] => true
  | first :: rest => isPlain first && isPlainAll rest

end

theorem isPlainAll_iff {body : List Instruction} :
    isPlainAll body = true ↔ ∀ child ∈ body, child.isPlain = true := by
  induction body with
  | nil => simp [isPlainAll]
  | cons first rest inductionHypothesis => simp [isPlainAll, inductionHypothesis]

/-! ## Instructions that agree -/

mutual

/-- Instructions that agree stand for the same layers. -/
theorem unrolled_of_same : ∀ {left right : Instruction} (pending : List Substitution),
    left.same right = true → left.unrolled pending = right.unrolled pending := by
  intro left right pending agree
  cases left with
  | program left =>
      cases right with
      | program right => exact unrolledAll_of_sameAll pending agree
      | _ => cases agree
  | block left =>
      cases right with
      | block right => exact unrolledAll_of_sameAll pending agree
      | _ => cases agree
  | expand _ _ left =>
      cases right with
      | expand _ _ right =>
          rw [same, Bool.and_eq_true] at agree
          exact unrolledAll_of_sameAll pending agree.2
      | _ => cases agree
  | layer left =>
      cases right with
      | layer right =>
          simp only [same, LayerSpec.same, Bool.and_eq_true] at agree
          have sameName : left.name = right.name := eq_of_beq agree.1.1.1.1.1.1.1.1.1.1.1.1.2
          rw [unrolled, unrolled, sameName]
      | _ => cases agree
  | moduleDef name _ _ left =>
      cases right with
      | moduleDef name' _ _ right =>
          simp only [same, Bool.and_eq_true] at agree
          rw [unrolled, unrolled, unrolledAll_of_sameAll pending agree.2, eq_of_beq agree.1.1.1]
      | _ => cases agree
  | loop counter first last left =>
      cases right with
      | loop counter' first' last' right =>
          simp only [same, Bool.and_eq_true] at agree
          obtain ⟨⟨⟨counters, firsts⟩, lasts⟩, bodies⟩ := agree
          cases eq_of_beq counters
          cases eq_of_beq firsts
          cases eq_of_beq lasts
          simp only [unrolled, unrolledAll_of_sameAll _ bodies]
      | _ => cases agree
  | _ =>
      cases right with
      | program _ | block _ | expand _ _ _ | layer _ | moduleDef _ _ _ _ | loop _ _ _ _ =>
          cases agree
      | _ => rfl

private theorem unrolledAll_of_sameAll : ∀ {left right : List Instruction}
    (pending : List Substitution),
    sameAll left right = true → unrolledAll pending left = unrolledAll pending right
  | [], [], _, _ => rfl
  | left :: lefts, right :: rights, pending, agree => by
      rw [sameAll, Bool.and_eq_true] at agree
      rw [unrolledAll, unrolledAll, unrolled_of_same pending agree.1,
        unrolledAll_of_sameAll pending agree.2]
  | [], _ :: _, _, agree => by cases agree
  | _ :: _, [], _, agree => by cases agree

end

/-! ## Instructions that are filled in -/

section Filling

variable {substitution : Substitution}

private theorem boundUnder_cons {text filled : String}
    (fills : substitution.substitute text = .ok filled) (pending : List Substitution) :
    boundUnder (substitution :: pending) text = boundUnder pending filled := by
  rw [boundUnder, Substitution.fillAll_cons fills, boundUnder]

private theorem unrolled_of_opcode {instruction : Instruction} {pending : List Substitution}
    (leaf : instruction.opcode ∉ [.program, .block, .layer, .moduleDef, .loop, .expand]) :
    instruction.unrolled pending = some [] := by
  cases instruction with
  | program _ | block _ | layer _ | moduleDef _ _ _ _ | loop _ _ _ _ | expand _ _ _ =>
      simp [opcode] at leaf
  | _ => rfl

mutual

/-- What is filled in now need not be filled in later. -/
theorem unrolled_of_apply : ∀ {template instruction : Instruction} {substitution : Substitution}
    (pending : List Substitution), substitution.apply template = .ok instruction →
      instruction.unrolled pending = template.unrolled (substitution :: pending) := by
  intro template instruction substitution pending applied
  cases template with
  | program body | block body =>
      obtain ⟨filled, fills, same⟩ := Outcome.bind_eq_ok.1 applied
      cases Outcome.pure_eq_ok.1 same
      exact unrolledAll_of_applyAll pending fills
  | layer spec =>
      obtain ⟨filled, fills, same⟩ := Outcome.bind_eq_ok.1 applied
      cases Outcome.pure_eq_ok.1 same
      rw [unrolled, unrolled,
        Substitution.fillAll_cons (Substitution.name_of_layerSpec fills)]
  | moduleDef name inputs outputs body =>
      obtain ⟨filledName, fillsName, rest⟩ := Outcome.bind_eq_ok.1 applied
      obtain ⟨_, _, rest⟩ := Outcome.bind_eq_ok.1 rest
      obtain ⟨_, _, rest⟩ := Outcome.bind_eq_ok.1 rest
      obtain ⟨filled, fills, same⟩ := Outcome.bind_eq_ok.1 rest
      cases Outcome.pure_eq_ok.1 same
      rw [unrolled, unrolled, unrolledAll_of_applyAll pending fills,
        Substitution.fillAll_cons fillsName]
  | loop counter first last body =>
      obtain ⟨low, fillsLow, rest⟩ := Outcome.bind_eq_ok.1 applied
      obtain ⟨high, fillsHigh, rest⟩ := Outcome.bind_eq_ok.1 rest
      obtain ⟨filled, fills, same⟩ := Outcome.bind_eq_ok.1 rest
      cases Outcome.pure_eq_ok.1 same
      simp only [unrolled, boundUnder_cons fillsLow, boundUnder_cons fillsHigh, List.map_cons,
        List.cons_append, unrolledAll_of_applyAll _ fills]
  | expand group annotations body =>
      obtain ⟨_, _, rest⟩ := Outcome.bind_eq_ok.1 applied
      obtain ⟨_, _, rest⟩ := Outcome.bind_eq_ok.1 rest
      obtain ⟨filled, fills, same⟩ := Outcome.bind_eq_ok.1 rest
      cases Outcome.pure_eq_ok.1 same
      exact unrolledAll_of_applyAll pending fills
  | _ =>
      have sameOpcode := Substitution.opcode_of_apply applied
      rw [unrolled_of_opcode (by rw [sameOpcode]; simp [opcode]),
        unrolled_of_opcode (by simp [opcode])]

private theorem unrolledAll_of_applyAll : ∀ {templates body : List Instruction}
    {substitution : Substitution} (pending : List Substitution),
    substitution.applyAll templates = .ok body →
      unrolledAll pending body = unrolledAll (substitution :: pending) templates
  | [], _, _, _, applied => by
      cases applied
      rfl
  | first :: rest, _, _, pending, applied => by
      obtain ⟨filled, fills, following⟩ := Outcome.bind_eq_ok.1 applied
      obtain ⟨others, fillsOthers, same⟩ := Outcome.bind_eq_ok.1 following
      cases Outcome.pure_eq_ok.1 same
      rw [unrolledAll, unrolledAll, unrolled_of_apply pending fills,
        unrolledAll_of_applyAll pending fillsOthers]

end

private theorem toLower_of_isDigit {character : Char} (isDigit : character.isDigit = true) :
    character.toLower = character := by
  delta Char.toLower
  rw [dif_neg]
  rintro ⟨atLeast, _⟩
  simp only [Char.isDigit, Bool.and_eq_true, decide_eq_true_eq] at isDigit
  exact absurd (UInt32.le_trans atLeast isDigit.2) (by decide)

private theorem kind_of_layerType (numeric : substitution.IsNumeric) {spec filled : LayerSpec}
    (fills : substitution.substitute spec.layerType = .ok filled.layerType) {kind : String}
    (isKind : filled.kind = kind)
    (noDigit : kind.toList.any Char.isDigit = false) : spec.kind = kind := by
  have same : filled.layerType = spec.layerType := by
    refine Substitution.eq_of_substitute numeric fills fun character member => ?_
    by_contra isDigit
    rw [Bool.not_eq_false] at isDigit
    have lowered : character ∈ kind.toList := by
      have letters : filled.kind.toList = filled.layerType.toList.map Char.toLower :=
        String.toList_map
      rw [← isKind, letters]
      exact List.mem_map.2 ⟨character, member, toLower_of_isDigit isDigit⟩
    exact absurd isDigit (List.any_eq_false.1 noDigit character lowered)
  rw [← isKind, LayerSpec.kind, LayerSpec.kind, same]

mutual

/-- Filling in integers keeps a plain instruction plain. -/
theorem isPlain_of_apply : ∀ {template instruction : Instruction} {substitution : Substitution},
    substitution.IsNumeric → substitution.apply template = .ok instruction →
      template.isPlain = true → instruction.isPlain = true := by
  intro template instruction substitution numeric applied plain
  cases template with
  | program body | block body =>
      obtain ⟨filled, fills, same⟩ := Outcome.bind_eq_ok.1 applied
      cases Outcome.pure_eq_ok.1 same
      exact isPlainAll_of_applyAll numeric fills plain
  | layer spec =>
      obtain ⟨filled, fills, same⟩ := Outcome.bind_eq_ok.1 applied
      cases Outcome.pure_eq_ok.1 same
      have typed := Substitution.layerType_of_layerSpec fills
      simp only [isPlain, Bool.and_eq_true, Bool.not_eq_true', LayerSpec.isInput,
        LayerSpec.isOutput, beq_eq_false_iff_ne] at plain ⊢
      exact ⟨fun isInput => plain.1 (kind_of_layerType numeric typed isInput (by decide)),
        fun isOutput => plain.2 (kind_of_layerType numeric typed isOutput (by decide))⟩
  | moduleDef name inputs outputs body =>
      obtain ⟨_, _, rest⟩ := Outcome.bind_eq_ok.1 applied
      obtain ⟨_, _, rest⟩ := Outcome.bind_eq_ok.1 rest
      obtain ⟨_, _, rest⟩ := Outcome.bind_eq_ok.1 rest
      obtain ⟨filled, fills, same⟩ := Outcome.bind_eq_ok.1 rest
      cases Outcome.pure_eq_ok.1 same
      exact isPlainAll_of_applyAll numeric fills plain
  | loop counter first last body =>
      obtain ⟨_, _, rest⟩ := Outcome.bind_eq_ok.1 applied
      obtain ⟨_, _, rest⟩ := Outcome.bind_eq_ok.1 rest
      obtain ⟨filled, fills, same⟩ := Outcome.bind_eq_ok.1 rest
      cases Outcome.pure_eq_ok.1 same
      exact isPlainAll_of_applyAll (numeric.without [counter]) fills plain
  | expand group annotations body =>
      obtain ⟨_, _, rest⟩ := Outcome.bind_eq_ok.1 applied
      obtain ⟨_, _, rest⟩ := Outcome.bind_eq_ok.1 rest
      obtain ⟨filled, fills, same⟩ := Outcome.bind_eq_ok.1 rest
      cases Outcome.pure_eq_ok.1 same
      exact isPlainAll_of_applyAll numeric fills plain
  | branch _ _ _ _ | templateCall _ _ | call _ _ => cases plain
  | _ =>
      have sameOpcode := Substitution.opcode_of_apply applied
      cases instruction with
      | program _ | block _ | layer _ | moduleDef _ _ _ _ | loop _ _ _ _ | expand _ _ _
      | branch _ _ _ _ | templateCall _ _ | call _ _ => simp [opcode] at sameOpcode
      | _ => rfl

private theorem isPlainAll_of_applyAll : ∀ {templates body : List Instruction}
    {substitution : Substitution}, substitution.IsNumeric →
      substitution.applyAll templates = .ok body → isPlainAll templates = true →
        isPlainAll body = true
  | [], _, _, _, applied, _ => by
      cases applied
      rfl
  | first :: rest, _, _, numeric, applied, plain => by
      obtain ⟨filled, fills, following⟩ := Outcome.bind_eq_ok.1 applied
      obtain ⟨others, fillsOthers, same⟩ := Outcome.bind_eq_ok.1 following
      cases Outcome.pure_eq_ok.1 same
      rw [isPlainAll, Bool.and_eq_true] at plain ⊢
      exact ⟨isPlain_of_apply numeric fills plain.1,
        isPlainAll_of_applyAll numeric fillsOthers plain.2⟩

end

end Filling

end Instruction

end NetBlueprint
