import NetBlueprint.Proofs.Substitution.Filling
import NetBlueprint.Proofs.Substitution.Operations

/-!
Contract: filling bindings into a tree moves none of its positions.

A position is the way down to it: through the body, the alternative or the test of one instruction
after another. Filling in rewrites the texts along the way and may lose bindings below a loop or a
template, but the instructions at a position before and after are filled in from one another. So the
same operation stands at every position, with as many instructions below it and with the names that
it binds.

Owns: positions of a tree and what is the same at each of them after filling in.

Does not own: the texts at a position.
-/

namespace NetBlueprint

namespace Instruction

/-- One step down into an instruction. -/
inductive Turn where
  | body (position : Nat)
  | alternative (position : Nat)
  | test
deriving DecidableEq, Repr

def alternative : Instruction → List Instruction
  | .branch _ _ _ alternative => alternative
  | _ => []

def test? : Instruction → Option Instruction
  | .branch _ test _ _ => some test
  | _ => none

def below? (instruction : Instruction) : Turn → Option Instruction
  | .body position => instruction.body[position]?
  | .alternative position => instruction.alternative[position]?
  | .test => instruction.test?

/-- The instruction at a position of a tree. -/
def at? : Instruction → List Turn → Option Instruction
  | instruction, [] => some instruction
  | instruction, turn :: path => (instruction.below? turn).bind fun inner => inner.at? path

/-- The texts of an instruction that are never filled in: the counter of a loop, the name and the
parameters of a template, the name of a constant and the path of a file. -/
def fixedTexts : Instruction → List String
  | .loop counter _ _ _ => [counter]
  | .templateDef name parameters _ => name :: parameters
  | .constant name _ => [name]
  | .file path => [path]
  | _ => []

/-- What an instruction is without the texts that are filled in and without the instructions below
it. -/
structure Frame where
  opcode : Opcode
  fixedTexts : List String
  children : Nat
  alternatives : Nat
deriving DecidableEq, Repr

def frame (instruction : Instruction) : Frame where
  opcode := instruction.opcode
  fixedTexts := instruction.fixedTexts
  children := instruction.body.length
  alternatives := instruction.alternative.length

end Instruction

namespace Substitution

/-- An instruction is filled in from another by some bindings. -/
def FilledFrom (template instruction : Instruction) : Prop :=
  ∃ substitution : Substitution, substitution.apply template = .ok instruction

/-- Two instructions match: they have the same operation and the same fixed texts, and what is below
the one is filled in from what is below the other. -/
structure Matches (template instruction : Instruction) : Prop where
  opcode : instruction.opcode = template.opcode
  fixedTexts : instruction.fixedTexts = template.fixedTexts
  body : List.Forall₂ FilledFrom template.body instruction.body
  alternative : List.Forall₂ FilledFrom template.alternative instruction.alternative
  test : Option.Rel FilledFrom template.test? instruction.test?

private theorem filledFrom_of_applyAll {substitution : Substitution}
    {body filled : List Instruction} (applied : substitution.applyAll body = .ok filled) :
    List.Forall₂ FilledFrom body filled :=
  (forall₂_of_applyAll applied).imp fun _ _ one => ⟨substitution, one⟩

/-- Filling in gives a matching instruction. -/
theorem matches_of_apply {substitution : Substitution} {template instruction : Instruction}
    (applied : substitution.apply template = .ok instruction) : Matches template instruction := by
  have sameOpcode := opcode_of_apply applied
  -- A loop and a template lose bindings inside, which is all the same here: any will do.
  cases template with
  | program _ | block _ | templateDef _ _ _ | otherwise _ =>
      obtain ⟨_, fills, same⟩ := Outcome.bind_eq_ok.1 applied
      cases Outcome.pure_eq_ok.1 same
      exact ⟨sameOpcode, rfl, filledFrom_of_applyAll fills, .nil, .none⟩
  | layer _ | condition _ | constant _ _ =>
      obtain ⟨_, _, same⟩ := Outcome.bind_eq_ok.1 applied
      cases Outcome.pure_eq_ok.1 same
      exact ⟨sameOpcode, rfl, .nil, .nil, .none⟩
  | connect _ _ | moduleCall _ _ | templateCall _ _ | call _ _ =>
      iterate 2 obtain ⟨_, _, applied⟩ := Outcome.bind_eq_ok.1 applied
      cases Outcome.pure_eq_ok.1 applied
      exact ⟨sameOpcode, rfl, .nil, .nil, .none⟩
  | moduleDef _ _ _ _ =>
      iterate 3 obtain ⟨_, _, applied⟩ := Outcome.bind_eq_ok.1 applied
      obtain ⟨_, fills, same⟩ := Outcome.bind_eq_ok.1 applied
      cases Outcome.pure_eq_ok.1 same
      exact ⟨sameOpcode, rfl, filledFrom_of_applyAll fills, .nil, .none⟩
  | loop _ _ _ _ | expand _ _ _ =>
      iterate 2 obtain ⟨_, _, applied⟩ := Outcome.bind_eq_ok.1 applied
      obtain ⟨_, fills, same⟩ := Outcome.bind_eq_ok.1 applied
      cases Outcome.pure_eq_ok.1 same
      exact ⟨sameOpcode, rfl, filledFrom_of_applyAll fills, .nil, .none⟩
  | branch _ _ _ _ =>
      obtain ⟨_, _, rest⟩ := Outcome.bind_eq_ok.1 applied
      obtain ⟨_, fillsTest, rest⟩ := Outcome.bind_eq_ok.1 rest
      obtain ⟨_, fillsBody, rest⟩ := Outcome.bind_eq_ok.1 rest
      obtain ⟨_, fillsAlternative, same⟩ := Outcome.bind_eq_ok.1 rest
      cases Outcome.pure_eq_ok.1 same
      exact ⟨sameOpcode, rfl, filledFrom_of_applyAll fillsBody,
        filledFrom_of_applyAll fillsAlternative, .some ⟨substitution, fillsTest⟩⟩
  | file _ =>
      cases Outcome.pure_eq_ok.1 applied
      exact ⟨sameOpcode, rfl, .nil, .nil, .none⟩

private theorem Matches.frame_eq {template instruction : Instruction}
    (matching : Matches template instruction) : instruction.frame = template.frame := by
  unfold Instruction.frame
  rw [matching.opcode, matching.fixedTexts, matching.body.length_eq,
    matching.alternative.length_eq]

/-- What is below the one is filled in from what is below the other, one step down. -/
theorem Matches.below {template instruction : Instruction}
    (matching : Matches template instruction) :
    ∀ turn : Instruction.Turn,
      Option.Rel FilledFrom (template.below? turn) (instruction.below? turn)
  | .body position => Table.rel_getElem? matching.body position
  | .alternative position => Table.rel_getElem? matching.alternative position
  | .test => matching.test

private theorem rel_bind {First Second : Type} {Matching Following : First → Second → Prop}
    {first : Option First} {second : Option Second} {nextFirst : First → Option First}
    {nextSecond : Second → Option Second} (one : Option.Rel Matching first second)
    (next : ∀ {left right}, Matching left right →
      Option.Rel Following (nextFirst left) (nextSecond right)) :
    Option.Rel Following (first.bind nextFirst) (second.bind nextSecond) := by
  cases one with
  | none => exact .none
  | some both => exact next both

private theorem map_eq_of_rel {First Second Common : Type} {Matching : First → Second → Prop}
    {first : Option First} {second : Option Second} {ofFirst : First → Common}
    {ofSecond : Second → Common} (one : Option.Rel Matching first second)
    (same : ∀ {left right}, Matching left right → ofSecond right = ofFirst left) :
    second.map ofSecond = first.map ofFirst := by
  cases one with
  | none => rfl
  | some both => exact congrArg some (same both)

/-- The instructions at a position before and after filling in are filled in from one another. -/
theorem FilledFrom.descend : ∀ {path : List Instruction.Turn} {template instruction : Instruction},
    FilledFrom template instruction →
      Option.Rel FilledFrom (template.at? path) (instruction.at? path)
  | [], _, _, filled => .some filled
  | turn :: _, _, _, ⟨_, applied⟩ =>
      rel_bind ((matches_of_apply applied).below turn) fun inner => inner.descend

/-- Filling in keeps the operation, the fixed texts and the numbers of instructions below at every
position of a tree, and with them the number of its instructions. -/
theorem frames_of_apply {substitution : Substitution} {template instruction : Instruction}
    (applied : substitution.apply template = .ok instruction) :
    (∀ path : List Instruction.Turn,
      (instruction.at? path).map Instruction.frame = (template.at? path).map Instruction.frame) ∧
      instruction.nodeCount = template.nodeCount := by
  have filled : FilledFrom template instruction := ⟨substitution, applied⟩
  constructor
  · intro path
    exact map_eq_of_rel filled.descend fun ⟨_, inner⟩ => (matches_of_apply inner).frame_eq
  · rw [← Instruction.length_opcodes, ← Instruction.length_opcodes, opcodes_of_apply applied]

/-- The counter of a loop and the parameter of a template keep their names although the same names
are bound outside, and the layers in the branch keep their places under new names. -/
theorem frames_of_nested_tree :
    let substitution : Substitution :=
      ⟨[("i", "7"), ("p", "q"), ("n", "3")], [("h", "h__m_0000")]⟩
    let dense : String → Instruction := fun name => .layer
      ⟨"dense", name, some (.expression "[n * 2]"), none, none, none, none, none, none, [], [],
        [], [], none⟩
    let template : Instruction := .program
      [.loop "i" "1" "[n]" [.connect "h" "a_[i]"],
       .branch (some "b") (.condition "n > 1") [dense "h", .otherwise [dense "x_[n]"]] [.file "n"],
       .templateDef "m" ["p"] [dense "p", .constant "n" "[n] + 1"]]
    ∃ instruction, substitution.apply template = .ok instruction ∧
      (∀ path : List Instruction.Turn,
        (instruction.at? path).map Instruction.frame =
          (template.at? path).map Instruction.frame) ∧
      instruction.nodeCount = template.nodeCount := by
  intro substitution dense template
  have filled : (substitution.apply template).toOption.isSome = true := by decide +kernel
  cases applied : substitution.apply template with
  | error fault =>
      rw [applied] at filled
      cases filled
  | ok instruction => exact ⟨instruction, rfl, frames_of_apply applied⟩

end Substitution

end NetBlueprint
