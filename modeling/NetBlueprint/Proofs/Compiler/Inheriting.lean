import NetBlueprint.Proofs.Compiler.Bookkeeping
import NetBlueprint.Proofs.Compiler.Children
import NetBlueprint.Proofs.Compiler.Turning
import NetBlueprint.Proofs.Program.Encoding

/-!
Contract: what holds of every instruction that a run comes to.

A run takes what it compiles from the bodies of instructions, from the registry and from the
templates, and fills it in on the way. So a property that instructions pass on to those inside them
and keep when they are filled in holds of everything that a run comes to if it holds of its program.

Owns: such properties, and that a run passes them on.

Does not own: any property in particular.
-/

namespace NetBlueprint

namespace Instruction

/-- A property that instructions pass on to those inside them, and that filling in keeps. -/
structure Inherited (Has : Instruction → Prop) : Prop where
  inside : ∀ {instruction child : Instruction}, Has instruction → child ∈ instruction.inside →
    Has child
  filled : ∀ {substitution : Substitution} {template instruction : Instruction}, Has template →
    substitution.apply template = .ok instruction → Has instruction

variable {Has : Instruction → Prop}

private theorem has_of_mem_offered {registry : List (String × Instruction)} {name : String}
    {instruction : Instruction} (registered : ∀ entry ∈ registry, Has entry.2)
    (has : Has instruction) : ∀ entry ∈ CompileState.offered registry name instruction,
      Has entry.2 := by
  intro entry member
  rcases CompileState.mem_offered member with old | ⟨_, new⟩
  · exact registered entry old
  · exact new ▸ has

mutual

/-- Whatever an instruction registers inherits from it. -/
theorem Inherited.prescan (inherited : Inherited Has) :
    ∀ {registry : List (String × Instruction)} {instruction : Instruction},
      (∀ entry ∈ registry, Has entry.2) → Has instruction →
      ∀ entry ∈ Instruction.prescan registry instruction, Has entry.2 := by
  intro registry instruction registered has
  cases instruction with
  | layer spec | templateDef name parameters body =>
      rw [Instruction.prescan]
      split
      · rename_i forward
        cases declaredName?_of_forwardName? forward
        exact has_of_mem_offered registered has
      · exact registered
  | moduleDef name inputs outputs body =>
      rw [Instruction.prescan]
      refine inherited.prescanAll ?_ fun child member => inherited.inside has member
      split
      · rename_i forward
        cases declaredName?_of_forwardName? forward
        exact has_of_mem_offered registered has
      · exact registered
  | program body | block body | expand group annotations body =>
      exact inherited.prescanAll registered fun child member => inherited.inside has member
  | _ => exact registered

/-- What holds of a body holds of all that it registers. -/
theorem Inherited.prescanAll (inherited : Inherited Has) :
    ∀ {registry : List (String × Instruction)} {body : List Instruction},
      (∀ entry ∈ registry, Has entry.2) → (∀ child ∈ body, Has child) →
      ∀ entry ∈ Instruction.prescanAll registry body, Has entry.2
  | _, [], registered, _ => registered
  | _, _ :: _, registered, each => by
      obtain ⟨head, tail⟩ := List.forall_mem_cons.1 each
      rw [Instruction.prescanAll]
      exact inherited.prescanAll (inherited.prescan registered head) tail

end

/-- Filling in one substitution after the other keeps an inherited property. -/
theorem Inherited.filledAll (inherited : Inherited Has) {substitutions : List Substitution}
    {template instruction : Instruction} (has : Has template)
    (filled : Substitution.Filled Substitution.apply substitutions template instruction) :
    Has instruction := by
  induction filled with
  | done => exact has
  | next applied _ inductionHypothesis => exact inductionHypothesis (inherited.filled has applied)

/-- The children that an instruction compiles inherit from it. -/
theorem Inherited.childAt (inherited : Inherited Has) {instruction child : Instruction}
    {position : Nat} (has : Has instruction)
    (found : Compile.childAt instruction position = some child) : Has child := by
  cases instruction with
  | program _ | block _ | moduleDef _ _ _ _ | expand _ _ _ | loop _ _ _ _ =>
      exact inherited.inside has (List.mem_of_getElem? found)
  | branch name test body alternative =>
      have within {inner : Instruction} (member : inner ∈ body ∨ inner ∈ alternative) : Has inner :=
        inherited.inside has (List.mem_cons_of_mem _ (List.mem_append.2 member))
      rcases Compile.mem_of_mem_sides (List.mem_of_getElem? found) with
        first | given | ⟨marked, marks, inMarked⟩
      · exact within (.inl first)
      · exact within (.inr given)
      · exact inherited.inside (within (.inl marks)) inMarked
  | _ => cases found

/-! ## Properties of the parts of a tree -/

/-- Whatever stands inside a filled instruction is filled in from what stands inside its
template. -/
theorem exists_inside_of_apply {substitution : Substitution}
    {template instruction child : Instruction} (applied : substitution.apply template = .ok instruction)
    (member : child ∈ instruction.inside) :
    ∃ other ∈ template.inside, ∃ used : Substitution, used.apply other = .ok child := by
  have ofAll {used : Substitution} {templates body : List Instruction}
      (fills : used.applyAll templates = .ok body) (isChild : child ∈ body) :
      ∃ other ∈ templates, ∃ used : Substitution, used.apply other = .ok child := by
    obtain ⟨other, isOther, filled⟩ :=
      Table.exists_of_mem_right (Substitution.forall₂_of_applyAll fills) isChild
    exact ⟨other, isOther, used, filled⟩
  cases template with
  | program _ | block _ | templateDef _ _ _ | otherwise _ =>
      obtain ⟨_, fills, same⟩ := Outcome.bind_eq_ok.1 applied
      cases Outcome.pure_eq_ok.1 same
      exact ofAll fills member
  | moduleDef _ _ _ _ =>
      iterate 3 obtain ⟨_, _, applied⟩ := Outcome.bind_eq_ok.1 applied
      obtain ⟨_, fills, same⟩ := Outcome.bind_eq_ok.1 applied
      cases Outcome.pure_eq_ok.1 same
      exact ofAll fills member
  | loop _ _ _ _ | expand _ _ _ =>
      iterate 2 obtain ⟨_, _, applied⟩ := Outcome.bind_eq_ok.1 applied
      obtain ⟨_, fills, same⟩ := Outcome.bind_eq_ok.1 applied
      cases Outcome.pure_eq_ok.1 same
      exact ofAll fills member
  | branch _ test body alternative =>
      obtain ⟨_, _, rest⟩ := Outcome.bind_eq_ok.1 applied
      obtain ⟨_, fillsTest, rest⟩ := Outcome.bind_eq_ok.1 rest
      obtain ⟨_, fillsBody, rest⟩ := Outcome.bind_eq_ok.1 rest
      obtain ⟨_, fillsAlternative, same⟩ := Outcome.bind_eq_ok.1 rest
      cases Outcome.pure_eq_ok.1 same
      rcases List.mem_cons.1 member with rfl | member
      · exact ⟨test, List.mem_cons_self, _, fillsTest⟩
      rcases List.mem_append.1 member with first | second
      · obtain ⟨other, isOther, filled⟩ := ofAll fillsBody first
        exact ⟨other, List.mem_cons_of_mem _ (List.mem_append_left _ isOther), filled⟩
      · obtain ⟨other, isOther, filled⟩ := ofAll fillsAlternative second
        exact ⟨other, List.mem_cons_of_mem _ (List.mem_append_right _ isOther), filled⟩
  | _ =>
      have sameOpcode := Substitution.opcode_of_apply applied
      cases instruction with
      | program _ | block _ | moduleDef _ _ _ _ | loop _ _ _ _ | branch _ _ _ _
      | templateDef _ _ _ | expand _ _ _ | otherwise _ => cases sameOpcode
      | _ => cases member

/-- Every part of a filled instruction is filled in from a part of its template. -/
theorem exists_node_of_apply {substitution : Substitution} {template instruction node : Instruction}
    (applied : substitution.apply template = .ok instruction) (member : node ∈ instruction.nodes) :
    ∃ origin ∈ template.nodes, ∃ used : Substitution, used.apply origin = .ok node := by
  induction deep : (Program.toValue instruction).depth using Nat.strongRecOn
    generalizing substitution template instruction with
  | ind depth inductionHypothesis =>
      rw [nodes_eq instruction] at member
      rcases List.mem_cons.1 member with rfl | below
      · exact ⟨template, template.self_mem_nodes, substitution, applied⟩
      · obtain ⟨child, isChild, inChild⟩ := List.mem_flatMap.1 below
        obtain ⟨other, isOther, used, filled⟩ := exists_inside_of_apply applied isChild
        obtain ⟨origin, isOrigin, last, lastFilled⟩ := inductionHypothesis _
          (deep ▸ Program.depth_lt_of_mem_inside isChild) filled inChild rfl
        exact ⟨origin, nodes_subset_of_mem_inside isOther isOrigin, last, lastFilled⟩

/-- A property of every part of a tree is inherited if filling in keeps it. -/
theorem Inherited.of_nodes
    (filled : ∀ {substitution : Substitution} {template instruction : Instruction}, Has template →
      substitution.apply template = .ok instruction → Has instruction) :
    Inherited fun instruction => ∀ node ∈ instruction.nodes, Has node where
  inside each isChild node member := each node (nodes_subset_of_mem_inside isChild member)
  filled each applied node member := by
    obtain ⟨origin, isOrigin, _, fills⟩ := exists_node_of_apply applied member
    exact filled (each origin isOrigin) fills

end Instruction

/-- A property holds of whatever is registered and of every template. -/
structure CompileState.Stocked (Has : Instruction → Prop) (state : CompileState) : Prop where
  registered : ∀ entry ∈ state.registry, Has entry.2
  templates : ∀ {name definition}, state.network.template? name = some definition → Has definition

namespace Compile

open CompileState Instruction

def stock (state : CompileState) : List (String × Instruction) × List (String × Instruction) :=
  (state.registry, state.network.templates)

private theorem steady_stock : Steady stock :=
  fun books _ templates => Prod.ext (congrArg Books.registry books) templates

section Steps

variable {Has : Instruction → Prop} {before after : CompileState} {inner : List Visit}
  {name : String} {instruction : Instruction}

/-- A step after which a property still holds of whatever can be compiled by name. -/
def Restocks (Has : Instruction → Prop) (before after : CompileState) : Prop :=
  before.Stocked Has → after.Stocked Has

private theorem Restocks.of_stock (same : stock after = stock before) :
    Restocks Has before after := by
  intro stocked
  obtain ⟨registry, templates⟩ := Prod.mk.inj same
  refine ⟨fun entry member => stocked.registered entry (registry ▸ member), fun found => ?_⟩
  rw [Network.template?, templates] at found
  exact stocked.templates found

/-- What leaves registry and templates alone restocks nothing. -/
theorem Restocks.of_keeps {Result : Type} {action : CompileM Result} {result : Result}
    (keeps : Keeps stock action) (ran : Runs action before result after) :
    Restocks Has before after :=
  .of_stock (keeps _ _ _ ran)

private theorem restocks_of_takeAhead {taken : Bool}
    (ran : Runs (takeAhead name instruction) before taken after) : Restocks Has before after := by
  intro stocked
  have rest := runs_get_bind.1 ran
  split at rest
  · obtain ⟨_, _, replaced, last⟩ := runs_bind.1 rest
    obtain ⟨rfl, rfl⟩ := runs_pure.1 last
    rw [runs_set.1 replaced]
    exact ⟨fun entry member => stocked.registered entry (List.mem_filter.1 member).1,
      stocked.templates⟩
  · obtain ⟨rfl, rfl⟩ := runs_pure.1 rest
    exact stocked

private theorem restocks_of_layer {spec : LayerSpec} (ran : Runs (layer spec) before () after) :
    Restocks Has before after := by
  intro stocked
  obtain ⟨_, _, takes, same⟩ := exists_taken_of_layer steady_stock ran
  exact Restocks.of_stock same (restocks_of_takeAhead takes stocked)

/-- Turning to a name leaves registry and templates alone. -/
theorem keepsStock_startAhead (name : String) : Keeps stock (startAhead name) := by
  refine keeps_get_bind fun state => ?_
  split
  · exact keeps_pure _
  split
  · exact keeps_pure _
  · exact keeps_pure _
  · exact keeps_bind (keeps_modify fun _ => rfl) fun _ => keeps_bind (keeps_log steady_stock _)
      fun _ => keeps_bind (keeps_modify fun _ => rfl) fun _ => keeps_pure _

/-- A template that is registered has the property if its definition has it. -/
theorem stocked_registerTemplate (stocked : before.Stocked Has) (name : String)
    (has : Has instruction) :
    CompileState.Stocked Has
      { before with network := before.network.registerTemplate name instruction } := by
  refine ⟨stocked.registered, fun found => ?_⟩
  rcases Network.template?_registerTemplate found with ⟨_, rfl⟩ | earlier
  · exact has
  · exact stocked.templates earlier

private theorem restocks_of_templateDef {parameters : List String} {body : List Instruction}
    (has : Has (.templateDef name parameters body))
    (ran : Runs (templateDef name parameters body) before () after) :
    Restocks Has before after := by
  intro stocked
  obtain ⟨_, defined, defines, logs⟩ := runs_bind.1 ran
  have same := keeps_log steady_stock _ _ _ _ logs
  rw [runs_modify.1 defines] at same
  exact Restocks.of_stock same (stocked_registerTemplate stocked name has)

/-- What a call finds has the property. -/
theorem stocked_of_findTemplate {found : Option Instruction} (stocked : before.Stocked Has)
    (ran : Runs (findTemplate name) before found after) :
    after.Stocked Has ∧ ∀ definition ∈ found, Has definition := by
  cases finds_of_findTemplate ran with
  | defined isDefined =>
      refine ⟨stocked, fun other isFound => ?_⟩
      cases isFound
      exact stocked.templates isDefined
  | registered _ isRegistered _ =>
      have has := stocked.registered _ (Table.mem_of_lookup isRegistered)
      refine ⟨stocked_registerTemplate stocked name has, fun other isFound => ?_⟩
      cases isFound
      exact has
  | missing _ _ => exact ⟨stocked, fun _ isFound => by cases isFound⟩

/-- The template that a call opens has the property. -/
theorem stocked_of_openTemplate {args : List String} {opened : OpenTemplate}
    (stocked : before.Stocked Has) (ran : Runs (openTemplate name args) before opened after) :
    after.Stocked Has ∧ ∃ declared, Has (.templateDef declared opened.parameters opened.body) := by
  obtain ⟨finds, _, draws, _⟩ := runs_openTemplate_iff.1 ran
  obtain ⟨searched, has⟩ := stocked_of_findTemplate stocked finds
  have drawn := keeps_freshSuffix steady_stock _ _ _ _ draws
  exact ⟨Restocks.of_stock drawn searched, _, has _ rfl⟩

/-! ## Constructs -/

private theorem Ahead.restocks (ahead : Ahead name before inner after) :
    Way (Restocks Has) before inner after := by
  cases ahead with
  | skipped started => exact .step (.of_keeps (keepsStock_startAhead name) started) (.done _)
  | turned started finished =>
      exact .step (.of_keeps (keepsStock_startAhead name) started)
        (.visit (.step (.of_stock (by rw [runs_modify.1 finished]; rfl)) (.done _)))

private theorem Ensured.restocks {scope : ScopeId} {endpoint : String}
    (ensured : Ensured scope endpoint before inner after) :
    Way (Restocks Has) before inner after := by
  cases ensured with
  | known known => exact .step (.of_keeps (keeps_isUnknown _ _) known) (.done _)
  | unknown unknown ahead =>
      exact .step (.of_keeps (keeps_isUnknown _ _) unknown) ahead.restocks

private theorem Rooted.restocks {label : String} {body : List Instruction} {root : Option LayerId}
    (rooted : Rooted label body before inner root after) :
    Way (Restocks Has) before inner after := by
  cases rooted with
  | absent => exact .done _
  | compiled entered filled left =>
      exact .step (.of_keeps (keeps_enterBranch steady_stock (fun _ => rfl) _ _) entered)
        (filled.way.then_step (.of_keeps (keeps_leaveBranch (fun _ _ => rfl) _) left))

/-- Every instruction with the property is a way of steps that restock, and of visits. -/
theorem Unfolds.restocks (has : Has instruction) (unfolds : Unfolds instruction before inner after) :
    Way (Restocks Has) before inner after := by
  cases unfolds with
  | program sequence => exact sequence.way
  | block sequence => exact sequence.way
  | layer ran => exact .step (restocks_of_layer ran) (.done _)
  | connect starts sourceEnsured targetEnsured finishes =>
      exact .step (.of_keeps (keeps_startConnect steady_stock _ _) starts)
        ((sourceEnsured.restocks.append targetEnsured.restocks).then_step
          (.of_keeps (keeps_finishConnect steady_stock _ _ _) finishes))
  | moduleTaken takes logs =>
      exact .step (restocks_of_takeAhead takes)
        (.step (.of_keeps (keeps_log steady_stock _) logs) (.done _))
  | moduleDef takes logs children finishes =>
      exact .step (restocks_of_takeAhead takes)
        (.step (.of_keeps (keeps_log steady_stock _) logs)
          (children.way.then_step (.of_keeps (keeps_finishModule steady_stock _ _) finishes)))
  | loop opens rounds =>
      exact .step (.of_keeps (keeps_loopRange steady_stock _ _ _ _) opens) rounds.way
  | branch plans thenRooted elseRooted finishes =>
      exact .step (.of_keeps (keeps_planBranch steady_stock _ _ _ _) plans)
        ((thenRooted.restocks.append elseRooted.restocks).then_step
          (.of_keeps (keeps_finishBranch steady_stock _ _ _) finishes))
  | templateDef ran => exact .step (restocks_of_templateDef has ran) (.done _)
  | templateCall opens filled | call opens filled =>
      exact .step (fun stocked => (stocked_of_openTemplate stocked opens).1) filled.way
  | expand opens sequence =>
      exact .step (.of_keeps (keeps_startExpand steady_stock _ _ _) opens) sequence.way

/-- What is compiled ahead is registered. -/
theorem Ahead.has (ahead : Ahead name before inner after) {visit : Visit} (member : visit ∈ inner)
    (stocked : visit.before.Stocked Has) : Has visit.instruction := by
  cases ahead.outcome with
  | skipped => cases member
  | turned _ turns =>
      cases List.mem_singleton.1 member
      obtain ⟨registry, _⟩ := Books.mk.inj turns.books
      exact stocked.registered _ (registry ▸ Table.mem_of_lookup turns.registered)

/-- What an endpoint is compiled ahead for has the property of what is registered. -/
theorem Ensured.has {scope : ScopeId} {endpoint : String}
    (ensured : Ensured scope endpoint before inner after) {visit : Visit} (member : visit ∈ inner)
    (stocked : visit.before.Stocked Has) : Has visit.instruction := by
  cases ensured with
  | known => cases member
  | unknown _ ahead => exact ahead.has member stocked

end Steps

end Compile

namespace Visit

open Compile Instruction

variable {Has : Instruction → Prop} {visit below : Visit}

/-- A visit passes an inherited property on to the visits directly below it. -/
theorem Faithful.has_of_inner (inherited : Inherited Has) (faithful : visit.Faithful)
    (has : Has visit.instruction) (stocked : visit.before.Stocked Has)
    (member : below ∈ visit.inner) (belowStocked : below.before.Stocked Has) :
    Has below.instruction := by
  obtain ⟨position, found⟩ := List.getElem?_of_mem member
  by_cases own : (visit.instruction.opcode ≠ .templateCall ∧ visit.instruction.opcode ≠ .call) ∧
      visit.instruction.opcode ≠ .connect
  · obtain ⟨child, isChild⟩ := faithful.exists_childAt found own.1 own.2
    obtain ⟨_, _, filled⟩ := faithful.filled found isChild
    exact inherited.filledAll (inherited.childAt has isChild) filled
  have unfolds := faithful.unfolds
  obtain ⟨instruction, before, after, inner⟩ := visit
  dsimp only at found member stocked own unfolds
  -- The body of a template stands in the template, not in its call.
  have called {opened : OpenTemplate} {start : CompileState}
      (sequence : Sequence (FilledIn opened.substitution) opened.body start inner after)
      (defined : ∃ declared, Has (.templateDef declared opened.parameters opened.body)) :
      Has below.instruction := by
    obtain ⟨template, isTemplate, filled⟩ := sequence.matching found
    obtain ⟨_, defined⟩ := defined
    exact inherited.filled (inherited.inside defined (List.mem_of_getElem? isTemplate)) filled
  cases unfolds with
  | connect _ sourceEnsured targetEnsured _ =>
      rcases List.mem_append.1 member with first | second
      · exact sourceEnsured.has first belowStocked
      · exact targetEnsured.has second belowStocked
  | templateCall opens filled | call opens filled =>
      exact called filled (stocked_of_openTemplate stocked opens).2
  | _ =>
      refine absurd ⟨⟨?_, ?_⟩, ?_⟩ own
      all_goals
        intro same
        cases same

/-- Whatever is visited below a visit inherits from its instruction, and from what is registered and
defined before it. -/
theorem Faithful.inherits (inherited : Inherited Has) (faithful : visit.Faithful) :
    Has visit.instruction → visit.before.Stocked Has →
      visit.after.Stocked Has ∧ ∀ below : Visit, below.Within visit → Has below.instruction := by
  induction faithful with
  | @intro visit unfolds inner inductionHypothesis =>
      intro has stocked
      have faithful : visit.Faithful := .intro unfolds inner
      have hands {below : Visit} (member : below ∈ visit.inner)
          (belowStocked : below.before.Stocked Has) : Has below.instruction :=
        faithful.has_of_inner inherited has stocked member belowStocked
      have visited : ∀ below ∈ visit.inner, below.before.Stocked Has → below.after.Stocked Has :=
        fun below member belowStocked =>
          (inductionHypothesis below member (hands member belowStocked) belowStocked).1
      have way : Way (Restocks Has) visit.before visit.inner visit.after := unfolds.restocks has
      refine ⟨way.keeps (fun step => step) visited stocked, fun lowest within => ?_⟩
      cases within with
      | self => exact has
      | under member within =>
          rename_i middle
          obtain ⟨earlier, part, wayUp⟩ := way.up_to member
          have middleStocked : middle.before.Stocked Has :=
            wayUp.keeps (fun step => step) (fun below isEarlier => visited below (part isEarlier))
              stocked
          exact (inductionHypothesis middle member (hands member middleStocked) middleStocked).2
            lowest within

end Visit

namespace Compile

open Instruction

/-- What can be compiled by name after an instruction inherits from it, and from what could be
compiled by name before it. -/
theorem stocked_of_within {Has : Instruction → Prop} (inherited : Inherited Has) {depth : Nat}
    {instruction : Instruction} {before after : CompileState}
    (ran : Runs (within depth instruction) before () after) (has : Has instruction)
    (stocked : before.Stocked Has) : after.Stocked Has := by
  obtain ⟨_, watches⟩ := watches_within _ _ ran []
  obtain ⟨inner, rfl⟩ := exists_visit_of_watched watches
  obtain ⟨_, same, faithful, _⟩ := (notes_watched depth instruction).of_runs watches
  rw [List.nil_append] at same
  subst same
  exact ((faithful _ (List.mem_singleton_self _)).inherits inherited has stocked).1

/-- No template is there before the first instruction. -/
theorem keepsTemplates_prepare (name : String) (program : Instruction) :
    Keeps (fun state => state.network.templates) (prepare name program) :=
  keeps_bind (keeps_log steady_templates _) fun _ => keeps_bind (keeps_modify fun _ => rfl) fun _ =>
    keeps_get_bind fun _ => keeps_log steady_templates _

/-- Whatever a run comes to inherits from its program. -/
theorem RootOf.inherits {Has : Instruction → Prop} (inherited : Inherited Has) {name : String}
    {seed : UInt64} {program : Instruction} {compiled : Compiled} {root visit : Visit}
    (rootOf : RootOf name seed program compiled root) (has : Has program)
    (within : visit.Within root) : Has visit.instruction := by
  have stocked : root.before.Stocked Has := by
    obtain ⟨registry, _⟩ := Books.mk.inj (books_of_prepare rootOf.prepared)
    have templates : root.before.network.templates = [] :=
      keepsTemplates_prepare _ _ _ _ _ rootOf.prepared
    refine ⟨fun entry member => ?_, fun found => ?_⟩
    · rw [registry] at member
      exact inherited.prescan (fun _ absent => absurd absent List.not_mem_nil) has entry member
    · rw [Network.template?, templates] at found
      cases found
  rw [← rootOf.instruction] at has
  exact (rootOf.faithful.inherits inherited has stocked).2 visit within

end Compile

end NetBlueprint
