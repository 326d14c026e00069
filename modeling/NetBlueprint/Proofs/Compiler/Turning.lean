import NetBlueprint.Proofs.Compiler.Forwarding
import NetBlueprint.Proofs.Compiler.OwnSteps

/-!
Contract: where a declaration that is passed over was compiled.

A name stands on the list of names compiled ahead only if a visit was turned to under it, and
nothing is registered that was not registered at first. So a declaration that is passed over was
compiled by another visit, that of what is registered under its name, and this visit was not passed
over itself. Hence a run comes to everything that its program offers, up to what the comparison of
declarations cannot tell apart.

Owns: the visits that were turned to, and that a run comes to what its program offers.
-/

namespace NetBlueprint

/-- A visit is one of what was registered under a name, compiled ahead under this name. -/
structure Visit.TurnedTo (name : String) (visit : Visit) : Prop where
  registered : visit.before.registry.lookup name = some visit.instruction
  notCompiled : name ∉ visit.before.compiledAhead

/-- Decides whether a visit is one of a declaration that is passed over. -/
def Visit.isPassed (visit : Visit) : Bool :=
  visit.instruction.declaredName?.any fun name => visit.before.waits name visit.instruction

namespace Instruction

/-- The body of an instruction outside of loops, branches and templates. -/
def openBody : Instruction → List Instruction
  | .program body | .block body | .expand _ _ body | .moduleDef _ _ _ body => body
  | _ => []

/-- The comparison of declarations does not tell instructions apart, in some steps. -/
def Alike : Instruction → Instruction → Prop :=
  Relation.ReflTransGen fun left right => left.same right = true

private theorem exists_same_of_sameAll : ∀ {lefts rights : List Instruction} {child : Instruction},
    sameAll lefts rights = true → child ∈ rights → ∃ other ∈ lefts, other.same child = true
  | left :: lefts, right :: rights, child, agree, member => by
      rw [sameAll, Bool.and_eq_true] at agree
      rcases List.mem_cons.1 member with rfl | later
      · exact ⟨left, List.mem_cons_self, agree.1⟩
      · obtain ⟨other, isOther, same⟩ := exists_same_of_sameAll agree.2 later
        exact ⟨other, List.mem_cons_of_mem _ isOther, same⟩
  | [], _ :: _, _, agree, _ => by cases agree

/-- Instructions that agree have bodies that agree. -/
theorem exists_same_child {left right child : Instruction} (agree : left.same right = true)
    (member : child ∈ right.openBody) : ∃ other ∈ left.openBody, other.same child = true := by
  cases right with
  | program body | block body | expand group annotations body | moduleDef name inputs outputs body =>
      cases left with
      | program _ | block _ | expand _ _ _ | moduleDef _ _ _ _ =>
          first
            | exact exists_same_of_sameAll agree member
            | exact exists_same_of_sameAll (Bool.and_eq_true_iff.1 agree).2 member
            | cases agree
      | _ => cases agree
  | _ => cases member

/-- Instructions that are alike have bodies that are alike. -/
theorem Alike.exists_child {left right child : Instruction} (alike : left.Alike right)
    (member : child ∈ right.openBody) : ∃ other ∈ left.openBody, other.Alike child := by
  induction alike using Relation.ReflTransGen.head_induction_on with
  | refl => exact ⟨child, member, .refl⟩
  | head same _ inductionHypothesis =>
      obtain ⟨middle, isMiddle, alike⟩ := inductionHypothesis
      obtain ⟨other, isOther, isSame⟩ := exists_same_child same isMiddle
      exact ⟨other, isOther, .head isSame alike⟩

/-- Declarations of layers that are alike have the same type, name and size. -/
theorem Alike.layer {left : Instruction} {spec : LayerSpec} (alike : left.Alike (.layer spec)) :
    ∃ other, left = .layer other ∧ other.layerType = spec.layerType ∧ other.name = spec.name ∧
      other.size = spec.size := by
  induction alike using Relation.ReflTransGen.head_induction_on with
  | refl => exact ⟨spec, rfl, rfl, rfl, rfl⟩
  | @head first second same _ inductionHypothesis =>
      obtain ⟨middle, rfl, layerType, name, size⟩ := inductionHypothesis
      cases first with
      | layer other =>
          simp only [Instruction.same, LayerSpec.same, Bool.and_eq_true, beq_iff_eq] at same
          obtain ⟨⟨⟨⟨⟨⟨⟨⟨⟨⟨⟨⟨⟨sameType, sameName⟩, sameSize⟩, _⟩, _⟩, _⟩, _⟩, _⟩, _⟩, _⟩, _⟩, _⟩, _⟩, _⟩ :=
            same
          exact ⟨other, rfl, sameType.trans layerType, sameName.trans name, sameSize.trans size⟩
      | _ => cases same

end Instruction

namespace Compile

open CompileState

/-- A step enters nothing in the registry, and puts a name on the list of names compiled ahead only
after one of some visits was turned to under it. -/
structure Traces (visits : List Visit) (before after : CompileState) : Prop where
  grows : before.GrowsTo after
  remains : ∀ {key found}, after.registry.lookup key = some found →
    before.registry.lookup key = some found
  origin : ∀ key ∈ after.compiledAhead, key ∈ before.compiledAhead ∨
    ∃ visit ∈ visits, visit.TurnedTo key ∧ visit.after.GrowsTo after

section Steps

variable {before between after : CompileState} {inner visits : List Visit} {name : String}

theorem Traces.of_books (grows : before.GrowsTo after) (books : after.books = before.books) :
    Traces visits before after := by
  obtain ⟨registry, compiled, _⟩ := Books.mk.inj books
  exact ⟨grows, fun found => registry ▸ found, fun _ member => .inl (compiled ▸ member)⟩

theorem Traces.of_quiet (quiet : before.Quiet after) (books : after.books = before.books) :
    Traces visits before after :=
  .of_books quiet.grows books

private theorem traces_of_takeAhead {instruction : Instruction} {taken : Bool}
    (ran : Runs (takeAhead name instruction) before taken after) : Traces visits before after := by
  rcases runs_takeAhead ran with ⟨_, takes⟩ | ⟨_, rfl, _⟩
  · obtain ⟨_, compiled, _⟩ := Books.mk.inj takes.books
    refine ⟨(isQuiet_takeAhead _ _ _ _ _ ran).grows, takes.shrinks, fun key member => .inl ?_⟩
    rw [compiled] at member
    exact List.mem_of_mem_erase member
  · exact .of_books (.refl _) rfl

/-- Once a declaration has asked whether it is passed over it is steady. -/
theorem exists_taken_of_layer {Field : Type} {field : CompileState → Field} (steady : Steady field)
    {spec : LayerSpec} (ran : Runs (layer spec) before () after) :
    ∃ taken asked, Runs (takeAhead spec.name (.layer spec)) before taken asked ∧
      field after = field asked := by
  obtain ⟨taken, asked, takes, rest⟩ := runs_bind.1 ran
  refine ⟨taken, asked, takes, ?_⟩
  split at rest
  · exact keeps_log steady _ _ _ _ rest
  refine keeps_get_bind (fun state => ?_) _ _ _ rest
  split
  · exact keeps_log steady _
  split
  · refine keeps_get_bind fun _ => ?_
    split
    · exact keeps_bind (keeps_modify fun _ => steady rfl rfl rfl) fun _ => keeps_log steady _
    · exact keeps_newLayer steady spec
  · exact keeps_newLayer steady spec

/-- A declaration only leaves a trace. -/
theorem traces_of_layer {spec : LayerSpec} (ran : Runs (layer spec) before () after) :
    Traces visits before after := by
  have grows := (declares_of_layer ran).leads.grows
  obtain ⟨_, asked, takes, books⟩ := exists_taken_of_layer steady_books ran
  obtain ⟨registry, compiled, _⟩ := Books.mk.inj books
  have traces : Traces [] before asked := traces_of_takeAhead takes
  refine ⟨grows, fun found => traces.remains (registry ▸ found), fun key member => .inl ?_⟩
  exact (traces.origin key (compiled ▸ member)).resolve_right fun ⟨_, absent, _⟩ =>
    List.not_mem_nil absent

private theorem Ahead.traced (ahead : Ahead name before inner after) (among : inner ⊆ visits) :
    Way (Traces visits) before inner after := by
  cases ahead.outcome with
  | skipped => exact .done _
  | @turned visit _ started turns finished =>
      have starts := (isQuiet_startAhead _ _ _ _ started).grows
      have finishes := (isQuiet_finishAhead _ _ _ _ _ finished).grows
      obtain ⟨startRegistry, startCompiled, _⟩ := Books.mk.inj turns.books
      obtain ⟨finishRegistry, finishCompiled, _⟩ := Books.mk.inj (runs_finishAhead finished).1
      have turnedTo : visit.TurnedTo name :=
        ⟨startRegistry ▸ turns.registered, startCompiled ▸ turns.notCompiled⟩
      refine .step ⟨starts, fun found => startRegistry ▸ found, fun _ member => .inl ?_⟩
        (.visit (.step ⟨finishes, fun found => finishRegistry ▸ found, fun key member => ?_⟩
          (.done _)))
      · exact startCompiled ▸ member
      · rw [finishCompiled] at member
        rcases List.mem_cons.1 member with rfl | earlier
        · exact .inr ⟨visit, among (List.mem_singleton_self _), turnedTo, finishes⟩
        · exact .inl earlier

private theorem Ensured.traced {scope : ScopeId} {endpoint : String}
    (ensured : Ensured scope endpoint before inner after) (among : inner ⊆ visits) :
    Way (Traces visits) before inner after := by
  rcases ensured.cases with ⟨_, rfl, rfl⟩ | ⟨_, ahead⟩
  · exact .done _
  · exact ahead.traced among

private theorem Rooted.traced {label : String} {body : List Instruction} {root : Option LayerId}
    (rooted : Rooted label body before inner root after) :
    Way (Traces visits) before inner after := by
  cases rooted with
  | absent => exact .done _
  | compiled entered filled left =>
      exact .step (.of_books (leadsTo_of_enterBranch entered).grows
          (keepsBooks_enterBranch _ _ _ _ _ entered))
        (filled.way.then_step (.of_books (runs_leaveBranch left).1.grows
          (keepsBooks_leaveBranch _ _ _ _ left)))

/-- Every instruction is a way of steps that leave a trace, and of visits. -/
theorem Unfolds.traced {instruction : Instruction}
    (unfolds : Unfolds instruction before inner after) : Way (Traces inner) before inner after := by
  cases unfolds with
  | program sequence => exact sequence.way
  | block sequence => exact sequence.way
  | layer ran => exact .step (traces_of_layer ran) (.done _)
  | connect starts sourceEnsured targetEnsured finishes =>
      exact .step (.of_books (runs_startConnect starts).1.grows
          (keeps_startConnect steady_books _ _ _ _ _ starts))
        (((sourceEnsured.traced (List.subset_append_left _ _)).append
          (targetEnsured.traced (List.subset_append_right _ _))).then_step
            (.of_books (settles_of_finishConnect finishes).grows
              (keeps_finishConnect steady_books _ _ _ _ _ _ finishes)))
  | moduleTaken takes logs =>
      exact .step (traces_of_takeAhead takes)
        (.step (.of_quiet (isQuiet_log _ _ _ _ logs) (keeps_log steady_books _ _ _ _ logs))
          (.done _))
  | moduleDef takes logs children finishes =>
      exact .step (traces_of_takeAhead takes)
        (.step (.of_quiet (isQuiet_log _ _ _ _ logs) (keeps_log steady_books _ _ _ _ logs))
          (children.way.then_step (.of_books
            ((grows_withLayer _ _ _).trans (runs_finishModule finishes).grows)
            (keeps_finishModule steady_books _ _ _ _ _ finishes))))
  | loop opens rounds =>
      exact .step (.of_quiet (isQuiet_loopRange _ _ _ _ _ _ _ opens)
        (keeps_loopRange steady_books _ _ _ _ _ _ _ opens)) rounds.way
  | branch plans thenRooted elseRooted finishes =>
      exact .step (.of_quiet (runs_planBranch plans).1
          (keeps_planBranch steady_books _ _ _ _ _ _ _ plans))
        ((thenRooted.traced.append elseRooted.traced).then_step
          (.of_books ((grows_withLayer _ _ _).trans (still_of_finishBranch finishes).grows)
            (keeps_finishBranch steady_books _ _ _ _ _ _ finishes)))
  | templateDef ran =>
      exact .step (.of_quiet (isQuiet_templateDef _ _ _ _ _ _ ran)
        (keeps_templateDef fixed_books _ _ _ _ _ _ ran)) (.done _)
  | templateCall opens filled | call opens filled =>
      exact .step (.of_quiet (runs_openTemplate opens).1.quiet
        (keeps_openTemplate fixed_books _ _ _ _ _ opens)) filled.way
  | expand opens sequence =>
      exact .step (.of_quiet (isQuiet_startExpand _ _ _ _ _ _ opens)
        (keeps_startExpand steady_books _ _ _ _ _ _ opens)) sequence.way

end Steps

end Compile

namespace Visit

open Compile

variable {root visit : Visit} {name : String}

/-- A name that was compiled ahead where a visit starts was so from the start, or some earlier visit
was turned to under it. -/
theorem Faithful.exists_turned (faithful : root.Faithful) (within : visit.Within root)
    (compiled : name ∈ visit.before.compiledAhead) :
    name ∈ root.before.compiledAhead ∨
      ∃ turned : Visit, turned.Within root ∧ turned.TurnedTo name ∧
        turned.after.GrowsTo visit.before := by
  refine Or.imp_left And.left (faithful.origin_before
    (fun state => name ∈ state.compiledAhead ∧ state.GrowsTo visit.before) within
    (fun outer => outer.unfolds.traced) (fun outer outerWithin _ _ traces has => ?_)
    ⟨compiled, .refl _⟩)
  obtain ⟨member, earlier⟩ := has
  rcases traces.origin name member with before | ⟨turned, isInner, turnedTo, turnedGrows⟩
  · exact .inl ⟨before, traces.grows.trans earlier⟩
  · exact .inr ⟨turned, .trans (.under isInner (.self turned)) outerWithin, turnedTo,
      turnedGrows.trans earlier⟩

/-- What is registered where a visit starts was registered from the start. -/
theorem Faithful.registered (faithful : root.Faithful) (within : visit.Within root)
    {found : Instruction} (registered : visit.before.registry.lookup name = some found) :
    root.before.registry.lookup name = some found := by
  have origin : root.before.registry.lookup name = some found ∨ False :=
    faithful.origin_before (fun state => state.registry.lookup name = some found) within
      (fun outer => outer.unfolds.traced) (fun _ _ _ _ traces has => .inl (traces.remains has))
      registered
  exact origin.resolve_right id

end Visit

namespace Compile

variable {name : String} {seed : UInt64} {program : Instruction} {compiled : Compiled}
  {root visit : Visit}

/-- A module that is not passed over comes to its body, as does whatever only groups. -/
theorem Unfolds.exists_child {before after : CompileState} {inner : List Visit}
    {instruction child : Instruction} (unfolds : Unfolds instruction before inner after)
    (inTurn : Visit.isPassed ⟨instruction, before, after, inner⟩ = false)
    (member : child ∈ instruction.openBody) : ∃ below ∈ inner, below.instruction = child := by
  have listed {body : List Instruction} {before after : CompileState}
      (sequence : Sequence Is body before inner after) (isChild : child ∈ body) :
      ∃ below ∈ inner, below.instruction = child := by
    rw [← sequence.instructions] at isChild
    exact List.mem_map.1 isChild
  cases unfolds with
  | program sequence => exact listed sequence member
  | block sequence => exact listed sequence member
  | expand _ sequence => exact listed sequence member
  | moduleDef _ _ children _ => exact listed children.sequence member
  | moduleTaken takes _ =>
      rw [Visit.isPassed, Instruction.declaredName?, Option.any_some, ← taken_eq_waits takes]
        at inTurn
      cases inTurn
  | _ => cases member

namespace RootOf

variable (rootOf : RootOf name seed program compiled root)

include rootOf

/-- Whatever is registered goes by its name. -/
theorem forwardName?_of_registered {key : String} {found : Instruction} (within : visit.Within root)
    (registered : visit.before.registry.lookup key = some found) :
    found.forwardName? = some key ∧
      (found ∈ program.offers ∨ found.isTemplate = true) := by
  have fromStart := rootOf.faithful.registered within registered
  obtain ⟨registry, _⟩ := Books.mk.inj (books_of_prepare rootOf.prepared)
  rw [registry] at fromStart
  exact Instruction.offered_of_prescan (Table.mem_of_lookup fromStart)

/-- A name was compiled ahead by an earlier visit. -/
theorem exists_turned {key : String} (within : visit.Within root)
    (compiled : key ∈ visit.before.compiledAhead) :
    ∃ turned : Visit, turned.Within root ∧ turned.TurnedTo key ∧
      turned.after.GrowsTo visit.before := by
  refine (rootOf.faithful.exists_turned within compiled).resolve_left fun early => ?_
  obtain ⟨_, nothing, _⟩ := Books.mk.inj (books_of_prepare rootOf.prepared)
  rw [nothing] at early
  cases early

/-- What was turned to is not passed over. -/
theorem not_isPassed_of_turnedTo {key : String} (within : visit.Within root)
    (turnedTo : visit.TurnedTo key) : visit.isPassed = false := by
  obtain ⟨forward, _⟩ := rootOf.forwardName?_of_registered within turnedTo.registered
  rw [Visit.isPassed, Instruction.declaredName?_of_forwardName? forward, Option.any_some,
    CompileState.waits, Bool.and_eq_false_iff]
  exact .inl (Bool.eq_false_iff.2 fun member => turnedTo.notCompiled (List.contains_iff_mem.1 member))

/-- What is passed over was compiled by an earlier visit, which was turned to under its name. -/
theorem exists_turned_of_isPassed (within : visit.Within root) (isPassed : visit.isPassed = true) :
    ∃ turned : Visit, ∃ key, turned.Within root ∧ turned.TurnedTo key ∧
      turned.after.GrowsTo visit.before ∧ visit.instruction.declaredName? = some key ∧
      turned.instruction.same visit.instruction = true := by
  rw [Visit.isPassed, Option.any_eq_true] at isPassed
  obtain ⟨key, isNamed, waits⟩ := isPassed
  rw [CompileState.waits, Bool.and_eq_true, List.contains_iff_mem, Option.any_eq_true] at waits
  obtain ⟨compiled, found, registered, same⟩ := waits
  obtain ⟨turned, turnedWithin, turnedTo, earlier⟩ := rootOf.exists_turned within compiled
  have first := rootOf.faithful.registered within registered
  have second := rootOf.faithful.registered turnedWithin turnedTo.registered
  cases first.symm.trans second
  exact ⟨turned, key, turnedWithin, turnedTo, earlier, isNamed, same⟩

/-- Whatever is come to is compiled in its turn somewhere, as far as the comparison of declarations
can tell. -/
theorem exists_inTurn {instruction : Instruction} (within : visit.Within root)
    (alike : visit.instruction.Alike instruction) :
    ∃ other : Visit, other.Within root ∧ other.instruction.Alike instruction ∧
      other.isPassed = false := by
  cases isPassed : visit.isPassed with
  | false => exact ⟨visit, within, alike, isPassed⟩
  | true =>
      obtain ⟨turned, key, turnedWithin, turnedTo, _, _, same⟩ :=
        rootOf.exists_turned_of_isPassed within isPassed
      exact ⟨turned, turnedWithin, .head same alike,
        rootOf.not_isPassed_of_turnedTo turnedWithin turnedTo⟩

private theorem exists_child {instruction child : Instruction} (within : visit.Within root)
    (alike : visit.instruction.Alike instruction) (member : child ∈ instruction.openBody) :
    ∃ below : Visit, below.Within root ∧ below.instruction.Alike child := by
  obtain ⟨other, otherWithin, otherAlike, inTurn⟩ := rootOf.exists_inTurn within alike
  obtain ⟨part, isPart, partAlike⟩ := otherAlike.exists_child member
  obtain ⟨below, isInner, rfl⟩ :=
    (rootOf.faithful.within otherWithin).unfolds.exists_child inTurn isPart
  exact ⟨below, .trans (.under isInner (.self below)) otherWithin, partAlike⟩

end RootOf

mutual

/-- What an instruction offers that a run comes to is come to. -/
theorem RootOf.comes_to : ∀ {visit : Visit} {instruction offered : Instruction},
    RootOf name seed program compiled root → visit.Within root →
      visit.instruction.Alike instruction → offered ∈ instruction.offers →
      ∃ below : Visit, below.Within root ∧ below.instruction.Alike offered := by
  intro visit instruction offered rootOf within alike member
  cases instruction with
  | layer spec =>
      cases List.mem_singleton.1 member
      exact ⟨visit, within, alike⟩
  | moduleDef name inputs outputs body =>
      rcases List.mem_cons.1 member with rfl | inner
      · exact ⟨visit, within, alike⟩
      · exact rootOf.comes_to_all (fun _ isChild => rootOf.exists_child within alike isChild) inner
  | program body | block body | expand group annotations body =>
      exact rootOf.comes_to_all (fun _ isChild => rootOf.exists_child within alike isChild) member
  | _ => cases member

private theorem RootOf.comes_to_all : ∀ {body : List Instruction} {offered : Instruction},
    RootOf name seed program compiled root →
      (∀ child ∈ body, ∃ visit : Visit, visit.Within root ∧ visit.instruction.Alike child) →
      offered ∈ Instruction.offersAll body →
      ∃ below : Visit, below.Within root ∧ below.instruction.Alike offered
  | first :: rest, offered, rootOf, each, member => by
      obtain ⟨head, tail⟩ := List.forall_mem_cons.1 each
      rcases List.mem_append.1 member with here | later
      · obtain ⟨visit, within, alike⟩ := head
        exact rootOf.comes_to within alike here
      · exact rootOf.comes_to_all tail later

end

/-- A run comes to everything that its program offers, as far as the comparison of declarations can
tell. -/
theorem RootOf.comes_to_offered (rootOf : RootOf name seed program compiled root)
    {offered : Instruction} (member : offered ∈ program.offers) :
    ∃ visit : Visit, visit.Within root ∧ visit.instruction.Alike offered ∧
      visit.isPassed = false := by
  obtain ⟨visit, within, alike⟩ :=
    rootOf.comes_to (.self root) (rootOf.instruction ▸ .refl) member
  exact rootOf.exists_inTurn within alike

end Compile

end NetBlueprint
