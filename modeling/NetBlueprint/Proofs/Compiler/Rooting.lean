import NetBlueprint.Proofs.Compiler.Children
import NetBlueprint.Proofs.Compiler.OwnSteps
import NetBlueprint.Proofs.Substitution.Scanning

/-!
Contract: when a side of a branch has a root.

The root of a side is the first output of its scope. An output that is declared there and compiled
in its turn is one, or finds one of its name there already. But a declaration that waits to be
passed over adds nothing, and whether it waits is decided by the name and the fields of what is
registered: an equal declaration elsewhere in the program that was compiled ahead is enough.

Owns: the outputs that are declared in the scope of a side, and the roots of both sides.
-/

namespace NetBlueprint

/-- A visit is one of the declaration of an output, in a scope. -/
structure Visit.DeclaresOutput (scope : ScopeId) (spec : LayerSpec) (visit : Visit) : Prop where
  declares : visit.instruction = .layer spec
  isOutput : spec.isOutput = true
  stands : visit.before.current = scope

/-- A visit of a declaration adds its layer in its turn, unless an equal one was compiled ahead. -/
def Visit.InTurn (spec : LayerSpec) (visit : Visit) : Prop :=
  visit.before.waits spec.name (.layer spec) = false

namespace Substitution

/-- A suffix does not change the type of an output. -/
theorem isOutput_of_layerSpec {substitution : Substitution} {spec filled : LayerSpec}
    (onlySuffix : ∀ key, substitution.binds key = true → key = suffixKey)
    (fills : substitution.layerSpec spec = .ok filled) (isOutput : spec.isOutput = true) :
    filled.isOutput = true := by
  have lowered : spec.layerType.toList.map Char.toLower = "output".toList := by
    rw [← eq_of_beq isOutput]
    exact String.toList_map.symm
  have unbound : ∀ word ∈ Text.words spec.layerType.toList,
      substitution.binds (String.ofList word) = false := by
    intro word member
    rw [Bool.eq_false_iff]
    intro bound
    have isKey : word = suffixKey.toList := by
      rw [← onlySuffix _ bound, String.toList_ofList]
    have underscore : '_' ∈ spec.layerType.toList :=
      Text.mem_of_mem_words member (isKey ▸ by decide)
    have inLowered := List.mem_map_of_mem (f := Char.toLower) underscore
    rw [lowered] at inLowered
    exact absurd inLowered (by decide)
  have kept := layerType_of_layerSpec fills
  rw [substitute_of_unbound unbound] at kept
  rw [LayerSpec.isOutput, LayerSpec.kind, ← Except.ok.inj kept]
  exact isOutput

end Substitution

/-- An output of a scope stays one. -/
theorem CompileState.GrowsTo.mem_outputsIn {before after : CompileState} {scope : ScopeId}
    {id : LayerId} (grows : before.GrowsTo after) (member : id ∈ before.outputsIn scope) :
    id ∈ after.outputsIn scope := by
  obtain ⟨visible, isOutput⟩ := List.mem_filter.1 member
  refine List.mem_filter.2 ⟨?_, ?_⟩
  · unfold scopeLayers at visible ⊢
    split at visible
    · rename_i found isFound
      obtain ⟨grown, isGrown, _, entries⟩ := grows.scopes isFound
      rw [isGrown]
      rw [List.mem_reverse] at visible ⊢
      exact (entries.map Prod.snd).subset visible
    · cases visible
  · exact Network.isOutputAt_iff.2 (grows.network.ofKind (Network.isOutputAt_iff.1 isOutput))

namespace Compile

open CompileState

section Sides

variable {before after : CompileState} {inner : List Visit} {body : List Instruction}

/-- The visits of a sequence stand in the scope in which it starts. -/
theorem Sequence.stands {Matches : Instruction → Visit → Prop}
    (sequence : Sequence Matches body before inner after)
    (tracked : ∀ visit ∈ inner, Tracked visit) {visit : Visit} (member : visit ∈ inner) :
    visit.before.current = before.current := by
  induction sequence with
  | done => cases member
  | next _ _ inductionHypothesis =>
      obtain ⟨head, tail⟩ := List.forall_mem_cons.1 tracked
      rcases List.mem_cons.1 member with rfl | later
      · rfl
      · exact (inductionHypothesis tail later).trans head.stays

/-- An output that a side lists is declared in its scope. -/
theorem Rooted.exists_declared {label : String} {root : Option LayerId}
    (rooted : Rooted label body before inner root after) (tracked : ∀ visit ∈ inner, Tracked visit)
    {spec : LayerSpec} (listed : .layer spec ∈ body) (isOutput : spec.isOutput = true) :
    ∃ visit ∈ inner, ∃ filled substitution, FilledIn substitution (.layer spec) visit ∧
      visit.DeclaresOutput before.scopes.size filled := by
  have sameLength := rooted.length_eq
  obtain ⟨position, found⟩ := List.mem_iff_getElem?.1 listed
  have inside : position < inner.length := by
    rw [sameLength]
    exact (List.getElem?_eq_some_iff.1 found).1
  have isVisit := List.getElem?_eq_getElem inside
  obtain ⟨_, _, substitution, _, _, onlySuffix, _, template, isTemplate, fills⟩ :=
    rooted.filled isVisit
  cases found.symm.trans isTemplate
  obtain ⟨filled, specFilled, last⟩ := Outcome.bind_eq_ok.1 fills
  have declares := (Outcome.pure_eq_ok.1 last).symm
  refine ⟨inner[position], List.getElem_mem inside, filled, substitution, fills, declares,
    Substitution.isOutput_of_layerSpec onlySuffix specFilled isOutput, ?_⟩
  cases rooted with
  | absent nothing =>
      rw [nothing] at listed
      cases listed
  | compiled entered filled left =>
      obtain ⟨isScope, current, _⟩ := scope_of_enterBranch entered
      exact (filled.stands tracked (List.getElem_mem inside)).trans (current.trans isScope)

end Sides

section Declared

variable {declared : Visit} {scope : ScopeId} {spec : LayerSpec} {id : LayerId}

/-- An output that is declared in its turn leaves an output in its scope. -/
theorem exists_output_of_inTurn (faithful : declared.Faithful) (sound : declared.before.Sound)
    (inside : Inside declared.before) (declares : declared.DeclaresOutput scope spec)
    (inTurn : declared.InTurn spec) : ∃ id, id ∈ declared.after.outputsIn scope := by
  have isOutput := declares.isOutput
  cases layer_outcome (runs_of_layer faithful declares.declares).2 with
  | passed waits _ =>
      rw [Visit.InTurn, waits] at inTurn
      cases inTurn
  | @present found _ _ visible same quiet =>
      rw [sameInterface, Bool.and_eq_true, isOutput] at same
      unfold inCurrentScope? at visible
      rw [declares.stands] at visible
      split at visible
      · rename_i holder isHolder
        obtain ⟨id, shown, isFound⟩ := Option.bind_eq_some_iff.1 visible
        refine ⟨id, ?_⟩
        rw [quiet.outputsIn, outputsIn, scopeLayers, isHolder]
        refine List.mem_filter.2 ⟨List.mem_reverse.2 ?_, ?_⟩
        · exact List.mem_map_of_mem (f := Prod.snd) (Table.mem_of_lookup shown)
        · rw [Network.isOutputAt, isFound, Option.any_some, eq_of_beq same.2]
      · cases visible
  | shared _ isInput _ _ =>
      rw [LayerSpec.isOutput, LayerSpec.isInput] at *
      rw [eq_of_beq isInput] at isOutput
      cases isOutput
  | added _ _ isKind quiet =>
      refine ⟨declared.before.network.size, ?_⟩
      rw [quiet.outputsIn, outputsIn_withLayer sound, ← declares.stands, if_pos]
      · exact List.mem_append_right _ (List.mem_singleton_self _)
      · exact ⟨rfl, inside, (LayerSpec.isOutput_of_layerKind isKind).trans isOutput⟩

/-- A declaration that adds an output declares it, in its turn. -/
theorem declares_of_addsOutput (faithful : declared.Faithful)
    (adds : declared.AddsOutput scope id) :
    ∃ spec, declared.DeclaresOutput scope spec ∧ declared.InTurn spec := by
  obtain ⟨spec, declares⟩ := adds.declares
  have noLayer (nodes : declared.after.network.nodes = declared.before.network.nodes) : False := by
    have own := adds.own
    rw [Visit.ownLayer?_eq_none nodes] at own
    cases own
  cases layer_outcome (runs_of_layer faithful declares).2 with
  | passed _ quiet | present _ _ _ _ quiet => exact (noLayer quiet.nodes).elim
  | shared _ _ _ quiet => exact (noLayer quiet.nodes).elim
  | @added kind inTurn _ isKind quiet =>
      obtain ⟨isOwn, layer, found, node⟩ := Visit.ownLayer?_of_nodes (.refl declared.before)
        (quiet.nodes.trans (declared.before.nodes_withLayer spec.name kind))
      cases isOwn.symm.trans adds.own
      have sameKind : layer.kind = kind := congrArg Layer.kind node
      have isOutput := adds.isOutput
      rw [Network.isOutputAt, found, Option.any_some, sameKind,
        LayerSpec.isOutput_of_layerKind isKind] at isOutput
      exact ⟨spec, ⟨declares, isOutput, adds.stands⟩, inTurn⟩

end Declared

/-! ## Both sides of a branch -/

/-- What becomes of a side of a branch. The outputs that it lists are declared in the scope of the
side. A root is chosen of it exactly if some output that is declared in this scope is compiled in
its turn, and the root is an output that was added in this scope. -/
structure SideRoot (root branch : Visit) (listed : List Instruction) (scope : ScopeId)
    (chosen : Option LayerId) : Prop where
  opened : branch.Opened scope
  declared : ∀ spec, .layer spec ∈ listed → spec.isOutput = true →
    ∃ visit ∈ branch.inner, ∃ filled substitution,
      FilledIn substitution (.layer spec) visit ∧ visit.DeclaresOutput scope filled
  isSome_iff : chosen.isSome = true ↔ ∃ visit spec, Visit.Within visit root ∧
    visit.DeclaresOutput scope spec ∧ visit.InTurn spec
  isOutput : ∀ id, chosen = some id →
    ∃ visit, Visit.Within visit root ∧ visit.AddsOutput scope id

/-- A side of a branch that is compiled opens a scope. -/
theorem Rooted.opens {label : String} {body : List Instruction} {before after : CompileState}
    {inner : List Visit} {root : Option LayerId} (rooted : Rooted label body before inner root after)
    (grow : AllGrow inner) :
    (inner = [] ∧ root = none) ∨ before.scopes.size < after.scopes.size := by
  rcases rooted.cases with ⟨nothing, none, _⟩ | ⟨start, left, sided, _, quiet, _⟩
  · exact .inl ⟨nothing, none⟩
  · have grows := (sided.trail.grows grow).trans quiet.grows
    refine .inr (Nat.lt_of_lt_of_le ?_ grows.scopes_size_le)
    rw [sided.size]
    exact Nat.lt_succ_self _

private theorem Rooted.ne_nil {label : String} {body : List Instruction}
    {before after : CompileState}
    {inner : List Visit} {root : Option LayerId} (rooted : Rooted label body before inner root after)
    (nonempty : body ≠ []) : inner ≠ [] := by
  rintro rfl
  exact nonempty (List.length_eq_zero_iff.1 rooted.length_eq.symm)

section Runs

variable {name : String} {seed : UInt64} {program : Instruction} {compiled : Compiled}
  {root branch : Visit}

namespace RootOf

variable (rootOf : RootOf name seed program compiled root)

include rootOf

/-- A root of a side is among the outputs of its scope in the end. -/
theorem mem_outputsIn_of_sideOf {scope : ScopeId} {side : List Visit} {id : LayerId}
    {start left : CompileState} (within : branch.Within root)
    (sideOf : SideOf branch scope side (some id) start left) :
    id ∈ root.after.outputsIn scope := by
  have isFirst : (left.outputsIn scope).head? = some id := sideOf.sided.root.symm
  exact (sideOf.ends.trans (rootOf.faithful.around within).2).mem_outputsIn
    (List.mem_of_mem_head? isFirst)

/-- A side with a declaration of an output that is compiled in its turn has a root. -/
theorem exists_root_of_inTurn {scope : ScopeId} {declared : Visit} {spec : LayerSpec}
    {chooser : LayerId} (branchWithin : branch.Within root) (opened : branch.Opened scope)
    (own : branch.ownLayer? = some chooser) (within : declared.Within root)
    (declares : declared.DeclaresOutput scope spec) (inTurn : declared.InTurn spec) :
    ∃ id, id ∈ root.after.outputsIn scope ∧ root.after.network.HasRoot chooser id := by
  have faithful := rootOf.faithful.within within
  have sound := rootOf.faithful.sound_before within rootOf.sound
  obtain ⟨id, member⟩ :=
    exists_output_of_inTurn faithful sound (rootOf.inside within) declares inTurn
  have inRoot := ((rootOf.faithful.around within).2.outputsIn (faithful.sound sound) scope).subset
    member
  have inBranch : scope ≠ 0 := by
    rintro rfl
    exact opened.fresh (Nat.zero_lt_of_lt (rootOf.inside branchWithin))
  cases first : (root.after.outputsIn scope).head? with
  | none =>
      rw [List.head?_eq_none_iff.1 first] at inRoot
      cases inRoot
  | some head =>
      have isOutput := List.mem_of_mem_head? first
      obtain ⟨adder, adderWithin, adds⟩ := rootOf.mem_outputsIn_iff.1 isOutput
      obtain ⟨other, otherChooser, hosts, chosen⟩ :=
        rootOf.output_of_scope adderWithin adds inBranch
      cases rootOf.eq_of_opened branchWithin hosts.within opened hosts.opened
      cases own.symm.trans hosts.own
      exact ⟨head, isOutput, (chosen chooser).2 ⟨rootOf.firstIn_of_head first, rfl⟩⟩

/-- The root of a side is that of the layer that chooses it, if this has no other root in the scope
of the side. -/
theorem sideRoot_of_rooted {label : String} {body : List Instruction} {chosen : Option LayerId}
    {start finish entered left : CompileState} {side : List Visit} {chooser : LayerId}
    (within : branch.Within root) (own : branch.ownLayer? = some chooser)
    (rooted : Rooted label body start side chosen finish)
    (sideOf : SideOf branch start.scopes.size side chosen entered left)
    (only : ∀ id, id ∈ root.after.outputsIn start.scopes.size →
      root.after.network.HasRoot chooser id → chosen = some id) :
    SideRoot root branch body start.scopes.size chosen where
  opened := sideOf.opened
  declared spec listed isOutput := by
    have faithful := rootOf.faithful.within within
    have tracked : ∀ visit ∈ side, Tracked visit :=
      fun visit member => tracked_of_faithful (faithful.ofInner (sideOf.part member))
    obtain ⟨visit, member, declares⟩ := rooted.exists_declared tracked listed isOutput
    exact ⟨visit, sideOf.part member, declares⟩
  isSome_iff := by
    constructor
    · intro isSome
      obtain ⟨id, rfl⟩ := Option.isSome_iff_exists.1 isSome
      obtain ⟨visit, visitWithin, adds⟩ :=
        rootOf.mem_outputsIn_iff.1 (rootOf.mem_outputsIn_of_sideOf within sideOf)
      obtain ⟨spec, declares, inTurn⟩ :=
        declares_of_addsOutput (rootOf.faithful.within visitWithin) adds
      exact ⟨visit, spec, visitWithin, declares, inTurn⟩
    · rintro ⟨visit, spec, visitWithin, declares, inTurn⟩
      obtain ⟨id, isOutput, isRoot⟩ := rootOf.exists_root_of_inTurn within sideOf.opened own
        visitWithin declares inTurn
      rw [only id isOutput isRoot]
      rfl
  isOutput id isChosen := by
    cases isChosen
    exact rootOf.mem_outputsIn_iff.1 (rootOf.mem_outputsIn_of_sideOf within sideOf)

end RootOf

/-- What becomes of the two sides of a branch: each has its root, and no layer is the root of
both. -/
structure ChoosesBetween (network : Network) (root branch : Visit)
    (first second : List Instruction) (thenRoot elseRoot : Option LayerId) : Prop where
  chooser : ∃ chooser layer text, branch.ownLayer? = some chooser ∧
    network.layer? chooser = some layer ∧ layer.kind = .conditional text thenRoot elseRoot
  first : first ≠ [] → ∃ scope, SideRoot root branch first scope thenRoot
  second : second ≠ [] → ∃ scope, SideRoot root branch second scope elseRoot
  apart : ∀ id, thenRoot = some id → elseRoot ≠ some id

/-- What becomes of a branch of a run. -/
theorem RootOf.choosesBetween (rootOf : RootOf name seed program compiled root)
    (within : branch.Within root) {branchName : Option String} {test : Instruction}
    {body alternative : List Instruction} {run : BranchRun}
    (runOf : run.Of branch branchName test body alternative) :
    ChoosesBetween root.after.network root branch run.plan.first run.plan.second run.thenRoot
      run.elseRoot := by
  obtain ⟨own, layer, found, _, kind⟩ := runOf.exists_ownLayer
  obtain ⟨same, sameFound, sameNode⟩ := (rootOf.faithful.around within).2.network.layer? found
  have sameKind := (Layer.kind_eq_of_node sameNode).trans kind
  have inThen {id : LayerId} (isRoot : run.thenRoot = some id) :
      id ∈ root.after.outputsIn run.start.scopes.size := by
    rcases runOf.thenSide with ⟨_, none⟩ | ⟨_, _, sideOf⟩
    · cases none.symm.trans isRoot
    · exact rootOf.mem_outputsIn_of_sideOf within (isRoot ▸ sideOf)
  have inElse {id : LayerId} (isRoot : run.elseRoot = some id) :
      id ∈ root.after.outputsIn run.between.scopes.size := by
    rcases runOf.elseSide with ⟨_, none⟩ | ⟨_, _, sideOf⟩
    · cases none.symm.trans isRoot
    · exact rootOf.mem_outputsIn_of_sideOf within (isRoot ▸ sideOf)
  -- The scopes of the sides differ once the first one is opened, and an output belongs to one scope.
  have opens := runOf.thenRooted.opens runOf.firstGrow
  have apart {id : LayerId} (inFirst : id ∈ root.after.outputsIn run.start.scopes.size)
      (inSecond : id ∈ root.after.outputsIn run.between.scopes.size)
      (nonempty : ¬ (run.first = [] ∧ run.thenRoot = none)) : False :=
    Nat.ne_of_lt (opens.resolve_left nonempty) (rootOf.housed.apart inFirst inSecond)
  have roots {id : LayerId} (isRoot : root.after.network.HasRoot run.finish.network.size id) :
      run.thenRoot = some id ∨ run.elseRoot = some id := by
    obtain ⟨_, isFound, isRoot⟩ := isRoot
    cases isFound.symm.trans sameFound
    rw [sameKind] at isRoot
    exact (List.mem_append.1 isRoot).imp Option.mem_toList.1 Option.mem_toList.1
  refine ⟨⟨_, same, _, own, sameFound, sameKind⟩, fun nonempty => ?_, fun nonempty => ?_,
    fun id isThen isElse => ?_⟩
  · have isOpened : ¬ (run.first = [] ∧ run.thenRoot = none) :=
      fun nothing => runOf.thenRooted.ne_nil nonempty nothing.1
    obtain ⟨_, _, sideOf⟩ := runOf.thenSide.resolve_left isOpened
    refine ⟨_, rootOf.sideRoot_of_rooted within own runOf.thenRooted sideOf
      fun id isOutput isRoot => ?_⟩
    exact (roots isRoot).resolve_right fun isElse => apart isOutput (inElse isElse) isOpened
  · obtain ⟨_, _, sideOf⟩ := runOf.elseSide.resolve_left fun nothing =>
      runOf.elseRooted.ne_nil nonempty nothing.1
    refine ⟨_, rootOf.sideRoot_of_rooted within own runOf.elseRooted sideOf
      fun id isOutput isRoot => ?_⟩
    refine (roots isRoot).resolve_left fun isThen => apart (inThen isThen) isOutput ?_
    rintro ⟨_, none⟩
    cases none.symm.trans isThen
  · refine apart (inThen isThen) (inElse isElse) ?_
    rintro ⟨_, none⟩
    cases none.symm.trans isThen

private theorem RootOf.exists_choosesBetween (rootOf : RootOf name seed program compiled root)
    (within : branch.Within root) {branchName : Option String} {test : Instruction}
    {body alternative : List Instruction}
    (isBranch : branch.instruction = .branch branchName test body alternative) :
    ∃ thenRoot elseRoot, ChoosesBetween root.after.network root branch
      (splitBody body alternative).1 (splitBody body alternative).2 thenRoot elseRoot := by
  obtain ⟨run, runOf⟩ := exists_branchRun (rootOf.faithful.within within) isBranch
  rw [← runOf.split]
  exact ⟨run.thenRoot, run.elseRoot, rootOf.choosesBetween within runOf⟩

/-- A branch that lists an output on a side has a root of this side exactly if some output that is
declared in the scope of the side is compiled in its turn. The root is an output of this scope, and
the roots of both sides differ. -/
theorem output_root_iff (compiles : compile name seed program = .ok compiled) :
    ∃ root, rootVisit? name seed program = some root ∧ root.instruction = program ∧
      ∀ visit branchName test body alternative, Visit.Within visit root →
        visit.instruction = .branch branchName test body alternative →
        ∃ thenRoot elseRoot, ChoosesBetween compiled.network root visit
          (splitBody body alternative).1 (splitBody body alternative).2 thenRoot elseRoot := by
  obtain ⟨root, rootOf⟩ := exists_rootOf compiles
  refine ⟨root, rootOf.isRoot, rootOf.instruction, ?_⟩
  intro visit branchName test body alternative within isBranch
  obtain ⟨thenRoot, elseRoot, chooses⟩ := rootOf.exists_choosesBetween within isBranch
  refine ⟨thenRoot, elseRoot, ?_, chooses.first, chooses.second, chooses.apart⟩
  obtain ⟨chooser, layer, text, own, found, kind⟩ := chooses.chooser
  rw [rootOf.network]
  obtain ⟨same, sameFound, sameNode⟩ := rootOf.binds.grows.layer? found
  exact ⟨chooser, same, text, own, sameFound, (Layer.kind_eq_of_node sameNode).trans kind⟩

/-- A branch with one output on each side, behind a connection that compiles another declaration of
an output of that name ahead. -/
def connectedOutput (size : Int) (alternative : List Instruction) : Instruction :=
  .program [sizedLayer "input" "x" 1, .connect "x" "y",
    .branch none (.condition "x > 0") [sizedLayer "output" "y" 1] alternative,
    sizedLayer "output" "y" size]

private def declaresInTurn (visit : Visit) : Bool :=
  (match visit.instruction with
    | .branch _ _ [.layer first] [.layer second] => first.isOutput && second.isOutput
    | _ => false) &&
  visit.inner.all fun below =>
    match below.instruction with
    | .layer spec => !below.before.waits spec.name (.layer spec)
    | _ => true

/-- Where the declaration that was compiled ahead is another one, both sides have roots. -/
theorem connectedOutput_roots :
    ∃ compiled root visit one other,
      compile "net" 0 (connectedOutput 2 [sizedLayer "output" "y" 1]) = .ok compiled ∧
      rootVisit? "net" 0 (connectedOutput 2 [sizedLayer "output" "y" 1]) = some root ∧
      Visit.Within visit root ∧ one ≠ other ∧
      ∃ chooser layer text, visit.ownLayer? = some chooser ∧
        compiled.network.layer? chooser = some layer ∧
        layer.kind = .conditional text (some one) (some other) := by
  have passed : (compile "net" 0 (connectedOutput 2 [sizedLayer "output" "y" 1])).toOption.any
      (fun _ => true) = true := by decide +kernel
  have declared : ((rootVisit? "net" 0 (connectedOutput 2 [sizedLayer "output" "y" 1])).bind
      (Visit.below? [2])).any declaresInTurn = true := by decide +kernel
  obtain ⟨compiled, compiles, _⟩ := exists_compiled passed
  obtain ⟨root, visit, isRoot, within, declared⟩ := exists_visit_at declared
  unfold declaresInTurn at declared
  rw [Bool.and_eq_true, List.all_eq_true] at declared
  obtain ⟨isBranch, inTurn⟩ := declared
  split at isBranch
  · rename_i name test first second branches
    rw [Bool.and_eq_true] at isBranch
    obtain ⟨_, sameRoot, _, each⟩ := output_root_iff compiles
    cases isRoot.symm.trans sameRoot
    obtain ⟨thenRoot, elseRoot, chooses⟩ := each visit name test _ _ within branches
    have hasRoot {spec : LayerSpec} {chosen : Option LayerId} (isOutput : spec.isOutput = true)
        (side : ∃ scope, SideRoot root visit [.layer spec] scope chosen) :
        ∃ id, chosen = some id := by
      obtain ⟨scope, side⟩ := side
      obtain ⟨below, member, filled, _, _, declares⟩ :=
        side.declared spec (List.mem_singleton_self _) isOutput
      have inTurn := inTurn below member
      rw [declares.declares, Bool.not_eq_true'] at inTurn
      exact Option.isSome_iff_exists.1 (side.isSome_iff.2
        ⟨below, filled, .trans (.under member (.self below)) within, declares, inTurn⟩)
    obtain ⟨one, rfl⟩ := hasRoot isBranch.1 (chooses.first (List.cons_ne_nil _ _))
    obtain ⟨other, rfl⟩ := hasRoot isBranch.2 (chooses.second (List.cons_ne_nil _ _))
    exact ⟨compiled, root, visit, one, other, compiles, isRoot, within,
      fun same => chooses.apart one rfl (congrArg some same.symm), chooses.chooser⟩
  · cases isBranch

private def picksNothing (network : Network) (visit : Visit) : Bool :=
  (match visit.instruction with
    | .branch _ _ [.layer spec] [] => spec.isOutput
    | _ => false) &&
  (visit.ownLayer?.bind network.layer?).any fun layer =>
    match layer.kind with
    | .conditional _ none none => true
    | _ => false

/-- Where an equal declaration was compiled ahead, the output that the side lists is passed over,
and the branch has no root. -/
theorem connectedOutput_no_root :
    ∃ compiled root visit, compile "net" 0 (connectedOutput 1 []) = .ok compiled ∧
      rootVisit? "net" 0 (connectedOutput 1 []) = some root ∧ Visit.Within visit root ∧
      (∃ name test spec, visit.instruction = .branch name test [.layer spec] [] ∧
        spec.isOutput = true) ∧
      ∃ chooser layer text, visit.ownLayer? = some chooser ∧
        compiled.network.layer? chooser = some layer ∧
        layer.kind = .conditional text none none := by
  have passed : (compile "net" 0 (connectedOutput 1 [])).toOption.any (fun compiled =>
      ((rootVisit? "net" 0 (connectedOutput 1 [])).bind (Visit.below? [2])).any
        (picksNothing compiled.network)) = true := by decide +kernel
  obtain ⟨compiled, compiles, passed⟩ := exists_compiled passed
  obtain ⟨root, visit, isRoot, within, passed⟩ := exists_visit_at passed
  unfold picksNothing at passed
  rw [Bool.and_eq_true, Option.any_eq_true] at passed
  obtain ⟨isBranch, layer, isOwn, noRoot⟩ := passed
  obtain ⟨chooser, own, found⟩ := Option.bind_eq_some_iff.1 isOwn
  refine ⟨compiled, root, visit, compiles, isRoot, within, ?_, chooser, layer, ?_⟩
  · split at isBranch
    · rename_i name test spec branches
      exact ⟨name, test, spec, branches, isBranch⟩
    · cases isBranch
  · split at noRoot
    · rename_i text kind
      exact ⟨text, own, found, kind⟩
    · cases noRoot

end Runs

end Compile

end NetBlueprint
