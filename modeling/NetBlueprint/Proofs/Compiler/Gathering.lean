import NetBlueprint.Proofs.Compiler.Turning

/-!
Contract: which layers a module groups.

The children of a module are the layers that were added while its body was compiled, by whichever
visit, and where a child of the body adds nothing, the earlier layer that its name stands for. A
connection of the body may turn to a declaration outside of it, whose layers then are children as
well; and a declaration inside a block that was compiled ahead adds nothing and is not looked for.
So a module groups what its body declares exactly if its connections add nothing else and its
children find what was declared earlier.

Owns: the layers that the declarations of a body stand for, and the children of a module.
-/

namespace NetBlueprint

def Instruction.isDeclaration : Instruction → Bool
  | .layer _ | .moduleDef _ _ _ _ | .branch _ _ _ _ => true
  | _ => false

def Instruction.isConnection : Instruction → Bool
  | .connect _ _ => true
  | _ => false

namespace Visit

/-- A visit stands in the body of another one, at any depth, but not below a connection of it. -/
inductive InBody (outer : Visit) : Visit → Prop where
  | direct {visit : Visit} (member : visit ∈ outer.inner) : InBody outer visit
  | deeper {middle visit : Visit} (inside : InBody outer middle)
      (noConnection : middle.instruction.isConnection = false) (member : visit ∈ middle.inner) :
      InBody outer visit

/-- A visit is one of an instruction that a body lists, directly or grouped. -/
inductive Lists (outer : Visit) : Visit → Prop where
  | direct {visit : Visit} (member : visit ∈ outer.inner) : Lists outer visit
  | block {middle visit : Visit} {body : List Instruction} (listed : Lists outer middle)
      (isBlock : middle.instruction = .block body) (member : visit ∈ middle.inner) :
      Lists outer visit
  | expand {middle visit : Visit} {group : Option String} {annotations : TextTable}
      {body : List Instruction} (listed : Lists outer middle)
      (isExpand : middle.instruction = .expand group annotations body)
      (member : visit ∈ middle.inner) : Lists outer visit

def AddsInBody (id : LayerId) (outer : Visit) : Prop :=
  ∃ visit, outer.InBody visit ∧ visit.instruction.isDeclaration = true ∧ visit.Adds id

def AddsByConnection (id : LayerId) (outer : Visit) : Prop :=
  ∃ connection adder, outer.InBody connection ∧ connection.instruction.isConnection = true ∧
    Within adder connection ∧ adder.Adds id

/-- A child that adds nothing finds a layer of its name, one of the first so many layers. -/
structure Recalls (first : Nat) (id : LayerId) (child : Visit) : Prop where
  nothing : child.after.network.size = child.before.network.size
  found : id ∈ Compile.earlierLayer child.after first child.instruction

/-- A child of a module finds a layer that was there before the module. -/
def RecallsEarlier (id : LayerId) (module : Visit) : Prop :=
  ∃ child ∈ module.inner, child.Recalls module.before.network.size id

section Bodies

variable {visit outer child : Visit} {id : LayerId}

/-- What stands in a body is at or below a child. -/
theorem InBody.exists_child (inside : outer.InBody visit) :
    ∃ child ∈ outer.inner, visit.Within child := by
  induction inside with
  | direct member => exact ⟨_, member, .self _⟩
  | deeper _ _ member inductionHypothesis =>
      obtain ⟨child, isChild, within⟩ := inductionHypothesis
      exact ⟨child, isChild, .trans (.under member (.self _)) within⟩

theorem InBody.within (inside : outer.InBody visit) : visit.Within outer := by
  obtain ⟨child, isChild, within⟩ := inside.exists_child
  exact .under isChild within

theorem Lists.inBody (listed : outer.Lists visit) : outer.InBody visit := by
  induction listed with
  | direct member => exact .direct member
  | block _ isBlock member inside => exact .deeper inside (isBlock ▸ rfl) member
  | expand _ isExpand member inside => exact .deeper inside (isExpand ▸ rfl) member

/-- Whatever stands below a visit of a body stands in the body, or at or below a connection of
it. -/
theorem InBody.inBody_or_connection (inside : outer.InBody child) (within : visit.Within child) :
    outer.InBody visit ∧ visit.instruction.isConnection = false ∨
      ∃ connection, outer.InBody connection ∧ connection.instruction.isConnection = true ∧
        visit.Within connection := by
  induction within with
  | self =>
      cases isConnection : visit.instruction.isConnection with
      | true => exact .inr ⟨visit, inside, isConnection, .self visit⟩
      | false => exact .inl ⟨inside, rfl⟩
  | @under middle outer member within inductionHypothesis =>
      cases isConnection : outer.instruction.isConnection with
      | true => exact .inr ⟨outer, inside, isConnection, .under member within⟩
      | false => exact inductionHypothesis (.deeper inside isConnection member)

/-- Layers are added by declarations and by connections. -/
theorem Adds.isDeclaration (adds : visit.Adds id) (faithful : visit.Faithful)
    (noConnection : visit.instruction.isConnection = false) :
    visit.instruction.isDeclaration = true := by
  obtain ⟨start, layer, makes, _⟩ := adds.exists_makes faithful
  generalize visit.instruction = instruction at makes noConnection ⊢
  generalize layer.name = name, layer.kind = kind at makes
  cases makes with
  | layer | moduleDef | branch => rfl
  | autoInput => cases noConnection

private theorem Recalls.lt_of_found {first : Nat} (recalls : child.Recalls first id) : id < first :=
  of_decide_eq_true (Option.mem_filter_iff.1 (Option.mem_toList.1 recalls.found)).2

end Bodies

end Visit

namespace Compile

open CompileState

/-- The layer that a declaration stands for: the one that it adds, the one of its name that it
finds, or the one of the visit in which it was compiled ahead. -/
inductive StandsFor (root : Visit) : Visit → LayerId → Prop where
  | adds {visit : Visit} {id : LayerId} (declares : visit.instruction.isDeclaration = true)
      (adds : visit.Adds id) : StandsFor root visit id
  | finds {visit : Visit} {spec : LayerSpec} {id : LayerId}
      (declares : visit.instruction = .layer spec) (inTurn : visit.isPassed = false)
      (nothing : visit.after.network.size = visit.before.network.size)
      (found : visit.after.resolveExact visit.after.current spec.name = some id) :
      StandsFor root visit id
  | passed {visit turned : Visit} {key : String} {id : LayerId} (isPassed : visit.isPassed = true)
      (isNamed : visit.instruction.declaredName? = some key) (within : Visit.Within turned root)
      (turnedTo : turned.TurnedTo key) (earlier : turned.after.GrowsTo visit.before)
      (stands : StandsFor root turned id) : StandsFor root visit id

/-- A layer is one that a declaration in a body stands for. -/
def DeclaredIn (root module : Visit) (id : LayerId) : Prop :=
  ∃ visit, module.InBody visit ∧ StandsFor root visit id

/-! ## The children of a module -/

section Children

variable {before after : CompileState} {inner : List Visit} {start : Nat}
  {gathered all : List LayerId} {body : List Instruction} {id : LayerId} {module : Visit}

private theorem mem_producedBy_iff {child : Visit} (grows : child.before.GrowsTo child.after) :
    id ∈ producedBy child.after start child.before.network.size child.instruction ↔
      (child.before.network.size ≤ id ∧ id < child.after.network.size) ∨ child.Recalls start id := by
  have larger := grows.network.size_le
  unfold producedBy
  split
  · rename_i same
    constructor
    · exact fun found => .inr ⟨same, found⟩
    · rintro (⟨from_, upTo⟩ | recalls)
      · exact absurd (Nat.lt_of_le_of_lt from_ upTo) (Nat.not_lt.2 (Nat.le_of_eq same))
      · exact recalls.found
  · rename_i more
    rw [List.mem_map]
    constructor
    · rintro ⟨offset, member, rfl⟩
      have inside := List.mem_range.1 member
      exact .inl ⟨Nat.le_add_right _ _, Nat.add_lt_of_lt_sub' inside⟩
    · rintro (⟨from_, upTo⟩ | recalls)
      · exact ⟨id - child.before.network.size, List.mem_range.2 (Nat.sub_lt_sub_right from_ upTo),
          Nat.add_sub_cancel' from_⟩
      · exact absurd recalls.nothing more

/-- What is gathered from the children of a module is what is added on the way, and what they find
that was there before. -/
theorem Children.mem_iff (children : Children start gathered body before inner all after)
    (grow : AllGrow inner) :
    id ∈ all ↔ id ∈ gathered ∨ (before.network.size ≤ id ∧ id < after.network.size) ∨
      ∃ child ∈ inner, child.Recalls start id := by
  induction children with
  | done gathered state =>
      refine ⟨.inl, ?_⟩
      rintro (earlier | ⟨from_, upTo⟩ | ⟨_, member, _⟩)
      · exact earlier
      · exact absurd upTo (Nat.not_lt.2 from_)
      · cases member
  | @next gathered more all _ child inner between after gathers following inductionHypothesis =>
      obtain ⟨rfl, rfl⟩ := runs_gather.1 gathers
      obtain ⟨headGrows, tailGrow⟩ := List.forall_mem_cons.1 grow
      have smaller := headGrows.network.size_le
      have larger := (following.trail.grows tailGrow).network.size_le
      have produced : id ∈ gathered ++ (producedBy child.after start child.before.network.size
          child.instruction).filter (fun id => !gathered.contains id) ↔
          id ∈ gathered ∨ (child.before.network.size ≤ id ∧ id < child.after.network.size) ∨
            child.Recalls start id := by
        rw [← mem_producedBy_iff headGrows, List.mem_append, List.mem_filter]
        by_cases member : id ∈ gathered <;> simp [member]
      have range : child.before.network.size ≤ id ∧ id < after.network.size ↔
          (child.before.network.size ≤ id ∧ id < child.after.network.size) ∨
            child.after.network.size ≤ id ∧ id < after.network.size := by
        constructor
        · rintro ⟨from_, upTo⟩
          exact (Nat.lt_or_ge id child.after.network.size).imp (⟨from_, ·⟩) (⟨·, upTo⟩)
        · rintro (⟨from_, upTo⟩ | ⟨from_, upTo⟩)
          · exact ⟨from_, Nat.lt_of_lt_of_le upTo larger⟩
          · exact ⟨Nat.le_trans smaller from_, upTo⟩
      rw [inductionHypothesis tailGrow, produced, range, List.exists_mem_cons_iff, or_assoc,
        or_or_or_comm]

/-- A module that is not passed over gathers its children and groups them. -/
theorem exists_gathered (faithful : module.Faithful) {name : String} {inputs outputs : List String}
    (isModule : module.instruction = .moduleDef name inputs outputs body)
    (inTurn : module.isPassed = false) :
    ∃ start gathered finish, module.before.Quiet start ∧
      Children module.before.network.size [] body start module.inner gathered finish ∧
      (finish.withLayer name (.composite gathered)).Quiet module.after := by
  have unfolds := faithful.unfolds
  obtain ⟨instruction, before, after, inner⟩ := module
  cases isModule
  cases unfolds with
  | moduleTaken takes _ =>
      rw [Visit.isPassed, Instruction.declaredName?, Option.any_some, ← taken_eq_waits takes]
        at inTurn
      cases inTurn
  | moduleDef takes logs children finishes =>
      have quiet := (isQuiet_takeAhead _ _ _ _ _ takes).trans (isQuiet_log _ _ _ _ logs)
      rw [← Network.length_nodes, quiet.nodes, Network.length_nodes] at children
      exact ⟨_, _, _, quiet, children, runs_finishModule finishes⟩

private theorem Children.added_iff
    (children : Children start gathered body before module.inner all after)
    (faithful : module.Faithful) :
    before.network.size ≤ id ∧ id < after.network.size ↔
      module.AddsInBody id ∨ module.AddsByConnection id := by
  have bounds {adder child : Visit} (isChild : child ∈ module.inner) (within : adder.Within child)
      (adds : adder.Adds id) : before.network.size ≤ id ∧ id < after.network.size := by
    obtain ⟨start, finish⟩ := children.trail.around faithful.allGrow isChild
    obtain ⟨earlier, later⟩ := (faithful.ofInner isChild).around within
    exact ⟨Nat.le_trans (start.trans earlier).network.size_le (Nat.not_lt.1 adds.fresh),
      Nat.lt_of_lt_of_le adds.present (later.trans finish).network.size_le⟩
  constructor
  · rintro ⟨from_, upTo⟩
    have fresh : ¬ id < before.network.size := Nat.not_lt.2 from_
    have came : ∃ child ∈ module.inner, ¬ id < child.before.network.size ∧
        id < child.after.network.size := by
      by_contra nowhere
      have origin : id < before.network.size ∨ False :=
        (children.way : Way (fun _ _ => False) _ _ _).origin
          (fun state => id < state.network.size) (fun impossible => impossible.elim)
          (fun child isChild present => .inl (by
            by_contra absent
            exact nowhere ⟨child, isChild, absent, present⟩)) upTo
      exact origin.elim fresh False.elim
    obtain ⟨child, isChild, absent, present⟩ := came
    have childFaithful := faithful.ofInner isChild
    obtain ⟨adder, within, adds⟩ :=
      childFaithful.exists_brings (fun state => id < state.network.size) absent present
    have inside : module.InBody child := .direct isChild
    rcases inside.inBody_or_connection within with ⟨inBody, noConnection⟩ | connected
    · exact .inl ⟨adder, inBody,
        Visit.Adds.isDeclaration adds (childFaithful.within within) noConnection, adds⟩
    · obtain ⟨connection, inBody, isConnection, below⟩ := connected
      exact .inr ⟨connection, adder, inBody, isConnection, below, adds⟩
  · rintro (⟨adder, inBody, _, adds⟩ | ⟨connection, adder, inBody, _, below, adds⟩)
    · obtain ⟨child, isChild, within⟩ := inBody.exists_child
      exact bounds isChild within adds
    · obtain ⟨child, isChild, within⟩ := inBody.exists_child
      exact bounds isChild (below.trans within) adds

end Children

section Runs

variable {name : String} {seed : UInt64} {program : Instruction} {compiled : Compiled}
  {root visit module : Visit} {id : LayerId}

namespace RootOf

variable (rootOf : RootOf name seed program compiled root)

include rootOf

/-- What a declaration stands for is there afterwards, under the name that is declared. -/
theorem present_of_standsFor (within : visit.Within root) (stands : StandsFor root visit id) :
    id < visit.after.network.size ∧ ∀ key, visit.instruction.declaredName? = some key →
      visit.after.network.Named key id := by
  induction stands with
  | @adds visit id _ adds =>
      refine ⟨adds.present, fun key isNamed => ?_⟩
      obtain ⟨start, layer, makes, found⟩ := adds.exists_makes (rootOf.faithful.within within)
      refine ⟨layer, found, ?_⟩
      generalize visit.instruction = instruction at makes isNamed
      generalize layer.name = made, layer.kind = kind at makes ⊢
      cases makes with
      | layer | moduleDef => exact Option.some.inj isNamed
      | branch named => exact named key isNamed
      | autoInput => cases isNamed
  | @finds visit spec id declares _ _ found =>
      have faithful := rootOf.faithful.within within
      have sound := faithful.sound (rootOf.faithful.sound_before within rootOf.sound)
      have named := sound.resolveExact found
      refine ⟨Network.lt_size_of_named named, fun key isNamed => ?_⟩
      rw [declares] at isNamed
      cases isNamed
      exact named
  | @passed visit turned key id _ isNamed turnedWithin turnedTo earlier _ inductionHypothesis =>
      obtain ⟨inside, named⟩ := inductionHypothesis turnedWithin
      obtain ⟨forward, _⟩ := rootOf.forwardName?_of_registered turnedWithin turnedTo.registered
      have grows := (earlier.trans (rootOf.faithful.within within).grows).network
      refine ⟨Nat.lt_of_lt_of_le inside grows.size_le, fun other isOther => ?_⟩
      cases isNamed.symm.trans isOther
      exact grows.named (named key (Instruction.declaredName?_of_forwardName? forward))

private theorem exists_standsFor_of_inTurn {spec : LayerSpec} (within : visit.Within root)
    (declares : visit.instruction = .layer spec) (inTurn : visit.isPassed = false) :
    ∃ id, StandsFor root visit id := by
  have faithful := rootOf.faithful.within within
  have soundBefore := rootOf.faithful.sound_before within rootOf.sound
  have finds {id : LayerId} (nodes : visit.after.network.nodes = visit.before.network.nodes)
      (named : visit.before.network.Named spec.name id) : ∃ id, StandsFor root visit id := by
    obtain ⟨found, isFound⟩ := Option.isSome_iff_exists.1
      (isSome_resolveExact_of_named visit.after.current (faithful.grows.network.named named))
    refine ⟨found, .finds declares inTurn ?_ isFound⟩
    rw [← Network.length_nodes, nodes, Network.length_nodes]
  obtain ⟨nothing, ran⟩ := runs_of_layer faithful declares
  cases layer_outcome ran with
  | passed waits _ =>
      rw [Visit.isPassed, declares, Instruction.declaredName?, Option.any_some, waits] at inTurn
      cases inTurn
  | present _ _ visible _ quiet =>
      unfold inCurrentScope? at visible
      split at visible
      · rename_i holder isHolder
        obtain ⟨id, shown, _⟩ := Option.bind_eq_some_iff.1 visible
        exact finds quiet.nodes (soundBefore.scopes isHolder (Table.mem_of_lookup shown))
      · cases visible
  | shared _ _ known quiet => exact finds quiet.nodes (soundBefore.globalInput? known)
  | added _ _ _ quiet =>
      refine ⟨visit.before.network.size, .adds (declares ▸ rfl) ⟨Nat.lt_irrefl _, ?_, ?_⟩⟩
      · have size := congrArg List.length (quiet.nodes.trans (nodes_withLayer _ _ _))
        rw [Network.length_nodes, List.length_append, Network.length_nodes] at size
        exact Nat.lt_of_lt_of_eq (Nat.lt_succ_self _) size.symm
      · rw [nothing]
        exact fun _ => (absurd · List.not_mem_nil)

/-- Every declaration of a layer stands for one. -/
theorem exists_standsFor {spec : LayerSpec} (within : visit.Within root)
    (declares : visit.instruction = .layer spec) : ∃ id, StandsFor root visit id := by
  cases isPassed : visit.isPassed with
  | false => exact rootOf.exists_standsFor_of_inTurn within declares isPassed
  | true =>
      obtain ⟨turned, key, turnedWithin, turnedTo, earlier, isNamed, same⟩ :=
        rootOf.exists_turned_of_isPassed within isPassed
      rw [declares] at same
      obtain ⟨other, isLayer, _⟩ := Instruction.Alike.layer (.single same)
      obtain ⟨id, stands⟩ := rootOf.exists_standsFor_of_inTurn turnedWithin isLayer
        (rootOf.not_isPassed_of_turnedTo turnedWithin turnedTo)
      exact ⟨id, .passed isPassed isNamed turnedWithin turnedTo earlier stands⟩

end RootOf

/-- What a module groups. Its children are distinct: they are what declarations in its body add,
what its connections add, and what its children find that was there before. Nothing else than what
its body declares is among them exactly if its connections add nothing else and its children find
nothing else. All layers that it lists are among them exactly if its children find those that were
there before. -/
structure Gathers (network : Network) (root module : Visit) (name : String)
    (children : List LayerId) : Prop where
  layer : ∃ own layer, module.ownLayer? = some own ∧ network.layer? own = some layer ∧
    layer.name = name ∧ layer.kind = .composite children
  once : children.Nodup
  mem_iff : ∀ id, id ∈ children ↔
    module.AddsInBody id ∨ module.AddsByConnection id ∨ module.RecallsEarlier id
  nothingElse_iff : (∀ id ∈ children, DeclaredIn root module id) ↔
    ∀ id, module.AddsByConnection id ∨ module.RecallsEarlier id → DeclaredIn root module id
  declared : ∀ visit spec, module.Lists visit → visit.instruction = .layer spec →
    ∃ id, StandsFor root visit id
  everything_iff :
    (∀ visit spec id, module.Lists visit → visit.instruction = .layer spec →
      StandsFor root visit id → id ∈ children) ↔
    ∀ visit spec id, module.Lists visit → visit.instruction = .layer spec →
      StandsFor root visit id → id < module.before.network.size → module.RecallsEarlier id

/-- What becomes of a module of a run that is not passed over. -/
theorem RootOf.exists_gathers (rootOf : RootOf name seed program compiled root)
    (within : module.Within root) {key : String} {inputs outputs : List String}
    {body : List Instruction} (isModule : module.instruction = .moduleDef key inputs outputs body)
    (inTurn : module.isPassed = false) :
    ∃ children, Gathers root.after.network root module key children := by
  have faithful := rootOf.faithful.within within
  obtain ⟨start, gathered, finish, quiet, children, added⟩ :=
    exists_gathered faithful isModule inTurn
  have started : start.network.size = module.before.network.size := by
    rw [← Network.length_nodes, quiet.nodes, Network.length_nodes]
  obtain ⟨own, layer, found, node⟩ := Visit.ownLayer?_of_nodes
    (quiet.grows.trans (children.trail.grows faithful.allGrow))
    (added.nodes.trans (finish.nodes_withLayer key (.composite gathered)))
  obtain ⟨same, sameFound, sameNode⟩ := (rootOf.faithful.around within).2.network.layer? found
  have accounted := children.accounted faithful.allGrow (Nat.le_of_eq started.symm)
    ⟨List.nodup_nil, fun _ => (absurd · List.not_mem_nil)⟩
  have inRange (id : LayerId) : id ∈ gathered ↔
      (module.before.network.size ≤ id ∧ id < finish.network.size) ∨ module.RecallsEarlier id := by
    rw [children.mem_iff faithful.allGrow, started]
    exact or_iff_right List.not_mem_nil
  have mem_iff (id : LayerId) : id ∈ gathered ↔
      module.AddsInBody id ∨ module.AddsByConnection id ∨ module.RecallsEarlier id := by
    rw [inRange, ← started, children.added_iff faithful, or_assoc]
  refine ⟨gathered, ⟨_, same, own, sameFound, ?_, ?_⟩, accounted.nodup, mem_iff, ?_, ?_, ?_⟩
  · exact (Layer.name_eq_of_node sameNode).trans (congrArg Layer.name node)
  · exact (Layer.kind_eq_of_node sameNode).trans (congrArg Layer.kind node)
  · constructor
    · exact fun declared id foreign => declared id ((mem_iff id).2 (.inr foreign))
    · intro declared id member
      rcases (mem_iff id).1 member with ⟨visit, inBody, declares, adds⟩ | foreign
      · exact ⟨visit, inBody, .adds declares adds⟩
      · exact declared id foreign
  · intro visit spec listed declares
    exact rootOf.exists_standsFor (listed.inBody.within.trans within) declares
  · constructor
    · intro all visit spec id listed declares stands earlier
      refine ((inRange id).1 (all visit spec id listed declares stands)).resolve_left ?_
      exact fun later => absurd later.1 (Nat.not_le.2 earlier)
    · intro recalls visit spec id listed declares stands
      refine (inRange id).2 ((Nat.lt_or_ge id module.before.network.size).symm.imp
        (fun later => ⟨later, ?_⟩) (recalls visit spec id listed declares stands))
      obtain ⟨child, isChild, below⟩ := listed.inBody.exists_child
      have grows := ((faithful.ofInner isChild).around below).2.trans
        (children.trail.around faithful.allGrow isChild).2
      exact Nat.lt_of_lt_of_le
        (rootOf.present_of_standsFor (listed.inBody.within.trans within) stands).1
        grows.network.size_le

/-- A module groups what is added while its body is compiled, and what its children find that was
there before: its own layers and nothing else exactly if that leads to no others. -/
theorem module_gathers (compiles : compile name seed program = .ok compiled) :
    ∃ root, rootVisit? name seed program = some root ∧ root.instruction = program ∧
      ∀ module key inputs outputs body, Visit.Within module root →
        module.instruction = .moduleDef key inputs outputs body → module.isPassed = false →
        ∃ children, Gathers compiled.network root module key children := by
  obtain ⟨root, rootOf⟩ := exists_rootOf compiles
  refine ⟨root, rootOf.isRoot, rootOf.instruction, ?_⟩
  intro module key inputs outputs body within isModule inTurn
  obtain ⟨children, gathers⟩ := rootOf.exists_gathers within isModule inTurn
  refine ⟨children, { gathers with layer := ?_ }⟩
  obtain ⟨own, layer, isOwn, found, isNamed, kind⟩ := gathers.layer
  rw [rootOf.network]
  obtain ⟨same, sameFound, sameNode⟩ := rootOf.binds.grows.layer? found
  exact ⟨own, same, isOwn, sameFound, (Layer.name_eq_of_node sameNode).trans isNamed,
    (Layer.kind_eq_of_node sameNode).trans kind⟩

/-- A module that declares one layer in a block and one by itself. -/
def connectedModule (early inside late : List Instruction) : Instruction :=
  .program (early ++ .moduleDef "m" [] []
    (.block [sizedLayer "dense" "a" 1] :: sizedLayer "dense" "c" 1 :: inside) :: late)

private def connectsOnly (visit : Visit) : Bool :=
  (match visit.instruction with
    | .moduleDef _ _ _ _ => true
    | _ => false) &&
  !visit.isPassed && visit.before.network.size == 0 &&
  visit.all fun connection => !connection.instruction.isConnection ||
    connection.all fun adder => adder.after.network.size == adder.before.network.size

/-- Where nothing is declared before a module and its connections stay inside, its children are its
own layers and nothing else. -/
theorem connectedModule_gathers_own :
    ∃ compiled root module children,
      compile "net" 0 (connectedModule [] [.connect "a" "c"] []) = .ok compiled ∧
      rootVisit? "net" 0 (connectedModule [] [.connect "a" "c"] []) = some root ∧
      Visit.Within module root ∧
      (∃ own layer, module.ownLayer? = some own ∧ compiled.network.layer? own = some layer ∧
        layer.kind = .composite children) ∧
      children.Nodup ∧ (∀ id ∈ children, DeclaredIn root module id) ∧
      ∀ visit spec, module.Lists visit → visit.instruction = .layer spec →
        ∃ id ∈ children, StandsFor root visit id := by
  have passed : (compile "net" 0 (connectedModule [] [.connect "a" "c"] [])).toOption.any
      (fun _ => true) = true := by decide +kernel
  have connects : ((rootVisit? "net" 0 (connectedModule [] [.connect "a" "c"] [])).bind
      (Visit.below? [0])).any connectsOnly = true := by decide +kernel
  obtain ⟨compiled, compiles, _⟩ := exists_compiled passed
  obtain ⟨root, module, isRoot, within, connects⟩ := exists_visit_at connects
  unfold connectsOnly at connects
  simp only [Bool.and_eq_true, Bool.not_eq_true', beq_iff_eq, Visit.all_iff, Bool.or_eq_true]
    at connects
  obtain ⟨⟨⟨isModule, inTurn⟩, first⟩, connections⟩ := connects
  split at isModule
  · rename_i key inputs outputs body declares
    obtain ⟨_, sameRoot, _, each⟩ := module_gathers compiles
    cases isRoot.symm.trans sameRoot
    obtain ⟨children, gathers⟩ := each module key inputs outputs body within declares inTurn
    have noRecall (id : LayerId) : ¬ module.RecallsEarlier id := by
      rintro ⟨child, _, recalls⟩
      rw [first] at recalls
      exact Nat.not_lt_zero id recalls.lt_of_found
    have noForeign (id : LayerId) : ¬ module.AddsByConnection id := by
      rintro ⟨connection, adder, inBody, isConnection, below, adds⟩
      have same := (connections connection inBody.within).resolve_left
        (fun other => Bool.noConfusion (other.symm.trans isConnection)) adder below
      exact adds.fresh (same ▸ adds.present)
    obtain ⟨own, layer, isOwn, found, _, kind⟩ := gathers.layer
    refine ⟨compiled, root, module, children, compiles, isRoot, within,
      ⟨own, layer, isOwn, found, kind⟩, gathers.once, ?_, fun visit spec listed declares => ?_⟩
    · exact gathers.nothingElse_iff.2 fun id foreign =>
        (foreign.elim (noForeign id) (noRecall id)).elim
    · obtain ⟨id, stands⟩ := gathers.declared visit spec listed declares
      refine ⟨id, gathers.everything_iff.2 ?_ visit spec id listed declares stands, stands⟩
      intro _ _ id _ _ _ earlier
      rw [first] at earlier
      exact absurd earlier (Nat.not_lt_zero id)
  · cases isModule

private def gathersForeign (network : Network) (visit : Visit) : Bool :=
  (network.names == ["a", "b", "c", "d", "m"]) &&
  ((visit.ownLayer?.bind network.layer?).any fun layer =>
    match layer.kind with
    | .composite [2, 3] => true
    | _ => false) &&
  !visit.instruction.isConnection &&
  (visit.all fun outer => outer.instruction.isConnection || outer.inner.all fun below =>
    match below.instruction.declaredName? with
    | some name => name != "d"
    | none => !below.instruction.isDeclaration) &&
  visit.inner.any fun block =>
    match block.instruction with
    | .block _ => block.inner.any fun below =>
      match below.instruction with
      | .layer spec => spec.name == "a"
      | _ => false
    | _ => false

/-- Where a connection inside a module turns to a declaration behind it, the layer of this
declaration is a child; and where a connection before the module turns to a declaration in a block
of it, the layer of that declaration is none. -/
theorem connectedModule_gathers_foreign :
    ∃ compiled root module own layer,
      compile "net" 0 (connectedModule [.connect "a" "b"] [.connect "c" "d"]
        [sizedLayer "dense" "b" 1, sizedLayer "dense" "d" 1]) = .ok compiled ∧
      rootVisit? "net" 0 (connectedModule [.connect "a" "b"] [.connect "c" "d"]
        [sizedLayer "dense" "b" 1, sizedLayer "dense" "d" 1]) = some root ∧
      Visit.Within module root ∧ module.ownLayer? = some own ∧
      compiled.network.layer? own = some layer ∧ layer.kind = .composite [2, 3] ∧
      ¬ DeclaredIn root module 3 ∧
      ∃ visit spec id, module.Lists visit ∧ visit.instruction = .layer spec ∧
        StandsFor root visit id ∧ id ∉ [2, 3] := by
  have passed : (compile "net" 0 (connectedModule [.connect "a" "b"] [.connect "c" "d"]
      [sizedLayer "dense" "b" 1, sizedLayer "dense" "d" 1])).toOption.any (fun compiled =>
        ((rootVisit? "net" 0 (connectedModule [.connect "a" "b"] [.connect "c" "d"]
          [sizedLayer "dense" "b" 1, sizedLayer "dense" "d" 1])).bind (Visit.below? [1])).any
            (gathersForeign compiled.network)) = true := by decide +kernel
  obtain ⟨compiled, compiles, passed⟩ := exists_compiled passed
  obtain ⟨root, module, isRoot, within, passed⟩ := exists_visit_at passed
  unfold gathersForeign at passed
  simp only [Bool.and_eq_true, beq_iff_eq, Visit.all_iff, Bool.or_eq_true, List.all_eq_true,
    Bool.not_eq_true', Option.any_eq_true, List.any_eq_true] at passed
  obtain ⟨⟨⟨⟨names, layer, isOwn, grouped⟩, noConnection⟩, otherNames⟩, block, isInner, listed⟩ :=
    passed
  obtain ⟨own, own?, found⟩ := Option.bind_eq_some_iff.1 isOwn
  obtain ⟨_, rootOf⟩ := exists_rootOf compiles
  cases isRoot.symm.trans rootOf.isRoot
  have named {visit : Visit} {id : LayerId} (visitWithin : visit.Within root)
      (stands : StandsFor root visit id) {key : String}
      (isNamed : visit.instruction.declaredName? = some key) :
      ["a", "b", "c", "d", "m"][id]? = some key := by
    have grows := (rootOf.faithful.around visitWithin).2.network
    rw [← names, rootOf.network, ← Network.named_iff_names]
    exact rootOf.binds.grows.named
      (grows.named ((rootOf.present_of_standsFor visitWithin stands).2 key isNamed))
  refine ⟨compiled, root, module, own, layer, compiles, isRoot, within, own?, found, ?_, ?_, ?_⟩
  · split at grouped
    · rename_i kind
      exact kind
    · cases grouped
  · rintro ⟨visit, inBody, stands⟩
    have visitWithin := inBody.within.trans within
    have others : ∀ outer, Visit.Within outer module → outer.instruction.isConnection = false →
        visit ∈ outer.inner → False := by
      intro outer outerWithin noConnection member
      have other := (otherNames outer outerWithin).resolve_left
        (fun connects => Bool.noConfusion (connects.symm.trans noConnection)) visit member
      split at other
      · rename_i key isNamed
        cases named visitWithin stands isNamed
        cases other
      · rename_i unnamed
        cases stands with
        | adds declares => rw [declares] at other; cases other
        | finds declares => rw [declares] at unnamed; cases unnamed
        | passed _ isNamed => cases unnamed.symm.trans isNamed
    cases inBody with
    | direct member => exact others module (.self module) noConnection member
    | deeper inside noConnection member => exact others _ inside.within noConnection member
  · split at listed
    · rename_i body isBlock
      obtain ⟨visit, member, isNamed⟩ := List.any_eq_true.1 listed
      split at isNamed
      · rename_i spec declares
        have lists : module.Lists visit := .block (.direct isInner) isBlock member
        have visitWithin := lists.inBody.within.trans within
        obtain ⟨id, stands⟩ := rootOf.exists_standsFor visitWithin declares
        refine ⟨visit, spec, id, lists, declares, stands, ?_⟩
        have isFirst : ["a", "b", "c", "d", "m"][id]? = some "a" :=
          named visitWithin stands (by rw [declares, ← eq_of_beq isNamed]; rfl)
        intro member
        rcases List.mem_cons.1 member with rfl | member
        · exact absurd isFirst (by decide)
        · rw [List.mem_singleton.1 member] at isFirst
          exact absurd isFirst (by decide)
      · cases isNamed
    · cases listed

end Runs

end Compile

end NetBlueprint
