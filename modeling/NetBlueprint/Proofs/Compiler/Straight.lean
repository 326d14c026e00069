import Mathlib.Data.List.Nodup
import NetBlueprint.Proofs.Compiler.Accounting
import NetBlueprint.Proofs.Compiler.Registering

/-!
Contract: programs that only declare and connect.

A straight program has no modules, loops, branches or templates, so it is a list of declarations and
a list of connections, in an order that may interleave them. A connection may compile declarations
ahead of their place, but each declaration still becomes one layer, and every connection is recorded
with its endpoints as they stand.

Owns: what a visit of a straight instruction leaves behind.

Does not own: that a straight program compiles, and what its connections are wired to.
-/

namespace NetBlueprint

namespace Instruction

mutual

/-- Decides whether an instruction only declares and connects layers, grouped in any way. -/
def isStraight : Instruction → Bool
  | .layer _ | .connect _ _ => true
  | .program body | .block body | .expand _ _ body => isStraightAll body
  | _ => false

def isStraightAll : List Instruction → Bool
  | [] => true
  | first :: rest => isStraight first && isStraightAll rest

end

mutual

/-- The declarations of a straight instruction in their order. -/
def declarations : Instruction → List LayerSpec
  | .layer spec => [spec]
  | .program body | .block body | .expand _ _ body => declarationsAll body
  | _ => []

def declarationsAll : List Instruction → List LayerSpec
  | [] => []
  | first :: rest => declarations first ++ declarationsAll rest

end

mutual

/-- The endpoints of the connections of a straight instruction in their order. -/
def connections : Instruction → List (String × String)
  | .connect source target => [(source, target)]
  | .program body | .block body | .expand _ _ body => connectionsAll body
  | _ => []

def connectionsAll : List Instruction → List (String × String)
  | [] => []
  | first :: rest => connections first ++ connectionsAll rest

end

private theorem mem_offered_layer {registry : List (String × Instruction)} {spec : LayerSpec}
    {entry : String × Instruction} (member : entry ∈ prescan registry (.layer spec)) :
    entry ∈ registry ∨ entry = (spec.name, .layer spec) := by
  rw [prescan] at member
  split at member
  · rename_i key forward
    cases declaredName?_of_forwardName? forward
    exact (CompileState.mem_offered member).imp_right fun same => Prod.ext same.1 same.2
  · exact .inl member

mutual

private theorem mem_prescan_straight (registry : List (String × Instruction))
    (entry : String × Instruction) : ∀ instruction : Instruction, instruction.isStraight = true →
      entry ∈ prescan registry instruction →
      entry ∈ registry ∨ ∃ spec ∈ instruction.declarations, entry = (spec.name, .layer spec) := by
  intro instruction straight member
  cases instruction with
  | layer spec =>
      exact (mem_offered_layer member).imp_right fun same => ⟨spec, List.mem_singleton_self _, same⟩
  | connect source target => exact .inl member
  | program body | block body | expand group annotations body =>
      exact mem_prescanAll_straight registry entry body straight member
  | _ => cases straight

private theorem mem_prescanAll_straight (registry : List (String × Instruction))
    (entry : String × Instruction) : ∀ body : List Instruction, isStraightAll body = true →
      entry ∈ prescanAll registry body →
      entry ∈ registry ∨ ∃ spec ∈ declarationsAll body, entry = (spec.name, .layer spec)
  | [], _, member => .inl member
  | first :: rest, straight, member => by
      rw [isStraightAll, Bool.and_eq_true] at straight
      rw [prescanAll] at member
      rcases mem_prescanAll_straight _ entry rest straight.2 member with
        earlier | ⟨spec, later, same⟩
      · rcases mem_prescan_straight registry entry first straight.1 earlier with
          old | ⟨spec, here, same⟩
        · exact .inl old
        · exact .inr ⟨spec, List.mem_append_left _ here, same⟩
      · exact .inr ⟨spec, List.mem_append_right _ later, same⟩

end

/-- What a straight program registers under a name is its declaration of that name. -/
theorem declared_of_prescan {program instruction : Instruction} {name : String}
    (straight : program.isStraight = true)
    (found : (program.prescan []).lookup name = some instruction) :
    ∃ spec ∈ program.declarations, spec.name = name ∧ instruction = .layer spec := by
  rcases mem_prescan_straight [] _ program straight (Table.mem_of_lookup found) with
    absent | ⟨spec, declared, same⟩
  · cases absent
  · cases same
    exact ⟨spec, declared, rfl, rfl⟩

end Instruction

/-- What a layer is called and what kind it has, as the outcome of a declaration. -/
def Layer.outline (layer : Layer) : String × Except CompileFault LayerKind :=
  (layer.name, .ok layer.kind)

/-- What a declared layer is called and what kind it has, if the declaration has one. -/
def LayerSpec.outline (spec : LayerSpec) : String × Except CompileFault LayerKind :=
  (spec.name, spec.layerKind)

def CompileState.recorded (state : CompileState) : List (String × String) :=
  state.pending.toList.map fun connection => (connection.source, connection.target)

def LayerSpec.listedIn (names : List String) (specs : List LayerSpec) : List LayerSpec :=
  specs.filter fun spec => names.contains spec.name

namespace LayerSpec

variable {names others : List String} {spec : LayerSpec} {specs : List LayerSpec}

theorem listedIn_cons_of_mem (member : spec.name ∈ names) :
    listedIn names (spec :: specs) = spec :: listedIn names specs :=
  List.filter_cons_of_pos (List.contains_iff_mem.2 member)

theorem listedIn_cons_of_not_mem (absent : spec.name ∉ names) :
    listedIn names (spec :: specs) = listedIn names specs :=
  List.filter_cons_of_neg fun present => absent (List.contains_iff_mem.1 present)

private theorem mem_listedIn : spec ∈ listedIn names specs ↔ spec ∈ specs ∧ spec.name ∈ names := by
  rw [listedIn, List.mem_filter, List.contains_iff_mem]

private theorem listedIn_congr (same : ∀ spec ∈ specs, spec.name ∈ names ↔ spec.name ∈ others) :
    listedIn names specs = listedIn others specs := by
  refine List.filter_congr fun spec member => ?_
  rw [Bool.eq_iff_iff, List.contains_iff_mem, List.contains_iff_mem]
  exact same spec member

/-- Listing one more name adds the declaration of that name. -/
theorem listedIn_cons_perm (apart : (specs.map LayerSpec.name).Nodup) (member : spec ∈ specs)
    (absent : spec.name ∉ names) :
    (listedIn (spec.name :: names) specs).Perm (spec :: listedIn names specs) := by
  induction specs with
  | nil => cases member
  | cons first rest inductionHypothesis =>
      rw [List.map_cons, List.nodup_cons] at apart
      have away {other : LayerSpec} (otherMember : other ∈ rest) : other.name ≠ first.name :=
        fun same => apart.1 (same ▸ List.mem_map_of_mem otherMember)
      rcases List.mem_cons.1 member with rfl | later
      · rw [listedIn_cons_of_mem List.mem_cons_self, listedIn_cons_of_not_mem absent]
        refine List.Perm.cons _ (.of_eq (listedIn_congr fun other otherMember => ?_))
        rw [List.mem_cons, or_iff_right (away otherMember)]
      · have inner := inductionHypothesis apart.2 later
        by_cases kept : first.name ∈ names
        · rw [listedIn_cons_of_mem (List.mem_cons_of_mem _ kept), listedIn_cons_of_mem kept]
          exact (inner.cons first).trans (.swap _ _ _)
        · have stillAbsent : first.name ∉ spec.name :: names := fun present =>
            (List.mem_cons.1 present).elim (away later).symm kept
          rw [listedIn_cons_of_not_mem stillAbsent, listedIn_cons_of_not_mem kept]
          exact inner

end LayerSpec

/-- Decides whether the dropout rate of a declaration, if there is one, is a number: a rate that is
none does not equal itself. -/
def LayerSpec.isNumeric (spec : LayerSpec) : Bool :=
  spec.dropout.all fun rate => rate == rate

/-- A declaration agrees with itself exactly if its dropout rate is a number. -/
theorem LayerSpec.same_self (spec : LayerSpec) : spec.same spec = spec.isNumeric := by
  have rates : (spec.dropout == spec.dropout) = spec.isNumeric := by
    unfold isNumeric
    cases spec.dropout <;> rfl
  simp only [same, beq_self_eq_true, rates, Bool.true_and, Bool.and_true]

def Distinct (declared : List LayerSpec) : Prop :=
  (declared.map LayerSpec.name).Nodup

instance (declared : List LayerSpec) : Decidable (Distinct declared) :=
  inferInstanceAs (Decidable (List.Nodup _))

private theorem Distinct.eq_of_name {declared : List LayerSpec} (distinct : Distinct declared)
    {one other : LayerSpec} (oneMember : one ∈ declared) (otherMember : other ∈ declared)
    (same : one.name = other.name) : one = other :=
  List.inj_on_of_nodup_map distinct oneMember otherMember same

theorem Distinct.later {earlier later : List LayerSpec} (distinct : Distinct (earlier ++ later)) :
    Distinct later := by
  rw [Distinct, List.map_append] at distinct
  exact (List.nodup_append.1 distinct).2.1

private theorem perm_append_outline {outlines : List (String × Except CompileFault LayerKind)}
    {spec : LayerSpec} {earlier later : List LayerSpec}
    (same : outlines.Perm (earlier.map LayerSpec.outline)) (more : (earlier ++ [spec]).Perm later) :
    (outlines ++ [spec.outline]).Perm (later.map LayerSpec.outline) := by
  refine (same.append_right _).trans ?_
  rw [← List.map_singleton, ← List.map_append]
  exact more.map _

namespace Compile

/-- A state of a run over given declarations in which nothing is wired yet. -/
structure Standing (declared : List LayerSpec) (state : CompileState) : Prop where
  sound : state.Sound
  noEdges : ∀ source target, ¬ state.network.Edge source target
  registered : ∀ {name instruction}, state.registry.lookup name = some instruction →
    ∃ spec ∈ declared, spec.name = name ∧ instruction = .layer spec
  visible : ∀ node ∈ state.network.nodes, ∃ id, (node.name, id) ∈ state.firstNamed

/-- What was come to has become layers, and so has what is still to come where it was compiled
ahead. -/
structure Placed (done todo : List LayerSpec) (state : CompileState) : Prop
    extends Standing (done ++ todo) state where
  layers : (state.network.nodes.map Layer.outline).Perm
    ((done ++ LayerSpec.listedIn state.compiledAhead todo).map
      LayerSpec.outline)
  once : state.compiledAhead.Nodup
  waiting : ∀ name ∈ state.compiledAhead, ∃ spec ∈ todo, spec.name = name ∧
    spec.isNumeric = true ∧ state.registry.lookup name = some (.layer spec)

section Steps

variable {before after : CompileState} {declared done todo : List LayerSpec} {spec : LayerSpec}

theorem Standing.of_leadsTo (standing : Standing declared before) (leads : before.LeadsTo after)
    (nodes : after.network.nodes = before.network.nodes)
    (registry : ∀ {name instruction}, after.registry.lookup name = some instruction →
      before.registry.lookup name = some instruction) : Standing declared after where
  sound := leads.sound standing.sound
  noEdges source target edge := standing.noEdges source target (leads.edges edge)
  registered found := standing.registered (registry found)
  visible node member := by
    obtain ⟨id, entry⟩ := standing.visible node (nodes ▸ member)
    exact ⟨id, leads.grows.firstNamed.subset entry⟩

/-- A step that adds no layer leaves placed what was placed. -/
theorem Placed.of_leadsTo (placed : Placed done todo before) (leads : before.LeadsTo after)
    (nodes : after.network.nodes = before.network.nodes)
    (registry : after.registry = before.registry)
    (compiled : after.compiledAhead = before.compiledAhead) : Placed done todo after where
  toStanding := placed.toStanding.of_leadsTo leads nodes fun found => by rwa [registry] at found
  layers := by
    rw [nodes, compiled]
    exact placed.layers
  once := compiled ▸ placed.once
  waiting := by
    rw [compiled, registry]
    exact placed.waiting

/-- A step that keeps the books and looks nothing up anew. -/
theorem Placed.of_quiet (placed : Placed done todo before) (quiet : before.Quiet after)
    (books : after.books = before.books) : Placed done todo after :=
  placed.of_leadsTo quiet.leadsTo quiet.nodes (congrArg Books.registry books)
    (congrArg Books.compiledAhead books)

private theorem exists_mem_offered (table : List (String × LayerId)) (name : String)
    (id : LayerId) : ∃ found, (name, found) ∈ CompileState.offered table name id := by
  unfold CompileState.offered
  split
  · rename_i taken
    exact Table.isSome_lookup_iff.1 taken
  · exact ⟨id, List.mem_append_right _ (List.mem_singleton_self _)⟩

/-- A new layer keeps the state standing. -/
theorem Standing.of_newLayer (standing : Standing declared before)
    (ran : Runs (newLayer spec) before () after) :
    Standing declared after ∧ after.books = before.books ∧ after.pending = before.pending ∧
      (after.network.nodes.map Layer.outline).Perm
        (before.network.nodes.map Layer.outline ++ [spec.outline]) := by
  obtain ⟨kind, isKind, rfl⟩ := runs_newLayer.1 ran
  have leaf := (LayerSpec.isDeclared_of_layerKind isKind).isLeaf
  have accepted := Network.accepts_of_isLeaf leaf before.network
  have quiet := (before.withLayer spec.name kind).quiet_logged
    s!"LAYER {spec.kind} '{spec.name}' -> #{before.network.size}"
  have leads := (CompileState.leadsTo_withLayer spec.name accepted).trans quiet.leadsTo
  have nodes := quiet.nodes.trans (before.nodes_withLayer spec.name kind)
  refine ⟨⟨leads.sound standing.sound, ?_, standing.registered, ?_⟩, rfl, rfl, ?_⟩
  · exact fun source target edge => standing.noEdges source target (leads.edges edge)
  · intro node member
    rw [nodes] at member
    rcases List.mem_append.1 member with old | new
    · obtain ⟨id, entry⟩ := standing.visible node old
      exact ⟨id, leads.grows.firstNamed.subset entry⟩
    · cases List.mem_singleton.1 new
      exact exists_mem_offered _ _ _
  · rw [nodes, List.map_append, List.map_singleton, LayerSpec.outline, isKind]
    exact .refl _

/-! ## Declarations -/

/-- What was come to is there. -/
theorem Placed.named (placed : Placed done todo before) (member : spec ∈ done) :
    ∃ id, before.network.Named spec.name id := by
  have listed : spec.outline ∈ before.network.nodes.map Layer.outline :=
    placed.layers.symm.subset (List.mem_map_of_mem (List.mem_append_left _ member))
  obtain ⟨node, stored, same⟩ := List.mem_map.1 listed
  obtain ⟨layer, layerStored, rfl⟩ := List.mem_map.1 stored
  obtain ⟨id, inside, rfl⟩ := Array.mem_iff_getElem.1 (Array.mem_toList_iff.1 layerStored)
  exact ⟨id, _, Array.getElem?_eq_getElem inside, congrArg Prod.fst same⟩

/-- What is there has the name of a declaration that was come to or compiled ahead. -/
theorem Placed.unnamed (placed : Placed done todo before) (distinct : Distinct (done ++ todo))
    (member : spec ∈ todo) (notCompiled : spec.name ∉ before.compiledAhead) (id : LayerId) :
    ¬ before.network.Named spec.name id := by
  rintro ⟨layer, found, sameName⟩
  have stored : layer.node.outline ∈ before.network.nodes.map Layer.outline :=
    List.mem_map_of_mem (List.mem_map_of_mem (Network.mem_layers found))
  obtain ⟨other, otherMember, same⟩ := List.mem_map.1 (placed.layers.subset stored)
  have otherName : other.name = spec.name := (congrArg Prod.fst same).trans sameName
  rcases List.mem_append.1 otherMember with earlier | waiting
  · cases distinct.eq_of_name (List.mem_append_left _ earlier) (List.mem_append_right _ member)
      otherName
    rw [Distinct, List.map_append] at distinct
    exact (List.nodup_append.1 distinct).2.2 _ (List.mem_map_of_mem earlier) _
      (List.mem_map_of_mem member) rfl
  · exact notCompiled (otherName ▸ (LayerSpec.mem_listedIn.1 waiting).2)

/-- A declaration that is come to is taken off the books, or else it is new. -/
theorem Placed.layer_cases (placed : Placed done (spec :: todo) before)
    (distinct : Distinct (done ++ spec :: todo)) :
    (∃ taken, Takes spec.name (.layer spec) before taken ∧ before.Quiet taken ∧
        ∀ after, Runs (layer spec) before () after ↔
          after = taken.logged s!"LAYER '{spec.name}' already compiled lazily, skipping") ∨
      spec.name ∉ before.compiledAhead ∧
        ∀ after, Runs (layer spec) before () after ↔ Runs (newLayer spec) before () after := by
  obtain ⟨taken, between, takes⟩ := total_takeAhead spec.name (.layer spec) before
  rcases runs_takeAhead takes with ⟨rfl, taking⟩ | ⟨rfl, rfl, notTaken⟩
  · refine .inl ⟨between, taking, isQuiet_takeAhead _ _ _ _ _ takes, fun after => ?_⟩
    constructor
    · intro ran
      obtain ⟨_, _, again, rest⟩ := runs_bind.1 ran
      cases takes.symm.trans again
      exact runs_log.1 rest
    · exact fun logged => runs_bind.2 ⟨true, between, takes, runs_log.2 logged⟩
  · have notCompiled : spec.name ∉ between.compiledAhead := by
      intro member
      obtain ⟨other, otherMember, sameName, numeric, registered⟩ := placed.waiting _ member
      cases distinct.eq_of_name (List.mem_append_right _ otherMember)
        (List.mem_append_right _ List.mem_cons_self) sameName
      exact notTaken _ registered (spec.same_self.trans numeric) member
    have unnamed := placed.unnamed distinct List.mem_cons_self notCompiled
    exact .inr ⟨notCompiled, fun _ => runs_layer_of_unnamed placed.sound unnamed takes⟩

private theorem Placed.of_taken (placed : Placed done (spec :: todo) before)
    (distinct : Distinct (done ++ spec :: todo))
    (taking : Takes spec.name (.layer spec) before after) (quiet : before.Quiet after) :
    Placed (done ++ [spec]) todo after := by
  have apart : ∀ other ∈ todo, other.name ≠ spec.name := by
    have nodup := (List.nodup_cons.1 distinct.later).1
    exact fun other member same => nodup (same ▸ List.mem_map_of_mem member)
  obtain ⟨_, compiled, _⟩ := Books.mk.inj taking.books
  refine ⟨?_, ?_, ?_, ?_⟩
  · rw [List.append_assoc, List.singleton_append]
    exact placed.toStanding.of_leadsTo quiet.leadsTo quiet.nodes taking.shrinks
  · have kept : ∀ other ∈ todo,
        other.name ∈ before.compiledAhead.erase spec.name ↔
          other.name ∈ before.compiledAhead := by
      intro other member
      rw [placed.once.mem_erase_iff]
      exact and_iff_right (apart other member)
    have layers := placed.layers
    rw [LayerSpec.listedIn_cons_of_mem taking.compiled] at layers
    rw [quiet.nodes, compiled, List.append_assoc, List.singleton_append,
      LayerSpec.listedIn_congr kept]
    exact layers
  · rw [compiled]
    exact placed.once.erase _
  · intro name member
    rw [compiled, placed.once.mem_erase_iff] at member
    obtain ⟨other, otherMember, sameName, numeric, registered⟩ := placed.waiting name member.2
    refine ⟨other, ?_, sameName, numeric, ?_⟩
    · rcases List.mem_cons.1 otherMember with rfl | later
      · exact absurd sameName.symm member.1
      · exact later
    · rw [taking.lookup_of_ne member.1]
      exact registered

private theorem Placed.of_added (placed : Placed done (spec :: todo) before)
    (notCompiled : spec.name ∉ before.compiledAhead) (ran : Runs (newLayer spec) before () after) :
    Placed (done ++ [spec]) todo after ∧ after.pending = before.pending := by
  obtain ⟨standing, books, pending, layers⟩ := placed.toStanding.of_newLayer ran
  obtain ⟨registry, compiled, _⟩ := Books.mk.inj books
  refine ⟨⟨?_, ?_, compiled ▸ placed.once, ?_⟩, pending⟩
  · rw [List.append_assoc, List.singleton_append]
    exact standing
  · have earlier := placed.layers
    rw [LayerSpec.listedIn_cons_of_not_mem notCompiled] at earlier
    rw [compiled, List.append_assoc, List.singleton_append]
    refine layers.trans (perm_append_outline earlier ?_)
    rw [List.append_assoc]
    exact (List.perm_append_singleton _ _).append_left _
  · intro name member
    rw [compiled] at member
    obtain ⟨other, otherMember, sameName, numeric, registered⟩ := placed.waiting name member
    refine ⟨other, ?_, sameName, numeric, ?_⟩
    · rcases List.mem_cons.1 otherMember with rfl | later
      · exact absurd (sameName ▸ member) notCompiled
      · exact later
    · rw [registry]
      exact registered

/-- A declaration that is come to becomes a layer, unless it was compiled ahead. -/
theorem Placed.of_layer (placed : Placed done (spec :: todo) before)
    (distinct : Distinct (done ++ spec :: todo)) (ran : Runs (layer spec) before () after) :
    Placed (done ++ [spec]) todo after ∧ after.pending = before.pending := by
  rcases placed.layer_cases distinct with ⟨between, taking, quiet, runs_iff⟩ |
    ⟨notCompiled, runs_iff⟩
  · obtain rfl := (runs_iff after).1 ran
    have placedTaken := placed.of_taken distinct taking quiet
    exact ⟨placedTaken.of_quiet (between.quiet_logged _) rfl, quiet.pending⟩
  · exact placed.of_added notCompiled ((runs_iff after).1 ran)

/-! ## Connections -/

/-- A visit of a declaration runs it. -/
theorem runs_of_faithful_layer {visit : Visit} (faithful : visit.Faithful)
    (isLayer : visit.instruction = .layer spec) :
    Runs (layer spec) visit.before () visit.after := by
  have unfolds := faithful.unfolds
  rw [isLayer] at unfolds
  generalize visit.inner = inner at unfolds
  cases unfolds with
  | layer ran => exact ran

/-- Only declarations that are still to come are turned to, and they make new layers. -/
theorem Placed.of_turned {name : String} {instruction : Instruction} {saved : ScopeId}
    {start : CompileState} (placed : Placed done todo before)
    (unnamed : ∀ id, ¬ before.network.Named name id)
    (started : Runs (startAhead name) before (some (instruction, saved)) start) :
    Turns name instruction before start ∧ Standing (done ++ todo) start ∧
      ∃ spec ∈ todo, spec.name = name ∧ instruction = .layer spec ∧
        ∀ finish, Runs (layer spec) start () finish ↔ Runs (newLayer spec) start () finish := by
  rcases runs_startAhead started with ⟨isNone, _⟩ | ⟨instruction, isSome, turns⟩
  · cases isNone
  cases isSome
  have quiet := isQuiet_startAhead _ _ _ _ started
  obtain ⟨registry, compiled, _⟩ := Books.mk.inj turns.books
  have standing : Standing (done ++ todo) start :=
    placed.toStanding.of_leadsTo quiet.leadsTo quiet.nodes fun found => registry ▸ found
  obtain ⟨spec, declared, rfl, rfl⟩ := placed.registered turns.registered
  have member : spec ∈ todo := by
    refine (List.mem_append.1 declared).resolve_left fun earlier => ?_
    obtain ⟨id, named⟩ := placed.named earlier
    exact unnamed id named
  have startUnnamed (id : LayerId) : ¬ start.network.Named spec.name id := by
    rintro ⟨layer, found, sameName⟩
    rw [Network.layer?, quiet.layers] at found
    exact unnamed id ⟨layer, found, sameName⟩
  -- The name was not compiled ahead before, so the declaration is not taken off the books.
  obtain ⟨taken, between, takes⟩ := total_takeAhead spec.name (.layer spec) start
  rcases runs_takeAhead takes with ⟨rfl, taking⟩ | ⟨rfl, rfl, _⟩
  · exact absurd (compiled ▸ taking.compiled) turns.notCompiled
  · exact ⟨turns, standing, spec, member, rfl, rfl, fun _ =>
      runs_layer_of_unnamed standing.sound startUnnamed takes⟩

/-- What is compiled ahead is a declaration that is still to come. -/
theorem Placed.of_ahead {name : String} {inner : List Visit} (placed : Placed done todo before)
    (distinct : Distinct (done ++ todo))
    (numeric : ∀ spec ∈ done ++ todo, spec.name = name → spec.isNumeric = true)
    (unnamed : ∀ id, ¬ before.network.Named name id)
    (ahead : Ahead name before inner after) (faithful : ∀ visit ∈ inner, visit.Faithful) :
    Placed done todo after ∧ after.pending = before.pending := by
  cases ahead.outcome with
  | skipped => exact ⟨placed, rfl⟩
  | @turned visit _ started _ finished =>
      obtain ⟨turns, standing, spec, member, rfl, isLayer, runs_iff⟩ :=
        placed.of_turned unnamed started
      have startQuiet := isQuiet_startAhead _ _ _ _ started
      have finishQuiet := isQuiet_finishAhead _ _ _ _ _ finished
      obtain ⟨startRegistry, startCompiled, _⟩ := Books.mk.inj turns.books
      obtain ⟨finishRegistry, finishCompiled, _⟩ := Books.mk.inj (runs_finishAhead finished).1
      have ran := runs_of_faithful_layer (faithful visit (List.mem_singleton_self _)) isLayer
      obtain ⟨finishStanding, books, pending, layers⟩ :=
        standing.of_newLayer ((runs_iff _).1 ran)
      obtain ⟨registry, compiled, _⟩ := Books.mk.inj books
      have afterRegistry : after.registry = before.registry :=
        finishRegistry.trans (registry.trans startRegistry)
      have afterCompiled : after.compiledAhead = spec.name :: before.compiledAhead := by
        rw [finishCompiled, compiled, startCompiled]
      refine ⟨⟨finishStanding.of_leadsTo finishQuiet.leadsTo finishQuiet.nodes fun found =>
        finishRegistry ▸ found, ?_, ?_, ?_⟩, ?_⟩
      · have listed := LayerSpec.listedIn_cons_perm distinct.later member turns.notCompiled
        rw [finishQuiet.nodes, afterCompiled]
        rw [startQuiet.nodes] at layers
        refine layers.trans (perm_append_outline placed.layers ?_)
        rw [List.append_assoc]
        exact ((List.perm_append_singleton _ _).trans listed.symm).append_left _
      · rw [afterCompiled]
        exact List.nodup_cons.2 ⟨turns.notCompiled, placed.once⟩
      · intro other otherMember
        rw [afterCompiled] at otherMember
        rw [afterRegistry]
        rcases List.mem_cons.1 otherMember with rfl | earlier
        · exact ⟨spec, member, rfl, numeric spec (List.mem_append_right _ member) rfl,
            isLayer ▸ turns.registered⟩
        · exact placed.waiting other earlier
      · rw [finishQuiet.pending, pending, startQuiet.pending]

/-- An endpoint that is compiled ahead is placed, and nothing else is. -/
theorem Placed.of_ensured {scope : ScopeId} {endpoint : String} {inner : List Visit}
    (placed : Placed done todo before) (distinct : Distinct (done ++ todo))
    (numeric : ∀ spec ∈ done ++ todo, spec.name = endpoint → spec.isNumeric = true)
    (ensured : Ensured scope endpoint before inner after)
    (faithful : ∀ visit ∈ inner, visit.Faithful) :
    Placed done todo after ∧ after.pending = before.pending := by
  rcases ensured.cases with ⟨_, rfl, rfl⟩ | ⟨unresolved, ahead⟩
  · exact ⟨placed, rfl⟩
  · exact placed.of_ahead distinct numeric (CompileState.not_named_of_resolveExact unresolved)
      ahead faithful

end Steps

/-! ## Whole instructions -/

def Plain (connection : String × String) : Prop :=
  hasBrackets connection.1 = false ∧ hasBrackets connection.2 = false

/-- Declarations have been placed, and connections recorded, on the way between two states. -/
structure Carries (specs : List LayerSpec) (connections : List (String × String))
    (done todo : List LayerSpec) (before after : CompileState) : Prop where
  placed : Placed (done ++ specs) todo after
  recorded : after.recorded = before.recorded ++ connections
  plain : ∀ connection ∈ connections, Plain connection

def NoAutoInput (connections : List (String × String)) : Prop :=
  ∀ connection ∈ connections, Name.isAutoInput connection.1 = false

instance (connections : List (String × String)) : Decidable (NoAutoInput connections) :=
  inferInstanceAs (Decidable (∀ connection ∈ connections, Name.isAutoInput connection.1 = false))

/-- No connection names a declaration whose dropout rate is not a number. -/
def NumericEndpoints (declared : List LayerSpec) (connections : List (String × String)) : Prop :=
  ∀ connection ∈ connections, ∀ spec ∈ declared,
    spec.name = connection.1 ∨ spec.name = connection.2 → spec.isNumeric = true

instance (declared : List LayerSpec) (connections : List (String × String)) :
    Decidable (NumericEndpoints declared connections) :=
  inferInstanceAs (Decidable (∀ connection ∈ connections, ∀ spec ∈ declared,
    spec.name = connection.1 ∨ spec.name = connection.2 → spec.isNumeric = true))

/-- A program that only declares and connects layers, whose layers can be told apart, and none of
whose connections starts at an auto-input. -/
structure Straight (program : Instruction) : Prop where
  shape : program.isStraight = true
  distinct : Distinct program.declarations
  noAuto : NoAutoInput program.connections

def Straightforward (visit : Visit) : Prop :=
  ∀ done todo : List LayerSpec, visit.instruction.isStraight = true →
    Distinct (done ++ (visit.instruction.declarations ++ todo)) →
    NoAutoInput visit.instruction.connections →
    NumericEndpoints (done ++ (visit.instruction.declarations ++ todo))
      visit.instruction.connections →
    Placed done (visit.instruction.declarations ++ todo) visit.before →
    Carries visit.instruction.declarations visit.instruction.connections done todo visit.before
      visit.after

section Carrying

variable {before between after : CompileState} {done todo : List LayerSpec} {inner : List Visit}

/-- What is asked of the connections of a body is asked of those of its first instruction, and of
the others once the declarations of the first are done. -/
theorem NumericEndpoints.parts {declared : List LayerSpec} {first rest : List (String × String)}
    (numeric : NumericEndpoints (done ++ (declared ++ todo)) (first ++ rest)) :
    NumericEndpoints (done ++ (declared ++ todo)) first ∧
      NumericEndpoints (done ++ declared ++ todo) rest := by
  rw [List.append_assoc]
  exact List.forall_mem_append.1 numeric

theorem Carries.of_quiet {specs : List LayerSpec} {connections : List (String × String)}
    (quiet : before.Quiet between) (carries : Carries specs connections done todo between after) :
    Carries specs connections done todo before after where
  placed := carries.placed
  recorded := by
    rw [carries.recorded, CompileState.recorded, quiet.pending]
    rfl
  plain := carries.plain

private theorem carries_of_connect {source target : String} {started ensured : CompileState}
    {scope : ScopeId} {first second : List Visit} (distinct : Distinct (done ++ todo))
    (noAuto : Name.isAutoInput source = false)
    (numeric : NumericEndpoints (done ++ todo) [(source, target)])
    (placed : Placed done todo before)
    (starts : Runs (startConnect source target) before scope started)
    (sourceEnsured : Ensured scope source started first between)
    (targetEnsured : Ensured scope target between second ensured)
    (faithful : ∀ visit ∈ first ++ second, visit.Faithful)
    (finishes : Runs (finishConnect scope source target) ensured () after) :
    Carries [] [(source, target)] done todo before after := by
  obtain ⟨plain, rfl, rfl⟩ := (runs_startConnect_iff (addsNoInput_of_noAuto noAuto _)).1 starts
  have ends := numeric _ (List.mem_singleton_self _)
  obtain ⟨sourcePlaced, sourcePending⟩ := placed.of_ensured distinct
    (fun spec member same => ends spec member (.inl same)) sourceEnsured
    fun visit member => faithful visit (List.mem_append_left _ member)
  obtain ⟨targetPlaced, targetPending⟩ := sourcePlaced.of_ensured distinct
    (fun spec member same => ends spec member (.inr same)) targetEnsured
    fun visit member => faithful visit (List.mem_append_right _ member)
  have settles := settles_of_finishConnect finishes
  have nodes := nodes_of_finishConnect finishes
  obtain ⟨registry, compiled, _⟩ :=
    Books.mk.inj (keeps_finishConnect steady_books _ _ _ _ _ _ finishes)
  obtain ⟨flagged, recorded⟩ := settles.recorded
  refine ⟨⟨⟨settles.sound targetPlaced.sound, ?_, ?_, ?_⟩, ?_, compiled ▸ targetPlaced.once, ?_⟩,
    ?_, ?_⟩
  · exact fun first second edge => targetPlaced.noEdges first second (settles.edges edge)
  · intro name instruction found
    rw [List.append_nil]
    exact targetPlaced.registered (registry ▸ found)
  · intro node member
    obtain ⟨id, entry⟩ := targetPlaced.visible node (nodes ▸ member)
    exact ⟨id, settles.grows.firstNamed.subset entry⟩
  · rw [nodes, compiled, List.append_nil]
    exact targetPlaced.layers
  · rw [compiled, registry]
    exact targetPlaced.waiting
  · rw [CompileState.recorded, recorded, targetPending, sourcePending, List.map_append]
    rfl
  · intro connection member
    cases List.mem_singleton.1 member
    exact plain

/-- The instructions of a body carry what they declare and connect, in their order. -/
theorem Sequence.carries {body : List Instruction}
    (sequence : Sequence Is body before inner after)
    (each : ∀ visit ∈ inner, Straightforward visit) {done : List LayerSpec}
    (straight : Instruction.isStraightAll body = true)
    (distinct : Distinct (done ++ (Instruction.declarationsAll body ++ todo)))
    (noAuto : NoAutoInput (Instruction.connectionsAll body))
    (numeric : NumericEndpoints (done ++ (Instruction.declarationsAll body ++ todo))
      (Instruction.connectionsAll body))
    (placed : Placed done (Instruction.declarationsAll body ++ todo) before) :
    Carries (Instruction.declarationsAll body) (Instruction.connectionsAll body) done todo before
      after := by
  induction sequence generalizing done with
  | done state =>
      refine ⟨?_, (List.append_nil _).symm, fun _ => (absurd · List.not_mem_nil)⟩
      rw [Instruction.declarationsAll, List.append_nil]
      exact placed
  | @next template rest visit _ _ isMatch _ inductionHypothesis =>
      cases isMatch
      rw [Instruction.isStraightAll, Bool.and_eq_true] at straight
      rw [Instruction.declarationsAll, List.append_assoc] at distinct numeric placed
      obtain ⟨firstNoAuto, restNoAuto⟩ := List.forall_mem_append.1 noAuto
      obtain ⟨firstNumeric, restNumeric⟩ := numeric.parts
      have first := each visit List.mem_cons_self done _ straight.1 distinct firstNoAuto
        firstNumeric placed
      have following := inductionHypothesis
        (fun visit member => each visit (List.mem_cons_of_mem _ member)) straight.2
        (by rwa [List.append_assoc]) restNoAuto restNumeric first.placed
      refine ⟨?_, ?_, ?_⟩
      · rw [Instruction.declarationsAll, ← List.append_assoc]
        exact following.placed
      · rw [following.recorded, first.recorded, List.append_assoc]
        rfl
      · intro connection member
        exact (List.mem_append.1 member).elim (first.plain connection) (following.plain connection)

/-- Every straight instruction carries what it declares and connects. -/
theorem Unfolds.carries {instruction : Instruction}
    (unfolds : Unfolds instruction before inner after)
    (faithful : ∀ visit ∈ inner, visit.Faithful)
    (each : ∀ visit ∈ inner, Straightforward visit) (straight : instruction.isStraight = true)
    (distinct : Distinct (done ++ (instruction.declarations ++ todo)))
    (noAuto : NoAutoInput instruction.connections)
    (numeric : NumericEndpoints (done ++ (instruction.declarations ++ todo))
      instruction.connections)
    (placed : Placed done (instruction.declarations ++ todo) before) :
    Carries instruction.declarations instruction.connections done todo before after := by
  cases unfolds with
  | program sequence => exact sequence.carries each straight distinct noAuto numeric placed
  | block sequence => exact sequence.carries each straight distinct noAuto numeric placed
  | expand opens sequence =>
      have quiet := isQuiet_startExpand _ _ _ _ _ _ opens
      have started := placed.of_quiet quiet (keeps_startExpand steady_books _ _ _ _ _ _ opens)
      exact (sequence.carries each straight distinct noAuto numeric started).of_quiet quiet
  | layer ran =>
      obtain ⟨afterwards, pending⟩ := placed.of_layer distinct ran
      refine ⟨afterwards, ?_, fun _ => (absurd · List.not_mem_nil)⟩
      rw [CompileState.recorded, pending]
      exact (List.append_nil _).symm
  | connect starts sourceEnsured targetEnsured finishes =>
      exact carries_of_connect distinct (noAuto _ (List.mem_singleton_self _)) numeric placed starts
        sourceEnsured targetEnsured faithful finishes
  | _ => cases straight

end Carrying

end Compile

/-- Every visit of a straight instruction carries what the instruction declares and connects. -/
theorem Visit.Faithful.straightforward {visit : Visit} (faithful : visit.Faithful) :
    Compile.Straightforward visit := by
  induction faithful with
  | intro unfolds inner inductionHypothesis =>
      exact fun _ _ => unfolds.carries inner inductionHypothesis

end NetBlueprint
