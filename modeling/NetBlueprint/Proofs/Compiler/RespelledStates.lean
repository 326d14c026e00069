import NetBlueprint.Compiler.Grouping
import NetBlueprint.Proofs.Compiler.RespelledLayers

/-!
Contract: states of two runs that differ in the marks of suffixes only.

Two runs of one program keep tables of the same shape: the keys of one are respelled in the other,
and the layers behind them have the same numbers. So whatever one run looks up by name the other
finds under the name respelled.

Owns: states that correspond, what is found in them by name, and what adding a layer does to them.

Does not own: which actions keep two states in step.
-/

namespace NetBlueprint

/-! ## Names of layers -/

/-- The name of a layer of one run and that of another in its place: a branch without a name is
called by its number. -/
inductive LayerName (pairs : List (String × String)) : String → String → Prop where
  | respelled {one other : String} (name : RespelledName pairs one other) :
      LayerName pairs one other
  | numbered (ordinal : Nat) : LayerName pairs s!"if_{ordinal}" s!"if_{ordinal}"

/-- A key of one run is the name of a layer where that of the other run is the name in its place. -/
def SameKey (pairs : List (String × String)) (key otherKey : String) : Prop :=
  ∀ {one other : String}, LayerName pairs one other → (key = one ↔ otherKey = other)

variable {pairs : List (String × String)}

theorem LayerName.mono {more : List (String × String)} (grows : pairs ⊆ more) {one other : String}
    (name : LayerName pairs one other) : LayerName more one other := by
  cases name with
  | respelled name => exact .respelled (name.mono grows)
  | numbered ordinal => exact .numbered ordinal

private theorem toList_numbered (ordinal : Nat) :
    (s!"if_{ordinal}").toList = 'i' :: 'f' :: '_' :: (toString (ordinal : Int)).toList := by
  rw [show s!"if_{ordinal}" = "if_" ++ Nat.repr ordinal from rfl, String.toList_append]
  rfl

private theorem single_numbered (ordinal : Nat) :
    Name.beforeSuffix? (s!"if_{ordinal}").toList = none := by
  have noUnderscore := Spliced.noUnderscore ordinal
  have digits : ∀ {text : List Char}, '_' ∉ text → Name.beforeSuffix? text = none := by
    intro text free
    induction text with
    | nil => rfl
    | cons first rest inductionHypothesis =>
        rw [Name.beforeSuffix?_cons_eq_none]
        exact ⟨fun ⟨isFirst, _⟩ => free (isFirst ▸ List.mem_cons_self),
          inductionHypothesis fun member => free (List.mem_cons_of_mem _ member)⟩
  rw [toList_numbered]
  simp only [Name.beforeSuffix?_cons_eq_none, digits noUnderscore, and_true]
  refine ⟨fun ⟨same, _⟩ => absurd same (by decide), fun ⟨same, _⟩ => absurd same (by decide),
    fun ⟨_, next⟩ => ?_⟩
  exact noUnderscore (List.mem_of_mem_head? next)

private theorem ne_numbered {one other : String} (respelled : RespelledText pairs one other)
    (ordinal : Nat) : one ≠ s!"if_{ordinal}" := by
  rintro rfl
  rcases respelled.cases with ⟨_, noUnderscore⟩ | ⟨doubled, _⟩
  · rw [toList_numbered] at noUnderscore
    exact noUnderscore (by simp)
  · exact doubled.beforeSuffix? (single_numbered ordinal)

section Keys

variable (pairing : Suffix.Pairing pairs)

include pairing

theorem sameKey_text {key otherKey : String} (respelled : RespelledText pairs key otherKey) :
    SameKey pairs key otherKey := by
  intro one other name
  cases name with
  | respelled name => exact equalAlike_text pairing respelled name.respelled
  | numbered ordinal =>
      exact iff_of_false (ne_numbered respelled ordinal) (ne_numbered respelled.swap ordinal)

private theorem sameKey_name {key otherKey : String} (name : LayerName pairs key otherKey) :
    SameKey pairs key otherKey := by
  cases name with
  | respelled name => exact sameKey_text pairing name.respelled
  | numbered ordinal =>
      intro one other name
      cases name with
      | respelled name =>
          exact iff_of_false (fun same => ne_numbered name.respelled ordinal same.symm)
            fun same => ne_numbered name.respelled.swap ordinal same.symm
      | numbered other => rfl

end Keys

/-- A name without its suffix is the same in both runs. -/
theorem LayerName.base_eq {one other : String} (name : LayerName pairs one other) :
    Name.base one = Name.base other := by
  cases name with
  | respelled name => exact name.base.1
  | numbered ordinal => rfl

/-! ## Tables -/

structure EntriesRelated {Key OtherKey Value OtherValue : Type} (Keys : Key → OtherKey → Prop)
    (Values : Value → OtherValue → Prop) (one : Key × Value) (other : OtherKey × OtherValue) :
    Prop where
  key : Keys one.1 other.1
  value : Values one.2 other.2

/-- Tables of layers: the names stand for layers of the same numbers. -/
abbrev SameLayers (pairs : List (String × String)) :
    List (String × LayerId) → List (String × LayerId) → Prop :=
  List.Forall₂ (EntriesRelated (LayerName pairs) (· = ·))

section Tables

variable {Value : Type} {Values : Value → Value → Prop} {Keys : String → String → Prop}
  {table otherTable : List (String × Value)} {key otherKey : String}

/-- Names that stand for one another are found in the same place. -/
theorem lookup_eq {layers otherLayers : List (String × LayerId)}
    (tables : SameLayers pairs layers otherLayers) (same : SameKey pairs key otherKey) :
    layers.lookup key = otherLayers.lookup otherKey := by
  have found := Table.rel_lookup tables fun entry => same entry.key
  generalize layers.lookup key = one at found ⊢
  generalize otherLayers.lookup otherKey = other at found ⊢
  cases found with
  | none => rfl
  | some entry => exact congrArg some entry.value

theorem isSome_eq_of_rel {First Second : Type} {Related : First → Second → Prop}
    {one : Option First} {other : Option Second} (related : Option.Rel Related one other) :
    one.isSome = other.isSome := by
  cases related <;> rfl

private theorem rel_offered (tables : List.Forall₂ (EntriesRelated Keys Values) table otherTable)
    (same : ∀ {one other}, Keys one other → (key = one ↔ otherKey = other))
    (keys : Keys key otherKey) {value otherValue : Value} (values : Values value otherValue) :
    List.Forall₂ (EntriesRelated Keys Values) (CompileState.offered table key value)
      (CompileState.offered otherTable otherKey otherValue) := by
  unfold CompileState.offered
  rw [isSome_eq_of_rel (Table.rel_lookup tables fun entry => same entry.key)]
  split
  · exact tables
  · exact List.rel_append tables (.cons ⟨keys, values⟩ .nil)

end Tables

/-! ## Networks -/

structure Layer.Corresponds (pairs : List (String × String)) (one other : Layer) : Prop where
  id : one.id = other.id
  name : LayerName pairs one.name other.name
  kind : one.kind.SameUpToTexts other.kind
  inputs : one.inputs = other.inputs
  outputs : one.outputs = other.outputs

structure TemplateCorresponds (pairs : List (String × String)) (one other : String × Instruction) :
    Prop where
  key : one.1 = other.1
  isLabel : Suffix.IsLabel one.1.toList
  definition : one.2.Corresponds pairs other.2

/-- A network of one run and that of another in its place. -/
structure Network.Corresponds (pairs : List (String × String)) (one other : Network) : Prop where
  layers : List.Forall₂ (Layer.Corresponds pairs) one.layers.toList other.layers.toList
  templates : List.Forall₂ (TemplateCorresponds pairs) one.templates other.templates
  issues : one.issues.length = other.issues.length

namespace LayerKind.SameUpToTexts

variable {one other : LayerKind} (same : one.SameUpToTexts other)

include same

theorem isInput : one.isInput = other.isInput := by
  cases same <;> rfl

theorem isOutput : one.isOutput = other.isOutput := by
  cases same <;> rfl

end LayerKind.SameUpToTexts

/-- Changing the elements in one place keeps lists related. -/
theorem rel_modify {First Second : Type} {Related : First → Second → Prop} {one : List First}
    {other : List Second} (related : List.Forall₂ Related one other) {change : First → First}
    {otherChange : Second → Second}
    (changes : ∀ value otherValue, Related value otherValue →
      Related (change value) (otherChange otherValue)) (index : Nat) :
    List.Forall₂ Related (one.modify index change) (other.modify index otherChange) := by
  induction related generalizing index with
  | nil => cases index <;> exact .nil
  | cons first rest inductionHypothesis =>
      cases index with
      | zero => exact .cons (changes _ _ first) rest
      | succ index => exact .cons first (inductionHypothesis index)

namespace Network.Corresponds

variable {one other : Network} (networks : one.Corresponds pairs other)

include networks

theorem size_eq : one.size = other.size := by
  have length := networks.layers.length_eq
  rwa [Array.length_toList, Array.length_toList] at length

theorem layer? (id : LayerId) :
    Option.Rel (Layer.Corresponds pairs) (one.layer? id) (other.layer? id) := by
  have found := Table.rel_getElem? networks.layers id
  rwa [Array.getElem?_toList, Array.getElem?_toList] at found

/-- A test of a layer that depends on its kind alone gives the same in both runs. -/
theorem any_eq (test : LayerKind → Bool)
    (same : ∀ {kind otherKind}, kind.SameUpToTexts otherKind → test kind = test otherKind)
    (id : LayerId) : (one.layer? id).any (fun layer => test layer.kind) =
      (other.layer? id).any fun layer => test layer.kind := by
  have found := networks.layer? id
  generalize one.layer? id = layer at found ⊢
  generalize other.layer? id = otherLayer at found ⊢
  cases found with
  | none => rfl
  | some layers => exact same layers.kind

/-- A name is found at the same number in both runs. -/
theorem findId?_eq {key otherKey : String} (same : SameKey pairs key otherKey) :
    one.findId? key = other.findId? otherKey := by
  unfold findId? find?
  rw [← Array.find?_toList, ← Array.find?_toList]
  generalize one.layers.toList = layers, other.layers.toList = otherLayers,
    networks.layers = related
  induction related with
  | nil => rfl
  | cons first _ inductionHypothesis =>
      rw [List.find?_cons, List.find?_cons]
      rw [beq_eq_beq.2 (eq_comm.trans ((same first.name).trans eq_comm))]
      split
      · exact congrArg some first.id
      · exact inductionHypothesis

/-- Adding layers that correspond keeps networks in correspondence. -/
theorem addLayer {name otherName : String} {kind otherKind : LayerKind}
    (names : LayerName pairs name otherName) (kinds : kind.SameUpToTexts otherKind) :
    (one.addLayer name kind).Corresponds pairs (other.addLayer otherName otherKind) := by
  refine { networks with layers := ?_ }
  unfold Network.addLayer
  rw [Array.toList_push, Array.toList_push]
  exact List.rel_append networks.layers (.cons ⟨networks.size_eq, names, kinds, rfl, rfl⟩ .nil)

theorem addIssue (issue otherIssue : Issue) :
    (one.addIssue issue).Corresponds pairs (other.addIssue otherIssue) := by
  refine { networks with issues := ?_ }
  unfold Network.addIssue
  rw [List.length_append, List.length_append, networks.issues]
  rfl

theorem annotate (entry otherEntry : String × String) :
    (one.annotate entry.1 entry.2).Corresponds pairs
      (other.annotate otherEntry.1 otherEntry.2) :=
  { networks with }

theorem registerTemplate {name : String} (isLabel : Suffix.IsLabel name.toList)
    {definition otherDefinition : Instruction}
    (definitions : definition.Corresponds pairs otherDefinition) :
    (one.registerTemplate name definition).Corresponds pairs
      (other.registerTemplate name otherDefinition) := by
  refine { networks with templates := ?_ }
  unfold Network.registerTemplate
  dsimp only
  generalize one.templates = templates, other.templates = others, networks.templates = related
  induction related with
  | nil => exact .cons ⟨rfl, isLabel, definitions⟩ .nil
  | cons first rest inductionHypothesis =>
      rw [Text.insertSorted, Text.insertSorted, first.key]
      split
      · exact .cons ⟨rfl, isLabel, definitions⟩ (.cons first rest)
      split
      · exact .cons ⟨rfl, isLabel, definitions⟩ rest
      · exact .cons first inductionHypothesis

private theorem hasEdge_eq (source target : LayerId) :
    one.hasEdge source target = other.hasEdge source target := by
  have found := networks.layer? source
  unfold Network.hasEdge
  generalize one.layer? source = layer at found ⊢
  generalize other.layer? source = otherLayer at found ⊢
  cases found with
  | none => rfl
  | some layers =>
      dsimp only
      rw [layers.outputs]

private theorem addEdge (source target : LayerId) :
    (one.addEdge source target).Corresponds pairs (other.addEdge source target) := by
  refine { networks with layers := ?_ }
  unfold Network.addEdge
  rw [Array.toList_modify, Array.toList_modify, Array.toList_modify, Array.toList_modify]
  refine rel_modify (rel_modify networks.layers (fun _ _ layer => ?_) source)
    (fun _ _ layer => ?_) target
  · exact { layer with outputs := congrArg (· ++ [target]) layer.outputs }
  · exact { layer with inputs := congrArg (· ++ [source]) layer.inputs }

/-- Two layers are connected in both runs or in neither. -/
theorem connect (source target : LayerId) :
    Outcome.Matches (fun _ _ => True) (fun added otherAdded =>
        added.2.Corresponds pairs otherAdded.2)
      (one.connect source target) (other.connect source target) := by
  unfold Network.connect
  rw [networks.size_eq, networks.hasEdge_eq]
  split
  · exact .error trivial
  split
  · exact .error trivial
  split
  · exact .ok networks
  · exact .ok (networks.addEdge source target)

end Network.Corresponds

/-! ## States -/

structure Scope.Corresponds (pairs : List (String × String)) (one other : Scope) : Prop where
  parent : one.parent = other.parent
  entries : SameLayers pairs one.entries other.entries

/-- A registered instruction of one run and that of another in its place. Templates are registered
under the names they declare. -/
structure RegisteredCorresponds (pairs : List (String × String))
    (one other : String × Instruction) : Prop where
  key : RespelledName pairs one.1 other.1
  instruction : one.2.Corresponds pairs other.2
  template : ∀ name parameters body, one.2 = .templateDef name parameters body → one.1 = name

structure PendingConnect.Corresponds (pairs : List (String × String))
    (one other : PendingConnect) : Prop where
  source : RespelledEndpoint pairs one.source other.source
  target : RespelledEndpoint pairs one.target other.target
  scope : one.scope = other.scope

namespace CompileState

/-- A state of one run and that of another in its place. The lines of the trace and the words drawn
may differ. -/
structure Corresponds (pairs : List (String × String)) (one other : CompileState) : Prop where
  network : one.network.Corresponds pairs other.network
  registry : List.Forall₂ (RegisteredCorresponds pairs) one.registry other.registry
  compiledAhead : List.Forall₂ (RespelledText pairs) one.compiledAhead other.compiledAhead
  aheadInProgress : List.Forall₂ (RespelledText pairs) one.aheadInProgress other.aheadInProgress
  pending : List.Forall₂ (PendingConnect.Corresponds pairs) one.pending.toList other.pending.toList
  scopes : List.Forall₂ (Scope.Corresponds pairs) one.scopes.toList other.scopes.toList
  current : one.current = other.current
  firstNamed : SameLayers pairs one.firstNamed other.firstNamed
  inputCache : SameLayers pairs one.inputCache other.inputCache
  branchCount : one.branchCount = other.branchCount

/-- Two states that correspond, and the suffixes that both runs drew, each beside the other. -/
structure InStep (pairs : List (String × String)) (one other : CompileState) : Prop where
  corresponds : one.Corresponds pairs other
  pairing : Suffix.Pairing pairs
  used : one.usedSuffixes = pairs.map Prod.fst
  otherUsed : other.usedSuffixes = pairs.map Prod.snd

end CompileState

private theorem sameLayers_mono {more : List (String × String)} (grows : pairs ⊆ more)
    {table otherTable : List (String × LayerId)} (tables : SameLayers pairs table otherTable) :
    SameLayers more table otherTable :=
  tables.imp fun _ _ entry => ⟨entry.key.mono grows, entry.value⟩

/-- States that correspond still do so when more suffixes are drawn. -/
theorem CompileState.Corresponds.mono {more : List (String × String)} (grows : pairs ⊆ more)
    {one other : CompileState} (states : one.Corresponds pairs other) :
    one.Corresponds more other where
  network :=
    { layers := states.network.layers.imp fun _ _ layer =>
        { layer with name := layer.name.mono grows }
      templates := states.network.templates.imp fun _ _ template =>
        { template with definition := template.definition.mono grows }
      issues := states.network.issues }
  registry := states.registry.imp fun _ _ entry =>
    { entry with key := entry.key.mono grows, instruction := entry.instruction.mono grows }
  compiledAhead := states.compiledAhead.imp fun _ _ name => name.mono grows
  aheadInProgress := states.aheadInProgress.imp fun _ _ name => name.mono grows
  pending := states.pending.imp fun _ _ connection =>
    { connection with
      source := connection.source.mono grows
      target := connection.target.mono grows }
  scopes := states.scopes.imp fun _ _ scope =>
    { scope with entries := sameLayers_mono grows scope.entries }
  current := states.current
  firstNamed := sameLayers_mono grows states.firstNamed
  inputCache := sameLayers_mono grows states.inputCache
  branchCount := states.branchCount

/-! ## What is found by name -/

namespace CompileState.Corresponds

variable {one other : CompileState} (states : one.Corresponds pairs other)

include states

private theorem chainWithin (budget : Nat) (scope : ScopeId) :
    List.Forall₂ (Scope.Corresponds pairs) (one.chainWithin budget scope)
      (other.chainWithin budget scope) := by
  induction budget generalizing scope with
  | zero => exact .nil
  | succ budget inductionHypothesis =>
      rw [CompileState.chainWithin, CompileState.chainWithin]
      have found := Table.rel_getElem? states.scopes scope
      rw [Array.getElem?_toList, Array.getElem?_toList] at found
      generalize one.scopes[scope]? = outer at found ⊢
      generalize other.scopes[scope]? = otherOuter at found ⊢
      cases found with
      | none => exact .nil
      | some scopes =>
          dsimp only
          rw [scopes.parent]
          split
          · exact .cons scopes .nil
          · exact .cons scopes (inductionHypothesis _)

private theorem lookupChain_eq (scope : ScopeId) {key otherKey : String}
    (same : SameKey pairs key otherKey) :
    one.lookupChain scope key = other.lookupChain scope otherKey := by
  have sizes := states.scopes.length_eq
  rw [Array.length_toList, Array.length_toList] at sizes
  have chains := states.chainWithin other.scopes.size scope
  unfold CompileState.lookupChain CompileState.chain
  rw [sizes]
  generalize one.chainWithin _ _ = chain at chains ⊢
  generalize other.chainWithin _ _ = otherChain at chains ⊢
  induction chains with
  | nil => rfl
  | cons first _ inductionHypothesis =>
      rw [List.findSome?_cons, List.findSome?_cons, lookup_eq first.entries same]
      split
      · rfl
      · exact inductionHypothesis

/-- A name is resolved exactly to the same layer in both runs. -/
theorem resolveExact_eq (scope : ScopeId) {key otherKey : String}
    (same : SameKey pairs key otherKey) :
    one.resolveExact scope key = other.resolveExact scope otherKey := by
  rw [CompileState.resolveExact, CompileState.resolveExact, states.lookupChain_eq scope same,
    states.network.findId?_eq same]

private theorem resolveFallback_eq (scope : ScopeId) {key otherKey : String}
    (same : SameKey pairs key otherKey) :
    one.resolveFallback scope key = other.resolveFallback scope otherKey := by
  rw [CompileState.resolveFallback, CompileState.resolveFallback, states.lookupChain_eq scope same,
    lookup_eq states.firstNamed same]

/-- An endpoint stands for the same layer in both runs, with its suffix and without. -/
theorem resolve_eq (pairing : Suffix.Pairing pairs) (scope : ScopeId) {name otherName : String}
    (names : RespelledEndpoint pairs name otherName) :
    one.resolve scope name = other.resolve scope otherName := by
  obtain ⟨sameBase, noUnderscore⟩ := names.base
  have plain : RespelledText pairs (Name.base name) (Name.base name) :=
    .refl_of_plain noUnderscore
  have stemPlain : '_' ∉ (Name.stem (Name.base name)).toList := by
    rw [Name.stem, String.toList_ofList]
    exact fun member => noUnderscore ((Name.withoutDigits_isPrefix _).subset member)
  have isBase : Name.base name = name ↔ Name.base name = otherName :=
    equalAlike_text pairing plain names.respelled
  unfold CompileState.resolve
  dsimp only
  rw [← sameBase, states.resolveExact_eq scope (sameKey_text pairing names.respelled),
    states.resolveFallback_eq scope (sameKey_text pairing plain),
    states.resolveFallback_eq scope (sameKey_text pairing (.refl_of_plain stemPlain))]
  simp only [isBase]

theorem inCurrentScope?_rel {key otherKey : String} (same : SameKey pairs key otherKey) :
    Option.Rel (Layer.Corresponds pairs) (one.inCurrentScope? key)
      (other.inCurrentScope? otherKey) := by
  have found := Table.rel_getElem? states.scopes one.current
  rw [Array.getElem?_toList, Array.getElem?_toList] at found
  unfold CompileState.inCurrentScope?
  rw [← states.current]
  generalize one.scopes[one.current]? = scope at found ⊢
  generalize other.scopes[one.current]? = otherScope at found ⊢
  cases found with
  | none => exact .none
  | some scopes =>
      dsimp only
      rw [lookup_eq scopes.entries same]
      generalize List.lookup otherKey _ = id
      cases id with
      | none => exact .none
      | some id => exact states.network.layer? id

/-- The layers of a scope are the same in both runs. -/
theorem scopeLayers_eq (scope : ScopeId) : one.scopeLayers scope = other.scopeLayers scope := by
  have found := Table.rel_getElem? states.scopes scope
  rw [Array.getElem?_toList, Array.getElem?_toList] at found
  unfold CompileState.scopeLayers
  generalize one.scopes[scope]? = inner at found ⊢
  generalize other.scopes[scope]? = otherInner at found ⊢
  cases found with
  | none => rfl
  | some scopes =>
      have same := scopes.entries
      dsimp only
      congr 1
      generalize Scope.entries _ = entries at same ⊢
      generalize Scope.entries _ = otherEntries at same ⊢
      induction same with
      | nil => rfl
      | cons first _ inductionHypothesis =>
          rw [List.map_cons, List.map_cons, first.value, inductionHypothesis]

/-- A scope has the same first output in both runs. -/
theorem firstOutput_eq (scope : ScopeId) :
    Compile.firstOutput one scope = Compile.firstOutput other scope := by
  unfold Compile.firstOutput
  rw [states.scopeLayers_eq scope]
  congr 1
  funext id
  exact states.network.any_eq LayerKind.isOutput (fun same => same.isOutput) id

end CompileState.Corresponds

/-! ## What adding a layer does -/

namespace CompileState.Corresponds

variable {one other : CompileState} (states : one.Corresponds pairs other)

include states

theorem registered (pairing : Suffix.Pairing pairs) {name otherName : String}
    (names : LayerName pairs name otherName) (id : LayerId) :
    (one.registered name id).Corresponds pairs (other.registered otherName id) := by
  refine { states with scopes := ?_, firstNamed := ?_ }
  · unfold CompileState.registered
    rw [Array.toList_modify, Array.toList_modify, ← states.current]
    refine rel_modify states.scopes (fun _ _ scope => ?_) one.current
    exact { scope with entries := .cons ⟨names, rfl⟩ scope.entries }
  · exact rel_offered states.firstNamed (sameKey_name pairing names) names rfl

/-- Layers that correspond are made visible alike. -/
theorem withLayer (pairing : Suffix.Pairing pairs) {name otherName : String}
    (names : LayerName pairs name otherName) {kind otherKind : LayerKind}
    (kinds : kind.SameUpToTexts otherKind) :
    (one.withLayer name kind).Corresponds pairs (other.withLayer otherName otherKind) := by
  have added : CompileState.Corresponds pairs
      { one with network := one.network.addLayer name kind }
      { other with network := other.network.addLayer otherName otherKind } :=
    { states with network := states.network.addLayer names kinds }
  have visible := added.registered pairing names one.network.size
  unfold CompileState.withLayer
  rw [← states.network.size_eq]
  refine { visible with inputCache := ?_ }
  dsimp only
  rw [kinds.isInput]
  split
  · exact rel_offered states.inputCache (sameKey_name pairing names) names rfl
  · exact states.inputCache

theorem entered : one.entered.Corresponds pairs other.entered := by
  have sizes := states.scopes.length_eq
  rw [Array.length_toList, Array.length_toList] at sizes
  refine { states with scopes := ?_, current := sizes }
  unfold CompileState.entered
  rw [Array.toList_push, Array.toList_push]
  exact List.rel_append states.scopes (.cons ⟨congrArg some states.current, .nil⟩ .nil)

end CompileState.Corresponds

end NetBlueprint
