import NetBlueprint.Proofs.Compiler.Bookkeeping
import NetBlueprint.Proofs.Compiler.Inheriting
import NetBlueprint.Proofs.Substitution.Positions

/-!
Contract: when a template can be called before it is defined.

Layers, modules and templates are registered in one table, and the first of a name counts. A
template that is registered stays registered, since only what was compiled ahead is taken off the
table, and no template is. So a call finds a template by its registration wherever it stands. If a
layer or a module took the name first, the template is not registered, and a call finds it only
after its definition was come to.

Owns: what calls find before the definition.

Does not own: what a call does with its template.
-/

namespace NetBlueprint

namespace Instruction

/-- Decides whether an instruction defines a template of a given name. -/
def definesTemplate (name : String) : Instruction → Bool
  | .templateDef declared _ _ => declared == name
  | _ => false

private theorem definesTemplate_of_isTemplate {instruction : Instruction} {name : String}
    (isTemplate : instruction.isTemplate = true)
    (declares : instruction.declaredName? = some name) :
    instruction.definesTemplate name = true := by
  cases instruction with
  | templateDef declared parameters body =>
      cases declares
      exact beq_self_eq_true name
  | _ => cases isTemplate

/-- Filling in defines no other template. -/
theorem definesTemplate_of_apply {name : String} {substitution : Substitution}
    {template instruction : Instruction} (applied : substitution.apply template = .ok instruction) :
    instruction.definesTemplate name = template.definesTemplate name := by
  have matching := Substitution.matches_of_apply applied
  have sameOpcode := matching.opcode
  cases template with
  | templateDef declared _ _ =>
      cases instruction with
      | templateDef _ _ _ =>
          have sameTexts := matching.fixedTexts
          rw [fixedTexts, fixedTexts] at sameTexts
          rw [definesTemplate, definesTemplate, (List.cons.inj sameTexts).1]
      | _ => cases sameOpcode
  | _ =>
      cases instruction with
      | templateDef _ _ _ => cases sameOpcode
      | _ => rfl

/-- No template of a given name is defined in an instruction or below it. -/
def Avoids (name : String) (instruction : Instruction) : Prop :=
  ∀ node ∈ instruction.nodes, node.definesTemplate name = false

/-- Avoiding a template is passed on to what is inside, and filling in keeps it. -/
theorem inherited_avoids (name : String) : Inherited (Avoids name) :=
  .of_nodes fun avoids applied => (definesTemplate_of_apply applied).trans avoids

theorem Avoids.self {name : String} {instruction : Instruction}
    (avoids : instruction.Avoids name) : instruction.definesTemplate name = false :=
  avoids instruction instruction.self_mem_nodes

private theorem avoids_block {name : String} {body : List Instruction}
    (each : ∀ other ∈ body, other.Avoids name) : (Instruction.block body).Avoids name := by
  intro node member
  rw [nodes, nodesAll_eq_flatMap] at member
  rcases List.mem_cons.1 member with rfl | inner
  · rfl
  · obtain ⟨other, isOther, inOther⟩ := List.mem_flatMap.1 inner
    exact each other isOther node inOther

/-- Where a template is defined once, everything beside the definition defines no other one. -/
theorem avoids_of_once {name : String} {early late : List Instruction} {definition : Instruction}
    (defines : definition.definesTemplate name = true)
    (once : ((early ++ definition :: late).flatMap nodes).countP (definesTemplate name) = 1) :
    (∀ other ∈ early, other.Avoids name) ∧ ∀ other ∈ late, other.Avoids name := by
  have here : 0 < definition.nodes.countP (definesTemplate name) :=
    List.countP_pos_iff.2 ⟨definition, definition.self_mem_nodes, defines⟩
  rw [List.flatMap_append, List.flatMap_cons, List.countP_append, List.countP_append] at once
  have avoided {part : List Instruction}
      (empty : (part.flatMap nodes).countP (definesTemplate name) = 0) :
      ∀ other ∈ part, other.Avoids name := by
    intro other member node inOther
    rw [← Bool.not_eq_true]
    exact List.countP_eq_zero.1 empty node (List.mem_flatMap.2 ⟨other, member, inOther⟩)
  exact ⟨avoided (by omega), avoided (by omega)⟩

/-! ## What is registered under a name -/

section Registry

variable {name : String} {parameters : List String} {body early late : List Instruction}

/-- The definition of a template is registered, unless something took its name before it. -/
theorem lookup_prescan_definition (noBracket : '[' ∉ name.toList)
    (unhidden : ∀ declaration ∈ offersAll early, declaration.declaredName? ≠ some name) :
    ∃ definition, definition.isTemplate = true ∧
      (prescanAll [] (early ++ .templateDef name parameters body :: late)).lookup name =
        some definition := by
  rw [prescanAll_append, prescanAll]
  have stays {registry : List (String × Instruction)} {definition : Instruction}
      (found : registry.lookup name = some definition) :
      (prescanAll registry late).lookup name = some definition :=
    Table.lookup_of_prefix (prefix_prescanAll registry late) found
  cases earlier : (prescanAll [] early).lookup name with
  | some definition =>
      -- What took the name is no layer and no module, so it is another definition of the template.
      have member : (name, definition) ∈ (Instruction.block early).prescan [] :=
        Table.mem_of_lookup earlier
      obtain ⟨forward, isOffered⟩ := offered_of_prescan member
      refine ⟨definition, isOffered.resolve_left fun offered => ?_, stays ?_⟩
      · exact unhidden definition offered (declaredName?_of_forwardName? forward)
      · exact Table.lookup_of_prefix (prefix_prescan _ _) earlier
  | none =>
      refine ⟨.templateDef name parameters body, rfl, stays ?_⟩
      rw [prescan, forwardName?, if_neg (by rwa [List.contains_iff_mem])]
      exact CompileState.lookup_offered_self earlier

/-- If something took the name of a template before its definition, the definition is not
registered, and neither is anything that defines such a template. -/
theorem avoids_of_hidden (noBracket : '[' ∉ name.toList) {declaration : Instruction}
    (hidden : declaration ∈ offersAll early) (declares : declaration.declaredName? = some name)
    (earlyAvoids : ∀ other ∈ early, other.Avoids name)
    (lateAvoids : ∀ other ∈ late, other.Avoids name) :
    ∀ entry ∈ prescanAll [] (early ++ .templateDef name parameters body :: late),
      entry.2.Avoids name := by
  have inherited := inherited_avoids name
  -- The definition comes to a name that is taken, and so leaves the registry as it is.
  have forward := forwardName?_of_mem_offersAll noBracket hidden declares
  have isKnown := isSome_lookup_prescanAll forward [] early hidden
  rw [prescanAll_append, prescanAll]
  refine inherited.prescanAll ?_ lateAvoids
  have unregistered : prescan (prescanAll [] early) (.templateDef name parameters body) =
      prescanAll [] early := by
    rw [prescan, forwardName?, if_neg (by rwa [List.contains_iff_mem])]
    exact if_pos isKnown
  rw [unregistered]
  exact inherited.prescanAll (fun _ absent => absurd absent List.not_mem_nil) earlyAvoids

end Registry

end Instruction

/-- Whatever is registered or defined goes by its name, and templates stay registered under some
names. -/
structure CompileState.Offering (names : List String) (state : CompileState) : Prop where
  registered : ∀ {name instruction}, state.registry.lookup name = some instruction →
    instruction.declaredName? = some name
  templates : ∀ {name definition}, state.network.template? name = some definition →
    definition.isTemplate = true ∧ definition.declaredName? = some name
  waiting : ∀ name ∈ names, ∃ definition, state.registry.lookup name = some definition ∧
    definition.isTemplate = true
  notCompiled : ∀ name ∈ names, name ∉ state.compiledAhead

namespace CompileState

variable {names : List String} {before after : CompileState}

/-- An offer is kept where registry, books and templates are. -/
theorem Offering.of_same (offering : before.Offering names)
    (registry : after.registry = before.registry)
    (compiledAhead : after.compiledAhead = before.compiledAhead)
    (templates : after.network.templates = before.network.templates) : after.Offering names where
  registered := registry ▸ offering.registered
  templates {name definition} found := by
    rw [Network.template?, templates] at found
    exact offering.templates found
  waiting := registry ▸ offering.waiting
  notCompiled := compiledAhead ▸ offering.notCompiled

/-- A template that goes by its name may be registered. -/
theorem Offering.registerTemplate (offering : before.Offering names) {name : String}
    {definition : Instruction} (isTemplate : definition.isTemplate = true)
    (declares : definition.declaredName? = some name) :
    CompileState.Offering names
      { before with network := before.network.registerTemplate name definition } where
  registered := offering.registered
  templates found := by
    rcases Network.template?_registerTemplate found with ⟨rfl, rfl⟩ | earlier
    · exact ⟨isTemplate, declares⟩
    · exact offering.templates earlier
  waiting := offering.waiting
  notCompiled := offering.notCompiled

end CompileState

namespace Compile

open CompileState Instruction

/-- A fault tells of no template missed under one of some names. -/
def MissesNone (names : List String) (fault : CompileFault) (_ : CompileState) : Prop :=
  ∀ name ∈ names, fault ≠ .templateNotFound name

section Offering

variable {names : List String}

private theorem bookkeeps_offering : Bookkeeps (Offering names) (MissesNone names) where
  reads books templates offering := by
    obtain ⟨registry, compiledAhead, _⟩ := Books.mk.inj books
    exact offering.of_same registry compiledAhead templates
  excused _ isLocal := by
    rintro name _ rfl
    cases isLocal
  unserved failed := by
    rintro name _ rfl
    cases (fails_freshSuffix failed).1
  takeAhead {name _ before _} takes templates offering := by
    obtain ⟨_, compiledAhead, _⟩ := Books.mk.inj takes.books
    have apart {other : String} (member : other ∈ names) : other ≠ name := by
      rintro rfl
      exact offering.notCompiled other member takes.compiled
    refine ⟨fun found => offering.registered (takes.shrinks found), fun found => ?_,
      fun other member => ?_, fun other member compiled => ?_⟩
    · rw [Network.template?, templates] at found
      exact offering.templates found
    · rw [takes.lookup_of_ne (apart member)]
      exact offering.waiting other member
    · rw [compiledAhead] at compiled
      exact offering.notCompiled other member (List.mem_of_mem_erase compiled)
  templateDef ran offering := by
    obtain ⟨_, defined, defines, logs⟩ := runs_bind.1 ran
    obtain ⟨books, templates⟩ := Prod.mk.inj (keeps_log steady_holdings _ _ _ _ logs)
    obtain ⟨registry, compiledAhead, _⟩ := Books.mk.inj books
    rw [runs_modify.1 defines] at registry compiledAhead templates
    exact (offering.registerTemplate rfl rfl).of_same registry compiledAhead templates
  findTemplate {name _ _ _} finds offering := by
    cases finds with
    | defined isDefined =>
        refine ⟨offering, fun noTemplate => ?_⟩
        have isTemplate := (offering.templates isDefined).1
        rw [noTemplate _ rfl] at isTemplate
        cases isTemplate
    | registered _ isRegistered isTemplate =>
        refine ⟨offering.registerTemplate isTemplate (offering.registered isRegistered),
          fun noTemplate => ?_⟩
        rw [noTemplate _ rfl] at isTemplate
        cases isTemplate
    | missing _ noTemplate =>
        refine ⟨offering, ?_⟩
        rintro _ other member same
        cases same
        obtain ⟨definition, isRegistered, isTemplate⟩ := offering.waiting name member
        rw [noTemplate definition isRegistered] at isTemplate
        cases isTemplate

/-- Compiling ahead turns to no template, so it leaves the names of templates alone. -/
theorem maintains_ahead_offering {compile : Instruction → CompileM Unit} (name : String)
    (each : ∀ instruction, Maintains (Offering names) (MissesNone names) (compile instruction)) :
    Maintains (Offering names) (MissesNone names) (ahead compile name) := by
  refine maintains_turning (fun _ state => name ∉ names ∧ Offering names state) ?_ ?_ ?_
  · intro turned before after ran offering
    rcases runs_startAhead ran with ⟨rfl, rfl⟩ | ⟨instruction, rfl, turns⟩
    · exact offering
    · obtain ⟨registry, compiledAhead, _⟩ := Books.mk.inj turns.books
      refine ⟨fun member => ?_, offering.of_same registry compiledAhead
        (Prod.mk.inj (keepsStock_startAhead _ _ _ _ ran)).2⟩
      obtain ⟨definition, isRegistered, isTemplate⟩ := offering.waiting name member
      cases Option.some.inj (turns.registered.symm.trans isRegistered)
      exact Bool.eq_false_iff.1 turns.isTemplate isTemplate
  · intro instruction
    exact ⟨fun holds ran => ⟨holds.1, (each instruction).kept holds.2 ran⟩,
      fun holds failed => (each instruction).excused holds.2 failed⟩
  · rintro instruction saved before after ran ⟨notOffered, offering⟩
    rw [runs_modify.1 ran]
    refine ⟨offering.registered, offering.templates, offering.waiting, fun other member => ?_⟩
    rw [List.mem_cons, not_or]
    exact ⟨fun same => notOffered (same ▸ member), offering.notCompiled other member⟩

/-- A run maintains what is offered, whatever it compiles. -/
theorem maintains_within_offering : ∀ (depth : Nat) (instruction : Instruction),
    Maintains (Offering names) (MissesNone names) (within depth instruction)
  | 0, _ => maintains_throw fun _ _ name _ same => by cases same
  | depth + 1, _ =>
      maintains_step bookkeeps_offering.stepsMaintain
        (fun name => maintains_ahead_offering name (maintains_within_offering depth))
        fun inner _ => maintains_within_offering depth inner

/-- The templates that a program registers are offered from its first instruction on. -/
theorem offering_of_prepare {name : String} {seed : UInt64} {program : Instruction}
    {prepared : CompileState}
    (prepares : Runs (prepare name program) (CompileState.start name seed) () prepared)
    (registered : ∀ key ∈ names, ∃ definition, definition.isTemplate = true ∧
      (program.prescan []).lookup key = some definition) : prepared.Offering names := by
  obtain ⟨registry, compiledAhead, _⟩ := Books.mk.inj (books_of_prepare prepares)
  have templates : prepared.network.templates = [] := keepsTemplates_prepare _ _ _ _ _ prepares
  refine ⟨fun found => ?_, fun found => ?_, fun key member => ?_, fun key _ compiled => ?_⟩
  · rw [registry] at found
    exact declaredName?_of_forwardName? (offered_of_prescan (Table.mem_of_lookup found)).1
  · rw [Network.template?, templates] at found
    cases found
  · obtain ⟨definition, isTemplate, found⟩ := registered key member
    exact ⟨definition, registry ▸ found, isTemplate⟩
  · rw [compiledAhead] at compiled
    cases compiled

end Offering

/-! ## Whole compilations -/

section Whole

variable {name : String} {seed : UInt64} {program : Instruction} {fault : CompileFault}

/-- A compilation is given up for the fault that its build fails with. -/
theorem compile_eq_error_iff :
    (∃ error, compile name seed program = .error error ∧ error.fault = fault) ↔
      ∃ final, Fails (build name program) (CompileState.start name seed) fault final := by
  unfold compile run Fails
  rcases (build name program).run (CompileState.start name seed) with ⟨early | _, last⟩
  · constructor
    · rintro ⟨error, same, rfl⟩
      cases same
      exact ⟨last, rfl⟩
    · rintro ⟨final, same⟩
      cases same
      exact ⟨_, rfl, rfl⟩
  · constructor
    · rintro ⟨error, same, _⟩
      cases same
    · rintro ⟨final, same⟩
      cases same

/-- A compilation misses no template under a name under which its program registers one. -/
theorem finds_registered {template : String} (registered : ∃ definition,
      definition.isTemplate = true ∧ (program.prescan []).lookup template = some definition) :
    ¬ ∃ error, compile name seed program = .error error ∧
      error.fault = .templateNotFound template := by
  rw [compile_eq_error_iff]
  rintro ⟨final, failed⟩
  rcases fails_bind.1 failed with early | ⟨_, prepared, prepares, late⟩
  · exact (total_prepare name program).not_fails early
  · have offering : prepared.Offering [template] := by
      refine offering_of_prepare prepares fun key member => ?_
      cases List.mem_singleton.1 member
      exact registered
    exact (maintains_within_offering (depthFor program) program).excused offering late template
      (List.mem_singleton_self _) rfl

/-- The first instructions of a program are compiled as those of the whole program. -/
def buildEarly (name : String) (program : Instruction) (early : List Instruction) :
    CompileM Unit := do
  prepare name program
  within (depthFor program) (.block early)

def getsThrough (name : String) (seed : UInt64) (program : Instruction)
    (early : List Instruction) : Bool :=
  ((buildEarly name program early).run (CompileState.start name seed)).1.toOption.isSome

private theorem exists_of_getsThrough {early : List Instruction}
    (through : getsThrough name seed program early = true) :
    ∃ prepared reached, Runs (prepare name program) (CompileState.start name seed) () prepared ∧
      Runs (within (depthFor program) (.block early)) prepared () reached := by
  rw [getsThrough] at through
  rcases outcome : (buildEarly name program early).run (CompileState.start name seed) with
    ⟨_ | _, reached⟩
  · rw [outcome] at through
    cases through
  · have ran : Runs (buildEarly name program early) (CompileState.start name seed) () reached :=
      outcome
    obtain ⟨_, prepared, prepares, compiles⟩ := runs_bind.1 ran
    exact ⟨prepared, reached, prepares, compiles⟩

/-- What fails after some instructions fails after those before them too. -/
theorem fails_all_append {compile : Instruction → CompileM Unit} {rest : List Instruction}
    {between after : CompileState} (failed : Fails (all compile rest) between fault after) :
    ∀ {early : List Instruction} {before : CompileState},
      Runs (all compile early) before () between →
        Fails (all compile (early ++ rest)) before fault after
  | [], _, ran => by
      cases ran
      exact failed
  | first :: others, _, ran => by
      obtain ⟨_, middle, firstRan, othersRan⟩ := runs_bind.1 ran
      exact fails_bind.2 (.inr ⟨(), middle, firstRan, fails_all_append failed othersRan⟩)

/-- A call is given up where nothing that is registered or defined is a template of its name. -/
theorem fails_call {template : String} {args : List String} {state : CompileState}
    (offering : state.Offering []) (stocked : state.Stocked (Avoids template)) :
    Fails (openTemplate template args) state (.templateNotFound template) state := by
  refine fails_openTemplate ?_ fun instruction isRegistered => ?_
  · cases isDefined : state.network.template? template with
    | none => rfl
    | some definition =>
        obtain ⟨isTemplate, declares⟩ := offering.templates isDefined
        have other := (stocked.templates isDefined).self
        rw [definesTemplate_of_isTemplate isTemplate declares] at other
        cases other
  · rw [← Bool.not_eq_true]
    intro isTemplate
    have other := (stocked.registered _ (Table.mem_of_lookup isRegistered)).self
    rw [definesTemplate_of_isTemplate isTemplate (offering.registered isRegistered)] at other
    cases other

/-- The bound leaves room for an instruction directly inside of a program. -/
theorem exists_depthFor_eq (program : Instruction) : ∃ depth, depthFor program = depth + 2 :=
  Nat.exists_eq_add_of_le' (Nat.le_trans (by decide : 2 ≤ expansionLevels) (Nat.le_add_left _ _))

/-- A program is given up at a call that is not found, once the instructions before it are
compiled. -/
theorem fails_program_of_call {template : String} {args : List String}
    {early rest : List Instruction} {prepared reached : CompileState} {depth : Nat}
    (compiles : Runs (within (depth + 2) (.block early)) prepared () reached)
    (failed : Fails (openTemplate template args) reached fault reached) :
    Fails (within (depth + 2) (.program (early ++ .templateCall template args :: rest))) prepared
      fault reached := by
  have call : Fails (within (depth + 1) (.templateCall template args)) reached fault reached :=
    fails_bind.2 (.inl failed)
  exact fails_all_append (fails_bind.2 (.inl call)) compiles

variable {template : String} {args parameters : List String}
  {early middle body late : List Instruction}

/-- Before the first instruction nothing that could be compiled by name defines a template whose
name was taken before its only definition. -/
theorem stocked_of_hidden {prepared : CompileState}
    (prepares : Runs (prepare name (.program (early ++ .templateDef template parameters body ::
      late))) (CompileState.start name seed) () prepared)
    (noBracket : '[' ∉ template.toList)
    (hidden : ∃ declaration ∈ offersAll early, declaration.declaredName? = some template)
    (earlyAvoids : ∀ other ∈ early, other.Avoids template)
    (lateAvoids : ∀ other ∈ late, other.Avoids template) :
    prepared.Stocked (Avoids template) := by
  obtain ⟨registry, _, _⟩ := Books.mk.inj (books_of_prepare prepares)
  have templates : prepared.network.templates = [] := keepsTemplates_prepare _ _ _ _ _ prepares
  obtain ⟨declaration, isOffered, declares⟩ := hidden
  refine ⟨fun entry member => ?_, fun found => ?_⟩
  · rw [registry] at member
    exact avoids_of_hidden noBracket isOffered declares earlyAvoids lateAvoids entry member
  · rw [Network.template?, templates] at found
    cases found

/-- A call that is come to before the only definition of its template fails if the name was taken
before the definition. -/
theorem fails_hidden_call (args : List String) {first : List Instruction} {depth : Nat}
    {prepared reached : CompileState}
    (prepares : Runs (prepare name (.program (early ++ .templateDef template parameters body ::
      late))) (CompileState.start name seed) () prepared)
    (compiles : Runs (within depth (.block first)) prepared () reached) (isEarly : first ⊆ early)
    (noBracket : '[' ∉ template.toList)
    (hidden : ∃ declaration ∈ offersAll early, declaration.declaredName? = some template)
    (earlyAvoids : ∀ other ∈ early, other.Avoids template)
    (lateAvoids : ∀ other ∈ late, other.Avoids template) :
    Fails (openTemplate template args) reached (.templateNotFound template) reached := by
  have offering : prepared.Offering [] :=
    offering_of_prepare prepares fun _ absent => absurd absent List.not_mem_nil
  have stocked := stocked_of_hidden prepares noBracket hidden earlyAvoids lateAvoids
  have blockAvoids : (Instruction.block first).Avoids template :=
    avoids_block fun other member => earlyAvoids other (isEarly member)
  exact fails_call ((maintains_within_offering _ _).kept offering compiles)
    (stocked_of_within (inherited_avoids template) compiles blockAvoids stocked)

/-- Whatever stands beside a call is offered just as without it. -/
theorem offersAll_around_call (template : String) (args : List String)
    (early middle : List Instruction) :
    offersAll (early ++ .templateCall template args :: middle) = offersAll (early ++ middle) := by
  rw [offersAll_eq, offersAll_eq, List.flatMap_append, List.flatMap_cons, List.flatMap_append]
  rfl

/-- A template that is defined once, after a call of it at the top of the program, is found by the
call unless a layer or a module took its name before the definition: without one no call of the
template is given up because it was not found, and with one the compilation is given up for that as
soon as it gets to the call. -/
theorem late_template_found_unless_hidden
    (whole : program = .program (early ++ .templateCall template args :: middle ++
      .templateDef template parameters body :: late))
    (noBracket : '[' ∉ template.toList)
    (once : program.nodes.countP (definesTemplate template) = 1) :
    ((∀ declaration ∈ offersAll (early ++ middle), declaration.declaredName? ≠ some template) →
      ¬ ∃ error, compile name seed program = .error error ∧
        error.fault = .templateNotFound template) ∧
    ((∃ declaration ∈ offersAll (early ++ middle), declaration.declaredName? = some template) →
      getsThrough name seed program early = true →
      ∃ error, compile name seed program = .error error ∧
        error.fault = .templateNotFound template) := by
  subst whole
  rw [← offersAll_around_call template args]
  constructor
  · intro unhidden
    exact finds_registered (lookup_prescan_definition noBracket unhidden)
  · intro hidden through
    rw [nodes, nodesAll_eq_flatMap, List.countP_cons_of_neg (by exact Bool.false_ne_true)] at once
    have defines : (Instruction.templateDef template parameters body).definesTemplate template =
        true := beq_self_eq_true template
    obtain ⟨earlyAvoids, lateAvoids⟩ := avoids_of_once defines once
    obtain ⟨prepared, reached, prepares, compiles⟩ := exists_of_getsThrough through
    have failed := fails_hidden_call args prepares compiles
      (List.subset_append_left early _) noBracket hidden earlyAvoids lateAvoids
    obtain ⟨depth, deep⟩ := exists_depthFor_eq (.program (early ++ .templateCall template args ::
      middle ++ .templateDef template parameters body :: late))
    rw [deep] at compiles
    refine compile_eq_error_iff.2 ⟨reached, fails_bind.2 (.inr ⟨(), prepared, prepares, ?_⟩)⟩
    rw [deep, List.append_assoc, List.cons_append]
    exact fails_program_of_call compiles failed

end Whole

/-- A program that calls a template before its definition; a layer of a given name and a module
stand before the definition too. -/
def lateTemplate (label : String) : Instruction :=
  .program ([sizedLayer "dense" label 1] ++ .templateCall "enc" ["2"] ::
    [.moduleDef "box" [] [] [sizedLayer "dense" "x" 1]] ++
      .templateDef "enc" ["n"] [sizedLayer "dense" "h[n]" 1] :: [])

/-- Beside a layer and a module of other names the call finds its template. -/
theorem late_template_found :
    '[' ∉ "enc".toList ∧ (lateTemplate "other").nodes.countP (definesTemplate "enc") = 1 ∧
      (∃ compiled, compile "net" 0 (lateTemplate "other") = .ok compiled) ∧
      ¬ ∃ error, compile "net" 0 (lateTemplate "other") = .error error ∧
        error.fault = .templateNotFound "enc" := by
  have noBracket : '[' ∉ "enc".toList := by decide
  have once : (lateTemplate "other").nodes.countP (definesTemplate "enc") = 1 := by decide
  have passed : (compile "net" 0 (lateTemplate "other")).toOption.any fun _ => true := by
    decide +kernel
  obtain ⟨compiled, compiles, _⟩ := exists_compiled passed
  have unhidden : ∀ declaration ∈ offersAll ([sizedLayer "dense" "other" 1] ++
      [.moduleDef "box" [] [] [sizedLayer "dense" "x" 1]]),
      declaration.declaredName? ≠ some "enc" := by
    simp [offersAll, offers, sizedLayer, declaredName?]
  exact ⟨noBracket, once, ⟨compiled, compiles⟩,
    (late_template_found_unless_hidden rfl noBracket once).1 unhidden⟩

/-- With a layer of the name of the template the same call, with as many arguments as there are
parameters, does not find it. -/
theorem late_template_hidden_by_layer :
    '[' ∉ "enc".toList ∧ (lateTemplate "enc").nodes.countP (definesTemplate "enc") = 1 ∧
      ["n"].length = ["2"].length ∧
      ∃ error, compile "net" 0 (lateTemplate "enc") = .error error ∧
        error.fault = .templateNotFound "enc" := by
  have fails : (match compile "net" 0 (lateTemplate "enc") with
      | .error error => decide (error.fault = .templateNotFound "enc")
      | .ok _ => false) = true := by decide +kernel
  refine ⟨by decide, by decide, rfl, ?_⟩
  split at fails
  · rename_i error failed
    exact ⟨error, failed, of_decide_eq_true fails⟩
  · cases fails

end Compile

end NetBlueprint
