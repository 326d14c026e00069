import NetBlueprint.Proofs.Compiler.Following
import NetBlueprint.Proofs.Compiler.Reordering
import NetBlueprint.Proofs.Substitution.Interpolating

/-!
Contract: the layers of loops inside of loops.

Every round of a loop fills its counter into the loops inside of it before these are compiled. So a
layer that stands inside of several loops is declared once for every index tuple, in the order in
which the tuples are counted, and its name is filled in one counter at a time.

Owns: nested loops around one layer, and the run over them.

Does not own: what filling in one counter at a time makes of a name.
-/

namespace NetBlueprint

open Text

def nest : List Counter → Instruction → Instruction
  | [], instruction => instruction
  | counter :: inner, instruction =>
    .loop counter.name (toString counter.first) (toString counter.last) [nest inner instruction]

/-- Counters that can be told apart, none of which is the type of the layer, with bounds that can be
read back. -/
structure IsNest (counters : List Counter) : Prop where
  identifier : ∀ counter ∈ counters, isIdentifier counter.name.toList = true
  distinct : (counters.map Counter.name).Nodup
  notType : ∀ counter ∈ counters, counter.name ≠ "dense"
  least : ∀ counter ∈ counters, minSigned < counter.first ∧ minSigned < counter.last
  greatest : ∀ counter ∈ counters, counter.first ≤ maxSigned ∧ counter.last ≤ maxSigned

/-- What the declaration of a dense layer adds to a network. -/
def denseUnit (size : Int) (name : String) : String × LayerKind :=
  (name, .dense ⟨size.toNat, .linear, none⟩)

def Network.units (network : Network) : List (String × LayerKind) :=
  network.nodes.map fun node => (node.name, node.kind)

namespace Compile

def denseLayer (size : Int) (name : String) : Instruction :=
  sizedLayer "dense" name size

/-! ## Filling a counter in -/

private structure SparesNest (substitution : Substitution) : Prop where
  decimal : ∀ value : Int, substitution.substitute (toString value) = .ok (toString value)
  type : substitution.substitute "dense" = .ok "dense"
  noRenames : substitution.renames = []

private theorem SparesNest.apply_layer {substitution : Substitution}
    (spares : SparesNest substitution) {template filled : String}
    (fills : substitution.substitute template = .ok filled) (size : Int) :
    substitution.apply (denseLayer size template) = .ok (denseLayer size filled) := by
  have named : substitution.name template = .ok filled := by
    rw [Substitution.name, fills]
    dsimp only
    rw [Substitution.rename, spares.noRenames]
    rfl
  refine Outcome.bind_eq_ok.2 ⟨_, ?_, rfl⟩
  refine Outcome.bind_eq_ok.2 ⟨_, spares.type, ?_⟩
  exact Outcome.bind_eq_ok.2 ⟨_, named, rfl⟩

private theorem SparesNest.apply_nest {substitution : Substitution}
    (spares : SparesNest substitution) {template filled : String}
    (fills : substitution.substitute template = .ok filled) (size : Int) :
    ∀ {inner : List Counter}, (∀ counter ∈ inner, substitution.binds counter.name = false) →
      substitution.apply (nest inner (denseLayer size template)) =
        .ok (nest inner (denseLayer size filled))
  | [], _ => spares.apply_layer fills size
  | counter :: inner, unbound => by
      rw [List.forall_mem_cons] at unbound
      have body : substitution.applyAll [nest inner (denseLayer size template)] =
          .ok [nest inner (denseLayer size filled)] :=
        Outcome.bind_eq_ok.2 ⟨_, spares.apply_nest fills size unbound.2, rfl⟩
      refine Outcome.bind_eq_ok.2 ⟨_, spares.decimal counter.first, ?_⟩
      refine Outcome.bind_eq_ok.2 ⟨_, spares.decimal counter.last, ?_⟩
      refine Outcome.bind_eq_ok.2 ⟨_, ?_, rfl⟩
      rwa [Substitution.without_eq_self fun name member => List.mem_singleton.1 member ▸ unbound.1]

private theorem binds_roundSubstitution {counter name : String} {value : Int} :
    (roundSubstitution counter value).binds name = (name == counter) := by
  show ([(counter, toString value)].lookup name).isSome = _
  rw [List.lookup_cons]
  cases name == counter <;> rfl

private theorem sparesNest_round {counter : String} (value : Int)
    (identifier : isIdentifier counter.toList = true) (notType : counter ≠ "dense") :
    SparesNest (roundSubstitution counter value) := by
  refine ⟨fun number => ?_, ?_, rfl⟩
  · refine Substitution.substitute_of_unbound fun word isWord => ?_
    rw [binds_roundSubstitution, beq_eq_false_iff_ne]
    rintro rfl
    -- A counter starts with a letter or an underscore, and no decimal text contains one.
    rw [String.toList_ofList] at identifier
    obtain ⟨first, rest, rfl⟩ := List.exists_cons_of_ne_nil (isWord_of_isIdentifier identifier).1
    rw [isIdentifier, Bool.and_eq_true] at identifier
    rcases mem_toString (mem_of_mem_words isWord List.mem_cons_self) with rfl | digit
    · exact absurd identifier.1 (by decide)
    · rw [startsIdentifier_of_isDigit digit] at identifier
      exact Bool.false_ne_true identifier.1
  · refine Substitution.substitute_of_unbound fun word isWord => ?_
    rw [binds_roundSubstitution, beq_eq_false_iff_ne]
    rintro rfl
    have only : words "dense".toList = ["dense".toList] := by decide
    rw [only, List.mem_singleton] at isWord
    exact notType (by rw [isWord, String.ofList_toList])

/-! ## The run -/

private theorem runs_counterRange {counter : Counter}
    (least : minSigned < counter.first ∧ minSigned < counter.last)
    (greatest : counter.first ≤ maxSigned ∧ counter.last ≤ maxSigned) (size : Nat)
    (before : CompileState) :
    Runs (loopRange counter.name (toString counter.first) (toString counter.last) size) before
      (counter.first, (counter.last - counter.first + 1).toNat)
      (before.logged (rangeLine counter.name counter.first counter.last size)) := by
  have evaluates {value : Int} (least : minSigned < value) (greatest : value ≤ maxSigned) :
      Expr.evaluate (unbracket (toString value)) = .ok value := by
    rw [unbracket_decimal, Expr.evaluate_decimal least greatest]
  exact runs_loopRange.2 ⟨_, _, evaluates least.1 greatest.1, evaluates least.2 greatest.2, rfl, rfl⟩

/-- Nothing was compiled ahead, and no connection is recorded. -/
structure Simple (state : CompileState) : Prop where
  nothingAhead : state.compiledAhead = []
  noPending : state.pending = #[]

/-- A run from a simple state to a simple state that adds dense layers of some names. -/
structure AddsUnits (size : Int) (names : List String) (before after : CompileState) : Prop where
  simple : Simple after
  units : after.network.units = before.network.units ++ names.map (denseUnit size)

private theorem AddsUnits.nil {size : Int} {state : CompileState} (simple : Simple state) :
    AddsUnits size [] state state :=
  ⟨simple, (List.append_nil _).symm⟩

private theorem AddsUnits.trans {size : Int} {names others : List String}
    {before between after : CompileState} (first : AddsUnits size names before between)
    (second : AddsUnits size others between after) :
    AddsUnits size (names ++ others) before after :=
  ⟨second.simple, by rw [second.units, first.units, List.map_append, List.append_assoc]⟩

private theorem layerKind_dense {size : Int} (nonneg : 0 ≤ size) {spec : LayerSpec} {name : String}
    (isDense : denseLayer size name = .layer spec) :
    spec.name = name ∧ spec.kind = "dense" ∧
      spec.layerKind = .ok (.dense ⟨size.toNat, .linear, none⟩) := by
  cases isDense
  have kind : "dense".toLower = "dense" := by decide +kernel
  refine ⟨rfl, kind, ?_⟩
  unfold LayerSpec.layerKind LayerSpec.kind
  rw [kind]
  refine Outcome.bind_eq_ok.2 ⟨some size.toNat, ?_, rfl⟩
  refine Outcome.bind_eq_ok.2 ⟨size, rfl, ?_⟩
  rw [if_neg (Int.not_lt.2 nonneg)]
  rfl

private theorem exists_denseLayer {size : Int} (nonneg : 0 ≤ size) {before : CompileState}
    (simple : Simple before) (depth : Nat) (name : String) :
    ∃ after, Runs (within (depth + 1) (denseLayer size name)) before () after ∧
      AddsUnits size [name] before after := by
  obtain ⟨spec, isDense⟩ : ∃ spec, denseLayer size name = .layer spec := ⟨_, rfl⟩
  obtain ⟨named, kind, isKind⟩ := layerKind_dense nonneg isDense
  have asked : Runs (takeAhead spec.name (.layer spec)) before false before :=
    (runs_takeAhead_of_nothing simple.nothingAhead).2 ⟨rfl, rfl⟩
  have added (after : CompileState) :
      Runs (newLayer spec) before () after → Runs (layer spec) before () after := by
    intro ran
    refine runs_bind.2 ⟨false, before, asked, runs_get_bind.2 ?_⟩
    have noInput : spec.isInput = false := by
      rw [LayerSpec.isInput, kind]
      decide
    have noOutput : spec.isOutput = false := by
      rw [LayerSpec.isOutput, kind]
      decide
    rw [noInput, noOutput]
    exact ran
  have nodes := ((before.withLayer spec.name (.dense ⟨size.toNat, .linear, none⟩)).quiet_logged
    s!"LAYER {spec.kind} '{spec.name}' -> #{before.network.size}").nodes.trans
      (before.nodes_withLayer spec.name _)
  rw [isDense]
  refine ⟨_, added _ (runs_newLayer.2 ⟨_, isKind, rfl⟩),
    ⟨simple.nothingAhead, simple.noPending⟩, ?_⟩
  rw [Network.units, nodes, List.map_append, named]
  rfl

private theorem exists_rounds {counter : String} {body : List Instruction} {size : Int}
    {depth : Nat} {Named : Int → List String → Prop} :
    ∀ {count : Nat} {start : Int} {before : CompileState}, Simple before →
      (∀ value ∈ upward count start, ∀ state, Simple state → ∃ names after, Named value names ∧
        Runs (filled (within depth) (roundSubstitution counter value) body) state () after ∧
        AddsUnits size names state after) →
      ∃ groups after, List.Forall₂ Named (upward count start) groups ∧
        Runs (rounds (within depth) counter body count start) before () after ∧
        AddsUnits size groups.flatten before after := by
  intro count
  induction count with
  | zero =>
      intro start before simple _
      exact ⟨[], before, .nil, runs_pure.2 ⟨rfl, rfl⟩, .nil simple⟩
  | succ count inductionHypothesis =>
      intro start before simple each
      rw [upward, List.forall_mem_cons] at each
      obtain ⟨names, between, named, firstRan, first⟩ := each.1 before simple
      obtain ⟨groups, after, allNamed, restRan, rest⟩ := inductionHypothesis first.simple each.2
      exact ⟨names :: groups, after, .cons named allNamed,
        runs_bind.2 ⟨(), between, firstRan, restRan⟩, first.trans rest⟩

private theorem lookup_of_assigned {counters : List Counter} {values : List (String × Int)}
    (assigned : values ∈ assignments counters) {name : String}
    (absent : name ∉ counters.map Counter.name) : values.lookup name = none := by
  have names : values.map Prod.fst = counters.map Counter.name := by
    have pairs := mem_assignments_iff.1 assigned
    clear assigned absent
    induction pairs with
    | nil => rfl
    | cons first _ inductionHypothesis =>
        rw [List.map_cons, List.map_cons, first.1, inductionHypothesis]
  rw [← Option.not_isSome_iff_eq_none, Table.isSome_lookup_iff]
  rintro ⟨value, member⟩
  exact absent (names ▸ List.mem_map_of_mem member)

section OneCounter

variable {counters outer inner : List Counter} {counter : Counter}

private theorem binds_roundSubstitution_of_later (isNest : IsNest counters)
    (split : counters = outer ++ counter :: inner) (value : Int) :
    ∀ other ∈ inner, (roundSubstitution counter.name value).binds other.name = false := by
  intro other later
  have distinct := isNest.distinct
  rw [split, List.map_append, List.map_cons] at distinct
  rw [binds_roundSubstitution, beq_eq_false_iff_ne]
  intro same
  have late := (List.nodup_cons.1 (List.nodup_append.1 distinct).2.1).1
  exact late (same ▸ List.mem_map_of_mem later)

private theorem exists_interpolated {template between : String} {values : List (String × Int)}
    {value : Int} (isNest : IsNest counters) (interpolates : Interpolates counters template)
    (split : counters = outer ++ counter :: inner) (assigned : values ∈ assignments outer)
    (filled : interpolate values template = .ok between) (inSpan : value ∈ counter.span) :
    ∃ now, values ++ [(counter.name, value)] ∈ assignments (outer ++ [counter]) ∧
      interpolate (values ++ [(counter.name, value)]) template = .ok now ∧
      (roundSubstitution counter.name value).substitute between = .ok now := by
  have member : counter ∈ counters := by rw [split]; simp
  have isPrefix : outer ++ [counter] ∈ counters.inits := by
    rw [List.mem_inits, split]
    exact ⟨inner, by simp⟩
  have nowAssigned : values ++ [(counter.name, value)] ∈ assignments (outer ++ [counter]) :=
    mem_assignments_iff.2 (List.rel_append (mem_assignments_iff.1 assigned)
      (.cons ⟨rfl, inSpan⟩ .nil))
  have isOk := interpolates.values _ isPrefix _ nowAssigned
  cases outcome : interpolate (values ++ [(counter.name, value)]) template with
  | error _ =>
      rw [outcome] at isOk
      cases isOk
  | ok now =>
      have free := interpolates.spaced _ isPrefix _ nowAssigned now
        (by rw [outcome]; rfl) counter (by rw [List.getLast?_concat]; rfl)
      have apart : counter.name ∉ outer.map Counter.name := by
        have distinct := isNest.distinct
        rw [split, List.map_append, List.map_cons] at distinct
        exact fun early => (List.nodup_append.1 distinct).2.2 _ early _ List.mem_cons_self rfl
      obtain ⟨low, high⟩ := mem_span_iff.1 inSpan
      have least := isNest.least counter member
      have greatest := isNest.greatest counter member
      exact ⟨now, nowAssigned, rfl, substitute_of_interpolate (isNest.identifier counter member)
        (lookup_of_assigned assigned apart) (by omega) (by omega) filled outcome free⟩

end OneCounter

private theorem exists_nest {counters : List Counter} {template : String} {size : Int}
    (isNest : IsNest counters) (interpolates : Interpolates counters template)
    (nonneg : 0 ≤ size) : ∀ {inner outer : List Counter} {values : List (String × Int)}
      {between : String} {depth : Nat} {before : CompileState}, counters = outer ++ inner →
      values ∈ assignments outer → interpolate values template = .ok between →
      inner.length < depth → Simple before →
        ∃ names after,
          List.Forall₂ (fun more name => interpolate (values ++ more) template = .ok name)
            (assignments inner) names ∧
          Runs (within depth (nest inner (denseLayer size between))) before () after ∧
          AddsUnits size names before after := by
  intro inner
  induction inner with
  | nil =>
      intro outer values between depth before _ _ filled deep simple
      obtain ⟨lower, rfl⟩ : ∃ lower, depth = lower + 1 := ⟨depth - 1, by omega⟩
      obtain ⟨after, ran, adds⟩ := exists_denseLayer nonneg simple lower between
      exact ⟨[between], after, .cons (by rwa [List.append_nil]) .nil, ran, adds⟩
  | cons counter inner inductionHypothesis =>
      intro outer values between depth before split assigned filled deep simple
      obtain ⟨lower, rfl⟩ : ∃ lower, depth = lower + 1 := ⟨depth - 1, by omega⟩
      rw [List.length_cons] at deep
      have member : counter ∈ counters := by rw [split]; simp
      -- One round: the counter is filled in, and what comes out is the template of the inner loops.
      have round : ∀ value ∈ counter.span, ∀ state, Simple state → ∃ names after,
          List.Forall₂ (fun more name =>
              interpolate (values ++ (counter.name, value) :: more) template = .ok name)
            (assignments inner) names ∧
          Runs (Compile.filled (within lower) (roundSubstitution counter.name value)
            [nest inner (denseLayer size between)]) state () after ∧
          AddsUnits size names state after := by
        intro value inSpan state stateSimple
        obtain ⟨now, nowAssigned, nowFilled, fills⟩ :=
          exists_interpolated isNest interpolates split assigned filled inSpan
        have spares := sparesNest_round value (isNest.identifier counter member)
          (isNest.notType counter member)
        have applied :=
          spares.apply_nest fills size (binds_roundSubstitution_of_later isNest split value)
        obtain ⟨names, after, named, ran, adds⟩ := inductionHypothesis
          (by rw [split, List.append_assoc]; rfl) nowAssigned nowFilled
          (show inner.length < lower by omega) stateSimple
        refine ⟨names, after, ?_, ?_, adds⟩
        · simpa only [List.append_assoc, List.singleton_append] using named
        · exact runs_bind.2 ⟨_, state, runs_expression.2 ⟨applied, rfl⟩,
            runs_bind.2 ⟨(), after, ran, runs_pure.2 ⟨rfl, rfl⟩⟩⟩
      have ranged := runs_counterRange (isNest.least counter member)
        (isNest.greatest counter member) 1 before
      have logged (line : String) : Simple (before.logged line) :=
        ⟨simple.nothingAhead, simple.noPending⟩
      obtain ⟨groups, after, named, ran, adds⟩ := exists_rounds (logged _) round
      refine ⟨groups.flatten, after, List.rel_flatten (List.forall₂_map_left_iff.2 ?_),
        runs_bind.2 ⟨_, _, ranged, ran⟩, ⟨adds.simple, adds.units⟩⟩
      exact named.imp fun value names each => List.forall₂_map_left_iff.2 each

def nestProgram (counters : List Counter) (template : String) (size : Int) : Instruction :=
  .program [nest counters (denseLayer size template)]

private theorem nodeCount_nest (counters : List Counter) (size : Int) (template : String) :
    (nest counters (denseLayer size template)).nodeCount = counters.length + 1 := by
  induction counters with
  | nil => rfl
  | cons counter inner inductionHypothesis =>
      rw [nest, Instruction.nodeCount, Instruction.nodeCountAll, Instruction.nodeCountAll,
        inductionHypothesis, List.length_cons]
      omega

/-- Nested loops around a dense layer declare it once for every index tuple, in lexicographic order,
and each time under the template with its brackets evaluated under all counters. -/
theorem nest_interpolated {counters : List Counter} {template name : String} {size : Int}
    {seed : UInt64} (isNest : IsNest counters) (interpolates : Interpolates counters template)
    (nonneg : 0 ≤ size) :
    ∃ names compiled,
      List.Forall₂ (fun values name => interpolate values template = .ok name)
        (assignments counters) names ∧
      compile name seed (nestProgram counters template size) = .ok compiled ∧
      compiled.network.units = names.map (denseUnit size) := by
  obtain ⟨_, before, prepares⟩ :=
    total_prepare name (nestProgram counters template size) (CompileState.start name seed)
  have quiet := isQuiet_prepare _ _ _ _ _ prepares
  obtain ⟨_, nothingAhead, _⟩ := Books.mk.inj (books_of_prepare prepares)
  have simple : Simple before := ⟨nothingAhead, quiet.pending⟩
  obtain ⟨lower, isDepth, deep⟩ : ∃ lower,
      depthFor (nestProgram counters template size) = lower + 1 ∧ counters.length < lower := by
    have count : (nestProgram counters template size).nodeCount = counters.length + 2 := by
      rw [nestProgram, Instruction.nodeCount, Instruction.nodeCountAll, Instruction.nodeCountAll,
        nodeCount_nest]
      omega
    refine ⟨depthFor (nestProgram counters template size) - 1, ?_, ?_⟩ <;>
      rw [depthFor, count, Nat.mul_add, expansionLevels] <;> omega
  obtain ⟨names, after, named, ran, adds⟩ := exists_nest isNest interpolates nonneg
    (List.nil_append counters).symm (List.mem_singleton_self []) (interpolate_nil template)
    deep simple
  have built : Runs (build name (nestProgram counters template size))
      (CompileState.start name seed) () after := by
    refine runs_bind.2 ⟨(), before, prepares, ?_⟩
    rw [isDepth]
    exact runs_bind.2 ⟨(), after, ran, runs_pure.2 ⟨rfl, rfl⟩⟩
  have answered : compile name seed (nestProgram counters template size) =
      .ok ⟨(bindAll after).network, (bindAll after).trace.toList⟩ := by
    rw [compile, run, show (build _ _).run _ = _ from built]
    rfl
  refine ⟨names, _, named, answered, ?_⟩
  have unwired : (bindAll after).network = after.network := by
    rw [bindAll, adds.simple.noPending]
    rfl
  have empty : before.network.units = [] := by
    rw [Network.units, quiet.nodes]
    rfl
  rw [unwired, adds.units, empty, List.nil_append]

/-- Brackets of one counter each, with blanks and arithmetic, around a loop in descending and one in
ascending order of names. -/
theorem nest_interpolated_pair :
    IsNest [⟨"i", -1, 0⟩, ⟨"j", 1, 2⟩] ∧ Interpolates [⟨"i", -1, 0⟩, ⟨"j", 1, 2⟩] "h[i*2]_[ j ]" ∧
      ∃ compiled, compile "net" 0 (nestProgram [⟨"i", -1, 0⟩, ⟨"j", 1, 2⟩] "h[i*2]_[ j ]" 3) =
        .ok compiled ∧
        compiled.network.units = ["h-2_1", "h-2_2", "h0_1", "h0_2"].map (denseUnit 3) := by
  have isNest : IsNest [⟨"i", -1, 0⟩, ⟨"j", 1, 2⟩] :=
    ⟨by decide, by decide, by decide, by decide, by decide⟩
  have interpolates : Interpolates [⟨"i", -1, 0⟩, ⟨"j", 1, 2⟩] "h[i*2]_[ j ]" :=
    ⟨by decide +kernel, by decide +kernel⟩
  have names : (assignments [⟨"i", -1, 0⟩, ⟨"j", 1, 2⟩]).map
      (fun values => (interpolate values "h[i*2]_[ j ]").toOption) =
        [some "h-2_1", some "h-2_2", some "h0_1", some "h0_2"] := by decide +kernel
  obtain ⟨filled, compiled, named, compiles, units⟩ : ∃ filled compiled,
      List.Forall₂ (fun values name => interpolate values "h[i*2]_[ j ]" = .ok name)
        (assignments [⟨"i", -1, 0⟩, ⟨"j", 1, 2⟩]) filled ∧
      compile "net" 0 (nestProgram [⟨"i", -1, 0⟩, ⟨"j", 1, 2⟩] "h[i*2]_[ j ]" 3) = .ok compiled ∧
      compiled.network.units = filled.map (denseUnit 3) :=
    nest_interpolated isNest interpolates (by decide)
  have same : (assignments [⟨"i", -1, 0⟩, ⟨"j", 1, 2⟩]).map
      (fun values => (interpolate values "h[i*2]_[ j ]").toOption) = filled.map some := by
    rw [← List.forall₂_eq_eq_eq, List.forall₂_map_left_iff, List.forall₂_map_right_iff]
    exact named.imp fun values name fills => by rw [fills]; rfl
  have listed : filled = ["h-2_1", "h-2_2", "h0_1", "h0_2"] :=
    List.map_injective_iff.2 (fun _ _ => Option.some.inj) (same.symm.trans names)
  exact ⟨isNest, interpolates, compiled, compiles, listed ▸ units⟩

/-- The loop of the first counter evaluates a bracket of two counters, and the second one has no
value yet. The bracket has a value under every index tuple, and nothing is compiled. -/
theorem bracket_of_two_counters_unbound :
    IsNest [⟨"i", 1, 2⟩, ⟨"j", 1, 2⟩] ∧
      (assignments [⟨"i", 1, 2⟩, ⟨"j", 1, 2⟩]).map
        (fun values => (interpolate values "h_[i+j]").toOption) =
          [some "h_2", some "h_3", some "h_3", some "h_4"] ∧
      (∀ counter ∈ ["i", "j"], counter.toList ∉ words "h_".toList) ∧
      ∃ trace, compile "net" 0 (nestProgram [⟨"i", 1, 2⟩, ⟨"j", 1, 2⟩] "h_[i+j]" 1) =
        .error ⟨.expression ⟨"i+j", .unbound "j"⟩, trace⟩ := by
  have isNest : IsNest [⟨"i", 1, 2⟩, ⟨"j", 1, 2⟩] :=
    ⟨by decide, by decide, by decide, by decide, by decide⟩
  have fails : (match compile "net" 0 (nestProgram [⟨"i", 1, 2⟩, ⟨"j", 1, 2⟩] "h_[i+j]" 1) with
      | .error error => decide (error.fault = .expression ⟨"i+j", .unbound "j"⟩)
      | .ok _ => false) = true := by decide +kernel
  refine ⟨isNest, by decide +kernel, by decide +kernel, ?_⟩
  split at fails
  · rename_i error outcome
    obtain ⟨fault, trace⟩ := error
    cases of_decide_eq_true fails
    exact ⟨trace, outcome⟩
  · cases fails

/-- A counter is filled in wherever it is a word: in the type of the layer, and in a name that is
completed by the value of a counter further out. -/
example : (compile "net" 0 (nestProgram [⟨"dense", 1, 1⟩] "h" 1)).toOption.isNone = true ∧
    (compile "net" 0 (nestProgram [⟨"i", 1, 1⟩, ⟨"a1", 5, 5⟩] "a[i]" 1)).toOption.map
      (fun compiled => compiled.network.names) = some ["5"] := by
  decide +kernel

end Compile

end NetBlueprint
