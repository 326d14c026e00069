import NetBlueprint.Proofs.Compiler.SuffixedTrees
import NetBlueprint.Proofs.Compiler.SuffixReading
import NetBlueprint.Proofs.Substitution.FreeOccurrences

/-!
Contract: what a call makes of the body of a template.

A call without arguments binds nothing but its suffix. In a body that does not mention the suffix it
therefore changes names alone: those of the layers, and the references that are spelled like one of
them.

Owns: bodies of layers, connections and loops, and the bears that a call puts on them.
-/

namespace NetBlueprint

/-- A text that does not mention the suffix of the call it stands in. -/
def Silent (text : String) : Prop :=
  suffixKey.toList ∉ Text.words text.toList

instance (text : String) : Decidable (Silent text) :=
  inferInstanceAs (Decidable (suffixKey.toList ∉ Text.words text.toList))

namespace Instruction

section Trees

variable (onLayer : LayerSpec → Prop) (onConnect : String → String → Prop)
  (onLoop : String → String → String → Prop)

mutual

/-- A tree of layers, connections and loops that satisfy what is asked of each. -/
def Each : Instruction → Prop
  | .layer spec => onLayer spec
  | .connect source target => onConnect source target
  | .loop counter first last body => onLoop counter first last ∧ EachAll body
  | _ => False

def EachAll : List Instruction → Prop
  | [] => True
  | first :: rest => Each first ∧ EachAll rest

end

end Trees

section Deciding

variable {onLayer : LayerSpec → Prop} {onConnect : String → String → Prop}
  {onLoop : String → String → String → Prop} [DecidablePred onLayer]
  [∀ source target, Decidable (onConnect source target)]
  [∀ counter first last, Decidable (onLoop counter first last)]

mutual

def decideEach : ∀ instruction, Decidable (Each onLayer onConnect onLoop instruction)
  | .layer spec => inferInstanceAs (Decidable (onLayer spec))
  | .connect source target => inferInstanceAs (Decidable (onConnect source target))
  | .loop counter first last body =>
    @instDecidableAnd (onLoop counter first last) (EachAll onLayer onConnect onLoop body)
      inferInstance (decideEachAll body)
  | .program _ | .block _ | .moduleDef _ _ _ _ | .moduleCall _ _ | .branch _ _ _ _
  | .condition _ | .constant _ _ | .file _ | .templateDef _ _ _ | .templateCall _ _ | .call _ _
  | .expand _ _ _ | .otherwise _ => isFalse id

def decideEachAll : ∀ body, Decidable (EachAll onLayer onConnect onLoop body)
  | [] => isTrue trivial
  | first :: rest =>
    @instDecidableAnd (Each onLayer onConnect onLoop first) (EachAll onLayer onConnect onLoop rest)
      (decideEach first) (decideEachAll rest)

end

instance (body : List Instruction) : Decidable (EachAll onLayer onConnect onLoop body) :=
  decideEachAll body

end Deciding

def layerNames (body : List Instruction) : List String :=
  (definitionsOf body).map Definition.template

variable {onLayer otherLayer : LayerSpec → Prop} {onConnect otherConnect : String → String → Prop}
  {onLoop otherLoop : String → String → String → Prop}

mutual

theorem Each.and : ∀ {instruction : Instruction}, instruction.Each onLayer onConnect onLoop →
    instruction.Each otherLayer otherConnect otherLoop →
    instruction.Each (fun spec => onLayer spec ∧ otherLayer spec)
      (fun source target => onConnect source target ∧ otherConnect source target)
      (fun counter first last => onLoop counter first last ∧ otherLoop counter first last) := by
  intro instruction one other
  cases instruction with
  | layer _ | connect _ _ => exact ⟨one, other⟩
  | loop _ _ _ _ => exact ⟨⟨one.1, other.1⟩, EachAll.and one.2 other.2⟩
  | _ => exact one.elim

/-- Two things that are asked of each part can be asked together. -/
theorem EachAll.and : ∀ {body : List Instruction}, EachAll onLayer onConnect onLoop body →
    EachAll otherLayer otherConnect otherLoop body →
    EachAll (fun spec => onLayer spec ∧ otherLayer spec)
      (fun source target => onConnect source target ∧ otherConnect source target)
      (fun counter first last => onLoop counter first last ∧ otherLoop counter first last) body
  | [], _, _ => trivial
  | _ :: _, one, other => ⟨Each.and one.1 other.1, EachAll.and one.2 other.2⟩

end

mutual

/-- What is asked of each part of a tree may be exchanged; of a layer it may be used that its name
is among the names that the tree defines. -/
theorem Each.imp {names : List String}
    (layers : ∀ spec, onLayer spec → spec.name ∈ names → otherLayer spec)
    (connects : ∀ source target, onConnect source target → otherConnect source target)
    (loops : ∀ counter first last, onLoop counter first last → otherLoop counter first last) :
    ∀ {instruction : Instruction}, instruction.Each onLayer onConnect onLoop →
      (∀ definition ∈ definitions instruction, definition.template ∈ names) →
      instruction.Each otherLayer otherConnect otherLoop := by
  intro instruction each named
  cases instruction with
  | layer spec => exact layers spec each (named _ (List.mem_singleton_self _))
  | connect source target => exact connects source target each
  | loop counter first last body =>
      exact ⟨loops counter first last each.1, EachAll.imp layers connects loops each.2 named⟩
  | _ => exact each.elim

theorem EachAll.imp {names : List String}
    (layers : ∀ spec, onLayer spec → spec.name ∈ names → otherLayer spec)
    (connects : ∀ source target, onConnect source target → otherConnect source target)
    (loops : ∀ counter first last, onLoop counter first last → otherLoop counter first last) :
    ∀ {body : List Instruction}, EachAll onLayer onConnect onLoop body →
      (∀ definition ∈ definitionsOf body, definition.template ∈ names) →
      EachAll otherLayer otherConnect otherLoop body
  | [], _, _ => trivial
  | _ :: _, each, named =>
      ⟨Each.imp layers connects loops each.1
        fun definition member => named definition (List.mem_append_left _ member),
        EachAll.imp layers connects loops each.2
          fun definition member => named definition (List.mem_append_right _ member)⟩

end

mutual

/-- Every name that a tree defines is that of a layer in it. -/
theorem Each.definition {definition : Definition} : ∀ {instruction : Instruction},
    instruction.Each onLayer onConnect onLoop → definition ∈ definitions instruction →
      ∃ spec, onLayer spec ∧ definition = ⟨spec.name, spec.isInput, spec.isOutput⟩ := by
  intro instruction each member
  cases instruction with
  | layer spec => exact ⟨spec, each, List.mem_singleton.1 member⟩
  | connect source target => cases member
  | loop counter first last body => exact EachAll.definition each.2 member
  | _ => exact each.elim

/-- What a body defines are the layers that it declares. -/
theorem EachAll.definition {definition : Definition} : ∀ {body : List Instruction},
    EachAll onLayer onConnect onLoop body → definition ∈ definitionsOf body →
      ∃ spec, onLayer spec ∧ definition = ⟨spec.name, spec.isInput, spec.isOutput⟩
  | [], _, member => by cases member
  | _ :: _, each, member =>
      (List.mem_append.1 member).elim (Each.definition each.1) (EachAll.definition each.2)

end

end Instruction

/-- A declaration that can be renamed whatever is filled in for some counters: neither an input nor
an output, under a clean name that does not end with a counter, and silent about the suffix. -/
structure LayerSpec.Suffixable (counters : List String) (spec : LayerSpec) : Prop where
  isPlain : (Instruction.layer spec).isPlain = true
  clean : Name.IsClean spec.name.toList
  apart : Name.EndsApart counters spec.name
  silent : ∀ text ∈ spec.texts, Silent text

instance (counters : List String) : DecidablePred (LayerSpec.Suffixable counters) := fun spec =>
  decidable_of_iff ((Instruction.layer spec).isPlain = true ∧ Name.IsClean spec.name.toList ∧
      Name.EndsApart counters spec.name ∧ ∀ text ∈ spec.texts, Silent text)
    ⟨fun ⟨isPlain, clean, apart, silent⟩ => ⟨isPlain, clean, apart, silent⟩,
      fun ⟨isPlain, clean, apart, silent⟩ => ⟨isPlain, clean, apart, silent⟩⟩

/-- A body of layers, connections and loops over some counters that a call can rename. -/
structure Wiring (counters : List String) (body : List Instruction) : Prop where
  areCounters : ∀ counter ∈ counters, Name.IsCounter counter
  each : Instruction.EachAll (LayerSpec.Suffixable counters)
    (fun source target => Silent source ∧ Silent target)
    (fun counter first last => counter ∈ counters ∧ Silent first ∧ Silent last) body

instance (counters : List String) (body : List Instruction) : Decidable (Wiring counters body) :=
  decidable_of_iff ((∀ counter ∈ counters, Name.IsCounter counter) ∧
      Instruction.EachAll (LayerSpec.Suffixable counters)
        (fun source target => Silent source ∧ Silent target)
        (fun counter first last => counter ∈ counters ∧ Silent first ∧ Silent last) body)
    ⟨fun ⟨areCounters, each⟩ => ⟨areCounters, each⟩, fun ⟨areCounters, each⟩ => ⟨areCounters, each⟩⟩

/-- A body in which every endpoint is spelled just as the name of some layer is. -/
def SpelledAlike (body : List Instruction) : Prop :=
  Instruction.EachAll (fun _ => True)
    (fun source target => source ∈ Instruction.layerNames body ∧
      target ∈ Instruction.layerNames body)
    (fun _ _ _ => True) body

instance (body : List Instruction) : Decidable (SpelledAlike body) :=
  Instruction.decideEachAll body

namespace Suffixing

variable (suffixing : Suffixing) (substitution : Substitution)

/-- A declaration that a substitution only puts the suffix on. -/
def TakesSuffix (spec : LayerSpec) : Prop :=
  ((Instruction.layer spec).isPlain = true ∧
    ∀ text ∈ spec.texts, substitution.substitute text = .ok text) ∧
    suffixing.Bears spec.name (substitution.rename spec.name)

/-- An endpoint that a substitution leaves alone or puts the suffix on. -/
def TakesPlace (endpoint : String) : Prop :=
  substitution.substitute endpoint = .ok endpoint ∧
    suffixing.Connects endpoint (substitution.rename endpoint)

/-- A loop whose bounds and counter have nothing to do with what a substitution binds. -/
def Passes (counter first last : String) : Prop :=
  (counter ∈ suffixing.counters ∧ substitution.binds counter = false) ∧
    substitution.substitute first = .ok first ∧ substitution.substitute last = .ok last

variable {suffixing substitution}

mutual

/-- A substitution that renames every layer of a tree makes a suffixed tree of it. -/
theorem exists_on (refers : ∀ name, suffixing.Refers name (substitution.rename name)) :
    ∀ {instruction : Instruction},
      instruction.Each (suffixing.TakesSuffix substitution)
        (fun source target => suffixing.TakesPlace substitution source ∧
          suffixing.TakesPlace substitution target) (suffixing.Passes substitution) →
      ∃ suffixed, substitution.apply instruction = .ok suffixed ∧
        suffixing.On instruction suffixed := by
  intro instruction each
  have refersAll (names : List String) :
      List.Forall₂ suffixing.Refers names (names.map substitution.rename) := by
    rw [List.forall₂_map_right_iff]
    exact List.forall₂_same.2 fun name _ => refers name
  cases instruction with
  | layer spec =>
      obtain ⟨⟨isPlain, untouched⟩, bears⟩ := each
      exact ⟨_, Outcome.bind_eq_ok.2 ⟨_, Substitution.layerSpec_of_untouched untouched, rfl⟩,
        isPlain, bears, refersAll spec.inputs, refersAll spec.outputs, rfl⟩
  | connect source target =>
      obtain ⟨⟨sourceUntouched, sourceConnects⟩, targetUntouched, targetConnects⟩ := each
      exact ⟨_, Outcome.bind_eq_ok.2 ⟨_, Substitution.name_of_untouched sourceUntouched,
        Outcome.bind_eq_ok.2 ⟨_, Substitution.name_of_untouched targetUntouched, rfl⟩⟩,
        sourceConnects, targetConnects⟩
  | loop counter first last body =>
      obtain ⟨⟨⟨isCounter, unbound⟩, firstUntouched, lastUntouched⟩, bodyEach⟩ := each
      obtain ⟨inner, filled, on⟩ := exists_onAll refers bodyEach
      have same : substitution.without [counter] = substitution :=
        Substitution.without_eq_self fun name member => by
          rwa [List.mem_singleton.1 member]
      rw [← same] at filled
      exact ⟨_, Outcome.bind_eq_ok.2 ⟨_, firstUntouched, Outcome.bind_eq_ok.2 ⟨_, lastUntouched,
        Outcome.bind_eq_ok.2 ⟨inner, filled, rfl⟩⟩⟩, ⟨isCounter, rfl, rfl, rfl⟩, on⟩
  | _ => exact each.elim

/-- A body that a substitution only puts a suffix on is that body with the suffix. -/
theorem exists_onAll (refers : ∀ name, suffixing.Refers name (substitution.rename name)) :
    ∀ {body : List Instruction},
      Instruction.EachAll (suffixing.TakesSuffix substitution)
        (fun source target => suffixing.TakesPlace substitution source ∧
          suffixing.TakesPlace substitution target) (suffixing.Passes substitution) body →
      ∃ suffixed, substitution.applyAll body = .ok suffixed ∧ suffixing.OnAll body suffixed
  | [], _ => ⟨[], rfl, trivial⟩
  | _ :: _, each => by
      obtain ⟨first, filled, firstOn⟩ := exists_on refers each.1
      obtain ⟨rest, filledRest, restOn⟩ := exists_onAll refers each.2
      exact ⟨first :: rest, Outcome.bind_eq_ok.2 ⟨first, filled,
        Outcome.bind_eq_ok.2 ⟨rest, filledRest, rfl⟩⟩, firstOn, restOn⟩

end

end Suffixing

/-! ## The substitution of a call -/

namespace Wiring

open Compile Substitution

variable {counters : List String} {body : List Instruction} {suffix : String}

private theorem substitute_of_silent {text : String} (silent : Silent text) :
    (callSubstitution [] [] suffix).substitute text = .ok text := by
  refine substitute_of_unbound fun word member => Bool.eq_false_iff.2 fun bound => ?_
  rcases eq_or_binds_of_binds_bind bound with same | none
  · refine silent ?_
    rwa [← same, String.toList_ofList]
  · cases none

private theorem containsText_of_single {text : List Char}
    (single : Name.beforeSuffix? text = none) : containsText suffixKey.toList text = false := by
  refine Bool.eq_false_iff.2 fun contains => ?_
  obtain ⟨front, rest, rfl⟩ := eq_append_of_containsText contains
  cases Name.beforeSuffix?_of_append single

/-- The names of a body that can be renamed are renamed. -/
theorem exists_hygienicRenames (wiring : Wiring counters body) :
    ∃ renames, hygienicRenames body (callSubstitution [] [] suffix) [] suffix false =
      .ok renames := by
  have each (definitions : List Definition) (renames : List (String × String))
      (listed : definitions ⊆ Instruction.definitionsOf body) :
      ∃ table,
        renamesOf (callSubstitution [] [] suffix) suffix renames definitions = .ok table := by
    induction definitions generalizing renames with
    | nil => exact ⟨renames, rfl⟩
    | cons definition rest inductionHypothesis =>
        obtain ⟨spec, suffixable, rfl⟩ := wiring.each.definition (listed List.mem_cons_self)
        have silent := suffixable.silent spec.name (by simp [LayerSpec.texts])
        rw [renamesOf, substitute_of_silent silent]
        exact inductionHypothesis _ fun other member => listed (List.mem_cons_of_mem _ member)
  exact each _ _ fun definition member => (List.mem_filter.1 member).1

variable {renames : List (String × String)} (wiring : Wiring counters body)
  (built : hygienicRenames body (callSubstitution [] [] suffix) [] suffix false = .ok renames)

include wiring built

/-- The table of a call holds the names of the layers as they are written in the body. -/
theorem isSome_lookup_iff (name : String) :
    (renames.lookup name).isSome = true ↔ name ∈ Instruction.layerNames body := by
  rw [isSome_lookup_hygienicRenames built, Instruction.layerNames, List.mem_map]
  refine exists_congr fun definition => and_congr_right fun member => ?_
  obtain ⟨spec, suffixable, rfl⟩ := wiring.each.definition member
  have silent := suffixable.silent spec.name (by simp [LayerSpec.texts])
  rw [substitute_of_silent silent]
  have notExempt : Definition.isExempt [] false
      ⟨spec.name, spec.isInput, spec.isOutput⟩ = false := by
    have isPlain := suffixable.isPlain
    rw [Instruction.isPlain, Bool.and_eq_true, Bool.not_eq_true'] at isPlain
    rw [Definition.isExempt, isPlain.1, containsText_of_single suffixable.clean.single]
    rfl
  constructor
  · rintro ⟨_, same⟩
    cases same
    rfl
  · rintro rfl
    exact ⟨notExempt, rfl⟩

/-- A call puts its suffix on the layers of the body, and on what is spelled like one of them. -/
theorem rename_eq (name : String) :
    ((callSubstitution [] [] suffix).withRenames renames).rename name =
      if name ∈ Instruction.layerNames body then name ++ suffix else name := by
  have suffixes := suffixes_of_hygienicRenames built
  cases found : renames.lookup name with
  | none =>
      have absent : name ∉ Instruction.layerNames body := by
        rw [← isSome_lookup_iff wiring built, found]
        exact Bool.false_ne_true
      rw [if_neg absent, rename, withRenames, found, Option.getD_none]
  | some renamed =>
      have present : name ∈ Instruction.layerNames body := by
        rw [← isSome_lookup_iff wiring built, found]
        rfl
      rw [if_pos present, rename, withRenames, found, Option.getD_some,
        suffixes name renamed (Table.mem_of_lookup found)]

variable {suffixing : Suffixing} (sameTail : suffixing.tail.text = suffix)
  (sameCounters : suffixing.counters = counters)

include sameTail sameCounters

private theorem bears_of_listed {name : String} (listed : name ∈ Instruction.layerNames body) :
    suffixing.Bears name (((callSubstitution [] [] suffix).withRenames renames).rename name) := by
  obtain ⟨definition, member, rfl⟩ := List.mem_map.1 listed
  obtain ⟨spec, suffixable, rfl⟩ := wiring.each.definition member
  rw [rename_eq wiring built, if_pos listed]
  exact ⟨suffixable.clean, sameCounters ▸ suffixable.apart, by rw [sameTail]⟩

/-- A call makes a suffixed tree of a body. Where every endpoint is spelled like a layer, all
connections have the suffix at both ends. -/
theorem exists_onAll (spelled : suffixing.strict = true → SpelledAlike body) :
    ∃ suffixed, ((callSubstitution [] [] suffix).withRenames renames).applyAll body =
        .ok suffixed ∧ suffixing.OnAll body suffixed := by
  have bears {name : String} (listed : name ∈ Instruction.layerNames body) :
      suffixing.Bears name (((callSubstitution [] [] suffix).withRenames renames).rename name) :=
    bears_of_listed wiring built sameTail sameCounters listed
  generalize isCall : (callSubstitution [] [] suffix).withRenames renames = call at bears
  have stays {name : String} (absent : name ∉ Instruction.layerNames body) :
      call.rename name = name := by
    rw [← isCall, rename_eq wiring built, if_neg absent]
  have untouched {text : String} (silent : Silent text) : call.substitute text = .ok text := by
    rw [← isCall, substitute_withRenames, substitute_of_silent silent]
  have unbound {counter : String} (member : counter ∈ counters) : call.binds counter = false := by
    rw [← isCall, binds_withRenames]
    refine Bool.eq_false_iff.2 fun bound => ?_
    rcases eq_or_binds_of_binds_bind bound with rfl | none
    · cases (wiring.areCounters _ member).single
    · cases none
  have refers (name : String) : suffixing.Refers name (call.rename name) := by
    by_cases listed : name ∈ Instruction.layerNames body
    · exact .inl (bears listed)
    · exact .inr (stays listed)
  have connects {endpoint : String}
      (alike : suffixing.strict = true → endpoint ∈ Instruction.layerNames body) :
      suffixing.Connects endpoint (call.rename endpoint) := by
    by_cases listed : endpoint ∈ Instruction.layerNames body
    · exact .inl (bears listed)
    · exact .inr ⟨Bool.eq_false_iff.2 fun strict => listed (alike strict), stays listed⟩
  have named : ∀ definition ∈ Instruction.definitionsOf body,
      definition.template ∈ Instruction.layerNames body :=
    fun _ member => List.mem_map_of_mem member
  have alike : Instruction.EachAll (fun _ => True)
      (fun source target => suffixing.strict = true →
        source ∈ Instruction.layerNames body ∧ target ∈ Instruction.layerNames body)
      (fun _ _ _ => True) body := by
    cases isStrict : suffixing.strict with
    | true =>
        exact (spelled isStrict).imp (fun _ _ _ => trivial) (fun _ _ both _ => both)
          (fun _ _ _ _ => trivial) named
    | false =>
        exact wiring.each.imp (fun _ _ _ => trivial) (fun _ _ _ strict => by cases strict)
          (fun _ _ _ _ => trivial) named
  refine Suffixing.exists_onAll refers ((wiring.each.and alike).imp ?_ ?_ ?_ named)
  · rintro spec ⟨suffixable, _⟩ listed
    exact ⟨⟨suffixable.isPlain, fun text member => untouched (suffixable.silent text member)⟩,
      bears listed⟩
  · rintro source target ⟨⟨sourceSilent, targetSilent⟩, both⟩
    exact ⟨⟨untouched sourceSilent, connects fun strict => (both strict).1⟩,
      untouched targetSilent, connects fun strict => (both strict).2⟩
  · rintro counter first last ⟨⟨isCounter, firstSilent, lastSilent⟩, _⟩
    exact ⟨⟨sameCounters ▸ isCounter, unbound isCounter⟩, untouched firstSilent,
      untouched lastSilent⟩

end Wiring

end NetBlueprint
