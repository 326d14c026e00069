import Mathlib.Data.Set.Lattice
import Mathlib.Order.CompletePartialOrder
import NetBlueprint.Proofs.Compiler.Connections
import NetBlueprint.Proofs.Compiler.Parts

/-!
Contract: when two calls of one template define different names.

A call puts its suffix on every name that its template defines. The rename table is made for the
bindings of the call, while a name below a loop is looked up without what the loop shadows. A
counter that is a parameter as well therefore lets names escape, and two calls may define the same
ones. Names that do not escape end with the suffix of their call and the suffixes of the branches
around them, and never meet.

Owns: the names that a call defines, and when those of two calls are disjoint.
-/

namespace NetBlueprint

namespace Compile

/-- Decides whether a template of a name is a parameter, as it stands or in brackets, or spells the
suffix out. -/
def isGiven (parameters : List String) (template : String) : Bool :=
  containsText suffixKey.toList template.toList ||
    parameters.any fun parameter => template == parameter || template == "[" ++ parameter ++ "]"

namespace Part

/-- The name of the layer that a part defines in a network. Inputs are left out, and names that are
given by the caller or spell the suffix out. -/
def ownName? (parameters : List String) (network : Network) (part : Part) : Option String :=
  match part.template.definition?, part.visit.ownLayer?.bind network.layer? with
  | some definition, some layer =>
    if isGiven parameters definition.template || layer.kind.isInput then none else some layer.name
  | _, _ => none

/-- The suffix of a call need not stay on the name of a part: a loop around it shadows a binding of
the call or spells its mark, the definition is exempt from the suffix, or the name of the template
can be taken for that of a branch. -/
inductive Loose (label : String) (opened : OpenTemplate) (part : Part) : Prop where
  | shadowed {counter : String} (around : counter ∈ part.counters)
      (bound : counter ∈ opened.parameters ∨ counter = suffixKey) : Loose label opened part
  | marked {counter : String} (around : counter ∈ part.counters)
      (spells : '_' :: Suffix.markOf opened.suffix <:+: counter.toList) : Loose label opened part
  | exempt {definition : Definition} (defines : part.template.definition? = some definition)
      (exempt : definition.isExempt opened.parameters false = true) : Loose label opened part
  | confusable (notPlain : ¬ Suffix.IsPlain label) : Loose label opened part

private theorem isPlain_of_not_loose {label : String} {opened : OpenTemplate} {part : Part}
    (tight : ¬ part.Loose label opened) : Suffix.IsPlain label := by
  by_contra notPlain
  exact tight (.confusable notPlain)

end Part

/-- The names of the layers that a call defines from the body of its template. -/
def ownNames (network : Network) (call : Visit) (opened : OpenTemplate) : Set String :=
  { name | ∃ path part, partAt call opened path = some part ∧
    part.ownName? opened.parameters network = some name }

/-- The names among them that the suffix of the call need not stay on. -/
def looseNames (network : Network) (label : String) (call : Visit) (opened : OpenTemplate) :
    Set String :=
  { name | ∃ path part, partAt call opened path = some part ∧ part.Loose label opened ∧
    part.ownName? opened.parameters network = some name }

/-! ## The bindings of a call -/

/-- A call binds its parameters and its suffix only. -/
theorem binds_callSubstitution {parameters args : List String} {suffix key : String}
    (bound : (callSubstitution parameters args suffix).binds key = true) :
    key ∈ parameters ∨ key = suffixKey := by
  rcases Substitution.eq_or_binds_of_binds_bind bound with same | bound
  · exact .inr same
  · rcases Substitution.binds_foldl bound with ⟨value, member⟩ | absent
    · exact .inl (List.of_mem_zip member).1
    · cases absent

/-! ## Names that keep the suffix -/

/-- A name ends with the mark of a call, behind the label and before the suffixes of branches below
the call. -/
def Bears {label : String} (call : Visit) (anchor : Suffix.Anchor ('_' :: '_' :: label.toList))
    (mark : List Char) (name : String) : Prop :=
  ∃ (front : List Char) (suffixes : List String),
    (∀ suffix ∈ suffixes, BranchSuffix call suffix) ∧
      name.toList = front ++ anchor.marked mark (suffixes.map String.toList)

section Bearing

variable {label : String} {call : Visit}
  {anchor : Suffix.Anchor ('_' :: '_' :: label.toList)} {mark : List Char}

/-- The suffixes of branches below a call can be read off the end of a name. -/
theorem isCode_of_branchSuffix {suffixes : List String}
    (areSuffixes : ∀ suffix ∈ suffixes, BranchSuffix call suffix) :
    ∀ code ∈ suffixes.map String.toList, Suffix.IsCode code := by
  intro code member
  obtain ⟨suffix, suffixMember, rfl⟩ := List.mem_map.1 member
  obtain ⟨_, _, _, _, isCode⟩ := areSuffixes suffix suffixMember
  exact isCode

/-- What loops and branches fill in leaves a mark where it is. -/
theorem Bears.name {counters : List String} {substitution : Substitution} {text filled : String}
    (bears : Bears call anchor mark text) (plain : Suffix.IsPlain label)
    (isMark : Suffix.IsMark mark) (later : Later call counters substitution)
    (unmarked : ∀ counter ∈ counters, ¬ '_' :: mark <:+: counter.toList)
    (named : substitution.name text = .ok filled) : Bears call anchor mark filled := by
  obtain ⟨front, suffixes, areSuffixes, whole⟩ := bears
  have areCodes := isCode_of_branchSuffix areSuffixes
  obtain ⟨spells, last, isLast, ends⟩ := anchor.ending_run plain isMark _ areCodes
  have unbound : ∀ key, substitution.binds key = true →
      ¬ (anchor.ending plain isMark _ areCodes).run <:+ key.toList := by
    intro key bound keyEnds
    rcases later.keys key bound with rfl | counter
    · exact isLast.not_underscore_suffix (ends.trans keyEnds) (by decide)
    · exact unmarked key counter (spells.trans keyEnds.isInfix)
  unfold Substitution.name at named
  split at named
  · rename_i plainText substituted
    have kept := Substitution.ending_of_substitute unbound (by
      rw [anchor.characters_ending, whole]
      exact List.suffix_append _ _) substituted
    rw [anchor.characters_ending] at kept
    obtain ⟨newFront, same⟩ := kept
    have asItWas : Bears call anchor mark plainText := ⟨newFront, suffixes, areSuffixes, same.symm⟩
    cases named
    rcases later.renames with nothing | ⟨suffix, isSuffix, renames⟩
    · rwa [Substitution.rename, nothing]
    · rcases Substitution.rename_of_suffixes renames plainText with stays | renamed
      · rwa [stays]
      · refine ⟨newFront, suffixes ++ [suffix], ?_, ?_⟩
        · intro other member
          rcases List.mem_append.1 member with earlier | new
          · exact areSuffixes other earlier
          · rw [List.mem_singleton.1 new]
            exact isSuffix
        · rw [renamed, String.toList_append, ← same, List.map_append, List.map_singleton,
            anchor.marked_append, List.append_assoc]
  · cases named

/-- A name that bears the mark of a call goes on to bear it. -/
theorem Bears.filled {counters : List String} {substitutions : List Substitution}
    {text last : String}
    (filled : Substitution.Filled Substitution.name substitutions text last)
    (plain : Suffix.IsPlain label) (isMark : Suffix.IsMark mark)
    (later : ∀ substitution ∈ substitutions, Later call counters substitution)
    (unmarked : ∀ counter ∈ counters, ¬ '_' :: mark <:+: counter.toList)
    (bears : Bears call anchor mark text) : Bears call anchor mark last := by
  induction filled with
  | done => exact bears
  | next named _ inductionHypothesis =>
      exact inductionHypothesis
        (fun substitution member => later substitution (List.mem_cons_of_mem _ member))
        (bears.name plain isMark (later _ List.mem_cons_self) unmarked named)

/-- A part of which the first filling in leaves the name marked has a marked name. -/
theorem IsPartOf.bears_of_name {opened : OpenTemplate} {part : Part}
    (isPart : IsPartOf call opened part) (plain : Suffix.IsPlain label)
    (isMark : Suffix.IsMark mark)
    (unmarked : ∀ counter ∈ part.counters, ¬ '_' :: mark <:+: counter.toList)
    {definition : Definition} (defines : part.template.definition? = some definition)
    (bears : ∀ {between}, (opened.substitution.without part.counters).name definition.template =
      .ok between → Bears call anchor mark between) :
    ∃ last, part.visit.instruction.definition? = some last ∧
      Bears call anchor mark last.template := by
  obtain ⟨substitutions, later, filled⟩ := isPart.filled
  obtain ⟨last, lastDefines, named⟩ := filled.definition? defines
  refine ⟨last, lastDefines, ?_⟩
  cases named with
  | next first following =>
      exact Bears.filled following plain isMark later unmarked (bears first)

end Bearing

/-- The suffix of a call ends with a mark. -/
theorem exists_mark_of_opened {call : Visit} {label : String} {opened : OpenTemplate}
    (faithful : call.Faithful) (opens : opened? call = some (label, opened)) :
    ∃ mark, Suffix.IsMark mark ∧ opened.suffix.toList = Suffix.spelling label.toList mark := by
  obtain ⟨_, _, ran, _⟩ := filled_of_opened faithful opens
  obtain ⟨attempt, word, text⟩ := (runs_openTemplate ran).1.spelled
  rw [text]
  exact Suffix.toList_suffixText label attempt word

/-- What a call whose suffix has a given mark promises about the names of its parts. -/
theorem IsPartOf.bears {call : Visit} {label : String} {opened : OpenTemplate} {part : Part}
    {mark : List Char} (isPart : IsPartOf call opened part) (faithful : call.Faithful)
    (opens : opened? call = some (label, opened)) (isMark : Suffix.IsMark mark)
    (spelled : opened.suffix.toList = Suffix.spelling label.toList mark)
    (anchor : Suffix.Anchor ('_' :: '_' :: label.toList)) (tight : ¬ part.Loose label opened)
    {definition : Definition} (defines : part.template.definition? = some definition) :
    ∃ last, part.visit.instruction.definition? = some last ∧
      Bears call anchor mark last.template := by
  obtain ⟨args, _, ran, _⟩ := filled_of_opened faithful opens
  obtain ⟨_, _, renames, table, isSubstitution⟩ := runs_openTemplate ran
  have unmarked : ∀ counter ∈ part.counters, ¬ '_' :: mark <:+: counter.toList := by
    intro counter around spells
    rw [← Suffix.markOf_of_spelled isMark spelled] at spells
    exact tight (.marked around spells)
  have unshadowed : opened.substitution.without part.counters = opened.substitution := by
    refine Substitution.without_eq_self fun counter around => Bool.eq_false_iff.2 fun bound => ?_
    rw [isSubstitution, Substitution.binds_withRenames] at bound
    exact tight (.shadowed around (binds_callSubstitution bound))
  have hygienic : definition.isExempt opened.parameters false = false :=
    Bool.eq_false_iff.2 fun exempt => tight (.exempt defines exempt)
  refine isPart.bears_of_name (Part.isPlain_of_not_loose tight) isMark unmarked defines ?_
  intro between named
  rw [unshadowed, isSubstitution] at named
  obtain ⟨plainName, rfl⟩ := Substitution.name_of_definition table
    (isPart.definitions (Instruction.mem_definitions defines)) hygienic named
  refine ⟨plainName.toList ++ anchor.front, [], fun _ member => absurd member List.not_mem_nil, ?_⟩
  rw [String.toList_append, spelled, anchor.spelling_eq, List.append_assoc]
  rfl

/-! ## Two calls -/

section TwoCalls

variable {root one other : Visit} {label : String} {first second : OpenTemplate}

private theorem not_branchSuffix_of_opened (faithful : root.Faithful)
    (oneWithin : one.Within root) (otherWithin : other.Within root)
    (opens : opened? one = some (label, first)) : ¬ BranchSuffix other first.suffix := by
  rintro ⟨branch, inside, notCall, drew, _⟩
  have same := faithful.eq_of_drew oneWithin (inside.trans otherWithin)
    (drew_of_opened (faithful.within oneWithin) opens) drew
  rw [same, notCall] at opens
  cases opens

private theorem spelling_notMem_suffixes (faithful : root.Faithful)
    (oneWithin : one.Within root) (otherWithin : other.Within root)
    (opens : opened? one = some (label, first)) {mark : List Char}
    (spelled : first.suffix.toList = Suffix.spelling label.toList mark) {suffixes : List String}
    (areSuffixes : ∀ suffix ∈ suffixes, BranchSuffix other suffix) :
    Suffix.spelling label.toList mark ∉ suffixes.map String.toList := by
  intro member
  obtain ⟨suffix, isSuffix, same⟩ := List.mem_map.1 member
  rw [← spelled, String.toList_inj] at same
  have ofOther := areSuffixes suffix isSuffix
  rw [same] at ofOther
  exact not_branchSuffix_of_opened faithful oneWithin otherWithin opens ofOther

/-- Two calls of one template define the same name only where a suffix need not stay on it. -/
theorem loose_of_same_name (faithful : root.Faithful) (oneWithin : one.Within root)
    (otherWithin : other.Within root) (apart : one ≠ other)
    (oneOpens : opened? one = some (label, first))
    (otherOpens : opened? other = some (label, second)) {onePart otherPart : Part}
    (isOnePart : IsPartOf one first onePart) (isOtherPart : IsPartOf other second otherPart)
    {oneDefinition otherDefinition : Definition}
    (oneDefines : onePart.template.definition? = some oneDefinition)
    (otherDefines : otherPart.template.definition? = some otherDefinition)
    (same : onePart.visit.instruction.definition?.map Definition.template =
      otherPart.visit.instruction.definition?.map Definition.template) :
    onePart.Loose label first ∨ otherPart.Loose label second := by
  by_contra bothTight
  rw [not_or] at bothTight
  have oneFaithful := faithful.within oneWithin
  have otherFaithful := faithful.within otherWithin
  obtain ⟨oneMark, isOneMark, oneSpelled⟩ := exists_mark_of_opened oneFaithful oneOpens
  obtain ⟨otherMark, isOtherMark, otherSpelled⟩ := exists_mark_of_opened otherFaithful otherOpens
  obtain ⟨anchor⟩ := Suffix.exists_anchor ('_' :: '_' :: label.toList)
  obtain ⟨oneLast, oneIs, oneFront, oneSuffixes, oneAre, oneWhole⟩ := isOnePart.bears oneFaithful
    oneOpens isOneMark oneSpelled anchor bothTight.1 oneDefines
  obtain ⟨otherLast, otherIs, otherFront, otherSuffixes, otherAre, otherWhole⟩ :=
    isOtherPart.bears otherFaithful otherOpens isOtherMark otherSpelled anchor bothTight.2
      otherDefines
  rw [oneIs, otherIs, Option.map_some, Option.map_some, Option.some.injEq] at same
  rw [same, otherWhole] at oneWhole
  have plain := Part.isPlain_of_not_loose bothTight.1
  rcases Suffix.mark_eq_of_marked_eq plain isOtherMark isOneMark (isCode_of_branchSuffix otherAre)
    (isCode_of_branchSuffix oneAre) oneWhole with sameMark | inOne | inOther
  · -- The marks agree, so both calls drew the same suffix.
    have sameSuffix : first.suffix = second.suffix := by
      rw [← String.toList_inj, oneSpelled, otherSpelled, sameMark]
    have oneDrew := drew_of_opened oneFaithful oneOpens
    rw [sameSuffix] at oneDrew
    exact apart (faithful.eq_of_drew oneWithin otherWithin oneDrew
      (drew_of_opened otherFaithful otherOpens))
  · exact (spelling_notMem_suffixes faithful otherWithin oneWithin otherOpens otherSpelled oneAre
      inOne).elim
  · exact (spelling_notMem_suffixes faithful oneWithin otherWithin oneOpens oneSpelled otherAre
      inOther).elim

end TwoCalls

/-! ## Whole runs -/

/-- A part has a name in a network by way of its definition and its own layer. -/
theorem Part.defined_of_ownName? {parameters : List String} {network : Network} {part : Part}
    {name : String} (own : part.ownName? parameters network = some name) :
    ∃ definition id layer, part.template.definition? = some definition ∧
      isGiven parameters definition.template = false ∧ part.visit.ownLayer? = some id ∧
      network.layer? id = some layer ∧ layer.kind.isInput = false ∧ layer.name = name := by
  unfold ownName? at own
  split at own
  · rename_i definition layer defines isLayer
    obtain ⟨id, isOwn, found⟩ := Option.bind_eq_some_iff.1 isLayer
    split at own
    · cases own
    · rename_i kept
      rw [Bool.not_eq_true, Bool.or_eq_false_iff] at kept
      cases own
      exact ⟨definition, id, layer, defines, kept.1, isOwn, found, kept.2, rfl⟩
  · cases own

section Runs

variable {name : String} {seed : UInt64} {program : Instruction} {compiled : Compiled}
  {root call : Visit} {label : String} {opened : OpenTemplate} {part : Part}

private theorem isPartOf_of_ownName? (faithful : call.Faithful)
    (opens : opened? call = some (label, opened)) {path : List Nat}
    (found : partAt call opened path = some part) {parameters : List String} {network : Network}
    {own : String} (isOwn : part.ownName? parameters network = some own) :
    IsPartOf call opened part := by
  cases path with
  | nil =>
      cases found
      obtain ⟨_, _, _, defines, _⟩ := Part.defined_of_ownName? isOwn
      cases defines
  | cons position path => exact isPartOf_of_partAt faithful opens found

/-- In the compiled network, the layer of a part has the name that its visit defines. -/
theorem RootOf.named_of_ownName? (rootOf : RootOf name seed program compiled root)
    (within : part.visit.Within root) {definition : Definition}
    (defines : part.visit.instruction.definition? = some definition) {parameters : List String}
    {own : String} (isOwn : part.ownName? parameters compiled.network = some own) :
    definition.template = own := by
  obtain ⟨_, id, layer, _, _, isLayer, found, _, rfl⟩ := Part.defined_of_ownName? isOwn
  have named := (rootOf.faithful.within within).defines defines isLayer
  obtain ⟨same, sameFound, sameName⟩ := (rootOf.grows_after within).named named
  cases found.symm.trans sameFound
  exact sameName.symm

private theorem looseNames_subset (network : Network) (label : String) (call : Visit)
    (opened : OpenTemplate) :
    looseNames network label call opened ⊆ ownNames network call opened := by
  rintro own ⟨path, part, found, _, isOwn⟩
  exact ⟨path, part, found, isOwn⟩

/-- A template without loops over its parameters or over the spelling of a suffix, and without
inputs, lets no name escape. -/
theorem looseNames_eq_empty (faithful : call.Faithful)
    (opens : opened? call = some (label, opened)) (plain : Suffix.IsPlain label)
    (counters : ∀ counter ∈ loopCountersOf opened.body, counter ∉ opened.parameters ∧
      counter ≠ suffixKey ∧ ¬ '_' :: Suffix.markOf opened.suffix <:+: counter.toList)
    (definitions : ∀ definition ∈ Instruction.definitionsOf opened.body,
      definition.isExempt opened.parameters false = true →
        isGiven opened.parameters definition.template = true) (network : Network) :
    looseNames network label call opened = ∅ := by
  refine Set.eq_empty_of_forall_notMem ?_
  rintro own ⟨path, part, found, loose, isOwn⟩
  have isPart := isPartOf_of_ownName? faithful opens found isOwn
  have isCounter {counter : String} (around : counter ∈ part.counters) :
      counter ∈ loopCountersOf opened.body := isPart.counters (List.mem_append_left _ around)
  cases loose with
  | shadowed around bound =>
      obtain ⟨noParameter, noKey, _⟩ := counters _ (isCounter around)
      exact bound.elim noParameter noKey
  | marked around spells =>
      obtain ⟨_, _, unmarked⟩ := counters _ (isCounter around)
      exact unmarked spells
  | exempt defines exempt =>
      obtain ⟨_, _, _, sameDefines, notGiven, _⟩ := Part.defined_of_ownName? isOwn
      cases defines.symm.trans sameDefines
      have given := definitions _ (isPart.definitions (Instruction.mem_definitions defines)) exempt
      rw [notGiven] at given
      cases given
  | confusable notPlain => exact notPlain plain

/-- The names that two calls of one template define are disjoint exactly when those of either call
that may escape its suffix are not defined by the other. -/
theorem ownNames_disjoint_iff (compiles : compile name seed program = .ok compiled) :
    ∃ root, rootVisit? name seed program = some root ∧ root.instruction = program ∧
      ∀ one other label first second, Visit.Within one root → Visit.Within other root →
        one ≠ other → opened? one = some (label, first) → opened? other = some (label, second) →
          (Disjoint (ownNames compiled.network one first)
              (ownNames compiled.network other second) ↔
            Disjoint (looseNames compiled.network label one first)
                (ownNames compiled.network other second) ∧
              Disjoint (ownNames compiled.network one first)
                (looseNames compiled.network label other second)) := by
  obtain ⟨root, rootOf⟩ := exists_rootOf compiles
  refine ⟨root, rootOf.isRoot, rootOf.instruction, ?_⟩
  intro one other label first second oneWithin otherWithin apart oneOpens otherOpens
  constructor
  · intro disjoint
    exact ⟨disjoint.mono_left (looseNames_subset _ _ _ _),
      disjoint.mono_right (looseNames_subset _ _ _ _)⟩
  · rintro ⟨looseOne, looseOther⟩
    rw [Set.disjoint_left] at looseOne looseOther ⊢
    rintro own ⟨path, onePart, oneFound, oneOwn⟩ ⟨otherPath, otherPart, otherFound, otherOwn⟩
    have isOnePart :=
      isPartOf_of_ownName? (rootOf.faithful.within oneWithin) oneOpens oneFound oneOwn
    have isOtherPart :=
      isPartOf_of_ownName? (rootOf.faithful.within otherWithin) otherOpens otherFound otherOwn
    obtain ⟨_, _, _, oneDefines, _⟩ := Part.defined_of_ownName? oneOwn
    obtain ⟨_, _, _, otherDefines, _⟩ := Part.defined_of_ownName? otherOwn
    obtain ⟨_, _, oneFilled⟩ := isOnePart.filled
    obtain ⟨_, _, otherFilled⟩ := isOtherPart.filled
    obtain ⟨oneLast, oneIs, _⟩ := oneFilled.definition? oneDefines
    obtain ⟨otherLast, otherIs, _⟩ := otherFilled.definition? otherDefines
    have same : onePart.visit.instruction.definition?.map Definition.template =
        otherPart.visit.instruction.definition?.map Definition.template := by
      rw [oneIs, otherIs, Option.map_some, Option.map_some,
        rootOf.named_of_ownName? (isOnePart.within.trans oneWithin) oneIs oneOwn,
        rootOf.named_of_ownName? (isOtherPart.within.trans otherWithin) otherIs otherOwn]
    rcases loose_of_same_name rootOf.faithful oneWithin otherWithin apart oneOpens otherOpens
      isOnePart isOtherPart oneDefines otherDefines same with oneLoose | otherLoose
    · exact looseOne ⟨path, onePart, oneFound, oneLoose, oneOwn⟩
        ⟨otherPath, otherPart, otherFound, otherOwn⟩
    · exact looseOther ⟨path, onePart, oneFound, oneOwn⟩
        ⟨otherPath, otherPart, otherFound, otherLoose, otherOwn⟩

end Runs

/-! ## A counter that is a parameter -/

def twiceCalled (parameter : String) : Instruction :=
  .program [.templateDef "m" [parameter] [.loop "i" "1" "2" [sizedLayer "dense" "h_[i]" 1]],
    .templateCall "m" ["3"], .templateCall "m" ["4"]]

def firstName? (network : Network) (call : Visit) (opened : OpenTemplate) : Option String :=
  (partAt call opened [0, 0]).bind fun part => part.ownName? opened.parameters network

private theorem mem_ownNames {network : Network} {call : Visit} {opened : OpenTemplate}
    {own : String} (first : firstName? network call opened = some own) :
    own ∈ ownNames network call opened := by
  obtain ⟨part, found, isOwn⟩ := Option.bind_eq_some_iff.1 first
  exact ⟨[0, 0], part, found, isOwn⟩

private def twoCalls? (root : Visit) : Option (Visit × Visit × OpenTemplate × OpenTemplate) :=
  match root.inner with
  | [_, one, other] =>
    match opened? one, opened? other with
    | some ("m", first), some ("m", second) =>
      if first.suffix = second.suffix then none else some (one, other, first, second)
    | _, _ => none
  | _ => none

private theorem exists_twoCalls (program : Instruction)
    (passes : Network → Visit → Visit → OpenTemplate → OpenTemplate → Bool)
    (passed : (compile "net" 0 program).toOption.any (fun compiled =>
      ((rootVisit? "net" 0 program).bind twoCalls?).any fun (one, other, first, second) =>
        passes compiled.network one other first second) = true) :
    ∃ compiled root one other first second, compile "net" 0 program = .ok compiled ∧
      rootVisit? "net" 0 program = some root ∧ Visit.Within one root ∧ Visit.Within other root ∧
      one ≠ other ∧ opened? one = some ("m", first) ∧ opened? other = some ("m", second) ∧
      passes compiled.network one other first second = true := by
  obtain ⟨compiled, compiles, passed⟩ := exists_compiled passed
  obtain ⟨⟨one, other, first, second⟩, found, passed⟩ := (Option.any_eq_true _ _).1 passed
  obtain ⟨root, isRoot, calls⟩ := Option.bind_eq_some_iff.1 found
  refine ⟨compiled, root, one, other, first, second, compiles, isRoot, ?_⟩
  unfold twoCalls? at calls
  split at calls
  · rename_i _ _ _ listed
    split at calls
    · rename_i _ _ _ _ oneOpens otherOpens
      split at calls
      · cases calls
      · rename_i apart
        cases calls
        refine ⟨.under ?_ (.self one), .under ?_ (.self other), ?_, oneOpens, otherOpens, passed⟩
        · rw [listed]
          simp
        · rw [listed]
          simp
        · rintro rfl
          cases oneOpens.symm.trans otherOpens
          exact apart rfl
    · cases calls
  · cases calls

private def isRegular (opened : OpenTemplate) : Bool :=
  loopCountersOf opened.body == ["i"] && opened.parameters == ["n"] &&
    Instruction.definitionsOf opened.body == [⟨"h_[i]", false, false⟩]

private theorem looseNames_of_isRegular {call : Visit} {opened : OpenTemplate} {network : Network}
    (faithful : call.Faithful) (opens : opened? call = some ("m", opened))
    (regular : isRegular opened = true) : looseNames network "m" call opened = ∅ := by
  unfold isRegular at regular
  simp only [Bool.and_eq_true] at regular
  obtain ⟨⟨counters, parameters⟩, definitions⟩ := regular
  refine looseNames_eq_empty faithful opens ⟨by decide, by decide⟩ ?_ ?_ network
  · rw [eq_of_beq counters, eq_of_beq parameters]
    intro counter member
    cases List.mem_singleton.1 member
    refine ⟨by decide, by decide, fun spells => ?_⟩
    have underscore : '_' ∈ "i".toList := spells.subset List.mem_cons_self
    exact absurd underscore (by decide)
  · rw [eq_of_beq definitions, eq_of_beq parameters]
    intro definition member exempt
    cases List.mem_singleton.1 member
    exact absurd exempt (by decide)

/-- A counter that is a parameter as well takes the suffix away: both calls define `h_1`. -/
theorem shadowed_counter_collides :
    ∃ compiled root one other first second, compile "net" 0 (twiceCalled "i") = .ok compiled ∧
      rootVisit? "net" 0 (twiceCalled "i") = some root ∧ Visit.Within one root ∧
      Visit.Within other root ∧ one ≠ other ∧ opened? one = some ("m", first) ∧
      opened? other = some ("m", second) ∧
      ¬ Disjoint (ownNames compiled.network one first)
        (ownNames compiled.network other second) := by
  obtain ⟨compiled, root, one, other, first, second, compiles, isRoot, oneWithin, otherWithin,
    apart, oneOpens, otherOpens, passed⟩ := exists_twoCalls (twiceCalled "i")
      (fun network one other first second =>
        firstName? network one first == some "h_1" && firstName? network other second == some "h_1")
      (by decide +kernel)
  rw [Bool.and_eq_true] at passed
  refine ⟨compiled, root, one, other, first, second, compiles, isRoot, oneWithin, otherWithin,
    apart, oneOpens, otherOpens, ?_⟩
  rw [Set.not_disjoint_iff]
  exact ⟨"h_1", mem_ownNames (eq_of_beq passed.1), mem_ownNames (eq_of_beq passed.2)⟩

/-- Without such a counter, both calls define names, and no common ones. -/
theorem distinct_counter_disjoint :
    ∃ compiled root one other first second, compile "net" 0 (twiceCalled "n") = .ok compiled ∧
      rootVisit? "net" 0 (twiceCalled "n") = some root ∧ Visit.Within one root ∧
      Visit.Within other root ∧ one ≠ other ∧ opened? one = some ("m", first) ∧
      opened? other = some ("m", second) ∧ (ownNames compiled.network one first).Nonempty ∧
      (ownNames compiled.network other second).Nonempty ∧
      Disjoint (ownNames compiled.network one first) (ownNames compiled.network other second) := by
  obtain ⟨compiled, root, one, other, first, second, compiles, isRoot, oneWithin, otherWithin,
    apart, oneOpens, otherOpens, passed⟩ := exists_twoCalls (twiceCalled "n")
      (fun network one other first second => isRegular first && isRegular second &&
        (firstName? network one first).isSome && (firstName? network other second).isSome)
      (by decide +kernel)
  simp only [Bool.and_eq_true] at passed
  obtain ⟨⟨⟨firstRegular, secondRegular⟩, oneNamed⟩, otherNamed⟩ := passed
  obtain ⟨oneName, isOneName⟩ := Option.isSome_iff_exists.1 oneNamed
  obtain ⟨otherName, isOtherName⟩ := Option.isSome_iff_exists.1 otherNamed
  obtain ⟨_, sameRoot, _, disjoint_iff⟩ := ownNames_disjoint_iff compiles
  cases isRoot.symm.trans sameRoot
  obtain ⟨_, rootOf⟩ := exists_rootOf compiles
  cases isRoot.symm.trans rootOf.isRoot
  refine ⟨compiled, root, one, other, first, second, compiles, isRoot, oneWithin, otherWithin,
    apart, oneOpens, otherOpens, ⟨oneName, mem_ownNames isOneName⟩,
    ⟨otherName, mem_ownNames isOtherName⟩,
    (disjoint_iff one other "m" first second oneWithin otherWithin apart oneOpens otherOpens).2 ?_⟩
  rw [looseNames_of_isRegular (rootOf.faithful.within oneWithin) oneOpens firstRegular,
    looseNames_of_isRegular (rootOf.faithful.within otherWithin) otherOpens secondRegular]
  exact ⟨Set.empty_disjoint _, Set.disjoint_empty _⟩

end Compile

end NetBlueprint
