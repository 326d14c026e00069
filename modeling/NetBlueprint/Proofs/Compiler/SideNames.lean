import NetBlueprint.Proofs.Compiler.Disjointness
import NetBlueprint.Proofs.Compiler.Sides

/-!
Contract: when the two sides of a branch define different names.

A branch puts a suffix on what a side defines, and another one on what the other side defines. The
names that keep their suffix end with it and with the suffixes of branches further inside, and a
branch without a name is numbered; such names never meet. A definition keeps its name instead if it
mentions the suffix. What is written does so only on purpose, but a suffix that is put on a name may
complete the mention, and then a branch inside gives both of its sides the same names.

Owns: the names of the layers in the scopes of a side, and when those of both sides are disjoint.
-/

namespace NetBlueprint

/-- A visit adds a layer of a name that is neither an input nor an output of a network. -/
def Visit.Materialises (network : Network) (name : String) (visit : Visit) : Prop :=
  ∃ id layer, visit.Adds id ∧ network.layer? id = some layer ∧ layer.kind.isInput = false ∧
    layer.kind.isOutput = false ∧ layer.name = name

/-- A visit takes a number for a branch without a name, between the visits below it. -/
def Visit.Numbers (number : Nat) (visit : Visit) : Prop :=
  visit.Brings fun state => number ≤ state.branchCount

namespace Compile

open CompileState

def namesIn (network : Network) (root : Visit) (scope : ScopeId) : Set String :=
  { name | ∃ visit : Visit, visit.Within root ∧
    root.after.Surrounds scope visit.before.current ∧ visit.Materialises network name }

/-- A part of the side of a branch that is compiled in a scope. -/
def PartIn (branch : Visit) (scope : ScopeId) (part : Part) : Prop :=
  ∃ position path below, branch.inner[position]? = some below ∧ below.before.current = scope ∧
    partFrom ⟨[], branch.instruction, branch⟩ (position :: path) = some part

/-- A suffix need not stay on the name of a part of a branch: a loop around it counts with the
spelling of a suffix, or the definition is exempt from suffixes. -/
inductive Part.Escapes (branch : Visit) (part : Part) : Prop where
  | shadowed (around : suffixKey ∈ part.counters) : Escapes branch part
  | marked {counter suffix : String} (around : counter ∈ part.counters)
      (drew : branch.Drew suffix)
      (spells : '_' :: Suffix.markOf suffix <:+: counter.toList) : Escapes branch part
  | exempt {definition : Definition} (defines : part.template.definition? = some definition)
      (exempt : definition.isExempt [] true = true) : Escapes branch part

/-- The names of the side of a branch that its suffix need not stay on. -/
def escapedNames (network : Network) (root branch : Visit) (scope : ScopeId) : Set String :=
  { name | ∃ part, PartIn branch scope part ∧ part.Escapes branch ∧ part.visit.Within root ∧
    root.after.Surrounds scope part.visit.before.current ∧
    part.visit.Materialises network name }

/-- A name that ends with the suffix of a side and those of branches below it, or that numbers a
branch in the scope of the side. -/
inductive KeepsSuffix (root branch : Visit) (scope : ScopeId) (suffix : String) :
    String → Prop where
  | marked {name : String} {below : Visit} {front : List Char} {suffixes : List String}
      (isInner : below ∈ branch.inner)
      (areSuffixes : ∀ inner ∈ suffixes, BranchSuffix below inner)
      (whole : name.toList = front ++ (suffix.toList :: suffixes.map String.toList).flatten) :
      KeepsSuffix root branch scope suffix name
  | numbered {visit : Visit} {number : Nat} (within : visit.Within root)
      (surrounds : root.after.Surrounds scope visit.before.current)
      (numbers : visit.Numbers number) : KeepsSuffix root branch scope suffix s!"if_{number}"

section Sides

variable {branch visit below : Visit} {scope : ScopeId} {label suffix : String}
  {body : List Instruction} {renames : List (String × String)}

/-- What a branch draws is drawn by no branch below it. -/
theorem not_branchSuffix_of_drew (faithful : branch.Faithful) (drew : branch.Drew suffix)
    (isInner : below ∈ branch.inner) : ¬ BranchSuffix below suffix := by
  rintro ⟨lower, within, _, lowerDrew, _⟩
  obtain ⟨earlier, later⟩ := (faithful.ofInner isInner).around within
  rcases drew.inner below isInner with absent | present
  · exact absent (later.usedSuffixes lowerDrew.used)
  · exact lowerDrew.fresh (earlier.usedSuffixes present)

/-- A branch without a name is called by its number. -/
theorem numbered_of_adds (faithful : visit.Faithful) {test : Instruction}
    {body alternative : List Instruction}
    (isBranch : visit.instruction = .branch none test body alternative) {id : LayerId}
    (adds : visit.Adds id) :
    visit.Numbers (visit.before.branchCount + 1) ∧
      ∃ layer, visit.after.network.layer? id = some layer ∧
        layer.name = s!"if_{visit.before.branchCount + 1}" := by
  obtain ⟨run, runOf⟩ := exists_branchRun faithful isBranch
  obtain ⟨named, counted⟩ := numbered_of_planBranch runOf.plans
  have grow := runOf.allGrow
  have inner := runOf.thenRooted.trail.append runOf.elseRooted.trail
  rw [← runOf.parts] at inner
  refine ⟨brings_of_trails (fun grows has => Nat.le_trans has grows.branchCount) grow
    (List.nil_append _).symm (.done _) (Nat.not_succ_le_self _) counted inner
    runOf.chooses.grows, ?_⟩
  have way : Way (OwnStep (.program []) visit.before.current) run.start visit.inner run.finish :=
    runOf.parts ▸ (runOf.thenRooted.way runOf.stays).append
      (runOf.elseRooted.way (runOf.thenRooted.stays.trans runOf.stays))
  -- Between its sides a branch adds nothing, so its own layer comes last.
  have last : id = run.finish.network.size := by
    have size := congrArg List.length runOf.chooses.nodes
    rw [Network.length_nodes, List.length_append, Network.length_nodes] at size
    refine Nat.le_antisymm (Nat.le_of_lt_succ (Nat.lt_of_lt_of_eq adds.present size))
      (Nat.not_lt.1 fun early => ?_)
    have fresh : ¬ id < run.start.network.size := by
      rw [← Network.length_nodes, runOf.quiet.nodes, Network.length_nodes]
      exact adds.fresh
    obtain ⟨_, _, step, absent, came, _⟩ := way.exists_step
      (fun state => id < state.network.size) OwnStep.grows grow fresh early adds.inner
    cases step with
    | still still =>
        rw [← Network.length_nodes, still.nodes, Network.length_nodes] at came
        exact absent came
    | enters => exact absent came
    | makes _ makes => cases makes
    | shares _ declares => cases declares
  obtain ⟨_, layer, found, isNamed, _⟩ := runOf.exists_ownLayer
  exact ⟨layer, last ▸ found, isNamed.trans named⟩

/-- A visit of what a side lists compiles a part of the body of the side. -/
theorem isPartOf_of_filledIn {template : Instruction} (listed : template ∈ body)
    (filled : FilledIn ((Substitution.empty.bind suffixKey suffix).withRenames renames) template
      below) :
    IsPartOf below ⟨[], body, suffix,
      (Substitution.empty.bind suffixKey suffix).withRenames renames⟩ ⟨[], template, below⟩ := by
  refine ⟨.self below, Instruction.definitions_subset listed, loopCounters_subset listed, [],
    fun _ member => absurd member List.not_mem_nil, ?_⟩
  rw [Substitution.without_nil]
  exact .next filled (.done _)

/-- The name of a part that does not escape ends with the suffix of its side. -/
theorem Dressed.marked (dressed : Dressed branch scope label body suffix renames) {part : Part}
    (isPart : IsPartOf below ⟨[], body, suffix,
      (Substitution.empty.bind suffixKey suffix).withRenames renames⟩ part)
    (kept : ¬ part.Escapes branch) {definition : Definition}
    (defines : part.template.definition? = some definition) :
    ∃ (last : Definition) (front : List Char) (suffixes : List String),
      part.visit.instruction.definition? = some last ∧
      (∀ inner ∈ suffixes, BranchSuffix below inner) ∧
      last.template.toList = front ++ (suffix.toList :: suffixes.map String.toList).flatten := by
  obtain ⟨mark, isMark, spelled⟩ := dressed.spelled
  have unmarked : ∀ counter ∈ part.counters, ¬ '_' :: mark <:+: counter.toList := by
    intro counter around spells
    rw [← Suffix.markOf_of_spelled isMark spelled] at spells
    exact kept (.marked around dressed.drew spells)
  have unshadowed : ((Substitution.empty.bind suffixKey suffix).withRenames renames).without
      part.counters = (Substitution.empty.bind suffixKey suffix).withRenames renames := by
    refine Substitution.without_eq_self fun counter around => Bool.eq_false_iff.2 fun bound => ?_
    rw [Substitution.binds_withRenames] at bound
    rcases Substitution.eq_or_binds_of_binds_bind bound with rfl | other
    · exact kept (.shadowed around)
    · cases other
  have hygienic : definition.isExempt [] true = false :=
    Bool.eq_false_iff.2 fun exempt => kept (.exempt defines exempt)
  have bears : ∃ last, part.visit.instruction.definition? = some last ∧
      Bears below (Suffix.branchAnchor dressed.isLabel) mark last.template :=
    isPart.bears_of_name (Suffix.isPlain_of_branch dressed.isLabel) isMark unmarked defines
      fun {between} named => by
        rw [unshadowed] at named
        obtain ⟨plainName, rfl⟩ := Substitution.name_of_definition dressed.table
          (isPart.definitions (Instruction.mem_definitions defines)) hygienic named
        refine ⟨plainName.toList, [], fun _ member => absurd member List.not_mem_nil, ?_⟩
        rw [String.toList_append, spelled, Suffix.marked_branchAnchor]
        simp
  obtain ⟨last, lastDefines, front, suffixes, areSuffixes, whole⟩ := bears
  rw [Suffix.marked_branchAnchor, ← spelled] at whole
  exact ⟨last, front, suffixes, lastDefines, areSuffixes, whole⟩

/-- The suffix of a side is that of a branch. -/
theorem Dressed.isCode (dressed : Dressed branch scope label body suffix renames) :
    Suffix.IsCode suffix.toList := by
  obtain ⟨mark, isMark, spelled⟩ := dressed.spelled
  exact ⟨_, dressed.isLabel, mark, isMark, spelled⟩

/-- Sides with different labels have different suffixes. -/
theorem label_eq_of_dressed {one other : ScopeId} {otherLabel : String}
    {otherBody : List Instruction} {otherRenames : List (String × String)}
    (oneDressed : Dressed branch one label body suffix renames)
    (otherDressed : Dressed branch other otherLabel otherBody suffix otherRenames) :
    label = otherLabel := by
  obtain ⟨mark, isMark, spelled⟩ := oneDressed.spelled
  obtain ⟨otherMark, isOtherMark, otherSpelled⟩ := otherDressed.spelled
  have same : ('_' :: '_' :: label.toList) ++ '_' :: mark =
      ('_' :: '_' :: otherLabel.toList) ++ '_' :: otherMark := spelled.symm.trans otherSpelled
  obtain ⟨labels, _⟩ := Suffix.eq_of_last_underscore isMark.noUnderscore
    isOtherMark.noUnderscore same
  exact String.toList_inj.1 (List.cons.inj (List.cons.inj labels).2).2

private theorem number_eq_of_name_eq {number otherNumber : Nat}
    (same : s!"if_{number}" = s!"if_{otherNumber}") : number = otherNumber := by
  have digits : Nat.repr number = Nat.repr otherNumber := (String.append_right_inj "if_").1 same
  rw [Nat.repr_eq_ofList_toDigits, Nat.repr_eq_ofList_toDigits, String.ofList_inj] at digits
  rw [← Nat.ofDigitChars_ten_toDigits (n := number), digits, Nat.ofDigitChars_ten_toDigits]

private theorem not_numbered_of_marked {number : Nat} {front code : List Char}
    {codes : List (List Char)} (areCodes : ∀ part ∈ code :: codes, Suffix.IsCode part)
    (whole : (s!"if_{number}").toList = front ++ (code :: codes).flatten) : False := by
  obtain ⟨others, last, split⟩ :=
    (List.eq_nil_or_concat (code :: codes)).resolve_left (List.cons_ne_nil _ _)
  rw [List.concat_eq_append] at split
  rw [split] at areCodes whole
  obtain ⟨given, isGiven, mark, isMark, rfl⟩ :=
    areCodes last (List.mem_append_right _ (List.mem_singleton_self _))
  have parted : "if".toList ++ '_' :: (Nat.repr number).toList =
      (front ++ others.flatten ++ '_' :: '_' :: given) ++ '_' :: mark := by
    rw [show s!"if_{number}" = "if_" ++ Nat.repr number from rfl, String.toList_append] at whole
    simpa [Suffix.spelling] using whole
  have noUnderscore : '_' ∉ (Nat.repr number).toList := by
    rw [Nat.repr_eq_ofList_toDigits, String.toList_ofList]
    exact Nat.underscore_not_in_toDigits
  obtain ⟨short, _⟩ := Suffix.eq_of_last_underscore noUnderscore isMark.noUnderscore parted
  have lengths := congrArg List.length short
  have long : ∀ label ∈ Suffix.branchLabels, label.length = 4 := by decide
  rw [List.length_append, List.length_cons, List.length_cons, long given isGiven] at lengths
  have two : "if".toList.length = 2 := by decide
  omega

end Sides

section Runs

variable {name : String} {seed : UInt64} {program : Instruction} {compiled : Compiled}
  {root visit branch : Visit} {scope : ScopeId} {label suffix : String}
  {body : List Instruction} {renames : List (String × String)}

namespace RootOf

variable (rootOf : RootOf name seed program compiled root)

include rootOf

/-- Whatever is materialised in the scopes of a side is a part of this side. -/
theorem exists_partIn (branchWithin : branch.Within root)
    (isBranch : branch.instruction.opcode = .branch)
    (callsNothing : CallsNothing branch.instruction) (opened : branch.Opened scope)
    (dressed : Dressed branch scope label body suffix renames) (within : visit.Within root)
    (surrounds : root.after.Surrounds scope visit.before.current) :
    ∃ part, PartIn branch scope part ∧ part.visit = visit ∧ ∃ below ∈ branch.inner,
      IsPartOf below ⟨[], body, suffix,
        (Substitution.empty.bind suffixKey suffix).withRenames renames⟩ part := by
  obtain ⟨below, isInner, stands, inside⟩ :=
    rootOf.exists_child_of_surrounds branchWithin isBranch opened within surrounds
  obtain ⟨position, found⟩ := List.mem_iff_getElem?.1 isInner
  obtain ⟨template, listed, isChild, filled⟩ := dressed.child position below found stands
  have isPart := isPartOf_of_filledIn listed filled
  have belowWithin : below.Within root := .trans (.under isInner (.self below)) branchWithin
  have faithful := rootOf.faithful.within belowWithin
  have kept := opcodes_childAt isChild
  rcases isPart.reaches faithful inside rfl
    ⟨fun calls => callsNothing.1 (kept calls), fun calls => callsNothing.2 (kept calls)⟩ with
    ⟨path, last, reached, isLast⟩ | ⟨turned, turnedInside, above, atRoot⟩
  · have noCounter : countersOf branch.instruction = [] := by
      generalize branch.instruction = instruction at isBranch
      cases instruction with
      | branch _ _ _ _ => rfl
      | _ => cases isBranch
    refine ⟨last, ⟨position, path, below, found, stands, ?_⟩, isLast, below, isInner,
      isPartOf_of_partFrom faithful isPart reached⟩
    rw [partFrom, isChild, found, noCounter]
    exact reached
  · have opens : scope < below.before.scopes.size := stands ▸ rootOf.inside belowWithin
    exact absurd surrounds (rootOf.not_surrounds_of_turned (turnedInside.trans belowWithin) atRoot
      branchWithin opened (Nat.lt_of_lt_of_le opens (faithful.around turnedInside).1.scopes_size_le)
      above)

/-- A name of a side escapes its suffix or keeps it. -/
theorem escapes_or_kept (branchWithin : branch.Within root)
    (isBranch : branch.instruction.opcode = .branch)
    (callsNothing : CallsNothing branch.instruction) (opened : branch.Opened scope)
    (dressed : Dressed branch scope label body suffix renames) {key : String}
    (isName : key ∈ namesIn compiled.network root scope) :
    key ∈ escapedNames compiled.network root branch scope ∨
      KeepsSuffix root branch scope suffix key := by
  obtain ⟨visit, within, surrounds, id, layer, adds, found, noInput, noOutput, rfl⟩ := isName
  obtain ⟨part, partIn, rfl, below, isInner, isPart⟩ := rootOf.exists_partIn branchWithin isBranch
    callsNothing opened dressed within surrounds
  by_cases escapes : part.Escapes branch
  · exact .inl ⟨part, partIn, escapes, within, surrounds, id, layer, adds, found, noInput, noOutput,
      rfl⟩
  right
  have faithful := rootOf.faithful.within within
  obtain ⟨start, made, makes, isMade⟩ := adds.exists_makes faithful
  obtain ⟨same, sameFound, node⟩ := (rootOf.grows_after within).layer? isMade
  cases sameFound.symm.trans found
  have isNamed : layer.name = made.name := Layer.name_eq_of_node node
  have isKind : layer.kind = made.kind := Layer.kind_eq_of_node node
  -- What defines a name is called by it, and ends with the suffix.
  have ofDefinition {definition : Definition}
      (defines : part.visit.instruction.definition? = some definition)
      (same : layer.name = definition.template) : KeepsSuffix root branch scope suffix layer.name := by
    obtain ⟨_, _, filled⟩ := isPart.filled
    obtain ⟨_, templateDefines⟩ := filled.exists_definition? defines
    obtain ⟨last, front, suffixes, isLast, areSuffixes, whole⟩ :=
      dressed.marked isPart escapes templateDefines
    cases isLast.symm.trans defines
    exact .marked isInner areSuffixes (same ▸ whole)
  generalize isInstruction : part.visit.instruction = instruction at makes ofDefinition
  generalize made.name = madeName, made.kind = madeKind at makes isNamed isKind
  cases makes with
  | layer => exact ofDefinition rfl isNamed
  | moduleDef => exact ofDefinition rfl isNamed
  | @branch name _ _ _ _ _ _ _ named =>
      cases name with
      | some given => exact ofDefinition rfl (isNamed.trans (named given rfl))
      | none =>
          obtain ⟨numbers, other, isOther, numbered⟩ :=
            numbered_of_adds faithful isInstruction adds
          cases isOther.symm.trans isMade
          rw [Layer.name_eq_of_node node, numbered]
          exact .numbered within surrounds numbers
  | autoInput =>
      rw [isKind] at noInput
      cases noInput

/-- Names of both sides that keep their suffixes are different. -/
theorem kept_apart {one other : ScopeId} {oneLabel otherLabel oneSuffix otherSuffix : String}
    {oneBody otherBody : List Instruction} {oneRenames otherRenames : List (String × String)}
    (branchWithin : branch.Within root) (oneOpened : branch.Opened one)
    (otherOpened : branch.Opened other) (apart : one ≠ other)
    (oneDressed : Dressed branch one oneLabel oneBody oneSuffix oneRenames)
    (otherDressed : Dressed branch other otherLabel otherBody otherSuffix otherRenames)
    (suffixesApart : oneSuffix ≠ otherSuffix) {key : String}
    (oneKept : KeepsSuffix root branch one oneSuffix key)
    (otherKept : KeepsSuffix root branch other otherSuffix key) : False := by
  have areCodes {below : Visit} {suffix : String} {suffixes : List String}
      (isCode : Suffix.IsCode suffix.toList)
      (areSuffixes : ∀ inner ∈ suffixes, BranchSuffix below inner) :
      ∀ part ∈ suffix.toList :: suffixes.map String.toList, Suffix.IsCode part :=
    List.forall_mem_cons.2 ⟨isCode, isCode_of_branchSuffix areSuffixes⟩
  have notInner {below : Visit} {suffix : String} {suffixes : List String}
      (drew : branch.Drew suffix) (isInner : below ∈ branch.inner)
      (areSuffixes : ∀ inner ∈ suffixes, BranchSuffix below inner) :
      suffix.toList ∉ suffixes.map String.toList := by
    intro member
    obtain ⟨inner, isSuffix, same⟩ := List.mem_map.1 member
    rw [String.toList_inj] at same
    exact not_branchSuffix_of_drew (rootOf.faithful.within branchWithin) drew isInner
      (same ▸ areSuffixes inner isSuffix)
  cases oneKept with
  | marked oneInner oneAre oneWhole =>
      have oneCodes := areCodes oneDressed.isCode oneAre
      generalize isKey : key = text at otherKept
      cases otherKept with
      | marked otherInner otherAre otherWhole =>
          rw [← isKey, oneWhole] at otherWhole
          rcases Suffix.code_of_same_text oneCodes (areCodes otherDressed.isCode otherAre)
            otherWhole with same | inOther | inOne
          · exact suffixesApart (String.toList_inj.1 same)
          · exact notInner oneDressed.drew otherInner otherAre inOther
          · exact notInner otherDressed.drew oneInner oneAre inOne
      | numbered => exact not_numbered_of_marked oneCodes (isKey ▸ oneWhole)
  | @numbered oneVisit number oneWithin oneSurrounds oneNumbers =>
      generalize isKey : s!"if_{number}" = text at otherKept
      cases otherKept with
      | marked _ otherAre otherWhole =>
          exact not_numbered_of_marked (areCodes otherDressed.isCode otherAre)
            (isKey ▸ otherWhole)
      | @numbered otherVisit otherNumber otherWithin otherSurrounds otherNumbers =>
          cases number_eq_of_name_eq isKey
          -- The number was taken once, so the branch stands in the scopes of both sides.
          cases rootOf.faithful.eq_of_brings
            (fun grows has => Nat.le_trans has grows.branchCount) oneWithin otherWithin oneNumbers
            otherNumbers
          exact apart (oneSurrounds.eq_of_parent rootOf.nested otherSurrounds
            (rootOf.parent_of_opened branchWithin oneOpened)
            (rootOf.parent_of_opened branchWithin otherOpened))

end RootOf

private theorem escapedNames_subset (network : Network) (root branch : Visit) (scope : ScopeId) :
    escapedNames network root branch scope ⊆ namesIn network root scope := by
  rintro key ⟨part, _, _, within, surrounds, materialises⟩
  exact ⟨part.visit, within, surrounds, materialises⟩

/-- A branch in which no loop counts with the spelling of a suffix and no definition is exempt from
suffixes lets no name escape. -/
theorem escapedNames_eq_empty
    (counters : ∀ counter ∈ loopCounters branch.instruction, counter ≠ suffixKey ∧
      ∀ suffix, branch.Drew suffix → ¬ '_' :: Suffix.markOf suffix <:+: counter.toList)
    (definitions : ∀ definition ∈ Instruction.definitions branch.instruction,
      definition.isExempt [] true = false) (network : Network) (root : Visit) (scope : ScopeId) :
    escapedNames network root branch scope = ∅ := by
  refine Set.eq_empty_of_forall_notMem ?_
  rintro key ⟨part, ⟨position, path, below, _, _, found⟩, escapes, _⟩
  obtain ⟨inBranch, countersInBranch⟩ := subset_of_partFrom found
  have isCounter {counter : String} (around : counter ∈ part.counters) :
      counter ∈ loopCounters branch.instruction :=
    countersInBranch (List.mem_append_left _ around)
  cases escapes with
  | shadowed around => exact (counters _ (isCounter around)).1 rfl
  | marked around drew spells => exact (counters _ (isCounter around)).2 _ drew spells
  | exempt defines exempt =>
      have notExempt := definitions _ (inBranch (Instruction.mem_definitions defines))
      exact Bool.noConfusion (exempt.symm.trans notExempt)

/-- The names that are materialised in the scopes of the two sides of a branch are disjoint exactly
when those of either side that may escape its suffix do not occur in the other. -/
theorem sideNames_disjoint_iff (compiles : compile name seed program = .ok compiled) :
    ∃ root, rootVisit? name seed program = some root ∧ root.instruction = program ∧
      ∀ branch branchName test body alternative one other, Visit.Within branch root →
        branch.instruction = .branch branchName test body alternative →
        CallsNothing branch.instruction → branch.Opened one → branch.Opened other → one ≠ other →
          (Disjoint (namesIn compiled.network root one) (namesIn compiled.network root other) ↔
            Disjoint (escapedNames compiled.network root branch one)
                (namesIn compiled.network root other) ∧
              Disjoint (namesIn compiled.network root one)
                (escapedNames compiled.network root branch other)) := by
  obtain ⟨root, rootOf⟩ := exists_rootOf compiles
  refine ⟨root, rootOf.isRoot, rootOf.instruction, ?_⟩
  intro branch branchName test body alternative one other within isBranch callsNothing oneOpened
    otherOpened apart
  constructor
  · intro disjoint
    exact ⟨disjoint.mono_left (escapedNames_subset _ _ _ _),
      disjoint.mono_right (escapedNames_subset _ _ _ _)⟩
  rintro ⟨escapedOne, escapedOther⟩
  have opcode : branch.instruction.opcode = .branch := isBranch ▸ rfl
  obtain ⟨first, second, isSide⟩ := exists_dressed (rootOf.faithful.within within) isBranch
  -- Two different scopes are those of different sides, so their suffixes have different labels.
  have dressed {scope : ScopeId} (opened : branch.Opened scope) : ∃ label body suffix renames,
      Dressed branch scope label body suffix renames ∧
        (label = "then" ∧ scope = first ∨ label = "else" ∧ scope = second) := by
    rcases isSide scope opened with ⟨isFirst, suffix, renames, dressed⟩ |
      ⟨isSecond, suffix, renames, dressed⟩
    · exact ⟨_, _, suffix, renames, dressed, .inl ⟨rfl, isFirst⟩⟩
    · exact ⟨_, _, suffix, renames, dressed, .inr ⟨rfl, isSecond⟩⟩
  obtain ⟨oneLabel, _, oneSuffix, _, oneDressed, onePlace⟩ := dressed oneOpened
  obtain ⟨otherLabel, _, otherSuffix, _, otherDressed, otherPlace⟩ := dressed otherOpened
  have suffixesApart : oneSuffix ≠ otherSuffix := by
    rintro rfl
    have sameLabel := label_eq_of_dressed oneDressed otherDressed
    rcases onePlace with ⟨rfl, rfl⟩ | ⟨rfl, rfl⟩ <;> rcases otherPlace with ⟨rfl, rfl⟩ | ⟨rfl, rfl⟩
    · exact apart rfl
    · exact absurd sameLabel (by decide)
    · exact absurd sameLabel (by decide)
    · exact apart rfl
  rw [Set.disjoint_left] at escapedOne escapedOther ⊢
  intro key inOne inOther
  rcases rootOf.escapes_or_kept within opcode callsNothing oneOpened oneDressed inOne with
    escapes | oneKept
  · exact escapedOne escapes inOther
  rcases rootOf.escapes_or_kept within opcode callsNothing otherOpened otherDressed inOther with
    escapes | otherKept
  · exact escapedOther inOne escapes
  exact rootOf.kept_apart within oneOpened otherOpened apart oneDressed otherDressed suffixesApart
    oneKept otherKept

end Runs

/-! ## A suffix that a suffix completes -/

/-- A branch inside a branch, with a layer of the same name on both of its sides. -/
def branchInBranch (key : String) : Instruction :=
  .program [sizedLayer "input" "x" 1, .branch none (.condition "x > 0")
    [.branch none (.condition "x > 1") [sizedLayer "dense" key 1] [sizedLayer "dense" key 1]] []]

private def bringsSize (size : CompileState → Nat) (number : Nat) (visit : Visit) : Bool :=
  !decide (number < size visit.before) && decide (number < size visit.after) &&
    visit.inner.all fun below =>
      !decide (number < size below.after) || decide (number < size below.before)

private theorem brings_of_bringsSize {size : CompileState → Nat} {number : Nat} {visit : Visit}
    (brings : bringsSize size number visit = true) :
    visit.Brings fun state => number < size state := by
  unfold bringsSize at brings
  simp only [Bool.and_eq_true, Bool.not_eq_true', decide_eq_false_iff_not, decide_eq_true_eq,
    List.all_eq_true, Bool.or_eq_true] at brings
  exact ⟨brings.1.1, brings.1.2, brings.2⟩

private def materialised? (network : Network) (scope : ScopeId) (visit : Visit) : Option String :=
  if visit.before.current == scope &&
      bringsSize (fun state => state.network.size) visit.before.network.size visit then
    match network.layer? visit.before.network.size with
    | some layer => if layer.kind.isInput || layer.kind.isOutput then none else some layer.name
    | none => none
  else none

private theorem mem_namesIn_of_materialised? {network : Network} {root visit : Visit}
    {scope : ScopeId} {key : String} (within : visit.Within root)
    (isName : materialised? network scope visit = some key) :
    key ∈ namesIn network root scope := by
  unfold materialised? at isName
  split at isName
  · rename_i stands
    rw [Bool.and_eq_true, beq_iff_eq] at stands
    split at isName
    · rename_i layer found
      split at isName
      · cases isName
      · rename_i other
        rw [Bool.not_eq_true, Bool.or_eq_false_iff] at other
        cases isName
        exact ⟨visit, within, stands.1 ▸ .refl, _, layer, brings_of_bringsSize stands.2, found,
          other.1, other.2, rfl⟩
    · cases isName
  · cases isName

private def dressesBoth (namePasses : String → Bool) (network : Network) (visit : Visit) : Bool :=
  visit.instruction.opcode == .branch &&
  !visit.instruction.opcodes.contains .templateCall && !visit.instruction.opcodes.contains .call &&
  bringsSize (fun state => state.scopes.size) 2 visit &&
  bringsSize (fun state => state.scopes.size) 3 visit &&
  [2, 3].all fun scope =>
    visit.inner.any fun below => (materialised? network scope below).any namePasses

private theorem exists_dressing (key : String) (namePasses : String → Bool)
    (passes : Instruction → Bool)
    (passed : (compile "net" 0 (branchInBranch key)).toOption.any (fun compiled =>
      ((rootVisit? "net" 0 (branchInBranch key)).bind (Visit.below? [1, 0])).any fun visit =>
        passes visit.instruction && dressesBoth namePasses compiled.network visit) = true) :
    ∃ compiled root branch branchName test body alternative,
      compile "net" 0 (branchInBranch key) = .ok compiled ∧
      rootVisit? "net" 0 (branchInBranch key) = some root ∧ Visit.Within branch root ∧
      branch.instruction = .branch branchName test body alternative ∧
      CallsNothing branch.instruction ∧ branch.Opened 2 ∧ branch.Opened 3 ∧
      passes branch.instruction = true ∧
      ∀ scope ∈ [2, 3], ∃ found ∈ namesIn compiled.network root scope,
        namePasses found = true := by
  obtain ⟨compiled, compiles, passed⟩ := exists_compiled passed
  obtain ⟨root, branch, isRoot, within, passed⟩ := exists_visit_at passed
  unfold dressesBoth at passed
  simp only [Bool.and_eq_true, beq_iff_eq, Bool.not_eq_true', List.contains_eq_mem,
    decide_eq_false_iff_not, List.all_eq_true, List.any_eq_true, Option.any_eq_true] at passed
  obtain ⟨passes, ⟨⟨⟨⟨isBranch, noTemplate⟩, noCall⟩, oneOpened⟩, otherOpened⟩, named⟩ := passed
  generalize isInstruction : branch.instruction = instruction at *
  cases instruction with
  | branch branchName test body alternative =>
      refine ⟨compiled, root, branch, branchName, test, body, alternative, compiles, isRoot, within,
        isInstruction, isInstruction ▸ ⟨noTemplate, noCall⟩, brings_of_bringsSize oneOpened,
        brings_of_bringsSize otherOpened, isInstruction ▸ passes, fun scope member => ?_⟩
      obtain ⟨below, isInner, found, isName, isFound⟩ := named scope member
      exact ⟨found, mem_namesIn_of_materialised?
        (.trans (.under isInner (.self below)) within) isName, isFound⟩
  | _ => cases isBranch

/-- Both sides of the inner branch define names, and no common ones. -/
theorem branchInBranch_disjoint :
    ∃ compiled root branch, compile "net" 0 (branchInBranch "h") = .ok compiled ∧
      rootVisit? "net" 0 (branchInBranch "h") = some root ∧ Visit.Within branch root ∧
      branch.Opened 2 ∧ branch.Opened 3 ∧ (namesIn compiled.network root 2).Nonempty ∧
      (namesIn compiled.network root 3).Nonempty ∧
      Disjoint (namesIn compiled.network root 2) (namesIn compiled.network root 3) := by
  obtain ⟨compiled, root, branch, _, _, _, _, compiles, isRoot, within, isBranch, callsNothing,
    oneOpened, otherOpened, regular, named⟩ :=
      exists_dressing "h" (fun _ => true)
        (fun instruction => (loopCounters instruction).isEmpty &&
          (Instruction.definitions instruction).all fun definition =>
            !definition.isExempt [] true)
        (by decide +kernel)
  rw [Bool.and_eq_true, List.isEmpty_iff, List.all_eq_true] at regular
  have escaped : ∀ scope, escapedNames compiled.network root branch scope = ∅ :=
    escapedNames_eq_empty (regular.1 ▸ fun _ member => absurd member List.not_mem_nil)
      (fun definition member => Bool.not_eq_true' _ ▸ regular.2 definition member) _ _
  obtain ⟨oneName, isOne, _⟩ := named 2 List.mem_cons_self
  obtain ⟨otherName, isOther, _⟩ := named 3 (List.mem_cons_of_mem _ List.mem_cons_self)
  obtain ⟨_, sameRoot, _, disjoint_iff⟩ := sideNames_disjoint_iff compiles
  cases isRoot.symm.trans sameRoot
  refine ⟨compiled, root, branch, compiles, isRoot, within, oneOpened, otherOpened,
    ⟨oneName, isOne⟩, ⟨otherName, isOther⟩, (disjoint_iff branch _ _ _ _ 2 3 within isBranch
      callsNothing oneOpened otherOpened (by decide)).2 ?_⟩
  rw [escaped 2, escaped 3]
  exact ⟨Set.empty_disjoint _, Set.disjoint_empty _⟩

/-- The suffix of the outer branch completes the mention of a suffix in the name, so the inner
branch gives the layers of both sides the same name. -/
theorem branchInBranch_collides :
    (∀ definition ∈ Instruction.definitions (branchInBranch "h__suffix"),
      containsText suffixKey.toList definition.template.toList = false) ∧
    ∃ compiled root branch branchName test body alternative,
      compile "net" 0 (branchInBranch "h__suffix") = .ok compiled ∧
      rootVisit? "net" 0 (branchInBranch "h__suffix") = some root ∧ Visit.Within branch root ∧
      branch.instruction = .branch branchName test body alternative ∧
      CallsNothing branch.instruction ∧ branch.Opened 2 ∧ branch.Opened 3 ∧
      ¬ Disjoint (namesIn compiled.network root 2) (namesIn compiled.network root 3) := by
  refine ⟨by decide +kernel, ?_⟩
  obtain ⟨compiled, root, branch, branchName, test, body, alternative, compiles, isRoot, within,
    isBranch, callsNothing, oneOpened, otherOpened, _, named⟩ :=
      exists_dressing "h__suffix" (fun found => found == "h__suffix__then_6f7f") (fun _ => true)
        (by decide +kernel)
  obtain ⟨oneName, isOne, isOneName⟩ := named 2 List.mem_cons_self
  obtain ⟨otherName, isOther, isOtherName⟩ := named 3 (List.mem_cons_of_mem _ List.mem_cons_self)
  cases (eq_of_beq isOneName).trans (eq_of_beq isOtherName).symm
  exact ⟨compiled, root, branch, branchName, test, body, alternative, compiles, isRoot, within,
    isBranch, callsNothing, oneOpened, otherOpened,
    Set.not_disjoint_iff.2 ⟨oneName, isOne, isOther⟩⟩

end Compile

end NetBlueprint
