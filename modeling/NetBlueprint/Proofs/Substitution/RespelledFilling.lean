import Mathlib.Data.List.Forall2
import NetBlueprint.Proofs.Expr.References
import NetBlueprint.Proofs.Outcome
import NetBlueprint.Proofs.Substitution.CleanNames
import NetBlueprint.Proofs.Substitution.Respelling

/-!
Contract: filling in, in two runs that differ in the marks of suffixes only.

Two runs bind the same names, to texts of which one is the other respelled. What is filled in is
respelled then too, or it fails in both runs: no bound word is a suffix, a suffix has no brackets,
and a text with a suffix in it is no number, so that nothing is computed from a mark.

Owns: substitutions that correspond, and what they make of texts and names.

Does not own: instructions.
-/

namespace NetBlueprint

namespace Text

private theorem mem_trimmed_of_mem {text : List Char} (member : '_' ∈ text) : '_' ∈ trimmed text :=
  List.mem_reverse.2 (Expr.mem_skipBlank_of_mem
    (List.mem_reverse.2 (Expr.mem_skipBlank_of_mem member)))

/-- A text with an underscore is no number. -/
theorem readDigits?_eq_none {text : List Char} (member : '_' ∈ text) : readDigits? text = none := by
  rw [readDigits?, List.all_eq_false.2 ⟨'_', member, by decide⟩, Bool.not_false, Bool.or_true,
    if_pos rfl]

private theorem readSigned?_eq_none {text : List Char} (member : '_' ∈ text) :
    readSigned? text = none := by
  unfold readSigned?
  split
  · rw [readDigits?_eq_none ((List.mem_cons.1 member).resolve_left (by decide)), Option.bind_none]
  · rw [readDigits?_eq_none ((List.mem_cons.1 member).resolve_left (by decide)), Option.bind_none]
  · rw [readDigits?_eq_none member, Option.bind_none]

theorem readUnsigned?_eq_none {text : List Char} (member : '_' ∈ text) :
    readUnsigned? text = none := by
  unfold readUnsigned?
  dsimp only
  split
  · rw [readDigits?_eq_none ((List.mem_cons.1 member).resolve_left (by decide)), Option.bind_none]
  · rw [readDigits?_eq_none member, Option.bind_none]

end Text

/-- A text that starts with a character other than an underscore. -/
def StartsPlain (text : List Char) : Prop :=
  ∃ first rest, text = first :: rest ∧ first ≠ '_'

theorem StartsPlain.append {text : List Char} (starts : StartsPlain text) (rest : List Char) :
    StartsPlain (text ++ rest) := by
  obtain ⟨first, more, rfl, plain⟩ := starts
  exact ⟨first, more ++ rest, rfl, plain⟩

/-- A text without underscores starts with none. -/
theorem startsPlain_of_plain {text : List Char} (noUnderscore : '_' ∉ text)
    (nonempty : text ≠ []) : StartsPlain text := by
  obtain ⟨first, rest, rfl⟩ := List.exists_cons_of_ne_nil nonempty
  exact ⟨first, rest, rfl, fun same => noUnderscore (same ▸ List.mem_cons_self)⟩

/-- A name of one run and the name that another run has in its place: no suffix stands in front. -/
structure RespelledName (pairs : List (String × String)) (one other : String) : Prop where
  respelled : Respelled pairs one.toList other.toList
  starts : StartsPlain one.toList

variable {pairs : List (String × String)}

theorem RespelledName.refl_of_plain {name : String} (noUnderscore : '_' ∉ name.toList)
    (nonempty : name ≠ "") : RespelledName pairs name name :=
  ⟨.refl_of_plain noUnderscore, startsPlain_of_plain noUnderscore fun empty =>
    nonempty (String.toList_inj.1 empty)⟩

theorem RespelledName.mono {more : List (String × String)} (grows : pairs ⊆ more)
    {one other : String} (name : RespelledName pairs one other) : RespelledName more one other :=
  ⟨name.respelled.mono grows, name.starts⟩

/-- An integer is written alike in both runs. -/
theorem respelledName_number (value : Int) :
    RespelledName pairs (toString value) (toString value) := by
  refine .refl_of_plain (Spliced.noUnderscore value) fun empty => ?_
  obtain ⟨front, digit, same, _⟩ := Spliced.last_digit value
  rw [empty] at same
  cases front <;> cases same

structure RespelledEndpoint (pairs : List (String × String)) (one other : String) : Prop where
  respelled : Respelled pairs one.toList other.toList
  starts : one = "" ∨ StartsPlain one.toList

theorem RespelledName.endpoint {one other : String} (name : RespelledName pairs one other) :
    RespelledEndpoint pairs one other :=
  ⟨name.respelled, .inr name.starts⟩

theorem RespelledEndpoint.mono {more : List (String × String)} (grows : pairs ⊆ more)
    {one other : String} (endpoint : RespelledEndpoint pairs one other) :
    RespelledEndpoint more one other :=
  ⟨endpoint.respelled.mono grows, endpoint.starts⟩

/-- An endpoint is a name in both runs, or nothing in both. -/
theorem RespelledEndpoint.cases {one other : String}
    (endpoint : RespelledEndpoint pairs one other) :
    (one = "" ∧ other = "") ∨ RespelledName pairs one other := by
  rcases endpoint.starts with rfl | starts
  · have length := endpoint.respelled.length_eq
    exact .inl ⟨rfl, String.toList_inj.1 (List.length_eq_zero_iff.1 length.symm)⟩
  · exact .inr ⟨endpoint.respelled, starts⟩

/-- Names are equal exactly when they are equal as respelled. -/
theorem RespelledName.eq_iff (pairing : Suffix.Pairing pairs) {one other name last : String}
    (first : RespelledName pairs one other) (second : RespelledName pairs name last) :
    one = name ↔ other = last := by
  rw [← String.toList_inj, ← String.toList_inj]
  exact first.respelled.eq_iff pairing second.respelled

/-- A text without underscores is equal to a name in both runs or in neither. -/
theorem Respelled.eq_plain_iff (pairing : Suffix.Pairing pairs) {one other : List Char}
    (respelled : Respelled pairs one other) {plain : String} (noUnderscore : '_' ∉ plain.toList) :
    String.ofList one = plain ↔ String.ofList other = plain := by
  rw [← String.toList_inj, ← String.toList_inj, String.toList_ofList, String.toList_ofList]
  exact respelled.eq_iff pairing (.refl_of_plain noUnderscore)

private theorem Respelled.ne_suffixKey {one other : List Char}
    (respelled : Respelled pairs one other) :
    String.ofList one ≠ suffixKey := by
  intro same
  refine respelled.not_suffixKey_infix [] [] ?_
  rw [← same, String.toList_ofList, List.nil_append, List.append_nil]

namespace Substitution

/-- A binding of one run and that of another in its place. The suffix of a call is no part of any
text. -/
inductive BindingCorresponds (pairs : List (String × String)) :
    String × String → String × String → Prop where
  | text {key one other : String} (noUnderscore : '_' ∉ key.toList)
      (name : RespelledName pairs one other) : BindingCorresponds pairs (key, one) (key, other)
  | suffix {one other : String} (first : '_' ∈ one.toList) (second : '_' ∈ other.toList) :
      BindingCorresponds pairs (suffixKey, one) (suffixKey, other)

structure RenameCorresponds (pairs : List (String × String)) (one other : String × String) :
    Prop where
  name : RespelledName pairs one.1 other.1
  renamed : RespelledName pairs one.2 other.2

/-- A substitution of one run and that of another in its place. -/
structure Corresponds (pairs : List (String × String)) (one other : Substitution) : Prop where
  bindings : List.Forall₂ (BindingCorresponds pairs) one.bindings other.bindings
  renames : List.Forall₂ (RenameCorresponds pairs) one.renames other.renames

variable {one other : Substitution}

private theorem BindingCorresponds.key_eq {first second : String × String}
    (corresponds : BindingCorresponds pairs first second) : first.1 = second.1 := by
  cases corresponds <;> rfl

/-- Substitutions that correspond still do so when more suffixes are drawn. -/
theorem Corresponds.mono {more : List (String × String)} (grows : pairs ⊆ more)
    (corresponds : Corresponds pairs one other) : Corresponds more one other := by
  refine ⟨corresponds.bindings.imp fun _ _ binding => ?_, corresponds.renames.imp fun _ _ rename =>
    ⟨rename.name.mono grows, rename.renamed.mono grows⟩⟩
  cases binding with
  | text noUnderscore name => exact .text noUnderscore (name.mono grows)
  | suffix first second => exact .suffix first second

theorem corresponds_empty : Corresponds pairs empty empty :=
  ⟨.nil, .nil⟩

theorem Corresponds.without (corresponds : Corresponds pairs one other) (names : List String) :
    Corresponds pairs (one.without names) (other.without names) := by
  refine ⟨?_, corresponds.renames⟩
  unfold Substitution.without
  generalize one.bindings = bindings, other.bindings = others, corresponds.bindings = related
  induction related with
  | nil => exact .nil
  | cons first _ inductionHypothesis =>
      simp only [List.filter_cons, first.key_eq]
      split
      · exact .cons first inductionHypothesis
      · exact inductionHypothesis

theorem Corresponds.withRenames (corresponds : Corresponds pairs one other)
    {renames otherRenames : List (String × String)}
    (related : List.Forall₂ (RenameCorresponds pairs) renames otherRenames) :
    Corresponds pairs (one.withRenames renames) (other.withRenames otherRenames) :=
  ⟨corresponds.bindings, related⟩

/-- Names bound to values that correspond keep substitutions in correspondence. -/
theorem Corresponds.bind (corresponds : Corresponds pairs one other)
    {name value otherValue : String}
    (binding : BindingCorresponds pairs (name, value) (name, otherValue)) :
    Corresponds pairs (one.bind name value) (other.bind name otherValue) := by
  refine ⟨?_, corresponds.renames⟩
  unfold Substitution.bind
  dsimp only
  have related := corresponds.bindings
  have sameKeys : one.bindings.any (fun entry => entry.1 == name) =
      other.bindings.any fun entry => entry.1 == name := by
    generalize one.bindings = bindings, other.bindings = others at related
    induction related with
    | nil => rfl
    | cons first _ inductionHypothesis =>
        rw [List.any_cons, List.any_cons, first.key_eq, inductionHypothesis]
  rw [sameKeys]
  split
  · generalize one.bindings = bindings, other.bindings = others at related
    induction related with
    | nil => exact .nil
    | cons first _ inductionHypothesis =>
        rw [List.map_cons, List.map_cons, first.key_eq]
        refine .cons ?_ inductionHypothesis
        split
        · exact binding
        · exact first
  · exact List.rel_append related (.cons binding .nil)

/-! ## Bound words -/

/-- A word is bound in both runs or in neither. -/
theorem Corresponds.value? (pairing : Suffix.Pairing pairs)
    (corresponds : Corresponds pairs one other) {word otherWord : List Char}
    (respelled : Respelled pairs word otherWord) :
    Option.Rel (RespelledName pairs) (one.value? (String.ofList word))
      (other.value? (String.ofList otherWord)) := by
  have sameWord {first second : String × String} (binding : BindingCorresponds pairs first second) :
      String.ofList word = first.1 ↔ String.ofList otherWord = second.1 := by
    cases binding with
    | text noUnderscore _ => exact respelled.eq_plain_iff pairing noUnderscore
    | suffix => exact iff_of_false respelled.ne_suffixKey respelled.swap.ne_suffixKey
  refine Table.rel_imp (fun binding => ?_) (Table.rel_lookup corresponds.bindings sameWord)
  generalize isKey : String.ofList word = key, String.ofList otherWord = otherKey at binding
  cases binding with
  | text _ name => exact name
  | suffix => exact absurd isKey respelled.ne_suffixKey

private theorem Corresponds.binds_eq (pairing : Suffix.Pairing pairs)
    (corresponds : Corresponds pairs one other) {word otherWord : List Char}
    (respelled : Respelled pairs word otherWord) :
    one.binds (String.ofList word) = other.binds (String.ofList otherWord) := by
  have values := corresponds.value? pairing respelled
  unfold Substitution.binds
  generalize one.value? (String.ofList word) = first at values ⊢
  generalize other.value? (String.ofList otherWord) = second at values ⊢
  cases values <;> rfl

private theorem Corresponds.mentions_eq (pairing : Suffix.Pairing pairs)
    (corresponds : Corresponds pairs one other) {text last : List Char}
    (respelled : Respelled pairs text last) : one.mentions text = other.mentions last := by
  unfold Substitution.mentions
  generalize Text.words text = words, Text.words last = others, respelled.words = related
  induction related with
  | nil => rfl
  | cons first _ inductionHypothesis =>
      rw [List.any_cons, List.any_cons, corresponds.binds_eq pairing first, inductionHypothesis]

/-- A variable stands for the same number in both runs. -/
theorem Corresponds.environment (corresponds : Corresponds pairs one other) :
    one.environment.Agrees other.environment ∧
      ∀ name number, '_' ∈ name.toList → one.environment name ≠ .ok (some number) := by
  have values (name : String) :
      (one.value? name = none ∧ other.value? name = none) ∨
        ∃ value otherValue, one.value? name = some value ∧ other.value? name = some otherValue ∧
          ((RespelledName pairs value otherValue ∧ '_' ∉ name.toList) ∨
            ('_' ∈ value.toList ∧ '_' ∈ otherValue.toList)) := by
    unfold Substitution.value?
    generalize one.bindings = bindings, other.bindings = others, corresponds.bindings = related
    induction related with
    | nil => exact .inl ⟨rfl, rfl⟩
    | cons first _ inductionHypothesis =>
        rw [List.lookup_cons, List.lookup_cons, ← first.key_eq]
        split
        · rename_i isKey
          refine .inr ⟨_, _, rfl, rfl, ?_⟩
          cases first with
          | text noUnderscore value => exact .inl ⟨value, eq_of_beq isKey ▸ noUnderscore⟩
          | suffix first second => exact .inr ⟨first, second⟩
        · exact inductionHypothesis
  have noNumber {value : String} (member : '_' ∈ value.toList) :
      Text.readSigned? (Text.trimmed value.toList) = none :=
    Text.readSigned?_eq_none (Text.mem_trimmed_of_mem member)
  constructor
  · intro name value
    unfold Substitution.environment
    rcases values name with ⟨first, second⟩ | ⟨text, last, first, second, related⟩
    · rw [first, second]
    · rw [first, second]
      dsimp only
      rcases related with ⟨related, _⟩ | ⟨inFirst, inSecond⟩
      · rcases related.respelled.cases with ⟨same, _⟩ | ⟨inFirst, inSecond⟩
        · rw [same]
          split <;> simp
        · rw [noNumber inFirst.mem, noNumber inSecond.mem]
          simp
      · rw [noNumber inFirst, noNumber inSecond]
        simp
  · intro name number member
    unfold Substitution.environment
    rcases values name with ⟨first, _⟩ | ⟨text, last, first, _, related⟩
    · rw [first]
      simp
    · rw [first]
      dsimp only
      rcases related with ⟨_, noUnderscore⟩ | ⟨inFirst, _⟩
      · exact absurd member noUnderscore
      · rw [noNumber inFirst]
        simp

/-! ## Filling in -/

abbrev BothFill {First Second : Type} (Results : First → Second → Prop) :
    Except ExprError First → Except ExprError Second → Prop :=
  Outcome.Matches (fun _ _ => True) Results

/-- An expression has the same value in both runs or in neither. -/
theorem Corresponds.evaluateIn (corresponds : Corresponds pairs one other)
    {text last : List Char} (respelled : Respelled pairs text last) :
    BothFill (· = ·) (Expr.evaluateIn one.environment (String.ofList text))
      (Expr.evaluateIn other.environment (String.ofList last)) := by
  obtain ⟨agrees, unresolved⟩ := corresponds.environment
  rcases respelled.cases with ⟨rfl, _⟩ | ⟨doubled, otherDoubled⟩
  · have back : other.environment.Agrees one.environment := fun name value =>
      (agrees name value).symm
    rcases first : Expr.evaluateIn one.environment (String.ofList text) with fault | value
    · rcases second : Expr.evaluateIn other.environment (String.ofList text) with other | value
      · exact .error trivial
      · cases first.symm.trans (Expr.evaluateIn_of_agrees back second)
    · rw [Expr.evaluateIn_of_agrees agrees first]
      exact .ok rfl
  · have inFirst : '_' ∈ (String.ofList text).toList := by
      rw [String.toList_ofList]
      exact doubled.mem
    have inSecond : '_' ∈ (String.ofList last).toList := by
      rw [String.toList_ofList]
      exact otherDoubled.mem
    rcases first : Expr.evaluateIn one.environment (String.ofList text) with fault | value
    · rcases second : Expr.evaluateIn other.environment (String.ofList last) with other | value
      · exact .error trivial
      · exact absurd second (Expr.evaluateIn_ne_ok (fun name number member resolved =>
          unresolved name number member ((agrees name _).2 resolved)) inSecond value)
    · exact absurd first (Expr.evaluateIn_ne_ok unresolved inFirst value)

private theorem Corresponds.fillGroup (pairing : Suffix.Pairing pairs)
    (corresponds : Corresponds pairs one other) {inner otherInner : List Char}
    (respelled : Respelled pairs inner otherInner) :
    BothFill (fun filled otherFilled => Respelled pairs filled otherFilled ∧ StartsPlain filled)
      (one.fillGroup inner) (other.fillGroup otherInner) := by
  unfold Substitution.fillGroup
  rw [corresponds.mentions_eq pairing respelled]
  split
  · have values := corresponds.value? pairing respelled.trimmed
    dsimp only
    generalize one.value? (String.ofList (Text.trimmed inner)) = first at values ⊢
    generalize other.value? (String.ofList (Text.trimmed otherInner)) = second at values ⊢
    cases values with
    | some name => exact .ok ⟨name.respelled, name.starts⟩
    | none =>
        have evaluated := corresponds.evaluateIn respelled.trimmed
        dsimp only
        generalize Expr.evaluateIn one.environment _ = first at evaluated ⊢
        generalize Expr.evaluateIn other.environment _ = second at evaluated ⊢
        cases evaluated with
        | error => exact .error trivial
        | @ok value _ same =>
            cases same
            have name : RespelledName pairs _ _ := respelledName_number value
            exact .ok ⟨name.respelled, name.starts⟩
  · exact .ok ⟨.plain (by decide) (respelled.append (.plain (by decide) .nil)),
      '[', _, rfl, by decide⟩

private theorem Corresponds.fillSegments (pairing : Suffix.Pairing pairs)
    (corresponds : Corresponds pairs one other) {text last : List Char}
    (respelled : Respelled pairs text last) :
    BothFill (fun filled otherFilled => Respelled pairs filled otherFilled ∧
        (StartsPlain text → StartsPlain filled))
      (one.fillSegments (segmentsFrom none text)) (other.fillSegments (segmentsFrom none last)) ∧
    ∀ inner otherInner, Respelled pairs inner.reverse otherInner.reverse →
      BothFill (fun filled otherFilled => Respelled pairs filled otherFilled ∧ StartsPlain filled)
        (one.fillSegments (segmentsFrom (some inner) text))
        (other.fillSegments (segmentsFrom (some otherInner) last)) := by
  induction respelled with
  | nil =>
      refine ⟨.ok ⟨.nil, id⟩, fun inner otherInner pending => ?_⟩
      rw [segmentsFrom, segmentsFrom, fillSegments_plain, fillSegments_plain]
      exact .ok ⟨.append (.plain (by decide) pending) .nil, '[', _, rfl, by decide⟩
  | @plain character text last noUnderscore _ inductionHypothesis =>
      refine ⟨?_, fun inner otherInner pending => ?_⟩
      · rw [segmentsFrom, segmentsFrom]
        split
        · exact (inductionHypothesis.2 [] [] .nil).imp fun _ _ filled =>
            ⟨filled.1, fun _ => filled.2⟩
        · rw [fillSegments_plain, fillSegments_plain]
          exact inductionHypothesis.1.map fun _ _ filled =>
            ⟨.plain noUnderscore filled.1, fun _ => ⟨character, _, rfl, noUnderscore⟩⟩
      · rw [segmentsFrom, segmentsFrom]
        split
        · rw [fillSegments_group, fillSegments_group]
          refine (corresponds.fillGroup pairing pending).bind fun _ _ group => ?_
          exact inductionHypothesis.1.map fun _ _ filled =>
            ⟨group.1.append filled.1, group.2.append _⟩
        · refine inductionHypothesis.2 _ _ ?_
          rw [List.reverse_cons, List.reverse_cons]
          exact pending.append (.plain noUnderscore .nil)
  | @suffix first second text last listed twins _ inductionHypothesis =>
      have noBracket {suffix partner : String} (twins : Suffix.Twins suffix partner)
          {bracket : Char} (isOther : Text.isWordChar bracket = false) :
          bracket ∉ suffix.toList := by
        intro member
        have isWord := twins.isWordChar bracket member
        rw [isOther] at isWord
        cases isWord
      refine ⟨?_, fun inner otherInner pending => ?_⟩
      · rw [fillSegments_run _ (noBracket twins (by decide)),
          fillSegments_run _ (noBracket twins.symm (by decide))]
        refine inductionHypothesis.1.map fun _ _ filled =>
          ⟨.suffix listed twins filled.1, fun starts => ?_⟩
        obtain ⟨start, _, same, plain⟩ := starts
        obtain ⟨_, opens⟩ := twins.opens
        rw [opens] at same
        exact absurd (List.cons.inj same).1.symm plain
      · rw [segmentsFrom_run (noBracket twins (by decide)),
          segmentsFrom_run (noBracket twins.symm (by decide))]
        refine inductionHypothesis.2 _ _ ?_
        rw [List.reverse_append, List.reverse_append, List.reverse_reverse, List.reverse_reverse]
        exact pending.append (.of_suffix listed twins)

private theorem Corresponds.fillPiece (pairing : Suffix.Pairing pairs)
    (corresponds : Corresponds pairs one other) {piece otherPiece : Text.Piece}
    (ofPiece : Respelled.OfPiece pairs piece otherPiece) :
    Respelled pairs (one.fillPiece piece) (other.fillPiece otherPiece) ∧
      (StartsPlain piece.characters → StartsPlain (one.fillPiece piece)) := by
  cases ofPiece with
  | other noUnderscore => exact ⟨.plain noUnderscore .nil, id⟩
  | @word word otherWord respelled =>
      have values := corresponds.value? pairing respelled
      unfold Substitution.fillPiece
      dsimp only
      generalize one.value? (String.ofList word) = first at values ⊢
      generalize other.value? (String.ofList otherWord) = second at values ⊢
      cases values with
      | none => exact ⟨respelled, id⟩
      | some name => exact ⟨name.respelled, fun _ => name.starts⟩

private theorem exists_cutWords_cons (character : Char) (rest : List Char) :
    ∃ piece pieces more, Text.cutWords (character :: rest) = piece :: pieces ∧
      piece.characters = character :: more := by
  rw [Text.cutWords]
  unfold Text.Piece.extend
  split
  · rcases Text.cutWords rest with _ | ⟨_ | _, _⟩ <;> exact ⟨_, _, _, rfl, rfl⟩
  · exact ⟨_, _, _, rfl, rfl⟩

private theorem Corresponds.fillWords (pairing : Suffix.Pairing pairs)
    (corresponds : Corresponds pairs one other) {text last : List Char}
    (respelled : Respelled pairs text last) :
    Respelled pairs (one.fillWords text) (other.fillWords last) ∧
      (StartsPlain text → StartsPlain (one.fillWords text)) := by
  unfold Substitution.fillWords
  have cut := respelled.cutWords
  constructor
  · generalize Text.cutWords text = pieces, Text.cutWords last = others at cut
    induction cut with
    | nil => exact .nil
    | cons first _ inductionHypothesis =>
        exact (corresponds.fillPiece pairing first).1.append inductionHypothesis
  · rintro ⟨character, rest, rfl, plain⟩
    obtain ⟨piece, pieces, more, isCut, starts⟩ := exists_cutWords_cons character rest
    rw [isCut] at cut ⊢
    obtain ⟨_, _, first, _, _⟩ := List.forall₂_cons_left_iff.1 cut
    exact ((corresponds.fillPiece pairing first).2 ⟨character, more, starts, plain⟩).append _

/-- Texts that correspond are filled in to texts that correspond, or both cannot be. -/
theorem Corresponds.substitute (pairing : Suffix.Pairing pairs)
    (corresponds : Corresponds pairs one other) {text last : String}
    (respelled : Respelled pairs text.toList last.toList) :
    BothFill (fun filled otherFilled => Respelled pairs filled.toList otherFilled.toList ∧
        (StartsPlain text.toList → StartsPlain filled.toList))
      (one.substitute text) (other.substitute last) := by
  rw [substitute_eq, substitute_eq]
  refine (corresponds.fillSegments pairing respelled).1.map fun scanned otherScanned filled => ?_
  obtain ⟨replaced, startsReplaced⟩ := corresponds.fillWords pairing filled.1
  rw [String.toList_ofList, String.toList_ofList]
  exact ⟨replaced, fun plain => startsReplaced (filled.2 plain)⟩

theorem Corresponds.substituteText (pairing : Suffix.Pairing pairs)
    (corresponds : Corresponds pairs one other) {text last : String}
    (respelled : Respelled pairs text.toList last.toList) :
    BothFill (fun filled otherFilled => Respelled pairs filled.toList otherFilled.toList)
      (one.substitute text) (other.substitute last) :=
  (corresponds.substitute pairing respelled).imp fun _ _ filled => filled.1

theorem Corresponds.substituteName (pairing : Suffix.Pairing pairs)
    (corresponds : Corresponds pairs one other) {name last : String}
    (respelled : RespelledName pairs name last) :
    BothFill (RespelledName pairs) (one.substitute name) (other.substitute last) :=
  (corresponds.substitute pairing respelled.respelled).imp fun _ _ filled =>
    ⟨filled.1, filled.2 respelled.starts⟩

private theorem Corresponds.renamed (pairing : Suffix.Pairing pairs)
    (corresponds : Corresponds pairs one other) {name last : String}
    (respelled : Respelled pairs name.toList last.toList) :
    (one.rename name = name ∧ other.rename last = last) ∨
      RespelledName pairs (one.rename name) (other.rename last) := by
  have found := Table.rel_lookup corresponds.renames fun rename => by
    rw [← String.toList_inj, ← String.toList_inj]
    exact respelled.eq_iff pairing rename.name.respelled
  unfold Substitution.rename
  generalize one.renames.lookup name = renamed at found ⊢
  generalize other.renames.lookup last = otherRenamed at found ⊢
  cases found with
  | none => exact .inl ⟨rfl, rfl⟩
  | some rename => exact .inr rename.renamed

private theorem Corresponds.name_of (pairing : Suffix.Pairing pairs)
    (corresponds : Corresponds pairs one other) {Related : String → String → Prop}
    (ofName : ∀ {name last}, RespelledName pairs name last → Related name last)
    {text last : String}
    (fill : BothFill (fun name otherName => Related name otherName ∧
      Respelled pairs name.toList otherName.toList) (one.substitute text) (other.substitute last)) :
    BothFill Related (one.name text) (other.name last) := by
  unfold Substitution.name
  generalize one.substitute text = first at fill ⊢
  generalize other.substitute last = second at fill ⊢
  cases fill with
  | error => exact .error trivial
  | ok related =>
      refine .ok ?_
      rcases corresponds.renamed pairing related.2 with ⟨same, otherSame⟩ | renamed
      · rw [same, otherSame]
        exact related.1
      · exact ofName renamed

/-- Names that correspond are filled in and renamed to names that correspond, or both cannot be. -/
theorem Corresponds.name (pairing : Suffix.Pairing pairs)
    (corresponds : Corresponds pairs one other) {name last : String}
    (respelled : RespelledName pairs name last) :
    BothFill (RespelledName pairs) (one.name name) (other.name last) :=
  corresponds.name_of pairing id ((corresponds.substituteName pairing respelled).imp
    fun _ _ filled => ⟨filled, filled.respelled⟩)

theorem Corresponds.nameText (pairing : Suffix.Pairing pairs)
    (corresponds : Corresponds pairs one other) {text last : String}
    (respelled : Respelled pairs text.toList last.toList) :
    BothFill (fun name otherName => Respelled pairs name.toList otherName.toList) (one.name text)
      (other.name last) :=
  corresponds.name_of pairing RespelledName.respelled
    ((corresponds.substituteText pairing respelled).imp fun _ _ filled => ⟨filled, filled⟩)

private theorem substitute_nothing (substitution : Substitution) :
    substitution.substitute "" = .ok "" :=
  substitute_of_noClosing List.not_mem_nil

/-- Endpoints that correspond are filled in and renamed to endpoints that correspond, or both cannot
be. -/
theorem Corresponds.endpoint (pairing : Suffix.Pairing pairs)
    (corresponds : Corresponds pairs one other) {endpoint last : String}
    (respelled : RespelledEndpoint pairs endpoint last) :
    BothFill (RespelledEndpoint pairs) (one.name endpoint) (other.name last) := by
  refine corresponds.name_of pairing RespelledName.endpoint ?_
  rcases respelled.cases with ⟨rfl, rfl⟩ | name
  · rw [substitute_nothing, substitute_nothing]
    exact .ok ⟨⟨.nil, .inl rfl⟩, .nil⟩
  · exact (corresponds.substituteName pairing name).imp fun _ _ filled =>
      ⟨filled.endpoint, filled.respelled⟩

end Substitution

end NetBlueprint
