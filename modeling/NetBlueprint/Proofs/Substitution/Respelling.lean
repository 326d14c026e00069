import NetBlueprint.Proofs.Compiler.SuffixReading
import NetBlueprint.Proofs.Substitution.Scanning
import NetBlueprint.Substitution.Hygiene

/-!
Contract: texts of two runs that differ in the marks of suffixes only.

Two runs of one program draw their suffixes in the same order, with the same labels and different
marks. A text of one run is respelled in the other: each suffix is replaced by the one that the
other run drew in its place. Labels are words, so a suffix never reaches beyond a word, and two
texts are equal exactly when they are equal as respelled.

Owns: respelled texts, what equality and the parts of a text become, and their words.

Does not own: what filling in makes of them.
-/

namespace NetBlueprint

namespace Suffix

def IsLabel (label : List Char) : Prop :=
  label ≠ [] ∧ ∀ character ∈ label, character.isAlphanum = true

def Twins (one other : String) : Prop :=
  ∃ label mark otherMark, IsLabel label ∧ IsMark mark ∧ IsMark otherMark ∧ mark.length = 4 ∧
    otherMark.length = 4 ∧ one.toList = spelling label mark ∧
    other.toList = spelling label otherMark

/-- Suffixes of two runs in pairs: each of one run stands for one of the other. -/
def Pairing (pairs : List (String × String)) : Prop :=
  ∀ pair ∈ pairs, ∀ next ∈ pairs, (pair.1 = next.1 ↔ pair.2 = next.2)

theorem IsLabel.noUnderscore {label : List Char} (isLabel : IsLabel label) : '_' ∉ label :=
  fun member => absurd (isLabel.2 '_' member) (by decide)

theorem IsLabel.isWordChar {label : List Char} (isLabel : IsLabel label) :
    ∀ character ∈ label, Text.isWordChar character = true := by
  intro character member
  rw [Text.isWordChar, isLabel.2 character member, Bool.true_or]

theorem Twins.symm {one other : String} (twins : Twins one other) : Twins other one := by
  obtain ⟨label, mark, otherMark, isLabel, isMark, isOther, length, otherLength, spelled,
    otherSpelled⟩ := twins
  exact ⟨label, otherMark, mark, isLabel, isOther, isMark, otherLength, length, otherSpelled,
    spelled⟩

/-- A suffix is a part of a word. -/
theorem Twins.isWordChar {one other : String} (twins : Twins one other) :
    ∀ character ∈ one.toList, Text.isWordChar character = true := by
  obtain ⟨label, mark, _, isLabel, isMark, _, _, _, spelled, _⟩ := twins
  intro character member
  rw [spelled, spelling] at member
  simp only [List.cons_append, List.mem_cons, List.mem_append] at member
  rcases member with rfl | rfl | inLabel | rfl | inMark
  · rfl
  · rfl
  · exact isLabel.isWordChar character inLabel
  · rfl
  · exact isWordChar_of_markDigit (isMark.2 character inMark)

/-- A suffix starts with two underscores. -/
theorem Twins.opens {one other : String} (twins : Twins one other) :
    ∃ rest, one.toList = '_' :: '_' :: rest := by
  obtain ⟨label, mark, _, _, _, _, _, _, spelled, _⟩ := twins
  exact ⟨label ++ '_' :: mark, spelled⟩

/-- Twin suffixes are equally long. -/
theorem Twins.length_eq {one other : String} (twins : Twins one other) :
    one.toList.length = other.toList.length := by
  obtain ⟨label, mark, otherMark, _, _, _, length, otherLength, spelled, otherSpelled⟩ := twins
  rw [spelled, otherSpelled]
  simp [spelling, length, otherLength]

/-- What stands in front of the first underscore of a text and what follows it are determined. -/
theorem eq_of_first_underscore {front other rest otherRest : List Char} (noUnderscore : '_' ∉ front)
    (otherNoUnderscore : '_' ∉ other) (same : front ++ '_' :: rest = other ++ '_' :: otherRest) :
    front = other ∧ rest = otherRest := by
  induction front generalizing other with
  | nil =>
      cases other with
      | nil => exact ⟨rfl, (List.cons.inj same).2⟩
      | cons first _ =>
          cases (List.cons.inj same).1
          exact absurd List.mem_cons_self otherNoUnderscore
  | cons first front inductionHypothesis =>
      cases other with
      | nil =>
          cases (List.cons.inj same).1
          exact absurd List.mem_cons_self noUnderscore
      | cons second other =>
          obtain ⟨rfl, rest⟩ := List.cons.inj same
          obtain ⟨rfl, following⟩ := inductionHypothesis
            (fun member => noUnderscore (List.mem_cons_of_mem _ member))
            (fun member => otherNoUnderscore (List.mem_cons_of_mem _ member)) rest
          exact ⟨rfl, following⟩

/-- An underscore behind a text without underscores stands in what follows. -/
theorem exists_of_append_eq {run rest front back : List Char} (noUnderscore : '_' ∉ run)
    (same : run ++ rest = front ++ '_' :: back) :
    ∃ more, front = run ++ more ∧ rest = more ++ '_' :: back := by
  rcases List.append_eq_append_iff.1 same with ⟨more, rfl, following⟩ | ⟨more, rfl, following⟩
  · exact ⟨more, rfl, following⟩
  · cases more with
    | nil => exact ⟨[], (List.append_nil _).symm ▸ (List.append_nil _).symm, following.symm⟩
    | cons first more =>
        cases (List.cons.inj following).1
        exact absurd (List.mem_append_right front List.mem_cons_self) noUnderscore

private theorem append_ne_of_noUnderscore {run rest back : List Char} (noUnderscore : '_' ∉ run)
    (nonempty : run ≠ []) : run ++ rest ≠ '_' :: back := by
  obtain ⟨first, run, rfl⟩ := List.exists_cons_of_ne_nil nonempty
  intro same
  exact noUnderscore ((List.cons.inj same).1 ▸ List.mem_cons_self)

/-- A suffix at the start of a text is determined. -/
theorem Twins.eq_of_append {one other first second : String} {rest last : List Char}
    (twins : Twins one other) (otherTwins : Twins first second)
    (same : one.toList ++ rest = first.toList ++ last) : one = first ∧ rest = last := by
  obtain ⟨label, mark, _, isLabel, _, _, length, _, spelled, _⟩ := twins
  obtain ⟨otherLabel, otherMark, _, isOther, _, _, otherLength, _, otherSpelled, _⟩ := otherTwins
  have inner : label ++ '_' :: (mark ++ rest) = otherLabel ++ '_' :: (otherMark ++ last) := by
    rw [spelled, otherSpelled] at same
    simpa [spelling] using same
  obtain ⟨rfl, marks⟩ := eq_of_first_underscore isLabel.noUnderscore isOther.noUnderscore inner
  obtain ⟨rfl, following⟩ := List.append_inj marks (length.trans otherLength.symm)
  exact ⟨String.toList_inj.1 (spelled.trans otherSpelled.symm), following⟩

end Suffix

/-- A text of one run and the text that another run has in its place. -/
inductive Respelled (pairs : List (String × String)) : List Char → List Char → Prop where
  | nil : Respelled pairs [] []
  | plain {character : Char} {one other : List Char} (noUnderscore : character ≠ '_')
      (rest : Respelled pairs one other) : Respelled pairs (character :: one) (character :: other)
  | suffix {first second : String} {one other : List Char} (listed : (first, second) ∈ pairs)
      (twins : Suffix.Twins first second) (rest : Respelled pairs one other) :
      Respelled pairs (first.toList ++ one) (second.toList ++ other)

namespace Respelled

open Suffix

variable {pairs : List (String × String)} {one other text last : List Char}

/-- A text without underscores is the same in both runs. -/
theorem refl_of_plain : ∀ {text : List Char}, '_' ∉ text → Respelled pairs text text
  | [], _ => .nil
  | _ :: _, noUnderscore =>
      .plain (fun same => noUnderscore (same ▸ List.mem_cons_self))
        (refl_of_plain fun member => noUnderscore (List.mem_cons_of_mem _ member))

/-- Texts that correspond may be put one behind the other. -/
theorem append (first : Respelled pairs one other) (second : Respelled pairs text last) :
    Respelled pairs (one ++ text) (other ++ last) := by
  induction first with
  | nil => exact second
  | plain noUnderscore _ inductionHypothesis => exact .plain noUnderscore inductionHypothesis
  | suffix listed twins _ inductionHypothesis =>
      rw [List.append_assoc, List.append_assoc]
      exact .suffix listed twins inductionHypothesis

/-- A suffix corresponds to its twin. -/
theorem of_suffix {first second : String} (listed : (first, second) ∈ pairs)
    (twins : Twins first second) : Respelled pairs first.toList second.toList := by
  simpa using Respelled.suffix listed twins .nil

/-- More suffixes leave respelled what was respelled before. -/
theorem mono {more : List (String × String)} (grows : pairs ⊆ more)
    (respelled : Respelled pairs one other) : Respelled more one other := by
  induction respelled with
  | nil => exact .nil
  | plain noUnderscore _ inductionHypothesis => exact .plain noUnderscore inductionHypothesis
  | suffix listed twins _ inductionHypothesis =>
      exact .suffix (grows listed) twins inductionHypothesis

/-- Either run may come first. -/
theorem swap (respelled : Respelled pairs one other) :
    Respelled (pairs.map Prod.swap) other one := by
  induction respelled with
  | nil => exact .nil
  | plain noUnderscore _ inductionHypothesis => exact .plain noUnderscore inductionHypothesis
  | suffix listed twins _ inductionHypothesis =>
      exact .suffix (List.mem_map_of_mem (f := Prod.swap) listed) twins.symm inductionHypothesis

/-- Texts that correspond are equally long. -/
theorem length_eq (respelled : Respelled pairs one other) : one.length = other.length := by
  induction respelled with
  | nil => rfl
  | plain _ _ inductionHypothesis => rw [List.length_cons, List.length_cons, inductionHypothesis]
  | suffix _ twins _ inductionHypothesis =>
      rw [List.length_append, List.length_append, twins.length_eq, inductionHypothesis]

/-- Texts that correspond start with the same character. -/
theorem head?_eq (respelled : Respelled pairs one other) : one.head? = other.head? := by
  cases respelled with
  | nil => rfl
  | plain => rfl
  | suffix _ twins _ =>
      obtain ⟨_, opens⟩ := twins.opens
      obtain ⟨_, otherOpens⟩ := twins.symm.opens
      rw [opens, otherOpens]
      rfl

/-- What follows a first character other than an underscore. -/
theorem tail {first second : Char} (noUnderscore : first ≠ '_')
    (respelled : Respelled pairs (first :: one) (second :: other)) : Respelled pairs one other := by
  generalize whole : first :: one = text, otherWhole : second :: other = last at respelled
  cases respelled with
  | nil => cases whole
  | plain _ rest =>
      cases whole
      cases otherWhole
      exact rest
  | suffix _ twins _ =>
      obtain ⟨_, opens⟩ := twins.opens
      rw [opens] at whole
      exact absurd (List.cons.inj whole).1 noUnderscore

def Doubled (text : List Char) : Prop :=
  ['_', '_'] <:+: text

/-- A text without suffixes is the same in both runs, any other has two underscores in a row in
both. -/
theorem cases (respelled : Respelled pairs one other) :
    (one = other ∧ '_' ∉ one) ∨ (Doubled one ∧ Doubled other) := by
  induction respelled with
  | nil => exact .inl ⟨rfl, List.not_mem_nil⟩
  | @plain character _ _ noUnderscore _ inductionHypothesis =>
      refine inductionHypothesis.imp (fun ⟨same, free⟩ => ⟨same ▸ rfl, fun member => ?_⟩)
        fun ⟨first, second⟩ =>
          ⟨first.trans (List.suffix_cons _ _).isInfix, second.trans (List.suffix_cons _ _).isInfix⟩
      rcases List.mem_cons.1 member with rfl | later
      · exact noUnderscore rfl
      · exact free later
  | suffix _ twins _ _ =>
      obtain ⟨rest, opens⟩ := twins.opens
      obtain ⟨otherRest, otherOpens⟩ := twins.symm.opens
      rw [opens, otherOpens]
      exact .inr ⟨(List.prefix_append ['_', '_'] _).isInfix,
        (List.prefix_append ['_', '_'] _).isInfix⟩

theorem Doubled.mem {text : List Char} (doubled : Doubled text) : '_' ∈ text :=
  doubled.subset List.mem_cons_self

private theorem eq_of_eq (same : ∀ pair ∈ pairs, ∀ next ∈ pairs, pair.1 = next.1 → pair.2 = next.2)
    (first : Respelled pairs one other) (second : Respelled pairs text last) (isSame : one = text) :
    other = last := by
  induction first generalizing text last with
  | nil =>
      cases second with
      | nil => rfl
      | plain => cases isSame
      | suffix _ twins _ =>
          obtain ⟨_, opens⟩ := twins.opens
          rw [opens] at isSame
          cases isSame
  | @plain character one other noUnderscore _ inductionHypothesis =>
      cases second with
      | nil => cases isSame
      | plain _ rest =>
          obtain ⟨rfl, same⟩ := List.cons.inj isSame
          rw [inductionHypothesis rest same]
      | suffix _ twins _ =>
          obtain ⟨_, opens⟩ := twins.opens
          rw [opens] at isSame
          exact absurd (List.cons.inj isSame).1 noUnderscore
  | suffix listed twins _ inductionHypothesis =>
      cases second with
      | nil =>
          obtain ⟨_, opens⟩ := twins.opens
          rw [opens] at isSame
          cases isSame
      | plain noUnderscore _ =>
          obtain ⟨_, opens⟩ := twins.opens
          rw [opens] at isSame
          exact absurd (List.cons.inj isSame).1.symm noUnderscore
      | suffix otherListed otherTwins rest =>
          obtain ⟨sameSuffix, sameRest⟩ := twins.eq_of_append otherTwins isSame
          have sameOther := same _ listed _ otherListed sameSuffix
          dsimp only at sameOther
          rw [sameOther, inductionHypothesis rest sameRest]

/-- Texts are equal exactly when they are equal as respelled. -/
theorem eq_iff (pairing : Pairing pairs) (first : Respelled pairs one other)
    (second : Respelled pairs text last) : one = text ↔ other = last := by
  constructor
  · exact eq_of_eq (fun pair listed next nextListed =>
      (pairing pair listed next nextListed).1) first second
  · refine eq_of_eq (fun pair listed next nextListed => ?_) first.swap second.swap
    obtain ⟨pair, isPair, rfl⟩ := List.mem_map.1 listed
    obtain ⟨next, isNext, rfl⟩ := List.mem_map.1 nextListed
    exact (pairing pair isPair next isNext).2

/-! ## Parts of a text -/

/-- A character that is part of no word parts a text alike in both runs. -/
theorem split (respelled : Respelled pairs one other) {separator : Char}
    (isOther : Text.isWordChar separator = false) :
    ∀ {front back : List Char}, one = front ++ separator :: back →
      ∃ otherFront otherBack, other = otherFront ++ separator :: otherBack ∧
        Respelled pairs front otherFront ∧ Respelled pairs back otherBack := by
  induction respelled with
  | nil =>
      intro front back whole
      exact absurd whole.symm (List.append_ne_nil_of_right_ne_nil _ (List.cons_ne_nil _ _))
  | @plain character one other noUnderscore rest inductionHypothesis =>
      intro front back whole
      cases front with
      | nil =>
          obtain ⟨rfl, rfl⟩ := List.cons.inj whole
          exact ⟨[], other, rfl, .nil, rest⟩
      | cons first front =>
          obtain ⟨rfl, following⟩ := List.cons.inj whole
          obtain ⟨otherFront, otherBack, rfl, frontRespelled, backRespelled⟩ :=
            inductionHypothesis following
          exact ⟨character :: otherFront, otherBack, rfl, .plain noUnderscore frontRespelled,
            backRespelled⟩
  | @suffix first second one other listed twins rest inductionHypothesis =>
      intro front back whole
      rcases List.append_eq_append_iff.1 whole with ⟨more, rfl, following⟩ |
        ⟨more, isFirst, following⟩
      · obtain ⟨otherFront, otherBack, rfl, frontRespelled, backRespelled⟩ :=
          inductionHypothesis following
        exact ⟨second.toList ++ otherFront, otherBack, (List.append_assoc _ _ _).symm,
          .suffix listed twins frontRespelled, backRespelled⟩
      · cases more with
        | nil =>
            rw [List.append_nil] at isFirst
            have starts : one = [] ++ separator :: back := following.symm
            obtain ⟨otherFront, otherBack, rfl, frontRespelled, backRespelled⟩ :=
              inductionHypothesis starts
            refine ⟨second.toList ++ otherFront, otherBack, (List.append_assoc _ _ _).symm, ?_,
              backRespelled⟩
            rw [← isFirst]
            simpa using Respelled.suffix listed twins frontRespelled
        | cons inside more =>
            -- The separator would stand inside the suffix.
            obtain ⟨rfl, _⟩ := List.cons.inj following
            have isWord := twins.isWordChar separator
              (isFirst ▸ List.mem_append_right front List.mem_cons_self)
            rw [isOther] at isWord
            cases isWord

/-- A text that ends with a character that is part of no word does so in both runs. -/
theorem of_concat {separator : Char} (isOther : Text.isWordChar separator = false)
    (respelled : Respelled pairs (one ++ [separator]) other) :
    ∃ front, other = front ++ [separator] ∧ Respelled pairs one front := by
  obtain ⟨front, back, rfl, frontRespelled, backRespelled⟩ := respelled.split isOther rfl
  cases back with
  | nil => exact ⟨front, rfl, frontRespelled⟩
  | cons first back =>
      have length := backRespelled.length_eq
      cases length

/-- A test of characters that every suffix fails gives the same on both texts. -/
theorem any_eq {test : Char → Bool} (fails : ∀ character, Text.isWordChar character = true →
    test character = false) (respelled : Respelled pairs one other) :
    one.any test = other.any test := by
  induction respelled with
  | nil => rfl
  | plain _ _ inductionHypothesis => rw [List.any_cons, List.any_cons, inductionHypothesis]
  | suffix _ twins _ inductionHypothesis =>
      have none {suffix : String} (isWord : ∀ character ∈ suffix.toList,
          Text.isWordChar character = true) : suffix.toList.any test = false :=
        List.any_eq_false.2 fun character member =>
          Bool.eq_false_iff.1 (fails character (isWord character member))
      rw [List.any_append, List.any_append, none twins.isWordChar, none twins.symm.isWordChar,
        inductionHypothesis]

/-- What is left without leading characters that pass a test is left in both runs, if no suffix
starts with such a character or every suffix passes over. -/
theorem dropWhile {test : Char → Bool}
    (even : test '_' = false ∨ ∀ character, Text.isWordChar character = true →
      test character = true)
    (respelled : Respelled pairs one other) :
    Respelled pairs (one.takeWhile test) (other.takeWhile test) ∧
      Respelled pairs (one.dropWhile test) (other.dropWhile test) := by
  induction respelled with
  | nil => exact ⟨.nil, .nil⟩
  | @plain character one other noUnderscore rest inductionHypothesis =>
      rw [List.takeWhile_cons, List.takeWhile_cons, List.dropWhile_cons, List.dropWhile_cons]
      split
      · exact ⟨.plain noUnderscore inductionHypothesis.1, inductionHypothesis.2⟩
      · exact ⟨.nil, .plain noUnderscore rest⟩
  | @suffix first second one other listed twins rest inductionHypothesis =>
      rcases even with stops | passes
      · have stopped {suffix partner : String} (twins : Twins suffix partner) (rest : List Char) :
            (suffix.toList ++ rest).takeWhile test = [] ∧
              (suffix.toList ++ rest).dropWhile test = suffix.toList ++ rest := by
          obtain ⟨_, opens⟩ := twins.opens
          rw [opens, List.cons_append, List.takeWhile_cons, List.dropWhile_cons, stops]
          exact ⟨rfl, rfl⟩
        rw [(stopped twins one).1, (stopped twins.symm other).1, (stopped twins one).2,
          (stopped twins.symm other).2]
        exact ⟨.nil, .suffix listed twins rest⟩
      · have passed {suffix partner : String} (twins : Twins suffix partner) :
            ∀ character ∈ suffix.toList, test character = true :=
          fun character member => passes character (twins.isWordChar character member)
        rw [List.takeWhile_append_of_pos (passed twins),
          List.takeWhile_append_of_pos (passed twins.symm),
          List.dropWhile_append_of_pos (passed twins),
          List.dropWhile_append_of_pos (passed twins.symm)]
        exact ⟨.suffix listed twins inductionHypothesis.1, inductionHypothesis.2⟩

private theorem reverse_skipBlank_append (run text : List Char) :
    (Text.skipBlank (run ++ text).reverse).reverse =
      if (Text.skipBlank text.reverse).reverse = [] then (Text.skipBlank run.reverse).reverse
      else run ++ (Text.skipBlank text.reverse).reverse := by
  unfold Text.skipBlank
  rw [List.reverse_append, List.dropWhile_append]
  simp only [List.isEmpty_iff, List.reverse_eq_nil_iff]
  split
  · rfl
  · rw [List.reverse_append, List.reverse_reverse]

private theorem reverse_skipBlank (respelled : Respelled pairs one other) :
    Respelled pairs (Text.skipBlank one.reverse).reverse
      (Text.skipBlank other.reverse).reverse := by
  have nil_iff {one other : List Char} (respelled : Respelled pairs one other) :
      one = [] ↔ other = [] := by
    rw [← List.length_eq_zero_iff, respelled.length_eq, List.length_eq_zero_iff]
  induction respelled with
  | nil => exact .nil
  | @plain character one other noUnderscore _ inductionHypothesis =>
      have stepped := reverse_skipBlank_append [character]
      simp only [List.singleton_append] at stepped
      rw [stepped one, stepped other]
      simp only [nil_iff inductionHypothesis]
      split
      · rw [List.reverse_singleton, Text.skipBlank_cons]
        split
        · exact .nil
        · exact .plain noUnderscore .nil
      · exact .plain noUnderscore inductionHypothesis
  | @suffix first second one other listed twins _ inductionHypothesis =>
      have kept {suffix partner : String} (twins : Twins suffix partner) :
          (Text.skipBlank suffix.toList.reverse).reverse = suffix.toList := by
        have whole := Text.trimmed_of_isWord twins.isWordChar
        obtain ⟨rest, opens⟩ := twins.opens
        rwa [Text.trimmed, opens, Text.skipBlank_cons, show Text.isBlank '_' = false by decide,
          if_neg Bool.false_ne_true, ← opens] at whole
      rw [reverse_skipBlank_append, reverse_skipBlank_append, kept twins, kept twins.symm]
      simp only [nil_iff inductionHypothesis]
      split
      · exact of_suffix listed twins
      · exact .suffix listed twins inductionHypothesis

/-- Dropping blanks keeps texts in correspondence. -/
theorem trimmed (respelled : Respelled pairs one other) :
    Respelled pairs (Text.trimmed one) (Text.trimmed other) :=
  reverse_skipBlank (respelled.dropWhile (.inl (by decide))).2

/-- What stands in front of the last character of a text that is part of no word. -/
theorem dropLast {separator : Char} (isOther : Text.isWordChar separator = false)
    (respelled : Respelled pairs one other) :
    (one.getLast? = some separator ↔ other.getLast? = some separator) ∧
      (one.getLast? = some separator → Respelled pairs one.dropLast other.dropLast) := by
  have parted {pairs : List (String × String)} {one other : List Char}
      (respelled : Respelled pairs one other) (last : one.getLast? = some separator) :
      other.getLast? = some separator ∧ Respelled pairs one.dropLast other.dropLast := by
    obtain ⟨front, rfl⟩ := List.getLast?_eq_some_iff.1 last
    obtain ⟨otherFront, rfl, frontRespelled⟩ := respelled.of_concat isOther
    rw [List.getLast?_concat, List.dropLast_concat, List.dropLast_concat]
    exact ⟨rfl, frontRespelled⟩
  exact ⟨⟨fun last => (parted respelled last).1, fun last => (parted respelled.swap last).1⟩,
    fun last => (parted respelled last).2⟩

/-! ## Words -/

/-- A piece of a text and what stands in its place in another run. -/
inductive OfPiece (pairs : List (String × String)) : Text.Piece → Text.Piece → Prop where
  | word {one other : List Char} (respelled : Respelled pairs one other) :
      OfPiece pairs (.word one) (.word other)
  | other {character : Char} (noUnderscore : character ≠ '_') :
      OfPiece pairs (.other character) (.other character)

/-- Puts a run of word characters in front of a text that is already cut. -/
def joined (run : List Char) : List Text.Piece → List Text.Piece
  | .word word :: pieces => .word (run ++ word) :: pieces
  | pieces => .word run :: pieces

private theorem cutWords_run {run : List Char}
    (isWord : ∀ character ∈ run, Text.isWordChar character = true) (nonempty : run ≠ [])
    (text : List Char) : Text.cutWords (run ++ text) = joined run (Text.cutWords text) := by
  induction run with
  | nil => exact absurd rfl nonempty
  | cons first rest inductionHypothesis =>
      obtain ⟨isFirst, areWords⟩ := List.forall_mem_cons.1 isWord
      cases rest with
      | nil =>
          rw [List.singleton_append, Text.cutWords]
          rcases Text.cutWords text with _ | ⟨_ | _, _⟩ <;>
            simp [Text.Piece.extend, isFirst, joined]
      | cons second rest =>
          rw [List.cons_append, Text.cutWords, inductionHypothesis areWords (List.cons_ne_nil _ _)]
          rcases Text.cutWords text with _ | ⟨_ | _, _⟩ <;>
            simp [Text.Piece.extend, isFirst, joined]

/-- Both texts are cut into words at the same places. -/
theorem cutWords (respelled : Respelled pairs one other) :
    List.Forall₂ (OfPiece pairs) (Text.cutWords one) (Text.cutWords other) := by
  have join {run otherRun : List Char} {pieces otherPieces : List Text.Piece}
      (runRespelled : Respelled pairs run otherRun)
      (piecesRespelled : List.Forall₂ (OfPiece pairs) pieces otherPieces) :
      List.Forall₂ (OfPiece pairs) (joined run pieces) (joined otherRun otherPieces) := by
    cases piecesRespelled with
    | nil => exact .cons (.word runRespelled) .nil
    | cons first rest =>
        cases first with
        | word respelled => exact .cons (.word (runRespelled.append respelled)) rest
        | other noUnderscore => exact .cons (.word runRespelled) (.cons (.other noUnderscore) rest)
  induction respelled with
  | nil => exact .nil
  | @plain character one other noUnderscore _ inductionHypothesis =>
      by_cases isWord : Text.isWordChar character = true
      · have cut (text : List Char) := cutWords_run (List.forall_mem_singleton.2 isWord)
          (List.cons_ne_nil character []) text
        simp only [List.singleton_append] at cut
        rw [cut one, cut other]
        exact join (.plain noUnderscore .nil) inductionHypothesis
      · rw [Text.cutWords, Text.cutWords]
        unfold Text.Piece.extend
        rw [if_neg isWord, if_neg isWord]
        exact .cons (.other noUnderscore) inductionHypothesis
  | suffix listed twins _ inductionHypothesis =>
      have nonempty {suffix partner : String} (twins : Twins suffix partner) :
          suffix.toList ≠ [] := by
        obtain ⟨_, opens⟩ := twins.opens
        rw [opens]
        exact List.cons_ne_nil _ _
      rw [cutWords_run twins.isWordChar (nonempty twins),
        cutWords_run twins.symm.isWordChar (nonempty twins.symm)]
      exact join (of_suffix listed twins) inductionHypothesis

/-- Both texts have the same words, as respelled. -/
theorem words (respelled : Respelled pairs one other) :
    List.Forall₂ (Respelled pairs) (Text.words one) (Text.words other) := by
  unfold Text.words
  generalize Text.cutWords one = pieces, Text.cutWords other = otherPieces, respelled.cutWords = cut
  induction cut with
  | nil => exact .nil
  | cons first _ inductionHypothesis =>
      cases first with
      | word respelled => exact .cons respelled inductionHypothesis
      | other => exact inductionHypothesis

/-! ## The key of suffixes -/

private theorem exists_label_of_doubled (respelled : Respelled pairs one other) :
    ∀ {front back : List Char}, one = front ++ '_' :: '_' :: back →
      ∃ label mark more, IsLabel label ∧ IsMark mark ∧ back = label ++ '_' :: (mark ++ more) := by
  induction respelled with
  | nil =>
      intro front back whole
      exact absurd whole.symm (List.append_ne_nil_of_right_ne_nil _ (List.cons_ne_nil _ _))
  | plain noUnderscore _ inductionHypothesis =>
      intro front back whole
      cases front with
      | nil => exact absurd (List.cons.inj whole).1 noUnderscore
      | cons first front => exact inductionHypothesis (List.cons.inj whole).2
  | suffix _ twins _ inductionHypothesis =>
      intro front back whole
      obtain ⟨label, mark, _, isLabel, isMark, _, _, _, spelled, _⟩ := twins
      rw [spelled, spelling, List.append_assoc, List.cons_append, List.cons_append] at whole
      rcases front with _ | ⟨first, _ | ⟨second, front⟩⟩
      · obtain ⟨_, whole⟩ := List.cons.inj whole
        exact ⟨label, mark, _, isLabel, isMark, (List.cons.inj whole).2.symm⟩
      · have inLabel := (List.cons.inj whole).2
        exact absurd (List.cons.inj inLabel).2
          (append_ne_of_noUnderscore isLabel.noUnderscore isLabel.1)
      · have behind := (List.cons.inj (List.cons.inj whole).2).2
        obtain ⟨more, rfl, rest⟩ := exists_of_append_eq isLabel.noUnderscore behind
        cases more with
        | nil =>
            exact absurd (List.cons.inj rest).2
              (append_ne_of_noUnderscore isMark.noUnderscore isMark.1)
        | cons first more =>
            obtain ⟨_, _, later⟩ :=
              exists_of_append_eq isMark.noUnderscore (List.cons.inj rest).2
            exact inductionHypothesis later

/-- A respelled text does not mention the key of suffixes. -/
theorem not_suffixKey_infix (respelled : Respelled pairs one other) (front back : List Char) :
    one ≠ front ++ (suffixKey.toList ++ back) := by
  intro whole
  have isKey : suffixKey.toList = '_' :: '_' :: ("suffix".toList ++ ['_', '_']) := by decide
  rw [isKey] at whole
  obtain ⟨label, mark, more, isLabel, isMark, inside⟩ := respelled.exists_label_of_doubled whole
  have parted : "suffix".toList ++ '_' :: '_' :: back = label ++ '_' :: (mark ++ more) := by
    rw [← inside]
    simp
  obtain ⟨_, marked⟩ := eq_of_first_underscore (by decide) isLabel.noUnderscore parted
  exact append_ne_of_noUnderscore isMark.noUnderscore isMark.1 marked.symm

end Respelled

end NetBlueprint
