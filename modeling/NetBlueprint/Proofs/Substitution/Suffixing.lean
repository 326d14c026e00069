import NetBlueprint.Proofs.Substitution.CleanNames
import NetBlueprint.Proofs.Substitution.Ending

/-!
Contract: when a suffix may be put on a text before or after integers are filled in.

A suffix of word characters becomes part of the last word of a text. Filling in replaces whole
words, so it does not see the suffix exactly when it would leave the last word alone. A counter
without digits is never the word that an integer ends up in, so it is enough that the text as
written does not end with a counter.

Owns: the last word of a text, and filling in under a suffix.
-/

namespace NetBlueprint

namespace Text

/-- The word that a text ends with; nothing where it ends with another character. -/
def lastWord : List Char → List Char
  | [] => []
  | character :: rest =>
    if (character :: rest).all isWordChar then character :: rest else lastWord rest

private theorem lastWord_of_isWord {text : List Char} (isWord : text.all isWordChar = true) :
    lastWord text = text := by
  cases text with
  | nil => rfl
  | cons character rest => rw [lastWord, if_pos isWord]

private theorem isWord_lastWord (text : List Char) : (lastWord text).all isWordChar = true := by
  induction text with
  | nil => rfl
  | cons character rest inductionHypothesis =>
      rw [lastWord]
      split
      · assumption
      · exact inductionHypothesis

/-- What stands in front of a character outside every word does not matter. -/
theorem lastWord_append {text : List Char} (notWord : text.all isWordChar = false)
    (front : List Char) : lastWord (front ++ text) = lastWord text := by
  induction front with
  | nil => rfl
  | cons character rest inductionHypothesis =>
      rw [List.cons_append, lastWord, if_neg, inductionHypothesis]
      rw [List.all_cons, List.all_append, notWord, Bool.and_false, Bool.and_false]
      exact Bool.false_ne_true

/-- A text that ends with word characters ends with a word that ends with them. -/
theorem suffix_lastWord {text : List Char} (isWord : text.all isWordChar = true)
    (front : List Char) : text <:+ lastWord (front ++ text) := by
  induction front with
  | nil => exact (lastWord_of_isWord isWord).symm ▸ List.suffix_refl text
  | cons character rest inductionHypothesis =>
      rw [List.cons_append, lastWord]
      split
      · rw [← List.cons_append]
        exact List.suffix_append _ _
      · exact inductionHypothesis

/-- The pieces that a word is cut into: itself, unless it is empty. -/
def wordPiece (word : List Char) : List Piece :=
  if word = [] then [] else [.word word]

private theorem cutWords_of_all {word : List Char} (isWord : word.all isWordChar = true) :
    cutWords word = wordPiece word := by
  unfold wordPiece
  split
  · rename_i empty
    rw [empty]
    rfl
  · rename_i nonempty
    exact Substitution.cutWords_of_isWord (List.all_eq_true.1 isWord) nonempty

/-- A run of word characters at the end of a text joins its last word and no other piece. -/
theorem exists_cutWords_append (text : List Char) :
    ∃ pieces, cutWords text = pieces ++ wordPiece (lastWord text) ∧
      ∀ run, run.all isWordChar = true → run ≠ [] →
        cutWords (text ++ run) = pieces ++ [.word (lastWord text ++ run)] := by
  induction text with
  | nil =>
      refine ⟨[], rfl, fun run isWord nonempty => ?_⟩
      exact Substitution.cutWords_of_isWord (List.all_eq_true.1 isWord) nonempty
  | cons character rest inductionHypothesis =>
      by_cases isWord : (character :: rest).all isWordChar = true
      · rw [lastWord_of_isWord isWord]
        refine ⟨[], cutWords_of_all isWord, fun run runIsWord nonempty => ?_⟩
        have whole : (character :: rest ++ run).all isWordChar = true := by
          rw [List.all_append, isWord, runIsWord, Bool.and_self]
        exact Substitution.cutWords_of_isWord (List.all_eq_true.1 whole) (by simp)
      · obtain ⟨pieces, cut, cutAppended⟩ := inductionHypothesis
        rw [lastWord, if_neg isWord]
        cases pieces with
        | nil =>
            -- The rest is one word, so the character in front of it is none of a word.
            have isOther : isWordChar character = false := by
              have same := characters_cutWords rest
              rw [cut, List.nil_append] at same
              have restIsWord : rest.all isWordChar = true := by
                rw [← same]
                unfold wordPiece
                split
                · rfl
                · simpa [Piece.characters] using isWord_lastWord rest
              rw [List.all_cons, restIsWord, Bool.and_true] at isWord
              exact Bool.eq_false_iff.2 isWord
            refine ⟨[.other character], ?_, fun run runIsWord nonempty => ?_⟩
            · simp [cutWords, Piece.extend, isOther, cut]
            · simp [cutWords, Piece.extend, isOther, cutAppended run runIsWord nonempty]
        | cons piece pieces =>
            refine ⟨Piece.extend character (piece :: pieces), ?_, fun run runIsWord nonempty => ?_⟩
            · rw [cutWords, cut, Substitution.extend_append]
            · rw [List.cons_append, cutWords, cutAppended run runIsWord nonempty,
                Substitution.extend_append]

end Text

/-! ## Integers in front of a suffix -/

namespace Spliced

variable {text spliced : List Char}

private theorem isWordChar_of_isDigit {digit : Char} (isDigit : digit.isDigit = true) :
    Text.isWordChar digit = true := by
  rw [Text.isWordChar, Char.isAlphanum, isDigit, Bool.or_true, Bool.true_or]

/-- A last word without digits was the last word before the integers were put in. -/
theorem lastWord_eq (splices : Spliced text spliced)
    (noDigit : ∀ character ∈ Text.lastWord spliced, character.isDigit = false) :
    Text.lastWord text = Text.lastWord spliced ∧
      text.all Text.isWordChar = spliced.all Text.isWordChar := by
  induction splices with
  | done => exact ⟨rfl, rfl⟩
  | @keep character text spliced _ inductionHypothesis =>
      by_cases isWord : (character :: spliced).all Text.isWordChar = true
      · rw [Text.lastWord_of_isWord isWord] at noDigit ⊢
        rw [isWord]
        rw [List.all_cons, Bool.and_eq_true] at isWord
        have kept := Text.lastWord_of_isWord isWord.2
        obtain ⟨last, whole⟩ := inductionHypothesis fun other member =>
          noDigit other (List.mem_cons_of_mem _ (kept ▸ member))
        rw [isWord.2] at whole
        have textIsWord : (character :: text).all Text.isWordChar = true := by
          rw [List.all_cons, isWord.1, whole, Bool.and_self]
        rw [Text.lastWord_of_isWord whole, kept] at last
        rw [Text.lastWord_of_isWord textIsWord, textIsWord, last]
        exact ⟨rfl, rfl⟩
      · have later : Text.lastWord (character :: spliced) = Text.lastWord spliced := by
          rw [Text.lastWord, if_neg isWord]
        rw [later] at noDigit ⊢
        obtain ⟨last, whole⟩ := inductionHypothesis noDigit
        rw [List.all_cons, ← whole, ← List.all_cons] at isWord
        rw [Text.lastWord, if_neg isWord, List.all_cons, List.all_cons, whole]
        exact ⟨last, rfl⟩
  | @put dropped number text spliced _ inductionHypothesis =>
      obtain ⟨front, digit, same, isDigit⟩ := last_digit number
      have notWord : spliced.all Text.isWordChar = false := by
        refine Bool.eq_false_iff.2 fun isWord => ?_
        have ending : (digit :: spliced).all Text.isWordChar = true := by
          rw [List.all_cons, isWordChar_of_isDigit isDigit, isWord, Bool.and_self]
        rw [same, List.append_assoc, List.singleton_append] at noDigit
        have none := noDigit digit ((Text.suffix_lastWord ending front).subset List.mem_cons_self)
        rw [isDigit] at none
        cases none
      rw [Text.lastWord_append notWord] at noDigit ⊢
      obtain ⟨last, whole⟩ := inductionHypothesis noDigit
      rw [notWord] at whole
      rw [Text.lastWord_append whole, List.all_append, List.all_append, whole, notWord,
        Bool.and_false, Bool.and_false]
      exact ⟨last, rfl⟩

end Spliced

namespace Substitution

variable {substitution : Substitution}

private theorem fillSegments_append {run : List Char} (noClosing : ']' ∉ run) :
    ∀ (pending : Option (List Char)) (text : List Char) {filled : List Char},
      substitution.fillSegments (segmentsFrom pending text) = .ok filled →
        substitution.fillSegments (segmentsFrom pending (text ++ run)) = .ok (filled ++ run)
  | pending, [], filled, done => by
      rw [fillSegments_of_noClosing substitution pending [] List.not_mem_nil,
        List.append_nil] at done
      rw [List.nil_append, fillSegments_of_noClosing substitution pending run noClosing]
      cases done
      rfl
  | none, character :: rest, filled, done => by
      rw [List.cons_append, segmentsFrom]
      rw [segmentsFrom] at done
      split at done
      · rename_i opens
        rw [if_pos opens]
        exact fillSegments_append noClosing _ rest done
      · rename_i plain
        rw [if_neg plain, fillSegments]
        rw [fillSegments] at done
        split at done
        · rename_i others following
          cases done
          rw [fillSegments_append noClosing _ rest following]
          rfl
        · cases done
  | some inner, character :: rest, filled, done => by
      rw [List.cons_append, segmentsFrom]
      rw [segmentsFrom] at done
      split at done
      · rename_i closes
        rw [if_pos closes, fillSegments]
        rw [fillSegments] at done
        split at done
        · cases done
        rename_i first fillsFirst
        split at done
        · rename_i others following
          cases done
          rw [fillSegments_append noClosing _ rest following]
          simp
        · cases done
      · rename_i plain
        rw [if_neg plain]
        exact fillSegments_append noClosing _ rest done

private theorem fillWords_append {text run : List Char}
    (isWord : run.all Text.isWordChar = true) (nonempty : run ≠ [])
    (unbound : substitution.binds (String.ofList (Text.lastWord text)) = false)
    (unboundJoined : substitution.binds (String.ofList (Text.lastWord text ++ run)) = false) :
    substitution.fillWords (text ++ run) = substitution.fillWords text ++ run := by
  obtain ⟨pieces, cut, cutJoined⟩ := Text.exists_cutWords_append text
  have last : (Text.wordPiece (Text.lastWord text)).flatMap substitution.fillPiece =
      Text.lastWord text := by
    unfold Text.wordPiece
    split
    · rename_i empty
      rw [empty]
      rfl
    · rw [List.flatMap_singleton, fillPiece_of_unbound unbound]
  rw [fillWords, cutJoined run isWord nonempty, List.flatMap_append, List.flatMap_singleton,
    fillPiece_of_unbound unboundJoined, fillWords, cut, List.flatMap_append, last,
    List.append_assoc]

end Substitution

/-! ## Counters and suffixes -/

/-- A name without digits and without two underscores in a row, as the counter of a loop. -/
structure Name.IsCounter (name : String) : Prop where
  noDigit : name.toList.any Char.isDigit = false
  single : Name.beforeSuffix? name.toList = none

instance (name : String) : Decidable (Name.IsCounter name) :=
  decidable_of_iff (name.toList.any Char.isDigit = false ∧ Name.beforeSuffix? name.toList = none)
    ⟨fun ⟨noDigit, single⟩ => ⟨noDigit, single⟩, fun ⟨noDigit, single⟩ => ⟨noDigit, single⟩⟩

/-- A run of word characters that starts with two underscores. -/
structure Name.Tail where
  text : String
  isWord : text.toList.all Text.isWordChar = true
  opens : ∃ rest, text.toList = '_' :: '_' :: rest

/-- Put behind a clean name, a suffix is what is dropped again. -/
theorem Name.Tail.base_append (tail : Name.Tail) {name : String}
    (clean : Name.IsClean name.toList) : Name.base (name ++ tail.text) = name := by
  obtain ⟨rest, opens⟩ := tail.opens
  have found : Name.beforeSuffix? (name ++ tail.text).toList = some name.toList := by
    rw [String.toList_append, opens]
    exact Name.beforeSuffix?_append clean.single clean.closed rest
  obtain ⟨first, others, same⟩ := List.exists_cons_of_ne_nil clean.nonempty
  rw [Name.base, Name.withoutSuffix, found, same]
  exact (congrArg String.ofList same.symm).trans String.ofList_toList

def Name.EndsApart (counters : List String) (name : String) : Prop :=
  ∀ counter ∈ counters, Text.lastWord name.toList ≠ counter.toList

instance (counters : List String) (name : String) : Decidable (Name.EndsApart counters name) :=
  inferInstanceAs (Decidable (∀ counter ∈ counters, Text.lastWord name.toList ≠ counter.toList))

/-- A substitution that gives integers to some counters. -/
structure Substitution.Counts (counters : List String) (substitution : Substitution) : Prop where
  numeric : substitution.IsNumeric
  bound : ∀ key, substitution.binds key = true → key ∈ counters

namespace Substitution

variable {substitution : Substitution} {counters : List String}

theorem Counts.without (counts : Counts counters substitution) (names : List String) :
    Counts counters (substitution.without names) :=
  ⟨counts.numeric.without names, fun key bound => counts.bound key (binds_of_binds_without bound)⟩

private theorem endsApart_of_spliced {text spliced : List Char}
    (areCounters : ∀ counter ∈ counters, Name.IsCounter counter) (splices : Spliced text spliced)
    (apart : ∀ counter ∈ counters, Text.lastWord text ≠ counter.toList) :
    ∀ counter ∈ counters, Text.lastWord spliced ≠ counter.toList := by
  intro counter member same
  refine apart counter member ((splices.lastWord_eq fun character inside => ?_).1.trans same)
  rw [same] at inside
  exact Bool.eq_false_iff.2 (List.any_eq_false.1 (areCounters counter member).noDigit _ inside)

/-- Integers are filled into a name as they are filled into the name with a suffix, unless the name
ends with a counter. -/
theorem Counts.substitute_append (counts : Counts counters substitution)
    (areCounters : ∀ counter ∈ counters, Name.IsCounter counter) (tail : Name.Tail)
    {name filled : String} (apart : Name.EndsApart counters name)
    (fills : substitution.substitute name = .ok filled) :
    substitution.substitute (name ++ tail.text) = .ok (filled ++ tail.text) ∧
      Name.EndsApart counters filled := by
  obtain ⟨rest, opens⟩ := tail.opens
  have noClosing : ']' ∉ tail.text.toList :=
    Ending.notMem_of_isWordChar (List.all_eq_true.1 tail.isWord) (by decide)
  rw [substitute_eq] at fills ⊢
  obtain ⟨grouped, scanned, rfl⟩ := Outcome.map_eq_ok.1 fills
  have splices : Spliced name.toList grouped := by
    have spliced := spliced_fillSegments counts.numeric scanned
    rwa [characters_segments] at spliced
  have groupedApart := endsApart_of_spliced areCounters splices apart
  have unbound : substitution.binds (String.ofList (Text.lastWord grouped)) = false := by
    refine Bool.eq_false_iff.2 fun bound => ?_
    exact groupedApart _ (counts.bound _ bound) String.toList_ofList.symm
  have unboundJoined : substitution.binds
      (String.ofList (Text.lastWord grouped ++ tail.text.toList)) = false := by
    refine Bool.eq_false_iff.2 fun bound => ?_
    have single := (areCounters _ (counts.bound _ bound)).single
    rw [String.toList_ofList, opens] at single
    cases Name.beforeSuffix?_of_append single
  refine ⟨?_, fun counter member => ?_⟩
  · rw [String.toList_append, segments, fillSegments_append noClosing none name.toList scanned,
      Except.map, fillWords_append tail.isWord (by rw [opens]; exact List.cons_ne_nil _ _) unbound
      unboundJoined, String.ofList_append, String.ofList_toList]
  · rw [String.toList_ofList]
    exact endsApart_of_spliced areCounters (spliced_fillWords counts.numeric grouped) groupedApart
      counter member

end Substitution

end NetBlueprint
