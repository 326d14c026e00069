import NetBlueprint.Proofs.Substitution.Ending
import NetBlueprint.Proofs.Words

/-!
Contract: what the two scans make of a text.

A bracket group around a parameter becomes what the parameter is bound to, and the second scan then
goes over that text as well.
-/

namespace NetBlueprint

namespace Text

private theorem cutWords_append_other {character : Char} (isOther : isWordChar character = false)
    (rest : List Char) : ∀ front : List Char,
      cutWords (front ++ character :: rest) = cutWords front ++ .other character :: cutWords rest
  | [] => by simp [cutWords, Piece.extend, isOther]
  | first :: front => by
      rw [List.cons_append, cutWords, cutWords_append_other isOther rest front, cutWords]
      cases cutWords front with
      | nil => cases same : isWordChar first <;> simp [Piece.extend, same]
      | cons piece pieces => exact Substitution.extend_append first piece pieces _

/-- The characters of a word of a text stand in the text. -/
theorem mem_of_mem_words {text word : List Char} {character : Char}
    (isWord : word ∈ words text) (member : character ∈ word) : character ∈ text := by
  obtain ⟨piece, isPiece, same⟩ := List.mem_filterMap.1 isWord
  rw [← characters_cutWords text]
  refine List.mem_flatMap.2 ⟨piece, isPiece, ?_⟩
  cases piece with
  | other _ => cases same
  | word characters =>
      cases same
      exact member

/-- A character outside every word parts the words before it from those after it. -/
theorem words_append_other {character : Char} (isOther : isWordChar character = false)
    (front rest : List Char) : words (front ++ character :: rest) = words front ++ words rest := by
  rw [words, cutWords_append_other isOther, List.filterMap_append]
  rfl

/-- Blanks behind a text add no words. -/
theorem words_append_blanks {blanks : List Char}
    (blank : ∀ character ∈ blanks, isBlank character = true) (front : List Char) :
    words (front ++ blanks) = words front := by
  induction blanks generalizing front with
  | nil => rw [List.append_nil]
  | cons first others inductionHypothesis =>
      rw [List.forall_mem_cons] at blank
      have following := inductionHypothesis blank.2 []
      rw [List.nil_append] at following
      rw [words_append_other (isWordChar_of_isBlank blank.1), following]
      exact List.append_nil _

private theorem words_blanks_append {blanks : List Char}
    (blank : ∀ character ∈ blanks, isBlank character = true) (rest : List Char) :
    words (blanks ++ rest) = words rest := by
  induction blanks with
  | nil => rfl
  | cons first others inductionHypothesis =>
      rw [List.forall_mem_cons] at blank
      exact (words_append_other (isWordChar_of_isBlank blank.1) [] _).trans
        (inductionHypothesis blank.2)

/-- Blanks at the ends belong to no word. -/
theorem words_trimmed (text : List Char) : words (trimmed text) = words text := by
  obtain ⟨leading, isLeading, cut⟩ := exists_blanks_append_skipBlank text
  obtain ⟨trailing, isTrailing, same⟩ := exists_blanks_append_skipBlank (skipBlank text).reverse
  have whole : skipBlank text = trimmed text ++ trailing.reverse := by
    rw [trimmed, ← List.reverse_append, ← same, List.reverse_reverse]
  have blank : ∀ character ∈ trailing.reverse, isBlank character = true :=
    fun character member => isTrailing character (List.mem_reverse.1 member)
  calc words (trimmed text) = words (skipBlank text) := by rw [whole, words_append_blanks blank]
    _ = words text := by
      conv_rhs => rw [cut]
      exact (words_blanks_append isLeading _).symm

/-- A run of word characters is one word. -/
theorem words_of_isWord {run : List Char} (isWord : ∀ character ∈ run, isWordChar character = true)
    (nonempty : run ≠ []) : words run = [run] := by
  rw [words, Substitution.cutWords_of_isWord isWord nonempty]
  rfl

end Text

namespace Substitution

/-! ## The first scan, part by part -/

/-- Characters outside brackets are left alone by the first scan. -/
theorem fillSegments_plain (substitution : Substitution) (characters : List Char)
    (rest : List Segment) : substitution.fillSegments (.plain characters :: rest) =
      (substitution.fillSegments rest).map (characters ++ ·) := by
  rw [fillSegments]
  cases substitution.fillSegments rest <;> rfl

/-- A bracket group is filled in by itself. -/
theorem fillSegments_group (substitution : Substitution) (inner : List Char)
    (rest : List Segment) : substitution.fillSegments (.group inner :: rest) =
      substitution.fillGroup inner >>= fun first =>
        (substitution.fillSegments rest).map (first ++ ·) := by
  rw [fillSegments]
  cases substitution.fillGroup inner with
  | error => rfl
  | ok first => cases substitution.fillSegments rest <;> rfl

/-- A run without brackets is left alone by the first scan. -/
theorem fillSegments_run (substitution : Substitution) {run : List Char}
    (noOpening : '[' ∉ run) (rest : List Char) :
    substitution.fillSegments (segmentsFrom none (run ++ rest)) =
      (substitution.fillSegments (segmentsFrom none rest)).map (run ++ ·) := by
  induction run with
  | nil =>
      rw [List.nil_append]
      cases substitution.fillSegments (segmentsFrom none rest) <;> rfl
  | cons first run inductionHypothesis =>
      obtain ⟨apart, noOpening⟩ := not_or.1 (List.mem_cons.not.1 noOpening)
      rw [List.cons_append, segmentsFrom, if_neg (Ne.symm apart), fillSegments_plain,
        inductionHypothesis noOpening]
      cases substitution.fillSegments (segmentsFrom none rest) <;> rfl

theorem segmentsFrom_run {run : List Char} (noClosing : ']' ∉ run) :
    ∀ inner rest : List Char,
      segmentsFrom (some inner) (run ++ rest) =
        segmentsFrom (some (run.reverse ++ inner)) rest := by
  induction run with
  | nil => exact fun _ _ => rfl
  | cons first run inductionHypothesis =>
      intro inner rest
      obtain ⟨apart, noClosing⟩ := not_or.1 (List.mem_cons.not.1 noClosing)
      rw [List.cons_append, segmentsFrom, if_neg (Ne.symm apart), inductionHypothesis noClosing,
        List.reverse_cons, List.append_assoc, List.singleton_append]

/-! ## The second scan, piece by piece -/

/-- A character outside every word parts the second scan. -/
theorem fillWords_append_other {substitution : Substitution} {separator : Char}
    (isOther : Text.isWordChar separator = false) (front rest : List Char) :
    substitution.fillWords (front ++ separator :: rest) =
      substitution.fillWords front ++ separator :: substitution.fillWords rest := by
  rw [fillWords, Text.cutWords_append_other isOther, List.flatMap_append, List.flatMap_cons]
  rfl

/-- A run of word characters is looked up as a whole. -/
theorem fillWords_of_isWord {substitution : Substitution} {run : List Char}
    (isWord : ∀ character ∈ run, Text.isWordChar character = true) (nonempty : run ≠ []) :
    substitution.fillWords run = substitution.fillPiece (.word run) := by
  rw [fillWords, cutWords_of_isWord isWord nonempty, List.flatMap_singleton]

/-! ## Texts that a binding leaves alone -/

/-- The second scan leaves a text alone in which no word is bound. -/
theorem fillWords_of_unbound {substitution : Substitution} {text : List Char}
    (unbound : ∀ word ∈ Text.words text, substitution.binds (String.ofList word) = false) :
    substitution.fillWords text = text := by
  have each : ∀ piece ∈ Text.cutWords text,
      substitution.fillPiece piece = Text.Piece.characters piece := by
    intro piece member
    cases piece with
    | other character => rfl
    | word characters =>
        exact fillPiece_of_unbound
          (unbound characters (List.mem_filterMap.2 ⟨_, member, rfl⟩))
  rw [fillWords, List.flatMap_def, List.map_congr_left each, ← List.flatMap_def,
    Text.characters_cutWords]

private theorem fillSegments_of_unbound (substitution : Substitution) :
    ∀ (text front : List Char) (pending : Option (List Char)),
      (∀ word ∈ Text.words ((pending.map List.reverse).getD front ++ text),
        substitution.binds (String.ofList word) = false) →
      substitution.fillSegments (segmentsFrom pending text) =
        .ok ((pending.map fun inner => '[' :: inner.reverse).getD [] ++ text)
  | [], _, none, _ => rfl
  | [], _, some inner, _ => by simp [segmentsFrom, fillSegments]
  | character :: rest, front, none, unbound => by
      rw [segmentsFrom]
      split
      · rename_i opens
        rw [opens] at unbound ⊢
        rw [Option.map_none, Option.getD_none, Text.words_append_other (by decide)] at unbound
        rw [fillSegments_of_unbound substitution rest [] (some [])
          fun word member => unbound word (List.mem_append_right _ member)]
        rfl
      · rw [fillSegments, fillSegments_of_unbound substitution rest (front ++ [character]) none]
        · rfl
        · intro word member
          refine unbound word ?_
          rwa [Option.map_none, Option.getD_none, List.append_assoc] at member
  | character :: rest, front, some inner, unbound => by
      rw [segmentsFrom]
      split
      · rename_i closes
        rw [closes] at unbound ⊢
        rw [Option.map_some, Option.getD_some, Text.words_append_other (by decide)] at unbound
        have unmentioned : substitution.mentions inner.reverse = false := by
          rw [mentions, List.any_eq_false]
          intro word member
          rw [unbound word (List.mem_append_left _ member)]
          exact Bool.false_ne_true
        have kept : substitution.fillGroup inner.reverse = .ok ('[' :: inner.reverse ++ [']']) := by
          rw [fillGroup, unmentioned]
          rfl
        rw [fillSegments, kept, fillSegments_of_unbound substitution rest [] none
          fun word member => unbound word (List.mem_append_right _ member)]
        simp
      · rw [fillSegments_of_unbound substitution rest front (some (character :: inner))]
        · simp
        · intro word member
          refine unbound word ?_
          simpa using member

private theorem fillSegments_segments_of_unbound {substitution : Substitution} {text : List Char}
    (unbound : ∀ word ∈ Text.words text, substitution.binds (String.ofList word) = false) :
    substitution.fillSegments (segments text) = .ok text :=
  fillSegments_of_unbound substitution text [] none unbound

/-- A substitution is one scan over the bracket groups and one over the words. Without bindings
neither changes anything, so the table needs no case of its own. -/
theorem substitute_eq (substitution : Substitution) (text : String) :
    substitution.substitute text = (substitution.fillSegments (segments text.toList)).map
      fun scanned => String.ofList (substitution.fillWords scanned) := by
  rw [substitute]
  split
  · rename_i noBindings
    have unbound : ∀ word ∈ Text.words text.toList,
        substitution.binds (String.ofList word) = false := by
      intro word _
      rw [binds, value?, List.isEmpty_iff.1 noBindings]
      rfl
    rw [fillSegments_segments_of_unbound unbound, Except.map, fillWords_of_unbound unbound,
      String.ofList_toList]
  · cases substitution.fillSegments (segments text.toList) <;> rfl

/-- A text without bound words stays as it is. -/
theorem substitute_of_unbound {substitution : Substitution} {text : String}
    (unbound : ∀ word ∈ Text.words text.toList,
      substitution.binds (String.ofList word) = false) :
    substitution.substitute text = .ok text := by
  rw [substitute_eq, fillSegments_segments_of_unbound unbound, Except.map,
    fillWords_of_unbound unbound, String.ofList_toList]

/-- Without brackets only the second scan has an effect. -/
theorem substitute_of_noClosing {substitution : Substitution} {text : String}
    (noClosing : ']' ∉ text.toList) :
    substitution.substitute text = .ok (String.ofList (substitution.fillWords text.toList)) := by
  rw [substitute_eq, segments, fillSegments_of_noClosing substitution none text.toList noClosing]
  rfl

/-! ## Parameters in brackets -/

private theorem segmentsFrom_group {inner : List Char} (noClosing : ']' ∉ inner) :
    ∀ pending : List Char,
      segmentsFrom (some pending) (inner ++ [']']) = [.group (pending.reverse ++ inner)] := by
  induction inner with
  | nil =>
      intro pending
      simp [segmentsFrom]
  | cons character rest inductionHypothesis =>
      intro pending
      rw [List.mem_cons, not_or] at noClosing
      rw [List.cons_append, segmentsFrom, if_neg (Ne.symm noClosing.1),
        inductionHypothesis noClosing.2]
      simp

/-- A bracket group around a bound identifier becomes what it is bound to, and the bound words of
that are replaced in turn. -/
theorem substitute_parameter {substitution : Substitution} {parameter value : String}
    (identifier : Text.isIdentifier parameter.toList = true)
    (bound : substitution.value? parameter = some value) :
    substitution.substitute ("[" ++ parameter ++ "]") =
      .ok (String.ofList (substitution.fillWords value.toList)) := by
  obtain ⟨nonempty, isWord⟩ := Text.isWord_of_isIdentifier identifier
  have noClosing : ']' ∉ parameter.toList :=
    Ending.notMem_of_isWordChar isWord (by decide)
  have whole : ("[" ++ parameter ++ "]").toList = '[' :: (parameter.toList ++ [']']) := by
    simp [String.toList_append]
  have mentions : substitution.mentions parameter.toList = true := by
    have binds : substitution.binds parameter = true := by rw [binds, bound]; rfl
    have cut : Text.words parameter.toList = [parameter.toList] := by
      rw [Text.words, cutWords_of_isWord isWord nonempty]
      rfl
    rw [Substitution.mentions, cut, List.any_cons, String.ofList_toList, binds, Bool.true_or]
  have filled : substitution.fillGroup parameter.toList = .ok value.toList := by
    rw [fillGroup, if_pos mentions, Text.trimmed_of_isWord isWord]
    dsimp only
    rw [String.ofList_toList, bound]
  rw [substitute_eq, whole, segments, segmentsFrom, if_pos rfl, segmentsFrom_group noClosing]
  simp [fillSegments, filled, Except.map]

end Substitution

end NetBlueprint
