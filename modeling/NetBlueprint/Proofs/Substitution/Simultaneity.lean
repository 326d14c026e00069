import NetBlueprint.Proofs.Substitution.Filling
import NetBlueprint.Proofs.Substitution.Scanning

/-!
Contract: what becomes of a value that is spliced into a text.

The first scan puts a value in the place of a bracketed name, and the second scan goes over the
result. A bare name is replaced by the second scan alone. So both give the value as it was bound
exactly when the second scan leaves the value alone, which it does when every bound word of the
value is bound to itself.

Owns: texts that the second scan leaves alone, and substitutions built one binding after the other.
-/

namespace NetBlueprint

namespace Text

/-- A text is a word, or a word and a character outside every word in front of another text. -/
theorem induction_on_words {motive : List Char → Prop}
    (word : ∀ run, (∀ character ∈ run, isWordChar character = true) → motive run)
    (parted : ∀ run separator rest, (∀ character ∈ run, isWordChar character = true) →
      isWordChar separator = false → motive rest → motive (run ++ separator :: rest))
    (text : List Char) : motive text := by
  have isRun : ∀ character ∈ text.takeWhile isWordChar, isWordChar character = true :=
    List.all_eq_true.1 List.all_takeWhile
  rcases remaining : text.dropWhile isWordChar with _ | ⟨separator, rest⟩
  · have whole := List.takeWhile_append_dropWhile (p := isWordChar) (l := text)
    rw [remaining, List.append_nil] at whole
    exact whole ▸ word _ isRun
  · have isOther : isWordChar separator = false := by
      have stops := List.head_dropWhile_not isWordChar (remaining ▸ List.cons_ne_nil _ _)
      simpa only [remaining, List.head_cons] using stops
    have shorter : rest.length < text.length := by
      have length := (List.dropWhile_sublist (p := isWordChar) (l := text)).length_le
      rw [remaining, List.length_cons] at length
      exact length
    have whole := List.takeWhile_append_dropWhile (p := isWordChar) (l := text)
    rw [remaining] at whole
    rw [← whole]
    exact parted _ _ _ isRun isOther (induction_on_words word parted rest)
termination_by text.length

/-- How many characters of a text are outside every word. -/
def partings (text : List Char) : Nat :=
  text.countP fun character => !isWordChar character

private theorem partings_eq_zero_iff {text : List Char} :
    partings text = 0 ↔ ∀ character ∈ text, isWordChar character = true := by
  simp [partings, List.countP_eq_zero]

private theorem partings_append_other {separator : Char} (isOther : isWordChar separator = false)
    (front rest : List Char) :
    partings (front ++ separator :: rest) = partings front + 1 + partings rest := by
  rw [partings, List.countP_append, List.countP_cons_of_pos (by simp [isOther]), partings, partings]
  omega

/-- The word that a text starts with, and what follows it, are determined. -/
theorem eq_of_append_other {run word rest last : List Char} {separator : Char}
    (isOther : isWordChar separator = false)
    (isRun : ∀ character ∈ run, isWordChar character = true)
    (isWord : ∀ character ∈ word, isWordChar character = true)
    (same : run ++ separator :: rest = word ++ separator :: last) : run = word ∧ rest = last := by
  have cut {front back : List Char} (isFront : ∀ character ∈ front, isWordChar character = true) :
      (front ++ separator :: back).takeWhile isWordChar = front := by
    rw [List.takeWhile_append_of_pos isFront, List.takeWhile_cons, isOther]
    simp
  have front : run = word := by rw [← cut isRun, same, cut isWord]
  subst front
  exact ⟨rfl, (List.cons.inj (List.append_cancel_left same)).2⟩

end Text

namespace Substitution

open Text

variable {substitution : Substitution}

/-! ## Texts that the second scan leaves alone -/

/-- Every bound word of a text is bound to itself. -/
def Spares (substitution : Substitution) (text : List Char) : Prop :=
  ∀ word ∈ words text, ∀ value ∈ substitution.value? (String.ofList word), value.toList = word

instance (substitution : Substitution) (text : List Char) : Decidable (substitution.Spares text) :=
  inferInstanceAs (Decidable (∀ word ∈ words text,
    ∀ value ∈ substitution.value? (String.ofList word), value.toList = word))

private theorem spares_append_other {separator : Char} (isOther : isWordChar separator = false)
    (front rest : List Char) : substitution.Spares (front ++ separator :: rest) ↔
      substitution.Spares front ∧ substitution.Spares rest := by
  rw [Spares, words_append_other isOther, List.forall_mem_append]
  rfl

/-- The second scan loses no character outside the words. -/
theorem partings_le_fillWords (text : List Char) :
    partings text ≤ partings (substitution.fillWords text) := by
  induction text using induction_on_words with
  | word run isWord => rw [partings_eq_zero_iff.2 isWord]; exact Nat.zero_le _
  | parted run separator rest isWord isOther inductionHypothesis =>
      rw [fillWords_append_other isOther, partings_append_other isOther,
        partings_append_other isOther, partings_eq_zero_iff.2 isWord]
      omega

private theorem fillPiece_eq_self_iff (word : List Char) :
    substitution.fillPiece (.word word) = word ↔
      ∀ value ∈ substitution.value? (String.ofList word), value.toList = word := by
  rw [fillPiece]
  split
  · rename_i value found
    simp [found]
  · rename_i unbound
    simp [unbound]

private theorem fillWords_run_eq_self_iff {run : List Char}
    (isWord : ∀ character ∈ run, isWordChar character = true) :
    substitution.fillWords run = run ↔ substitution.Spares run := by
  by_cases empty : run = []
  · subst empty
    exact iff_of_true rfl fun _ member => absurd member List.not_mem_nil
  · rw [fillWords_of_isWord isWord empty, fillPiece_eq_self_iff, Spares,
      words_of_isWord isWord empty, List.forall_mem_singleton]

/-- The second scan leaves a text alone exactly when every bound word of it is bound to itself. -/
theorem fillWords_eq_self_iff (text : List Char) :
    substitution.fillWords text = text ↔ substitution.Spares text := by
  induction text using induction_on_words with
  | word run isWord => exact fillWords_run_eq_self_iff isWord
  | parted run separator rest isWord isOther inductionHypothesis =>
      rw [fillWords_append_other isOther, spares_append_other isOther,
        ← fillWords_run_eq_self_iff isWord, ← inductionHypothesis]
      constructor
      · intro same
        -- Nothing outside the words can be added in front, since nothing is lost behind.
        have counted := congrArg partings same
        rw [partings_append_other isOther, partings_append_other isOther,
          partings_eq_zero_iff.2 isWord] at counted
        have kept : partings rest ≤ partings (substitution.fillWords rest) :=
          partings_le_fillWords rest
        have none : partings (substitution.fillWords run) = 0 := by omega
        exact eq_of_append_other isOther (partings_eq_zero_iff.1 none) isWord same
      · rintro ⟨first, second⟩
        rw [first, second]

/-! ## Bindings one after the other -/

/-- The substitution that a sequence of bindings builds. -/
def ofBindings (bindings : List (String × String)) : Substitution :=
  bindings.foldl (fun substitution entry => substitution.bind entry.1 entry.2) empty

private theorem exists_of_binds_ofBindings {bindings : List (String × String)} {name : String}
    (bound : (ofBindings bindings).binds name = true) : ∃ value, (name, value) ∈ bindings :=
  (binds_foldl bound).resolve_right fun absent => by cases absent

/-- A bare name becomes what it is bound to. -/
theorem substitute_bare {name value : String}
    (identifier : isIdentifier name.toList = true)
    (bound : substitution.value? name = some value) :
    substitution.substitute name = .ok value := by
  obtain ⟨nonempty, isWord⟩ := isWord_of_isIdentifier identifier
  have filled : substitution.fillWords name.toList = value.toList := by
    rw [fillWords_of_isWord isWord nonempty, fillPiece, String.ofList_toList, bound]
  rw [substitute_of_noClosing (Ending.notMem_of_isWordChar isWord (by decide)), filled,
    String.ofList_toList]

/-- A name stands for its value, bare as in brackets, exactly when every bound word of the value is
bound to itself; bare it always does. -/
theorem bracketed_value_kept_iff {bindings : List (String × String)}
    (identifiers : ∀ entry ∈ bindings, isIdentifier entry.1.toList = true) {name value : String}
    (bound : (ofBindings bindings).value? name = some value) :
    (ofBindings bindings).substitute name = .ok value ∧
      ((ofBindings bindings).substitute ("[" ++ name ++ "]") = .ok value ↔
        (ofBindings bindings).Spares value.toList) := by
  have identifier : isIdentifier name.toList = true := by
    obtain ⟨other, member⟩ := exists_of_binds_ofBindings (by rw [binds, bound]; rfl)
    exact identifiers _ member
  refine ⟨substitute_bare identifier bound, ?_⟩
  rw [substitute_parameter identifier bound, Except.ok.injEq, ← String.toList_inj,
    String.toList_ofList, fillWords_eq_self_iff]

/-- A value whose only bound word was bound to itself in the end is spliced in as it is. -/
theorem bracketed_value_kept :
    (∀ entry ∈ [("p", "h p"), ("p", "p"), ("q", "h_p.p")],
        isIdentifier (Prod.fst entry).toList = true) ∧
      (ofBindings [("p", "h p"), ("p", "p"), ("q", "h_p.p")]).value? "q" = some "h_p.p" ∧
      (ofBindings [("p", "h p"), ("p", "p"), ("q", "h_p.p")]).substitute "[q]" =
        .ok "h_p.p" := by
  have identifiers : ∀ entry ∈ [("p", "h p"), ("p", "p"), ("q", "h_p.p")],
      isIdentifier (Prod.fst entry).toList = true := by decide
  have bound : (ofBindings [("p", "h p"), ("p", "p"), ("q", "h_p.p")]).value? "q" =
      some "h_p.p" := by decide
  exact ⟨identifiers, bound, (bracketed_value_kept_iff identifiers bound).2.2 (by decide)⟩

/-- A layer name that is passed for one parameter and is the name of another is replaced by what is
passed for the other. -/
theorem bracketed_value_filled_again :
    (ofBindings [("p", "q"), ("q", "r")]).value? "p" = some "q" ∧
      (ofBindings [("p", "q"), ("q", "r")]).substitute "p" = .ok "q" ∧
      (ofBindings [("p", "q"), ("q", "r")]).substitute "[p]" = .ok "r" := by
  decide

end Substitution

end NetBlueprint
