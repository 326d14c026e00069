import NetBlueprint.Substitution.Basic

/-!
Contract: what filling in bindings does to the end of a text.

A substitution changes bracket groups and bound words only. A text whose last word is not bound
therefore keeps its ending, whatever happens in front of it. This is how a hygiene suffix outlives
the substitutions that follow it.
-/

namespace NetBlueprint

/-- An ending that only the binding of its last word can change: a run of word characters, alone or
after one character that is neither a word character nor a closing bracket. -/
structure Ending where
  guard : Option Char
  run : List Char
  guarded : ∀ character, guard = some character →
    Text.isWordChar character = false ∧ character ≠ ']'
  isWord : ∀ character ∈ run, Text.isWordChar character = true
  nonempty : run ≠ []

namespace Ending

def characters (ending : Ending) : List Char :=
  ending.guard.toList ++ ending.run

theorem notMem_of_isWordChar {character : Char} {run : List Char}
    (isWord : ∀ other ∈ run, Text.isWordChar other = true)
    (isOther : Text.isWordChar character = false) : character ∉ run := by
  intro member
  rw [isWord character member] at isOther
  cases isOther

/-- An ending has no closing bracket. -/
theorem noClosing (ending : Ending) : ']' ∉ ending.characters := by
  intro member
  rcases List.mem_append.1 member with inGuard | inRun
  · exact (ending.guarded _ (Option.mem_toList.1 inGuard)).2 rfl
  · exact notMem_of_isWordChar ending.isWord (by decide) inRun

end Ending

namespace Substitution

/-! ## The first scan -/

/-- Without a closing bracket nothing is filled in by the first scan. -/
theorem fillSegments_of_noClosing (substitution : Substitution) :
    ∀ (pending : Option (List Char)) (text : List Char), ']' ∉ text →
      substitution.fillSegments (segmentsFrom pending text) =
        .ok ((pending.map fun inner => '[' :: inner.reverse).getD [] ++ text)
  | none, [], _ => rfl
  | some inner, [], _ => by simp [segmentsFrom, fillSegments]
  | none, character :: rest, noClosing => by
      rw [List.mem_cons, not_or] at noClosing
      rw [segmentsFrom]
      split
      · rename_i opens
        rw [fillSegments_of_noClosing substitution (some []) rest noClosing.2, opens]
        rfl
      · rw [fillSegments, fillSegments_of_noClosing substitution none rest noClosing.2]
        rfl
  | some inner, character :: rest, noClosing => by
      rw [List.mem_cons, not_or] at noClosing
      rw [segmentsFrom, if_neg (Ne.symm noClosing.1),
        fillSegments_of_noClosing substitution (some (character :: inner)) rest noClosing.2]
      simp

private theorem fillSegments_ending (substitution : Substitution) {last : List Char}
    (noClosing : ']' ∉ last) :
    ∀ (pending : Option (List Char)) (front : List Char) {filled : List Char},
      substitution.fillSegments (segmentsFrom pending (front ++ last)) = .ok filled →
        last <:+ filled
  | pending, [], filled, done => by
      rw [List.nil_append, fillSegments_of_noClosing substitution pending last noClosing] at done
      cases done
      exact List.suffix_append _ _
  | none, character :: rest, filled, done => by
      rw [List.cons_append, segmentsFrom] at done
      split at done
      · exact fillSegments_ending substitution noClosing _ rest done
      · rw [fillSegments] at done
        split at done
        · rename_i others following
          cases done
          exact (fillSegments_ending substitution noClosing _ rest following).trans
            (List.suffix_append _ _)
        · cases done
  | some inner, character :: rest, filled, done => by
      rw [List.cons_append, segmentsFrom] at done
      split at done
      · rw [fillSegments] at done
        split at done
        · cases done
        split at done
        · rename_i others following
          cases done
          exact (fillSegments_ending substitution noClosing _ rest following).trans
            (List.suffix_append _ _)
        · cases done
      · exact fillSegments_ending substitution noClosing _ rest done

/-! ## The second scan -/

/-- A run of word characters is one piece. -/
theorem cutWords_of_isWord :
    ∀ {run : List Char}, (∀ character ∈ run, Text.isWordChar character = true) → run ≠ [] →
      Text.cutWords run = [.word run]
  | [], _, nonempty => absurd rfl nonempty
  | [character], isWord, _ => by
      have first := isWord character List.mem_cons_self
      simp [Text.cutWords, Text.Piece.extend, first]
  | character :: next :: rest, isWord, _ => by
      have first := isWord character List.mem_cons_self
      have following := cutWords_of_isWord
        (fun other member => isWord other (List.mem_cons_of_mem _ member))
        (List.cons_ne_nil next rest)
      rw [Text.cutWords, following]
      simp [Text.Piece.extend, first]

theorem extend_append (character : Char) (piece : Text.Piece)
    (pieces last : List Text.Piece) :
    Text.Piece.extend character (piece :: pieces ++ last) =
      Text.Piece.extend character (piece :: pieces) ++ last := by
  unfold Text.Piece.extend
  split
  · cases piece with
    | word characters => rfl
    | other other => rfl
  · rfl

private def lengthened (more : List Char) : Text.Piece → Text.Piece
  | .word characters => .word (more ++ characters)
  | .other character => .other character

private theorem cutWords_append {text : List Char} {first : Text.Piece} {rest : List Text.Piece}
    (cut : Text.cutWords text = first :: rest) :
    ∀ front : List Char, ∃ pieces more,
      Text.cutWords (front ++ text) = pieces ++ lengthened more first :: rest
  | [] => ⟨[], [], by cases first <;> exact cut⟩
  | character :: front => by
      obtain ⟨pieces, more, following⟩ := cutWords_append cut front
      rw [List.cons_append, Text.cutWords, following]
      cases pieces with
      | cons piece pieces => exact ⟨_, more, extend_append character piece pieces _⟩
      | nil =>
          by_cases isWordChar : Text.isWordChar character = true
          · cases first with
            | word characters =>
                exact ⟨[], character :: more, by simp [Text.Piece.extend, isWordChar, lengthened]⟩
            | other =>
                exact ⟨[.word [character]], more,
                  by simp [Text.Piece.extend, isWordChar, lengthened]⟩
          · exact ⟨[.other character], more, by simp [Text.Piece.extend, isWordChar]⟩

theorem fillPiece_of_unbound {substitution : Substitution} {word : List Char}
    (unbound : substitution.binds (String.ofList word) = false) :
    substitution.fillPiece (.word word) = word := by
  rw [binds, Option.isSome_eq_false_iff, Option.isNone_iff_eq_none] at unbound
  simp only [fillPiece, unbound]

private theorem fillWords_ending {substitution : Substitution} {ending : Ending}
    (unbound : ∀ key, substitution.binds key = true → ¬ ending.run <:+ key.toList)
    (front : List Char) :
    ending.characters <:+ substitution.fillWords (front ++ ending.characters) := by
  have free (more : List Char) :
      substitution.binds (String.ofList (more ++ ending.run)) = false := by
    refine Bool.eq_false_iff.2 fun bound => unbound _ bound ?_
    rw [String.toList_ofList]
    exact List.suffix_append _ _
  unfold fillWords Ending.characters
  cases guardIs : ending.guard with
  | none =>
      obtain ⟨pieces, more, cut⟩ :=
        cutWords_append (cutWords_of_isWord ending.isWord ending.nonempty) front
      rw [lengthened] at cut
      rw [Option.toList_none, List.nil_append, cut, List.flatMap_append, List.flatMap_singleton,
        fillPiece_of_unbound (free more)]
      exact (List.suffix_append _ _).trans (List.suffix_append _ _)
  | some guard =>
      have guarded : Text.cutWords (guard :: ending.run) = [.other guard, .word ending.run] := by
        rw [Text.cutWords, cutWords_of_isWord ending.isWord ending.nonempty, Text.Piece.extend,
          (ending.guarded guard guardIs).1]
        rfl
      obtain ⟨pieces, more, cut⟩ := cutWords_append guarded front
      rw [lengthened] at cut
      have last := fillPiece_of_unbound (free [])
      rw [List.nil_append] at last
      rw [Option.toList_some, List.singleton_append, cut, List.flatMap_append, List.flatMap_cons,
        List.flatMap_singleton, last]
      exact List.suffix_append _ _

/-! ## Both scans -/

/-- Filling in keeps an ending whose last word is not bound. -/
theorem ending_of_substitute {substitution : Substitution} {ending : Ending}
    (unbound : ∀ key, substitution.binds key = true → ¬ ending.run <:+ key.toList)
    {text filled : String} (ends : ending.characters <:+ text.toList)
    (done : substitution.substitute text = .ok filled) : ending.characters <:+ filled.toList := by
  unfold substitute at done
  split at done
  · cases done
    exact ends
  · split at done
    · rename_i grouped scanned
      cases done
      obtain ⟨front, whole⟩ := ends
      rw [← whole, segments] at scanned
      obtain ⟨filledFront, rfl⟩ :=
        fillSegments_ending substitution ending.noClosing none front scanned
      rw [String.toList_ofList]
      exact fillWords_ending unbound filledFront
    · cases done

end Substitution

end NetBlueprint
