import NetBlueprint.Proofs.Words

/-!
Contract: texts made of parts with blanks around them.

A part is any text. Which characters stand in it is not said here, so a part may even hold blanks;
what is said is only where blanks may be added.

Owns: putting spaced texts one behind the other and taking them apart, and trimming.

Does not own: what the parts are.
-/

namespace NetBlueprint.Text

/-- A text consists of parts, one behind the other, with any number of blanks in front of each and
behind the last. -/
inductive Spaced : List (List Char) → List Char → Prop where
  | nil {blanks : List Char} (blank : ∀ character ∈ blanks, isBlank character = true) :
      Spaced [] blanks
  | cons {blanks part rest : List Char} {parts : List (List Char)}
      (blank : ∀ character ∈ blanks, isBlank character = true) (spaced : Spaced parts rest) :
      Spaced (part :: parts) (blanks ++ (part ++ rest))

namespace Spaced

variable {parts later : List (List Char)} {part text rest : List Char}

theorem single (part : List Char) : Spaced [part] part := by
  have noBlank : ∀ character ∈ ([] : List Char), isBlank character = true := nofun
  have spaced : Spaced [part] ([] ++ (part ++ [])) := .cons noBlank (.nil noBlank)
  simpa using spaced

/-- Further blanks in front change nothing. -/
theorem blanks {front : List Char} (blank : ∀ character ∈ front, isBlank character = true)
    (spaced : Spaced parts text) : Spaced parts (front ++ text) := by
  cases spaced with
  | nil others => exact .nil (List.forall_mem_append.2 ⟨blank, others⟩)
  | cons others spaced =>
      rw [← List.append_assoc]
      exact .cons (List.forall_mem_append.2 ⟨blank, others⟩) spaced

theorem append (first : Spaced parts text) (second : Spaced later rest) :
    Spaced (parts ++ later) (text ++ rest) := by
  induction first with
  | nil blank => exact second.blanks blank
  | cons blank _ inductionHypothesis =>
      rw [List.append_assoc, List.append_assoc]
      exact .cons blank inductionHypothesis

/-- Parts without blanks between them are a text of these parts. -/
theorem flatten (parts : List (List Char)) : Spaced parts parts.flatten := by
  induction parts with
  | nil => exact .nil nofun
  | cons part parts inductionHypothesis => exact (single part).append inductionHypothesis

/-- A text is its trimmed self with blanks around it. -/
theorem of_trimmed (spaced : Spaced parts (trimmed text)) : Spaced parts text := by
  obtain ⟨front, back, blankFront, blankBack, same⟩ := exists_blanks_trimmed text
  rw [same]
  simpa using (spaced.append (.nil blankBack)).blanks blankFront

/-- A text consists of what is left of it without the blanks around it. -/
theorem trimmed_single (text : List Char) : Spaced [trimmed text] text :=
  of_trimmed (single _)

/-- Where one part ends and the next begins, a spaced text falls apart. -/
theorem exists_append (spaced : Spaced (parts ++ later) text) :
    ∃ before behind, text = before ++ behind ∧ Spaced parts before ∧ Spaced later behind := by
  induction parts generalizing text with
  | nil => exact ⟨[], text, rfl, .nil nofun, spaced⟩
  | cons part parts inductionHypothesis =>
      cases spaced with
      | @cons blanks _ rest _ blank following =>
          obtain ⟨before, behind, rfl, first, second⟩ := inductionHypothesis following
          exact ⟨blanks ++ (part ++ before), behind, by simp, .cons blank first, second⟩

/-- A spaced text falls apart around each of its parts. -/
theorem exists_around (parts : List (List Char)) (part : List Char)
    (spaced : Spaced (parts ++ part :: later) text) :
    ∃ before behind, text = before ++ (part ++ behind) ∧ Spaced parts before ∧
      Spaced later behind := by
  obtain ⟨before, behind, rfl, first, second⟩ := spaced.exists_append
  cases second with
  | @cons blanks _ rest _ blank following =>
      refine ⟨before ++ blanks, rest, by simp, ?_, following⟩
      simpa using first.append (.nil blank)

/-- A character stands in a part or is blank. -/
theorem mem {character : Char} (spaced : Spaced parts text) (member : character ∈ text) :
    isBlank character = true ∨ ∃ part ∈ parts, character ∈ part := by
  induction spaced with
  | nil blank => exact .inl (blank character member)
  | cons blank _ inductionHypothesis =>
      rw [List.mem_append, List.mem_append] at member
      rcases member with inBlanks | inPart | inRest
      · exact .inl (blank character inBlanks)
      · exact .inr ⟨_, List.mem_cons_self, inPart⟩
      · refine (inductionHypothesis inRest).imp_right ?_
        rintro ⟨part, among, inside⟩
        exact ⟨part, List.mem_cons_of_mem _ among, inside⟩

/-- Trimming leaves a part without blanks. -/
theorem trimmed_eq (spaced : Spaced [part] text)
    (notBlank : ∀ character ∈ part, isBlank character = false) : trimmed text = part := by
  cases spaced with
  | cons blank spaced =>
      cases spaced with
      | nil others =>
          exact trimmed_of_blanks blank others
            (fun first head => notBlank first (List.mem_of_mem_head? head))
            (fun last tail => notBlank last (List.mem_of_mem_getLast? tail))

end Spaced

end NetBlueprint.Text
