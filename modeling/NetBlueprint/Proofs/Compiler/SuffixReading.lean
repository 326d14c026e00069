import Mathlib.Data.List.Induction
import NetBlueprint.Compiler.Suffix
import NetBlueprint.Proofs.Substitution.Ending

/-!
Contract: reading hygiene suffixes back from the end of a name.

A suffix is a label between underscores and a mark of hexadecimal digits. The mark of the last
suffix of a name is what follows its last underscore, so suffixes can be taken off one by one. A
name that ends with the suffix of a template call and the suffixes of the branches below it shares
its text with the name of another call only if the two marks are the same.
-/

namespace NetBlueprint.Suffix

def markDigits : List Char := "0123456789abcdef".toList

def IsMark (mark : List Char) : Prop :=
  mark ≠ [] ∧ ∀ digit ∈ mark, digit ∈ markDigits

theorem isWordChar_of_markDigit {digit : Char} (isDigit : digit ∈ markDigits) :
    Text.isWordChar digit = true := by
  have all : markDigits.all Text.isWordChar = true := by decide
  exact List.all_eq_true.1 all digit isDigit

private theorem ne_underscore_of_markDigit {digit : Char} (isDigit : digit ∈ markDigits) :
    digit ≠ '_' := by
  rintro rfl
  exact absurd isDigit (by decide)

theorem IsMark.noUnderscore {mark : List Char} (isMark : IsMark mark) : '_' ∉ mark :=
  fun member => ne_underscore_of_markDigit (isMark.2 _ member) rfl

private theorem toDigits_markDigits (value : Nat) :
    ∀ digit ∈ Nat.toDigits 16 value, digit ∈ markDigits := by
  have digitChars : ∀ value < 16, Nat.digitChar value ∈ markDigits := by decide
  induction value using Nat.strongRecOn with
  | ind value inductionHypothesis =>
      intro digit member
      rw [Nat.toDigits_eq_if (by decide)] at member
      split at member
      · rename_i small
        rw [List.mem_singleton.1 member]
        exact digitChars value small
      · rename_i large
        rcases List.mem_append.1 member with front | last
        · exact inductionHypothesis (value / 16) (by omega) digit front
        · rw [List.mem_singleton.1 last]
          exact digitChars _ (Nat.mod_lt value (by decide))

/-- A number in hexadecimal is a mark. -/
theorem isMark_hexText (width value : Nat) : IsMark (hexText width value).toList := by
  rw [hexText, String.toList_ofList]
  constructor
  · intro empty
    exact Nat.toDigits_ne_nil (List.append_eq_nil_iff.1 empty).2
  · intro digit member
    rcases List.mem_append.1 member with zero | significant
    · rw [(List.mem_replicate.1 zero).2]
      decide
    · exact toDigits_markDigits value digit significant

def spelling (label mark : List Char) : List Char :=
  '_' :: '_' :: label ++ '_' :: mark

/-- Every suffix is spelled with its label and a mark. -/
theorem toList_suffixText (label : String) (attempt : Nat) (word : UInt32) :
    ∃ mark, IsMark mark ∧ (suffixText label attempt word).toList = spelling label.toList mark := by
  unfold suffixText
  split
  · refine ⟨_, isMark_hexText 4 (word.toNat % 65536), ?_⟩
    simp [String.toList_append, spelling]
  · refine ⟨_, isMark_hexText 8 word.toNat, ?_⟩
    simp [String.toList_append, spelling]

/-- The mark of a suffix: what follows its last underscore. -/
def markOf (suffix : String) : List Char :=
  (suffix.toList.reverse.takeWhile fun character => character != '_').reverse

/-- The mark of a suffix can be read off its spelling. -/
theorem markOf_of_spelled {suffix : String} {label mark : List Char} (isMark : IsMark mark)
    (spelled : suffix.toList = spelling label mark) : markOf suffix = mark := by
  have noUnderscore : ∀ character ∈ mark.reverse, (character != '_') = true := by
    intro character member
    rw [bne_iff_ne]
    rintro rfl
    exact isMark.noUnderscore (List.mem_reverse.1 member)
  rw [markOf, spelled, spelling, List.reverse_append, List.reverse_cons, List.append_assoc,
    List.takeWhile_append_of_pos noUnderscore, List.singleton_append, List.takeWhile_cons_of_neg,
    List.append_nil, List.reverse_reverse]
  rw [bne_self_eq_false]
  exact Bool.false_ne_true

/-- What follows the last underscore of a text and what stands in front of it are determined. -/
theorem eq_of_last_underscore {front other mark otherMark : List Char} (noUnderscore : '_' ∉ mark)
    (otherNoUnderscore : '_' ∉ otherMark)
    (same : front ++ '_' :: mark = other ++ '_' :: otherMark) :
    front = other ∧ mark = otherMark := by
  rcases List.append_eq_append_iff.1 same with ⟨more, rfl, rest⟩ | ⟨more, rfl, rest⟩
  · cases more with
    | nil =>
        cases rest
        exact ⟨(List.append_nil _).symm, rfl⟩
    | cons _ more =>
        rw [List.cons_append, List.cons.injEq] at rest
        rw [rest.2] at noUnderscore
        exact absurd (List.mem_append_right more List.mem_cons_self) noUnderscore
  · cases more with
    | nil =>
        cases rest
        exact ⟨List.append_nil _, rfl⟩
    | cons _ more =>
        rw [List.cons_append, List.cons.injEq] at rest
        rw [rest.2] at otherNoUnderscore
        exact absurd (List.mem_append_right more List.mem_cons_self) otherNoUnderscore

/-! ## Labels -/

def branchLabels : List (List Char) := ["then".toList, "else".toList]

private theorem isWordChar_of_branch : ∀ branch ∈ branchLabels, ∀ character ∈ '_' :: '_' :: branch,
    Text.isWordChar character = true := by
  have all :
      branchLabels.all (fun branch => ('_' :: '_' :: branch).all Text.isWordChar) = true := by
    decide
  intro branch isBranch
  exact List.all_eq_true.1 (List.all_eq_true.1 all branch isBranch)

/-- A label that can be told from the label of a branch, whatever stands in front of it. Text in
brackets could be filled in. -/
structure IsPlain (label : String) : Prop where
  noClosing : ']' ∉ label.toList
  noBranch : ∀ branch ∈ branchLabels, ¬ '_' :: '_' :: branch <:+ label.toList

/-- The part of a label, with the underscores in front, that no later substitution changes. -/
structure Anchor (text : List Char) where
  front : List Char
  guard : Option Char
  run : List Char
  whole : text = front ++ (guard.toList ++ run)
  guarded : ∀ character, guard = some character →
    Text.isWordChar character = false ∧ character ∈ text
  isWord : ∀ character ∈ run, Text.isWordChar character = true
  unguarded : guard = none → front = []

/-- Every text has an anchor. -/
theorem exists_anchor : ∀ text : List Char, Nonempty (Anchor text)
  | [] => ⟨⟨[], none, [], rfl, nofun, nofun, fun _ => rfl⟩⟩
  | character :: rest => by
      obtain ⟨front, guard, run, whole, guarded, isWord, unguarded⟩ := exists_anchor rest
      cases guard with
      | some guard =>
          refine ⟨⟨character :: front, some guard, run, by rw [whole]; rfl, ?_, isWord, nofun⟩⟩
          intro other same
          exact ⟨(guarded other same).1, List.mem_cons_of_mem _ (guarded other same).2⟩
      | none =>
          cases unguarded rfl
          rw [List.nil_append, Option.toList_none, List.nil_append] at whole
          subst whole
          by_cases first : Text.isWordChar character = true
          · refine ⟨⟨[], none, character :: rest, rfl, nofun, ?_, fun _ => rfl⟩⟩
            intro other member
            rcases List.mem_cons.1 member with rfl | later
            · exact first
            · exact isWord other later
          · refine ⟨⟨[], some character, rest, rfl, ?_, isWord, nofun⟩⟩
            rintro _ ⟨⟩
            exact ⟨Bool.eq_false_iff.2 first, List.mem_cons_self⟩

private theorem not_branch_of_guard {label : String} (plain : IsPlain label) {guard : Char}
    {start run : List Char} (whole : '_' :: '_' :: label.toList = start ++ guard :: run)
    (isOther : Text.isWordChar guard = false) {branch : List Char}
    (isBranch : branch ∈ branchLabels) (front : List Char) :
    ¬ '_' :: '_' :: branch <:+ front ++ guard :: run := by
  intro branchEnds
  have runEnds : guard :: run <:+ front ++ guard :: run := List.suffix_append _ _
  rcases Nat.lt_or_ge run.length ('_' :: '_' :: branch).length with short | long
  · -- The guard would be a character of the branch label.
    have inside : guard :: run <:+ '_' :: '_' :: branch :=
      List.suffix_of_suffix_length_le runEnds branchEnds short
    have guardInside := inside.subset List.mem_cons_self
    rw [isWordChar_of_branch branch isBranch guard guardInside] at isOther
    cases isOther
  · -- The branch label would end the run, and so the label of the call.
    have runAlone : run <:+ front ++ guard :: run := (List.suffix_cons guard run).trans runEnds
    have inRun : '_' :: '_' :: branch <:+ run :=
      List.suffix_of_suffix_length_le branchEnds runAlone long
    have notUnderscore : guard ≠ '_' := by
      rintro rfl
      exact absurd isOther (by decide)
    rcases start with _ | ⟨first, _ | ⟨second, rest⟩⟩
    · cases whole
      exact notUnderscore rfl
    · cases whole
      exact notUnderscore rfl
    · simp only [List.cons_append, List.cons.injEq] at whole
      refine plain.noBranch branch isBranch (inRun.trans ?_)
      rw [whole.2.2]
      exact (List.suffix_cons guard run).trans (List.suffix_append rest _)

private theorem label_eq_of_underscores {label : String} (plain : IsPlain label)
    {branch front other : List Char} (isBranch : branch ∈ branchLabels)
    (noUnderscore : ¬ ['_'] <:+ other)
    (same : front ++ '_' :: '_' :: label.toList = other ++ '_' :: '_' :: branch) :
    label.toList = branch := by
  have branchNoUnderscore : ∀ branch ∈ branchLabels, '_' ∉ branch := by decide
  rcases List.append_eq_append_iff.1 same with ⟨more, sameOther, rest⟩ | ⟨more, _, rest⟩
  · rcases more with _ | ⟨first, _ | ⟨second, more⟩⟩
    · simpa using rest
    · exfalso
      rw [List.singleton_append, List.cons.injEq] at rest
      rw [sameOther, ← rest.1] at noUnderscore
      exact noUnderscore (List.suffix_append _ _)
    · exfalso
      simp only [List.cons_append, List.cons.injEq] at rest
      exact plain.noBranch branch isBranch ⟨more, rest.2.2.symm⟩
  · rcases more with _ | ⟨first, _ | ⟨second, more⟩⟩
    · simpa using rest.symm
    · exfalso
      simp only [List.singleton_append, List.cons.injEq] at rest
      refine branchNoUnderscore branch isBranch ?_
      rw [rest.2.2]
      exact List.mem_cons_self
    · exfalso
      simp only [List.cons_append, List.cons.injEq] at rest
      refine branchNoUnderscore branch isBranch ?_
      rw [rest.2.2]
      simp

private theorem label_eq_branch {label : String} (plain : IsPlain label)
    (anchor : Anchor ('_' :: '_' :: label.toList)) {branch front other : List Char}
    (isBranch : branch ∈ branchLabels) (noUnderscore : ¬ ['_'] <:+ other)
    (same : front ++ (anchor.guard.toList ++ anchor.run) = other ++ '_' :: '_' :: branch) :
    label.toList = branch := by
  obtain ⟨start, guard, run, whole, guarded, _, unguarded⟩ := anchor
  dsimp only at same
  cases guard with
  | some guard =>
      have isOther := (guarded guard rfl).1
      have branchEnds : '_' :: '_' :: branch <:+ front ++ guard :: run := ⟨other, same.symm⟩
      exact absurd branchEnds (not_branch_of_guard plain whole isOther isBranch front)
  | none =>
      cases unguarded rfl
      rw [Option.toList_none, List.nil_append] at same
      rw [Option.toList_none, List.nil_append, List.nil_append] at whole
      rw [← whole] at same
      exact label_eq_of_underscores plain isBranch noUnderscore same

/-! ## Marked names -/

def IsCode (text : List Char) : Prop :=
  ∃ branch ∈ branchLabels, ∃ mark, IsMark mark ∧ text = spelling branch mark

/-- The end of a name that got a suffix and then the suffixes of branches, as far as no later
substitution changes it. -/
def Anchor.marked {text : List Char} (anchor : Anchor text) (mark : List Char)
    (codes : List (List Char)) : List Char :=
  anchor.guard.toList ++ anchor.run ++ '_' :: mark ++ codes.flatten

section Marked

variable {label : String} {anchor : Anchor ('_' :: '_' :: label.toList)}
  {mark otherMark : List Char}

private theorem Anchor.append_marked_nil {text : List Char} (anchor : Anchor text)
    (front mark : List Char) :
    front ++ anchor.marked mark [] =
      (front ++ (anchor.guard.toList ++ anchor.run)) ++ '_' :: mark := by
  simp [marked]

private theorem Anchor.append_marked_concat {text : List Char} (anchor : Anchor text)
    (front mark : List Char) (codes : List (List Char)) (branch last : List Char) :
    front ++ anchor.marked mark (codes ++ [spelling branch last]) =
      (front ++ anchor.marked mark codes ++ '_' :: '_' :: branch) ++ '_' :: last := by
  simp [marked, spelling]

/-- A whole suffix ends with its part that no later substitution changes. -/
theorem Anchor.spelling_eq (anchor : Anchor ('_' :: '_' :: label.toList)) (mark : List Char) :
    spelling label.toList mark = anchor.front ++ anchor.marked mark [] := by
  rw [anchor.append_marked_nil, ← anchor.whole]
  rfl

theorem Anchor.marked_append {text : List Char} (anchor : Anchor text) (mark : List Char)
    (codes : List (List Char)) (code : List Char) :
    anchor.marked mark (codes ++ [code]) = anchor.marked mark codes ++ code := by
  simp [marked]

/-- A text that ends with a mark does not end with an underscore. -/
theorem IsMark.not_underscore_suffix {last text : List Char} (isMark : IsMark last)
    (ends : last <:+ text) : ¬ ['_'] <:+ text := by
  intro underscore
  have short : ['_'].length ≤ last.length := List.length_pos_iff.2 isMark.1
  have inside := List.suffix_of_suffix_length_le underscore ends short
  exact isMark.noUnderscore (inside.subset (List.mem_singleton_self _))

private theorem exists_last_mark (isMark : IsMark mark) (codes : List (List Char))
    (areCodes : ∀ code ∈ codes, IsCode code) :
    ∃ last, IsMark last ∧ last <:+ '_' :: mark ++ codes.flatten := by
  rcases List.eq_nil_or_concat codes with rfl | ⟨others, code, rfl⟩
  · exact ⟨mark, isMark, by rw [List.flatten_nil, List.append_nil]; exact List.suffix_cons _ _⟩
  · rw [List.concat_eq_append] at areCodes ⊢
    obtain ⟨branch, _, last, isLast, rfl⟩ :=
      areCodes code (List.mem_append_right _ (List.mem_singleton_self _))
    refine ⟨last, isLast, ?_⟩
    rw [List.flatten_append, List.flatten_singleton, ← List.append_assoc]
    exact ((List.suffix_cons '_' last).trans (List.suffix_append _ _)).trans
      (List.suffix_append _ _)

/-- A marked name ends with a mark. -/
theorem Anchor.marked_ends {text : List Char} (anchor : Anchor text) (isMark : IsMark mark)
    (codes : List (List Char)) (areCodes : ∀ code ∈ codes, IsCode code) :
    ∃ last, IsMark last ∧ last <:+ anchor.marked mark codes := by
  obtain ⟨last, isLast, ends⟩ := exists_last_mark isMark codes areCodes
  refine ⟨last, isLast, ends.trans ?_⟩
  rw [marked, List.append_assoc]
  exact List.suffix_append _ _

private theorem isWordChar_of_mem_code {code : List Char} (isCode : IsCode code) :
    ∀ character ∈ code, Text.isWordChar character = true := by
  obtain ⟨branch, isBranch, last, isLast, rfl⟩ := isCode
  intro character member
  rcases List.mem_append.1 member with inLabel | inMark
  · exact isWordChar_of_branch branch isBranch character inLabel
  · rcases List.mem_cons.1 inMark with rfl | digit
    · decide
    · exact isWordChar_of_markDigit (isLast.2 character digit)

/-- The end of a marked name as an ending that only the binding of its last word can change. -/
def Anchor.ending (anchor : Anchor ('_' :: '_' :: label.toList)) (plain : IsPlain label)
    (isMark : IsMark mark) (codes : List (List Char)) (areCodes : ∀ code ∈ codes, IsCode code) :
    Ending where
  guard := anchor.guard
  run := anchor.run ++ ('_' :: mark ++ codes.flatten)
  guarded character isGuard := by
    obtain ⟨isOther, member⟩ := anchor.guarded character isGuard
    refine ⟨isOther, ?_⟩
    rintro rfl
    rcases List.mem_cons.1 member with same | member
    · exact absurd same (by decide)
    rcases List.mem_cons.1 member with same | inLabel
    · exact absurd same (by decide)
    · exact plain.noClosing inLabel
  isWord character member := by
    rcases List.mem_append.1 member with inRun | member
    · exact anchor.isWord character inRun
    rcases List.mem_append.1 member with inMark | inCodes
    · rcases List.mem_cons.1 inMark with rfl | digit
      · decide
      · exact isWordChar_of_markDigit (isMark.2 character digit)
    · obtain ⟨code, isCode, inCode⟩ := List.mem_flatten.1 inCodes
      exact isWordChar_of_mem_code (areCodes code isCode) character inCode
  nonempty empty := by simp at empty

/-- The characters of a marked name are those of its ending. -/
theorem Anchor.characters_ending (anchor : Anchor ('_' :: '_' :: label.toList))
    (plain : IsPlain label) (isMark : IsMark mark) (codes : List (List Char))
    (areCodes : ∀ code ∈ codes, IsCode code) :
    (anchor.ending plain isMark codes areCodes).characters = anchor.marked mark codes := by
  simp [Ending.characters, ending, marked]

/-- The run of a marked name spells the mark after an underscore, and ends with a mark. -/
theorem Anchor.ending_run (anchor : Anchor ('_' :: '_' :: label.toList))
    (plain : IsPlain label) (isMark : IsMark mark) (codes : List (List Char))
    (areCodes : ∀ code ∈ codes, IsCode code) :
    '_' :: mark <:+: (anchor.ending plain isMark codes areCodes).run ∧
      ∃ last, IsMark last ∧ last <:+ (anchor.ending plain isMark codes areCodes).run := by
  obtain ⟨last, isLast, ends⟩ := exists_last_mark isMark codes areCodes
  refine ⟨⟨anchor.run, codes.flatten, ?_⟩, last, isLast, ends.trans (List.suffix_append _ _)⟩
  simp [ending]

private theorem code_of_bare_eq (plain : IsPlain label) (isMark : IsMark mark)
    (isOtherMark : IsMark otherMark) {front other : List Char} {codes : List (List Char)}
    (areCodes : ∀ code ∈ codes, IsCode code) (nonempty : codes ≠ [])
    (same : front ++ anchor.marked mark [] = other ++ anchor.marked otherMark codes) :
    spelling label.toList mark ∈ codes := by
  rcases List.eq_nil_or_concat codes with rfl | ⟨others, code, rfl⟩
  · exact absurd rfl nonempty
  rw [List.concat_eq_append] at areCodes same ⊢
  obtain ⟨branch, isBranch, last, isLast, rfl⟩ :=
    areCodes code (List.mem_append_right _ (List.mem_singleton_self _))
  rw [anchor.append_marked_nil, anchor.append_marked_concat] at same
  obtain ⟨frontSame, rfl⟩ :=
    eq_of_last_underscore isMark.noUnderscore isLast.noUnderscore same
  obtain ⟨otherLast, isOtherLast, ends⟩ := anchor.marked_ends isOtherMark others
    fun code member => areCodes code (List.mem_append_left _ member)
  have noUnderscore := isOtherLast.not_underscore_suffix (ends.trans (List.suffix_append other _))
  rw [label_eq_branch plain anchor isBranch noUnderscore frontSame]
  exact List.mem_append_right _ (List.mem_singleton_self _)

/-- Two marked names of one label have the same text only if their marks agree, or one of them went
through a branch whose suffix is the whole suffix of the other. -/
theorem mark_eq_of_marked_eq (plain : IsPlain label) (isMark : IsMark mark)
    (isOtherMark : IsMark otherMark) {front other : List Char}
    {codes otherCodes : List (List Char)} (areCodes : ∀ code ∈ codes, IsCode code)
    (areOtherCodes : ∀ code ∈ otherCodes, IsCode code)
    (same : front ++ anchor.marked mark codes = other ++ anchor.marked otherMark otherCodes) :
    mark = otherMark ∨ spelling label.toList mark ∈ otherCodes ∨
      spelling label.toList otherMark ∈ codes := by
  induction codes using List.reverseRecOn generalizing otherCodes with
  | nil =>
      by_cases bare : otherCodes = []
      · subst bare
        rw [anchor.append_marked_nil, anchor.append_marked_nil] at same
        exact .inl (eq_of_last_underscore isMark.noUnderscore isOtherMark.noUnderscore same).2
      · exact .inr (.inl (code_of_bare_eq plain isMark isOtherMark areOtherCodes bare same))
  | append_singleton codes code inductionHypothesis =>
      rcases List.eq_nil_or_concat otherCodes with rfl | ⟨others, otherCode, rfl⟩
      · exact .inr (.inr (code_of_bare_eq plain isOtherMark isMark areCodes
          (List.append_ne_nil_of_right_ne_nil _ (List.cons_ne_nil _ _)) same.symm))
      · rw [List.concat_eq_append] at areOtherCodes same ⊢
        have last : code ∈ codes ++ [code] :=
          List.mem_append_right _ (List.mem_singleton_self _)
        have otherLast : otherCode ∈ others ++ [otherCode] :=
          List.mem_append_right _ (List.mem_singleton_self _)
        obtain ⟨branch, isBranch, mark, isLast, rfl⟩ := areCodes code last
        obtain ⟨otherBranch, isOtherBranch, otherMark, isOtherLast, rfl⟩ :=
          areOtherCodes otherCode otherLast
        rw [anchor.append_marked_concat, anchor.append_marked_concat] at same
        obtain ⟨frontSame, _⟩ :=
          eq_of_last_underscore isLast.noUnderscore isOtherLast.noUnderscore same
        -- The labels of branches have the same length, so what stands in front agrees.
        have sameLength : ∀ branch ∈ branchLabels, ∀ other ∈ branchLabels,
            ('_' :: '_' :: branch).length = ('_' :: '_' :: other).length := by decide
        obtain ⟨shorter, _⟩ := List.append_inj' frontSame
          (sameLength branch isBranch otherBranch isOtherBranch)
        have areInner := fun code member => areCodes code (List.mem_append_left _ member)
        have areOtherInner := fun code member => areOtherCodes code (List.mem_append_left _ member)
        rcases inductionHypothesis areInner areOtherInner shorter with agree | inOthers | inCodes
        · exact .inl agree
        · exact .inr (.inl (List.mem_append_left _ inOthers))
        · exact .inr (.inr (List.mem_append_left _ inCodes))

end Marked

/-! ## Suffixes of branches alone -/

/-- The label of a branch can be told from another one behind any text. -/
theorem isPlain_of_branch {label : String} (isBranch : label.toList ∈ branchLabels) :
    IsPlain label := by
  have apart : ∀ branch ∈ branchLabels, ']' ∉ branch ∧
      ∀ other ∈ branchLabels, ¬ '_' :: '_' :: other <:+ branch := by decide
  exact ⟨(apart _ isBranch).1, (apart _ isBranch).2⟩

/-- No later substitution changes any part of the label of a branch. -/
def branchAnchor {label : String} (isBranch : label.toList ∈ branchLabels) :
    Anchor ('_' :: '_' :: label.toList) where
  front := []
  guard := none
  run := '_' :: '_' :: label.toList
  whole := rfl
  guarded := nofun
  isWord := isWordChar_of_branch _ isBranch
  unguarded _ := rfl

theorem marked_branchAnchor {label : String} (isBranch : label.toList ∈ branchLabels)
    (mark : List Char) (codes : List (List Char)) :
    (branchAnchor isBranch).marked mark codes = (spelling label.toList mark :: codes).flatten := by
  simp [Anchor.marked, branchAnchor, spelling]

private theorem eq_of_code {front other code otherCode : List Char} (isCode : IsCode code)
    (isOtherCode : IsCode otherCode) (same : front ++ code = other ++ otherCode) :
    front = other ∧ code = otherCode := by
  obtain ⟨branch, isBranch, mark, isMark, rfl⟩ := isCode
  obtain ⟨otherBranch, isOtherBranch, otherMark, isOtherMark, rfl⟩ := isOtherCode
  have parted : (front ++ '_' :: '_' :: branch) ++ '_' :: mark =
      (other ++ '_' :: '_' :: otherBranch) ++ '_' :: otherMark := by
    simpa [spelling] using same
  obtain ⟨labels, rfl⟩ :=
    eq_of_last_underscore isMark.noUnderscore isOtherMark.noUnderscore parted
  have sameLength : ∀ branch ∈ branchLabels, ∀ other ∈ branchLabels,
      ('_' :: '_' :: branch).length = ('_' :: '_' :: other).length := by decide
  obtain ⟨fronts, sameLabel⟩ :=
    List.append_inj' labels (sameLength branch isBranch otherBranch isOtherBranch)
  refine ⟨fronts, ?_⟩
  rw [spelling, spelling, sameLabel]

/-- Of two texts that agree and that both end with suffixes of branches, the first of these suffixes
of one is among those of the other. -/
theorem code_of_same_text {front other code otherCode : List Char}
    {codes otherCodes : List (List Char)} (areCodes : ∀ part ∈ code :: codes, IsCode part)
    (areOtherCodes : ∀ part ∈ otherCode :: otherCodes, IsCode part)
    (same : front ++ (code :: codes).flatten = other ++ (otherCode :: otherCodes).flatten) :
    code = otherCode ∨ code ∈ otherCodes ∨ otherCode ∈ codes := by
  obtain ⟨isCode, areRest⟩ := List.forall_mem_cons.1 areCodes
  obtain ⟨isOtherCode, areOtherRest⟩ := List.forall_mem_cons.1 areOtherCodes
  -- The suffixes are compared from the end, until one of the texts has no more of them.
  induction codes using List.reverseRecOn generalizing otherCodes with
  | nil =>
      rcases List.eq_nil_or_concat otherCodes with rfl | ⟨others, last, rfl⟩
      · rw [List.flatten_singleton, List.flatten_singleton] at same
        exact .inl (eq_of_code isCode isOtherCode same).2
      · rw [List.concat_eq_append] at areOtherRest same ⊢
        rw [List.flatten_singleton, ← List.cons_append, List.flatten_append,
          List.flatten_singleton, ← List.append_assoc] at same
        have isLast := areOtherRest last (List.mem_append_right _ (List.mem_singleton_self _))
        rw [(eq_of_code isCode isLast same).2]
        exact .inr (.inl (List.mem_append_right _ (List.mem_singleton_self _)))
  | append_singleton codes last inductionHypothesis =>
      have inRest : last ∈ codes ++ [last] :=
        List.mem_append_right _ (List.mem_singleton_self _)
      have isLast := areRest last inRest
      rw [← List.cons_append, List.flatten_append, List.flatten_singleton, ← List.append_assoc]
        at same
      rcases List.eq_nil_or_concat otherCodes with rfl | ⟨others, otherLast, rfl⟩
      · rw [List.flatten_singleton] at same
        rw [← (eq_of_code isLast isOtherCode same).2]
        exact .inr (.inr inRest)
      · rw [List.concat_eq_append] at areOtherCodes areOtherRest same ⊢
        rw [← List.cons_append, List.flatten_append, List.flatten_singleton,
          ← List.append_assoc] at same
        have isOtherLast :=
          areOtherRest otherLast (List.mem_append_right _ (List.mem_singleton_self _))
        have areShorter := fun part member => areRest part (List.mem_append_left _ member)
        have areOtherShorter := fun part member => areOtherRest part (List.mem_append_left _ member)
        rcases inductionHypothesis (List.forall_mem_cons.2 ⟨isCode, areShorter⟩)
          (List.forall_mem_cons.2 ⟨isOtherCode, areOtherShorter⟩)
          (eq_of_code isLast isOtherLast same).1 areShorter areOtherShorter
          with agree | inOthers | inCodes
        · exact .inl agree
        · exact .inr (.inl (List.mem_append_left _ inOthers))
        · exact .inr (.inr (List.mem_append_left _ inCodes))

end NetBlueprint.Suffix
