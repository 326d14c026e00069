import Mathlib.Data.List.Forall2

/-!
Contract: looking up keys in association tables.

A table lists entries, and the first entry of a key counts. What is found for a key is therefore an
entry of the table, and it is still found when entries are added behind; something is found whenever
the table has an entry for the key. Lists whose elements are related one by one are related in every
place, and as tables they give related answers to keys that single out related entries. Setting the
key of one more entry aside leaves fewer entries.
-/

namespace NetBlueprint.Table

variable {Key Value : Type} [BEq Key] [LawfulBEq Key] {table : List (Key × Value)} {name : Key}
  {value : Value}

/-- What is found in a table is one of its entries. -/
theorem mem_of_lookup (found : table.lookup name = some value) : (name, value) ∈ table := by
  obtain ⟨earlier, later, rfl, _⟩ := List.lookup_eq_some_iff.1 found
  exact List.mem_append_right earlier List.mem_cons_self

omit [LawfulBEq Key] in
/-- What a table holds is found in every longer one. -/
theorem lookup_of_prefix {longer : List (Key × Value)} (isPrefix : table <+: longer)
    (found : table.lookup name = some value) : longer.lookup name = some value := by
  obtain ⟨rest, rfl⟩ := isPrefix
  rw [List.lookup_append, found, Option.some_or]

/-- Something is found under a name exactly if the table has an entry for it. -/
theorem isSome_lookup_iff :
    (table.lookup name).isSome = true ↔ ∃ value, (name, value) ∈ table := by
  rw [List.lookup_isSome_iff]
  constructor
  · rintro ⟨⟨key, value⟩, member, same⟩
    cases eq_of_beq same
    exact ⟨value, member⟩
  · rintro ⟨value, member⟩
    exact ⟨(name, value), member, beq_self_eq_true name⟩

/-- Fewer entries have none of some keys once the key of one of them is among these. -/
theorem countP_lt_of_mem {Entry : Type} {entries : List Entry} {keys : List Key} {entry : Entry}
    (keyOf : Entry → Key) (member : entry ∈ entries) (absent : keyOf entry ∉ keys) :
    (entries.countP fun other => !(keyOf entry :: keys).contains (keyOf other)) <
      entries.countP fun other => !keys.contains (keyOf other) := by
  have fewer (part : List Entry) :
      (part.countP fun other => !(keyOf entry :: keys).contains (keyOf other)) ≤
        part.countP fun other => !keys.contains (keyOf other) := by
    refine List.countP_mono_left fun other _ => ?_
    simp only [List.contains_cons, Bool.not_eq_true', Bool.or_eq_false_iff]
    exact And.right
  obtain ⟨early, late, rfl⟩ := List.append_of_mem member
  have earlyFewer := fewer early
  have lateFewer := fewer late
  rw [List.countP_append, List.countP_append, List.countP_cons_of_neg (by simp),
    List.countP_cons_of_pos (by simpa using absent)]
  omega

/-- What a key stands for in one table another key stands for in the other. -/
theorem rel_lookup {Related : Key × Value → Key × Value → Prop} {other : List (Key × Value)}
    {otherName : Key} (tables : List.Forall₂ Related table other)
    (same : ∀ {entry otherEntry}, Related entry otherEntry →
      (name = entry.1 ↔ otherName = otherEntry.1)) :
    Option.Rel (fun value otherValue => Related (name, value) (otherName, otherValue))
      (table.lookup name) (other.lookup otherName) := by
  induction tables with
  | nil => exact .none
  | @cons entry otherEntry _ _ first _ inductionHypothesis =>
      obtain ⟨key, value⟩ := entry
      obtain ⟨otherKey, otherValue⟩ := otherEntry
      have sameFirst := same first
      rw [List.lookup_cons, List.lookup_cons]
      by_cases isKey : name = key
      · obtain rfl := isKey
        obtain rfl := sameFirst.1 rfl
        rw [beq_self_eq_true, beq_self_eq_true]
        exact .some first
      · rw [beq_eq_false_iff_ne.2 isKey, beq_eq_false_iff_ne.2 fun isOther =>
          isKey (sameFirst.2 isOther)]
        exact inductionHypothesis

/-- Related lists have related elements in the same places. -/
theorem rel_getElem? {First Second : Type} {Related : First → Second → Prop} {one : List First}
    {other : List Second} (related : List.Forall₂ Related one other) (index : Nat) :
    Option.Rel Related one[index]? other[index]? := by
  induction related generalizing index with
  | nil => exact .none
  | cons first _ inductionHypothesis =>
      cases index with
      | zero => exact .some first
      | succ index => exact inductionHypothesis index

/-- What stands in the second of two related lists is related to something in the first. -/
theorem exists_of_mem_right {First Second : Type} {Related : First → Second → Prop}
    {one : List First} {other : List Second} (related : List.Forall₂ Related one other)
    {second : Second} (member : second ∈ other) : ∃ first ∈ one, Related first second := by
  induction related with
  | nil => cases member
  | cons head _ inductionHypothesis =>
      rcases List.mem_cons.1 member with rfl | later
      · exact ⟨_, List.mem_cons_self, head⟩
      · obtain ⟨first, isFirst, related⟩ := inductionHypothesis later
        exact ⟨first, List.mem_cons_of_mem _ isFirst, related⟩

/-- What answers is related to an answer. -/
theorem exists_of_rel {First Second : Type} {Related : First → Second → Prop}
    {one : Option First} {other : Option Second} (related : Option.Rel Related one other)
    {value : First} (answers : one = some value) :
    ∃ otherValue, other = some otherValue ∧ Related value otherValue := by
  cases related with
  | none => cases answers
  | some both =>
      cases answers
      exact ⟨_, rfl, both⟩

/-- Answers that are related are related more loosely. -/
theorem rel_imp {First Second : Type} {Related Weaker : First → Second → Prop}
    (weaker : ∀ {one other}, Related one other → Weaker one other) {one : Option First}
    {other : Option Second} (related : Option.Rel Related one other) :
    Option.Rel Weaker one other := by
  cases related with
  | none => exact .none
  | some related => exact .some (weaker related)

end NetBlueprint.Table
