/-!
Contract: names in ascending order and tables sorted by key.

Texts are ordered by code point. A sorted table holds each key once; storing under a key that is
present replaces its value.
-/

namespace NetBlueprint.Text

/-- Stores a value in a table sorted by key. -/
def insertSorted {Value : Type} (key : String) (value : Value) :
    List (String × Value) → List (String × Value)
  | [] => [(key, value)]
  | entry :: rest =>
    if key < entry.1 then (key, value) :: entry :: rest
    else if key = entry.1 then (key, value) :: rest
    else entry :: insertSorted key value rest

/-- Sorts a table by key; of two entries with one key the later stays. -/
def sortedTable {Value : Type} (entries : List (String × Value)) : List (String × Value) :=
  entries.foldl (fun table entry => insertSorted entry.1 entry.2 table) []

/-- Sorts names in ascending order and drops repetitions. -/
def sortedNames (names : List String) : List String :=
  (sortedTable (names.map fun name => (name, ()))).map Prod.fst

/-- What is stored under a key is found there. -/
theorem lookup_insertSorted_self {Value : Type} (key : String) (value : Value) :
    ∀ table, (insertSorted key value table).lookup key = some value
  | [] => by simp [insertSorted]
  | (other, stored) :: rest => by
      rw [insertSorted]
      split
      · rw [List.lookup_cons, beq_self_eq_true]
      · split
        · rw [List.lookup_cons, beq_self_eq_true]
        · rename_i different
          have apart : (key == other) = false := by simpa using different
          rw [List.lookup_cons, apart]
          exact lookup_insertSorted_self key value rest

/-- Storing leaves every other key as it is. -/
theorem lookup_insertSorted_of_ne {Value : Type} {key other : String} (value : Value)
    (different : other ≠ key) :
    ∀ table, (insertSorted key value table).lookup other = table.lookup other
  | [] => by
      have apart : (other == key) = false := by simpa using different
      rw [insertSorted, List.lookup_cons, apart]
  | (found, stored) :: rest => by
      have apart : (other == key) = false := by simpa using different
      rw [insertSorted]
      split
      · rw [List.lookup_cons, apart]
      · split
        · rename_i same
          simp only at same
          rw [List.lookup_cons, apart, List.lookup_cons, ← same, apart]
        · rw [List.lookup_cons, List.lookup_cons,
            lookup_insertSorted_of_ne value different rest]

end NetBlueprint.Text
