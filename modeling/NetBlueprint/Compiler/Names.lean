import NetBlueprint.Text.Integer

/-!
Contract: names as the compiler reads them.

A name may carry a hygiene suffix that starts with two underscores, and digits that tell
repetitions apart. Endpoints of connections are looked up without them when they are not found as
they stand. A name `in1` followed by digits stands for an input that need not be declared.
-/

namespace NetBlueprint.Name

/-- The characters before the first two underscores, where there are any. -/
def beforeSuffix? : List Char → Option (List Char)
  | [] => none
  | first :: rest =>
    if first = '_' && rest.head? = some '_' then some []
    else (beforeSuffix? rest).map (first :: ·)

/-- Drops a hygiene suffix; a name that starts with two underscores has none. -/
def withoutSuffix (name : List Char) : List Char :=
  match beforeSuffix? name with
  | none | some [] => name
  | some base => base

private theorem beforeSuffix?_isPrefix :
    ∀ (name : List Char) {base : List Char}, beforeSuffix? name = some base → base <+: name
  | [], _, found => by simp [beforeSuffix?] at found
  | first :: rest, base, found => by
      rw [beforeSuffix?] at found
      split at found
      · cases found
        exact List.nil_prefix
      · obtain ⟨inner, innerFound, rfl⟩ := Option.map_eq_some_iff.1 found
        exact List.cons_prefix_cons.2 ⟨rfl, beforeSuffix?_isPrefix rest innerFound⟩

/-- What is left without a hygiene suffix starts the name. -/
theorem withoutSuffix_isPrefix (name : List Char) : withoutSuffix name <+: name := by
  unfold withoutSuffix
  split
  · exact List.prefix_refl name
  · exact List.prefix_refl name
  · rename_i found
    exact beforeSuffix?_isPrefix name found

def withoutDigits (name : List Char) : List Char :=
  (name.reverse.dropWhile Char.isDigit).reverse

def base (name : String) : String :=
  String.ofList (withoutSuffix name.toList)

def stem (name : String) : String :=
  String.ofList (withoutDigits name.toList)

/-- The input that auto-inputs belong to. -/
def autoInputBase : String := "in1"

/-- Decides whether a name stands for an auto-input: `in1` and at least one digit. -/
def isAutoInput (name : String) : Bool :=
  match name.toList with
  | 'i' :: 'n' :: '1' :: digits => !digits.isEmpty && digits.all Char.isDigit
  | _ => false

end NetBlueprint.Name
