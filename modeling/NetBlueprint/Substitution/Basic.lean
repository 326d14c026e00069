import NetBlueprint.Expr.Evaluation

/-!
Contract: filling bound names into texts.

A substitution binds names to texts and may rename names. A text is filled in by two scans. The
first looks at every bracket group: one that mentions no bound word stays as it is, one that
spells exactly a bound name becomes its value, and any other is evaluated as an integer
expression. The second scan replaces every bound word of the result, the values from the first
scan included. The rename table is consulted afterwards, for names only.
-/

namespace NetBlueprint

/-- Bindings of names to texts, each name once, and a table of renamed names. -/
structure Substitution where
  bindings : List (String × String)
  renames : List (String × String)
deriving DecidableEq, Repr

/-- A part of a text: characters outside brackets, or what stands between two brackets. -/
inductive Segment where
  | plain (characters : List Char)
  | group (inner : List Char)
deriving DecidableEq, Repr

/-- Cuts a text at bracket groups: a group reaches from an opening bracket to the next closing
one. `pending` holds the characters since an opening bracket, the last first; without a closing
bracket they stay plain. -/
def segmentsFrom : Option (List Char) → List Char → List Segment
  | none, [] => []
  | some inner, [] => [.plain ('[' :: inner.reverse)]
  | none, character :: rest =>
    if character = '[' then segmentsFrom (some []) rest
    else .plain [character] :: segmentsFrom none rest
  | some inner, character :: rest =>
    if character = ']' then .group inner.reverse :: segmentsFrom none rest
    else segmentsFrom (some (character :: inner)) rest

def segments (text : List Char) : List Segment :=
  segmentsFrom none text

/-- Strips blanks and one pair of enclosing brackets. -/
def unbracket (text : String) : String :=
  match Text.trimmed text.toList with
  | '[' :: rest =>
    if rest.getLast? = some ']' then String.ofList (Text.trimmed rest.dropLast)
    else String.ofList ('[' :: rest)
  | whole => String.ofList whole

namespace Substitution

def empty : Substitution := ⟨[], []⟩

/-- Binds a name; an earlier binding of the name is replaced in its place. -/
def bind (substitution : Substitution) (name value : String) : Substitution :=
  { substitution with
    bindings :=
      if substitution.bindings.any fun entry => entry.1 == name then
        substitution.bindings.map fun entry => if entry.1 == name then (name, value) else entry
      else substitution.bindings ++ [(name, value)] }

def withRenames (substitution : Substitution) (renames : List (String × String)) : Substitution :=
  { substitution with renames }

def value? (substitution : Substitution) (name : String) : Option String :=
  substitution.bindings.lookup name

def binds (substitution : Substitution) (name : String) : Bool :=
  (substitution.value? name).isSome

def without (substitution : Substitution) (names : List String) : Substitution :=
  { substitution with
    bindings := substitution.bindings.filter fun entry => !names.contains entry.1 }

private theorem lookup_replaced (name value : String) :
    ∀ bindings : List (String × String),
      bindings.any (fun entry => entry.1 == name) = true →
      (bindings.map fun entry => if entry.1 == name then (name, value) else entry).lookup name
        = some value
  | [], bound => by simp at bound
  | entry :: rest, bound => by
      by_cases same : entry.1 = name
      · simp [same]
      · have apart : (name == entry.1) = false := by simpa using Ne.symm same
        rw [List.any_cons, show (entry.1 == name) = false by simpa using same,
          Bool.false_or] at bound
        rw [List.map_cons, if_neg (by simpa using same), List.lookup_cons, apart]
        exact lookup_replaced name value rest bound

private theorem lookup_appended (name value : String) :
    ∀ bindings : List (String × String),
      bindings.any (fun entry => entry.1 == name) = false →
      (bindings ++ [(name, value)]).lookup name = some value
  | [], _ => by simp
  | entry :: rest, free => by
      rw [List.any_cons, Bool.or_eq_false_iff] at free
      have apart : (name == entry.1) = false := by
        rw [Bool.beq_comm]
        exact free.1
      rw [List.cons_append, List.lookup_cons, apart]
      exact lookup_appended name value rest free.2

/-- A name has the value it was bound to last. -/
theorem value?_bind_self (substitution : Substitution) (name value : String) :
    (substitution.bind name value).value? name = some value := by
  by_cases bound : substitution.bindings.any fun entry => entry.1 == name
  · rw [value?, bind, if_pos bound]
    exact lookup_replaced name value _ bound
  · rw [value?, bind, if_neg bound]
    exact lookup_appended name value _ (Bool.eq_false_iff.2 bound)

/-- Resolves a variable of an expression to the integer its text spells. -/
def environment (substitution : Substitution) : Environment := fun name =>
  match substitution.value? name with
  | none => .ok none
  | some value =>
    match Text.readSigned? (Text.trimmed value.toList) with
    | some number => .ok (some number)
    | none => .error (.notInteger name value)

def mentions (substitution : Substitution) (text : List Char) : Bool :=
  (Text.words text).any fun word => substitution.binds (String.ofList word)

/-- What takes the place of a bracket group. -/
def fillGroup (substitution : Substitution) (inner : List Char) : Except ExprError (List Char) :=
  if substitution.mentions inner then
    let source := String.ofList (Text.trimmed inner)
    match substitution.value? source with
    | some value => .ok value.toList
    | none =>
      match Expr.evaluateIn substitution.environment source with
      | .ok value => .ok (toString value).toList
      | .error error => .error error
  else .ok ('[' :: inner ++ [']'])

def fillSegments (substitution : Substitution) : List Segment → Except ExprError (List Char)
  | [] => .ok []
  | .plain characters :: rest =>
    match fillSegments substitution rest with
    | .ok filled => .ok (characters ++ filled)
    | .error error => .error error
  | .group inner :: rest =>
    match substitution.fillGroup inner with
    | .error error => .error error
    | .ok first =>
      match fillSegments substitution rest with
      | .ok filled => .ok (first ++ filled)
      | .error error => .error error

/-- What takes the place of a piece of text in the second scan. -/
def fillPiece (substitution : Substitution) : Text.Piece → List Char
  | .other character => [character]
  | .word characters =>
    match substitution.value? (String.ofList characters) with
    | some value => value.toList
    | none => characters

def fillWords (substitution : Substitution) (text : List Char) : List Char :=
  (Text.cutWords text).flatMap substitution.fillPiece

/-- Fills the bindings into a text. -/
def substitute (substitution : Substitution) (text : String) : Except ExprError String :=
  if substitution.bindings.isEmpty then .ok text
  else
    match substitution.fillSegments (segments text.toList) with
    | .ok filled => .ok (String.ofList (substitution.fillWords filled))
    | .error error => .error error

/-- Without bindings a text stays as it is. -/
theorem substitute_empty (text : String) : empty.substitute text = .ok text := rfl

def rename (substitution : Substitution) (name : String) : String :=
  (substitution.renames.lookup name).getD name

/-- Fills the bindings into a name and renames the result. -/
def name (substitution : Substitution) (text : String) : Except ExprError String :=
  match substitution.substitute text with
  | .ok filled => .ok (substitution.rename filled)
  | .error error => .error error

end Substitution

end NetBlueprint
