import NetBlueprint.Proofs.Json.Numbers
import NetBlueprint.Proofs.Json.Strings

/-!
Contract: a written value reads back.

Owns:
- `Readable`: the values that a text can stand for, as a reader keeps them. An integer fits 64
  bits, a decimal reads back from its own digits, and no number is of 32 bits;
- `readElements_separated`: elements with commas between them are read one after the other;
- `comes_compact`: a readable value that is nested no deeper than the limit is read back, and what
  stands behind it is left alone;
- `read_compact`: the same of a whole text.

Does not own: values with blanks between their parts.
-/

namespace NetBlueprint.Json

open Text

/-- The text that is written from a number is read as that number. -/
def ReadsBack (number : Float) : Prop :=
  readNumber (compact (.decimal number)).toList = .ok (.decimal number, [])

inductive Readable : Value → Prop
  | null : Readable .null
  | boolean (value : Bool) : Readable (.boolean value)
  | integer {value : Int} (least : minSigned ≤ value) (greatest : value ≤ maxUnsigned) :
      Readable (.integer value)
  | decimal {number : Float} (back : ReadsBack number) : Readable (.decimal number)
  | text (content : String) : Readable (.text content)
  | list {items : List Value} (each : ∀ item ∈ items, Readable item) : Readable (.list items)
  | record {members : List (String × Value)} (each : ∀ member ∈ members, Readable member.2) :
      Readable (.record members)

/-! ## Where an element starts -/

theorem skipSpace_cons {first : Char} (solid : isSpace first = false) (rest : List Char) :
    skipSpace (first :: rest) = first :: rest := by
  rw [skipSpace, List.dropWhile_cons_of_neg]
  simp [solid]

/-- A text that an element of a list or record may start with: no blank and no closing bracket
comes first. -/
def Opens (text : List Char) : Prop :=
  ∃ first tail, text = first :: tail ∧ isSpace first = false ∧ first ≠ ']' ∧ first ≠ '\x7d'

def separated {Element : Type} (write : Element → List Char) : List Element → List Char
  | [] => []
  | first :: others => write first ++ others.flatMap fun element => ',' :: write element

def IsClose (close : Char) : Prop :=
  close = ']' ∨ close = '\x7d'

/-- There are no more elements than written characters. -/
theorem length_le_flatMap_comma {Element : Type} (write : Element → List Char) :
    ∀ elements : List Element,
    elements.length ≤ (elements.flatMap fun element => ',' :: write element).length
  | [] => Nat.zero_le _
  | element :: elements => by
      have others := length_le_flatMap_comma write elements
      simp only [List.flatMap_cons, List.length_append, List.length_cons]
      omega

/-- The text that is written from an element is read as that element, and an element may start
with it. -/
structure Comes {Element : Type} (read : List Char → Read Element) (write : Element → List Char)
    (element : Element) : Prop where
  opens : Opens (write element)
  reads : ∀ rest, Delimited rest → read (write element ++ rest) = .ok (element, rest)

section Elements

variable {close : Char} (closes : IsClose close) {Element : Type}
  {read : List Char → Read Element} {write : Element → List Char}

include closes

/-- The first element is found behind the opening bracket. -/
theorem Opens.nextElement_first {text : List Char} (opens : Opens text) (rest : List Char) :
    nextElement close true (text ++ rest) = .ok (some (text ++ rest), []) := by
  obtain ⟨first, tail, rfl, solid, noBracket, noBrace⟩ := opens
  have noClose : first ≠ close := by
    rcases closes with rfl | rfl
    · exact noBracket
    · exact noBrace
  rw [List.cons_append, nextElement, skipSpace_cons solid]
  simp [noClose]

/-- A further element is found behind a comma. -/
theorem Opens.nextElement_comma {text : List Char} (opens : Opens text) (rest : List Char) :
    nextElement close false (',' :: (text ++ rest)) = .ok (some (text ++ rest), []) := by
  obtain ⟨first, tail, rfl, solid, noBracket, noBrace⟩ := opens
  have noClose : first ≠ close ∧ ',' ≠ close := by
    rcases closes with rfl | rfl
    · exact ⟨noBracket, by decide⟩
    · exact ⟨noBrace, by decide⟩
  rw [List.cons_append, nextElement, skipSpace_cons (by decide)]
  simp only [noClose.2, if_false, Bool.false_eq_true, if_true]
  rw [skipSpace_cons solid]
  simp [noClose.1]

/-- A closing bracket ends the elements. -/
theorem nextElement_close (isFirst : Bool) (rest : List Char) :
    nextElement close isFirst (close :: rest) = .ok (none, rest) := by
  have solid : isSpace close = false := by rcases closes with rfl | rfl <;> rfl
  rw [nextElement, skipSpace_cons solid]
  simp

/-- What follows an element delimits it. -/
theorem delimited_more (write : Element → List Char) (elements : List Element)
    (rest : List Char) :
    Delimited (elements.flatMap (fun element => ',' :: write element) ++ close :: rest) := by
  cases elements with
  | nil =>
    rcases closes with rfl | rfl
    · exact delimited_bracket rest
    · exact delimited_brace rest
  | cons next elements => exact delimited_comma _

/-- The elements after the first are read one after the other, each behind its comma. -/
theorem readElements_more (rest : List Char) : ∀ (elements done : List Element) (budget : Nat),
    done ≠ [] → elements.length < budget → (∀ element ∈ elements, Comes read write element) →
    readElements close read budget done
        (elements.flatMap (fun element => ',' :: write element) ++ close :: rest)
      = .ok (done.reverse ++ elements, rest)
  | [], done, budget, _, room, _ => by
      obtain ⟨fewer, rfl⟩ := Nat.exists_eq_add_one_of_ne_zero (Nat.ne_of_gt room)
      rw [List.flatMap_nil, List.nil_append, readElements, nextElement_close closes]
      simp
  | element :: elements, done, budget, started, room, each => by
      obtain ⟨fewer, rfl⟩ := Nat.exists_eq_add_one_of_ne_zero (Nat.ne_zero_of_lt room)
      have comes := each element List.mem_cons_self
      have delimited := delimited_more closes write elements rest
      have notFirst : done.isEmpty = false := by simpa using started
      rw [List.flatMap_cons, List.append_assoc, List.cons_append, readElements, notFirst,
        comes.opens.nextElement_comma closes]
      simp only [comes.reads _ delimited]
      have others : ∀ other ∈ elements, Comes read write other :=
        fun other member => each other (List.mem_cons_of_mem _ member)
      rw [readElements_more rest elements (element :: done) fewer (List.cons_ne_nil _ _)
        (Nat.lt_of_succ_lt_succ room) others]
      simp

/-- Elements with commas between them are read up to the closing bracket. -/
theorem readElements_separated (rest : List Char) {elements : List Element}
    (each : ∀ element ∈ elements, Comes read write element) :
    readElements close read ((separated write elements ++ close :: rest).length + 1) []
        (separated write elements ++ close :: rest) = .ok (elements, rest) := by
  cases elements with
  | nil =>
    rw [separated, List.nil_append, readElements, nextElement_close closes]
    rfl
  | cons first others =>
    have comes := each first List.mem_cons_self
    have more := readElements_more closes rest others [first]
      ((separated write (first :: others) ++ close :: rest).length) (List.cons_ne_nil _ _)
      (by
        have fewer := length_le_flatMap_comma write others
        simp only [separated, List.length_append, List.length_cons]
        omega)
      fun other member => each other (List.mem_cons_of_mem _ member)
    have delimited := delimited_more closes write others rest
    rw [readElements]
    simp only [separated, List.append_assoc, List.isEmpty_nil] at more ⊢
    rw [comes.opens.nextElement_first closes]
    simp only [comes.reads _ delimited]
    exact more

end Elements

/-! ## The texts of values -/

private theorem toList_compactItems : ∀ items : List Value,
    (compactItems items).toList = separated (fun item => (compact item).toList) items
  | [] => rfl
  | [item] => by simp [compactItems, separated]
  | item :: next :: rest => by
      rw [compactItems, String.toList_append, String.toList_append, toList_compactItems]
      · simp [separated]
      · simp

def memberText (member : String × Value) : List Char :=
  (quoted member.1).toList ++ ':' :: (compact member.2).toList

private theorem toList_compactMembers : ∀ members : List (String × Value),
    (compactMembers members).toList = separated memberText members
  | [] => rfl
  | [(key, value)] => by simp [compactMembers, separated, memberText]
  | (key, value) :: next :: rest => by
      rw [compactMembers, String.toList_append, String.toList_append, toList_compactMembers]
      · simp [separated, memberText]
      · simp

private theorem toList_compact_list (items : List Value) :
    (compact (.list items)).toList
      = '[' :: (separated (fun item => (compact item).toList) items ++ [']']) := by
  rw [compact, String.toList_append, String.toList_append, toList_compactItems]
  rfl

theorem toList_compact_record (members : List (String × Value)) :
    (compact (.record members)).toList = '\x7b' :: (separated memberText members ++ ['\x7d']) := by
  rw [compact, String.toList_append, String.toList_append, toList_compactMembers]
  rfl

/-! ## Reading members -/

/-- A key that is written is read back. -/
theorem readKey_quoted (key : String) (rest : List Char) :
    readKey ((quoted key).toList ++ rest) = .ok (key, rest) := by
  rw [toList_quoted, List.cons_append, List.append_assoc]
  exact readText_quoted key rest

theorem readColon_colon (rest : List Char) : readColon (':' :: rest) = .ok rest := by
  rw [readColon.eq_def, skipSpace_cons (by decide)]
  rfl

/-- A member is its key, a colon and its value. -/
theorem memberText_append (member : String × Value) (rest : List Char) :
    memberText member ++ rest
      = (quoted member.1).toList ++ ':' :: ((compact member.2).toList ++ rest) := by
  rw [memberText, List.append_assoc, List.cons_append]

theorem opens_memberText (member : String × Value) : Opens (memberText member) := by
  rw [memberText, toList_quoted]
  exact ⟨_, _, rfl, by decide, by decide, by decide⟩

/-- A member is read when its value is. -/
theorem comes_member {read : List Char → Read Value} {member : String × Value}
    (comes : Comes read (fun value => (compact value).toList) member.2) :
    Comes (readMember read) memberText member := by
  refine ⟨opens_memberText member, fun rest delimited => ?_⟩
  rw [memberText_append, readMember, readKey_quoted]
  simp only [readColon_colon, comes.reads rest delimited]
  rfl

/-! ## Reading values -/

/-- An item is no deeper than the deepest one. -/
theorem depth_le_of_mem_items {item : Value} : ∀ {items : List Value}, item ∈ items →
    item.depth ≤ Value.depthOfItems items
  | first :: rest, member => by
      rw [Value.depthOfItems]
      rcases List.mem_cons.1 member with rfl | member
      · exact Nat.le_max_left _ _
      · exact Nat.le_trans (depth_le_of_mem_items member) (Nat.le_max_right _ _)

theorem depth_le_of_mem_members {member : String × Value} :
    ∀ {members : List (String × Value)}, member ∈ members →
      member.2.depth ≤ Value.depthOfMembers members
  | first :: rest, among => by
      rw [Value.depthOfMembers]
      rcases List.mem_cons.1 among with rfl | among
      · exact Nat.le_max_left _ _
      · exact Nat.le_trans (depth_le_of_mem_members among) (Nat.le_max_right _ _)

/-- A number starts with a sign or a digit. -/
theorem head_of_readNumber {text : List Char} {result : Value × List Char}
    (read : readNumber text = .ok result) :
    ∃ first tail, text = first :: tail ∧ (first = '-' ∨ first.isDigit = true) := by
  cases text with
  | nil => cases read
  | cons first tail =>
    refine ⟨first, tail, rfl, ?_⟩
    by_cases minus : first = '-'
    · exact .inl minus
    · have unsigned : (first :: tail).head? ≠ some '-' := fun same => minus (Option.some.inj same)
      rw [readNumber_unsigned unsigned, readMagnitude, readWhole, readDigitRun] at read
      by_cases digit : first.isDigit = true
      · exact .inr digit
      · rw [if_neg digit] at read
        cases read

/-- Of the characters that a number starts with none is special to a reader of values. -/
theorem Opens.of_number {first : Char} (starts : first = '-' ∨ first.isDigit = true)
    (tail : List Char) : Opens (first :: tail) := by
  refine ⟨first, tail, rfl, ?_⟩
  have apart : ∀ other : Char, other ≠ '-' → other.isDigit = false → first ≠ other := by
    rintro other noMinus noDigit rfl
    rcases starts with minus | digit
    · exact noMinus minus
    · rw [noDigit] at digit
      cases digit
  refine ⟨?_, apart _ (by decide) (by decide), apart _ (by decide) (by decide)⟩
  simp [isSpace, apart ' ' (by decide) (by decide), apart '\n' (by decide) (by decide),
    apart '\t' (by decide) (by decide), apart '\r' (by decide) (by decide)]

/-- A text that starts like a number is read as one. -/
theorem readValue_number {first : Char} (starts : first = '-' ∨ first.isDigit = true)
    (limit : Nat) (tail : List Char) :
    readValue limit (first :: tail) = readNumber (first :: tail) := by
  obtain ⟨_, _, same, solid, _, _⟩ := Opens.of_number starts tail
  cases same
  have started : (first = '-' || first.isDigit) = true := by simpa using starts
  rw [readValue.eq_def, skipSpace_cons solid]
  split
  case h_8 same => 
    cases same
    rw [if_pos started]
  case h_1 same => cases same
  all_goals
    rename_i same
    cases same
    exact absurd starts (by decide)

/-- The text of a number in front of more. -/
theorem comes_number {value : Value}
    (read : readNumber (compact value).toList = .ok (value, [])) (limit : Nat) :
    Comes (readValue limit) (fun value => (compact value).toList) value := by
  obtain ⟨first, tail, same, starts⟩ := head_of_readNumber read
  refine ⟨?_, fun rest delimited => ?_⟩
  · simp only [same]
    exact Opens.of_number starts tail
  · have appended := readNumber_append read delimited
    simp only [same, List.cons_append, List.nil_append] at appended ⊢
    rw [readValue_number starts, appended]

/-- A readable value that is nested no deeper than the limit is read back from its text. -/
theorem comes_compact {value : Value} (readable : Readable value) :
    ∀ {limit : Nat}, value.depth ≤ limit →
      Comes (readValue limit) (fun value => (compact value).toList) value := by
  induction readable with
  | null =>
    intro limit _
    refine ⟨⟨_, _, rfl, by decide, by decide, by decide⟩, fun rest _ => ?_⟩
    rw [readValue.eq_def]
    rfl
  | boolean value =>
    intro limit _
    cases value with
    | true =>
      refine ⟨⟨_, _, rfl, by decide, by decide, by decide⟩, fun rest _ => ?_⟩
      rw [readValue.eq_def]
      rfl
    | false =>
      refine ⟨⟨_, _, rfl, by decide, by decide, by decide⟩, fun rest _ => ?_⟩
      rw [readValue.eq_def]
      rfl
  | @integer value least greatest =>
    intro limit _
    have read : readNumber (compact (.integer value)).toList = .ok (.integer value, []) := by
      rw [compact]
      exact readNumber_toString least greatest
    exact comes_number read limit
  | decimal back =>
    intro limit _
    exact comes_number back limit
  | text content =>
    intro limit _
    have same : (compact (.text content)).toList
        = '"' :: (content.toList.flatMap escapeChar ++ ['"']) := toList_quoted content
    refine ⟨⟨_, _, same, by decide, by decide, by decide⟩, fun rest _ => ?_⟩
    simp only [same, List.cons_append, List.append_assoc, List.nil_append]
    rw [readValue.eq_def, skipSpace_cons (by decide)]
    simp only [readText_quoted]
    rfl
  | @list items each ih =>
    intro limit shallow
    have same := toList_compact_list items
    refine ⟨⟨_, _, same, by decide, by decide, by decide⟩, fun rest _ => ?_⟩
    rw [Value.depth] at shallow
    obtain ⟨inner, rfl⟩ : ∃ inner, limit = inner + 1 := ⟨limit - 1, by omega⟩
    have comes : ∀ item ∈ items,
        Comes (readValue inner) (fun value => (compact value).toList) item :=
      fun item member => ih item member (by
        have bounded := depth_le_of_mem_items member
        omega)
    simp only [same, List.cons_append, List.append_assoc, List.nil_append]
    rw [readValue.eq_def, skipSpace_cons (by decide)]
    simp only [readElements_separated (.inl rfl) rest comes]
    rfl
  | @record members each ih =>
    intro limit shallow
    have same := toList_compact_record members
    refine ⟨⟨_, _, same, by decide, by decide, by decide⟩, fun rest _ => ?_⟩
    rw [Value.depth] at shallow
    obtain ⟨inner, rfl⟩ : ∃ inner, limit = inner + 1 := ⟨limit - 1, by omega⟩
    have comes : ∀ member ∈ members, Comes (readMember (readValue inner)) memberText member :=
      fun member among => comes_member (ih member among (by
        have bounded := depth_le_of_mem_members among
        omega))
    simp only [same, List.cons_append, List.append_assoc, List.nil_append]
    rw [readValue.eq_def, skipSpace_cons (by decide)]
    simp only [readElements_separated (.inr rfl) rest comes]
    rfl

/-- A readable value is read back from the whole text that is written from it. -/
theorem read_compact {value : Value} (readable : Readable value) {limit : Nat}
    (shallow : value.depth ≤ limit) : read limit (compact value).toList = .ok value := by
  have whole := (comes_compact readable shallow).reads [] delimited_nil
  rw [List.append_nil] at whole
  rw [read, whole]
  rfl

end NetBlueprint.Json
