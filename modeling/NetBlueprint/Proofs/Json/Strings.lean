import NetBlueprint.Json.Reader
import NetBlueprint.Json.Writer

/-!
Contract: a written string reads back.

Owns:
- `readString_escapeChar`: the reader takes what one character is written as and comes to that
  character, whether it is escaped by a letter, by its digits or not at all;
- `readText_quoted`: a string is read to its closing quote and what follows is left alone.

Does not own: escapes that only a reader knows, such as joined surrogates.
-/

namespace NetBlueprint.Json

private theorem controlDigits_spec : ∀ value : Fin 32,
    let digits := Nat.toDigits 16 value.val
    let four := List.replicate (4 - digits.length) '0' ++ digits
    four.length = 4 ∧ (four.foldr (fun character size => character.utf8Size + size) 0) = 4 ∧
      four.mapM hexValue? = some [0, 0, value.val / 16, value.val % 16] := by
  decide

/-- The digits of a control character are read back to its number. -/
theorem readHex_controlDigits {value : Nat} (control : value < 32) (rest : List Char) :
    readHex (List.replicate (4 - (Nat.toDigits 16 value).length) '0' ++ Nat.toDigits 16 value
      ++ rest) = .ok (value, rest) := by
  obtain ⟨length, size, values⟩ := controlDigits_spec ⟨value, control⟩
  simp only at length size values
  rw [readHex, List.take_left' length, List.drop_left' length, if_neg (by omega), values]
  have same : ((0 * 16 + 0) * 16 + value / 16) * 16 + value % 16 = value := by omega
  simp only [same]

/-- One written character is read as that character. -/
theorem readString_escapeChar (budget : Nat) (done : List Char) (character : Char)
    (rest : List Char) :
    readString (budget + 1) done (escapeChar character ++ rest)
      = readString budget (character :: done) rest := by
  unfold escapeChar
  split
  case h_8 noQuote noBackslash _ _ _ _ _ =>
    split
    · rename_i control
      have noSurrogate : ¬ 0xdc00 ≤ character.toNat ∧ ¬ 0xd800 ≤ character.toNat := by omega
      have digits := readHex_controlDigits control rest
      rw [List.append_assoc] at digits
      simp [controlEscape, readString, readEscape, digits, noSurrogate]
    · rename_i printable
      have plain : ¬ character = '"' ∧ ¬ character = '\\' := ⟨noQuote, noBackslash⟩
      simp [readString, plain, printable]
  all_goals simp [readString, readEscape]

/-- The written characters of a string are read one after the other. -/
theorem readString_flatMap_escapeChar (rest : List Char) : ∀ (characters : List Char)
    (budget : Nat) (done : List Char), characters.length < budget →
    readString budget done (characters.flatMap escapeChar ++ '"' :: rest)
      = .ok (String.ofList (done.reverse ++ characters), rest)
  | [], budget, done, room => by
      obtain ⟨fewer, rfl⟩ := Nat.exists_eq_add_one_of_ne_zero (Nat.ne_of_gt room)
      simp [readString]
  | character :: characters, budget, done, room => by
      obtain ⟨fewer, rfl⟩ := Nat.exists_eq_add_one_of_ne_zero (Nat.ne_zero_of_lt room)
      rw [List.flatMap_cons, List.append_assoc, readString_escapeChar,
        readString_flatMap_escapeChar rest characters fewer (character :: done)
          (Nat.lt_of_succ_lt_succ room)]
      simp

/-- A character is written as at least one. -/
theorem escapeChar_ne_nil (character : Char) : escapeChar character ≠ [] := by
  unfold escapeChar controlEscape
  split <;> first | exact List.cons_ne_nil _ _ | (split <;> exact List.cons_ne_nil _ _)

private theorem length_le_flatMap_escapeChar : ∀ characters : List Char,
    characters.length ≤ (characters.flatMap escapeChar).length
  | [] => Nat.zero_le _
  | character :: characters => by
      have one := List.length_pos_iff.2 (escapeChar_ne_nil character)
      have others := length_le_flatMap_escapeChar characters
      simp only [List.flatMap_cons, List.length_append, List.length_cons]
      omega

/-- The characters of a written string. -/
theorem toList_quoted (text : String) :
    (quoted text).toList = '"' :: (text.toList.flatMap escapeChar ++ ['"']) := by
  rw [quoted, String.toList_ofList]

/-- A written string is read back after its opening quote. -/
theorem readText_quoted (text : String) (rest : List Char) :
    readText (text.toList.flatMap escapeChar ++ '"' :: rest) = .ok (text, rest) := by
  have room := length_le_flatMap_escapeChar text.toList
  rw [readText, readString_flatMap_escapeChar rest text.toList _ [] (by
    simp only [List.length_append, List.length_cons]
    omega)]
  simp

end NetBlueprint.Json
