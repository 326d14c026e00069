import NetBlueprint.Toml.Scalar

/-!
Contract: reading TOML documents.

A document is a sequence of lines: assignments, table headers, comments and blank lines. The
reader answers with the entries of the document, or with nothing where the text is at fault
anywhere.
-/

namespace NetBlueprint.Toml

/-- What is read from the front of a text, with the rest of the text. -/
abbrev Read (Result : Type) := Option (Result × List Char)

def skipSpace (text : List Char) : List Char :=
  text.dropWhile fun character => character == ' ' || character == '\t'

def isPrintable (character : Char) : Bool :=
  character == '\t' || (decide (0x20 ≤ character.toNat) && character.toNat != 0x7f)

def skipComment (text : List Char) : List Char :=
  match text with
  | '#' :: rest => rest.dropWhile isPrintable
  | _ => text

def newline? : List Char → Option (List Char)
  | '\n' :: rest => some rest
  | '\r' :: '\n' :: rest => some rest
  | _ => none

/-- Takes blanks, a comment and the end of the line or of the text. -/
def lineEnd? (text : List Char) : Option (List Char) :=
  match skipComment (skipSpace text) with
  | [] => some []
  | rest => newline? rest

/-- Skips blanks, comments and line ends. The budget bounds the number of lines. -/
def skipLines : Nat → List Char → List Char
  | 0, text => text
  | budget + 1, text =>
    let rest := skipComment (skipSpace text)
    match newline? rest with
    | some after => skipLines budget after
    | none => rest

/-! ## Strings -/

def readCodePoint (width : Nat) (text : List Char) : Read Char :=
  let digits := text.take width
  if digits.length = width && digits.all (isDigitOf 16) then
    let value := numberIn 16 digits
    if value < 0xd800 || (0xe000 ≤ value && value < 0x110000) then
      some (Char.ofNat value, text.drop width)
    else none
  else none

def readEscape : List Char → Read Char
  | 'b' :: rest => some ('\x08', rest)
  | 't' :: rest => some ('\t', rest)
  | 'n' :: rest => some ('\n', rest)
  | 'f' :: rest => some ('\x0c', rest)
  | 'r' :: rest => some ('\r', rest)
  | '"' :: rest => some ('"', rest)
  | '\\' :: rest => some ('\\', rest)
  | 'u' :: rest => readCodePoint 4 rest
  | 'U' :: rest => readCodePoint 8 rest
  | _ => none

def skipBlankLines : Nat → List Char → List Char
  | 0, text => text
  | budget + 1, text =>
    let rest := skipSpace text
    match newline? rest with
    | some after => skipBlankLines budget after
    | none => rest

/-- Skips blanks and line ends after a backslash that ends a line. -/
def skipFold (text : List Char) : Option (List Char) :=
  (newline? (skipSpace text)).map (skipBlankLines text.length)

/-- Reads a string on one line after its opening quote; only the double quote has escapes. The
characters read so far stand in front, the last first. -/
def readLineString (quote : Char) : Nat → List Char → List Char → Read String
  | 0, _, _ => none
  | budget + 1, done, text =>
    match text with
    | [] => none
    | first :: rest =>
      if first = quote then some (String.ofList done.reverse, rest)
      else if first = '\\' && quote = '"' then
        match readEscape rest with
        | none => none
        | some (character, after) => readLineString quote budget (character :: done) after
      else if isPrintable first then readLineString quote budget (first :: done) rest
      else none

/-- Counts the quotes that a text starts with, up to five. -/
def leadingQuotes (quote : Char) (text : List Char) : Nat :=
  ((text.take 5).takeWhile (· == quote)).length

/-- Reads a string over several lines after its three opening quotes. Of the quotes at its end the
last three close it. -/
def readBlockString (quote : Char) : Nat → List Char → List Char → Read String
  | 0, _, _ => none
  | budget + 1, done, text =>
    let quotes := leadingQuotes quote text
    if 3 ≤ quotes then
      some (String.ofList (List.replicate (quotes - 3) quote ++ done).reverse, text.drop quotes)
    else
      match text with
      | [] => none
      | first :: rest =>
        if first = '\\' && quote = '"' then
          match readEscape rest with
          | some (character, after) => readBlockString quote budget (character :: done) after
          | none =>
            match skipFold rest with
            | some after => readBlockString quote budget done after
            | none => none
        else if isPrintable first then readBlockString quote budget (first :: done) rest
        else
          match newline? text with
          | some after => readBlockString quote budget ('\n' :: done) after
          | none => none

def readString (quote : Char) (text : List Char) : Read String :=
  if leadingQuotes quote text ≥ 3 then
    let body := text.drop 3
    readBlockString quote (text.length + 1) [] ((newline? body).getD body)
  else readLineString quote (text.length + 1) [] (text.drop 1)

/-! ## Keys -/

def isKeyChar (character : Char) : Bool :=
  character.isAlphanum || character == '_' || character == '-'

def readKeyPart (text : List Char) : Read String :=
  match text with
  | '"' :: rest => readLineString '"' (rest.length + 1) [] rest
  | '\'' :: rest => readLineString '\'' (rest.length + 1) [] rest
  | _ =>
    let part := text.takeWhile isKeyChar
    if part.isEmpty then none else some (String.ofList part, text.dropWhile isKeyChar)

def readKeyParts : Nat → List Char → Read Path
  | 0, _ => none
  | budget + 1, text =>
    match readKeyPart (skipSpace text) with
    | none => none
    | some (part, rest) =>
      match skipSpace rest with
      | '.' :: after =>
        (readKeyParts budget after).map fun (path, remaining) => (part :: path, remaining)
      | remaining => some ([part], remaining)

/-- How many arrays and inline tables may be nested, and how many parts a key may have. -/
def depthLimit : Nat := 79

def readKey (text : List Char) : Read Path :=
  readKeyParts depthLimit text

/-! ## Values -/

/-- Reads an unquoted value; a date may be followed by a blank and a time. -/
def readScalar (text : List Char) : Read Node :=
  let token := text.takeWhile isScalarChar
  let rest := text.dropWhile isScalarChar
  let joined? : Read Node :=
    match rest with
    | ' ' :: after =>
      let time := after.takeWhile isScalarChar
      if isDate token && isZonedTime time then some (.other, after.dropWhile isScalarChar) else none
    | _ => none
  match joined? with
  | some found => some found
  | none => (scalar? token).map fun node => (node, rest)

/-- Reads the items of an array after its opening bracket; the budget bounds their number. The
items read so far stand in front, the last first. -/
def readItems (value : List Char → Read Node) : Nat → List Node → List Char → Read (List Node)
  | 0, _, _ => none
  | budget + 1, done, text =>
    match skipLines text.length text with
    | ']' :: rest => some (done.reverse, rest)
    | start =>
      match value start with
      | none => none
      | some (item, after) =>
        match skipLines after.length after with
        | ',' :: rest => readItems value budget (item :: done) rest
        | ']' :: rest => some ((item :: done).reverse, rest)
        | _ => none

/-- Reads the assignments of an inline table and adds them to its entries; the budget bounds their
number. -/
def readPairs (value : List Char → Read Node) : Nat → Entries → List Char → Read Entries
  | 0, _, _ => none
  | budget + 1, entries, text =>
    match readKey text with
    | some (key, '=' :: afterKey) =>
      match value (skipSpace afterKey) with
      | none => none
      | some (found, afterValue) =>
        match entries.assign key found with
        | none => none
        | some extended =>
          match skipSpace afterValue with
          | ',' :: rest => readPairs value budget extended rest
          | '\x7d' :: rest => some (extended, rest)
          | _ => none
    | _ => none

/-- Reads a value; `limit` is the number of arrays and inline tables that may still be opened. -/
def readValue (limit : Nat) (text : List Char) : Read Node :=
  match text with
  | '"' :: _ => (readString '"' text).map fun (content, rest) => (.text content, rest)
  | '\'' :: _ => (readString '\'' text).map fun (content, rest) => (.text content, rest)
  | '[' :: rest =>
    match limit with
    | 0 => none
    | inner + 1 =>
      (readItems (readValue inner) (rest.length + 1) [] rest).map fun (items, after) =>
        (.array items, after)
  | '\x7b' :: rest =>
    match limit with
    | 0 => none
    | inner + 1 =>
      match skipSpace rest with
      | '\x7d' :: after => some (.inline [], after)
      | start =>
        (readPairs (readValue inner) (start.length + 1) [] start).map fun (entries, after) =>
          (.inline entries, after)
  | _ => readScalar text

/-! ## Documents -/

/-- The table that assignments go to, and everything defined so far. -/
structure Reading where
  table : Path
  entries : Entries

def readHeader (reading : Reading) (text : List Char) : Option (Reading × List Char) :=
  match text with
  | '[' :: rest =>
    match readKey rest with
    | some (path, ']' :: ']' :: after) =>
      (reading.entries.openSeries path).map fun entries => (⟨path, entries⟩, after)
    | _ => none
  | _ =>
    match readKey text with
    | some (path, ']' :: after) =>
      (reading.entries.openHeader path).map fun entries => (⟨path, entries⟩, after)
    | _ => none

def readAssignment (reading : Reading) (text : List Char) : Option (Reading × List Char) :=
  match readKey text with
  | some (key, '=' :: afterKey) =>
    match readValue depthLimit (skipSpace afterKey) with
    | none => none
    | some (value, after) =>
      (reading.entries.assignIn reading.table key value).map fun entries =>
        ({ reading with entries }, after)
  | _ => none

def readDocument : Nat → Reading → List Char → Option Entries
  | 0, _, _ => none
  | budget + 1, reading, text =>
    match skipLines text.length text with
    | [] => some reading.entries
    | start =>
      let line := match start with
        | '[' :: rest => readHeader reading rest
        | _ => readAssignment reading start
      match line with
      | none => none
      | some (further, after) =>
        match lineEnd? after with
        | none => none
        | some rest => readDocument budget further rest

/-- Reads a document. A mark of the byte order at its start is skipped. -/
def read (text : String) : Option Entries :=
  let characters := match text.toList with
    | '\ufeff' :: rest => rest
    | whole => whole
  readDocument (characters.length + 1) ⟨[], []⟩ characters

end NetBlueprint.Toml
