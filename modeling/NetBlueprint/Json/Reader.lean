import NetBlueprint.Json.Number

/-!
Contract: reading JSON texts.

The reader answers with the first fault in the order of the text. The nesting of lists and records
is limited; the limit is a parameter and one level too many is malformed. Within a string an
escaped surrogate needs its partner, and control characters are refused.
-/

namespace NetBlueprint.Json

def isSpace (character : Char) : Bool :=
  character == ' ' || character == '\n' || character == '\t' || character == '\r'

def skipSpace (text : List Char) : List Char :=
  text.dropWhile isSpace

def readRest : List Char → List Char → Except Fault (List Char)
  | [], text => .ok text
  | _ :: _, [] => .error .unfinished
  | expected :: more, found :: rest =>
    if expected = found then readRest more rest else .error .malformed

def hexValue? (character : Char) : Option Nat :=
  if character.isDigit then some (character.toNat - '0'.toNat)
  else if 'a' ≤ character && character ≤ 'f' then some (character.toNat - 'a'.toNat + 10)
  else if 'A' ≤ character && character ≤ 'F' then some (character.toNat - 'A'.toNat + 10)
  else none

/-- Reads four hexadecimal digits. Fewer than four bytes of text are an early end. -/
def readHex (text : List Char) : Read Nat :=
  let four := text.take 4
  if (four.foldr (fun character size => character.utf8Size + size) 0) < 4 then .error .unfinished
  else
    match four.mapM hexValue? with
    | some [a, b, c, d] => .ok (((a * 16 + b) * 16 + c) * 16 + d, text.drop 4)
    | _ => .error .malformed

/-- Reads the partner of a high surrogate and joins the two. -/
def readPartner (high : Nat) (text : List Char) : Read Char :=
  match text with
  | [] => .error .unfinished
  | '\\' :: [] => .error .unfinished
  | '\\' :: 'u' :: rest =>
    match readHex rest with
    | .error fault => .error fault
    | .ok (low, after) =>
      if 0xdc00 ≤ low && low ≤ 0xdfff then
        .ok (Char.ofNat (0x10000 + (high - 0xd800) * 0x400 + (low - 0xdc00)), after)
      else .error .malformed
  | _ => .error .malformed

def readEscape (text : List Char) : Read Char :=
  match text with
  | [] => .error .unfinished
  | mark :: rest =>
    if mark = 'u' then
      match readHex rest with
      | .error fault => .error fault
      | .ok (unit, after) =>
        if 0xdc00 ≤ unit && unit ≤ 0xdfff then .error .malformed
        else if 0xd800 ≤ unit && unit ≤ 0xdbff then readPartner unit after
        else .ok (Char.ofNat unit, after)
    else
      match mark with
      | '"' => .ok ('"', rest)
      | '\\' => .ok ('\\', rest)
      | '/' => .ok ('/', rest)
      | 'b' => .ok ('\x08', rest)
      | 'f' => .ok ('\x0c', rest)
      | 'n' => .ok ('\n', rest)
      | 'r' => .ok ('\r', rest)
      | 't' => .ok ('\t', rest)
      | _ => .error .malformed

/-- Reads a string after its opening quote. The budget bounds the number of characters; the ones
already read stand in front, the last first. -/
def readString : Nat → List Char → List Char → Read String
  | 0, _, _ => .error .unfinished
  | budget + 1, done, text =>
    match text with
    | [] => .error .unfinished
    | first :: rest =>
      if first = '"' then .ok (String.ofList done.reverse, rest)
      else if first = '\\' then
        match readEscape rest with
        | .error fault => .error fault
        | .ok (character, after) => readString budget (character :: done) after
      else if first.toNat < 0x20 then .error .malformed
      else readString budget (first :: done) rest

def readText (text : List Char) : Read String :=
  readString (text.length + 1) [] text

/-- Reads the key of a member, whose opening quote is still ahead. -/
def readKey (text : List Char) : Read String :=
  match text with
  | [] => .error .unfinished
  | '"' :: rest => readText rest
  | _ => .error .malformed

def readColon (text : List Char) : Except Fault (List Char) :=
  match skipSpace text with
  | [] => .error .unfinished
  | ':' :: rest => .ok rest
  | _ => .error .malformed

def readMember (value : List Char → Read Value) (text : List Char) : Read (String × Value) :=
  match readKey text with
  | .error fault => .error fault
  | .ok (key, afterKey) =>
    match readColon afterKey with
    | .error fault => .error fault
    | .ok afterColon => (value afterColon).map fun (member, rest) => ((key, member), rest)

/-- Goes to the next element of a list or record that `close` ends: none at its end, otherwise the
text at the element. -/
def nextElement (close : Char) (isFirst : Bool) (text : List Char) :
    Except Fault (Option (List Char) × List Char) :=
  match skipSpace text with
  | [] => .error .unfinished
  | first :: rest =>
    if first = close then .ok (none, rest)
    else if isFirst then .ok (some (first :: rest), [])
    else if first = ',' then
      match skipSpace rest with
      | [] => .error .unfinished
      | next :: after =>
        if next = close then .error .malformed else .ok (some (next :: after), [])
    else .error .malformed

/-- Reads the elements of a list or record after its opening bracket, up to the closing one. The
budget bounds their number; the ones already read stand in front, the last first. -/
def readElements {Element : Type} (close : Char) (element : List Char → Read Element) :
    Nat → List Element → List Char → Read (List Element)
  | 0, _, _ => .error .unfinished
  | budget + 1, done, text =>
    match nextElement close done.isEmpty text with
    | .error fault => .error fault
    | .ok (none, rest) => .ok (done.reverse, rest)
    | .ok (some ahead, _) =>
      match element ahead with
      | .error fault => .error fault
      | .ok (read, rest) => readElements close element budget (read :: done) rest

/-- Reads a value; `limit` is the number of lists and records that may still be opened. -/
def readValue (limit : Nat) (text : List Char) : Read Value :=
  match skipSpace text with
  | [] => .error .unfinished
  | 'n' :: rest => (readRest "ull".toList rest).map fun after => (.null, after)
  | 't' :: rest => (readRest "rue".toList rest).map fun after => (.boolean true, after)
  | 'f' :: rest => (readRest "alse".toList rest).map fun after => (.boolean false, after)
  | '"' :: rest => (readText rest).map fun (content, after) => (.text content, after)
  | '[' :: rest =>
    match limit with
    | 0 => .error .malformed
    | inner + 1 =>
      (readElements ']' (readValue inner) (rest.length + 1) [] rest).map fun (items, after) =>
        (.list items, after)
  | '\x7b' :: rest =>
    match limit with
    | 0 => .error .malformed
    | inner + 1 =>
      (readElements '\x7d' (readMember (readValue inner)) (rest.length + 1) [] rest).map
        fun (members, after) => (.record members, after)
  | first :: rest =>
    if first = '-' || first.isDigit then readNumber (first :: rest) else .error .malformed

/-- Reads a value that is the whole text, up to blanks. -/
def read (limit : Nat) (text : List Char) : Except Fault Value :=
  match readValue limit text with
  | .error fault => .error fault
  | .ok (value, rest) => if (skipSpace rest).isEmpty then .ok value else .error .malformed

end NetBlueprint.Json
