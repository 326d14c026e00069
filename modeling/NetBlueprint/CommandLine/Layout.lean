/-!
Contract: texts of a given width.

Widths count characters. A text that is too wide for its column stays as it is, unless it is cut
on purpose.
-/

namespace NetBlueprint.CommandLine

def blanks (count : Nat) : String :=
  String.ofList (List.replicate count ' ')

def padRight (width : Nat) (text : String) : String :=
  text ++ blanks (width - text.length)

def padLeft (width : Nat) (text : String) : String :=
  blanks (width - text.length) ++ text

/-- Fills a text up on both sides; an odd blank goes to the right. -/
def padBoth (width : Nat) (text : String) : String :=
  let left := (width - text.length) / 2
  blanks left ++ text ++ blanks (width - text.length - left)

def truncate (width : Nat) (text : String) : String :=
  if text.length ≤ width then text else String.ofList (text.toList.take (width - 3)) ++ "..."

def repeated (count : Nat) (text : String) : String :=
  String.join (List.replicate count text)

/-- Lines of two columns, the first as wide as its widest text. -/
def twoColumns (rows : List (String × String)) : List String :=
  let width := rows.foldl (fun widest row => max widest row.1.length) 0
  rows.map fun row => "  " ++ padRight width row.1 ++ "  " ++ row.2

end NetBlueprint.CommandLine
