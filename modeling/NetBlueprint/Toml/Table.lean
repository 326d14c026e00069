/-!
Contract: what a TOML document defines, and which definitions exclude each other.

A document is a table whose entries keep the order in which they were opened. A table inside it is
opened by a header of its own, implied by a longer header, or opened by dotted keys. A key is
defined once. A header may open what other headers imply, a dotted key adds to what dotted keys
opened, and nothing adds to a value.
-/

namespace NetBlueprint.Toml

inductive Origin where
  | header
  | implied
  | dotted
deriving DecidableEq, Repr

/-- What a key stands for. Numbers with a fraction and dates are told apart from the rest only. A
series of tables has at least one, the last of which is still open. -/
inductive Node where
  | text (content : String)
  | integer (value : Int)
  | boolean (value : Bool)
  | other
  | array (items : List Node)
  | inline (entries : List (String × Node))
  | table (origin : Origin) (entries : List (String × Node))
  | series (earlier : List (List (String × Node))) (last : List (String × Node))
deriving Inhabited

abbrev Entries := List (String × Node)

abbrev Path := List String

namespace Node

/-- Decides whether a node is an array or a table without content. -/
def isVoid : Node → Bool
  | .array items => items.isEmpty
  | .inline entries => entries.isEmpty
  | .table _ entries => entries.isEmpty
  | _ => false

/-- The name that a node chooses: a text, or the only key of a table, under which nothing
stands. -/
def choice? : Node → Option String
  | .text content => some content
  | .inline [(key, content)] => if content.isVoid then some key else none
  | .table _ [(key, content)] => if content.isVoid then some key else none
  | _ => none

end Node

namespace Entries

def node? (entries : Entries) (key : String) : Option Node :=
  entries.lookup key

/-- Adds an entry under a key that is not defined yet. -/
def define (entries : Entries) (key : String) (node : Node) : Option Entries :=
  if (entries.node? key).isSome then none else some (entries ++ [(key, node)])

def replace (entries : Entries) (key : String) (node : Node) : Entries :=
  entries.map fun entry => if entry.1 = key then (key, node) else entry

/-- Changes the table at the end of a path. A missing table on the way is opened. A dotted path
does not lead through a table with a header of its own; a series is entered at its last table. -/
def change (dotted : Bool) (edit : Origin → Entries → Option Entries) :
    Path → Origin → Entries → Option Entries
  | [], origin, entries => edit origin entries
  | key :: rest, _, entries =>
    match entries.node? key with
    | none =>
      let origin := if dotted then Origin.dotted else .implied
      (change dotted edit rest origin []).map fun inner => entries ++ [(key, .table origin inner)]
    | some (.table origin inner) =>
      if dotted && origin = .header then none
      else
        (change dotted edit rest origin inner).map fun changed =>
          entries.replace key (.table origin changed)
    | some (.series earlier last) =>
      (change dotted edit rest .header last).map fun changed =>
        entries.replace key (.series earlier changed)
    | some _ => none

/-- Changes the table that holds the last key of a path. -/
def changeHolder (dotted : Bool) (edit : String → Origin → Entries → Option Entries) (path : Path)
    (entries : Entries) : Option Entries :=
  match path.getLast? with
  | none => none
  | some key => change dotted (edit key) path.dropLast .header entries

/-- Assigns a value to a key. The parts of the key before its last one have to lead to a table
that dotted keys opened. -/
def assign (key : Path) (value : Node) (entries : Entries) : Option Entries :=
  changeHolder true (fun last origin holder =>
    if 1 < key.length && origin != .dotted then none else holder.define last value) key entries

/-- Opens a table by its header. A table that other headers imply keeps its content. -/
def openHeader (path : Path) (entries : Entries) : Option Entries :=
  changeHolder false (fun last _ holder =>
    match holder.node? last with
    | none => some (holder ++ [(last, .table .header [])])
    | some (.table .implied inner) => some (holder.replace last (.table .header inner))
    | some _ => none) path entries

def openSeries (path : Path) (entries : Entries) : Option Entries :=
  changeHolder false (fun last _ holder =>
    match holder.node? last with
    | none => some (holder ++ [(last, .series [] [])])
    | some (.series earlier current) =>
      some (holder.replace last (.series (earlier ++ [current]) []))
    | some _ => none) path entries

def assignIn (table key : Path) (value : Node) (entries : Entries) : Option Entries :=
  change false (fun _ inner => assign key value inner) table .header entries

end Entries

end NetBlueprint.Toml
