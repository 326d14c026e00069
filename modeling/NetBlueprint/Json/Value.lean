/-!
Contract: JSON values.

A record keeps its members in the order of the text, repeated keys included, and an integer that
fits 64 bits is told apart from every other number. Both matter to whoever decodes the value.
-/

namespace NetBlueprint.Json

/-- A JSON value. Reading never makes a `single`; it is for writing 32-bit numbers. -/
inductive Value where
  | null
  | boolean (value : Bool)
  | integer (value : Int)
  | decimal (value : Float)
  | single (value : Float32)
  | text (value : String)
  | list (items : List Value)
  | record (members : List (String × Value))
deriving Inhabited

namespace Value

def member? (key : String) (members : List (String × Value)) : Option Value :=
  members.lookup key

mutual

def depth : Value → Nat
  | .list items => 1 + depthOfItems items
  | .record members => 1 + depthOfMembers members
  | _ => 0

def depthOfItems : List Value → Nat
  | [] => 0
  | item :: rest => max (depth item) (depthOfItems rest)

def depthOfMembers : List (String × Value) → Nat
  | [] => 0
  | (_, value) :: rest => max (depth value) (depthOfMembers rest)

end

end Value

end NetBlueprint.Json
