import NetBlueprint.Graph.Network

/-!
Contract: directed cycles of a network.

The search goes depth first along the outputs, from every layer in turn. A layer met again on the
current path closes a cycle; a layer whose outputs are all searched is finished and never entered
again. The first cycle met is the answer; it starts and ends at the same layer.
-/

namespace NetBlueprint

namespace Network

/-- The layers that a layer feeds. -/
def outputsOf (network : Network) (id : LayerId) : List LayerId :=
  match network.layer? id with
  | some layer => layer.outputs
  | none => []

def inputsOf (network : Network) (id : LayerId) : List LayerId :=
  match network.layer? id with
  | some layer => layer.inputs
  | none => []

end Network

namespace Cycle

/-- The finished layers, or the first cycle met. -/
abbrev Search := Except (List LayerId) (List LayerId)

def searchAll (search : List LayerId → LayerId → Search) : List LayerId → List LayerId → Search
  | finished, [] => .ok finished
  | finished, id :: rest =>
    match search finished id with
    | .ok further => searchAll search further rest
    | .error cycle => .error cycle

/-- The cycle that a layer closes on a path; the path starts at its last layer. -/
def closed (path : List LayerId) (id : LayerId) : List LayerId :=
  id :: ((path.takeWhile (· != id)).reverse ++ [id])

/-- A cycle starts at the layer that closes it. -/
theorem head?_closed (path : List LayerId) (id : LayerId) : (closed path id).head? = some id := rfl

/-- A cycle ends at the layer that closes it. -/
theorem getLast?_closed (path : List LayerId) (id : LayerId) :
    (closed path id).getLast? = some id := by
  simp [closed, List.getLast?_cons]

/-- Searches from one layer. The layers of a path differ, so the number of layers bounds the
depth. -/
def search (network : Network) : Nat → List LayerId → List LayerId → LayerId → Search
  | 0, _, finished, _ => .ok finished
  | depth + 1, path, finished, id =>
    if path.contains id then .error (closed path id)
    else if finished.contains id then .ok finished
    else
      match searchAll (search network depth (id :: path)) finished (network.outputsOf id) with
      | .ok further => .ok (id :: further)
      | .error cycle => .error cycle

end Cycle

def Network.findCycle (network : Network) : Option (List LayerId) :=
  match Cycle.searchAll (Cycle.search network (network.size + 1) []) []
    (List.range network.size) with
  | .ok _ => none
  | .error cycle => some cycle

end NetBlueprint
