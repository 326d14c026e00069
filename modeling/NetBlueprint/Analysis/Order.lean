import NetBlueprint.Analysis.Cycle

/-!
Contract: the order in which shapes are inferred.

Layers without producers come first, by number. A layer is appended to the queue as soon as the
last of its producers is placed. Layers that a cycle keeps out of this order follow at the end, by
number.
-/

namespace NetBlueprint

namespace Network

def isReady (network : Network) (placed : List LayerId) (id : LayerId) : Bool :=
  (network.inputsOf id).all placed.contains

/-- Places the queued layers and those that become ready. The budget is the number of layers that
may still be placed; the ones placed stand in front, the last first. -/
def placeLayers (network : Network) : Nat → List LayerId → List LayerId → List LayerId
  | 0, _, placed => placed
  | _ + 1, [], placed => placed
  | budget + 1, id :: queue, placed =>
    let further := id :: placed
    placeLayers network budget
      (queue ++ (network.outputsOf id).filter (network.isReady further)) further

/-- The layers that can be placed after their producers. -/
def readyOrder (network : Network) : List LayerId :=
  (network.placeLayers network.size
    ((List.range network.size).filter fun id => (network.inputsOf id).isEmpty) []).reverse

/-- The order of all layers: those that can be placed after their producers, then the rest. -/
def layerOrder (network : Network) : List LayerId :=
  let ready := network.readyOrder
  ready ++ (List.range network.size).filter fun id => !ready.contains id

end Network

end NetBlueprint
