import NetBlueprint.Compiler.Run

/-!
Contract: a compilation that is watched.

`step` is run once more, with a compiler of the inner instructions that also notes what it was
asked to compile. What is noted is a tree: every instruction that was come to, with the states
before and after it, and below it the instructions it came to itself, in their order. Those of a
body are noted as they were filled in.

Owns: the tree of visits of a run.

Does not own: that watching changes nothing.
-/

namespace NetBlueprint

/-- An instruction that a compilation came to and finished, with the instructions that it came to
on the way. -/
structure Visit where
  instruction : Instruction
  before : CompileState
  after : CompileState
  inner : List Visit

/-- A step of a compilation that gathers the visits finished so far. -/
abbrev WatchedM := StateT (List Visit) CompileM

namespace Visit

/-- `Within inner outer`: the first visit is the second, or somewhere below it. -/
inductive Within : Visit → Visit → Prop where
  | self (visit : Visit) : Within visit visit
  | under {lowest middle outer : Visit} (member : middle ∈ outer.inner)
      (within : Within lowest middle) : Within lowest outer

/-- The layer that a visit of a definition added last, which is the one it defines. -/
def ownLayer? (visit : Visit) : Option LayerId :=
  if visit.before.network.size < visit.after.network.size then
    some (visit.after.network.size - 1)
  else none

end Visit

namespace Compile

def openedIn? : Except CompileFault OpenTemplate × CompileState → Option OpenTemplate
  | (.ok opened, _) => some opened
  | _ => none

def opened? (visit : Visit) : Option (String × OpenTemplate) :=
  match visit.instruction with
  | .templateCall name args | .call name args =>
    (openedIn? ((openTemplate name args).run visit.before)).map fun opened => (name, opened)
  | _ => none

/-- Compiles an instruction within a depth and notes it. -/
def watched : Nat → Instruction → WatchedM Unit
  | 0, instruction => within 0 instruction
  | depth + 1, instruction => fun earlier => do
    let before ← get
    let (_, inner) ← (step (watched depth) instruction).run []
    let after ← get
    return ((), earlier ++ [⟨instruction, before, after, inner⟩])

/-- The registration of names and the watched compilation of a program. -/
def watchedBuild (name : String) (program : Instruction) : CompileM (Unit × List Visit) := do
  prepare name program
  watched (depthFor program) program []

def onlyVisit? : Except CompileFault (Unit × List Visit) × CompileState → Option Visit
  | (.ok (_, [visit]), _) => some visit
  | _ => none

def rootVisit? (name : String) (seed : UInt64) (program : Instruction) : Option Visit :=
  onlyVisit? ((watchedBuild name program).run (CompileState.start name seed))

end Compile

end NetBlueprint
