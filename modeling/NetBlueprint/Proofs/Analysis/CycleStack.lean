import NetBlueprint.Proofs.Analysis.Cycle

/-!
Contract: the search for cycles as a loop over a stack.

The search needs no recursion. A stack holds the layers of the current path, each with the position
of the output that it goes on with, and a table marks every layer as unvisited, as on the stack or
as done. A turn of the loop starts from the next layer, takes one output of the layer on top, or
drops that layer. The loop comes to an end by itself, with the answer of the recursion, and never
looks beyond its table.

Owns: the turns of the loop, and the stack and the marks that a point of the recursion stands for.
-/

namespace NetBlueprint

namespace Cycle

inductive Mark where
  | unvisited
  | onStack
  | done
deriving DecidableEq, Repr

structure Frame where
  layer : LayerId
  cursor : Nat
deriving DecidableEq, Repr

/-- Where the loop stands: the top of the stack is in front, and the roots are the layers that have
not been looked at as a start. -/
structure Standing where
  marks : List Mark
  stack : List Frame
  roots : List LayerId
deriving DecidableEq, Repr

def Standing.start (network : Network) : Standing :=
  ⟨List.replicate network.size .unvisited, [], List.range network.size⟩

inductive Turn where
  | goesOn (next : Standing)
  | ends (answer : Option (List LayerId))
  | outOfRange

/-- The layers of a stack from the position of a layer up, and that layer once more. -/
def stacked (stack : List Frame) (id : LayerId) : List LayerId :=
  let path := (stack.map Frame.layer).reverse
  path.drop ((path.idxOf? id).getD 0) ++ [id]

def turn (network : Network) : Standing → Turn
  | ⟨_, [], []⟩ => .ends none
  | ⟨marks, [], root :: rest⟩ =>
    match marks[root]? with
    | some .unvisited => .goesOn ⟨marks.set root .onStack, [⟨root, 0⟩], rest⟩
    | some _ => .goesOn ⟨marks, [], rest⟩
    | none => .outOfRange
  | ⟨marks, ⟨layer, cursor⟩ :: below, roots⟩ =>
    match (network.outputsOf layer)[cursor]? with
    | none => .goesOn ⟨marks.set layer .done, below, roots⟩
    | some id =>
      let stack := ⟨layer, cursor + 1⟩ :: below
      match marks[id]? with
      | some .onStack => .ends (some (stacked stack id))
      | some .unvisited => .goesOn ⟨marks.set id .onStack, ⟨id, 0⟩ :: stack, roots⟩
      | some .done => .goesOn ⟨marks, stack, roots⟩
      | none => .outOfRange

/-- Turn after turn the loop comes to an answer. -/
inductive Ends (network : Network) : Standing → Option (List LayerId) → Prop where
  | last {standing : Standing} {found : Option (List LayerId)}
      (turned : turn network standing = .ends found) : Ends network standing found
  | more {standing next : Standing} {found : Option (List LayerId)}
      (turned : turn network standing = .goesOn next) (rest : Ends network next found) :
      Ends network standing found

variable {network : Network} {path finished ids : List LayerId} {id : LayerId}

/-- The loop has one answer. -/
theorem Ends.unique {standing : Standing} {first second : Option (List LayerId)}
    (ends : Ends network standing first) (other : Ends network standing second) :
    second = first := by
  induction ends with
  | last turned =>
      cases other with
      | last also =>
          rw [turned] at also
          cases also
          rfl
      | more also _ =>
          rw [turned] at also
          cases also
  | more turned _ inductionHypothesis =>
      cases other with
      | last also =>
          rw [turned] at also
          cases also
      | more also rest =>
          rw [turned] at also
          cases also
          exact inductionHypothesis rest

/-! ## Marks -/

def mark (path finished : List LayerId) (id : LayerId) : Mark :=
  if id ∈ path then .onStack else if id ∈ finished then .done else .unvisited

/-- The table of marks where the recursion stands on a path and has finished some layers. -/
def marks (network : Network) (path finished : List LayerId) : List Mark :=
  (List.range network.size).map (mark path finished)

private theorem marks_nil (network : Network) :
    marks network [] [] = List.replicate network.size .unvisited := by
  have unmarked : mark [] [] = fun _ => .unvisited := funext fun id => by simp [mark]
  rw [marks, unmarked, List.map_const', List.length_range]

private theorem mark_of_mem (finished : List LayerId) (onPath : id ∈ path) :
    mark path finished id = .onStack :=
  if_pos onPath

private theorem mark_of_known (offPath : id ∉ path) (known : id ∈ finished) :
    mark path finished id = .done := by
  rw [mark, if_neg offPath, if_pos known]

private theorem mark_of_unknown (offPath : id ∉ path) (unknown : id ∉ finished) :
    mark path finished id = .unvisited := by
  rw [mark, if_neg offPath, if_neg unknown]

private theorem getElem?_marks (inside : id < network.size) :
    (marks network path finished)[id]? = some (mark path finished id) := by
  simp [marks, inside]

/-- Setting one mark gives the table of another point where no other layer is marked differently. -/
theorem set_marks {nextPath nextFinished : List LayerId}
    (others : ∀ other ≠ id, mark nextPath nextFinished other = mark path finished other) :
    (marks network path finished).set id (mark nextPath nextFinished id) =
      marks network nextPath nextFinished := by
  refine List.ext_getElem? fun other => ?_
  rw [List.getElem?_set]
  by_cases same : id = other
  · subst same
    by_cases inside : id < network.size <;> simp [marks, inside]
  · rw [if_neg same]
    by_cases inside : other < network.size
    · rw [getElem?_marks inside, getElem?_marks inside, others other (Ne.symm same)]
    · simp [marks, inside]

private theorem set_marks_onStack (path finished : List LayerId) (id : LayerId) :
    (marks network path finished).set id .onStack = marks network (id :: path) finished := by
  have here : mark (id :: path) finished id = .onStack := mark_of_mem finished List.mem_cons_self
  rw [← here]
  exact set_marks fun other different => by simp [mark, different]

private theorem set_marks_done (finished : List LayerId) (offPath : id ∉ path) :
    (marks network (id :: path) finished).set id .done = marks network path (id :: finished) := by
  have here : mark path (id :: finished) id = .done := mark_of_known offPath List.mem_cons_self
  rw [← here]
  exact set_marks fun other different => by simp [mark, different]

/-! ## The loop and the recursion -/

/-- The part of the stack that closes a cycle is the one that the path closes. -/
theorem stacked_eq (stack : List Frame) (nodup : (stack.map Frame.layer).Nodup)
    (onPath : id ∈ stack.map Frame.layer) :
    stacked stack id = closed (stack.map Frame.layer) id := by
  obtain ⟨behind, split⟩ := exists_split onPath
  unfold stacked closed
  generalize (stack.map Frame.layer).takeWhile (· != id) = walked at split
  rw [split] at nodup ⊢
  have notBehind : id ∉ behind.reverse := by
    have split := List.nodup_cons.1 (List.nodup_append.1 nodup).2.1
    exact mt List.mem_reverse.1 split.1
  have reversed : (walked ++ id :: behind).reverse = behind.reverse ++ id :: walked.reverse := by
    simp
  have position : (behind.reverse ++ id :: walked.reverse).idxOf? id =
      some behind.reverse.length := by
    refine List.idxOf?_eq_some_iff.2 ⟨by simp, by simp, fun earlier before same => notBehind ?_⟩
    rw [← same, List.getElem_append_left before]
    exact List.getElem_mem before
  simp only [reversed, position, Option.getD_some, List.drop_append_length]
  rfl

/-- How the loop ends where the outputs of a layer on top of a stack have been searched: as it does
with that layer dropped, or with the cycle met. -/
def Follows (network : Network) (layer : LayerId) (below : List Frame) (roots : List LayerId) :
    Search → Option (List LayerId) → Prop
  | .ok further, found =>
      Ends network ⟨marks network (below.map Frame.layer) (layer :: further), below, roots⟩ found
  | .error cycle, found => found = some cycle

section Top

variable {layer cursor : Nat} {below : List Frame} {roots rest : List LayerId}
  {found : Option (List LayerId)}

/-- The output that the layer on top goes on with. -/
theorem taken_of_drop (wired : network.Wired)
    (left : id :: rest = (network.outputsOf layer).drop cursor) :
    (network.outputsOf layer)[cursor]? = some id ∧
      rest = (network.outputsOf layer).drop (cursor + 1) ∧ id < network.size := by
  have taken : (network.outputsOf layer)[cursor]? = some id := by
    rw [← List.head?_drop, ← left]
    rfl
  refine ⟨taken, ?_, ?_⟩
  · rw [← List.tail_drop, ← left]
    rfl
  · exact (Network.mem_outputsOf.1 (List.mem_of_getElem? taken)).target_lt wired

/-- An output that is not marked yet comes on top of the stack. -/
theorem Ends.push (taken : (network.outputsOf layer)[cursor]? = some id)
    (inside : id < network.size) (offPath : id ∉ path) (unknown : id ∉ finished)
    (ends : Ends network ⟨marks network (id :: path) finished,
      ⟨id, 0⟩ :: ⟨layer, cursor + 1⟩ :: below, roots⟩ found) :
    Ends network ⟨marks network path finished, ⟨layer, cursor⟩ :: below, roots⟩ found := by
  refine .more ?_ ends
  simp only [turn, taken, getElem?_marks inside, mark_of_unknown offPath unknown]
  rw [set_marks_onStack]

/-- A start that is not marked yet is put on the empty stack. -/
theorem Ends.begin (inside : id < network.size) (unknown : id ∉ finished)
    (ends : Ends network ⟨marks network [id] finished, [⟨id, 0⟩], rest⟩ found) :
    Ends network ⟨marks network [] finished, [], id :: rest⟩ found := by
  refine .more ?_ ends
  simp only [turn, getElem?_marks inside, mark_of_unknown List.not_mem_nil unknown]
  rw [set_marks_onStack]

end Top

/-- The loop does what the recursion does from the outputs that the layer on top has left. -/
theorem Searches.ends {outcome : Search} (wired : network.Wired)
    (searches : Searches network path finished ids outcome) :
    ∀ (below : List Frame) {layer cursor : Nat} {roots : List LayerId}
      {found : Option (List LayerId)}, path = layer :: below.map Frame.layer → path.Nodup →
      ids = (network.outputsOf layer).drop cursor →
      Follows network layer below roots outcome found →
      Ends network ⟨marks network path finished, ⟨layer, cursor⟩ :: below, roots⟩ found := by
  induction searches with
  | done path finished =>
      rintro below layer cursor roots found rfl nodup noneLeft follows
      have exhausted : (network.outputsOf layer)[cursor]? = none := by
        rw [← List.head?_drop, ← noneLeft]
        rfl
      refine .more ?_ follows
      simp only [turn, exhausted]
      rw [set_marks_done finished (List.nodup_cons.1 nodup).1]
  | closes onPath =>
      rintro below layer cursor roots found rfl nodup left rfl
      obtain ⟨taken, _, inside⟩ := taken_of_drop wired left
      refine .last ?_
      simp only [turn, taken, getElem?_marks inside, mark_of_mem _ onPath]
      rw [stacked_eq (⟨layer, cursor + 1⟩ :: below) nodup onPath]
      rfl
  | known offPath known _ inductionHypothesis =>
      rintro below layer cursor roots found rfl nodup left follows
      obtain ⟨taken, later, inside⟩ := taken_of_drop wired left
      refine .more ?_ (inductionHypothesis below rfl nodup later follows)
      simp only [turn, taken, getElem?_marks inside, mark_of_known offPath known]
  | fails offPath unknown _ inductionHypothesis =>
      rintro below layer cursor roots found rfl nodup left follows
      obtain ⟨taken, _, inside⟩ := taken_of_drop wired left
      exact .push taken inside offPath unknown
        (inductionHypothesis (⟨layer, cursor + 1⟩ :: below) rfl
          (List.nodup_cons.2 ⟨offPath, nodup⟩) List.drop_zero.symm follows)
  | finishes offPath unknown _ _ innerHypothesis followingHypothesis =>
      rintro below layer cursor roots found rfl nodup left follows
      obtain ⟨taken, later, inside⟩ := taken_of_drop wired left
      -- What is left to the layer on top is searched when the output is dropped from above it.
      exact .push taken inside offPath unknown
        (innerHypothesis (⟨layer, cursor + 1⟩ :: below) rfl
          (List.nodup_cons.2 ⟨offPath, nodup⟩) List.drop_zero.symm
          (followingHypothesis below rfl nodup later follows))

/-- The loop does what the recursion does from the starts that are left. -/
theorem Searches.ends_of_roots {roots : List LayerId} {outcome : Search} (wired : network.Wired)
    (searches : Searches network path finished roots outcome) (atStart : path = [])
    (inside : ∀ root ∈ roots, root < network.size) :
    Ends network ⟨marks network [] finished, [], roots⟩ (answer outcome) := by
  induction searches with
  | done path finished => exact .last rfl
  | closes onPath =>
      subst atStart
      cases onPath
  | known offPath known _ inductionHypothesis =>
      obtain ⟨first, rest⟩ := List.forall_mem_cons.1 inside
      refine .more ?_ (inductionHypothesis atStart rest)
      simp only [turn, getElem?_marks first, mark_of_known List.not_mem_nil known]
  | fails _ unknown inner =>
      subst atStart
      exact .begin (List.forall_mem_cons.1 inside).1 unknown
        (inner.ends wired [] rfl (List.pairwise_singleton _ _) List.drop_zero.symm rfl)
  | finishes _ unknown inner _ _ followingHypothesis =>
      subst atStart
      obtain ⟨first, rest⟩ := List.forall_mem_cons.1 inside
      exact .begin first unknown
        (inner.ends wired [] rfl (List.pairwise_singleton _ _) List.drop_zero.symm
          (followingHypothesis rfl rest))

end Cycle

/-- The loop over the stack comes to an end by itself, and its one answer is that of the search. -/
theorem Network.ends_iff_findCycle {network : Network} (wired : network.Wired)
    {found : Option (List LayerId)} :
    Cycle.Ends network (.start network) found ↔ found = network.findCycle := by
  obtain ⟨outcome, searches, same⟩ := findCycle_searches wired
  have ends := searches.ends_of_roots wired rfl fun _ member => List.mem_range.1 member
  rw [Cycle.marks_nil, ← same] at ends
  constructor
  · exact ends.unique
  · rintro rfl
    exact ends

end NetBlueprint
