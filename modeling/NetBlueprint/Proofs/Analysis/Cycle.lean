import NetBlueprint.Analysis.Cycle
import NetBlueprint.Proofs.Graph.Grounded
import NetBlueprint.Proofs.Graph.WellFormed

/-!
Contract: the search for cycles is exact.

`Searches` describes the search without any bound on its depth. The bounded search follows it to the
end: the layers of a path differ, so a path is never longer than the network has layers. What the
search finishes is grounded along the edges, and what it answers otherwise is a cycle.

Owns: cycles and acyclic networks, the unbounded search, and what a search answers.
-/

namespace NetBlueprint

namespace Network

/-- Along the edges no layer is come back to. -/
def Acyclic (network : Network) : Prop :=
  ∀ id, ¬ Relation.TransGen network.Edge id id

/-- A walk along edges that ends where it starts and meets no layer twice on the way. -/
structure IsCycle (network : Network) (cycle : List LayerId) : Prop where
  long : 2 ≤ cycle.length
  closed : cycle.head? = cycle.getLast?
  simple : cycle.dropLast.Nodup
  edges : cycle.IsChain network.Edge

/-- What a layer feeds stands at the other end of its edges. -/
theorem mem_outputsOf {network : Network} {source target : LayerId} :
    target ∈ network.outputsOf source ↔ network.Edge source target := by
  unfold outputsOf Edge
  cases network.layer? source with
  | none => simp
  | some layer => simp

/-- A cycle leads from its first layer back to it. -/
theorem IsCycle.transGen {network : Network} {cycle : List LayerId}
    (isCycle : network.IsCycle cycle) : ∃ id, Relation.TransGen network.Edge id id := by
  obtain ⟨long, closed, _, edges⟩ := isCycle
  match cycle with
  | [] => cases long
  | [_] => exact absurd long (by simp)
  | first :: second :: rest =>
      have back := List.relationReflTransGen_of_exists_isChain_cons rest edges.tail rfl
      have last : (second :: rest).getLast (List.cons_ne_nil _ _) = first := by
        rw [List.head?_cons, List.getLast?_cons_cons,
          List.getLast?_eq_getLast_of_ne_nil (List.cons_ne_nil _ _)] at closed
        exact (Option.some.inj closed).symm
      rw [last] at back
      exact ⟨first, .head' edges.rel back⟩

end Network

namespace Cycle

/-- How a search from some layers, one after the other, comes to its outcome: the layers of the path
it stands on, the last first, and the layers finished before it are given. -/
inductive Searches (network : Network) :
    List LayerId → List LayerId → List LayerId → Search → Prop where
  | done (path finished : List LayerId) : Searches network path finished [] (.ok finished)
  | closes {path finished rest : List LayerId} {id : LayerId} (onPath : id ∈ path) :
      Searches network path finished (id :: rest) (.error (closed path id))
  | known {path finished rest : List LayerId} {id : LayerId} {outcome : Search}
      (offPath : id ∉ path) (known : id ∈ finished)
      (following : Searches network path finished rest outcome) :
      Searches network path finished (id :: rest) outcome
  | fails {path finished rest : List LayerId} {id : LayerId} {cycle : List LayerId}
      (offPath : id ∉ path) (unknown : id ∉ finished)
      (inner : Searches network (id :: path) finished (network.outputsOf id) (.error cycle)) :
      Searches network path finished (id :: rest) (.error cycle)
  | finishes {path finished further rest : List LayerId} {id : LayerId} {outcome : Search}
      (offPath : id ∉ path) (unknown : id ∉ finished)
      (inner : Searches network (id :: path) finished (network.outputsOf id) (.ok further))
      (following : Searches network path (id :: further) rest outcome) :
      Searches network path finished (id :: rest) outcome

variable {network : Network} {path finished ids : List LayerId} {id : LayerId}

def LeadsTo (network : Network) (path ids : List LayerId) : Prop :=
  ∀ id ∈ ids, ComesTo network.Edge network.size path id

private theorem leadsTo_outputsOf (wired : network.Wired) (path : List LayerId) (id : LayerId) :
    LeadsTo network (id :: path) (network.outputsOf id) := by
  intro target member
  have edge := Network.mem_outputsOf.1 member
  exact .of_needs path (edge.target_lt wired) edge

private theorem leadsTo_range (network : Network) : LeadsTo network [] (List.range network.size) :=
  fun _ member => .of_nil _ (List.mem_range.1 member)

/-! ## The bound on the depth -/

/-- A search whose depth is bounded by the layers that are not on its path is never cut short. -/
theorem searches_of_depth (wired : network.Wired) :
    ∀ {depth : Nat} {path : List LayerId}, IsPath network.Edge network.size path →
      network.size < depth + path.length → ∀ {ids : List LayerId}, LeadsTo network path ids →
        ∀ finished, Searches network path finished ids
          (searchAll (search network depth path) finished ids)
  | 0, path, isPath, enough, _, _, _ => by
      have shorter := isPath.length_le
      omega
  | depth + 1, path, isPath, enough, [], _, finished => .done path finished
  | depth + 1, path, isPath, enough, id :: rest, leads, finished => by
      obtain ⟨comesTo, leadsRest⟩ := List.forall_mem_cons.1 leads
      rw [searchAll, search]
      by_cases onPath : id ∈ path
      · rw [if_pos (List.contains_iff_mem.2 onPath)]
        exact .closes onPath
      rw [if_neg (mt List.contains_iff_mem.1 onPath)]
      by_cases known : id ∈ finished
      · rw [if_pos (List.contains_iff_mem.2 known)]
        exact .known onPath known (searches_of_depth wired isPath enough leadsRest finished)
      rw [if_neg (mt List.contains_iff_mem.1 known)]
      have enoughLeft : network.size < depth + (id :: path).length := by
        rw [List.length_cons]
        omega
      have inner := searches_of_depth wired (isPath.cons onPath comesTo) enoughLeft
        (leadsTo_outputsOf wired path id) finished
      cases outcome : searchAll (search network depth (id :: path)) finished
          (network.outputsOf id) with
      | error cycle =>
          rw [outcome] at inner
          exact .fails onPath known inner
      | ok further =>
          rw [outcome] at inner
          exact .finishes onPath known inner
            (searches_of_depth wired isPath enough leadsRest (id :: further))

/-! ## What a search answers -/

/-- What a search from some layers achieves: they are finished on top of what was finished before,
or the answer is a cycle. -/
def Answers (network : Network) (finished ids : List LayerId) : Search → Prop
  | .ok further => Grounded network.Edge further ∧ finished ⊆ further ∧ ids ⊆ further
  | .error cycle => network.IsCycle cycle

/-- A search from the rest of some layers, on top of what is finished of the first, is a search from
all of them. -/
theorem Answers.cons {settled rest : List LayerId} {outcome : Search}
    (answers : Answers network settled rest outcome) (kept : finished ⊆ settled)
    (first : id ∈ settled) : Answers network finished (id :: rest) outcome := by
  cases outcome with
  | error cycle => exact answers
  | ok further =>
      obtain ⟨grounded, grows, covers⟩ := answers
      exact ⟨grounded, List.Subset.trans kept grows, List.cons_subset.2 ⟨grows first, covers⟩⟩

/-- The part of a path before a layer is what was walked after it. -/
theorem exists_split : ∀ {path : List LayerId}, id ∈ path →
    ∃ behind, path = path.takeWhile (· != id) ++ id :: behind
  | first :: rest, member => by
      by_cases same : first = id
      · subst same
        exact ⟨rest, by simp⟩
      · have later := (List.mem_cons.1 member).resolve_left (Ne.symm same)
        obtain ⟨behind, split⟩ := exists_split later
        refine ⟨behind, ?_⟩
        rw [List.takeWhile_cons_of_pos (p := (· != id)) (bne_iff_ne.2 same), List.cons_append,
          ← split]

/-- A layer of a path that is met again closes a cycle. -/
theorem isCycle_closed (isPath : IsPath network.Edge network.size path) (onPath : id ∈ path)
    (comesTo : ComesTo network.Edge network.size path id) :
    network.IsCycle (closed path id) := by
  obtain ⟨behind, split⟩ := exists_split onPath
  have spelled : closed path id = (path.takeWhile (· != id) ++ [id]).reverse ++ [id] := by
    rw [closed, List.reverse_append]
    rfl
  generalize path.takeWhile (· != id) = walked at split spelled
  have whole : path = walked ++ [id] ++ behind := by
    rw [split, List.append_assoc, List.singleton_append]
  have chain := isPath.chain
  have nodup := isPath.nodup
  rw [whole] at chain nodup
  exact {
    long := by simp [closed]
    closed := by rw [head?_closed, getLast?_closed]
    simple := by
      rw [spelled, List.dropLast_concat]
      exact (List.reverse_perm _).nodup_iff.2 (List.nodup_append.1 nodup).1
    edges := by
      rw [spelled, List.isChain_append]
      refine ⟨List.isChain_reverse.2 chain.left_of_append, .singleton id, ?_⟩
      intro last isLast other isOther
      cases isOther
      refine comesTo.needed last ?_
      rw [List.getLast?_reverse] at isLast
      rw [split]
      cases walked with
      | nil => exact isLast
      | cons => exact isLast }

/-- A search finishes its layers, or it answers a cycle. -/
theorem Searches.answers {outcome : Search} (wired : network.Wired)
    (searches : Searches network path finished ids outcome)
    (isPath : IsPath network.Edge network.size path) (leads : LeadsTo network path ids)
    (grounded : Grounded network.Edge finished) :
    Answers network finished ids outcome := by
  induction searches with
  | done path finished => exact ⟨grounded, List.Subset.refl _, List.nil_subset _⟩
  | closes onPath => exact isCycle_closed isPath onPath (leads _ List.mem_cons_self)
  | known _ known _ inductionHypothesis =>
      have rest := inductionHypothesis isPath (List.forall_mem_cons.1 leads).2 grounded
      exact rest.cons (List.Subset.refl _) known
  | fails offPath _ _ inductionHypothesis =>
      have inner := isPath.cons offPath (leads _ List.mem_cons_self)
      exact inductionHypothesis inner (leadsTo_outputsOf wired _ _) grounded
  | finishes offPath _ _ _ innerHypothesis followingHypothesis =>
      obtain ⟨comesTo, leadsRest⟩ := List.forall_mem_cons.1 leads
      obtain ⟨grown, grows, covers⟩ := innerHypothesis (isPath.cons offPath comesTo)
        (leadsTo_outputsOf wired _ _) grounded
      -- A layer is finished behind all of its outputs.
      have settled : Grounded network.Edge (_ :: _) :=
        .cons (fun _ out => covers (Network.mem_outputsOf.2 out)) grown
      exact (followingHypothesis isPath leadsRest settled).cons
        (List.subset_cons_of_subset _ grows) List.mem_cons_self

/-- A search has one outcome. -/
theorem Searches.unique {first second : Search}
    (searches : Searches network path finished ids first)
    (other : Searches network path finished ids second) : second = first := by
  induction searches generalizing second with
  | done path finished =>
      cases other
      rfl
  | closes onPath =>
      cases other with
      | closes _ => rfl
      | known offPath _ _ | fails offPath _ _ | finishes offPath _ _ _ =>
          exact absurd onPath offPath
  | known offPath known _ inductionHypothesis =>
      cases other with
      | closes onPath => exact absurd onPath offPath
      | known _ _ following => exact inductionHypothesis following
      | fails _ unknown _ | finishes _ unknown _ _ => exact absurd known unknown
  | fails offPath unknown _ inductionHypothesis =>
      cases other with
      | closes onPath => exact absurd onPath offPath
      | known _ known _ => exact absurd known unknown
      | fails _ _ inner => exact inductionHypothesis inner
      | finishes _ _ inner _ => cases inductionHypothesis inner
  | finishes offPath unknown _ _ innerHypothesis followingHypothesis =>
      cases other with
      | closes onPath => exact absurd onPath offPath
      | known _ known _ => exact absurd known unknown
      | fails _ _ inner => cases innerHypothesis inner
      | finishes _ _ inner following =>
          cases innerHypothesis inner
          exact followingHypothesis following

def answer : Search → Option (List LayerId)
  | .ok _ => none
  | .error cycle => some cycle

end Cycle

namespace Network

variable {network : Network}

/-- The search for a cycle runs to the end that it has without a bound on its depth. -/
theorem findCycle_searches (wired : network.Wired) :
    ∃ outcome, Cycle.Searches network [] [] (List.range network.size) outcome ∧
      network.findCycle = Cycle.answer outcome := by
  have enough : network.size < network.size + 1 + ([] : List LayerId).length := Nat.lt_succ_self _
  refine ⟨_, Cycle.searches_of_depth wired (isPath_nil _ _) enough (Cycle.leadsTo_range network) [],
    ?_⟩
  unfold findCycle
  split <;> simp [*, Cycle.answer]

private theorem findCycle_answers (wired : network.Wired) :
    ∃ outcome, Cycle.Answers network [] (List.range network.size) outcome ∧
      network.findCycle = Cycle.answer outcome := by
  obtain ⟨outcome, searches, found⟩ := findCycle_searches wired
  exact ⟨outcome, searches.answers wired (isPath_nil _ _) (Cycle.leadsTo_range network) .nil, found⟩

/-- An answered cycle is one. -/
theorem isCycle_of_findCycle (wired : network.Wired) {cycle : List LayerId}
    (found : network.findCycle = some cycle) : network.IsCycle cycle := by
  obtain ⟨outcome, answers, same⟩ := findCycle_answers wired
  rw [found] at same
  cases outcome with
  | ok _ => cases same
  | error met =>
      cases same
      exact answers

/-- No cycle is answered exactly for the networks without one. -/
theorem findCycle_eq_none_iff (wired : network.Wired) :
    network.findCycle = none ↔ network.Acyclic := by
  constructor
  · intro nothing
    obtain ⟨outcome, answers, same⟩ := findCycle_answers wired
    rw [nothing] at same
    cases outcome with
    | error _ => cases same
    | ok finished =>
        obtain ⟨grounded, _, covers⟩ := answers
        intro id loops
        obtain ⟨_, ⟨layer, found, _⟩, _⟩ := Relation.TransGen.head'_iff.1 loops
        exact grounded.not_transGen_self (covers (List.mem_range.2 (lt_size_of_layer? found))) loops
  · intro acyclic
    cases found : network.findCycle with
    | none => rfl
    | some cycle =>
        obtain ⟨id, loops⟩ := (isCycle_of_findCycle wired found).transGen
        exact absurd loops (acyclic id)

/-- The search for a cycle is exact: it comes to an end by itself, which is its only end, it answers
nothing exactly if no layer leads back to itself, and what it answers otherwise is a cycle. -/
theorem findCycle_exact (built : network.Built) :
    (∃! outcome, Cycle.Searches network [] [] (List.range network.size) outcome ∧
        network.findCycle = Cycle.answer outcome) ∧
      (network.findCycle = none ↔ network.Acyclic) ∧
      ∀ cycle, network.findCycle = some cycle → network.IsCycle cycle := by
  obtain ⟨outcome, searches, same⟩ := findCycle_searches built.wired
  exact ⟨⟨outcome, ⟨searches, same⟩, fun _ other => searches.unique other.1⟩,
    findCycle_eq_none_iff built.wired, fun _ => isCycle_of_findCycle built.wired⟩

private def backEdge : Network :=
  let layers := ((empty "back").addLayer "first" (.norm none)).addLayer "second" (.norm none)
  (((layers.addLayer "third" (.norm none)).addEdge 0 1).addEdge 1 2).addEdge 2 1

private theorem built_backEdge : backEdge.Built := by
  have layers := Built.addLayer "third" (.norm none)
    (.addLayer "second" (.norm none) (.addLayer "first" (.norm none) (.empty "back")))
  have first := layers.addEdge (by decide : 0 < 3) (by decide : 1 < 3) rfl
  have second := first.addEdge (by decide : 1 < 3) (by decide : 2 < 3) rfl
  exact second.addEdge (by decide : 2 < 3) (by decide : 1 < 3) rfl

theorem findCycle_exact_backEdge :
    backEdge.Built ∧ backEdge.findCycle = some [1, 2, 1] ∧ backEdge.IsCycle [1, 2, 1] ∧
      ¬ backEdge.Acyclic := by
  obtain ⟨_, nothingIff, isCycle⟩ := findCycle_exact built_backEdge
  have found : backEdge.findCycle = some [1, 2, 1] := rfl
  refine ⟨built_backEdge, found, isCycle _ found, fun acyclic => ?_⟩
  rw [nothingIff.2 acyclic] at found
  cases found

end Network

end NetBlueprint
