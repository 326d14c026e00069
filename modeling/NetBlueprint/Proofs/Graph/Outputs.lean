import NetBlueprint.Proofs.Analysis.Order
import NetBlueprint.Proofs.Table

/-!
Contract: the search for outputs is exact.

`Collects` describes how outputs are gathered without any bound on the depth. The bounded search
follows it to the end: every conditional that is entered was not met before, so the layers that were
not met bound the depth, wherever the roots of conditionals lead. Each output is found when it is
first met, and at the latest in its turn.

Owns: the unbounded search, and which outputs it finds in which order.
-/

namespace NetBlueprint

namespace Network

/-- The output layers in the order in which they were added. -/
def outputIds (network : Network) : List LayerId :=
  (network.layers.toList.filter fun layer => layer.kind.isOutput).map Layer.id

/-- There is nothing to gather at a layer: it does not exist, was met before, or is neither an
output nor a conditional. -/
def IsIdle (network : Network) (gathered : Gathered) (id : LayerId) : Prop :=
  ∀ layer, network.layer? id = some layer →
    id ∈ gathered.seen ∨ layer.kind.isOutput = false ∧ layer.kind.isConditional = false

/-- How outputs are gathered from some layers, one after the other. A conditional is followed by its
roots, and these by the layers that come after it. -/
inductive Collects (network : Network) : List LayerId → Gathered → Gathered → Prop where
  | done (gathered : Gathered) : Collects network [] gathered gathered
  | idle {id : LayerId} {rest : List LayerId} {before after : Gathered}
      (idle : network.IsIdle before id) (following : Collects network rest before after) :
      Collects network (id :: rest) before after
  | output {id : LayerId} {rest : List LayerId} {before after : Gathered} {layer : Layer}
      (found : network.layer? id = some layer) (unseen : id ∉ before.seen)
      (isOutput : layer.kind.isOutput = true)
      (following : Collects network rest ⟨id :: before.seen, id :: before.found⟩ after) :
      Collects network (id :: rest) before after
  | conditional {id : LayerId} {rest : List LayerId} {before between after : Gathered}
      {layer : Layer} (found : network.layer? id = some layer) (unseen : id ∉ before.seen)
      (isConditional : layer.kind.isConditional = true)
      (inner : Collects network layer.kind.roots ⟨id :: before.seen, before.found⟩ between)
      (following : Collects network rest between after) :
      Collects network (id :: rest) before after

variable {network : Network} {ids : List LayerId} {before after : Gathered}

private theorem not_isOutput_of_isConditional {kind : LayerKind}
    (isConditional : kind.isConditional = true) : kind.isOutput = false := by
  cases kind with
  | conditional _ _ _ => rfl
  | _ => cases isConditional

/-- A layer at which there is nothing to gather although it was not met. -/
theorem IsIdle.neither {id : LayerId} {layer : Layer} (idle : network.IsIdle before id)
    (found : network.layer? id = some layer) (unseen : id ∉ before.seen) :
    layer.kind.isOutput = false ∧ layer.kind.isConditional = false :=
  (idle layer found).resolve_left unseen

/-- Layers that were met stay so. -/
theorem Collects.seen_subset (collects : network.Collects ids before after) :
    before.seen ⊆ after.seen := by
  induction collects with
  | done _ => exact List.Subset.refl _
  | idle _ _ inductionHypothesis => exact inductionHypothesis
  | output _ _ _ _ inductionHypothesis =>
      exact List.Subset.trans (List.subset_cons_self _ _) inductionHypothesis
  | conditional _ _ _ _ _ innerHypothesis followingHypothesis =>
      exact List.Subset.trans (List.subset_cons_self _ _)
        (List.Subset.trans innerHypothesis followingHypothesis)

/-- From layers that were all met nothing is gathered. -/
theorem Collects.of_seen (collects : network.Collects ids before after)
    (seen : ∀ id ∈ ids, id ∈ before.seen) : after = before := by
  induction collects with
  | done _ => rfl
  | idle _ _ inductionHypothesis => exact inductionHypothesis (List.forall_mem_cons.1 seen).2
  | output _ unseen _ _ _ | conditional _ unseen _ _ _ _ _ =>
      exact absurd (List.forall_mem_cons.1 seen).1 unseen

/-! ## The bound on the depth -/

def unseenCount (network : Network) (seen : List LayerId) : Nat :=
  (List.range network.size).countP fun id => !seen.contains id

private theorem unseenCount_le_of_subset {seen more : List LayerId} (subset : seen ⊆ more) :
    network.unseenCount more ≤ network.unseenCount seen := by
  refine List.countP_mono_left fun id _ unseen => ?_
  rw [Bool.not_eq_true', ← Bool.not_eq_true, List.contains_iff_mem] at unseen ⊢
  exact fun met => unseen (subset met)

/-- Entering a layer that was not met leaves fewer of them. -/
theorem unseenCount_cons_lt {id : LayerId} {layer : Layer} {seen : List LayerId}
    (found : network.layer? id = some layer) (unseen : id ∉ seen) :
    network.unseenCount (id :: seen) < network.unseenCount seen :=
  Table.countP_lt_of_mem (fun id => id) (List.mem_range.2 (lt_size_of_layer? found)) unseen

/-- A search whose depth is bounded by the layers that it has not met is never cut short. -/
theorem collects_of_depth : ∀ {depth : Nat} (ids : List LayerId) (gathered : Gathered),
    network.unseenCount gathered.seen < depth →
      network.Collects ids gathered (ids.foldl (network.gatherOutputs depth) gathered)
  | _, [], gathered, _ => .done gathered
  | depth + 1, id :: rest, gathered, enough => by
      rw [List.foldl_cons, gatherOutputs]
      have following {between : Gathered} (grows : gathered.seen ⊆ between.seen) :=
        collects_of_depth rest between
          (Nat.lt_of_le_of_lt (unseenCount_le_of_subset grows) enough)
      have kept := following (List.Subset.refl gathered.seen)
      split
      · rename_i absent
        exact .idle (fun layer found => by rw [absent] at found; cases found) kept
      rename_i layer found
      have idle (nothing : id ∈ gathered.seen ∨
          layer.kind.isOutput = false ∧ layer.kind.isConditional = false) :
          network.IsIdle gathered id := by
        intro other isOther
        rw [found] at isOther
        cases isOther
        exact nothing
      split
      · rename_i seen
        exact .idle (idle (.inl (List.contains_iff_mem.1 seen))) kept
      rename_i unseen
      rw [List.contains_iff_mem] at unseen
      split
      · rename_i isOutput
        exact .output found unseen isOutput (following (List.subset_cons_self _ _))
      rename_i notOutput
      split
      · rename_i isConditional
        have inner := collects_of_depth layer.kind.roots ⟨id :: gathered.seen, gathered.found⟩
          (Nat.lt_of_lt_of_le (unseenCount_cons_lt found unseen) (Nat.le_of_lt_succ enough))
        exact .conditional found unseen isConditional inner
          (following (List.Subset.trans (List.subset_cons_self _ _) inner.seen_subset))
      · rename_i notConditional
        have neither : layer.kind.isOutput = false ∧ layer.kind.isConditional = false :=
          ⟨Bool.eq_false_iff.2 notOutput, Bool.eq_false_iff.2 notConditional⟩
        exact .idle (idle (.inr neither)) kept

/-- A search comes to one end. -/
theorem Collects.unique {other : Gathered} (collects : network.Collects ids before after)
    (again : network.Collects ids before other) : other = after := by
  induction collects generalizing other with
  | done _ =>
      cases again
      rfl
  | idle idle _ inductionHypothesis =>
      cases again with
      | idle _ following => exact inductionHypothesis following
      | output found unseen isOutput _ =>
          rw [(idle.neither found unseen).1] at isOutput
          cases isOutput
      | conditional found unseen isConditional _ _ =>
          rw [(idle.neither found unseen).2] at isConditional
          cases isConditional
  | output found unseen isOutput _ inductionHypothesis =>
      cases again with
      | idle idle _ =>
          rw [(idle.neither found unseen).1] at isOutput
          cases isOutput
      | output _ _ _ following => exact inductionHypothesis following
      | conditional foundAgain _ isConditional _ _ =>
          rw [found] at foundAgain
          cases foundAgain
          rw [not_isOutput_of_isConditional isConditional] at isOutput
          cases isOutput
  | conditional found unseen isConditional _ _ innerHypothesis followingHypothesis =>
      cases again with
      | idle idle _ =>
          rw [(idle.neither found unseen).2] at isConditional
          cases isConditional
      | output foundAgain _ isOutput _ =>
          rw [found] at foundAgain
          cases foundAgain
          rw [not_isOutput_of_isConditional isConditional] at isOutput
          cases isOutput
      | conditional foundAgain _ _ inner following =>
          rw [found] at foundAgain
          cases foundAgain
          cases innerHypothesis inner
          exact followingHypothesis following

/-! ## What is found -/

/-- What was gathered so far: every output that was met is found, and found once. -/
structure Keeps (network : Network) (gathered : Gathered) : Prop where
  once : gathered.found.Nodup
  met : gathered.found ⊆ gathered.seen
  outputs : ∀ id ∈ gathered.found, ∃ layer, network.layer? id = some layer ∧
    layer.kind.isOutput = true
  complete : ∀ {id layer}, network.layer? id = some layer → layer.kind.isOutput = true →
    id ∈ gathered.seen → id ∈ gathered.found

namespace Keeps

theorem start (network : Network) : network.Keeps ⟨[], []⟩ :=
  ⟨.nil, List.Subset.refl _, fun _ absent => absurd absent List.not_mem_nil,
    fun _ _ absent => absurd absent List.not_mem_nil⟩

/-- Meeting a layer that is no output finds nothing. -/
theorem met_other {id : LayerId} {layer : Layer} (keeps : network.Keeps before)
    (found : network.layer? id = some layer) (notOutput : layer.kind.isOutput = false) :
    network.Keeps ⟨id :: before.seen, before.found⟩ where
  once := keeps.once
  met := List.subset_cons_of_subset _ keeps.met
  outputs := keeps.outputs
  complete isThere isOutput member := by
    rcases List.mem_cons.1 member with rfl | earlier
    · rw [found] at isThere
      cases isThere
      rw [notOutput] at isOutput
      cases isOutput
    · exact keeps.complete isThere isOutput earlier

/-- Meeting an output for the first time finds it. -/
theorem met_output {id : LayerId} {layer : Layer} (keeps : network.Keeps before)
    (found : network.layer? id = some layer) (unseen : id ∉ before.seen)
    (isOutput : layer.kind.isOutput = true) :
    network.Keeps ⟨id :: before.seen, id :: before.found⟩ where
  once := List.nodup_cons.2 ⟨fun member => unseen (keeps.met member), keeps.once⟩
  met := List.cons_subset_cons _ keeps.met
  outputs := List.forall_mem_cons.2 ⟨⟨layer, found, isOutput⟩, keeps.outputs⟩
  complete isThere isOutput member := by
    rcases List.mem_cons.1 member with rfl | earlier
    · exact List.mem_cons_self
    · exact List.mem_cons_of_mem _ (keeps.complete isThere isOutput earlier)

end Keeps

/-- Whatever is gathered keeps every output that was met, once. -/
theorem Collects.keeps (collects : network.Collects ids before after)
    (keeps : network.Keeps before) : network.Keeps after := by
  induction collects with
  | done _ => exact keeps
  | idle _ _ inductionHypothesis => exact inductionHypothesis keeps
  | output found unseen isOutput _ inductionHypothesis =>
      exact inductionHypothesis (keeps.met_output found unseen isOutput)
  | conditional found _ isConditional _ _ innerHypothesis followingHypothesis =>
      have notOutput := not_isOutput_of_isConditional isConditional
      exact followingHypothesis (innerHypothesis (keeps.met_other found notOutput))

/-- Every output among the layers that were searched was met. -/
theorem Collects.meets (collects : network.Collects ids before after) :
    ∀ id ∈ ids, ∀ layer, network.layer? id = some layer → layer.kind.isOutput = true →
      id ∈ after.seen := by
  induction collects with
  | done _ => exact fun _ absent => absurd absent List.not_mem_nil
  | idle idle following inductionHypothesis =>
      refine List.forall_mem_cons.2 ⟨fun layer found isOutput => ?_, inductionHypothesis⟩
      rcases idle layer found with seen | ⟨notOutput, _⟩
      · exact following.seen_subset seen
      · rw [notOutput] at isOutput
        cases isOutput
  | output _ _ _ following inductionHypothesis =>
      exact List.forall_mem_cons.2
        ⟨fun _ _ _ => following.seen_subset List.mem_cons_self, inductionHypothesis⟩
  | conditional _ _ _ inner following _ followingHypothesis =>
      exact List.forall_mem_cons.2
        ⟨fun _ _ _ => following.seen_subset (inner.seen_subset List.mem_cons_self),
          followingHypothesis⟩

private theorem mem_outputIds {id : LayerId} (wired : network.Wired) :
    id ∈ network.outputIds ↔
      ∃ layer, network.layer? id = some layer ∧ layer.kind.isOutput = true := by
  unfold outputIds
  rw [List.mem_map]
  constructor
  · rintro ⟨layer, member, rfl⟩
    obtain ⟨isLayer, isOutput⟩ := List.mem_filter.1 member
    obtain ⟨position, found⟩ := List.getElem?_of_mem isLayer
    rw [Array.getElem?_toList] at found
    exact ⟨layer, (wired.numbered found).symm ▸ found, isOutput⟩
  · rintro ⟨layer, found, isOutput⟩
    exact ⟨layer, List.mem_filter.2 ⟨mem_layers found, isOutput⟩, wired.numbered found⟩

/-- The outputs stand in ascending order. -/
theorem outputIds_ascending (wired : network.Wired) : network.outputIds.Pairwise (· < ·) := by
  have whole : (network.layers.toList.map Layer.id).Pairwise (· < ·) := by
    rw [ids_eq_range wired]
    exact List.pairwise_lt_range
  exact whole.sublist (List.filter_sublist.map Layer.id)

/-- The search for outputs runs to the end that it has without a bound on its depth. -/
theorem outputLayers_collects (network : Network) :
    ∃ final, network.Collects (List.range network.size) ⟨[], []⟩ final ∧
      network.outputLayers = final.found.reverse := by
  have enough : network.unseenCount [] < network.size + 1 := by
    refine Nat.lt_succ_of_le (Nat.le_trans List.countP_le_length ?_)
    rw [List.length_range]
  exact ⟨_, collects_of_depth (List.range network.size) ⟨[], []⟩ enough, rfl⟩

/-- Every output is found once. -/
theorem outputLayers_perm (wired : network.Wired) :
    network.outputLayers.Perm network.outputIds := by
  obtain ⟨final, collects, same⟩ := outputLayers_collects network
  have keeps := collects.keeps (.start network)
  rw [same]
  refine (List.perm_ext_iff_of_nodup (List.nodup_reverse.2 keeps.once)
    ((outputIds_ascending wired).imp Nat.ne_of_lt)).2 fun id => ?_
  rw [List.mem_reverse, mem_outputIds wired]
  constructor
  · exact keeps.outputs id
  · rintro ⟨layer, found, isOutput⟩
    exact keeps.complete found isOutput (collects.meets id
      (List.mem_range.2 (lt_size_of_layer? found)) layer found isOutput)

/-! ## Roots that stand before their conditionals -/

/-- All outputs before a position were met, nothing from there on was met, and what was found stands
in ascending order, the last one in front. -/
structure UpTo (network : Network) (position : LayerId) (gathered : Gathered) : Prop where
  descending : gathered.found.Pairwise (· > ·)
  found : ∀ id ∈ gathered.found, id < position
  below : ∀ id ∈ gathered.seen, id < position
  meets : ∀ {id layer}, network.layer? id = some layer → layer.kind.isOutput = true →
    id < position → id ∈ gathered.seen

namespace UpTo

variable {position : LayerId}

theorem start (network : Network) : network.UpTo 0 ⟨[], []⟩ :=
  ⟨.nil, fun _ absent => absurd absent List.not_mem_nil,
    fun _ absent => absurd absent List.not_mem_nil,
    fun _ _ before => absurd before (Nat.not_lt_zero _)⟩

/-- Nothing is found at a position without an output, whether it was met or not. -/
theorem pass (upTo : network.UpTo position before)
    (notOutput : ∀ layer, network.layer? position = some layer → layer.kind.isOutput = false)
    {seen : List LayerId} (same : seen = before.seen ∨ seen = position :: before.seen) :
    network.UpTo (position + 1) ⟨seen, before.found⟩ where
  descending := upTo.descending
  found id member := Nat.lt_succ_of_lt (upTo.found id member)
  below id member := by
    rcases same with rfl | rfl
    · exact Nat.lt_succ_of_lt (upTo.below id member)
    · rcases List.mem_cons.1 member with rfl | earlier
      · exact Nat.lt_succ_self _
      · exact Nat.lt_succ_of_lt (upTo.below id earlier)
  meets {id layer} isThere isOutput before := by
    have notHere : id ≠ position := by
      rintro rfl
      rw [notOutput layer isThere] at isOutput
      cases isOutput
    have met := upTo.meets isThere isOutput (Nat.lt_of_le_of_ne (Nat.le_of_lt_succ before) notHere)
    rcases same with rfl | rfl
    · exact met
    · exact List.mem_cons_of_mem _ met

/-- An output at the position is found on top of those before it. -/
theorem find (upTo : network.UpTo position before) :
    network.UpTo (position + 1) ⟨position :: before.seen, position :: before.found⟩ where
  descending := List.pairwise_cons.2 ⟨upTo.found, upTo.descending⟩
  found := List.forall_mem_cons.2
    ⟨Nat.lt_succ_self _, fun id member => Nat.lt_succ_of_lt (upTo.found id member)⟩
  below := List.forall_mem_cons.2
    ⟨Nat.lt_succ_self _, fun id member => Nat.lt_succ_of_lt (upTo.below id member)⟩
  meets isThere isOutput before := by
    rcases Nat.lt_or_eq_of_le (Nat.le_of_lt_succ before) with earlier | rfl
    · exact List.mem_cons_of_mem _ (upTo.meets isThere isOutput earlier)
    · exact List.mem_cons_self

end UpTo

/-- A search along the layers finds the outputs in ascending order if the roots of every conditional
are outputs before it. -/
theorem Collects.descending (rootsEarlier : ∀ {id layer root}, network.layer? id = some layer →
      root ∈ layer.kind.roots →
        root < id ∧ ∃ chosen, network.layer? root = some chosen ∧ chosen.kind.isOutput = true) :
    ∀ {count position : Nat} {before after : Gathered}, network.UpTo position before →
      network.Collects (List.range' position count) before after →
        after.found.Pairwise (· > ·) := by
  intro count
  induction count with
  | zero =>
      intro position before after upTo collects
      cases collects
      exact upTo.descending
  | succ count inductionHypothesis =>
      intro position before after upTo collects
      have unseen : position ∉ before.seen := fun member =>
        absurd (upTo.below position member) (Nat.lt_irrefl position)
      rw [List.range'_succ] at collects
      cases collects with
      | idle idle following =>
          have notOutput (layer : Layer) (found : network.layer? position = some layer) :=
            (idle.neither found unseen).1
          exact inductionHypothesis (upTo.pass notOutput (.inl rfl)) following
      | output _ _ _ following => exact inductionHypothesis upTo.find following
      | @conditional _ _ _ _ _ layer found _ isConditional inner following =>
          -- The roots are outputs that stand before the conditional, so all of them were met.
          have met (root : LayerId) (member : root ∈ layer.kind.roots) :
              root ∈ position :: before.seen := by
            obtain ⟨earlier, chosen, isThere, isOutput⟩ := rootsEarlier found member
            exact List.mem_cons_of_mem _ (upTo.meets isThere isOutput earlier)
          cases inner.of_seen met
          have notOutput (other : Layer) (isOther : network.layer? position = some other) :
              other.kind.isOutput = false := by
            rw [found] at isOther
            cases isOther
            exact not_isOutput_of_isConditional isConditional
          exact inductionHypothesis (upTo.pass notOutput (.inr rfl)) following

/-- The outputs of a well-formed network are found in ascending order. -/
theorem WellFormed.outputLayers_eq (wellFormed : network.WellFormed) :
    network.outputLayers = network.outputIds := by
  obtain ⟨final, collects, same⟩ := outputLayers_collects network
  rw [List.range_eq_range'] at collects
  have descending := collects.descending wellFormed.rootsEarlier (.start network)
  have ascending : network.outputLayers.Pairwise (· < ·) := by
    rw [same]
    exact List.pairwise_reverse.2 descending
  exact (outputLayers_perm wellFormed.wired).eq_of_pairwise
    (fun _ _ _ _ less more => absurd less (Nat.lt_asymm more)) ascending
    (outputIds_ascending wellFormed.wired)

end Network

end NetBlueprint
