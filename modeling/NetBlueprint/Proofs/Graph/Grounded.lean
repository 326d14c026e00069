import Mathlib.Data.List.Chain
import Mathlib.Data.List.Perm.Subperm
import Mathlib.Logic.Relation
import NetBlueprint.Graph.Layer

/-!
Contract: coming down through what layers need, and finishing layers after what they need.

A descent stands on a path of layers, each of which needs the next, and puts the last one in front.
A layer that is come to again on the path needs itself, directly or through others. Searches, orders
and evaluations all finish layers one by one, each after those it needs. Whatever they finish this
way is closed under the need, and no layer in it needs itself.

Owns: paths and grounded lists over any relation between layers.
-/

namespace NetBlueprint

/-- Everything that a layer of a list needs stands behind it. -/
inductive Grounded (Needs : LayerId → LayerId → Prop) : List LayerId → Prop where
  | nil : Grounded Needs []
  | cons {id : LayerId} {finished : List LayerId}
      (met : ∀ other, Needs id other → other ∈ finished) (rest : Grounded Needs finished) :
      Grounded Needs (id :: finished)

namespace Grounded

variable {Needs : LayerId → LayerId → Prop} {finished : List LayerId} {id other : LayerId}

/-- A list that is grounded holds what its layers need. -/
theorem mem_of_needs (grounded : Grounded Needs finished) (member : id ∈ finished)
    (needs : Needs id other) : other ∈ finished := by
  induction grounded with
  | nil => cases member
  | cons met _ inductionHypothesis =>
      rcases List.mem_cons.1 member with rfl | behind
      · exact List.mem_cons_of_mem _ (met other needs)
      · exact List.mem_cons_of_mem _ (inductionHypothesis behind)

/-- A list that is grounded holds whatever its layers lead to. -/
theorem mem_of_reflTransGen (grounded : Grounded Needs finished) (member : id ∈ finished)
    (leads : Relation.ReflTransGen Needs id other) : other ∈ finished := by
  induction leads with
  | refl => exact member
  | tail _ needs inductionHypothesis => exact grounded.mem_of_needs inductionHypothesis needs

/-- A list is grounded for all that is needed of it, so also for less. -/
theorem imp {Less : LayerId → LayerId → Prop} (grounded : Grounded Needs finished)
    (implied : ∀ {id other}, Less id other → Needs id other) : Grounded Less finished := by
  induction grounded with
  | nil => exact .nil
  | cons met _ inductionHypothesis =>
      exact .cons (fun other less => met other (implied less)) inductionHypothesis

/-- The layers behind a layer of the list are grounded by themselves. -/
theorem of_append {ahead : List LayerId} (grounded : Grounded Needs (ahead ++ finished)) :
    Grounded Needs finished := by
  induction ahead with
  | nil => exact grounded
  | cons _ _ inductionHypothesis =>
      cases grounded with
      | cons _ rest => exact inductionHypothesis rest

/-- No layer of the list needs itself, be it through others. -/
theorem not_transGen_self (grounded : Grounded Needs finished) (member : id ∈ finished) :
    ¬ Relation.TransGen Needs id id := by
  induction grounded with
  | nil => cases member
  | cons met rest inductionHypothesis =>
      rcases List.mem_cons.1 member with rfl | behind
      · intro loops
        obtain ⟨next, needs, back⟩ := Relation.TransGen.head'_iff.1 loops
        exact inductionHypothesis (rest.mem_of_reflTransGen (met next needs) back) loops
      · exact inductionHypothesis behind

/-- In the order in which layers were finished, what a layer needs stands before it. -/
theorem idxOf_reverse_lt (grounded : Grounded Needs finished) (nodup : finished.Nodup)
    (member : id ∈ finished) (needs : Needs id other) :
    finished.reverse.idxOf other < finished.reverse.idxOf id := by
  induction grounded with
  | nil => cases member
  | @cons first finished met rest inductionHypothesis =>
      obtain ⟨notBehind, nodup⟩ := List.nodup_cons.1 nodup
      rw [List.reverse_cons]
      rcases List.mem_cons.1 member with rfl | behind
      · have otherBehind := List.mem_reverse.2 (met other needs)
        rw [List.idxOf_append_of_mem otherBehind,
          List.idxOf_append_of_notMem (mt List.mem_reverse.1 notBehind)]
        exact Nat.lt_of_lt_of_le (List.idxOf_lt_length_iff.2 otherBehind) (Nat.le_add_right _ _)
      · rw [List.idxOf_append_of_mem (List.mem_reverse.2 (rest.mem_of_needs behind needs)),
          List.idxOf_append_of_mem (List.mem_reverse.2 behind)]
        exact inductionHypothesis nodup behind

end Grounded

/-! ## Paths -/

/-- The layers that a descent stands on, the last one in front: they differ, and each but the last
needs the one it was left for. -/
structure IsPath (Needs : LayerId → LayerId → Prop) (size : Nat) (path : List LayerId) : Prop where
  nodup : path.Nodup
  inRange : ∀ id ∈ path, id < size
  chain : path.IsChain fun later earlier => Needs earlier later

/-- A layer that a descent may come to next: the last one of its path, if there is one, needs it. -/
structure ComesTo (Needs : LayerId → LayerId → Prop) (size : Nat) (path : List LayerId)
    (id : LayerId) : Prop where
  inside : id < size
  needed : ∀ last ∈ path.head?, Needs last id

section Path

variable {Needs : LayerId → LayerId → Prop} {size : Nat} {path : List LayerId} {id : LayerId}

theorem isPath_nil (Needs : LayerId → LayerId → Prop) (size : Nat) : IsPath Needs size [] :=
  ⟨List.nodup_nil, fun _ member => absurd member List.not_mem_nil, .nil⟩

theorem ComesTo.of_nil (Needs : LayerId → LayerId → Prop) (inside : id < size) :
    ComesTo Needs size [] id :=
  ⟨inside, fun _ last => by cases last⟩

theorem ComesTo.of_needs (path : List LayerId) {last : LayerId} (inside : id < size)
    (needs : Needs last id) : ComesTo Needs size (last :: path) id := by
  refine ⟨inside, ?_⟩
  rintro other isLast
  rw [List.head?_cons, Option.mem_some_iff] at isLast
  rwa [← isLast]

namespace IsPath

theorem cons (isPath : IsPath Needs size path) (offPath : id ∉ path)
    (comesTo : ComesTo Needs size path id) : IsPath Needs size (id :: path) where
  nodup := List.nodup_cons.2 ⟨offPath, isPath.nodup⟩
  inRange := List.forall_mem_cons.2 ⟨comesTo.inside, isPath.inRange⟩
  chain := List.isChain_cons.2 ⟨comesTo.needed, isPath.chain⟩

/-- A path is no longer than there are layers. -/
theorem length_le (isPath : IsPath Needs size path) : path.length ≤ size := by
  have covered : path ⊆ List.range size :=
    fun id member => List.mem_range.2 (isPath.inRange id member)
  have shorter := (isPath.nodup.subperm covered).length_le
  rwa [List.length_range] at shorter

/-- Every layer of a path leads to the last one. -/
theorem reflTransGen {last : LayerId} (isPath : IsPath Needs size (last :: path))
    (member : id ∈ last :: path) : Relation.ReflTransGen Needs id last := by
  have chain := isPath.chain
  clear isPath
  induction path generalizing last with
  | nil => rw [List.mem_singleton.1 member]
  | cons second rest inductionHypothesis =>
      obtain ⟨needs, chain⟩ := List.isChain_cons_cons.1 chain
      rcases List.mem_cons.1 member with rfl | behind
      · exact .refl
      · exact (inductionHypothesis behind chain).tail needs

/-- A layer that a path comes to again needs itself. -/
theorem transGen_self (isPath : IsPath Needs size path) (onPath : id ∈ path)
    (comesTo : ComesTo Needs size path id) : Relation.TransGen Needs id id := by
  cases path with
  | nil => cases onPath
  | cons last rest =>
      exact .tail' (isPath.reflTransGen onPath) (comesTo.needed last (by rw [List.head?_cons]; rfl))

end IsPath

end Path

end NetBlueprint
