import Mathlib.Algebra.BigOperators.Group.List.Basic
import Mathlib.Algebra.Order.BigOperators.GroupWithZero.List
import Mathlib.Algebra.Order.Ring.Int
import NetBlueprint.Graph.Shape

/-!
Contract: the shapes that can be allocated.

Elements are counted dimension by dimension, and the running count has to fit 64 bits each time. It
never falls, so it fits all the way exactly if the product of all positive dimensions does, which is
then the count. So it does not matter in which order the dimensions stand.

Owns: volumes over unbounded numbers, allocatable shapes, and what their elements count to.
-/

namespace NetBlueprint

namespace Shape

/-- The product of the positive dimensions, over unbounded numbers. -/
def volume (dims : List Int) : Int :=
  (dims.filter fun size => 0 < size).prod

/-- A batch of one can be allocated: every dimension is a wildcard or positive, and the number of
elements fits signed 64 bits. -/
structure IsAllocatable (shape : Shape) : Prop where
  sizes : ∀ size ∈ shape.dims, size = wildcard ∨ 0 < size
  fits : volume shape.dims ≤ Text.maxSigned

/-- The volume of a shape is positive. -/
theorem volume_pos (dims : List Int) : 0 < volume dims :=
  List.prod_pos fun _ member => of_decide_eq_true (List.mem_filter.1 member).2

theorem volume_cons_of_pos {size : Int} (positive : 0 < size) (dims : List Int) :
    volume (size :: dims) = size * volume dims := by
  rw [volume, List.filter_cons_of_pos (by simpa using positive), List.prod_cons]
  rfl

private theorem volume_cons_of_not_pos {size : Int} (notPositive : ¬ 0 < size) (dims : List Int) :
    volume (size :: dims) = volume dims := by
  rw [volume, List.filter_cons_of_neg (by simpa using notPositive)]
  rfl

/-- Counting on from a count that fits gives a result exactly if no dimension is refused and the
whole product fits. -/
theorem countFrom_eq_some_iff {count result : Int} {dims : List Int} (positive : 0 < count)
    (fits : count ≤ Text.maxSigned) :
    countFrom count dims = some result ↔
      (∀ size ∈ dims, size = wildcard ∨ 0 < size) ∧ count * volume dims ≤ Text.maxSigned ∧
        count * volume dims = result := by
  induction dims generalizing count with
  | nil =>
      have unit : volume [] = 1 := rfl
      rw [countFrom, unit, Int.mul_one, Option.some.injEq]
      exact ⟨fun same => ⟨fun _ member => absurd member List.not_mem_nil, fits, same⟩,
        fun ⟨_, _, same⟩ => same⟩
  | cons size rest inductionHypothesis =>
      rw [countFrom, List.forall_mem_cons]
      by_cases isWildcard : size = wildcard
      · have notPositive : ¬ 0 < size := by rw [isWildcard]; decide
        rw [if_pos isWildcard, inductionHypothesis positive fits,
          volume_cons_of_not_pos notPositive]
        exact and_congr_left fun _ => ⟨fun sizes => ⟨.inl isWildcard, sizes⟩, And.right⟩
      rw [if_neg isWildcard]
      by_cases grows : 0 < size
      · have next : 0 < count * size := Int.mul_pos positive grows
        have least : Text.minSigned ≤ count * size := Int.le_trans (by decide) (Int.le_of_lt next)
        rw [if_pos grows, volume_cons_of_pos grows, ← Int.mul_assoc]
        by_cases nextFits : count * size ≤ Text.maxSigned
        · rw [Text.signed?_eq_some_iff.2 ⟨least, nextFits, rfl⟩, Option.bind_some,
            inductionHypothesis next nextFits]
          exact and_congr_left fun _ => ⟨fun sizes => ⟨.inr grows, sizes⟩, And.right⟩
        · -- What the dimensions that follow multiply by is at least one.
          have refused : Text.signed? (count * size) = none := by
            refine Option.eq_none_iff_forall_ne_some.2 fun _ kept => nextFits ?_
            exact (Text.signed?_eq_some_iff.1 kept).2.1
          have more : count * size ≤ count * size * volume rest :=
            le_mul_of_one_le_right (Int.le_of_lt next) (volume_pos rest)
          rw [refused, Option.bind_none]
          exact iff_of_false nofun fun ⟨_, whole, _⟩ => nextFits (Int.le_trans more whole)
      · rw [if_neg grows]
        exact iff_of_false nofun fun ⟨⟨first, _⟩, _⟩ => first.elim isWildcard grows

/-- The elements of a shape are counted exactly if it is allocatable; there are as many as its
volume says. -/
theorem elements?_eq_some {shape : Shape} {count : Int} :
    shape.elements? = some count ↔ shape.IsAllocatable ∧ volume shape.dims = count := by
  rw [elements?, countFrom_eq_some_iff (by decide) (by decide), Int.one_mul, ← and_assoc]
  exact and_congr_left fun _ =>
    ⟨fun ⟨sizes, fits⟩ => ⟨sizes, fits⟩, fun ⟨sizes, fits⟩ => ⟨sizes, fits⟩⟩

/-- The volume is the same in every order of the dimensions. -/
theorem volume_perm {dims others : List Int} (perm : dims.Perm others) :
    volume dims = volume others :=
  (perm.filter _).prod_eq

/-- The count of elements is exact: there is one exactly if every dimension is a wildcard or
positive and the product of the positive ones, over unbounded numbers, fits signed 64 bits. It is
that product and at least one, and every order of the dimensions has the same answer. -/
theorem elementCount_exact (dims : List Int) :
    (∀ count, (Shape.mk dims).elements? = some count ↔
        (∀ size ∈ dims, size = -1 ∨ 0 < size) ∧ volume dims ≤ 2 ^ 63 - 1 ∧ count = volume dims) ∧
      (∀ count, (Shape.mk dims).elements? = some count → 1 ≤ count) ∧
      ∀ others : List Int, others.Perm dims →
        (Shape.mk others).elements? = (Shape.mk dims).elements? := by
  have counts_iff (dims : List Int) (count : Int) : (Shape.mk dims).elements? = some count ↔
      (∀ size ∈ dims, size = -1 ∨ 0 < size) ∧ volume dims ≤ 2 ^ 63 - 1 ∧ count = volume dims := by
    rw [elements?_eq_some]
    constructor
    · rintro ⟨⟨sizes, fits⟩, same⟩
      exact ⟨sizes, fits, same.symm⟩
    · rintro ⟨sizes, fits, same⟩
      exact ⟨⟨sizes, fits⟩, same.symm⟩
  refine ⟨counts_iff dims, fun count counted => ?_, fun others perm => ?_⟩
  · rw [((counts_iff dims count).1 counted).2.2]
    exact volume_pos dims
  · -- What an answer asks for does not depend on the order, so neither does the answer.
    refine Option.ext fun count => ?_
    rw [counts_iff others, counts_iff dims, volume_perm perm]
    simp only [perm.mem_iff]

/-- The prime factors of the largest signed number are counted to that number, a wildcard among them
and in either order. -/
theorem elementCount_exact_largest :
    [-1, 649657, 7, 92737, 337, 127, 73, 7].Perm [7, 7, 73, 127, 337, 92737, 649657, -1] ∧
      (Shape.mk [7, 7, 73, 127, 337, 92737, 649657, -1]).elements? = some (2 ^ 63 - 1) ∧
      (Shape.mk [-1, 649657, 7, 92737, 337, 127, 73, 7]).elements? = some (2 ^ 63 - 1) := by
  have perm : [-1, 649657, 7, 92737, 337, 127, 73, 7].Perm
      [7, 7, 73, 127, 337, 92737, 649657, -1] := by decide
  have counted : (Shape.mk [7, 7, 73, 127, 337, 92737, 649657, -1]).elements? =
      some (2 ^ 63 - 1) := by decide
  exact ⟨perm, counted, ((elementCount_exact _).2.2 _ perm).trans counted⟩

end Shape

end NetBlueprint
