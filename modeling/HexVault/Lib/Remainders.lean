import Mathlib.Algebra.BigOperators.Ring.List
import Mathlib.Algebra.Order.BigOperators.Group.List
import Mathlib.Algebra.Order.Ring.Int
import Mathlib.Tactic.Linarith

/-!
A whole cut into parts that are rounded down, and the units that rounding leaves over, given
one each to the parts that lost most. There are no more of them than parts that lost anything.
-/

namespace Remainders

universe u v
variable {α : Type u} {κ : Type v} {l : List α} {c d k : ℤ}

/-- What rounding leaves over, scaled back, is what the parts lost. -/
theorem sum_emod (c d : ℤ) (f : α → ℤ) (l : List α) :
    c * (l.map f).sum = d * (l.map fun a => c * f a / d).sum +
      (l.map fun a => c * f a % d).sum := by
  induction l with
  | nil => simp
  | cons a rest ih =>
      simp only [List.map_cons, List.sum_cons, Int.mul_add]
      have split := Int.mul_ediv_add_emod (c * f a) d
      rw [ih]
      omega

section Lost
variable {lost : α → ℤ}

theorem sum_lost_le (below : ∀ a ∈ l, lost a ≤ d) : (l.map lost).sum ≤ l.length * d := by
  induction l with
  | nil => simp
  | cons a rest ih =>
      have first := below a (List.mem_cons_self ..)
      have ih := ih fun b mem => below b (List.mem_cons_of_mem _ mem)
      rw [List.map_cons, List.sum_cons, List.length_cons, Nat.cast_succ, Int.add_mul]
      omega

theorem le_length (positive : 0 < d) (below : ∀ a ∈ l, lost a < d)
    (sum : (l.map lost).sum = k * d) : k ≤ l.length := by
  refine Int.le_of_mul_le_mul_right ?_ positive
  rw [← sum]
  exact sum_lost_le fun a mem => Int.le_of_lt (below a mem)

/-- Taken by what they lost, the parts that get a unit all lost something. -/
theorem lost_pos_of_mem_take (positive : 0 < d) (bounds : ∀ a ∈ l, 0 ≤ lost a ∧ lost a < d)
    (sorted : l.Pairwise fun a b => lost b ≤ lost a) (sum : (l.map lost).sum = k * d) {a : α}
    (mem : a ∈ l.take k.toNat) : 0 < lost a := by
  obtain ⟨i, hi, rfl⟩ := List.mem_iff_getElem.mp mem
  rw [List.getElem_take]
  rw [List.length_take] at hi
  have here : i < l.length := by omega
  refine lt_of_le_of_ne (bounds _ (List.getElem_mem here)).1 fun zero => ?_
  -- From this part on nothing is lost, so fewer than `k` parts make up the whole loss.
  have none : ((l.drop i).map lost).sum ≤ (l.drop i).length * 0 := by
    refine sum_lost_le fun b mem => ?_
    rw [List.drop_eq_getElem_cons here] at mem
    rcases List.mem_cons.mp mem with rfl | later
    · exact Int.le_of_eq zero.symm
    · have order := sorted
      rw [← List.take_append_drop i l, List.drop_eq_getElem_cons here] at order
      have first := (List.pairwise_cons.mp (List.pairwise_append.mp order).2.1).1 b later
      rw [zero]
      exact first
  have most : ((l.take i).map lost).sum ≤ (l.take i).length * d :=
    sum_lost_le fun b mem => Int.le_of_lt (bounds b (List.mem_of_mem_take mem)).2
  have whole : ((l.take i).map lost).sum + ((l.drop i).map lost).sum = k * d := by
    rw [← List.sum_append, ← List.map_append, List.take_append_drop, sum]
  rw [List.length_take, Nat.min_eq_left (Nat.le_of_lt here)] at most
  have few : (i : ℤ) + 1 ≤ k := by omega
  have step : ((i : ℤ) + 1) * d ≤ k * d := Int.mul_le_mul_of_nonneg_right few (Int.le_of_lt positive)
  rw [Int.add_mul, Int.one_mul] at step
  rw [Int.mul_zero] at none
  omega

end Lost

/-- A unit more for each of the first parts is as many units more. -/
theorem sum_take [DecidableEq κ] (key : α → κ) (f : α → ℤ) (distinct : (l.map key).Nodup)
    {n : ℕ} (few : n ≤ l.length) :
    (l.map fun a => f a + if key a ∈ (l.take n).map key then 1 else 0).sum =
      (l.map f).sum + n := by
  have front : ∀ a ∈ l.take n,
      (f a + if key a ∈ (l.take n).map key then 1 else 0) = f a + 1 := by
    intro a mem
    rw [if_pos (List.mem_map_of_mem mem)]
  have back : ∀ a ∈ l.drop n, (f a + if key a ∈ (l.take n).map key then 1 else 0) = f a := by
    intro a mem
    rw [if_neg, Int.add_zero]
    intro also
    rw [← List.take_append_drop n l, List.map_append, List.nodup_append] at distinct
    exact distinct.2.2 _ also _ (List.mem_map_of_mem mem) rfl
  have split : ∀ g : α → ℤ, (l.map g).sum = ((l.take n).map g).sum + ((l.drop n).map g).sum := by
    intro g
    rw [← List.sum_append, ← List.map_append, List.take_append_drop]
  have units : ∀ rest : List α, (rest.map fun a => f a + 1).sum = (rest.map f).sum + rest.length := by
    intro rest
    induction rest with
    | nil => rfl
    | cons a rest ih =>
        simp only [List.map_cons, List.sum_cons, List.length_cons, ih]
        omega
  rw [split, split f, List.map_congr_left front, List.map_congr_left back, units, List.length_take,
    Nat.min_eq_left few]
  omega

end Remainders
