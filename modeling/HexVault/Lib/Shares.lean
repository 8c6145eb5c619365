import Mathlib.Algebra.BigOperators.Group.List.Basic
import Mathlib.Algebra.BigOperators.Ring.List
import Mathlib.Algebra.Order.BigOperators.Group.List
import Mathlib.Algebra.Order.Ring.Int
import Mathlib.Tactic.Common

/-!
A whole shared out in proportion, each share rounded down. Together the shares
never exceed the whole, and what rounding loses is less than one for each share.
-/

namespace Shares

universe u
variable {α : Type u}

/-- The share of `c` that a part `x` of `d` comes to. -/
def share (c d x : ℕ) : ℕ := c * x / d

/-- All shares, scaled back, are within the parts they were computed from. -/
theorem sum_share_mul_le (c d : ℕ) (f : α → ℕ) (l : List α) :
    (l.map fun a => share c d (f a)).sum * d ≤ c * (l.map f).sum := by
  induction l with
  | nil => simp
  | cons a rest ih =>
      simp only [List.map_cons, List.sum_cons, Nat.add_mul, Nat.mul_add]
      exact Nat.add_le_add (Nat.div_mul_le_self _ _) ih

theorem sum_share_le (c : ℕ) {d : ℕ} (f : α → ℕ) {l : List α} (h : (l.map f).sum ≤ d) :
    (l.map fun a => share c d (f a)).sum ≤ c := by
  cases Nat.eq_zero_or_pos d with
  | inl zero =>
      subst zero
      have none : (l.map fun a => share c 0 (f a)).sum = 0 := by simp [share]
      rw [none]
      exact Nat.zero_le _
  | inr positive =>
      refine Nat.le_of_mul_le_mul_right ?_ positive
      exact Nat.le_trans (sum_share_mul_le c d f l) (Nat.mul_le_mul_left c h)

/-- Scaled back, a share falls short of its part by less than the divisor, and
one of nothing by nothing: only the parts that `p` holds of may count. -/
theorem le_sum_share_mul (c : ℕ) {d : ℕ} (positive : 0 < d) {f : α → ℕ} {p : α → Bool}
    (empty : ∀ a, p a = false → f a = 0) (l : List α) :
    c * (l.map f).sum + l.countP p ≤
      ((l.map fun a => share c d (f a)).sum + l.countP p) * d := by
  induction l with
  | nil => simp
  | cons a rest ih =>
      have one : c * f a + (if p a then 1 else 0) ≤
          share c d (f a) * d + (if p a then 1 else 0) * d := by
        split
        · have below : c * f a < d * (c * f a / d + 1) := Nat.lt_mul_div_succ _ positive
          rw [Nat.mul_add, Nat.mul_one, Nat.mul_comm d] at below
          rw [Nat.one_mul, share]
          omega
        · rename_i off
          rw [empty a (by simpa using off)]
          simp [share]
      simp only [List.map_cons, List.sum_cons, List.countP_cons, Nat.add_mul, Nat.mul_add] at *
      omega

/-- Where the parts make up the whole, less than one a share is lost. -/
theorem lt_sum_share (c : ℕ) {d : ℕ} (positive : 0 < d) {f : α → ℕ} {p : α → Bool}
    (empty : ∀ a, p a = false → f a = 0) {l : List α} (h : (l.map f).sum = d) :
    c < (l.map fun a => share c d (f a)).sum + l.countP p := by
  have covered := le_sum_share_mul c positive empty l
  rw [h] at covered
  have some : 0 < l.countP p := by
    apply Nat.pos_of_ne_zero
    intro none
    have zero : l.map f = l.map fun _ => 0 := by
      refine List.map_congr_left ?_
      intro a ha
      exact empty a (by simpa using List.countP_eq_zero.mp none a ha)
    rw [zero, List.map_const', List.sum_replicate, nsmul_zero] at h
    omega
  have strict : c * d < ((l.map fun a => share c d (f a)).sum + l.countP p) * d := by omega
  exact Nat.lt_of_mul_lt_mul_right strict

/-! The same on integers, divided towards zero as machines divide them. -/

section Integers
variable {c d x y : ℤ}

/-- A larger part has no smaller share. -/
theorem tdiv_le_tdiv (hc : 0 ≤ c) (hd : 0 < d) (le : x ≤ y) : (x * c).tdiv d ≤ (y * c).tdiv d :=
  Int.tdiv_le_tdiv hd (Int.mul_le_mul_of_nonneg_right le hc)

/-- A share of less than the whole is less than the part. -/
theorem tdiv_le_self (hx : 0 ≤ x) (hd : 0 < d) (le : c ≤ d) : (x * c).tdiv d ≤ x := by
  have most : (x * c).tdiv d ≤ (x * d).tdiv d :=
    Int.tdiv_le_tdiv hd (Int.mul_le_mul_of_nonneg_left le hx)
  rwa [Int.mul_tdiv_cancel _ (Int.ne_of_gt hd)] at most

theorem tdiv_mul_le (hc : 0 ≤ c) (hx : 0 ≤ x) : (x * c).tdiv d * d ≤ x * c := by
  rw [Int.tdiv_eq_ediv_of_nonneg (Int.mul_nonneg hx hc)]
  by_cases zero : d = 0
  · rw [zero, Int.mul_zero]
    exact Int.mul_nonneg hx hc
  · exact Int.ediv_mul_le _ zero

/-- Together the shares never exceed the whole. -/
theorem sum_tdiv_le {f : α → ℤ} {l : List α} (hc : 0 ≤ c) (hd : 0 < d) (nonneg : ∀ a ∈ l, 0 ≤ f a)
    (h : (l.map f).sum ≤ d) : (l.map fun a => (f a * c).tdiv d).sum ≤ c := by
  refine Int.le_of_mul_le_mul_right ?_ hd
  calc (l.map fun a => (f a * c).tdiv d).sum * d
      = (l.map fun a => (f a * c).tdiv d * d).sum := (List.sum_map_mul_right ..).symm
    _ ≤ (l.map fun a => f a * c).sum :=
        List.sum_le_sum fun a mem => tdiv_mul_le hc (nonneg a mem)
    _ = (l.map f).sum * c := List.sum_map_mul_right ..
    _ ≤ c * d := by
        rw [Int.mul_comm c d]
        exact Int.mul_le_mul_of_nonneg_right h hc

end Integers

end Shares
