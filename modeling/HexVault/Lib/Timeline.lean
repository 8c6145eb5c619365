import Mathlib.Algebra.BigOperators.Intervals
import Mathlib.Algebra.Order.BigOperators.Group.Finset
import Mathlib.Data.Int.Interval

/-!
A quantity that changes only at instants. The trajectory of a run gives its value
at every second, the last change at or before it; the integral sums a trajectory
over a half-open stretch of seconds.
-/

namespace Timeline

universe u v
variable {σ : Type u} {α : Type v}

/-- The sum of a rate over the seconds of `[start, stop)`. -/
def integral (rate : Int → Nat) (start stop : Int) : Nat :=
  ∑ t ∈ @Finset.Ico Int Int.instLinearOrder.toPreorder _ start stop, rate t

/-- The rate `f` until `instant`, and `c` from then on. -/
def switchAt (instant : Int) (c : Nat) (f : Int → Nat) (t : Int) : Nat :=
  if instant ≤ t then c else f t

/-- The value of `f` at each second of a run, its history newest first. Before
the run it is the value at its start. -/
def trajectory (time : σ → Int) (f : List (σ × α) → σ → Nat) : List (σ × α) → σ → Int → Nat
  | [], s => fun _ => f [] s
  | (earlier, a) :: history, s =>
      switchAt (time s) (f ((earlier, a) :: history) s) (trajectory time f history earlier)

section Integral
variable {f g : Int → Nat} {start mid stop instant : Int} {c d : Nat}

theorem integral_congr (h : ∀ t, start ≤ t → t < stop → f t = g t) :
    integral f start stop = integral g start stop := by
  refine Finset.sum_congr rfl ?_
  intro t ht
  have bounds := Finset.mem_Ico.mp ht
  exact h t bounds.1 bounds.2

theorem integral_mono (h : ∀ t, f t ≤ g t) : integral f start stop ≤ integral g start stop :=
  Finset.sum_le_sum fun t _ => h t

theorem integral_const (h : ∀ t, start ≤ t → t < stop → f t = c) :
    integral f start stop = c * (stop - start).toNat := by
  have each : ∀ t ∈ Finset.Ico start stop, f t = c := by
    intro t ht
    have bounds := Finset.mem_Ico.mp ht
    exact h t bounds.1 bounds.2
  rw [integral, Finset.sum_const_nat each, Int.card_Ico, Nat.mul_comm]

theorem integral_split (h : start ≤ mid) (k : mid ≤ stop) :
    integral f start stop = integral f start mid + integral f mid stop := by
  have union := Finset.Ico_union_Ico_eq_Ico h k
  have disjoint := Finset.Ico_disjoint_Ico_consecutive start mid stop
  simp only [integral, ← union, Finset.sum_union disjoint]

/-- Switching a rate that had settled on `d` to `c` moves the integral by the
seconds left. -/
theorem integral_switchAt (h : start ≤ instant) (settled : ∀ t, instant ≤ t → f t = d) :
    integral (switchAt instant c f) start stop + d * (stop - instant).toNat =
      integral f start stop + c * (stop - instant).toNat := by
  by_cases late : stop ≤ instant
  · have gone : (stop - instant).toNat = 0 := by omega
    have same : integral (switchAt instant c f) start stop = integral f start stop := by
      refine integral_congr ?_
      intro t _ ht
      exact if_neg (by omega)
    rw [gone, same, Nat.mul_zero, Nat.mul_zero]
  · have within : instant ≤ stop := by omega
    have before : integral (switchAt instant c f) start instant = integral f start instant := by
      refine integral_congr ?_
      intro t _ ht
      exact if_neg (by omega)
    have switched : integral (switchAt instant c f) instant stop =
        c * (stop - instant).toNat := by
      refine integral_const ?_
      intro t ht _
      exact if_pos ht
    have rest : integral f instant stop = d * (stop - instant).toNat :=
      integral_const fun t ht _ => settled t ht
    rw [integral_split h within, integral_split (f := f) h within, before, switched, rest]
    omega

end Integral

section Trajectory
variable {time : σ → Int} {f g : List (σ × α) → σ → Nat} {history : List (σ × α)} {s s' : σ}

theorem trajectory_settled {t : Int} (h : time s ≤ t) :
    trajectory time f history s t = f history s := by
  cases history with
  | nil => rfl
  | cons x rest => exact if_pos h

/-- One more step of a run, in terms of the integral before it. -/
theorem trajectory_next (f : List (σ × α) → σ → Nat) (history : List (σ × α)) (a : α)
    (stop : Int) {start : Int} (h : start ≤ time s') (later : time s ≤ time s') :
    integral (trajectory time f ((s, a) :: history) s') start stop +
        f history s * (stop - time s').toNat =
      integral (trajectory time f history s) start stop +
        f ((s, a) :: history) s' * (stop - time s').toNat := by
  refine integral_switchAt h ?_
  intro t ht
  exact trajectory_settled (Int.le_trans later ht)

theorem trajectory_mono (h : ∀ history s, f history s ≤ g history s) (t : Int) :
    trajectory time f history s t ≤ trajectory time g history s t := by
  induction history generalizing s with
  | nil => exact h [] s
  | cons x rest ih =>
      simp only [trajectory, switchAt]
      split
      · exact h _ s
      · exact ih

/-- A quantity of the state that never changed has a constant trajectory. -/
theorem trajectory_const {q : σ → Nat} {c : Nat} (hs : q s = c) (h : ∀ x ∈ history, q x.1 = c)
    (t : Int) : trajectory time (fun _ => q) history s t = c := by
  induction history generalizing s with
  | nil => exact hs
  | cons x rest ih =>
      have older := ih (h x (List.mem_cons_self ..)) fun y hy => h y (List.mem_cons_of_mem _ hy)
      simp only [trajectory, switchAt, hs, older, ite_self]

end Trajectory

end Timeline
