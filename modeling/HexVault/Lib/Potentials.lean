import HexVault.Lib.Runs
import Mathlib.Algebra.Ring.Nat

/-!
What a run pays for. Where every step's cost and the potential it leaves are covered by the
potential it found and what the step is charged, a run costs no more than the potential it
started with and its charges.
-/

namespace Runs

universe u v
variable {σ : Type u} {α : Type v} {step : σ → α → σ → Prop}

/-- A figure of each step, summed along a history. -/
def tally (figure : σ × α → Nat) (history : List (σ × α)) : Nat := (history.map figure).sum

section Tally
variable {figure bound : σ × α → Nat} {x : σ × α} {history later : List (σ × α)}

@[simp] theorem tally_nil : tally figure [] = 0 := rfl

@[simp] theorem tally_cons : tally figure (x :: history) = figure x + tally figure history := by
  simp [tally]

@[simp] theorem tally_append :
    tally figure (later ++ history) = tally figure later + tally figure history := by
  simp [tally]

theorem tally_mono (h : ∀ x ∈ history, figure x ≤ bound x) :
    tally figure history ≤ tally bound history := by
  induction history with
  | nil => exact Nat.le_refl 0
  | cons x history ih =>
      have first := h x (List.mem_cons_self ..)
      have rest := ih fun y hy => h y (List.mem_cons_of_mem _ hy)
      simp only [tally_cons]
      omega

end Tally

namespace Steps
variable {s t : σ} {history : List (σ × α)} {cost charge : σ × α → Nat}

theorem paid (potential : σ → Nat)
    (each : ∀ {history t a u}, Steps step s history t → step t a u →
      potential u + cost (t, a) ≤ potential t + charge (t, a))
    (run : Steps step s history t) :
    potential t + tally cost history ≤ potential s + tally charge history := by
  induction run with
  | start => simp
  | @next history t u a run h ih =>
      have last := each run h
      simp only [tally_cons]
      omega

end Steps

end Runs
