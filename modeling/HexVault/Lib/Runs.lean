import Mathlib.Tactic.Common

/-!
Runs of a transition relation. The history of a run lists each step newest first,
as the state it was taken in and its label; the current state is kept apart. A
rule about every run is proved from its start and its steps.
-/

namespace Runs

universe u v w w'
variable {σ : Type u} {α : Type v} {step : σ → α → σ → Prop}

/-- `Steps step s history t`: the steps of `history` lead from `s` to `t`. -/
inductive Steps (step : σ → α → σ → Prop) (s : σ) : List (σ × α) → σ → Prop
  | start : Steps step s [] s
  | next {history : List (σ × α)} {t u : σ} {a : α} :
      Steps step s history t → step t a u → Steps step s ((t, a) :: history) u

namespace Steps
variable {s t u : σ} {history : List (σ × α)}

/-- What holds at the start and survives each step holds at the end. -/
theorem invariant {P : List (σ × α) → σ → Prop} (base : P [] s)
    (kept : ∀ {history t a u}, Steps step s history t → P history t → step t a u →
      P ((t, a) :: history) u)
    (run : Steps step s history t) : P history t := by
  induction run with
  | start => exact base
  | next run h ih => exact kept run ih h

/-- The same under a condition that every step of the history meets. -/
theorem invariantWhile {C : σ × α → Prop} {P : List (σ × α) → σ → Prop} (base : P [] s)
    (kept : ∀ {history t a u}, Steps step s history t → P history t → C (t, a) →
      step t a u → P ((t, a) :: history) u)
    (run : Steps step s history t) (all : ∀ x ∈ history, C x) : P history t := by
  induction run with
  | start => exact base
  | next run h ih =>
      exact kept run (ih fun x hx => all x (List.mem_cons_of_mem _ hx))
        (all _ (List.mem_cons_self ..)) h

/-- A function that takes one event after another and keeps the history, a step for each, makes a run
of them. `ok` is how its monad returns. -/
theorem fold {ε : Type w} {ρ : Type w'} {takeAll : List ε → List (σ × α) × σ → ρ}
    (ok : List (σ × α) × σ → ρ) {events : List ε} {history' : List (σ × α)}
    (ended : ∀ {state final}, takeAll [] state = ok final → state = final)
    (took : ∀ {event rest history t final}, takeAll (event :: rest) (history, t) = ok final →
      ∃ a u, step t a u ∧ takeAll rest ((t, a) :: history, u) = ok final)
    (run : Steps step s history t) (h : takeAll events (history, t) = ok (history', u)) :
    Steps step s history' u := by
  induction events generalizing history t with
  | nil =>
      cases ended h
      exact run
  | cons event rest ih =>
      obtain ⟨a, v, taken, h⟩ := took h
      exact ih (run.next taken) h

theorem append {later : List (σ × α)} (first : Steps step s history t)
    (second : Steps step t later u) : Steps step s (later ++ history) u := by
  induction second with
  | start => exact first
  | next _ h ih => exact ih.next h

/-- A step of the history, with the run up to it, the step and the rest. -/
theorem split {x : σ × α} (run : Steps step s history t) (hx : x ∈ history) :
    ∃ later earlier u, history = later ++ x :: earlier ∧ Steps step s earlier x.1 ∧
      step x.1 x.2 u ∧ Steps step u later t := by
  induction run with
  | start => exact absurd hx List.not_mem_nil
  | @next history t u a run h ih =>
      cases List.mem_cons.mp hx with
      | inl heq =>
          subst heq
          exact ⟨[], history, u, rfl, run, h, .start⟩
      | inr hx =>
          obtain ⟨later, earlier, v, rfl, hrun, hstep, hrest⟩ := ih hx
          exact ⟨(t, a) :: later, earlier, v, rfl, hrun, hstep, hrest.next h⟩

end Steps

/-- A run of steps that all meet a condition. -/
def Leads (step : σ → α → σ → Prop) (C : σ × α → Prop) (s t : σ) : Prop :=
  ∃ history, Steps step s history t ∧ ∀ x ∈ history, C x

namespace Leads
variable {C D : σ × α → Prop} {s t u : σ} {a : α}

theorem refl (s : σ) : Leads step C s s := ⟨[], .start, nofun⟩

theorem single (h : step s a t) (hc : C (s, a)) : Leads step C s t := by
  refine ⟨[(s, a)], Steps.start.next h, ?_⟩
  intro x hx
  exact List.mem_singleton.mp hx ▸ hc

theorem trans (first : Leads step C s t) (second : Leads step C t u) : Leads step C s u := by
  obtain ⟨earlier, before, all⟩ := first
  obtain ⟨later, after, rest⟩ := second
  refine ⟨later ++ earlier, before.append after, ?_⟩
  intro x hx
  cases List.mem_append.mp hx with
  | inl new => exact rest x new
  | inr old => exact all x old

theorem mono (weaker : ∀ x, C x → D x) (h : Leads step C s t) : Leads step D s t := by
  obtain ⟨history, steps, all⟩ := h
  exact ⟨history, steps, fun x hx => weaker x (all x hx)⟩

end Leads

end Runs
