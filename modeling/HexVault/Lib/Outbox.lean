import Mathlib.Data.List.Basic

/-!
Messages sent to somewhere that takes effect on its own time: one is in flight until
it lands or is dropped, and its sender may know of neither. `sent_once` is the rule for
at most one effect: a sender that sends again only what has been dropped has at most one
message about it that landed or still may.
-/

namespace Outbox

universe u
variable {α : Type u}

inductive Fate where
  | inFlight
  | landed
  | dropped
  deriving DecidableEq, Repr

structure Sent (α : Type u) where
  item : α
  fate : Fate
  deriving DecidableEq, Repr

/-- The messages of a kind that have landed. -/
def landed (p : α → Bool) (sent : List (Sent α)) : Nat :=
  sent.countP fun x => p x.item && x.fate = .landed

/-- The messages of a kind that have landed or still may. -/
def live (p : α → Bool) (sent : List (Sent α)) : Nat :=
  sent.countP fun x => p x.item && x.fate ≠ .dropped

def send (item : α) (sent : List (Sent α)) : List (Sent α) := sent ++ [⟨item, .inFlight⟩]

/-- The fate of a message in flight is decided. -/
def settle (which : α → Bool) (fate : Fate) (sent : List (Sent α)) : List (Sent α) :=
  sent.map fun x => if which x.item = true ∧ x.fate = .inFlight then { x with fate } else x

variable {p which : α → Bool} {sent : List (Sent α)} {item : α} {fate : Fate} {x : Sent α}

theorem landed_le_live : landed p sent ≤ live p sent := by
  refine List.countP_mono_left fun x _ h => ?_
  obtain ⟨mine, landed⟩ := Bool.and_eq_true_iff.mp h
  rw [mine, of_decide_eq_true landed]
  rfl

/-- What is in flight counts already, so nothing that happens to it adds to the count. -/
theorem live_settle_le : live p (settle which fate sent) ≤ live p sent := by
  rw [live, settle, List.countP_map]
  refine List.countP_mono_left fun x _ h => ?_
  simp only [Function.comp_apply] at h
  split at h
  · next flying =>
      obtain ⟨mine, -⟩ := Bool.and_eq_true_iff.mp h
      rw [mine, flying.2]
      rfl
  · exact h

theorem live_send : live p (send item sent) = live p sent + if p item = true then 1 else 0 := by
  rw [live, send, List.countP_append, List.countP_singleton, ← live]
  cases p item with
  | true => rfl
  | false => rfl

theorem live_eq_zero (h : ∀ x ∈ sent, p x.item = true → x.fate = .dropped) : live p sent = 0 := by
  refine List.countP_eq_zero.mpr fun x mem counted => ?_
  obtain ⟨mine, alive⟩ := Bool.and_eq_true_iff.mp counted
  exact of_decide_eq_true alive (h x mem mine)

theorem sent_once (once : live p sent ≤ 1)
    (free : p item = true → ∀ x ∈ sent, p x.item = true → x.fate = .dropped) :
    live p (send item sent) ≤ 1 := by
  rw [live_send]
  by_cases mine : p item = true
  · refine Nat.le_of_eq ?_
    rw [live_eq_zero (free mine), if_pos mine]
  · rw [if_neg mine]
    exact once

theorem mem_send : x ∈ send item sent ↔ x ∈ sent ∨ x = ⟨item, .inFlight⟩ := by
  rw [send, List.mem_append, List.mem_singleton]

/-- After some have been settled, a message is as it was or has just got its fate. -/
theorem of_mem_settle (h : x ∈ settle which fate sent) : x ∈ sent ∨
    (which x.item = true ∧ x.fate = fate ∧ ⟨x.item, .inFlight⟩ ∈ sent) := by
  obtain ⟨y, mem, rfl⟩ := List.mem_map.mp h
  split
  · next flying =>
      refine .inr ⟨flying.1, rfl, ?_⟩
      rw [← flying.2]
      exact mem
  · exact .inl mem

/-- A fate once decided stays. -/
theorem mem_settle (mem : x ∈ sent) (decided : x.fate ≠ .inFlight) :
    x ∈ settle which fate sent := by
  refine List.mem_map.mpr ⟨x, mem, if_neg fun flying => decided flying.2⟩

end Outbox
