import Mathlib.Data.List.Infix
import Mathlib.Order.Basic

/-!
Conditions on a history that hold since some event without interruption. A condition that comes to
hold is dated by the event it comes with; whether it has held throughout from a time on can be
read from that date alone.
-/

namespace Holding

universe u v
variable {α : Type u} {τ : Type v} {holds : List α → Prop} {time : α → τ} {since start : τ}
  {events before after : List α} {event : α}

/-- It holds after `before`, and after each later event. -/
def Unbroken (holds : List α → Prop) (before after : List α) : Prop :=
  ∀ held, held <+: after → holds (before ++ held)

/-- The event of time `since` is the last one after which the condition holds and did not before. -/
def Since (holds : List α → Prop) (time : α → τ) (events : List α) (since : τ) : Prop :=
  ∃ before event after, events = before ++ event :: after ∧ time event = since ∧
    ¬ holds before ∧ Unbroken holds (before ++ [event]) after

/-- From `start` on the condition holds: after the events up to it, and after each one since. -/
def Throughout [LE τ] (holds : List α → Prop) (time : α → τ) (events : List α) (start : τ) :
    Prop :=
  ∃ before after, events = before ++ after ∧ (∀ event ∈ before, time event ≤ start) ∧
    (∀ event ∈ after, start ≤ time event) ∧ Unbroken holds before after

theorem Unbroken.first (unbroken : Unbroken holds before after) : holds before := by
  have first := unbroken [] List.nil_prefix
  rwa [List.append_nil] at first

theorem Unbroken.last (unbroken : Unbroken holds before after) : holds (before ++ after) :=
  unbroken after (List.prefix_refl after)

theorem unbroken_nil : Unbroken holds before [] ↔ holds before := by
  constructor
  · exact Unbroken.first
  · intro h held none
    rwa [List.prefix_nil.mp none, List.append_nil]

theorem unbroken_append_singleton : Unbroken holds before (after ++ [event]) ↔
    Unbroken holds before after ∧ holds (before ++ after ++ [event]) := by
  rw [List.append_assoc]
  constructor
  · intro unbroken
    exact ⟨fun held few => unbroken held (few.trans (List.prefix_append ..)), unbroken.last⟩
  · intro h held few
    rcases List.prefix_concat_iff.mp few with all | few
    · exact all ▸ h.2
    · exact h.1 held few

theorem since_nil : ¬ Since holds time [] since := by
  intro h
  obtain ⟨before, event, after, none, -⟩ := h
  exact absurd none.symm (by simp)

/-- One event later: the date stays where it held before, and is that event's where it did not. -/
theorem since_append_singleton : Since holds time (events ++ [event]) since ↔
    holds (events ++ [event]) ∧
      (Since holds time events since ∨ ¬ holds events ∧ time event = since) := by
  constructor
  · intro h
    obtain ⟨before, first, after, all, date, not_before, unbroken⟩ := h
    cases after using List.reverseRecOn with
    | nil =>
        obtain ⟨rfl, same⟩ := List.append_inj' all rfl
        obtain rfl := List.singleton_inj.mp same
        exact ⟨unbroken.first, .inr ⟨not_before, date⟩⟩
    | append_singleton after last =>
        rw [← List.cons_append, ← List.append_assoc] at all
        obtain ⟨rfl, same⟩ := List.append_inj' all rfl
        obtain rfl := List.singleton_inj.mp same
        obtain ⟨earlier, now⟩ := unbroken_append_singleton.mp unbroken
        refine ⟨?_, .inl ⟨before, first, after, rfl, date, not_before, earlier⟩⟩
        simpa using now
  · intro h
    obtain ⟨now, ⟨before, first, after, rfl, date, not_before, unbroken⟩ | ⟨not_before, date⟩⟩ := h
    · refine ⟨before, first, after ++ [event], by simp, date, not_before, ?_⟩
      refine unbroken_append_singleton.mpr ⟨unbroken, ?_⟩
      simpa using now
    · exact ⟨events, event, [], rfl, date, not_before, unbroken_nil.mpr now⟩

theorem Since.mem (h : Since holds time events since) : ∃ event ∈ events, time event = since := by
  obtain ⟨before, event, after, rfl, date, -, -⟩ := h
  exact ⟨event, by simp, date⟩

/-- What holds now and did not at first has a date. -/
theorem exists_since (never : ¬ holds []) (now : holds events) :
    ∃ since, Since holds time events since := by
  induction events using List.reverseRecOn with
  | nil => exact absurd now never
  | append_singleton events event ih =>
      by_cases earlier : holds events
      · obtain ⟨since, h⟩ := ih earlier
        exact ⟨since, since_append_singleton.mpr ⟨now, .inl h⟩⟩
      · exact ⟨time event, since_append_singleton.mpr ⟨now, .inr ⟨earlier, rfl⟩⟩⟩

theorem Since.append (h : Since holds time before since) (unbroken : Unbroken holds before after) :
    Since holds time (before ++ after) since := by
  induction after using List.reverseRecOn with
  | nil => rwa [List.append_nil]
  | append_singleton after event ih =>
      obtain ⟨earlier, now⟩ := unbroken_append_singleton.mp unbroken
      rw [← List.append_assoc]
      exact since_append_singleton.mpr ⟨now, .inl (ih earlier)⟩

/-- It has held throughout from some time up to the bound just where its date is up to the bound. -/
theorem exists_throughout_iff [Preorder τ] (never : ¬ holds [])
    (chronological : events.Pairwise fun a b => time a ≤ time b) {bound : τ} :
    (∃ start, start ≤ bound ∧ Throughout holds time events start) ↔
      ∃ since, since ≤ bound ∧ Since holds time events since := by
  constructor
  · intro h
    obtain ⟨start, early, before, after, rfl, until_, -, unbroken⟩ := h
    obtain ⟨since, date⟩ := @exists_since _ _ _ time _ never unbroken.first
    obtain ⟨event, mem, rfl⟩ := date.mem
    exact ⟨time event, (until_ event mem).trans early, date.append unbroken⟩
  · intro h
    obtain ⟨since, early, before, event, after, rfl, rfl, -, unbroken⟩ := h
    rw [← List.singleton_append, ← List.append_assoc, List.pairwise_append] at chronological
    obtain ⟨first, -, rest⟩ := chronological
    refine ⟨time event, early, before ++ [event], after, by simp, ?_, ?_, unbroken⟩
    · intro earlier mem
      rcases List.mem_append.mp mem with known | same
      · exact (List.pairwise_append.mp first).2.2 earlier known event (List.mem_singleton_self _)
      · exact List.mem_singleton.mp same ▸ le_refl _
    · intro later mem
      exact rest event (by simp) later mem

end Holding
