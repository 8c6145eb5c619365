import HexVault.Lib.Runs
import Mathlib.Data.List.Induction

/-!
Journals. A system logs what it does, and its books are a view of its state. An entry is valid
where its figures are those of the books it is recorded in. Where each step logs valid entries that
take the books before it to the books after it, the log alone gives back the books of every state
of a run, and a fact about valid entries is a fact about every run.
-/

namespace Journals

open Runs

universe u v w x
variable {σ : Type u} {α : Type v} {ε : Type w} {β : Type x}

/-- How a system is journaled. -/
structure Journaling (σ : Type u) (ε : Type w) (β : Type x) where
  log : σ → List ε
  books : σ → β
  record : β → ε → β
  valid : β → ε → Prop

namespace Journaling
variable (j : Journaling σ ε β)

/-- What a list of entries makes of the books. -/
def replay (books : β) (entries : List ε) : β := entries.foldl j.record books

/-- Each entry is valid in the books it is recorded in. -/
def Sound (books : β) : List ε → Prop
  | [] => True
  | entry :: entries => j.valid books entry ∧ Sound (j.record books entry) entries

/-- The step logged what it did. -/
def Records (s t : σ) : Prop :=
  ∃ entries, j.log t = j.log s ++ entries ∧ j.Sound (j.books s) entries ∧
    j.replay (j.books s) entries = j.books t

/-- From the opening books on, the log is sound and gives the books. -/
structure Balanced (opening : β) (s : σ) : Prop where
  sound : j.Sound opening (j.log s)
  books : j.replay opening (j.log s) = j.books s

variable {j} {opening books : β} {s t : σ} {first second entries : List ε}
  {history : List (σ × α)} {step : σ → α → σ → Prop}

theorem replay_append :
    j.replay books (first ++ second) = j.replay (j.replay books first) second :=
  List.foldl_append

theorem sound_append : j.Sound books (first ++ second) ↔
    j.Sound books first ∧ j.Sound (j.replay books first) second := by
  induction first generalizing books with
  | nil => exact (and_iff_right trivial).symm
  | cons entry first ih =>
      rw [List.cons_append, Sound, Sound, ih, and_assoc]
      rfl

/-- What holds of the opening books and survives each valid entry holds of a sound log. -/
theorem Sound.invariant {P : List ε → β → Prop} (base : P [] opening)
    (kept : ∀ {done books entry}, P done books → j.valid books entry →
      P (done ++ [entry]) (j.record books entry))
    (sound : j.Sound opening entries) : P entries (j.replay opening entries) := by
  induction entries using List.reverseRecOn with
  | nil => exact base
  | append_singleton done entry ih =>
      obtain ⟨before, valid, -⟩ := sound_append.mp sound
      rw [replay_append]
      exact kept (ih before) valid

/-- An entry of a sound log was valid in the books of what was logged before it. -/
theorem Sound.entry {entry : ε} (sound : j.Sound opening (first ++ entry :: second)) :
    j.Sound opening first ∧ j.valid (j.replay opening first) entry := by
  obtain ⟨before, valid, -⟩ := sound_append.mp sound
  exact ⟨before, valid⟩

/-- A step that logs nothing leaves the books alone. -/
theorem Records.silent (log : j.log t = j.log s) (books : j.books t = j.books s) :
    j.Records s t :=
  ⟨[], by rw [log, List.append_nil], trivial, books.symm⟩

theorem Records.single {entry : ε} (log : j.log t = j.log s ++ [entry])
    (valid : j.valid (j.books s) entry) (books : j.record (j.books s) entry = j.books t) :
    j.Records s t :=
  ⟨[entry], log, ⟨valid, trivial⟩, books⟩

theorem Records.trans {t' : σ} (h : j.Records s t) (h' : j.Records t t') : j.Records s t' := by
  obtain ⟨entries, log, sound, books⟩ := h
  obtain ⟨entries', log', sound', books'⟩ := h'
  refine ⟨entries ++ entries', ?_, ?_, ?_⟩
  · rw [log', log, List.append_assoc]
  · rw [sound_append, books]
    exact ⟨sound, sound'⟩
  · rw [replay_append, books, books']

theorem Balanced.next (h : j.Balanced opening s) (step : j.Records s t) :
    j.Balanced opening t := by
  obtain ⟨entries, log, sound, books⟩ := step
  refine ⟨?_, ?_⟩
  · rw [log, sound_append, h.books]
    exact ⟨h.sound, sound⟩
  · rw [log, replay_append, h.books, books]

end Journaling

/-! One more entry. -/

section Snoc
variable {log before after : List ε} {entry other : ε} {p : ε → Bool}

theorem filter_snoc_of_neg (h : p entry = false) : (log ++ [entry]).filter p = log.filter p := by
  rw [List.filter_append, List.filter_cons_of_neg (Bool.not_eq_true _ ▸ h), List.filter_nil,
    List.append_nil]

theorem filter_snoc_of_pos (h : p entry = true) :
    (log ++ [entry]).filter p = log.filter p ++ [entry] := by
  rw [List.filter_append, List.filter_cons_of_pos h, List.filter_nil]

/-- An entry of the longer log is an earlier one or the last. -/
theorem snoc_split (h : log ++ [entry] = before ++ other :: after) :
    (∃ rest, log = before ++ other :: rest) ∨ before = log ∧ other = entry := by
  rcases List.eq_nil_or_concat after with rfl | ⟨rest, last, rfl⟩
  · obtain ⟨same, single⟩ := List.append_inj' h rfl
    exact .inr ⟨same.symm, (List.singleton_inj.mp single).symm⟩
  · rw [List.concat_eq_append, ← List.cons_append, ← List.append_assoc] at h
    exact .inl ⟨rest, (List.append_inj' h rfl).1⟩

end Snoc

end Journals
