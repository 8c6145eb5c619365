import HexVault.Invariants.Stability
import HexVault.Invariants.Tickets
import HexVault.Lib.Timeline

/-!
The Weight Players end an epoch with. Accrual is lazy, so it is read off the
accounts as what they come to at the epoch's end when nothing more happens; a
step moves it by the Entries it moves, for the seconds left, and by what a
purchase credits up front.
-/

namespace HexVault

open Fallible Finmap Runs Timeline

/-- The Weight a Player ends an epoch with that is current or over. -/
def finalWeight (id : Nat) (startsAt endsAt : Int) (_ : Pubkey) (p : Player) : Nat :=
  if p.epochId = id then p.weightAcc + p.entries * (endsAt - p.lastUpdate).toNat
  else p.principal * (endsAt - startsAt).toNat

/-- The Weight all Players end the current epoch with, the House included. -/
def World.weight (w : World) : Nat :=
  total (finalWeight w.pool.currentEpochId w.pool.currentEpochStart w.pool.currentEpochEndsAt)
    w.players

def World.weightOf (w : World) (owner : Pubkey) : Nat :=
  (w.players.lookup owner).elim 0
    (finalWeight w.pool.currentEpochId w.pool.currentEpochStart w.pool.currentEpochEndsAt owner)

def World.entriesOf (w : World) (owner : Pubkey) : Nat :=
  (w.players.lookup owner).elim 0 (entriesNow w.pool.currentEpochId owner)

/-- Seconds left of the current epoch. -/
def World.left (w : World) : Nat := (w.pool.currentEpochEndsAt - w.clock).toNat

section Pair
variable {e : Epoch} {p q r : Player} {pool : Pool} {now : Int} {owner : Pubkey}
  {preCredit weight ps : Nat}

/-- It is what a registration reads, as long as the Player is not touched in the
epoch after. -/
theorem finalWeight_registered (start : 0 ≤ e.startsAt) (updated : 0 ≤ p.lastUpdate)
    (stop : e.endsAt < i64Limit) (behind : p.epochId ≤ e.epochId)
    (h : weightAndPrincipalSeconds e p = .ok (weight, ps)) :
    weight = finalWeight e.epochId e.startsAt e.endsAt owner p := by
  simp only [weightAndPrincipalSeconds, if_neg (Nat.not_lt.mpr behind)] at h
  split at h
  · rename_i same
    simp only [bind_eq_ok, accrue_eq_ok, pure_eq_ok, elapsed_eq updated stop] at h
    obtain ⟨_, ⟨-, rfl⟩, _, -, heq⟩ := h
    rw [finalWeight, if_pos same]
    exact (Prod.mk.inj heq).1.symm
  · rename_i idle
    simp only [bind_eq_ok, weightOf_eq_ok, pure_eq_ok, elapsed_eq start stop] at h
    obtain ⟨_, ⟨-, rfl⟩, heq⟩ := h
    rw [finalWeight, if_neg idle]
    exact (Prod.mk.inj heq).1.symm

theorem finalWeight_moved (owner : Pubkey) (positive : 1 ≤ pool.currentEpochId)
    (behind : p.epochId ≤ pool.currentEpochId) (updated : 0 ≤ p.lastUpdate ∧ p.lastUpdate ≤ now)
    (start : 0 ≤ pool.currentEpochStart ∧ pool.currentEpochStart ≤ now)
    (stop : pool.currentEpochEndsAt < i64Limit) (ht : touch p pool now = .ok q)
    (hm : Moved q r preCredit) :
    finalWeight pool.currentEpochId pool.currentEpochStart pool.currentEpochEndsAt owner r +
        q.entries * (pool.currentEpochEndsAt - now).toNat =
      finalWeight pool.currentEpochId pool.currentEpochStart pool.currentEpochEndsAt owner p +
        r.entries * (pool.currentEpochEndsAt - now).toNat + preCredit := by
  have hr : r.epochId = pool.currentEpochId := hm.epochId.trans (touch_epochId behind ht)
  have hlast : r.lastUpdate = now := hm.lastUpdate.trans (touch_lastUpdate ht)
  have cut : min now pool.currentEpochEndsAt < i64Limit :=
    Int.lt_of_le_of_lt (min_le_right _ _) stop
  rw [finalWeight, if_pos hr, hlast, hm.weightAcc]
  cases touch_cases ht with
  | inl same =>
      have hp : p.epochId = pool.currentEpochId := Nat.le_antisymm behind same.current
      have acc := same.weight
      rw [accrueUntil, if_neg (Nat.ne_of_gt positive), accrue_eq_ok, elapsed_eq updated.1 cut]
        at acc
      have seconds : (min now pool.currentEpochEndsAt - p.lastUpdate).toNat +
          (pool.currentEpochEndsAt - now).toNat =
          (pool.currentEpochEndsAt - p.lastUpdate).toNat := by
        omega
      rw [finalWeight, if_pos hp, acc.2, same.entries, ← seconds, Nat.mul_add]
      omega
  | inr new =>
      have acc := new.weight
      rw [weightOf_eq_ok, elapsed_eq start.1 cut] at acc
      have seconds : (min now pool.currentEpochEndsAt - pool.currentEpochStart).toNat +
          (pool.currentEpochEndsAt - now).toNat =
          (pool.currentEpochEndsAt - pool.currentEpochStart).toNat := by
        omega
      rw [finalWeight, if_neg (Nat.ne_of_lt new.behind), acc.2, new.entries, ← seconds,
        Nat.mul_add]
      omega

end Pair

section Steps
variable {rt : Runtime} {w w' : World} {a : Action} {owner : Pubkey} {r : Player}

/-- A Player made by a deposit. -/
theorem created_weight {q : Player}
    (ht : touch (Player.zeroed.initIfFresh owner w.pool w.clock) w.pool w.clock = .ok q)
    (hm : Moved q r 0) : r.epochId = w.pool.currentEpochId ∧
      finalWeight w.pool.currentEpochId w.pool.currentEpochStart w.pool.currentEpochEndsAt owner
        r = r.entries * w.left := by
  rw [initIfFresh_zeroed] at ht
  cases touch_cases ht with
  | inl same =>
      have hr : r.epochId = w.pool.currentEpochId := hm.epochId.trans same.epochId
      have acc := (accrue_eq_ok.mp same.weight).2
      have zero : q.weightAcc = 0 := by
        simpa only [Player.zeroed, Nat.zero_mul, Nat.add_zero] using acc
      refine ⟨hr, ?_⟩
      rw [finalWeight, if_pos hr, hm.weightAcc, zero, hm.lastUpdate, same.lastUpdate,
        Nat.zero_add, World.left]
  | inr new => exact absurd new.behind (Nat.lt_irrefl _)

/-- One Player's step: the Weight it ends with moves by its Entries for the
seconds left, and by what was credited up front. -/
theorem playerStep_weight (calendar : w.Calendar) (accounts : w.Accounts)
    (positive : 1 ≤ w.pool.currentEpochId) {x : Option Player}
    (step : PlayerStep w a owner (w.players.lookup owner) x) : ∃ preCredit,
    PreCredited w a owner preCredit ∧
    x.elim 0 (finalWeight w.pool.currentEpochId w.pool.currentEpochStart
        w.pool.currentEpochEndsAt owner) + w.entriesOf owner * w.left =
      w.weightOf owner + x.elim 0 (entriesNow w.pool.currentEpochId owner) * w.left +
        preCredit := by
  have order := calendar.currentOrder positive
  rw [World.weightOf, World.entriesOf]
  cases hold : w.players.lookup owner with
  | none =>
      rw [hold] at step
      cases step with
      | same => exact ⟨0, .inl rfl, rfl⟩
      | created _ ht hm =>
          have made := created_weight ht hm
          refine ⟨0, .inl rfl, ?_⟩
          simp only [Option.elim_none, Option.elim_some, made.2, entriesNow, if_pos made.1]
          omega
  | some p =>
      rw [hold] at step
      have behind := accounts.behind hold
      cases step with
      | same => exact ⟨0, .inl rfl, rfl⟩
      | booked same =>
          refine ⟨0, .inl rfl, ?_⟩
          simp only [Option.elim_some, finalWeight, entriesNow, same.epochId, same.weightAcc,
            same.entries, same.lastUpdate, same.principal]
          rfl
      | @moved _ q r preCredit ht hm hc =>
          have hr : r.epochId = w.pool.currentEpochId := hm.epochId.trans (touch_epochId behind ht)
          have moved := finalWeight_moved owner positive behind (accounts.updated hold)
            ⟨order.1, order.2.2.1⟩ order.2.2.2 ht hm
          rw [touch_entries owner behind ht] at moved
          refine ⟨preCredit, hc, ?_⟩
          simp only [Option.elim_some]
          rw [show entriesNow w.pool.currentEpochId owner r = r.entries from if_pos hr]
          exact moved

section Span
variable (span : SameSpan w.pool w'.pool)
include span

theorem weightOf_span (owner : Pubkey) : w'.weightOf owner = (w'.players.lookup owner).elim 0
    (finalWeight w.pool.currentEpochId w.pool.currentEpochStart w.pool.currentEpochEndsAt
      owner) := by
  rw [World.weightOf, span.currentEpochId, span.currentEpochStart, span.currentEpochEndsAt]

theorem entriesOf_span (owner : Pubkey) : w'.entriesOf owner =
    (w'.players.lookup owner).elim 0 (entriesNow w.pool.currentEpochId owner) := by
  rw [World.entriesOf, span.currentEpochId]

theorem weight_span : w'.weight = total (finalWeight w.pool.currentEpochId
    w.pool.currentEpochStart w.pool.currentEpochEndsAt) w'.players := by
  rw [World.weight, span.currentEpochId, span.currentEpochStart, span.currentEpochEndsAt]

theorem entries_span :
    w'.entries = total (entriesNow w.pool.currentEpochId) w'.players := by
  rw [World.entries, span.currentEpochId]

end Span

theorem effect_weightOf (calendar : w.Calendar) (accounts : w.Accounts)
    (positive : 1 ≤ w.pool.currentEpochId) (h : Effect rt w a w') (span : SameSpan w.pool w'.pool)
    (owner : Pubkey) : ∃ preCredit, PreCredited w a owner preCredit ∧
      w'.weightOf owner + w.entriesOf owner * w.left =
        w.weightOf owner + w'.entriesOf owner * w.left + preCredit := by
  rw [weightOf_span span, entriesOf_span span]
  exact playerStep_weight calendar accounts positive (effect_player accounts.owned h owner)

/-- The same for all Players together. -/
theorem effect_weight (calendar : w.Calendar) (accounts : w.Accounts)
    (positive : 1 ≤ w.pool.currentEpochId) (h : Effect rt w a w')
    (span : SameSpan w.pool w'.pool) : ∃ owner preCredit, PreCredited w a owner preCredit ∧
      w'.weight + w.entries * w.left = w.weight + w'.entries * w.left + preCredit := by
  rw [weight_span span, entries_span span, World.weight, World.entries]
  cases effect_players accounts.owned h with
  | inl same => exact ⟨w.pool.house, 0, .inl rfl, by rw [same, Nat.add_zero]⟩
  | inr written =>
      obtain ⟨owner, r, players, step⟩ := written
      obtain ⟨preCredit, hc, moved⟩ := playerStep_weight calendar accounts positive step
      refine ⟨owner, preCredit, hc, ?_⟩
      have weights := total_insert_elim (finalWeight w.pool.currentEpochId
        w.pool.currentEpochStart w.pool.currentEpochEndsAt) owner w.players r
      have entries := congrArg (· * w.left)
        (total_insert_elim (entriesNow w.pool.currentEpochId) owner w.players r)
      simp only [Nat.add_mul] at entries
      simp only [Option.elim_some, World.weightOf, World.entriesOf] at moved
      rw [players]
      omega

end Steps

end HexVault
