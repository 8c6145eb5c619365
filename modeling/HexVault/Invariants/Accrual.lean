import HexVault.Invariants.Stability
import HexVault.Invariants.Widths

/-!
What holds of a Player's accumulators in every reachable state: its frozen figures
belong to an epoch it has moved past, and its principal-seconds fit the time there
has been.
-/

namespace HexVault

open Fallible Finmap Runs

section Players
variable {rt : Runtime} {w w' : World} {a : Action} {owner : Pubkey} {p : Player}

/-- A property of a Player's accrual holds of every account a run can reach, if it
holds of a new one and a touch keeps it. -/
theorem reachable_player {P : Player → Prop}
    (house : ∀ operator now, P (newHouse operator now))
    (booked : ∀ {p r}, SameAccrual p r → P p → P r)
    (moved : ∀ {w owner p q r preCredit}, Reachable rt w → w.players.lookup owner = some p →
      touch p w.pool w.clock = .ok q → Moved q r preCredit → P p → P r)
    (fresh : ∀ {w owner q r}, Reachable rt w →
      touch (Player.zeroed.initIfFresh owner w.pool w.clock) w.pool w.clock = .ok q →
      Moved q r 0 → P r)
    (h : Reachable rt w) (hp : w.players.lookup owner = some p) : P p := by
  have all : ∀ owner p, w.players.lookup owner = some p → P p := by
    refine h.invariant (P := fun w => ∀ owner p, w.players.lookup owner = some p → P p) ?_ ?_
    · intro start created owner p hp
      obtain ⟨-, rfl⟩ := created_player created hp
      exact house owner start.clock
    · intro w a w' before hi hs owner r hr
      have kept := hi owner
      have step := effect_player (reachable_accounts before).owned (step_effect hs) owner
      rw [hr] at step
      cases hold : w.players.lookup owner with
      | none =>
          rw [hold] at step
          cases step with
          | created _ ht hm => exact fresh before ht hm
      | some p =>
          rw [hold] at step
          cases step with
          | same => exact kept _ hold
          | booked same => exact booked same (kept p hold)
          | moved ht hm => exact moved before hold ht hm (kept p hold)
  exact all owner p hp

/-- The frozen figures are of an epoch before the Player's own. -/
def Player.FrozenBehind (p : Player) : Prop := p.frozenEpoch = 0 ∨ p.frozenEpoch < p.epochId

theorem touch_frozenBehind {q : Player} {pool : Pool} {now : Int} (hp : p.FrozenBehind)
    (h : touch p pool now = .ok q) : q.FrozenBehind := by
  cases touch_cases h with
  | inl same =>
      rw [Player.FrozenBehind, same.frozenEpoch, same.epochId]
      exact hp
  | inr new =>
      have behind := new.behind
      rw [Player.FrozenBehind, new.frozenEpoch, new.epochId]
      omega

theorem Moved.frozenBehind {q r : Player} {preCredit : Nat} (h : Moved q r preCredit)
    (hq : q.FrozenBehind) : r.FrozenBehind := by
  rw [Player.FrozenBehind, h.frozenEpoch, h.epochId]
  exact hq

theorem reachable_frozenBehind (h : Reachable rt w) (hp : w.players.lookup owner = some p) :
    p.FrozenBehind := by
  refine reachable_player (P := Player.FrozenBehind) ?_ ?_ ?_ ?_ h hp
  · intro operator now
    exact .inl rfl
  · intro p r same hp
    rw [Player.FrozenBehind, same.frozenEpoch, same.epochId]
    exact hp
  · intro w owner p q r preCredit before hold ht hm hp
    exact hm.frozenBehind (touch_frozenBehind hp ht)
  · intro w owner q r before ht hm
    rw [initIfFresh_zeroed] at ht
    exact hm.frozenBehind (touch_frozenBehind (.inl rfl) ht)

theorem registerYield_totalPrincipal {pool : Pool} {epochId ps : Nat} {now : Int}
    {r : Pool × Player × List Event} (h : registerYield pool p epochId ps now = .ok r)
    (hi : pool.totalPrincipal < u64Limit) : r.1.totalPrincipal < u64Limit := by
  simp only [registerYield] at h
  split at h
  · simp only [creditYield, bind_eq_ok, addU64_eq_ok, pure_eq_ok] at h
    obtain ⟨_, ⟨_, -, _, -, _, -, _, -, _, -, _, ⟨fits, rfl⟩, _, -, rfl⟩, rfl⟩ := h
    exact fits
  · cases h
    exact hi

theorem register_totalPrincipal {id : Nat} (h : register id owner w = .ok w')
    (hi : w.pool.totalPrincipal < u64Limit) : w'.pool.totalPrincipal < u64Limit := by
  simp only [register, bind_eq_ok] at h
  obtain ⟨_, -, _, -, _, -, _, -, _, -, _, -, _, hy, h⟩ := h
  have fits := registerYield_totalPrincipal hy hi
  split at h
  · cases h
    exact fits
  · simp only [bind_eq_ok, pure_eq_ok] at h
    obtain ⟨_, -, rfl⟩ := h
    exact fits

theorem payPlayer_totalPrincipal {amount : Nat} (h : payPlayer amount p owner w = .ok w') :
    w'.pool.totalPrincipal < u64Limit := by
  simp only [payPlayer, bind_eq_ok, addU64_eq_ok, pure_eq_ok] at h
  obtain ⟨_, -, _, -, _, -, _, -, _, -, _, ⟨fits, rfl⟩, rfl⟩ := h
  exact fits

theorem payout_totalPrincipal {id : Nat} (h : payout id owner w = .ok w')
    (hi : w.pool.totalPrincipal < u64Limit) : w'.pool.totalPrincipal < u64Limit := by
  simp only [payout, payWinner, bind_eq_ok, pure_eq_ok] at h
  obtain ⟨_, -, _, -, _, -, _, -, _, -, paid, hpaid, _, -, rfl⟩ := h
  split at hpaid
  · simp only [payHouse, bind_eq_ok, pure_eq_ok] at hpaid
    obtain ⟨_, -, _, -, rfl⟩ := hpaid
    exact hi
  · have fits := payPlayer_totalPrincipal hpaid
    exact fits

/-- Whatever a step adds to the pool's total Principal is checked. -/
theorem step_totalPrincipal (h : Step rt w a w') (hi : w.pool.totalPrincipal < u64Limit) :
    w'.pool.totalPrincipal < u64Limit := by
  cases step_effect h with
  | reconfigured _ hr => exact hr.totalPrincipal ▸ hi
  | deposited =>
      have ran : deposit _ _ _ w = .ok _ := h
      simp only [deposit, bind_eq_ok, addU64_eq_ok, pure_eq_ok] at ran
      obtain ⟨_, -, _, -, _, -, _, -, _, -, _, -, _, -, _, -, _, -, _, ⟨fits, rfl⟩, ran⟩ := ran
      rw [← ran]
      exact fits
  | withdrawRequested => exact Nat.lt_of_le_of_lt (Nat.sub_le _ _) hi
  | emergencyWithdrawn => exact Nat.lt_of_le_of_lt (Nat.sub_le _ _) hi
  | registeredNothing => exact register_totalPrincipal h hi
  | registered => exact register_totalPrincipal h hi
  | paidPlayer => exact payout_totalPrincipal h hi
  | _ => exact hi

theorem reachable_totalPrincipal (h : Reachable rt w) : w.pool.totalPrincipal < u64Limit := by
  refine h.invariant (P := fun w => w.pool.totalPrincipal < u64Limit) ?_ ?_
  · intro start created
    obtain ⟨params, accounts, now, -, -, h⟩ := created
    obtain ⟨-, es, rfl⟩ := createPool_eq_ok h
    exact Nat.two_pow_pos 64
  · intro _ _ _ _ hi hs
    exact step_totalPrincipal hs hi

theorem reachable_principal (h : Reachable rt w) (hp : w.players.lookup owner = some p) :
    p.principal < u64Limit := by
  have total := reachable_totalPrincipal h
  obtain ⟨history, run⟩ := h
  have within := ((run_ledger run).le hp).1
  omega

/-- No more principal-seconds than every second there has been counts at most. -/
def Player.SecondsFit (p : Player) : Prop := p.principalAcc ≤ u64Limit * p.lastUpdate.toNat

theorem touch_secondsFit {q : Player} {pool : Pool} {now : Int} (hp : p.SecondsFit)
    (principal : p.principal < u64Limit) (updated : 0 ≤ p.lastUpdate ∧ p.lastUpdate ≤ now)
    (start : 0 ≤ pool.currentEpochStart ∧ pool.currentEpochStart ≤ now)
    (h : touch p pool now = .ok q) : q.SecondsFit := by
  rw [Player.SecondsFit] at hp ⊢
  cases touch_cases h with
  | inl same =>
      obtain ⟨-, acc⟩ := accrue_eq_ok.mp same.principalSeconds
      have stops : accrueUntil pool now ≤ now := accrueUntil_le
      have held := accrued_le principal updated.1 updated.2 stops
      rw [same.lastUpdate, acc]
      omega
  | inr new =>
      obtain ⟨-, acc⟩ := weightOf_eq_ok.mp new.weight
      have head := accrued_le principal start.1 start.2
        (Int.min_le_left now pool.currentEpochEndsAt)
      rw [new.principalSeconds, new.lastUpdate, acc]
      omega

theorem calendar_started (calendar : w.Calendar) :
    0 ≤ w.pool.currentEpochStart ∧ w.pool.currentEpochStart ≤ w.clock := by
  have clock := calendar.clockRange
  by_cases positive : 1 ≤ w.pool.currentEpochId
  · have order := calendar.currentOrder positive
    exact ⟨order.1, order.2.2.1⟩
  · have none := (calendar.noCurrent (by omega)).1
    rw [none]
    exact ⟨Int.le_refl 0, clock.1⟩

theorem reachable_secondsFit (h : Reachable rt w) (hp : w.players.lookup owner = some p) :
    p.SecondsFit := by
  refine reachable_player (P := Player.SecondsFit) ?_ ?_ ?_ ?_ h hp
  · intro operator now
    exact Nat.zero_le _
  · intro p r same hp
    rw [Player.SecondsFit, same.principalAcc, same.lastUpdate]
    exact hp
  · intro w owner p q r preCredit before hold ht hm hp
    rw [Player.SecondsFit, hm.principalAcc, hm.lastUpdate]
    exact touch_secondsFit hp (reachable_principal before hold)
      ((reachable_accounts before).updated hold) (calendar_started (reachable_calendar before)) ht
  · intro w owner q r before ht hm
    rw [Player.SecondsFit, hm.principalAcc, hm.lastUpdate]
    have calendar := reachable_calendar before
    rw [initIfFresh_zeroed] at ht
    exact touch_secondsFit (Nat.zero_le _) (Nat.two_pow_pos 64)
      ⟨calendar.clockRange.1, Int.le_refl _⟩ (calendar_started calendar) ht

/-- What a Player is owed in principal-seconds never outgrows its type. -/
theorem reachable_seconds_fit (h : Reachable rt w) (hp : w.players.lookup owner = some p)
    {stop : Int} (hstop : stop < i64Limit) :
    p.principalAcc + p.principal * elapsed p.lastUpdate stop < u128Limit := by
  have seconds := reachable_secondsFit h hp
  have updated := (reachable_accounts h).updated hp
  have clock := (reachable_calendar h).clockRange
  have held := accrued_le (reachable_principal h hp) updated.1
    (Int.le_max_left p.lastUpdate stop) (Int.le_max_right p.lastUpdate stop)
  have time : u64Limit * (max p.lastUpdate stop).toNat ≤ u64Limit * (2 ^ 63) := by
    refine Nat.mul_le_mul_left _ ?_
    have limit : i64Limit = 2 ^ 63 := rfl
    omega
  rw [Player.SecondsFit] at seconds
  calc p.principalAcc + p.principal * elapsed p.lastUpdate stop
      ≤ u64Limit * p.lastUpdate.toNat + p.principal * elapsed p.lastUpdate stop :=
        Nat.add_le_add_right seconds _
    _ ≤ u64Limit * (max p.lastUpdate stop).toNat := held
    _ ≤ u64Limit * 2 ^ 63 := time
    _ < u128Limit := by decide

end Players

end HexVault
