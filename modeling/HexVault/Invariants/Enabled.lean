import HexVault.Invariants.Gates
import HexVault.Invariants.Lifetime
import HexVault.Invariants.Live
import HexVault.Invariants.Reservation
import HexVault.Invariants.Rollover

/-!
When each step of the cycle goes through, on a state the pool can be in: what its
guards come down to once the invariants have answered the rest of them.
-/

namespace HexVault

open Fallible

/-- What a settled round credits the House. -/
def houseCredit (pool : Pool) (round : Round) (tile : Fin TILE_COUNT) : Nat :=
  if round.tileTotals tile = 0 then round.pot
  else round.pot * pool.houseCutBps / BPS_DENOMINATOR

/-- The House has room for it, where it is credited at all. -/
def HouseRoom (w : World) (round : Round) (tile : Fin TILE_COUNT) : Prop :=
  round.epochId = w.pool.currentEpochId →
  (round.tileTotals tile = 0 ∨ 0 < houseCredit w.pool round tile) →
  ∀ house, w.players.lookup w.pool.house = some house →
    ∃ q, touch house w.pool w.clock = .ok q ∧
      q.entries + houseCredit w.pool round tile < u64Limit

/-- The grid the epochs keep to has its points around now within their type. -/
def GridFits (w : World) : Prop :=
  -i64Limit ≤ (w.clock - w.pool.epochAnchor) / w.pool.epochSeconds * w.pool.epochSeconds ∧
    gridPoint w.pool.epochAnchor w.pool.epochSeconds w.clock + w.pool.epochSeconds < i64Limit

instance (w : World) : Decidable (GridFits w) := inferInstanceAs (Decidable (_ ∧ _))

section Rounds
variable {rt : Runtime} {w : World} {id : Nat} {round : Round} {account : AccountInfo}

theorem carryPotAfter_returns (reachable : Reachable rt w)
    (hr : w.rounds.lookup id = some round) (live : ¬ isFinished round.status) :
    Returns (carryPotAfter w.pool round) := by
  have inPlay := reachable_live reachable
  have named := inPlay.only hr live
  have spent := (inPlay.running (by rw [named]; exact Nat.ne_of_gt (inPlay.keyed hr).2)).1
  unfold carryPotAfter
  split
  · refine ⟨_, addU64_eq_ok.mpr ⟨?_, rfl⟩⟩
    rw [spent, Nat.zero_add]
    exact (inPlay.fits hr).1
  · exact .pure _

/-- A round nobody requested randomness for is voided once it timed out. -/
theorem voidRound_open (reachable : Reachable rt w) (hr : w.rounds.lookup id = some round)
    (hs : round.status = .open) (late : round.endsAt + w.pool.vrfTimeout < w.clock) :
    Returns (voidRound rt id account w) := by
  have live : ¬ isFinished round.status := by
    rw [hs]
    decide
  have typed := ((reachable_live reachable).fits hr).2
  have timeout : 0 ≤ w.pool.vrfTimeout :=
    Int.le_trans (by decide) (reachable_inRange reachable).vrfTimeout
  have clock := (reachable_calendar reachable).clockRange.2
  have deadline : addI64 round.endsAt w.pool.vrfTimeout =
      .ok (round.endsAt + w.pool.vrfTimeout) := by
    have low := typed.1
    exact addI64_eq_ok.mpr ⟨⟨by omega, by omega⟩, rfl⟩
  refine voidRound_returns.mpr ⟨round, hr, ⟨(), ?_⟩, carryPotAfter_returns reachable hr live⟩
  simp only [checkVoidable, hs, bind_eq_ok, deadline, Except.ok.injEq, exists_eq_left', ensure_eq_ok]
  exact late

theorem voidRound_requested (reachable : Reachable rt w)
    (hr : w.rounds.lookup id = some round) (hs : round.status = .requested)
    (late : round.requestedAt + w.pool.vrfTimeout < w.clock)
    (bound : account.key = randomnessAddress rt round.vrfSeed) :
    Returns (voidRound rt id account w) ↔
      ∃ e, parseFulfilled rt account.data = .error e ∧ e ≠ .abort := by
  have live : ¬ isFinished round.status := by
    rw [hs]
    decide
  rw [← voidGate_iff reachable hr hs late bound, voidRound_returns]
  constructor
  · intro accepted
    obtain ⟨x, hx, ⟨_, check⟩, -⟩ := accepted
    obtain rfl := Option.some.inj (hr.symm.trans hx)
    exact check
  · intro check
    exact ⟨round, hr, ⟨(), check⟩, carryPotAfter_returns reachable hr live⟩

theorem requestRoundRandomness_open (reachable : Reachable rt w)
    (hr : w.rounds.lookup id = some round) (hs : round.status = .open)
    (closing : round.endsAt - w.pool.closeBuffer ≤ w.clock) (nonce : Bytes) :
    Returns (requestRoundRandomness rt id
        (randomnessAddress rt (vrfSeed rt ROUND_DOMAIN w.key id nonce)) nonce w) ↔
      -i64Limit ≤ round.endsAt - w.pool.closeBuffer := by
  have hid := ((reachable_live reachable).keyed hr).1
  have clock := (reachable_calendar reachable).clockRange.2
  rw [requestRoundRandomness_returns]
  constructor
  · intro accepted
    obtain ⟨x, hx, -, _, fits, -⟩ := accepted
    obtain rfl := Option.some.inj (hr.symm.trans hx)
    exact (subI64_eq_ok.mp fits).1.1
  · intro low
    refine ⟨round, hr, hs, _, subI64_eq_ok.mpr ⟨⟨low, by omega⟩, rfl⟩, closing, ?_⟩
    rw [hid]

theorem houseCutOf_returns {forfeited : Bool} {pot bps : Nat} (hp : pot < u64Limit)
    (hb : bps ≤ BPS_DENOMINATOR) :
    houseCutOf forfeited pot bps = .ok (if forfeited then 0 else pot * bps / BPS_DENOMINATOR) := by
  unfold houseCutOf
  cases forfeited with
  | true => rfl
  | false =>
      have scaled : pot * bps ≤ pot * BPS_DENOMINATOR := Nat.mul_le_mul_left _ hb
      have small : pot * BPS_DENOMINATOR < u128Limit :=
        Nat.lt_trans (Nat.mul_lt_mul_of_pos_right hp (by decide)) (by decide)
      simp only [Bool.false_eq_true, if_false]
      exact bind_eq_ok.mpr ⟨_, mulU128_eq_ok.mpr ⟨Nat.lt_of_le_of_lt scaled small, rfl⟩,
        narrowU64_eq_ok.mpr ⟨Nat.lt_of_le_of_lt (cut_le hb) hp, rfl⟩⟩

theorem creditHouse_returns {current forfeited : Bool} {credit : Nat} {house : Player} :
    Returns (creditHouse w current forfeited credit house) ↔
      (current = true → (forfeited = true ∨ 0 < credit) →
        ∃ q, touch house w.pool w.clock = .ok q ∧ q.entries + credit < u64Limit) := by
  unfold creditHouse
  rw [returns_ite]
  simp only [returns_bind, returns_pure, returns_ok, addU64_eq_ok, and_imp, implies_true,
    and_true, exists_eq_right]

theorem settleRound_requested (reachable : Reachable rt w)
    (hr : w.rounds.lookup id = some round) (hs : round.status = .requested) :
    Returns (settleRound rt id account w) ↔
      ∃ bytes, readFulfilled rt account round.vrfSeed = .ok bytes ∧
      ∃ tile : Fin TILE_COUNT, unbiasedU64 rt bytes TILE_COUNT = .ok tile ∧
        HouseRoom w round tile := by
  obtain ⟨house, hhouse, -⟩ := reachable_house reachable
  have hpot := ((reachable_live reachable).fits hr).1
  have hbps := (reachable_inRange reachable).houseCutBps
  have room : ∀ tile : Fin TILE_COUNT, HouseRoom w round tile ↔
      Returns (creditHouse w (decide (round.epochId = w.pool.currentEpochId))
        (decide (round.tileTotals tile = 0)) (houseCredit w.pool round tile) house) := by
    intro tile
    rw [creditHouse_returns]
    simp only [HouseRoom, decide_eq_true_eq, hhouse, Option.some.injEq, forall_eq']
  have total : ∀ tile : Fin TILE_COUNT,
      round.tileTotal tile = .ok (round.tileTotals tile) := fun tile => dif_pos tile.isLt
  have credit : ∀ tile, (if decide (round.tileTotals tile = 0) = true then round.pot
      else if decide (round.tileTotals tile = 0) = true then 0
      else round.pot * w.pool.houseCutBps / BPS_DENOMINATOR) =
      houseCredit w.pool round tile := by
    intro tile
    unfold houseCredit
    by_cases empty : round.tileTotals tile = 0
    · simp only [empty, decide_true, if_true]
    · simp only [empty, decide_false, Bool.false_eq_true, if_false]
  rw [settleRound_returns]
  constructor
  · intro accepted
    obtain ⟨x, hx, y, hy, -, bytes, hread, n, hn, t, ht, cut, hcut, credited⟩ := accepted
    obtain rfl := Option.some.inj (hr.symm.trans hx)
    obtain rfl := Option.some.inj (hhouse.symm.trans hy)
    refine ⟨bytes, hread, ⟨n, unbiased_lt hn⟩, hn, (room _).mpr ?_⟩
    rw [total ⟨n, unbiased_lt hn⟩, Except.ok.injEq] at ht
    subst ht
    rw [houseCutOf_returns hpot hbps, Except.ok.injEq] at hcut
    subst hcut
    rwa [credit] at credited
  · intro accepted
    obtain ⟨bytes, hread, tile, htile, takes⟩ := accepted
    refine ⟨round, hr, house, hhouse, hs, bytes, hread, tile, htile, _, total tile, _,
      houseCutOf_returns hpot hbps, ?_⟩
    rw [credit]
    exact (room tile).mp takes

theorem createRound_now (reachable : Reachable rt w) {signer : Signer} {epoch : Epoch}
    (current : 1 ≤ w.pool.currentEpochId)
    (he : w.epochs.lookup w.pool.currentEpochId = some epoch) (free : w.pool.openRoundId = 0)
    (running : w.pool.paused = false) (playing : w.pool.gamePaused = false)
    (fits : w.clock + w.pool.roundSeconds ≤ epoch.endsAt) :
    (∃ w', Step rt w (.createRound signer w.clock (w.clock + w.pool.roundSeconds)) w') ↔
      signer.key = w.pool.operator ∧ w.pool.nextRoundId + 1 < u64Limit := by
  have calendar := reachable_calendar reachable
  have positive := (reachable_inRange reachable).roundSeconds
  have absent := nextRound_free reachable
  have open_ : w.pool.shutdown = false := by
    refine Bool.eq_false_iff.mpr fun shut => ?_
    have paused : w.pool.paused = true := (reachable_consistent reachable shut).1
    rw [running] at paused
    exact nomatch paused
  have clock := calendar.clockRange
  have ends : epoch.endsAt < i64Limit := by
    obtain ⟨x, hx, -, hend⟩ := calendar.current current
    obtain rfl := Option.some.inj (hx.symm.trans he)
    rw [hend]
    exact (calendar.currentOrder current).2.2.2
  constructor
  · intro accepted
    obtain ⟨w', h⟩ := accepted
    obtain ⟨signed, -, -, -, -, -, -, -, room⟩ :=
      createRound_returns.mp ⟨w', (createRound_step.mp h).2⟩
    exact ⟨signed, room⟩
  · intro due
    obtain ⟨signed, room⟩ := due
    have length : subI64 (w.clock + w.pool.roundSeconds) w.clock = .ok w.pool.roundSeconds := by
      refine subI64_eq_ok.mpr ⟨⟨?_, ?_⟩, ?_⟩
      all_goals omega
    have within : Returns (checkRoundEnd w (w.clock + w.pool.roundSeconds)) :=
      checkRoundEnd_returns.mpr (.inr ⟨epoch, he, fits⟩)
    obtain ⟨w', h⟩ := createRound_returns.mpr
      ⟨signed, absent, open_, running, playing, free, length, within, room⟩
    refine ⟨w', createRound_step.mpr ⟨⟨⟨?_, ?_⟩, ?_, ?_⟩, h⟩⟩
    all_goals omega

end Rounds

section Epochs
variable {rt : Runtime} {w : World} {id : Nat} {epoch : Epoch} {account : AccountInfo}
  {signer : Signer}

theorem closeRegistration_due (reachable : Reachable rt w)
    (he : w.epochs.lookup id = some epoch) (running : w.pool.shutdown = false)
    (started : w.pool.jackpotPaused = false) (registering : epoch.status = .registering)
    (passed : windowEnd w.pool epoch ≤ w.clock) (nonce : Bytes) :
    Returns (closeRegistration rt signer id
        (randomnessAddress rt (vrfSeed rt EPOCH_DOMAIN w.key id nonce)) nonce w) ↔
      signer.key = w.pool.operator := by
  have hid := ((reachable_calendar reachable).keyed he).1
  have due : Due w id epoch w.clock := ⟨running, started, he, registering, passed⟩
  have clock := (reachable_calendar reachable).clockRange.2
  obtain ⟨-, -, x, closesAt, hx, -, known, past⟩ :=
    due.accepts reachable clock (Int.le_refl _)
  obtain rfl := Option.some.inj (he.symm.trans hx)
  have vault := reachable_jackpotVault reachable
  have covered := (reachable_reservation reachable).covered
  rw [closeRegistration_returns]
  constructor
  · intro accepted
    exact accepted.1
  · intro signed
    refine ⟨signed, epoch, he, running, started, registering, closesAt, known, past, ?_⟩
    intro _
    rw [hid]
    exact ⟨rfl, by omega⟩

theorem draw_drawing (he : w.epochs.lookup id = some epoch) (drawing : epoch.status = .drawing) :
    Returns (draw rt id account w) ↔
      ∃ bytes, readFulfilled rt account epoch.vrfSeed = .ok bytes ∧
        Returns (unbiasedU128 rt bytes epoch.registeredWeight) := by
  rw [draw_returns]
  constructor
  · intro accepted
    obtain ⟨x, hx, -, accepted⟩ := accepted
    obtain rfl := Option.some.inj (he.symm.trans hx)
    exact accepted
  · intro accepted
    exact ⟨epoch, he, drawing, accepted⟩

theorem rolloverEpoch_held (reachable : Reachable rt w)
    (he : w.epochs.lookup id = some epoch) (holds : epoch.holdsPrize) :
    Returns (rolloverEpoch rt id account w) ↔
      checkRollover rt w.pool epoch account w.clock = .ok () := by
  have promised := (reachable_reservation reachable).promised_le he holds
  rw [rolloverEpoch_returns]
  constructor
  · intro accepted
    obtain ⟨x, hx, ⟨_, check⟩, -⟩ := accepted
    obtain rfl := Option.some.inj (he.symm.trans hx)
    exact check
  · intro check
    exact ⟨epoch, he, ⟨(), check⟩, promised⟩

/-- An epoch whose draw timed out is rolled over, unless its request was fulfilled. -/
theorem rolloverEpoch_drawing (reachable : Reachable rt w)
    (he : w.epochs.lookup id = some epoch) (drawing : epoch.status = .drawing)
    (late : epoch.requestedAt + w.pool.vrfTimeout < w.clock)
    (bound : account.key = randomnessAddress rt epoch.vrfSeed) :
    Returns (rolloverEpoch rt id account w) ↔
      ∃ e, parseFulfilled rt account.data = .error e ∧ e ≠ .abort :=
  (rolloverEpoch_held reachable he (.inl drawing)).trans
    (rolloverGate_iff reachable he drawing late bound)

theorem rolloverEpoch_drawn (reachable : Reachable rt w)
    (he : w.epochs.lookup id = some epoch) (drawn : epoch.status = .drawn)
    (late : epoch.drawnAt + w.pool.payoutTimeout < w.clock) :
    Returns (rolloverEpoch rt id account w) := by
  have stamp := ((reachable_stamps reachable).epochs he).drawn
  have timeout : 0 ≤ w.pool.payoutTimeout :=
    Int.le_trans (by decide) (reachable_inRange reachable).payoutTimeout
  have clock := (reachable_calendar reachable).clockRange.2
  have deadline := stamp.deadline timeout clock late
  refine (rolloverEpoch_held reachable he (.inr drawn)).mpr ?_
  simp only [checkRollover, drawn, bind_eq_ok, deadline, Except.ok.injEq, exists_eq_left',
    ensure_eq_ok]
  exact late

/-- The next epoch starts in the grid period that is running now. -/
theorem endCurrent_floor (reachable : Reachable rt w) {next : Int × Finmap fun _ : Nat => Epoch}
    {floor : Int} (h : endCurrent w = .ok next) :
    gridFloor w.pool.epochAnchor w.pool.epochSeconds next.1 = .ok floor ↔
      -i64Limit ≤ (w.clock - w.pool.epochAnchor) / w.pool.epochSeconds * w.pool.epochSeconds ∧
        floor = gridPoint w.pool.epochAnchor w.pool.epochSeconds w.clock := by
  obtain ⟨startsAt, epochs⟩ := next
  have range := reachable_inRange reachable
  have positive := range.epochSeconds
  have clock := (reachable_calendar reachable).clockRange.2
  cases endCurrent_cases h with
  | inl first =>
      obtain ⟨-, rfl, -⟩ := first
      exact gridFloor_iff positive range.epochAnchor clock
  | inr later =>
      obtain ⟨-, previous, f, -, past, hf, rfl, -⟩ := later
      obtain ⟨-, rfl⟩ := (gridFloor_iff positive range.epochAnchor clock).mp hf
      have started : max previous.endsAt
          (gridPoint w.pool.epochAnchor w.pool.epochSeconds w.clock) ≤ w.clock :=
        max_le past (gridPoint_le positive)
      have same := gridPoint_offset positive (le_max_right previous.endsAt _) started
      have point := gridPoint_congr positive (le_max_right previous.endsAt _) started
      rw [gridFloor_iff positive range.epochAnchor (Int.lt_of_le_of_lt started clock), same, point]

theorem endCurrent_returns (reachable : Reachable rt w)
    (ended : ∀ current, w.epochs.lookup w.pool.currentEpochId = some current →
      current.endsAt ≤ w.clock)
    (low : -i64Limit ≤
      (w.clock - w.pool.epochAnchor) / w.pool.epochSeconds * w.pool.epochSeconds) :
    Returns (endCurrent w) := by
  have range := reachable_inRange reachable
  have calendar := reachable_calendar reachable
  unfold endCurrent
  split
  · exact .pure _
  · rename_i later
    obtain ⟨current, hcurrent, -⟩ := calendar.current (Nat.one_le_iff_ne_zero.mpr later)
    refine .bind (World.epoch_eq_ok.mpr hcurrent) (.guard (ended current hcurrent) ?_)
    exact .bind ((gridFloor_iff range.epochSeconds range.epochAnchor calendar.clockRange.2).mpr
      ⟨low, rfl⟩) (.pure _)

/-- With the current epoch over and the one before it done with its draw, only
the signature and the width of the numbers are left to `begin_epoch`. -/
theorem beginEpoch_due (reachable : Reachable rt w) (running : w.pool.shutdown = false)
    (started : w.pool.jackpotPaused = false)
    (ended : ∀ current, w.epochs.lookup w.pool.currentEpochId = some current →
      current.endsAt ≤ w.clock)
    (done : ∀ previous, w.epochs.lookup (w.pool.currentEpochId - 1) = some previous →
      2 ≤ w.pool.currentEpochId → ¬ previous.holdsPrize) :
    Returns (beginEpoch signer w) ↔ signer.key = w.pool.operator ∧ GridFits w ∧
      w.pool.currentEpochId + 1 < u64Limit := by
  have calendar := reachable_calendar reachable
  have range := reachable_inRange reachable
  have fresh : w.epochs.lookup (w.pool.currentEpochId + 1) = none := by
    cases he : w.epochs.lookup (w.pool.currentEpochId + 1) with
    | none => rfl
    | some e => exact absurd (calendar.keyed he).2.2 (Nat.not_succ_le_self _)
  have behind : Returns (checkTwoBehind w) := by
    unfold checkTwoBehind
    split
    · rename_i two
      obtain ⟨previous, hprevious, -⟩ := calendar.previous two
      exact .bind (World.epoch_eq_ok.mpr hprevious)
        (returns_ensure.mpr (done previous hprevious two))
    · exact .pure _
  rw [beginEpoch_returns]
  constructor
  · intro accepted
    obtain ⟨signed, -, -, -, -, next, hnext, floor, hfloor, ⟨_, hends⟩, room⟩ := accepted
    obtain ⟨low, rfl⟩ := (endCurrent_floor reachable hnext).mp hfloor
    exact ⟨signed, ⟨low, (addI64_eq_ok.mp hends).1.2⟩, room⟩
  · intro due
    obtain ⟨signed, ⟨low, high⟩, room⟩ := due
    obtain ⟨next, hnext⟩ := endCurrent_returns reachable ended low
    have hfloor := (endCurrent_floor reachable hnext).mpr ⟨low, rfl⟩
    have anchor := range.epochAnchor
    have positive := range.epochSeconds
    have ends : Returns (addI64 (gridPoint w.pool.epochAnchor w.pool.epochSeconds w.clock)
        w.pool.epochSeconds) := by
      refine ⟨_, addI64_eq_ok.mpr ⟨⟨?_, high⟩, rfl⟩⟩
      unfold gridPoint
      omega
    exact ⟨signed, fresh, running, started, behind, next, hnext, _, hfloor, ends, room⟩

end Epochs

end HexVault
