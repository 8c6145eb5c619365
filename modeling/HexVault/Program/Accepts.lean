import HexVault.Program.Instructions

/-!
When an instruction goes through: the guards of each handler of the round and
epoch cycle, read off as one condition on the state it runs on.
-/

namespace HexVault

open Fallible

section Accepts
variable {rt : Runtime} {w : World} {id : Nat} {owner : Pubkey} {randomness : AccountInfo}

theorem returns_ensure {p : Prop} [Decidable p] {e : HexVaultError} :
    Returns (ensure p e) ↔ p := by
  simp only [Returns, ensure_eq_ok, exists_const]

theorem checkRoundEnd_returns {endsAt : Int} :
    Returns (checkRoundEnd w endsAt) ↔ w.pool.currentEpochId = 0 ∨
      ∃ epoch, w.epochs.lookup w.pool.currentEpochId = some epoch ∧ endsAt ≤ epoch.endsAt := by
  unfold checkRoundEnd
  split
  · simp [*, returns_ok]
  · simp [*, returns_bind, World.epoch_eq_ok, returns_ensure]

theorem createRound_returns {operator : Signer} {startsAt endsAt : Int} :
    Returns (createRound operator startsAt endsAt w) ↔
      operator.key = w.pool.operator ∧ w.rounds.lookup w.pool.nextRoundId = none ∧
      w.pool.shutdown = false ∧ w.pool.paused = false ∧ w.pool.gamePaused = false ∧
      w.pool.openRoundId = 0 ∧ subI64 endsAt startsAt = .ok w.pool.roundSeconds ∧
      Returns (checkRoundEnd w endsAt) ∧ w.pool.nextRoundId + 1 < u64Limit := by
  simp only [createRound, returns_bind, returns_pure, constraint_eq_ok, ensure_eq_ok,
    addU64_eq_ok, exists_const, and_true, exists_eq_right, exists_and_right]
  exact Iff.rfl

/-- A stake goes onto each of its tiles where every tile has room for it. -/
theorem addStakes_returns {tiles : BitVec 64} {stake : Nat} {order : List (Fin TILE_COUNT)}
    (distinct : order.Nodup) {round : Round}
    (room : ∀ tile ∈ order, round.tileTotals tile + stake < u64Limit) :
    Returns (addStakes tiles stake order round) := by
  induction order generalizing round with
  | nil => exact ⟨round, rfl⟩
  | cons tile rest ih =>
      obtain ⟨fresh, distinct⟩ := List.nodup_cons.mp distinct
      simp only [addStakes]
      split
      · have fits := room tile (List.mem_cons_self ..)
        refine .bind (bind_eq_ok.mpr ⟨_, addU64_eq_ok.mpr ⟨fits, rfl⟩, rfl⟩) (ih distinct ?_)
        intro other h
        have hne : other ≠ tile := fun same => fresh (same ▸ h)
        show Function.update round.tileTotals tile _ other + stake < u64Limit
        rw [Function.update_of_ne hne]
        exact room other (List.mem_cons_of_mem _ h)
      · exact ih distinct fun other h => room other (List.mem_cons_of_mem _ h)

theorem requestRoundRandomness_returns {address : Pubkey} {nonce : Bytes} :
    Returns (requestRoundRandomness rt id address nonce w) ↔
      ∃ round, w.rounds.lookup id = some round ∧ round.status = .open ∧
      ∃ closeAt, subI64 round.endsAt w.pool.closeBuffer = .ok closeAt ∧ closeAt ≤ w.clock ∧
        address = randomnessAddress rt (vrfSeed rt ROUND_DOMAIN w.key round.roundId nonce) := by
  simp only [requestRoundRandomness, returns_bind, returns_pure, World.round_eq_ok, ensure_eq_ok,
    exists_const, and_true]

theorem settleRound_returns :
    Returns (settleRound rt id randomness w) ↔
      ∃ round, w.rounds.lookup id = some round ∧
      ∃ house, w.players.lookup w.pool.house = some house ∧ round.status = .requested ∧
      ∃ bytes, readFulfilled rt randomness round.vrfSeed = .ok bytes ∧
      ∃ tile, unbiasedU64 rt bytes TILE_COUNT = .ok tile ∧
      ∃ total, round.tileTotal tile = .ok total ∧
      ∃ cut, houseCutOf (decide (total = 0)) round.pot w.pool.houseCutBps = .ok cut ∧
        Returns (creditHouse w (decide (round.epochId = w.pool.currentEpochId))
          (decide (total = 0)) (if decide (total = 0) then round.pot else cut) house) := by
  simp only [settleRound, returns_bind, returns_pure, World.round_eq_ok, World.player_eq_ok,
    ensure_eq_ok, exists_const, and_true]
  exact Iff.rfl

theorem settlePosition_returns :
    Returns (settlePosition id owner w) ↔
      ∃ round, w.rounds.lookup id = some round ∧
      ∃ account, w.players.lookup owner = some account ∧
      ∃ position, w.positions.lookup (id, owner) = some position ∧
      ∃ player, touch account w.pool w.clock = .ok player ∧ isFinished round.status ∧
      ∃ reward, positionReward w.pool round position = .ok reward ∧
        Returns (addReward player.entries reward) ∧ 1 ≤ round.openPositions := by
  simp only [settlePosition, returns_bind, returns_pure, World.round_eq_ok, World.player_eq_ok,
    World.position_eq_ok, ensure_eq_ok, subU_eq_ok, exists_const, and_true,
    exists_eq_right, exists_and_right]
  exact Iff.rfl

theorem voidRound_returns :
    Returns (voidRound rt id randomness w) ↔
      ∃ round, w.rounds.lookup id = some round ∧
        Returns (checkVoidable rt w.pool round randomness w.clock) ∧
        Returns (carryPotAfter w.pool round) := by
  simp only [voidRound, returns_bind, returns_pure, World.round_eq_ok, and_true,
    exists_and_right]
  exact Iff.rfl

theorem closeRound_returns :
    Returns (closeRound owner id w) ↔ owner = w.pool.operator ∧
      ∃ round, w.rounds.lookup id = some round ∧ isFinished round.status ∧
        round.openPositions = 0 := by
  simp only [closeRound, returns_bind, returns_pure, World.round_eq_ok, constraint_eq_ok,
    ensure_eq_ok, exists_const, and_true]

theorem beginEpoch_returns {operator : Signer} :
    Returns (beginEpoch operator w) ↔
      operator.key = w.pool.operator ∧ w.epochs.lookup (w.pool.currentEpochId + 1) = none ∧
      w.pool.shutdown = false ∧ w.pool.jackpotPaused = false ∧ Returns (checkTwoBehind w) ∧
      ∃ next, endCurrent w = .ok next ∧
      ∃ floor, gridFloor w.pool.epochAnchor w.pool.epochSeconds next.1 = .ok floor ∧
        Returns (addI64 floor w.pool.epochSeconds) ∧ w.pool.currentEpochId + 1 < u64Limit := by
  simp only [beginEpoch, returns_bind, returns_pure, constraint_eq_ok, ensure_eq_ok,
    addU64_eq_ok, exists_const, and_true, exists_eq_right, exists_and_right]
  exact Iff.rfl

theorem closeRegistration_returns {operator : Signer} {address : Pubkey} {nonce : Bytes} :
    Returns (closeRegistration rt operator id address nonce w) ↔
      operator.key = w.pool.operator ∧
      ∃ epoch, w.epochs.lookup id = some epoch ∧ w.pool.shutdown = false ∧
        w.pool.jackpotPaused = false ∧ epoch.status = .registering ∧
      ∃ closesAt, registrationClosesAt w.pool epoch = .ok closesAt ∧ closesAt ≤ w.clock ∧
        (¬(epoch.registeredWeight = 0 ∨
            w.jackpotVault - w.pool.jackpotReserved < w.pool.minJackpot) →
          address = randomnessAddress rt (vrfSeed rt EPOCH_DOMAIN w.key epoch.epochId nonce) ∧
          w.pool.jackpotReserved + (w.jackpotVault - w.pool.jackpotReserved) < u64Limit) := by
  simp only [closeRegistration, returns_bind, World.epoch_eq_ok, constraint_eq_ok,
    ensure_eq_ok, addU64_eq_ok, returns_ite, returns_pure, exists_const, and_true, true_and,
    exists_eq_right, implies_true]

theorem draw_returns :
    Returns (draw rt id randomness w) ↔
      ∃ epoch, w.epochs.lookup id = some epoch ∧ epoch.status = .drawing ∧
      ∃ bytes, readFulfilled rt randomness epoch.vrfSeed = .ok bytes ∧
        Returns (unbiasedU128 rt bytes epoch.registeredWeight) := by
  simp only [draw, returns_bind, returns_pure, World.epoch_eq_ok, ensure_eq_ok, exists_const,
    and_true]
  exact Iff.rfl

theorem rolloverEpoch_returns :
    Returns (rolloverEpoch rt id randomness w) ↔
      ∃ epoch, w.epochs.lookup id = some epoch ∧
        Returns (checkRollover rt w.pool epoch randomness w.clock) ∧
        epoch.jackpotAmount ≤ w.pool.jackpotReserved := by
  simp only [rolloverEpoch, returns_bind, returns_pure, World.epoch_eq_ok, subU_eq_ok,
    and_true, exists_eq_right, exists_and_right]
  exact Iff.rfl

end Accepts

end HexVault
