import HexVault.Program.Effect
import Mathlib.Order.Fin.Basic

/-!
Each instruction has the effect its action names: one inversion lemma a handler,
and from them `step_effect`.
-/

namespace HexVault

open Fallible

section Instructions
variable {rt : Runtime} {w w' : World}

theorem deposit_effect {owner : Signer} {token : TokenAccount} {amount : Nat}
    (h : deposit owner token amount w = .ok w') : Effect rt w (.deposit owner token amount) w' := by
  simp only [deposit, bind_eq_ok, ensure_eq_ok, transferIn_eq_ok, addU64_eq_ok, pure_eq_ok,
    exists_const] at h
  obtain ⟨_, -, player, ht, hHouse, hOpen, -, -, _, ⟨-, hv, rfl⟩, _, ⟨-, rfl⟩, _, ⟨-, rfl⟩, _,
    ⟨-, rfl⟩, rfl⟩ := h
  exact .deposited ht hHouse hOpen hv

theorem requestWithdraw_effect {owner : Signer} {amount : Nat}
    (h : requestWithdraw owner amount w = .ok w') :
    Effect rt w (.requestWithdraw owner amount) w' := by
  simp only [requestWithdraw, bind_eq_ok, World.player_eq_ok, ensure_eq_ok, subU_eq_ok,
    addU64_eq_ok, pure_eq_ok, exists_const] at h
  obtain ⟨account, ha, player, ht, -, hp, _, ⟨-, rfl⟩, _, ⟨htot, rfl⟩, _, ⟨-, rfl⟩, _,
    ⟨-, rfl⟩, rfl⟩ := h
  exact .withdrawRequested ha ht hp htot

theorem processWithdraw_effect {owner : Pubkey} {token : TokenAccount}
    (h : processWithdraw owner token w = .ok w') :
    Effect rt w (.processWithdraw owner token) w' := by
  simp only [processWithdraw, bind_eq_ok, World.player_eq_ok, ensure_eq_ok, transferOut_eq_ok,
    subU_eq_ok, pure_eq_ok, exists_const] at h
  obtain ⟨player, ha, _, -, -, _, -, -, -, _, ⟨hv, rfl⟩, _, ⟨hp, rfl⟩, rfl⟩ := h
  exact .withdrawn ha hv hp

theorem adminWithdraw_effect {admin : Signer} {amount : Nat}
    (h : adminWithdraw admin amount w = .ok w') :
    Effect rt w (.adminWithdraw admin amount) w' := by
  simp only [adminWithdraw, bind_eq_ok, constraint_eq_ok, ensure_eq_ok, checkedSub_eq_ok,
    transferOut_eq_ok, pure_eq_ok, exists_const] at h
  obtain ⟨-, -, _, ⟨hv, rfl⟩, hp, _, ⟨-, rfl⟩, rfl⟩ := h
  exact .principalDeployed hv hp

theorem emergencyWithdraw_effect {owner : Pubkey} {token : TokenAccount}
    (h : emergencyWithdraw owner token w = .ok w') :
    Effect rt w (.emergencyWithdraw owner token) w' := by
  simp only [emergencyWithdraw, bind_eq_ok, World.player_eq_ok, ensure_eq_ok, addU64_eq_ok,
    subU_eq_ok, transferOut_eq_ok, pure_eq_ok, exists_const] at h
  obtain ⟨account, ha, _, -, player, ht, hs, hh, _, ⟨-, rfl⟩, -, hv, _, ⟨hp, rfl⟩, _,
    ⟨hw, rfl⟩, _, ⟨-, rfl⟩, rfl⟩ := h
  exact .emergencyWithdrawn ha ht hs hh hv hp hw

theorem sweepHouse_effect {admin : Signer} (h : sweepHouse admin w = .ok w') :
    Effect rt w (.sweepHouse admin) w' := by
  simp only [sweepHouse, bind_eq_ok, constraint_eq_ok, ensure_eq_ok, subU_eq_ok,
    transferOut_eq_ok, pure_eq_ok, exists_const] at h
  obtain ⟨-, hs, _, ⟨hy, rfl⟩, _, ⟨-, rfl⟩, _, ⟨hv, rfl⟩, rfl⟩ := h
  exact .houseSwept hs hy hv

theorem buyTickets_effect {owner : Signer} {token : TokenAccount} {amount : Nat}
    (h : buyTickets owner token amount w = .ok w') :
    Effect rt w (.buyTickets owner token amount) w' := by
  simp only [buyTickets, bind_eq_ok, World.player_eq_ok, ensure_eq_ok, transferIn_eq_ok,
    mulU64_eq_ok, addU64_eq_ok, pure_eq_ok, exists_const] at h
  obtain ⟨_, -, account, ha, player, ht, -, -, hc, -, -, hh, bought, -, _, ⟨-, hv, rfl⟩, _,
    ⟨-, rfl⟩, _, ⟨-, rfl⟩, rfl⟩ := h
  exact .ticketsBought ha ht hh hc hv ⟨rfl⟩

theorem operatorGrant_eq_ok {player : Player} {pool : Pool} {amount : Nat}
    {r : Player × Pool} (h : operatorGrant player pool amount = .ok r) :
    ∃ bonusEpoch playerBonus poolBonus,
      r = ({ player with bonusEpoch, bonusGranted := playerBonus },
        { pool with bonusEpoch, bonusGranted := poolBonus }) := by
  simp only [operatorGrant, bind_eq_ok, ensure_eq_ok, pure_eq_ok, exists_const] at h
  obtain ⟨-, playerBonus, -, _, -, poolBonus, -, rfl⟩ := h
  exact ⟨_, playerBonus, poolBonus, rfl⟩

theorem countGrant_eq_ok {byAdmin : Bool} {player : Player} {pool : Pool} {amount : Nat}
    {r : Player × Pool} (h : countGrant byAdmin player pool amount = .ok r) :
    ∃ boughtEpoch playerBonus poolEpoch poolBonus,
      r = ({ player with bonusEpoch := boughtEpoch, bonusGranted := playerBonus },
        { pool with bonusEpoch := poolEpoch, bonusGranted := poolBonus }) := by
  simp only [countGrant] at h
  split at h
  · cases h
    exact ⟨player.bonusEpoch, player.bonusGranted, pool.bonusEpoch, pool.bonusGranted, rfl⟩
  · obtain ⟨bonusEpoch, playerBonus, poolBonus, rfl⟩ := operatorGrant_eq_ok h
    exact ⟨bonusEpoch, playerBonus, bonusEpoch, poolBonus, rfl⟩

theorem grantTickets_effect {signer : Signer} {owner : Pubkey} {amount : Nat}
    (h : grantTickets signer owner amount w = .ok w') :
    Effect rt w (.grantTickets signer owner amount) w' := by
  simp only [grantTickets, bind_eq_ok, World.player_eq_ok, ensure_eq_ok, addU64_eq_ok,
    pure_eq_ok, exists_const] at h
  obtain ⟨account, ha, -, player, ht, -, -, -, -, counted, hc, _, ⟨-, rfl⟩, rfl⟩ := h
  obtain ⟨_, _, _, _, rfl⟩ := countGrant_eq_ok hc
  exact .ticketsGranted ha ht ⟨rfl⟩

theorem checkRoundEnd_eq_ok {endsAt : Int} {u : Unit} (h : checkRoundEnd w endsAt = .ok u) :
    w.pool.currentEpochId = 0 ∨
      ∃ epoch, w.epochs.lookup w.pool.currentEpochId = some epoch ∧ endsAt ≤ epoch.endsAt := by
  simp only [checkRoundEnd] at h
  split at h
  · rename_i h0
    exact .inl h0
  · simp only [bind_eq_ok, World.epoch_eq_ok, ensure_eq_ok] at h
    exact .inr h

theorem createRound_effect {operator : Signer} {startsAt endsAt : Int}
    (h : createRound operator startsAt endsAt w = .ok w') :
    Effect rt w (.createRound operator startsAt endsAt) w' := by
  simp only [createRound, bind_eq_ok, constraint_eq_ok, ensure_eq_ok, addU64_eq_ok, pure_eq_ok,
    exists_const] at h
  obtain ⟨-, hn, -, -, -, -, -, _, hend, _, ⟨-, rfl⟩, rfl⟩ := h
  exact .roundCreated hn (checkRoundEnd_eq_ok hend)

theorem addStakes_eq_ok {tiles : BitVec 64} {stake : Nat} {order : List (Fin TILE_COUNT)}
    (distinct : order.Nodup) {round round' : Round}
    (h : addStakes tiles stake order round = .ok round') :
    round' = { round with tileTotals := fun tile => round.tileTotals tile +
      if tile ∈ order ∧ tileIsCovered tiles tile then stake else 0 } := by
  induction order generalizing round with
  | nil =>
      cases h
      simp
  | cons tile rest ih =>
      obtain ⟨fresh, distinct⟩ := List.nodup_cons.mp distinct
      simp only [addStakes] at h
      split at h
      · rename_i covered
        simp only [bind_eq_ok, Round.addToTile, addU64_eq_ok, pure_eq_ok] at h
        obtain ⟨_, ⟨_, ⟨-, rfl⟩, rfl⟩, h⟩ := h
        rw [ih distinct h]
        congr 1
        funext other
        by_cases same : other = tile
        · subst same
          simp [fresh, covered]
        · simp [same]
      · rename_i uncovered
        rw [ih distinct h]
        congr 1
        funext other
        by_cases same : other = tile
        · subst same
          simp [fresh, uncovered]
        · simp [same]

theorem buyPosition_effect {owner : Signer} {roundId : Nat} {tiles : BitVec 64}
    {stakePerTile : Nat} (h : buyPosition owner roundId tiles stakePerTile w = .ok w') :
    Effect rt w (.buyPosition owner roundId tiles stakePerTile) w' := by
  simp only [buyPosition, preCredit, tileCount, bind_eq_ok, World.player_eq_ok,
    World.round_eq_ok, constraint_eq_ok, ensure_eq_ok, require_eq_ok, subI64_eq_ok,
    mulU64_eq_ok, mulU128_eq_ok, addU128_eq_ok, addU64_eq_ok, addU32_eq_ok, subU_eq_ok,
    pure_eq_ok, exists_const] at h
  obtain ⟨account, ha, round, hr, hpos, player, ht, -, -, -, hh, ho, _, ⟨-, rfl⟩, hclose, _,
    ⟨htiles, rfl⟩, hstake, _, ⟨-, rfl⟩, hafford, _, ⟨_, ⟨-, rfl⟩, hrem, _, ⟨-, rfl⟩, _,
    ⟨-, rfl⟩, rfl⟩, _, ⟨-, rfl⟩, round', hadd, _, ⟨-, rfl⟩, _, ⟨-, rfl⟩, rfl⟩ := h
  obtain rfl := addStakes_eq_ok (List.nodup_finRange _) hadd
  simp only [List.mem_finRange, true_and]
  exact .positionBought ha hr hpos ht hh ho hclose (by omega) hstake htiles.1 htiles.2 hafford

theorem requestRoundRandomness_effect {roundId : Nat} {randomness : Pubkey} {nonce : Bytes}
    (h : requestRoundRandomness rt roundId randomness nonce w = .ok w') :
    Effect rt w (.requestRoundRandomness roundId randomness nonce) w' := by
  simp only [requestRoundRandomness, bind_eq_ok, World.round_eq_ok, ensure_eq_ok,
    subI64_eq_ok, pure_eq_ok, exists_const] at h
  obtain ⟨round, hr, ho, _, ⟨-, rfl⟩, hclose, -, rfl⟩ := h
  exact .roundRequested hr ho hclose

theorem tileTotal_eq_ok {round : Round} {tile total : Nat}
    (h : round.tileTotal tile = .ok total) :
    ∃ t : Fin TILE_COUNT, t = tile ∧ total = round.tileTotals t := by
  simp only [Round.tileTotal] at h
  split at h
  · cases h
    exact ⟨⟨tile, ‹_›⟩, rfl, rfl⟩
  · exact nomatch h

theorem houseCutOf_eq_ok {forfeited : Bool} {pot bps cut : Nat}
    (h : houseCutOf forfeited pot bps = .ok cut) :
    cut = if forfeited then 0 else pot * bps / BPS_DENOMINATOR := by
  simp only [houseCutOf] at h
  split at h
  · cases h
    simp [*]
  · simp only [bind_eq_ok, mulU128_eq_ok, narrowU64_eq_ok] at h
    obtain ⟨_, ⟨-, rfl⟩, -, rfl⟩ := h
    simp [*]

theorem cut_le {pot bps : Nat} (h : bps ≤ BPS_DENOMINATOR) : pot * bps / BPS_DENOMINATOR ≤ pot := by
  refine Nat.div_le_of_le_mul ?_
  rw [Nat.mul_comm]
  exact Nat.mul_le_mul_right _ h

theorem creditHouse_eq_ok {current forfeited : Bool} {credit : Nat} {account house : Player}
    (h : creditHouse w current forfeited credit account = .ok house) :
    HouseShare w current forfeited credit account house := by
  simp only [creditHouse] at h
  split at h
  · rename_i hc
    simp only [bind_eq_ok, addU64_eq_ok, pure_eq_ok] at h
    obtain ⟨q, ht, _, ⟨-, rfl⟩, rfl⟩ := h
    exact .credited hc.1 hc.2 ht
  · rename_i hc
    cases h
    exact .evaporated hc

theorem settleRound_effect {roundId : Nat} {randomness : AccountInfo}
    (h : settleRound rt roundId randomness w = .ok w') :
    Effect rt w (.settleRound roundId randomness) w' := by
  simp only [settleRound, bind_eq_ok, World.player_eq_ok, World.round_eq_ok, ensure_eq_ok,
    pure_eq_ok, exists_const] at h
  obtain ⟨round, hr, account, ha, hs, _, -, _, -, _, htile, cut, hcut, house, hh, rfl⟩ := h
  obtain ⟨tile, rfl, rfl⟩ := tileTotal_eq_ok htile
  have hcut := houseCutOf_eq_ok hcut
  simp only [decide_eq_true_eq] at hcut hh ⊢
  exact .roundSettled hr ha hs hcut (creditHouse_eq_ok hh)

theorem addReward_eq_ok {entries reward total : Nat} (h : addReward entries reward = .ok total) :
    total = entries + reward := by
  simp only [addReward] at h
  split at h
  · exact (addU64_eq_ok.mp h).2
  · cases h
    omega

theorem settlePosition_effect {roundId : Nat} {owner : Pubkey}
    (h : settlePosition roundId owner w = .ok w') :
    Effect rt w (.settlePosition roundId owner) w' := by
  simp only [settlePosition, bind_eq_ok, World.player_eq_ok, World.round_eq_ok,
    World.position_eq_ok, ensure_eq_ok, subU_eq_ok, pure_eq_ok, exists_const] at h
  obtain ⟨round, hr, account, ha, position, hp, player, ht, hf, reward, hreward, _, hadd, _,
    ⟨hone, rfl⟩, rfl⟩ := h
  obtain rfl := addReward_eq_ok hadd
  exact .positionSettled hr ha hp ht hf hreward hone

theorem checkVoidable_eq_ok {pool : Pool} {round : Round} {randomness : AccountInfo} {now : Int}
    {u : Unit} (h : checkVoidable rt pool round randomness now = .ok u) :
    round.status = .requested ∨ round.status = .open := by
  unfold checkVoidable at h
  split at h
  · exact .inl ‹_›
  · exact .inr ‹_›
  · exact nomatch h

theorem carryPotAfter_eq_ok {pool : Pool} {round : Round} {carry : Nat}
    (h : carryPotAfter pool round = .ok carry) :
    carry = pool.carryPot + if round.epochId = pool.currentEpochId then round.pot else 0 := by
  simp only [carryPotAfter] at h
  split at h
  · rename_i current
    rw [if_pos current]
    exact (addU64_eq_ok.mp h).2
  · rename_i past
    cases h
    rw [if_neg past, Nat.add_zero]

theorem voidRound_effect {roundId : Nat} {randomness : AccountInfo}
    (h : voidRound rt roundId randomness w = .ok w') :
    Effect rt w (.voidRound roundId randomness) w' := by
  simp only [voidRound, bind_eq_ok, World.round_eq_ok, pure_eq_ok] at h
  obtain ⟨round, hr, _, hv, carry, hcarry, rfl⟩ := h
  obtain rfl := carryPotAfter_eq_ok hcarry
  exact .roundVoided hr (checkVoidable_eq_ok hv)

theorem closeRound_effect {operator : Pubkey} {roundId : Nat}
    (h : closeRound operator roundId w = .ok w') :
    Effect rt w (.closeRound operator roundId) w' := by
  simp only [closeRound, bind_eq_ok, constraint_eq_ok, World.round_eq_ok, ensure_eq_ok,
    pure_eq_ok, exists_const] at h
  obtain ⟨-, round, hr, hf, hopen, rfl⟩ := h
  exact .roundClosed hr hf hopen


theorem checkTwoBehind_eq_ok {u : Unit} (h : checkTwoBehind w = .ok u)
    (two : 2 ≤ w.pool.currentEpochId) :
    ∃ epoch, w.epochs.lookup (w.pool.currentEpochId - 1) = some epoch ∧
      epoch.status ≠ .drawing ∧ epoch.status ≠ .drawn := by
  simp only [checkTwoBehind, if_pos two, bind_eq_ok, World.epoch_eq_ok, ensure_eq_ok,
    not_or] at h
  exact h

theorem beginEpoch_effect {operator : Signer} (h : beginEpoch operator w = .ok w') :
    Effect rt w (.beginEpoch operator) w' := by
  simp only [beginEpoch, bind_eq_ok, constraint_eq_ok, ensure_eq_ok, addI64_eq_ok,
    addU64_eq_ok, pure_eq_ok, exists_const] at h
  obtain ⟨-, hnew, -, -, _, htwo, ⟨startsAt, epochs⟩, hend, floor, hfloor, _, ⟨hlt, rfl⟩, _,
    ⟨-, rfl⟩, rfl⟩ := h
  exact .epochBegan hnew (checkTwoBehind_eq_ok htwo) hend hfloor hlt.2 rfl

theorem creditYield_eq_ok {pool : Pool} {player : Player} {ps : Nat} {now : Int}
    {r : YieldCredit} (h : creditYield pool player ps now = .ok r) :
    ∃ q, ((r.credited = 0 ∧ q = player) ∨ touch player pool now = .ok q) ∧
      r.credited ≤ pool.yieldBudget ∧ r.pool = pool.creditYield r.credited ∧
      r.player = { q with
        principal := q.principal + r.credited, entries := q.entries + r.credited } := by
  simp only [creditYield, touchForCredit, bind_eq_ok, subU_eq_ok, addU64_eq_ok,
    pure_eq_ok] at h
  obtain ⟨desired, -, _, -, q, hq, _, ⟨-, rfl⟩, _, ⟨-, rfl⟩, _, ⟨-, rfl⟩, _, ⟨hb, rfl⟩, rfl⟩ := h
  refine ⟨q, ?_, hb, rfl, rfl⟩
  split at hq
  · exact .inr hq
  · rename_i hz
    cases hq
    exact .inl ⟨Nat.eq_zero_of_not_pos hz, rfl⟩

theorem registerYield_eq_ok {player player' : Player} {epochId ps : Nat} {pool' : Pool}
    {es : List Event}
    (h : registerYield w.pool player epochId ps w.clock = .ok (pool', player', es)) :
    ∃ credited q, YieldTouch w player credited q ∧ credited ≤ w.pool.yieldBudget ∧
      pool' = w.pool.creditYield credited ∧ player' = q.creditYield credited epochId ∧
      ((player.yieldEpoch = epochId ∧ credited = 0) ∨ (player.yieldEpoch ≠ epochId ∧
        ∃ r, creditYield w.pool player ps w.clock = .ok r ∧ credited = r.credited)) := by
  simp only [registerYield] at h
  split at h
  · rename_i fresh
    simp only [bind_eq_ok, pure_eq_ok] at h
    obtain ⟨credit, hc, heq⟩ := h
    cases heq
    obtain ⟨q, hq, hb, hpool, hplayer⟩ := creditYield_eq_ok hc
    refine ⟨credit.credited, q, hq, hb, hpool, ?_, .inr ⟨fresh, credit, hc, rfl⟩⟩
    rw [hplayer]
    rfl
  · rename_i done
    have paid := Decidable.not_not.mp done
    cases h
    refine ⟨0, player, .inl ⟨rfl, rfl⟩, Nat.zero_le _, rfl, ?_, .inl ⟨paid, rfl⟩⟩
    rw [← paid]
    rfl

theorem register_effect {epochId : Nat} {owner : Pubkey}
    (h : register epochId owner w = .ok w') : Effect rt w (.register epochId owner) w' := by
  simp only [register, bind_eq_ok, World.epoch_eq_ok, World.player_eq_ok, ensure_eq_ok,
    exists_const] at h
  obtain ⟨epoch, he, account, ha, hs, ⟨hcur, hprev⟩, hreg, ⟨weight, ps⟩, hw, ⟨pool, player, es⟩,
    hy, h⟩ := h
  obtain ⟨credited, q, hq, hb, rfl, rfl, -⟩ := registerYield_eq_ok hy
  simp only at h
  split at h
  · rename_i hz
    subst hz
    cases pure_eq_ok.mp h
    exact .registeredNothing he ha hs hcur hprev hreg hw hq hb
  · rename_i hz
    simp only [takeInterval, bind_eq_ok, addU128_eq_ok, addU32_eq_ok, pure_eq_ok] at h
    obtain ⟨_, ⟨_, ⟨-, rfl⟩, _, ⟨-, rfl⟩, rfl⟩, rfl⟩ := h
    exact .registered he ha hs hcur hprev hreg hw (Nat.pos_of_ne_zero hz) hq hb

theorem fundJackpot_effect {authority : Signer} {source : TokenAccount} {amount : Nat}
    (h : fundJackpot authority source amount w = .ok w') :
    Effect rt w (.fundJackpot authority source amount) w' := by
  simp only [fundJackpot, bind_eq_ok, transferIn_eq_ok, pure_eq_ok] at h
  obtain ⟨_, -, _, ⟨-, hv, rfl⟩, rfl⟩ := h
  exact .jackpotFunded hv

theorem fundYield_effect {authority : Signer} {source : TokenAccount} {amount : Nat}
    (h : fundYield authority source amount w = .ok w') :
    Effect rt w (.fundYield authority source amount) w' := by
  simp only [fundYield, bind_eq_ok, ensure_eq_ok, transferIn_eq_ok, addU64_eq_ok, pure_eq_ok,
    exists_const] at h
  obtain ⟨_, -, -, _, ⟨-, hv, rfl⟩, _, ⟨-, rfl⟩, rfl⟩ := h
  exact .yieldFunded hv

theorem closeRegistration_effect {operator : Signer} {epochId : Nat} {randomness : Pubkey}
    {nonce : Bytes} (h : closeRegistration rt operator epochId randomness nonce w = .ok w') :
    Effect rt w (.closeRegistration operator epochId randomness nonce) w' := by
  simp only [closeRegistration, bind_eq_ok, constraint_eq_ok, World.epoch_eq_ok, ensure_eq_ok,
    exists_const] at h
  obtain ⟨-, epoch, he, -, -, hs, _, -, -, h⟩ := h
  split at h
  · rename_i hskip
    cases pure_eq_ok.mp h
    exact .closedUndrawn he hs hskip
  · rename_i hdraw
    obtain ⟨hw, hj⟩ := not_or.mp hdraw
    simp only [bind_eq_ok, ensure_eq_ok, addU64_eq_ok, pure_eq_ok, exists_const] at h
    obtain ⟨-, _, ⟨-, rfl⟩, rfl⟩ := h
    exact .closedForDraw he hs hw (Nat.le_of_not_lt hj)

theorem draw_effect {epochId : Nat} {randomness : AccountInfo}
    (h : draw rt epochId randomness w = .ok w') : Effect rt w (.draw epochId randomness) w' := by
  simp only [draw, bind_eq_ok, World.epoch_eq_ok, ensure_eq_ok, pure_eq_ok, exists_const] at h
  obtain ⟨epoch, he, hs, _, -, target, ht, rfl⟩ := h
  exact .drawn he hs (unbiased_lt ht)

theorem payout_effect {epochId : Nat} {owner : Pubkey}
    (h : payout epochId owner w = .ok w') : Effect rt w (.payout epochId owner) w' := by
  simp only [payout, payWinner, bind_eq_ok, World.epoch_eq_ok, World.player_eq_ok, ensure_eq_ok,
    subU_eq_ok, pure_eq_ok, exists_const] at h
  obtain ⟨epoch, he, winner, hw, hs, hreg, ⟨hlo, hhi⟩, paid, hpaid, _, ⟨hres, rfl⟩, rfl⟩ := h
  split at hpaid
  · rename_i house
    simp only [payHouse, bind_eq_ok, transferOut_eq_ok, pure_eq_ok] at hpaid
    obtain ⟨_, ⟨h2, rfl⟩, _, ⟨h5, rfl⟩, rfl⟩ := hpaid
    exact .paidHouse he hw hs hreg hlo hhi house (by omega) hres
  · rename_i notHouse
    simp only [payPlayer, bind_eq_ok, transferOut_eq_ok, checkedAdd_eq_ok, addU64_eq_ok,
      pure_eq_ok] at hpaid
    obtain ⟨player, ht, _, ⟨hv, rfl⟩, _, ⟨-, rfl⟩, _, ⟨-, rfl⟩, _, ⟨-, rfl⟩, _, ⟨-, rfl⟩,
      rfl⟩ := hpaid
    exact .paidPlayer he hw hs hreg hlo hhi (Bool.eq_false_of_not_eq_true notHouse) ht hv hres

theorem checkRollover_eq_ok {pool : Pool} {epoch : Epoch} {randomness : AccountInfo} {now : Int}
    {u : Unit} (h : checkRollover rt pool epoch randomness now = .ok u) :
    epoch.status = .registering ∨ epoch.status = .drawing ∨ epoch.status = .drawn := by
  unfold checkRollover at h
  split at h
  · exact .inl ‹_›
  · exact .inr (.inl ‹_›)
  · exact .inr (.inr ‹_›)
  · exact nomatch h

theorem rolloverEpoch_effect {epochId : Nat} {randomness : AccountInfo}
    (h : rolloverEpoch rt epochId randomness w = .ok w') :
    Effect rt w (.rolloverEpoch epochId randomness) w' := by
  simp only [rolloverEpoch, bind_eq_ok, World.epoch_eq_ok, subU_eq_ok, pure_eq_ok] at h
  obtain ⟨epoch, he, _, hs, _, ⟨hres, rfl⟩, rfl⟩ := h
  exact .rolledOver he (checkRollover_eq_ok hs) hres


/-- Writing anything but the books: what is left to show is the ranges. -/
theorem reconfigured_of_eq {pool pool' : Pool}
    (h : pool = { pool' with
      admin := pool.admin, operator := pool.operator, pendingAdmin := pool.pendingAdmin
      treasury := pool.treasury, buybackReserve := pool.buybackReserve
      epochSeconds := pool.epochSeconds, epochAnchor := pool.epochAnchor
      roundSeconds := pool.roundSeconds, closeBuffer := pool.closeBuffer
      vrfTimeout := pool.vrfTimeout, minDeposit := pool.minDeposit
      houseCutBps := pool.houseCutBps, paused := pool.paused, minJackpot := pool.minJackpot
      registrationWindow := pool.registrationWindow, payoutTimeout := pool.payoutTimeout
      baseRateBps := pool.baseRateBps, ticketsPerUsdc := pool.ticketsPerUsdc
      bonusCapBps := pool.bonusCapBps, shutdown := pool.shutdown
      gamePaused := pool.gamePaused, jackpotPaused := pool.jackpotPaused })
    (inRange : pool.InRange → pool'.InRange) : Reconfigured pool pool' := by
  constructor
  all_goals first | exact inRange | (rw [h])

/-- A parameter ends as its argument, or as it was where there is none; a checked
argument is in range. -/
theorem setField_eq_ok {α : Type} {arg : Option α} {valid : Pool → α → Bool}
    {write : Pool → α → Pool} {pool pool' : Pool} (read : Pool → α)
    (same : write pool (read pool) = pool)
    (keeps : ∀ v, valid pool v = true → pool.InRange → (write pool v).InRange)
    (h : setField arg valid write pool = .ok pool') :
    pool' = write pool (arg.getD (read pool)) ∧ (pool.InRange → pool'.InRange) := by
  cases arg with
  | none =>
      cases h
      exact ⟨same.symm, id⟩
  | some v =>
      simp only [setField, bind_eq_ok, ensure_eq_ok, pure_eq_ok, exists_const] at h
      obtain ⟨hv, rfl⟩ := h
      exact ⟨rfl, keeps v hv⟩

/-- Every parameter as the arguments set it, and the constraints that join two of
them checked on the result. -/
theorem setParams_eq_ok {admin : Signer} {args : SetParamsArgs}
    (h : setParams admin args w = .ok w') : admin.key = w.pool.admin ∧
      (w.pool.InRange → (args.apply w.pool).InRange) ∧
      (0 ≤ (args.apply w.pool).registrationWindow ∧
        (args.apply w.pool).registrationWindow < (args.apply w.pool).epochSeconds) ∧
      (args.apply w.pool).payoutTimeout < (args.apply w.pool).epochSeconds ∧
      (args.apply w.pool).closeBuffer < (args.apply w.pool).roundSeconds ∧
      ∃ es, w' = { w with pool := args.apply w.pool }.emit es := by
  obtain ⟨_, hadmin, h⟩ := bind_eq_ok.mp h
  obtain ⟨p1, h1, h⟩ := bind_eq_ok.mp h
  obtain ⟨p2, h2, h⟩ := bind_eq_ok.mp h
  obtain ⟨p3, h3, h⟩ := bind_eq_ok.mp h
  obtain ⟨p4, h4, h⟩ := bind_eq_ok.mp h
  obtain ⟨p5, h5, h⟩ := bind_eq_ok.mp h
  obtain ⟨p6, h6, h⟩ := bind_eq_ok.mp h
  obtain ⟨p7, h7, h⟩ := bind_eq_ok.mp h
  obtain ⟨p8, h8, h⟩ := bind_eq_ok.mp h
  obtain ⟨p9, h9, h⟩ := bind_eq_ok.mp h
  obtain ⟨p10, h10, h⟩ := bind_eq_ok.mp h
  obtain ⟨p11, h11, h⟩ := bind_eq_ok.mp h
  obtain ⟨p12, h12, h⟩ := bind_eq_ok.mp h
  obtain ⟨p13, h13, h⟩ := bind_eq_ok.mp h
  obtain ⟨_, hwindow, h⟩ := bind_eq_ok.mp h
  obtain ⟨_, htimeout, h⟩ := bind_eq_ok.mp h
  obtain ⟨_, hbuffer, h⟩ := bind_eq_ok.mp h
  cases pure_eq_ok.mp h
  obtain ⟨rfl, r1⟩ := setField_eq_ok Pool.epochSeconds rfl
    (fun _ hv r => { r with epochSeconds := of_decide_eq_true hv }) h1
  obtain ⟨rfl, r2⟩ := setField_eq_ok Pool.epochAnchor rfl
    (fun _ hv r => { r with epochAnchor := of_decide_eq_true hv }) h2
  obtain ⟨rfl, r3⟩ := setField_eq_ok Pool.roundSeconds rfl
    (fun _ hv r => { r with roundSeconds := of_decide_eq_true hv }) h3
  obtain ⟨rfl, r4⟩ := setField_eq_ok Pool.closeBuffer rfl
    (fun _ hv r => { r with closeBuffer := (of_decide_eq_true hv).1 }) h4
  obtain ⟨rfl, r5⟩ := setField_eq_ok Pool.vrfTimeout rfl
    (fun _ hv r => { r with vrfTimeout := of_decide_eq_true hv }) h5
  obtain ⟨rfl, r6⟩ := setField_eq_ok Pool.minDeposit rfl
    (fun _ _ r => { r with }) h6
  obtain ⟨rfl, r7⟩ := setField_eq_ok Pool.houseCutBps rfl
    (fun _ hv r => { r with houseCutBps := of_decide_eq_true hv }) h7
  obtain ⟨rfl, r8⟩ := setField_eq_ok Pool.minJackpot rfl
    (fun _ _ r => { r with }) h8
  obtain ⟨rfl, r9⟩ := setField_eq_ok Pool.registrationWindow rfl
    (fun _ _ r => { r with }) h9
  obtain ⟨rfl, r10⟩ := setField_eq_ok Pool.payoutTimeout rfl
    (fun _ hv r => { r with payoutTimeout := of_decide_eq_true hv }) h10
  obtain ⟨rfl, r11⟩ := setField_eq_ok Pool.baseRateBps rfl
    (fun _ hv r => { r with baseRateBps := of_decide_eq_true hv }) h11
  obtain ⟨rfl, r12⟩ := setField_eq_ok Pool.ticketsPerUsdc rfl
    (fun _ hv r => { r with ticketsPerUsdc := of_decide_eq_true hv }) h12
  obtain ⟨rfl, r13⟩ := setField_eq_ok Pool.bonusCapBps rfl
    (fun _ hv r => { r with bonusCapBps := of_decide_eq_true hv }) h13
  have inRange := r13 ∘ r12 ∘ r11 ∘ r10 ∘ r9 ∘ r8 ∘ r7 ∘ r6 ∘ r5 ∘ r4 ∘ r3 ∘ r2 ∘ r1
  exact ⟨constraint_eq_ok.mp hadmin, inRange, ensure_eq_ok.mp hwindow,
    ensure_eq_ok.mp htimeout, ensure_eq_ok.mp hbuffer, _, rfl⟩

theorem setParams_effect {admin : Signer} {args : SetParamsArgs}
    (h : setParams admin args w = .ok w') : Effect rt w (.setParams admin args) w' := by
  obtain ⟨-, inRange, -, -, -, es, rfl⟩ := setParams_eq_ok h
  exact .reconfigured rfl (reconfigured_of_eq rfl inRange)

theorem setPause_effect {signer : Signer} {paused : Bool}
    (h : setPause signer paused w = .ok w') : Effect rt w (.setPause signer paused) w' := by
  simp only [setPause, bind_eq_ok, ensure_eq_ok, pure_eq_ok, exists_const] at h
  obtain ⟨-, -, rfl⟩ := h
  exact .reconfigured rfl (reconfigured_of_eq rfl fun r => { r with })

theorem setFeaturePause_effect {signer : Signer} {feature : PauseFeature} {paused : Bool}
    (h : setFeaturePause signer feature paused w = .ok w') :
    Effect rt w (.setFeaturePause signer feature paused) w' := by
  simp only [setFeaturePause, bind_eq_ok, ensure_eq_ok, pure_eq_ok, exists_const] at h
  obtain ⟨-, -, rfl⟩ := h
  cases feature with
  | game => exact .reconfigured rfl (reconfigured_of_eq rfl fun r => { r with })
  | jackpot => exact .reconfigured rfl (reconfigured_of_eq rfl fun r => { r with })

theorem shutdown_effect {admin : Signer} (h : shutdown admin w = .ok w') :
    Effect rt w (.shutdown admin) w' := by
  simp only [shutdown, bind_eq_ok, constraint_eq_ok, ensure_eq_ok, pure_eq_ok,
    exists_const] at h
  obtain ⟨-, -, rfl⟩ := h
  exact .reconfigured rfl (reconfigured_of_eq rfl fun r => { r with })

theorem setOperator_effect {admin : Signer} {newOperator : Pubkey}
    (h : setOperator admin newOperator w = .ok w') :
    Effect rt w (.setOperator admin newOperator) w' := by
  simp only [setOperator, bind_eq_ok, constraint_eq_ok, pure_eq_ok, exists_const] at h
  obtain ⟨-, rfl⟩ := h
  exact .reconfigured rfl (reconfigured_of_eq rfl fun r => { r with })

theorem proposeAdmin_effect {admin : Signer} {newAdmin : Pubkey}
    (h : proposeAdmin admin newAdmin w = .ok w') :
    Effect rt w (.proposeAdmin admin newAdmin) w' := by
  simp only [proposeAdmin, bind_eq_ok, constraint_eq_ok, pure_eq_ok, exists_const] at h
  obtain ⟨-, rfl⟩ := h
  exact .reconfigured rfl (reconfigured_of_eq rfl fun r => { r with })

theorem acceptAdmin_effect {pendingAdmin : Signer} (h : acceptAdmin pendingAdmin w = .ok w') :
    Effect rt w (.acceptAdmin pendingAdmin) w' := by
  simp only [acceptAdmin, bind_eq_ok, ensure_eq_ok, pure_eq_ok, exists_const] at h
  obtain ⟨-, -, rfl⟩ := h
  exact .reconfigured rfl (reconfigured_of_eq rfl fun r => { r with })

theorem wait_effect {t : Int} (h : wait t w = .ok w') : Effect rt w (.wait t) w' := by
  simp only [wait, bind_eq_ok, require_eq_ok, pure_eq_ok, exists_const] at h
  obtain ⟨ht, rfl⟩ := h
  exact .waited ht.1 ht.2

theorem transferToPrincipalVault_effect {amount : Nat}
    (h : transferToPrincipalVault amount w = .ok w') :
    Effect rt w (.transferToPrincipalVault amount) w' := by
  simp only [transferToPrincipalVault, bind_eq_ok, checkedAdd_eq_ok, pure_eq_ok] at h
  obtain ⟨_, ⟨hv, rfl⟩, rfl⟩ := h
  exact .principalReceived hv

theorem transferToJackpotVault_effect {amount : Nat}
    (h : transferToJackpotVault amount w = .ok w') :
    Effect rt w (.transferToJackpotVault amount) w' := by
  simp only [transferToJackpotVault, bind_eq_ok, checkedAdd_eq_ok, pure_eq_ok] at h
  obtain ⟨_, ⟨hv, rfl⟩, rfl⟩ := h
  exact .jackpotReceived hv

/-- Every step has the effect its action names. -/
theorem step_effect {a : Action} (h : Step rt w a w') : Effect rt w a w' := by
  cases a with
  | wait t => exact wait_effect h
  | transferToPrincipalVault amount => exact transferToPrincipalVault_effect h
  | transferToJackpotVault amount => exact transferToJackpotVault_effect h
  | setParams admin args => exact setParams_effect h
  | setPause signer paused => exact setPause_effect h
  | setFeaturePause signer feature paused => exact setFeaturePause_effect h
  | shutdown admin => exact shutdown_effect h
  | setOperator admin newOperator => exact setOperator_effect h
  | proposeAdmin admin newAdmin => exact proposeAdmin_effect h
  | acceptAdmin pendingAdmin => exact acceptAdmin_effect h
  | deposit owner ownerToken amount => exact deposit_effect h
  | requestWithdraw owner amount => exact requestWithdraw_effect h
  | processWithdraw owner ownerToken => exact processWithdraw_effect h
  | adminWithdraw admin amount => exact adminWithdraw_effect h
  | emergencyWithdraw owner ownerToken => exact emergencyWithdraw_effect h
  | sweepHouse admin => exact sweepHouse_effect h
  | buyTickets owner ownerToken amount => exact buyTickets_effect h
  | grantTickets signer owner amount => exact grantTickets_effect h
  | createRound operator startsAt endsAt => exact createRound_effect (createRound_step.mp h).2
  | buyPosition owner roundId tiles stakePerTile => exact buyPosition_effect h
  | requestRoundRandomness roundId randomness nonce => exact requestRoundRandomness_effect h
  | settleRound roundId randomness => exact settleRound_effect h
  | settlePosition roundId owner => exact settlePosition_effect h
  | voidRound roundId randomness => exact voidRound_effect h
  | closeRound operator roundId => exact closeRound_effect h
  | beginEpoch operator => exact beginEpoch_effect h
  | register epochId owner => exact register_effect h
  | fundJackpot authority source amount => exact fundJackpot_effect h
  | fundYield authority source amount => exact fundYield_effect h
  | closeRegistration operator epochId randomness nonce => exact closeRegistration_effect h
  | draw epochId randomness => exact draw_effect h
  | payout epochId owner => exact payout_effect h
  | rolloverEpoch epochId randomness => exact rolloverEpoch_effect h

end Instructions

end HexVault
