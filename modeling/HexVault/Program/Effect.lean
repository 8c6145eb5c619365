import HexVault.Program.Instructions
import HexVault.Program.Touched

/-!
What one step can do, said once. `Effect` has a constructor for each instruction
that moves funds, Tickets or an epoch's state, and one for those that only
reconfigure the pool; it carries the guards the step passed and the world it
left. Every invariant is proved from it, and no proof unfolds a handler again.
-/

namespace HexVault

open Fallible

/-- The ranges `create_pool` and `set_params` hold each parameter to. -/
structure Pool.InRange (pool : Pool) : Prop where
  epochSeconds : 0 < pool.epochSeconds
  epochAnchor : 0 < pool.epochAnchor
  roundSeconds : 0 < pool.roundSeconds
  closeBuffer : 0 ≤ pool.closeBuffer
  vrfTimeout : MIN_VRF_TIMEOUT ≤ pool.vrfTimeout
  houseCutBps : pool.houseCutBps ≤ BPS_DENOMINATOR
  baseRateBps : pool.baseRateBps ≤ BPS_DENOMINATOR
  ticketsPerUsdc : 0 < pool.ticketsPerUsdc
  bonusCapBps : pool.bonusCapBps ≤ BPS_DENOMINATOR
  payoutTimeout : MIN_PAYOUT_TIMEOUT ≤ pool.payoutTimeout

/-- The pool with other roles, parameters or pauses, and the same books. -/
structure Reconfigured (pool pool' : Pool) : Prop where
  poolId : pool'.poolId = pool.poolId
  acceptedMint : pool'.acceptedMint = pool.acceptedMint
  house : pool'.house = pool.house
  currentEpochId : pool'.currentEpochId = pool.currentEpochId
  currentEpochStart : pool'.currentEpochStart = pool.currentEpochStart
  currentEpochEndsAt : pool'.currentEpochEndsAt = pool.currentEpochEndsAt
  previousEpochStart : pool'.previousEpochStart = pool.previousEpochStart
  previousEpochEndsAt : pool'.previousEpochEndsAt = pool.previousEpochEndsAt
  nextRoundId : pool'.nextRoundId = pool.nextRoundId
  openRoundId : pool'.openRoundId = pool.openRoundId
  carryPot : pool'.carryPot = pool.carryPot
  totalPrincipal : pool'.totalPrincipal = pool.totalPrincipal
  pendingWithdrawals : pool'.pendingWithdrawals = pool.pendingWithdrawals
  jackpotReserved : pool'.jackpotReserved = pool.jackpotReserved
  yieldBudget : pool'.yieldBudget = pool.yieldBudget
  bonusEpoch : pool'.bonusEpoch = pool.bonusEpoch
  bonusGranted : pool'.bonusGranted = pool.bonusGranted
  inRange : pool.InRange → pool'.InRange

/-- The pool with every parameter the arguments set. -/
def SetParamsArgs.apply (args : SetParamsArgs) (pool : Pool) : Pool :=
  { pool with
    epochSeconds := args.epochSeconds.getD pool.epochSeconds
    epochAnchor := args.epochAnchor.getD pool.epochAnchor
    roundSeconds := args.roundSeconds.getD pool.roundSeconds
    closeBuffer := args.closeBuffer.getD pool.closeBuffer
    vrfTimeout := args.vrfTimeout.getD pool.vrfTimeout
    minDeposit := args.minDeposit.getD pool.minDeposit
    houseCutBps := args.houseCutBps.getD pool.houseCutBps
    minJackpot := args.minJackpot.getD pool.minJackpot
    registrationWindow := args.registrationWindow.getD pool.registrationWindow
    payoutTimeout := args.payoutTimeout.getD pool.payoutTimeout
    baseRateBps := args.baseRateBps.getD pool.baseRateBps
    ticketsPerUsdc := args.ticketsPerUsdc.getD pool.ticketsPerUsdc
    bonusCapBps := args.bonusCapBps.getD pool.bonusCapBps }

def Action.reconfigures : Action → Bool
  | .setParams .. | .setPause .. | .setFeaturePause .. | .shutdown .. | .setOperator ..
  | .proposeAdmin .. | .acceptAdmin .. => true
  | _ => false

/-- A Player after `tickets` more Tickets, and perhaps a counter moved. -/
structure Credited (player : Player) (tickets : Nat) (player' : Player) : Prop where
  player : player' = { player with
    entries := player.entries + tickets
    boughtEpoch := player'.boughtEpoch
    boughtAmount := player'.boughtAmount
    bonusEpoch := player'.bonusEpoch
    bonusGranted := player'.bonusGranted }

theorem Credited.principal {p q : Player} {tickets : Nat} (h : Credited p tickets q) :
    q.principal = p.principal := by
  rw [h.player]

theorem Credited.pendingWithdraw {p q : Player} {tickets : Nat} (h : Credited p tickets q) :
    q.pendingWithdraw = p.pendingWithdraw := by
  rw [h.player]

/-- The House after a settled round: credited through a touch when its round's
epoch is current and there is something to credit, untouched otherwise. -/
inductive HouseShare (w : World) (current forfeited : Bool) (credit : Nat) (house : Player) :
    Player → Prop
  | credited {q : Player} : current = true → (forfeited = true ∨ 0 < credit) →
      touch house w.pool w.clock = .ok q →
      HouseShare w current forfeited credit house { q with entries := q.entries + credit }
  | evaporated : ¬(current = true ∧ (forfeited = true ∨ 0 < credit)) →
      HouseShare w current forfeited credit house house

theorem HouseShare.sameHoldings {w : World} {current forfeited : Bool} {credit : Nat}
    {p q : Player} (h : HouseShare w current forfeited credit p q) : p.SameHoldings q := by
  cases h with
  | credited _ _ ht => exact { touch_sameHoldings ht with }
  | evaporated _ => exact .refl p

/-- The pool after `credited` of Base yield. -/
def Pool.creditYield (pool : Pool) (credited : Nat) : Pool :=
  { pool with
    totalPrincipal := pool.totalPrincipal + credited
    yieldBudget := pool.yieldBudget - credited }

/-- The Player after `credited` of Base yield for an epoch. -/
def Player.creditYield (player : Player) (credited epochId : Nat) : Player :=
  { player with
    principal := player.principal + credited
    entries := player.entries + credited
    yieldEpoch := epochId }

/-- The Player a registration credits: touched, unless there is nothing to credit. -/
def YieldTouch (w : World) (player : Player) (credited : Nat) (q : Player) : Prop :=
  (credited = 0 ∧ q = player) ∨ touch player w.pool w.clock = .ok q

theorem YieldTouch.sameHoldings {w : World} {p q : Player} {credited : Nat}
    (h : YieldTouch w p credited q) : p.SameHoldings q := by
  cases h with
  | inl same => exact same.2 ▸ .refl p
  | inr touched => exact touch_sameHoldings touched

inductive Effect (rt : Runtime) (w : World) : Action → World → Prop
  | waited {t : Int} : w.clock ≤ t → t < i64Limit →
      Effect rt w (.wait t) { w with clock := t }
  | principalReceived {amount : Nat} : w.principalVault + amount < u64Limit →
      Effect rt w (.transferToPrincipalVault amount)
        { w with principalVault := w.principalVault + amount }
  | jackpotReceived {amount : Nat} : w.jackpotVault + amount < u64Limit →
      Effect rt w (.transferToJackpotVault amount)
        { w with jackpotVault := w.jackpotVault + amount }
  | reconfigured {a : Action} {pool : Pool} {es : List Event} :
      a.reconfigures = true → Reconfigured w.pool pool →
      Effect rt w a ({ w with pool }.emit es)
  | deposited {owner : Signer} {token : TokenAccount} {amount : Nat} {player : Player}
      {es : List Event} :
      touch (((w.players.lookup owner.key).getD Player.zeroed).initIfFresh owner.key w.pool
        w.clock) w.pool w.clock = .ok player →
      player.isHouse = false → w.pool.shutdown = false →
      w.principalVault + amount < u64Limit →
      Effect rt w (.deposit owner token amount) ({ w with
        pool := { w.pool with totalPrincipal := w.pool.totalPrincipal + amount }
        players := w.players.insert owner.key { player with
          principal := player.principal + amount, entries := player.entries + amount }
        principalVault := w.principalVault + amount }.emit es)
  | withdrawRequested {owner : Signer} {amount : Nat} {account player : Player}
      {es : List Event} :
      w.players.lookup owner.key = some account →
      touch account w.pool w.clock = .ok player →
      amount ≤ player.principal → amount ≤ w.pool.totalPrincipal →
      Effect rt w (.requestWithdraw owner amount) ({ w with
        pool := { w.pool with
          totalPrincipal := w.pool.totalPrincipal - amount
          pendingWithdrawals := w.pool.pendingWithdrawals + amount }
        players := w.players.insert owner.key { player with
          principal := player.principal - amount
          entries := player.entries - amount
          pendingWithdraw := player.pendingWithdraw + amount
          pendingEpoch := w.pool.currentEpochId
          requestedAt := w.clock } }.emit es)
  | withdrawn {owner : Pubkey} {token : TokenAccount} {player : Player} {es : List Event} :
      w.players.lookup owner = some player →
      player.pendingWithdraw ≤ w.principalVault →
      player.pendingWithdraw ≤ w.pool.pendingWithdrawals →
      Effect rt w (.processWithdraw owner token) ({ w with
        pool := { w.pool with
          pendingWithdrawals := w.pool.pendingWithdrawals - player.pendingWithdraw }
        players := w.players.insert owner { player with pendingWithdraw := 0 }
        principalVault := w.principalVault - player.pendingWithdraw }.emit es)
  | principalDeployed {admin : Signer} {amount : Nat} {es : List Event} :
      amount ≤ w.principalVault → w.pool.pendingWithdrawals ≤ w.principalVault - amount →
      Effect rt w (.adminWithdraw admin amount)
        ({ w with principalVault := w.principalVault - amount }.emit es)
  | emergencyWithdrawn {owner : Pubkey} {token : TokenAccount} {account player : Player}
      {es : List Event} :
      w.players.lookup owner = some account →
      touch account w.pool w.clock = .ok player →
      w.pool.shutdown = true → player.isHouse = false →
      player.principal + player.pendingWithdraw ≤ w.principalVault →
      player.principal ≤ w.pool.totalPrincipal →
      player.pendingWithdraw ≤ w.pool.pendingWithdrawals →
      Effect rt w (.emergencyWithdraw owner token) ({ w with
        pool := { w.pool with
          totalPrincipal := w.pool.totalPrincipal - player.principal
          pendingWithdrawals := w.pool.pendingWithdrawals - player.pendingWithdraw }
        players := w.players.insert owner { player with
          principal := 0, entries := 0, pendingWithdraw := 0 }
        principalVault := w.principalVault - (player.principal + player.pendingWithdraw) }.emit
          es)
  | houseSwept {admin : Signer} {yieldSwept : Nat} {es : List Event} :
      w.pool.shutdown = true → yieldSwept ≤ w.pool.yieldBudget →
      yieldSwept ≤ w.principalVault →
      Effect rt w (.sweepHouse admin) ({ w with
        pool := { w.pool with yieldBudget := w.pool.yieldBudget - yieldSwept }
        jackpotVault := w.jackpotVault - (w.jackpotVault - w.pool.jackpotReserved)
        principalVault := w.principalVault - yieldSwept }.emit es)
  | ticketsBought {owner : Signer} {token : TokenAccount} {amount : Nat}
      {account player player' : Player} {es : List Event} :
      w.players.lookup owner.key = some account →
      touch account w.pool w.clock = .ok player →
      player.isHouse = false → 0 < w.pool.currentEpochId →
      w.jackpotVault + amount < u64Limit →
      Credited player (amount * w.pool.ticketsPerUsdc) player' →
      Effect rt w (.buyTickets owner token amount) ({ w with
        players := w.players.insert owner.key player'
        jackpotVault := w.jackpotVault + amount }.emit es)
  | ticketsGranted {signer : Signer} {owner : Pubkey} {amount bonusEpoch bonusGranted : Nat}
      {account player player' : Player} {es : List Event} :
      w.players.lookup owner = some account →
      touch account w.pool w.clock = .ok player →
      Credited player amount player' →
      Effect rt w (.grantTickets signer owner amount) ({ w with
        pool := { w.pool with bonusEpoch, bonusGranted }
        players := w.players.insert owner player' }.emit es)
  | roundCreated {operator : Signer} {startsAt endsAt : Int} {es : List Event} :
      w.rounds.lookup w.pool.nextRoundId = none →
      (w.pool.currentEpochId = 0 ∨
        ∃ epoch, w.epochs.lookup w.pool.currentEpochId = some epoch ∧ endsAt ≤ epoch.endsAt) →
      Effect rt w (.createRound operator startsAt endsAt) ({ w with
        pool := { w.pool with
          nextRoundId := w.pool.nextRoundId + 1, carryPot := 0
          openRoundId := w.pool.nextRoundId }
        rounds := w.rounds.insert w.pool.nextRoundId
          (newRound w.pool.nextRoundId w.pool.currentEpochId startsAt endsAt
            w.pool.carryPot) }.emit es)
  | positionBought {owner : Signer} {roundId : Nat} {tiles : BitVec 64} {stakePerTile : Nat}
      {account player : Player} {round : Round} {es : List Event} :
      w.players.lookup owner.key = some account →
      w.rounds.lookup roundId = some round →
      w.positions.lookup (roundId, owner.key) = none →
      touch account w.pool w.clock = .ok player →
      player.isHouse = false → round.status = .open →
      w.clock < round.endsAt - w.pool.closeBuffer → w.clock ≤ round.endsAt →
      1 ≤ stakePerTile → tiles ≠ 0 → tiles &&& ~~~TILE_MASK = 0 →
      stakePerTile * countOnes tiles ≤ player.entries →
      Effect rt w (.buyPosition owner roundId tiles stakePerTile) ({ w with
        players := w.players.insert owner.key { player with
          weightAcc := player.weightAcc +
            stakePerTile * countOnes tiles * (round.endsAt - w.clock).toNat
          entries := player.entries - stakePerTile * countOnes tiles }
        rounds := w.rounds.insert roundId { round with
          tileTotals := fun tile => round.tileTotals tile +
            if tileIsCovered tiles tile then stakePerTile else 0
          pot := round.pot + stakePerTile * countOnes tiles
          openPositions := round.openPositions + 1 }
        positions := w.positions.insert (roundId, owner.key)
          { owner := owner.key, round := roundId, tiles, stakePerTile } }.emit es)
  | roundRequested {roundId : Nat} {randomness : Pubkey} {nonce seed : Bytes} {round : Round} :
      w.rounds.lookup roundId = some round → round.status = .open →
      round.endsAt - w.pool.closeBuffer ≤ w.clock →
      Effect rt w (.requestRoundRandomness roundId randomness nonce) { w with
        rounds := w.rounds.insert roundId { round with
          vrfSeed := seed, status := .requested, requestedAt := w.clock } }
  | roundSettled {roundId : Nat} {randomness : AccountInfo} {round : Round}
      {account house : Player} {tile : Fin TILE_COUNT} {houseCut : Nat} {es : List Event} :
      w.rounds.lookup roundId = some round →
      w.players.lookup w.pool.house = some account →
      round.status = .requested →
      houseCut = (if round.tileTotals tile = 0 then 0
        else round.pot * w.pool.houseCutBps / BPS_DENOMINATOR) →
      HouseShare w (decide (round.epochId = w.pool.currentEpochId))
        (decide (round.tileTotals tile = 0))
        (if round.tileTotals tile = 0 then round.pot else houseCut) account house →
      Effect rt w (.settleRound roundId randomness) ({ w with
        pool := { w.pool with openRoundId := 0 }
        players := w.players.insert w.pool.house house
        rounds := w.rounds.insert roundId { round with
          status := if round.tileTotals tile = 0 then .forfeited else .settled
          houseCut, winningTile := tile } }.emit es)
  | positionSettled {roundId : Nat} {owner : Pubkey} {round : Round} {account player : Player}
      {position : Position} {reward : Nat} {es : List Event} :
      w.rounds.lookup roundId = some round →
      w.players.lookup owner = some account →
      w.positions.lookup (roundId, owner) = some position →
      touch account w.pool w.clock = .ok player →
      isFinished round.status →
      positionReward w.pool round position = .ok reward →
      1 ≤ round.openPositions →
      Effect rt w (.settlePosition roundId owner) ({ w with
        players := w.players.insert owner { player with entries := player.entries + reward }
        rounds := w.rounds.insert roundId { round with
          openPositions := round.openPositions - 1 }
        positions := w.positions.erase (roundId, owner) }.emit es)
  | roundVoided {roundId : Nat} {randomness : AccountInfo} {round : Round} {es : List Event} :
      w.rounds.lookup roundId = some round →
      round.status = .requested ∨ round.status = .open →
      Effect rt w (.voidRound roundId randomness) ({ w with
        pool := { w.pool with
          carryPot := w.pool.carryPot +
            (if round.epochId = w.pool.currentEpochId then round.pot else 0)
          openRoundId := 0 }
        rounds := w.rounds.insert roundId { round with status := .voided } }.emit es)
  | roundClosed {operator : Pubkey} {roundId : Nat} {round : Round} {es : List Event} :
      w.rounds.lookup roundId = some round → isFinished round.status →
      round.openPositions = 0 →
      Effect rt w (.closeRound operator roundId)
        ({ w with rounds := w.rounds.erase roundId }.emit es)
  | epochBegan {operator : Signer} {startsAt endsAt floor : Int}
      {epochs : Finmap fun _ : Nat => Epoch} {es : List Event} :
      w.epochs.lookup (w.pool.currentEpochId + 1) = none →
      (2 ≤ w.pool.currentEpochId → ∃ epoch,
        w.epochs.lookup (w.pool.currentEpochId - 1) = some epoch ∧
        epoch.status ≠ .drawing ∧ epoch.status ≠ .drawn) →
      endCurrent w = .ok (startsAt, epochs) →
      gridFloor w.pool.epochAnchor w.pool.epochSeconds startsAt = .ok floor →
      floor + w.pool.epochSeconds < i64Limit →
      endsAt = floor + w.pool.epochSeconds →
      Effect rt w (.beginEpoch operator) ({ w with
        pool := { w.pool with
          previousEpochStart := w.pool.currentEpochStart
          currentEpochStart := startsAt
          previousEpochEndsAt := w.pool.currentEpochEndsAt
          currentEpochEndsAt := endsAt
          currentEpochId := w.pool.currentEpochId + 1 }
        epochs := epochs.insert (w.pool.currentEpochId + 1)
          (newEpoch (w.pool.currentEpochId + 1) startsAt endsAt) }.emit es)
  | registeredNothing {epochId : Nat} {owner : Pubkey} {epoch : Epoch} {account player : Player}
      {ps credited : Nat} {es : List Event} :
      w.epochs.lookup epochId = some epoch →
      w.players.lookup owner = some account →
      epoch.status = .registering → 0 < w.pool.currentEpochId →
      epoch.epochId = w.pool.currentEpochId - 1 →
      account.regEpoch ≠ epoch.epochId →
      weightAndPrincipalSeconds epoch account = .ok (0, ps) →
      YieldTouch w account credited player → credited ≤ w.pool.yieldBudget →
      Effect rt w (.register epochId owner) ({ w with
        pool := w.pool.creditYield credited
        players := w.players.insert owner (player.creditYield credited epoch.epochId) }.emit es)
  | registered {epochId : Nat} {owner : Pubkey} {epoch : Epoch} {account player : Player}
      {weight ps credited : Nat} {es : List Event} :
      w.epochs.lookup epochId = some epoch →
      w.players.lookup owner = some account →
      epoch.status = .registering → 0 < w.pool.currentEpochId →
      epoch.epochId = w.pool.currentEpochId - 1 →
      account.regEpoch ≠ epoch.epochId →
      weightAndPrincipalSeconds epoch account = .ok (weight, ps) → 0 < weight →
      YieldTouch w account credited player → credited ≤ w.pool.yieldBudget →
      Effect rt w (.register epochId owner) ({ w with
        pool := w.pool.creditYield credited
        players := w.players.insert owner { player.creditYield credited epoch.epochId with
          regEpoch := epoch.epochId
          regStart := epoch.registeredWeight
          regEnd := epoch.registeredWeight + weight }
        epochs := w.epochs.insert epochId { epoch with
          registeredWeight := epoch.registeredWeight + weight
          registeredCount := epoch.registeredCount + 1 } }.emit es)
  | jackpotFunded {authority : Signer} {source : TokenAccount} {amount : Nat}
      {es : List Event} :
      w.jackpotVault + amount < u64Limit →
      Effect rt w (.fundJackpot authority source amount)
        ({ w with jackpotVault := w.jackpotVault + amount }.emit es)
  | yieldFunded {authority : Signer} {source : TokenAccount} {amount : Nat} {es : List Event} :
      w.principalVault + amount < u64Limit →
      Effect rt w (.fundYield authority source amount) ({ w with
        pool := { w.pool with yieldBudget := w.pool.yieldBudget + amount }
        principalVault := w.principalVault + amount }.emit es)
  | closedUndrawn {operator : Signer} {epochId : Nat} {randomness : Pubkey} {nonce : Bytes}
      {epoch : Epoch} {es : List Event} :
      w.epochs.lookup epochId = some epoch → epoch.status = .registering →
      (epoch.registeredWeight = 0 ∨
        w.jackpotVault - w.pool.jackpotReserved < w.pool.minJackpot) →
      Effect rt w (.closeRegistration operator epochId randomness nonce) ({ w with
        epochs := w.epochs.insert epochId { epoch with
          jackpotAmount := w.jackpotVault - w.pool.jackpotReserved
          status := .rolledOver } }.emit es)
  | closedForDraw {operator : Signer} {epochId : Nat} {randomness : Pubkey}
      {nonce seed : Bytes} {epoch : Epoch} :
      w.epochs.lookup epochId = some epoch → epoch.status = .registering →
      epoch.registeredWeight ≠ 0 →
      w.pool.minJackpot ≤ w.jackpotVault - w.pool.jackpotReserved →
      Effect rt w (.closeRegistration operator epochId randomness nonce) { w with
        pool := { w.pool with
          jackpotReserved := w.pool.jackpotReserved +
            (w.jackpotVault - w.pool.jackpotReserved) }
        epochs := w.epochs.insert epochId { epoch with
          jackpotAmount := w.jackpotVault - w.pool.jackpotReserved
          vrfSeed := seed, status := .drawing, requestedAt := w.clock } }
  | drawn {epochId target : Nat} {randomness : AccountInfo} {epoch : Epoch} {es : List Event} :
      w.epochs.lookup epochId = some epoch → epoch.status = .drawing →
      target < epoch.registeredWeight →
      Effect rt w (.draw epochId randomness) ({ w with
        epochs := w.epochs.insert epochId { epoch with
          target, status := .drawn, drawnAt := w.clock } }.emit es)
  | paidHouse {epochId : Nat} {owner : Pubkey} {epoch : Epoch} {winner : Player}
      {es : List Event} :
      w.epochs.lookup epochId = some epoch → w.players.lookup owner = some winner →
      epoch.status = .drawn → winner.regEpoch = epoch.epochId →
      winner.regStart ≤ epoch.target → epoch.target < winner.regEnd →
      winner.isHouse = true →
      epoch.jackpotAmount / 2 + epoch.jackpotAmount / 5 ≤ w.jackpotVault →
      epoch.jackpotAmount ≤ w.pool.jackpotReserved →
      Effect rt w (.payout epochId owner) ({ w with
        pool := { w.pool with
          jackpotReserved := w.pool.jackpotReserved - epoch.jackpotAmount }
        epochs := w.epochs.insert epochId { epoch with winner := winner.owner, status := .paid }
        jackpotVault :=
          w.jackpotVault - epoch.jackpotAmount / 2 - epoch.jackpotAmount / 5 }.emit es)
  | paidPlayer {epochId : Nat} {owner : Pubkey} {epoch : Epoch} {winner player : Player}
      {es : List Event} :
      w.epochs.lookup epochId = some epoch → w.players.lookup owner = some winner →
      epoch.status = .drawn → winner.regEpoch = epoch.epochId →
      winner.regStart ≤ epoch.target → epoch.target < winner.regEnd →
      winner.isHouse = false →
      touch winner w.pool w.clock = .ok player →
      epoch.jackpotAmount ≤ w.jackpotVault → epoch.jackpotAmount ≤ w.pool.jackpotReserved →
      Effect rt w (.payout epochId owner) ({ w with
        pool := { w.pool with
          totalPrincipal := w.pool.totalPrincipal + epoch.jackpotAmount
          jackpotReserved := w.pool.jackpotReserved - epoch.jackpotAmount }
        players := w.players.insert owner { player with
          principal := player.principal + epoch.jackpotAmount
          entries := player.entries + epoch.jackpotAmount }
        epochs := w.epochs.insert epochId { epoch with winner := winner.owner, status := .paid }
        jackpotVault := w.jackpotVault - epoch.jackpotAmount
        principalVault := w.principalVault + epoch.jackpotAmount }.emit es)
  | rolledOver {epochId : Nat} {randomness : AccountInfo} {epoch : Epoch} {es : List Event} :
      w.epochs.lookup epochId = some epoch →
      (epoch.status = .registering ∨ epoch.status = .drawing ∨ epoch.status = .drawn) →
      epoch.jackpotAmount ≤ w.pool.jackpotReserved →
      Effect rt w (.rolloverEpoch epochId randomness) ({ w with
        pool := { w.pool with
          jackpotReserved := w.pool.jackpotReserved - epoch.jackpotAmount }
        epochs := w.epochs.insert epochId { epoch with status := .rolledOver } }.emit es)

end HexVault
