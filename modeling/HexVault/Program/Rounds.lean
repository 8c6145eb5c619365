import HexVault.Program.Randomness
import HexVault.Program.World

/-!
Round lifecycle: opening a round, buying positions on it, requesting and reading
its randomness, settling it and its positions, voiding and closing it. ORAO's
request is a call into another program: a handler here runs to its end only where
that call succeeded, and what the request account holds is an argument.
-/

namespace HexVault

open Fallible

def newRound (roundId epochId : Nat) (startsAt endsAt : Int) (pot : Nat) : Round where
  roundId := roundId
  epochId := epochId
  startsAt := startsAt
  endsAt := endsAt
  status := .open
  tileTotals := fun _ => 0
  pot := pot
  houseCut := 0
  vrfSeed := List.replicate 32 0
  requestedAt := 0
  winningTile := 0
  openPositions := 0

/-- The bound on a round's end: the current epoch's, and none before the first. -/
def checkRoundEnd (w : World) (endsAt : Int) : Result Unit :=
  if w.pool.currentEpochId = 0 then .ok ()
  else do
    let epoch ← w.epoch w.pool.currentEpochId
    ensure (endsAt ≤ epoch.endsAt) .roundOutsideEpoch

def createRound (operator : Signer) (startsAt endsAt : Int) (w : World) : Result World := do
  constraint (operator.key = w.pool.operator) .constraintHasOne
  constraint (w.rounds.lookup w.pool.nextRoundId = none) .accountAlreadyInUse
  ensure (w.pool.shutdown = false) .poolShutDown
  ensure (w.pool.paused = false) .poolPaused
  ensure (w.pool.gamePaused = false) .gamePaused
  ensure (w.pool.openRoundId = 0) .roundAlreadyOpen
  ensure (subI64 endsAt startsAt = .ok w.pool.roundSeconds) .invalidRoundLength
  checkRoundEnd w endsAt
  let roundId := w.pool.nextRoundId
  let nextRoundId ← addU64 w.pool.nextRoundId 1
  let round := newRound roundId w.pool.currentEpochId startsAt endsAt w.pool.carryPot
  return { w with
    pool := { w.pool with nextRoundId, carryPot := 0, openRoundId := roundId }
    rounds := w.rounds.insert roundId round }.emit
      [.roundOpened roundId round.epochId startsAt endsAt round.pot]

/-- The loop over the tiles: the stake goes onto each one the mask covers. -/
def addStakes (tiles : BitVec 64) (stakePerTile : Nat) :
    List (Fin TILE_COUNT) → Round → Result Round
  | [], round => .ok round
  | tile :: rest, round =>
      if tileIsCovered tiles tile then do
        let round ← round.addToTile tile stakePerTile
        addStakes tiles stakePerTile rest round
      else addStakes tiles stakePerTile rest round

/-- The Weight a stake would have earned for the rest of the round, paid up front. -/
def preCredit (player : Player) (total : Nat) (endsAt now : Int) : Result Player := do
  let remaining ← subI64 endsAt now
  ensure (0 ≤ remaining) .arithmeticOverflow
  let credited ← mulU128 total remaining.toNat
  let weightAcc ← addU128 player.weightAcc credited
  return { player with weightAcc }

def buyPosition (owner : Signer) (roundId : Nat) (tiles : BitVec 64) (stakePerTile : Nat)
    (w : World) : Result World := do
  let account ← w.player owner.key
  let round ← w.round roundId
  constraint (w.positions.lookup (roundId, owner.key) = none) .accountAlreadyInUse
  let player ← touch account w.pool w.clock
  ensure (w.pool.shutdown = false) .poolShutDown
  ensure (w.pool.paused = false) .poolPaused
  ensure (w.pool.gamePaused = false) .gamePaused
  ensure (player.isHouse = false) .houseCannotPlay
  ensure (round.status = .open) .roundNotOpen
  let closeAt ← subI64 round.endsAt w.pool.closeBuffer
  ensure (w.clock < closeAt) .roundClosed
  let count ← tileCount tiles
  ensure (1 ≤ stakePerTile) .invalidStake
  let total ← mulU64 stakePerTile count
  ensure (total ≤ player.entries) .insufficientEntries
  let player ← preCredit player total round.endsAt w.clock
  let entries ← subU player.entries total
  let round ← addStakes tiles stakePerTile (List.finRange TILE_COUNT) round
  let pot ← addU64 round.pot total
  let openPositions ← addU32 round.openPositions 1
  return { w with
    players := w.players.insert owner.key { player with entries }
    rounds := w.rounds.insert roundId { round with pot, openPositions }
    positions := w.positions.insert (roundId, owner.key)
      { owner := owner.key, round := roundId, tiles, stakePerTile } }.emit
        [.positionBought round.roundId owner.key tiles stakePerTile total]

section Randomness
variable (rt : Runtime)

def requestRoundRandomness (roundId : Nat) (randomness : Pubkey) (nonce : Bytes) (w : World) :
    Result World := do
  let round ← w.round roundId
  ensure (round.status = .open) .roundNotOpen
  let closeAt ← subI64 round.endsAt w.pool.closeBuffer
  ensure (closeAt ≤ w.clock) .roundNotEnded
  let seed := vrfSeed rt ROUND_DOMAIN w.key round.roundId nonce
  ensure (randomness = randomnessAddress rt seed) .invalidRandomnessAccount
  let round := { round with vrfSeed := seed, status := .requested, requestedAt := w.clock }
  return { w with rounds := w.rounds.insert roundId round }

/-- The House's share of a settled pot; a forfeited one leaves nothing to cut. -/
def houseCutOf (forfeited : Bool) (pot houseCutBps : Nat) : Result Nat :=
  if forfeited then .ok 0
  else do
    let scaled ← mulU128 pot houseCutBps
    narrowU64 (scaled / BPS_DENOMINATOR)

/-- What `settle_round` credits the House: everything of a forfeited pot, the
cut of a settled one, and nothing for a round whose epoch rolled over. -/
def creditHouse (w : World) (epochIsCurrent forfeited : Bool) (credit : Nat) (house : Player) :
    Result Player :=
  if epochIsCurrent = true ∧ (forfeited = true ∨ 0 < credit) then do
    let house ← touch house w.pool w.clock
    let entries ← addU64 house.entries credit
    return { house with entries }
  else .ok house

def settleRound (roundId : Nat) (randomness : AccountInfo) (w : World) : Result World := do
  let round ← w.round roundId
  let house ← w.player w.pool.house
  ensure (round.status = .requested) .roundNotRequested
  let bytes ← readFulfilled rt randomness round.vrfSeed
  let winningTile ← unbiasedU64 rt bytes TILE_COUNT
  let tileTotal ← round.tileTotal winningTile
  let forfeited := decide (tileTotal = 0)
  let houseCut ← houseCutOf forfeited round.pot w.pool.houseCutBps
  let credit := if forfeited then round.pot else houseCut
  let house ← creditHouse w (decide (round.epochId = w.pool.currentEpochId)) forfeited credit
    house
  let status := if forfeited then RoundStatus.forfeited else RoundStatus.settled
  return { w with
    pool := { w.pool with openRoundId := 0 }
    players := w.players.insert w.pool.house house
    rounds := w.rounds.insert roundId { round with status, houseCut, winningTile } }.emit
      [.roundSettled round.roundId winningTile round.pot forfeited houseCut]

/-- What a position on a finished round is owed: its share of the pot after the
cut, when the round settled on one of its tiles and its epoch still runs. -/
def positionReward (pool : Pool) (round : Round) (position : Position) : Result Nat :=
  if round.epochId = pool.currentEpochId ∧ round.status = .settled ∧
      tileIsCovered position.tiles round.winningTile = true then do
    let tileTotal ← round.tileTotal round.winningTile
    let payable ← subU round.pot round.houseCut
    let scaled ← mulU128 payable position.stakePerTile
    -- An integer division by zero panics.
    require (0 < tileTotal) .abort
    narrowU64 (scaled / tileTotal)
  else .ok 0

def addReward (entries reward : Nat) : Result Nat :=
  if 0 < reward then addU64 entries reward else .ok entries

def isFinished (status : RoundStatus) : Prop :=
  status = .settled ∨ status = .forfeited ∨ status = .voided

instance (status : RoundStatus) : Decidable (isFinished status) :=
  inferInstanceAs (Decidable (_ ∨ _))

def settlePosition (roundId : Nat) (owner : Pubkey) (w : World) : Result World := do
  let round ← w.round roundId
  let account ← w.player owner
  let position ← w.position roundId owner
  let player ← touch account w.pool w.clock
  ensure (isFinished round.status) .roundNotSettled
  let reward ← positionReward w.pool round position
  let entries ← addReward player.entries reward
  let openPositions ← subU round.openPositions 1
  return { w with
    players := w.players.insert owner { player with entries }
    rounds := w.rounds.insert roundId { round with openPositions }
    positions := w.positions.erase (roundId, owner) }.emit
      [.positionSettled round.roundId position.owner reward]

/-- A round may be voided once its request timed out unfulfilled, or once it
timed out with no request at all. -/
def checkVoidable (pool : Pool) (round : Round) (randomness : AccountInfo) (now : Int) :
    Result Unit :=
  match round.status with
  | .requested => do
      ensure (randomness.key = randomnessAddress rt round.vrfSeed) .invalidRandomnessAccount
      let fulfilled ← isFulfilled rt randomness round.vrfSeed
      ensure (fulfilled = false) .randomnessAlreadyFulfilled
      let timeoutAt ← addI64 round.requestedAt pool.vrfTimeout
      ensure (timeoutAt < now) .vrfTimeoutNotElapsed
  | .open => do
      let timeoutAt ← addI64 round.endsAt pool.vrfTimeout
      ensure (timeoutAt < now) .vrfTimeoutNotElapsed
  | _ => .error (.vault .roundNotRequested)

def carryPotAfter (pool : Pool) (round : Round) : Result Nat :=
  if round.epochId = pool.currentEpochId then addU64 pool.carryPot round.pot
  else .ok pool.carryPot

def voidRound (roundId : Nat) (randomness : AccountInfo) (w : World) : Result World := do
  let round ← w.round roundId
  checkVoidable rt w.pool round randomness w.clock
  let carryPot ← carryPotAfter w.pool round
  return { w with
    pool := { w.pool with carryPot, openRoundId := 0 }
    rounds := w.rounds.insert roundId { round with status := .voided } }.emit
      [.roundVoided round.roundId carryPot]

def closeRound (operator : Pubkey) (roundId : Nat) (w : World) : Result World := do
  constraint (operator = w.pool.operator) .constraintHasOne
  let round ← w.round roundId
  ensure (isFinished round.status) .roundNotSettled
  ensure (round.openPositions = 0) .roundHasOpenPositions
  return { w with rounds := w.rounds.erase roundId }.emit [.roundClosed round.roundId]

end Randomness

end HexVault
