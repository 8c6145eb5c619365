import HexVault.Program.Randomness
import HexVault.Program.World

/-!
Epoch lifecycle: beginning an epoch, registering for the one that ended, Base
yield, funding, closing registration, drawing, paying out and rolling over.
-/

namespace HexVault

open Fallible

/-- Base yield on an ended epoch's principal-seconds, before the budget clamp. -/
def yieldFor (principalSeconds baseRateBps : Nat) : Result Nat := do
  let numerator ← mulU128 principalSeconds baseRateBps
  narrowU64 (numerator / (BPS_DENOMINATOR * SECONDS_PER_YEAR))

/-- Weight and principal-seconds an ended epoch owes a player. -/
def weightAndPrincipalSeconds (epoch : Epoch) (player : Player) : Result (Nat × Nat) :=
  if player.epochId = epoch.epochId then do
    let tail := elapsed player.lastUpdate epoch.endsAt
    let weight ← accrue player.weightAcc player.entries tail
    let principalSeconds ← accrue player.principalAcc player.principal tail
    return (weight, principalSeconds)
  else if epoch.epochId < player.epochId then do
    -- Touched since: only the immediately previous epoch survives a touch.
    ensure (player.frozenEpoch = epoch.epochId) .frozenEpochMismatch
    return (player.frozenWeight, player.frozenPrincipalAcc)
  else do
    let idle ← weightOf player.principal (elapsed epoch.startsAt epoch.endsAt)
    return (idle, idle)

/-- What a Base-yield credit leaves behind: the pool, the player, the amount
credited and what the budget fell short of. -/
structure YieldCredit where
  pool : Pool
  player : Player
  credited : Nat
  shortfall : Nat

/-- A credit touches the Player first, on the balance before it; nothing to
credit leaves the Player alone. -/
def touchForCredit (pool : Pool) (player : Player) (credited : Nat) (now : Int) :
    Result Player :=
  if 0 < credited then touch player pool now else .ok player

def creditYield (pool : Pool) (player : Player) (ps : Nat) (now : Int) : Result YieldCredit := do
  let desired ← yieldFor ps pool.baseRateBps
  let credited := min desired pool.yieldBudget
  let shortfall ← subU desired credited
  let player ← touchForCredit pool player credited now
  let principal ← addU64 player.principal credited
  let entries ← addU64 player.entries credited
  let totalPrincipal ← addU64 pool.totalPrincipal credited
  let yieldBudget ← subU pool.yieldBudget credited
  return {
    pool := { pool with totalPrincipal, yieldBudget }
    player := { player with principal, entries }
    credited, shortfall }

/-- Most recent point of the `anchor + k * period` grid at or before `t`. -/
def gridFloor (anchor period t : Int) : Result Int := do
  let offset ← subI64 t anchor
  require (period ≠ 0) .abort
  let base ← mulI64 (offset / period) period
  addI64 anchor base

def newEpoch (epochId : Nat) (startsAt endsAt : Int) : Epoch where
  epochId := epochId
  startsAt := startsAt
  endsAt := endsAt
  status := .open
  registeredWeight := 0
  registeredCount := 0
  jackpotAmount := 0
  vrfSeed := List.replicate 32 0
  requestedAt := 0
  target := 0
  winner := Pubkey.default
  drawnAt := 0
  registrationOpenedAt := 0

/-- The epoch whose winner's interval must survive until Payout may not still
be waiting for its draw or its payout. -/
def checkTwoBehind (w : World) : Result Unit :=
  if 2 ≤ w.pool.currentEpochId then do
    let twoBehind ← w.epoch (w.pool.currentEpochId - 1)
    ensure (¬(twoBehind.status = .drawing ∨ twoBehind.status = .drawn))
      .previousEpochStillDrawing
  else .ok ()

/-- The new epoch's start, and the epochs with the one that ended moved to
Registering. -/
def endCurrent (w : World) : Result (Int × Finmap fun _ : Nat => Epoch) :=
  if w.pool.currentEpochId = 0 then .ok (w.clock, w.epochs)
  else do
    let previous ← w.epoch w.pool.currentEpochId
    ensure (previous.endsAt ≤ w.clock) .epochNotEnded
    let floor ← gridFloor w.pool.epochAnchor w.pool.epochSeconds w.clock
    let previous' := { previous with status := .registering, registrationOpenedAt := w.clock }
    return (max previous.endsAt floor, w.epochs.insert w.pool.currentEpochId previous')

def beginEpoch (operator : Signer) (w : World) : Result World := do
  constraint (operator.key = w.pool.operator) .constraintHasOne
  constraint (w.epochs.lookup (w.pool.currentEpochId + 1) = none) .accountAlreadyInUse
  ensure (w.pool.shutdown = false) .poolShutDown
  ensure (w.pool.jackpotPaused = false) .jackpotPaused
  checkTwoBehind w
  let (startsAt, epochs) ← endCurrent w
  let floor ← gridFloor w.pool.epochAnchor w.pool.epochSeconds startsAt
  let endsAt ← addI64 floor w.pool.epochSeconds
  let currentEpochId ← addU64 w.pool.currentEpochId 1
  let pool := { w.pool with
    previousEpochStart := w.pool.currentEpochStart
    currentEpochStart := startsAt
    previousEpochEndsAt := w.pool.currentEpochEndsAt
    currentEpochEndsAt := endsAt
    currentEpochId }
  let epoch := newEpoch currentEpochId startsAt endsAt
  return { w with pool, epochs := epochs.insert currentEpochId epoch }.emit
    [.epochBegan currentEpochId startsAt endsAt]

/-- The yield part of a registration: once per player and ended epoch. -/
def registerYield (pool : Pool) (player : Player) (epochId ps : Nat) (now : Int) :
    Result (Pool × Player × List Event) :=
  if player.yieldEpoch ≠ epochId then do
    let credit ← creditYield pool player ps now
    return (credit.pool, { credit.player with yieldEpoch := epochId },
      [.yieldCredited epochId player.owner credit.credited credit.shortfall])
  else .ok (pool, player, [])

/-- The interval part of a registration, the player's slot on the epoch's line. -/
def takeInterval (epoch : Epoch) (player : Player) (weight : Nat) : Result (Epoch × Player) := do
  let regEnd ← addU128 epoch.registeredWeight weight
  let registeredCount ← addU32 epoch.registeredCount 1
  return ({ epoch with registeredWeight := regEnd, registeredCount },
    { player with regEpoch := epoch.epochId, regStart := epoch.registeredWeight, regEnd })

def register (epochId : Nat) (owner : Pubkey) (w : World) : Result World := do
  let epoch ← w.epoch epochId
  let player ← w.player owner
  ensure (epoch.status = .registering) .epochNotRegistering
  ensure (0 < w.pool.currentEpochId ∧ epoch.epochId = w.pool.currentEpochId - 1)
    .notPreviousEpoch
  ensure (player.regEpoch ≠ epoch.epochId) .alreadyRegistered
  let (weight, ps) ← weightAndPrincipalSeconds epoch player
  let (pool, player, events) ← registerYield w.pool player epoch.epochId ps w.clock
  if weight = 0 then
    return { w with pool, players := w.players.insert owner player }.emit events
  else do
    let (epoch, player) ← takeInterval epoch player weight
    return { w with
      pool
      players := w.players.insert owner player
      epochs := w.epochs.insert epochId epoch }.emit
        (events ++ [Event.registered epoch.epochId player.owner weight player.regStart
          player.regEnd])

def fundJackpot (authority : Signer) (source : TokenAccount) (amount : Nat) (w : World) :
    Result World := do
  checkSource w.pool authority source
  let jackpotVault ← transferIn source amount w.jackpotVault
  return { w with jackpotVault }.emit [.jackpotFunded amount]

def fundYield (authority : Signer) (source : TokenAccount) (amount : Nat) (w : World) :
    Result World := do
  checkSource w.pool authority source
  ensure (w.pool.shutdown = false) .poolShutDown
  let principalVault ← transferIn source amount w.principalVault
  let yieldBudget ← addU64 w.pool.yieldBudget amount
  return { w with pool := { w.pool with yieldBudget }, principalVault }.emit
    [.yieldFunded amount yieldBudget]

/-- The end of a closing epoch's registration window. -/
def registrationClosesAt (pool : Pool) (epoch : Epoch) : Result Int :=
  addI64 (max epoch.registrationOpenedAt epoch.endsAt) pool.registrationWindow

section Randomness
variable (rt : Runtime)

def closeRegistration (operator : Signer) (epochId : Nat) (randomness : Pubkey)
    (nonce : Bytes) (w : World) : Result World := do
  constraint (operator.key = w.pool.operator) .constraintHasOne
  let epoch ← w.epoch epochId
  ensure (w.pool.shutdown = false) .poolShutDown
  ensure (w.pool.jackpotPaused = false) .jackpotPaused
  ensure (epoch.status = .registering) .epochNotRegistering
  let closesAt ← registrationClosesAt w.pool epoch
  ensure (closesAt ≤ w.clock) .registrationWindowOpen
  let jackpotAmount := w.jackpotVault - w.pool.jackpotReserved
  if epoch.registeredWeight = 0 ∨ jackpotAmount < w.pool.minJackpot then
    let epoch := { epoch with jackpotAmount, status := .rolledOver }
    return { w with epochs := w.epochs.insert epochId epoch }.emit
      [.epochRolledOver epoch.epochId jackpotAmount]
  else do
    let seed := vrfSeed rt EPOCH_DOMAIN w.key epoch.epochId nonce
    ensure (randomness = randomnessAddress rt seed) .invalidRandomnessAccount
    let jackpotReserved ← addU64 w.pool.jackpotReserved jackpotAmount
    let epoch := { epoch with
      jackpotAmount, vrfSeed := seed, status := .drawing, requestedAt := w.clock }
    return { w with
      pool := { w.pool with jackpotReserved }
      epochs := w.epochs.insert epochId epoch }

def draw (epochId : Nat) (randomness : AccountInfo) (w : World) : Result World := do
  let epoch ← w.epoch epochId
  ensure (epoch.status = .drawing) .epochNotDrawing
  let bytes ← readFulfilled rt randomness epoch.vrfSeed
  let target ← unbiasedU128 rt bytes epoch.registeredWeight
  let epoch := { epoch with target, status := .drawn, drawnAt := w.clock }
  return { w with epochs := w.epochs.insert epochId epoch }.emit
    [.epochDrawn epoch.epochId target epoch.registeredWeight]

/-- A House win: half to the buyback reserve, a fifth to the treasury, the rest
stays in the jackpot vault. -/
def payHouse (amount : Nat) (w : World) : Result World := do
  let jackpotVault ← transferOut (amount / 2) w.jackpotVault
  let jackpotVault ← transferOut (amount / 5) jackpotVault
  return { w with jackpotVault }

/-- Any other win compounds into the winner's Principal. -/
def payPlayer (amount : Nat) (winner : Player) (owner : Pubkey) (w : World) :
    Result World := do
  let player ← touch winner w.pool w.clock
  let jackpotVault ← transferOut amount w.jackpotVault
  let principalVault ← checkedAdd u64Limit (.token .overflow) w.principalVault amount
  let principal ← addU64 player.principal amount
  let entries ← addU64 player.entries amount
  let totalPrincipal ← addU64 w.pool.totalPrincipal amount
  return { w with
    pool := { w.pool with totalPrincipal }
    players := w.players.insert owner { player with principal, entries }
    jackpotVault, principalVault }

/-- The treasury and the buyback reserve of a House win are the accounts the
pool records, which are not its vaults. -/
def payWinner (amount : Nat) (winner : Player) (owner : Pubkey) (w : World) : Result World :=
  if winner.isHouse then payHouse amount w else payPlayer amount winner owner w

def payout (epochId : Nat) (owner : Pubkey) (w : World) : Result World := do
  let epoch ← w.epoch epochId
  let winner ← w.player owner
  ensure (epoch.status = .drawn) .epochNotDrawn
  ensure (winner.regEpoch = epoch.epochId) .notRegistered
  ensure (winner.regStart ≤ epoch.target ∧ epoch.target < winner.regEnd) .notTheWinner
  let paid ← payWinner epoch.jackpotAmount winner owner w
  let epoch := { epoch with winner := winner.owner, status := .paid }
  let jackpotReserved ← subU paid.pool.jackpotReserved epoch.jackpotAmount
  return { paid with
    pool := { paid.pool with jackpotReserved }
    epochs := paid.epochs.insert epochId epoch }.emit
      [.jackpotPaid epoch.epochId winner.owner epoch.jackpotAmount winner.isHouse
        (!winner.isHouse)]

/-- When an epoch that is stuck may be rolled over, by where it is stuck. -/
def checkRollover (pool : Pool) (epoch : Epoch) (randomness : AccountInfo) (now : Int) :
    Result Unit :=
  match epoch.status with
  | .registering => do
      ensure (pool.jackpotPaused = false) .jackpotPaused
      let closesAt ← registrationClosesAt pool epoch
      let deadline ← addI64 closesAt pool.vrfTimeout
      ensure (deadline < now) .vrfTimeoutNotElapsed
  | .drawing => do
      ensure (randomness.key = randomnessAddress rt epoch.vrfSeed) .invalidRandomnessAccount
      let fulfilled ← isFulfilled rt randomness epoch.vrfSeed
      ensure (fulfilled = false) .randomnessAlreadyFulfilled
      let deadline ← addI64 epoch.requestedAt pool.vrfTimeout
      ensure (deadline < now) .vrfTimeoutNotElapsed
  | .drawn => do
      let deadline ← addI64 epoch.drawnAt pool.payoutTimeout
      ensure (deadline < now) .payoutTimeoutNotElapsed
  | _ => .error (.vault .epochNotDrawing)

def rolloverEpoch (epochId : Nat) (randomness : AccountInfo) (w : World) : Result World := do
  let epoch ← w.epoch epochId
  checkRollover rt w.pool epoch randomness w.clock
  let epoch := { epoch with status := .rolledOver }
  let jackpotReserved ← subU w.pool.jackpotReserved epoch.jackpotAmount
  return { w with
    pool := { w.pool with jackpotReserved }
    epochs := w.epochs.insert epochId epoch }.emit
      [.epochRolledOver epoch.epochId epoch.jackpotAmount]

end Randomness

end HexVault
