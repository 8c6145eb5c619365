import HexVault.Program.World

/-!
Pool lifecycle and Principal custody: creating and configuring the pool, the
pauses and roles, deposits and withdrawals, the sweep, bought and granted
Tickets.
-/

namespace HexVault

open Fallible

structure CreatePoolParams where
  poolId : Nat
  admin : Pubkey
  operator : Pubkey
  epochSeconds : Int
  epochAnchor : Int
  roundSeconds : Int
  closeBuffer : Int
  vrfTimeout : Int
  minDeposit : Nat
  houseCutBps : Nat
  minJackpot : Nat
  registrationWindow : Int
  payoutTimeout : Int
  baseRateBps : Nat
  ticketsPerUsdc : Nat
  bonusCapBps : Nat
  deriving DecidableEq, Repr

structure SetParamsArgs where
  epochSeconds : Option Int
  epochAnchor : Option Int
  roundSeconds : Option Int
  closeBuffer : Option Int
  vrfTimeout : Option Int
  minDeposit : Option Nat
  houseCutBps : Option Nat
  minJackpot : Option Nat
  registrationWindow : Option Int
  payoutTimeout : Option Int
  baseRateBps : Option Nat
  ticketsPerUsdc : Option Nat
  bonusCapBps : Option Nat
  deriving DecidableEq, Repr

/-- The accounts `create_pool` is handed: the address the Pool is created at,
the mint and which program owns it, and the two token accounts it records. -/
structure CreatePoolAccounts where
  pool : Pubkey
  acceptedMint : Pubkey
  mintIsClassic : Bool
  treasury : Pubkey
  treasuryMint : Pubkey
  buybackReserve : Pubkey
  buybackReserveMint : Pubkey
  deriving DecidableEq, Repr

def validateParams (params : CreatePoolParams) : Result Unit := do
  ensure (params.admin ≠ Pubkey.default ∧ params.operator ≠ Pubkey.default) .invalidParameter
  ensure (0 < params.epochSeconds ∧ 0 < params.epochAnchor ∧ 0 < params.roundSeconds ∧
    MIN_VRF_TIMEOUT ≤ params.vrfTimeout) .invalidParameter
  ensure (0 ≤ params.closeBuffer ∧ params.closeBuffer < params.roundSeconds) .invalidParameter
  ensure (params.houseCutBps ≤ BPS_DENOMINATOR) .invalidParameter
  ensure (params.baseRateBps ≤ BPS_DENOMINATOR) .invalidParameter
  ensure (0 < params.ticketsPerUsdc) .invalidParameter
  ensure (params.bonusCapBps ≤ BPS_DENOMINATOR) .invalidParameter
  ensure (0 ≤ params.registrationWindow ∧ params.registrationWindow < params.epochSeconds)
    .invalidParameter
  ensure (MIN_PAYOUT_TIMEOUT ≤ params.payoutTimeout) .invalidParameter

def newPool (params : CreatePoolParams) (accounts : CreatePoolAccounts) : Pool where
  poolId := params.poolId
  admin := params.admin
  operator := params.operator
  pendingAdmin := Pubkey.default
  acceptedMint := accounts.acceptedMint
  treasury := accounts.treasury
  buybackReserve := accounts.buybackReserve
  house := params.operator
  epochSeconds := params.epochSeconds
  epochAnchor := params.epochAnchor
  roundSeconds := params.roundSeconds
  closeBuffer := params.closeBuffer
  vrfTimeout := params.vrfTimeout
  minDeposit := params.minDeposit
  houseCutBps := params.houseCutBps
  minJackpot := params.minJackpot
  registrationWindow := params.registrationWindow
  payoutTimeout := params.payoutTimeout
  pendingWithdrawals := 0
  jackpotReserved := 0
  baseRateBps := params.baseRateBps
  yieldBudget := 0
  ticketsPerUsdc := params.ticketsPerUsdc
  bonusCapBps := params.bonusCapBps
  bonusEpoch := 0
  bonusGranted := 0
  paused := false
  gamePaused := true
  jackpotPaused := true
  currentEpochId := 0
  currentEpochStart := 0
  currentEpochEndsAt := 0
  previousEpochStart := 0
  previousEpochEndsAt := 0
  nextRoundId := 1
  openRoundId := 0
  carryPot := 0
  totalPrincipal := 0
  shutdown := false

/-- The House holds no Principal and starts in epoch 0, like the pool. -/
def newHouse (operator : Pubkey) (now : Int) : Player :=
  { Player.zeroed with owner := operator, lastUpdate := now, isHouse := true }

/-- The pool as `create_pool` leaves it, at the clock it ran at. -/
def createPool (params : CreatePoolParams) (accounts : CreatePoolAccounts) (now : Int) :
    Result World := do
  ensure (accounts.treasuryMint = accounts.acceptedMint) .mintMismatch
  ensure (accounts.buybackReserveMint = accounts.acceptedMint) .mintMismatch
  validateParams params
  ensure (accounts.mintIsClassic = true) .unsupportedMint
  return {
    key := accounts.pool
    pool := newPool params accounts
    players := Finmap.singleton params.operator (newHouse params.operator now)
    epochs := ∅
    rounds := ∅
    positions := ∅
    principalVault := 0
    jackpotVault := 0
    clock := now
    log := [.poolCreated params.poolId params.admin params.operator accounts.acceptedMint] }

/-- One optional parameter: checked against the pool as it stands, then written. -/
def setField {α : Type} (arg : Option α) (valid : Pool → α → Bool) (write : Pool → α → Pool)
    (pool : Pool) : Result Pool :=
  match arg with
  | none => .ok pool
  | some v => do
      ensure (valid pool v = true) .invalidParameter
      return write pool v

def setParams (admin : Signer) (args : SetParamsArgs) (w : World) : Result World := do
  constraint (admin.key = w.pool.admin) .constraintHasOne
  let pool ← setField args.epochSeconds (fun _ v => decide (0 < v))
    (fun pool v => { pool with epochSeconds := v }) w.pool
  let pool ← setField args.epochAnchor (fun _ v => decide (0 < v))
    (fun pool v => { pool with epochAnchor := v }) pool
  let pool ← setField args.roundSeconds (fun _ v => decide (0 < v))
    (fun pool v => { pool with roundSeconds := v }) pool
  let pool ← setField args.closeBuffer (fun pool v => decide (0 ≤ v ∧ v < pool.roundSeconds))
    (fun pool v => { pool with closeBuffer := v }) pool
  let pool ← setField args.vrfTimeout (fun _ v => decide (MIN_VRF_TIMEOUT ≤ v))
    (fun pool v => { pool with vrfTimeout := v }) pool
  let pool ← setField args.minDeposit (fun _ _ => true)
    (fun pool v => { pool with minDeposit := v }) pool
  let pool ← setField args.houseCutBps (fun _ v => decide (v ≤ BPS_DENOMINATOR))
    (fun pool v => { pool with houseCutBps := v }) pool
  let pool ← setField args.minJackpot (fun _ _ => true)
    (fun pool v => { pool with minJackpot := v }) pool
  let pool ← setField args.registrationWindow (fun _ _ => true)
    (fun pool v => { pool with registrationWindow := v }) pool
  let pool ← setField args.payoutTimeout (fun _ v => decide (MIN_PAYOUT_TIMEOUT ≤ v))
    (fun pool v => { pool with payoutTimeout := v }) pool
  let pool ← setField args.baseRateBps (fun _ v => decide (v ≤ BPS_DENOMINATOR))
    (fun pool v => { pool with baseRateBps := v }) pool
  let pool ← setField args.ticketsPerUsdc (fun _ v => decide (0 < v))
    (fun pool v => { pool with ticketsPerUsdc := v }) pool
  let pool ← setField args.bonusCapBps (fun _ v => decide (v ≤ BPS_DENOMINATOR))
    (fun pool v => { pool with bonusCapBps := v }) pool
  ensure (0 ≤ pool.registrationWindow ∧ pool.registrationWindow < pool.epochSeconds)
    .invalidParameter
  ensure (pool.payoutTimeout < pool.epochSeconds) .invalidParameter
  ensure (pool.closeBuffer < pool.roundSeconds) .invalidParameter
  return { w with pool := pool }.emit [.paramsSet pool]

/-- The role rule of both pauses: the admin either way, the operator to pause only. -/
def mayPause (pool : Pool) (signer : Pubkey) (paused : Bool) : Prop :=
  signer = pool.admin ∨ (paused = true ∧ signer = pool.operator)

instance (pool : Pool) (signer : Pubkey) (paused : Bool) :
    Decidable (mayPause pool signer paused) :=
  inferInstanceAs (Decidable (_ ∨ _))

def setPause (signer : Signer) (paused : Bool) (w : World) : Result World := do
  ensure (mayPause w.pool signer.key paused) .unauthorized
  ensure (paused = true ∨ w.pool.shutdown = false) .poolShutDown
  return { w with pool := { w.pool with paused } }.emit [.paused paused]

def setFeaturePause (signer : Signer) (feature : PauseFeature) (paused : Bool) (w : World) :
    Result World := do
  ensure (mayPause w.pool signer.key paused) .unauthorized
  ensure (paused = true ∨ w.pool.shutdown = false) .poolShutDown
  let pool := match feature with
    | .game => { w.pool with gamePaused := paused }
    | .jackpot => { w.pool with jackpotPaused := paused }
  return { w with pool }.emit [.featurePaused feature paused w.clock]

def shutdown (admin : Signer) (w : World) : Result World := do
  constraint (admin.key = w.pool.admin) .constraintHasOne
  ensure (w.pool.shutdown = false) .poolShutDown
  let pool := { w.pool with
    shutdown := true, paused := true, gamePaused := true, jackpotPaused := true }
  return { w with pool }.emit [.poolShutdown w.clock]

def setOperator (admin : Signer) (newOperator : Pubkey) (w : World) : Result World := do
  constraint (admin.key = w.pool.admin) .constraintHasOne
  return { w with pool := { w.pool with operator := newOperator } }.emit
    [.operatorChanged w.pool.operator newOperator]

def proposeAdmin (admin : Signer) (newAdmin : Pubkey) (w : World) : Result World := do
  constraint (admin.key = w.pool.admin) .constraintHasOne
  return { w with pool := { w.pool with pendingAdmin := newAdmin } }.emit
    [.adminProposed newAdmin]

def acceptAdmin (pendingAdmin : Signer) (w : World) : Result World := do
  ensure (w.pool.pendingAdmin ≠ Pubkey.default) .noPendingAdmin
  ensure (pendingAdmin.key = w.pool.pendingAdmin) .unauthorized
  let pool := { w.pool with admin := w.pool.pendingAdmin, pendingAdmin := Pubkey.default }
  return { w with pool }.emit [.adminChanged w.pool.admin pool.admin]

def deposit (owner : Signer) (ownerToken : TokenAccount) (amount : Nat) (w : World) :
    Result World := do
  checkSource w.pool owner ownerToken
  let account := (w.players.lookup owner.key).getD Player.zeroed
  let player ← touch (account.initIfFresh owner.key w.pool w.clock) w.pool w.clock
  ensure (player.isHouse = false) .houseCannotDeposit
  ensure (w.pool.shutdown = false) .poolShutDown
  ensure (w.pool.paused = false) .poolPaused
  ensure (w.pool.minDeposit ≤ amount) .belowMinimumDeposit
  let principalVault ← transferIn ownerToken amount w.principalVault
  let principal ← addU64 player.principal amount
  let entries ← addU64 player.entries amount
  let totalPrincipal ← addU64 w.pool.totalPrincipal amount
  return { w with
    pool := { w.pool with totalPrincipal }
    players := w.players.insert owner.key { player with principal, entries }
    principalVault }.emit [.deposited owner.key amount principal entries]

def requestWithdraw (owner : Signer) (amount : Nat) (w : World) : Result World := do
  let account ← w.player owner.key
  let player ← touch account w.pool w.clock
  ensure (0 < amount) .zeroAmount
  ensure (amount ≤ player.principal) .insufficientPrincipal
  let principal ← subU player.principal amount
  let totalPrincipal ← subU w.pool.totalPrincipal amount
  let pendingWithdraw ← addU64 player.pendingWithdraw amount
  let pendingWithdrawals ← addU64 w.pool.pendingWithdrawals amount
  -- `saturating_sub`: a withdrawal is never refused for Tickets lost in rounds.
  let player := { player with
    principal
    entries := player.entries - amount
    pendingWithdraw
    pendingEpoch := w.pool.currentEpochId
    requestedAt := w.clock }
  return { w with
    pool := { w.pool with totalPrincipal, pendingWithdrawals }
    players := w.players.insert owner.key player }.emit
      [.withdrawRequested owner.key amount pendingWithdraw w.pool.currentEpochId]

def processWithdraw (owner : Pubkey) (ownerToken : TokenAccount) (w : World) :
    Result World := do
  let player ← w.player owner
  checkDestination w.pool player.owner ownerToken
  ensure (0 < player.pendingWithdraw) .nothingPending
  let deadline ← addI64 player.requestedAt w.pool.epochSeconds
  ensure (w.pool.shutdown = true ∨ player.pendingEpoch < w.pool.currentEpochId ∨
    deadline < w.clock) .withdrawalNotDue
  ensure (player.pendingWithdraw ≤ w.principalVault) .insufficientVaultLiquidity
  let principalVault ← transferOut player.pendingWithdraw w.principalVault
  let pendingWithdrawals ← subU w.pool.pendingWithdrawals player.pendingWithdraw
  return { w with
    pool := { w.pool with pendingWithdrawals }
    players := w.players.insert owner { player with pendingWithdraw := 0 }
    principalVault }.emit
      [.withdrawn player.owner player.pendingWithdraw player.principal player.entries]

def adminWithdraw (admin : Signer) (amount : Nat) (w : World) : Result World := do
  constraint (admin.key = w.pool.admin) .constraintHasOne
  ensure (0 < amount) .zeroAmount
  let remaining ← checkedSub (.vault .insufficientVaultLiquidity) w.principalVault amount
  ensure (w.pool.pendingWithdrawals ≤ remaining) .belowPendingWithdrawals
  let principalVault ← transferOut amount w.principalVault
  return { w with principalVault }.emit [.principalDeployed amount remaining]

def emergencyWithdraw (owner : Pubkey) (ownerToken : TokenAccount) (w : World) :
    Result World := do
  let account ← w.player owner
  checkDestination w.pool account.owner ownerToken
  let player ← touch account w.pool w.clock
  ensure (w.pool.shutdown = true) .poolNotShutDown
  ensure (player.isHouse = false) .houseCannotEmergencyWithdraw
  let total ← addU64 player.principal player.pendingWithdraw
  ensure (0 < total) .zeroAmount
  ensure (total ≤ w.principalVault) .insufficientVault
  let totalPrincipal ← subU w.pool.totalPrincipal player.principal
  let pendingWithdrawals ← subU w.pool.pendingWithdrawals player.pendingWithdraw
  let principalVault ← transferOut total w.principalVault
  return { w with
    pool := { w.pool with totalPrincipal, pendingWithdrawals }
    players := w.players.insert owner
      { player with principal := 0, entries := 0, pendingWithdraw := 0 }
    principalVault }.emit
      [.emergencyWithdrawn player.owner player.principal player.pendingWithdraw total]

def sweepHouse (admin : Signer) (w : World) : Result World := do
  constraint (admin.key = w.pool.admin) .constraintHasOne
  ensure (w.pool.shutdown = true) .poolNotShutDown
  let jackpot := w.jackpotVault - w.pool.jackpotReserved
  let surplus := w.principalVault - w.pool.totalPrincipal - w.pool.pendingWithdrawals
  let yieldSwept := min w.pool.yieldBudget surplus
  let yieldBudget ← subU w.pool.yieldBudget yieldSwept
  let jackpotVault ← transferOut jackpot w.jackpotVault
  let principalVault ← transferOut yieldSwept w.principalVault
  return { w with pool := { w.pool with yieldBudget }, jackpotVault, principalVault }.emit
    [.houseSwept jackpot yieldSwept]

/-- A per-epoch counter after `amount` more: what was counted for an earlier
epoch is forgotten, and the new figure must stay within `cap`. -/
def countedAfter (countedEpoch counted currentEpochId cap amount : Nat) (err : HexVaultError) :
    Result Nat := do
  let base := if countedEpoch = currentEpochId then counted else 0
  let total ← addU64 base amount
  ensure (total ≤ cap) err
  return total

def boughtAmountAfter (boughtEpoch boughtAmount currentEpochId principal amount : Nat) :
    Result Nat :=
  countedAfter boughtEpoch boughtAmount currentEpochId principal amount .dailyBuyCapExceeded

def bonusAfter (bonusEpoch bonusGranted currentEpochId cap amount : Nat)
    (err : HexVaultError) : Result Nat :=
  countedAfter bonusEpoch bonusGranted currentEpochId cap amount err

def poolBonusCap (totalPrincipal bonusCapBps : Nat) : Result Nat := do
  let scaled ← mulU128 totalPrincipal bonusCapBps
  narrowU64 (scaled / BPS_DENOMINATOR)

def buyTickets (owner : Signer) (ownerToken : TokenAccount) (amount : Nat) (w : World) :
    Result World := do
  checkSource w.pool owner ownerToken
  let account ← w.player owner.key
  let player ← touch account w.pool w.clock
  ensure (w.pool.shutdown = false) .poolShutDown
  ensure (w.pool.paused = false) .poolPaused
  ensure (0 < w.pool.currentEpochId) .noEpochYet
  ensure (w.pool.jackpotPaused = false) .jackpotPaused
  ensure (0 < amount) .zeroAmount
  ensure (player.isHouse = false) .houseCannotBuyTickets
  let boughtAmount ← boughtAmountAfter player.boughtEpoch player.boughtAmount
    w.pool.currentEpochId player.principal amount
  let jackpotVault ← transferIn ownerToken amount w.jackpotVault
  let tickets ← mulU64 amount w.pool.ticketsPerUsdc
  let entries ← addU64 player.entries tickets
  let player := { player with boughtEpoch := w.pool.currentEpochId, boughtAmount, entries }
  return { w with players := w.players.insert owner.key player, jackpotVault }.emit
    [.ticketsBought player.owner w.pool.currentEpochId amount tickets]

/-- The operator's two caps: the Player's counter, then the pool's. -/
def operatorGrant (player : Player) (pool : Pool) (amount : Nat) : Result (Player × Pool) := do
  ensure (player.isHouse = false) .houseCannotBeGranted
  let playerBonus ← bonusAfter player.bonusEpoch player.bonusGranted pool.currentEpochId
    player.principal amount .dailyPlayerGrantCapExceeded
  let poolCap ← poolBonusCap pool.totalPrincipal pool.bonusCapBps
  let poolBonus ← bonusAfter pool.bonusEpoch pool.bonusGranted pool.currentEpochId
    poolCap amount .dailyPoolGrantCapExceeded
  return ({ player with bonusEpoch := pool.currentEpochId, bonusGranted := playerBonus },
    { pool with bonusEpoch := pool.currentEpochId, bonusGranted := poolBonus })

/-- The admin's grants count against neither cap. -/
def countGrant (byAdmin : Bool) (player : Player) (pool : Pool) (amount : Nat) :
    Result (Player × Pool) :=
  if byAdmin then .ok (player, pool) else operatorGrant player pool amount

def grantTickets (signer : Signer) (owner : Pubkey) (amount : Nat) (w : World) :
    Result World := do
  let account ← w.player owner
  let byAdmin := decide (signer.key = w.pool.admin)
  ensure (byAdmin = true ∨ signer.key = w.pool.operator) .unauthorized
  let player ← touch account w.pool w.clock
  ensure (w.pool.shutdown = false) .poolShutDown
  ensure (w.pool.paused = false) .poolPaused
  ensure (w.pool.jackpotPaused = false) .jackpotPaused
  ensure (0 < amount) .zeroAmount
  let counted ← countGrant byAdmin player w.pool amount
  let entries ← addU64 counted.1.entries amount
  return { w with
    pool := counted.2
    players := w.players.insert owner { counted.1 with entries } }.emit
      [.ticketsGranted player.owner w.pool.currentEpochId amount byAdmin]

end HexVault
