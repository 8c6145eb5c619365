import HexVault.Lib.Memo
import HexVault.Program.State

/-!
One tick of the operator: the steps of `decide` in their order, at most one of
which acts. What a tick reads comes in its context, and so does the answer each
transaction it sends would get; what it leaves behind it carries from step to
step.
-/

namespace HexVault

namespace Operator

def BATCH_SIZE : Nat := 8
def REVEAL_SECONDS : Int := 1
def WITHDRAW_BATCH_SIZE : Nat := 4
def SHORT_VAULT : String := "InsufficientVaultLiquidity"

def UNPAYABLE_WINNER : List String := ["AccountNotInitialized", "ConstraintTokenMint",
  "ConstraintTokenOwner", "AccountFrozen", "custom program error: 0x11"]

def GRANT_CAP_EXCEEDED : List String :=
  ["DailyPlayerGrantCapExceeded", "DailyPoolGrantCapExceeded"]

def WITHDRAW_FAILURE_LIMIT : Nat := 3
def EXPECTED_ERROR_REPEAT_LIMIT : Nat := 3
def DRAWN_UNPAID_ALERT_SECONDS : Int := 300
def NO_PROGRESS_SLACK_SECONDS : Int := 300
def SETTLED_MEMORY_MS : Int := 5 * 60000
def REGISTERED_MEMORY_MS : Int := 24 * 60 * 60000

def EXPECTED_ERRORS : List String := ["AccountNotInitialized", "AlreadyRegistered",
  "EpochNotDrawing", "EpochNotDrawn", "EpochNotEnded", "EpochNotRegistering", "NothingPending",
  "NotPreviousEpoch", "PoolShutDown", "RandomnessAlreadyFulfilled", "RandomnessNotFulfilled",
  "RoundAlreadyOpen", "RoundNotEnded", "RoundNotOpen", "RoundNotRequested", "RoundNotSettled",
  "VrfTimeoutNotElapsed", "WithdrawalNotDue"]

/-- JavaScript's `includes`, of a marker that is not empty. -/
def includes (text marker : String) : Bool := 1 < (text.splitOn marker).length

def cannotPayWinner (message : String) : Bool := UNPAYABLE_WINNER.any (includes message)

def capExceeded (message : String) : Bool := GRANT_CAP_EXCEEDED.any (includes message)

structure UnsettledPosition where
  address : Pubkey
  owner : Pubkey
  roundId : Nat
  deriving DecidableEq, Repr

structure Grant where
  referrer : Pubkey
  amount : Nat
  deriving DecidableEq, Repr

structure DueWithdrawal where
  owner : Pubkey
  amount : Nat
  deriving DecidableEq, Repr

/-- The transactions a tick may send. -/
inductive Send where
  | voidRound (roundId : Nat)
  | requestRoundRandomness (roundId : Nat)
  | settleRound (roundId : Nat)
  | settlePositions (roundId : Nat) (batch : List UnsettledPosition)
  | closeRound (roundId : Nat)
  | beginEpoch
  | grantTickets (grants : List Grant)
  | register (epochId : Nat) (owners : List Pubkey)
  | closeRegistration (epochId : Nat)
  | draw (epochId : Nat)
  | rolloverEpoch (epochId : Nat)
  | payout (epochId : Nat) (winner : Pubkey)
  | processWithdrawals (batch : List DueWithdrawal)
  | createRound (startsAt endsAt : Int)
  deriving DecidableEq, Repr

/-- The action a tick reports. -/
inductive TickAction where
  | voidRound | requestRoundRandomness | settleRound | settlePosition | closeRound | beginEpoch
  | grantTickets | register | closeRegistration | draw | rolloverEpoch | payout
  | processWithdraw | createRound
  deriving DecidableEq, Repr

structure RegisterCheck where
  epochId : Nat
  empty : Bool
  deriving DecidableEq, Repr

structure WithdrawState where
  epochId : Nat
  singleMode : Bool
  failures : Pubkey → Option Nat
  skipped : Pubkey → Bool

def EMPTY_WITHDRAW_STATE (epochId : Nat) : WithdrawState where
  epochId := epochId
  singleMode := false
  failures := fun _ => none
  skipped := fun _ => false

structure IndexerCursor where
  ageSeconds : Option Int
  updatedAt : Option Int
  deriving DecidableEq, Repr

structure TickContext where
  now : Int
  pool : Pool
  currentEpoch : Option Epoch
  previousEpoch : Option Epoch
  openRound : Option Round
  lastRound : Option Round
  lastRegisterCheck : Option RegisterCheck
  lastWithdrawState : Option WithdrawState
  indexerCursor : IndexerCursor
  indexerFreshThresholdSeconds : Int
  lastExpectedErrors : String → Option Nat
  launchAt : Option Int
  fulfilled : Bytes → Bool
  principalVaultBalance : Nat
  duePendingWithdrawals : Nat → List DueWithdrawal
  playersToRegister : Nat → List Pubkey
  referralGrantsDue : Nat → List Grant
  unsettledPositions : List UnsettledPosition
  roundsToClose : List Nat
  winner : Nat → Nat → Option Pubkey
  winnerOnChain : Nat → Nat → Option Pubkey
  /-- The address of the House's account, which is what `pool.house` holds. -/
  houseAddress : Pubkey
  /-- How a transaction fares: confirmed, or the message it fails with. -/
  send : Send → Except String Unit
  /-- The wall clock once a transaction has been answered. -/
  wallNow : Send → Int

/-- What a tick has done so far: the bookkeeping of `decide`, the memories its
steps tell, and the transactions it asked for and got confirmed. -/
structure Tick where
  stepError : Option String
  expectedErrors : String → Option Nat
  expectedErrorsChanged : Bool
  withdrawState : Option WithdrawState
  withdrawShortfall : Nat
  settled : Memo Pubkey
  closingRounds : Memo Nat
  registeredRecently : Memo Pubkey
  asked : List Send
  confirmed : List Send

structure Decision where
  action : Option TickAction
  progress : Option (Nat × Nat) := none
  registerCheck : Option RegisterCheck := none
  withdrawShortfall : Option Nat := none
  withdrawState : Option WithdrawState := none
  stepError : Option String := none
  expectedErrors : Option (String → Option Nat) := none
  indexerStale : Option Bool := none
  epochNoProgress : Bool := false
  drawnUnpaid : Bool := false

/-- Where a step leaves the tick: decided, on to the next step, or failed. -/
inductive Outcome where
  | finished (decision : Decision) (tick : Tick)
  | next (tick : Tick)
  | threw (message : String) (tick : Tick)

def Outcome.tick : Outcome → Tick
  | finished _ tick | next tick | threw _ tick => tick

def Outcome.andThen (outcome : Outcome) (step : Tick → Outcome) : Outcome :=
  match outcome with
  | next tick => step tick
  | _ => outcome

def Tick.ask (tick : Tick) (s : Send) : Tick := { tick with asked := tick.asked ++ [s] }

def Tick.confirm (tick : Tick) (s : Send) : Tick :=
  { tick with asked := tick.asked ++ [s], confirmed := tick.confirmed ++ [s] }

def epochNoProgress (pool : Pool) (epoch : Option Epoch) (now : Int) : Bool :=
  epoch.any fun epoch => epoch.status ≠ .paid && epoch.status ≠ .rolledOver &&
    epoch.endsAt + pool.registrationWindow + pool.vrfTimeout + NO_PROGRESS_SLACK_SECONDS < now

def epochDrawnUnpaid (epoch : Option Epoch) (now : Int) : Bool :=
  epoch.any fun epoch => epoch.status = .drawn &&
    epoch.drawnAt + DRAWN_UNPAID_ALERT_SECONDS < now

def registrationClosesAt (pool : Pool) (epoch : Epoch) : Int :=
  (if epoch.endsAt < epoch.registrationOpenedAt then epoch.registrationOpenedAt
    else epoch.endsAt) + pool.registrationWindow

def indexerFreshForClose (cursor : IndexerCursor) (thresholdSeconds : Int) (epoch : Epoch) :
    Bool :=
  match cursor.ageSeconds, cursor.updatedAt with
  | some ageSeconds, some updatedAt => ageSeconds ≤ thresholdSeconds && epoch.endsAt ≤ updatedAt
  | _, _ => false

namespace TickContext
variable (ctx : TickContext)

def finish (tick : Tick) (decision : Decision) : Outcome :=
  .finished { decision with
    epochNoProgress := epochNoProgress ctx.pool ctx.previousEpoch ctx.now
    drawnUnpaid := epochDrawnUnpaid ctx.previousEpoch ctx.now
    stepError := tick.stepError
    expectedErrors := if tick.expectedErrorsChanged then some tick.expectedErrors else none
    withdrawState := tick.withdrawState } tick

/-- A send whose failure ends the tick. -/
def sending (tick : Tick) (s : Send) (confirmed : Tick → Outcome) : Outcome :=
  match ctx.send s with
  | .ok () => confirmed (tick.confirm s)
  | .error message => .threw message (tick.ask s)

def act (tick : Tick) (s : Send) (action : TickAction) : Outcome :=
  ctx.sending tick s fun tick => ctx.finish tick { action := some action }

/-- A send that may lose a race: an account already gone is as good as done, an
expected error is counted, and any other failure is kept for the end. -/
def attempt (tick : Tick) (key : String) (s : Send) (gone : Tick → Tick) : Bool × Tick :=
  match ctx.send s with
  | .ok () =>
      let tick := gone (tick.confirm s)
      if (tick.expectedErrors key).isSome then (true, { tick with
        expectedErrors := Function.update tick.expectedErrors key none
        expectedErrorsChanged := true })
      else (true, tick)
  | .error message =>
      let tick := tick.ask s
      if message = "AccountNotInitialized" then (true, gone tick)
      else if message ∈ EXPECTED_ERRORS then
        let count := (tick.expectedErrors key).getD 0 + 1
        let stepError := if EXPECTED_ERROR_REPEAT_LIMIT ≤ count then
          tick.stepError.or (some s!"{key} failed {count} times in a row: {message}")
          else tick.stepError
        (false, { tick with
          stepError
          expectedErrors := Function.update tick.expectedErrors key (some count)
          expectedErrorsChanged := true })
      else (false, { tick with
        stepError := tick.stepError.or (some s!"{key} failed: {message}") })

def roundStep (tick : Tick) : Outcome :=
  match ctx.openRound with
  | none => .next tick
  | some round =>
      if round.status = .open ∧ round.endsAt + ctx.pool.vrfTimeout < ctx.now then
        ctx.act tick (.voidRound round.roundId) .voidRound
      else if round.status = .open ∧ round.endsAt - ctx.pool.closeBuffer ≤ ctx.now then
        ctx.act tick (.requestRoundRandomness round.roundId) .requestRoundRandomness
      else if round.status = .requested ∧ ctx.fulfilled round.vrfSeed = true then
        ctx.act tick (.settleRound round.roundId) .settleRound
      else if round.status = .requested ∧ round.requestedAt + ctx.pool.vrfTimeout < ctx.now then
        ctx.act tick (.voidRound round.roundId) .voidRound
      else .next tick

/-- One batch of Positions left on one finished round. -/
def sweepStep (tick : Tick) : Outcome :=
  match ctx.unsettledPositions with
  | [] => .next tick
  | firstUnsettled :: _ =>
      let roundId := firstUnsettled.roundId
      let batch := (ctx.unsettledPositions.filter (·.roundId = roundId)).take BATCH_SIZE
      let s := Send.settlePositions roundId batch
      let (sent, tick) := ctx.attempt tick s!"settle_position:{roundId}" s fun tick =>
        { tick with settled :=
          tick.settled.remember SETTLED_MEMORY_MS (ctx.wallNow s) (batch.map (·.address)) }
      if sent then ctx.finish tick { action := some .settlePosition } else .next tick

def closeRoundStep (tick : Tick) : Outcome :=
  match ctx.roundsToClose with
  | [] => .next tick
  | roundToClose :: _ =>
      let s := Send.closeRound roundToClose
      let (sent, tick) := ctx.attempt tick s!"close_round:{roundToClose}" s fun tick =>
        { tick with closingRounds :=
          tick.closingRounds.remember SETTLED_MEMORY_MS (ctx.wallNow s) [roundToClose] }
      if sent then ctx.finish tick { action := some .closeRound } else .next tick

/-- What both of them do: a try at the first of what is left, and the tick goes on where it failed. -/
def tryFirst {α : Type} (tick : Tick) (left : List α) (key : α → String) (s : α → Send)
    (gone : α → Tick → Tick) (action : TickAction) : Outcome :=
  match left with
  | [] => .next tick
  | first :: _ =>
      let (sent, tick) := ctx.attempt tick (key first) (s first) (gone first)
      if sent then ctx.finish tick { action := some action } else .next tick

def sweepBatch (first : UnsettledPosition) : List UnsettledPosition :=
  (ctx.unsettledPositions.filter (·.roundId = first.roundId)).take BATCH_SIZE

theorem sweepStep_eq (tick : Tick) : ctx.sweepStep tick = ctx.tryFirst tick ctx.unsettledPositions
    (fun first => s!"settle_position:{first.roundId}")
    (fun first => .settlePositions first.roundId (ctx.sweepBatch first))
    (fun first tick => { tick with
      settled := tick.settled.remember SETTLED_MEMORY_MS
        (ctx.wallNow (.settlePositions first.roundId (ctx.sweepBatch first)))
        ((ctx.sweepBatch first).map (·.address)) }) .settlePosition := by
  rw [sweepStep, tryFirst.eq_def]
  cases left : ctx.unsettledPositions with
  | nil => rfl
  | cons first rest => simp only [sweepBatch, left]

theorem closeRoundStep_eq (tick : Tick) : ctx.closeRoundStep tick =
    ctx.tryFirst tick ctx.roundsToClose (fun roundToClose => s!"close_round:{roundToClose}")
      .closeRound (fun roundToClose tick => { tick with
        closingRounds := tick.closingRounds.remember SETTLED_MEMORY_MS
          (ctx.wallNow (.closeRound roundToClose)) [roundToClose] }) .closeRound := by
  rw [closeRoundStep]
  cases ctx.roundsToClose <;> rfl

def beginEpochStep (tick : Tick) : Outcome :=
  let launchReady := ctx.launchAt.all fun launchAt => launchAt ≤ ctx.now
  let epochEnded := (ctx.pool.currentEpochId = 0 && launchReady) ||
    ctx.currentEpoch.any fun epoch => epoch.endsAt ≤ ctx.now
  let previousDone := ctx.previousEpoch.all fun epoch =>
    epoch.status = .paid || epoch.status = .rolledOver
  if ctx.pool.shutdown = false ∧ ctx.pool.jackpotPaused = false ∧ epochEnded = true ∧
      ctx.pool.openRoundId = 0 ∧ previousDone = true then
    ctx.act tick .beginEpoch .beginEpoch
  else .next tick

def grantTicketsStep (tick : Tick) : Outcome :=
  match ctx.currentEpoch with
  | none => .next tick
  | some epoch =>
      let grants := ctx.referralGrantsDue epoch.epochId
      if ctx.pool.shutdown = false ∧ ctx.pool.jackpotPaused = false ∧ grants ≠ [] then
        let s := Send.grantTickets (grants.take BATCH_SIZE)
        match ctx.send s with
        | .ok () => ctx.finish (tick.confirm s) { action := some .grantTickets }
        | .error message =>
            if capExceeded message then .next (tick.ask s) else .threw message (tick.ask s)
      else .next tick

def registerStep (tick : Tick) : Outcome :=
  match ctx.previousEpoch with
  | none => .next tick
  | some epoch =>
      let owners := ctx.playersToRegister epoch.epochId
      if ctx.pool.shutdown = false ∧ epoch.status = .registering ∧ owners ≠ [] then
        let batch := owners.take BATCH_SIZE
        let s := Send.register epoch.epochId batch
        ctx.sending tick s fun tick =>
          ctx.finish { tick with registeredRecently :=
            tick.registeredRecently.remember REGISTERED_MEMORY_MS (ctx.wallNow s) batch } {
              action := some .register
              progress := some (epoch.registeredCount, epoch.registeredCount + owners.length)
              registerCheck := some { epochId := epoch.epochId, empty := false } }
      else .next tick

/-- Closes once the list came back empty on two ticks, the window is over and the
mirror has caught up. -/
def closeRegistrationStep (tick : Tick) : Outcome :=
  match ctx.previousEpoch with
  | none => .next tick
  | some epoch =>
      if ctx.pool.shutdown = false ∧ ctx.pool.jackpotPaused = false ∧
          epoch.status = .registering then
        let registerCheck := some { epochId := epoch.epochId, empty := true }
        if ctx.lastRegisterCheck ≠ registerCheck then
          ctx.finish tick { action := none, registerCheck }
        else if ctx.now < registrationClosesAt ctx.pool epoch then
          ctx.finish tick { action := none, registerCheck }
        else if indexerFreshForClose ctx.indexerCursor ctx.indexerFreshThresholdSeconds epoch =
            false then
          ctx.finish tick { action := none, registerCheck, indexerStale := some true }
        else
          ctx.sending tick (.closeRegistration epoch.epochId) fun tick =>
            ctx.finish tick { action := some .closeRegistration, indexerStale := some false }
      else .next tick

def drawStep (tick : Tick) : Outcome :=
  match ctx.previousEpoch with
  | none => .next tick
  | some epoch =>
      if epoch.status = .drawing ∧ ctx.pool.shutdown = false ∧
          ctx.fulfilled epoch.vrfSeed = true then
        ctx.act tick (.draw epoch.epochId) .draw
      else if epoch.status = .drawing ∧ epoch.requestedAt + ctx.pool.vrfTimeout < ctx.now then
        ctx.act tick (.rolloverEpoch epoch.epochId) .rolloverEpoch
      else .next tick

def rolloverUnpaid (epoch : Epoch) (timedOut : Bool) (tick : Tick) : Outcome :=
  if timedOut then ctx.act tick (.rolloverEpoch epoch.epochId) .rolloverEpoch else .next tick

def payoutStep (tick : Tick) : Outcome :=
  match ctx.previousEpoch with
  | none => .next tick
  | some epoch =>
      if epoch.status = .drawn then
        let winner := (ctx.winner epoch.epochId epoch.target).or
          (ctx.winnerOnChain epoch.epochId epoch.target)
        -- An owner against the address of an account.
        let isHouse := winner = some ctx.houseAddress
        let alertHasFired := epoch.drawnAt + DRAWN_UNPAID_ALERT_SECONDS < ctx.now
        let timedOut := epoch.drawnAt + ctx.pool.payoutTimeout < ctx.now ∧
          (isHouse ∨ alertHasFired)
        match winner with
        | none => ctx.rolloverUnpaid epoch timedOut tick
        | some owner =>
            let s := Send.payout epoch.epochId owner
            match ctx.send s with
            | .ok () => ctx.finish (tick.confirm s) { action := some .payout }
            | .error message =>
                if cannotPayWinner message then ctx.rolloverUnpaid epoch timedOut (tick.ask s)
                else .threw message (tick.ask s)
      else .next tick

/-- The bookkeeping of a batch of withdrawals that did not land. -/
def withdrawFailed (state : WithdrawState) (batch : List DueWithdrawal) (message : String)
    (tick : Tick) : Tick :=
  if message = SHORT_VAULT then
    let owed := (batch.map (·.amount)).sum
    { tick with
      withdrawShortfall := owed - ctx.principalVaultBalance
      withdrawState := some state }
  else if state.singleMode = false then
    { tick with
      withdrawState := some { state with singleMode := true }
      stepError := tick.stepError.or
        (some s!"withdrawal batch failed, retrying one at a time: {message}") }
  else match batch with
  | [] => tick
  | entry :: _ =>
      let owner := entry.owner
      let name := owner.val
      let count := (state.failures owner).getD 0 + 1
      let state := if WITHDRAW_FAILURE_LIMIT ≤ count then
        { state with
          failures := Function.update state.failures owner none
          skipped := Function.update state.skipped owner true }
        else { state with failures := Function.update state.failures owner (some count) }
      { tick with
        withdrawState := some { state with singleMode := true }
        stepError := tick.stepError.or (some s!"withdrawal to {name} failed: {message}") }

/-- What is remembered of withdrawals, if it is of the current epoch. -/
def withdrawStateIn : WithdrawState :=
  match ctx.lastWithdrawState with
  | some state =>
      if state.epochId = ctx.pool.currentEpochId then state
      else EMPTY_WITHDRAW_STATE ctx.pool.currentEpochId
  | none => EMPTY_WITHDRAW_STATE ctx.pool.currentEpochId

def withdrawStep (tick : Tick) : Outcome :=
  let state := ctx.withdrawStateIn
  let due := (ctx.duePendingWithdrawals ctx.pool.currentEpochId).filter fun entry =>
    !state.skipped entry.owner
  if due = [] then .next { tick with withdrawState := some state }
  else
    let batch := due.take (if state.singleMode then 1 else WITHDRAW_BATCH_SIZE)
    let s := Send.processWithdrawals batch
    match ctx.send s with
    | .ok () =>
        ctx.finish { tick.confirm s with withdrawState := some { state with
          singleMode := state.singleMode && decide (batch.length < due.length)
          failures := fun owner =>
            if batch.any (·.owner = owner) then none else state.failures owner } }
          { action := some .processWithdraw, withdrawShortfall := some 0 }
    | .error message => .next (ctx.withdrawFailed state batch message (tick.ask s))

def createRoundStep (tick : Tick) : Outcome :=
  let revealDone := ctx.lastRound.all fun round =>
    round.status = .voided || round.endsAt + REVEAL_SECONDS ≤ ctx.now
  let fits := ctx.currentEpoch.any fun epoch => ctx.now + ctx.pool.roundSeconds ≤ epoch.endsAt
  if ctx.pool.openRoundId = 0 ∧ ctx.pool.paused = false ∧ ctx.pool.gamePaused = false ∧
      fits = true ∧ revealDone = true then
    ctx.sending tick (.createRound ctx.now (ctx.now + ctx.pool.roundSeconds)) fun tick =>
      ctx.finish tick {
        action := some .createRound, withdrawShortfall := some tick.withdrawShortfall }
  else ctx.finish tick { action := none, withdrawShortfall := some tick.withdrawShortfall }

def decide (tick : Tick) : Outcome :=
  (ctx.roundStep tick).andThen fun tick =>
  (ctx.sweepStep tick).andThen fun tick =>
  (ctx.closeRoundStep tick).andThen fun tick =>
  (ctx.beginEpochStep tick).andThen fun tick =>
  (ctx.grantTicketsStep tick).andThen fun tick =>
  (ctx.registerStep tick).andThen fun tick =>
  (ctx.closeRegistrationStep tick).andThen fun tick =>
  (ctx.drawStep tick).andThen fun tick =>
  (ctx.payoutStep tick).andThen fun tick =>
  (ctx.withdrawStep tick).andThen ctx.createRoundStep

end TickContext

end Operator

end HexVault
