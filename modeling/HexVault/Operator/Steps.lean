import HexVault.Operator.Service

/-!
The steps of a tick one by one, for those who reason about many ticks: what the steps
before the withdrawals need to do nothing, and what the withdrawals and the step after
them leave behind in each case.
-/

namespace HexVault

namespace Operator

namespace TickContext
variable (ctx : TickContext)

/-- The steps that come before the withdrawals. -/
def earlierSteps (tick : Tick) : Outcome :=
  (ctx.roundStep tick).andThen fun tick =>
  (ctx.sweepStep tick).andThen fun tick =>
  (ctx.closeRoundStep tick).andThen fun tick =>
  (ctx.beginEpochStep tick).andThen fun tick =>
  (ctx.grantTicketsStep tick).andThen fun tick =>
  (ctx.registerStep tick).andThen fun tick =>
  (ctx.closeRegistrationStep tick).andThen fun tick =>
  (ctx.drawStep tick).andThen ctx.payoutStep

/-- The due withdrawals of the owners not skipped, in the order the query listed them. -/
def dueWithdrawals : List DueWithdrawal :=
  (ctx.duePendingWithdrawals ctx.pool.currentEpochId).filter fun entry =>
    !ctx.withdrawStateIn.skipped entry.owner

def withdrawBatch : List DueWithdrawal :=
  ctx.dueWithdrawals.take (if ctx.withdrawStateIn.singleMode then 1 else WITHDRAW_BATCH_SIZE)

/-- The guard of the last step: a whole round fits, and nothing holds the round loop. -/
def roundDue : Prop :=
  ctx.pool.openRoundId = 0 ∧ ctx.pool.paused = false ∧ ctx.pool.gamePaused = false ∧
    (ctx.currentEpoch.any fun epoch => ctx.now + ctx.pool.roundSeconds ≤ epoch.endsAt) = true ∧
    (ctx.lastRound.all fun round =>
      round.status = .voided || round.endsAt + REVEAL_SECONDS ≤ ctx.now) = true

/-- The round a tick opens: from now on. -/
def nextRound : Send := .createRound ctx.now (ctx.now + ctx.pool.roundSeconds)

end TickContext

/-- The state after a batch has been paid. -/
def WithdrawState.sent (state : WithdrawState) (batch due : List DueWithdrawal) :
    WithdrawState :=
  { state with
    singleMode := state.singleMode && decide (batch.length < due.length)
    failures := fun owner =>
      if batch.any (·.owner = owner) then none else state.failures owner }

/-- The state after an owner's own send has failed. -/
def WithdrawState.failed (state : WithdrawState) (owner : Pubkey) : WithdrawState :=
  let count := (state.failures owner).getD 0 + 1
  { (if WITHDRAW_FAILURE_LIMIT ≤ count then
      { state with
        failures := Function.update state.failures owner none
        skipped := Function.update state.skipped owner true }
      else { state with failures := Function.update state.failures owner (some count) }) with
    singleMode := true }

section Step
variable {ctx : TickContext} {tick : Tick} {message : String}

theorem andThen_assoc (outcome : Outcome) (f g : Tick → Outcome) :
    (outcome.andThen f).andThen g = outcome.andThen fun tick => (f tick).andThen g := by
  cases outcome with
  | next tick => rfl
  | finished d tick => rfl
  | threw message tick => rfl

theorem decide_eq_earlier (ctx : TickContext) (tick : Tick) :
    ctx.decide tick = (ctx.earlierSteps tick).andThen fun tick =>
      (ctx.withdrawStep tick).andThen ctx.createRoundStep := by
  simp only [TickContext.decide, TickContext.earlierSteps, andThen_assoc]

theorem withdrawStep_eq (ctx : TickContext) (tick : Tick) : ctx.withdrawStep tick =
    if ctx.dueWithdrawals = [] then .next { tick with withdrawState := some ctx.withdrawStateIn }
    else match ctx.send (.processWithdrawals ctx.withdrawBatch) with
    | .ok () => ctx.finish { tick.confirm (.processWithdrawals ctx.withdrawBatch) with
        withdrawState := some (ctx.withdrawStateIn.sent ctx.withdrawBatch ctx.dueWithdrawals) }
        { action := some .processWithdraw, withdrawShortfall := some 0 }
    | .error message => .next (ctx.withdrawFailed ctx.withdrawStateIn ctx.withdrawBatch message
        (tick.ask (.processWithdrawals ctx.withdrawBatch))) := rfl

theorem withdrawStep_nobody (h : ctx.dueWithdrawals = []) :
    ctx.withdrawStep tick = .next { tick with withdrawState := some ctx.withdrawStateIn } := by
  rw [withdrawStep_eq, if_pos h]

theorem withdrawStep_sent (tick : Tick) (h : ctx.dueWithdrawals ≠ [])
    (hs : ctx.send (.processWithdrawals ctx.withdrawBatch) = .ok ()) :
    ctx.withdrawStep tick = ctx.finish
      { tick.confirm (.processWithdrawals ctx.withdrawBatch) with
        withdrawState := some (ctx.withdrawStateIn.sent ctx.withdrawBatch ctx.dueWithdrawals) }
      { action := some .processWithdraw, withdrawShortfall := some 0 } := by
  rw [withdrawStep_eq, if_neg h, hs]

theorem withdrawStep_failed (tick : Tick) (h : ctx.dueWithdrawals ≠ [])
    (hs : ctx.send (.processWithdrawals ctx.withdrawBatch) = .error message) :
    ctx.withdrawStep tick = .next (ctx.withdrawFailed ctx.withdrawStateIn ctx.withdrawBatch
      message (tick.ask (.processWithdrawals ctx.withdrawBatch))) := by
  rw [withdrawStep_eq, if_neg h, hs]

/-- The last step keeps what the tick found out about withdrawals, unless it throws. -/
theorem createRoundStep_cases (ctx : TickContext) (tick : Tick) :
    (∃ d after, ctx.createRoundStep tick = .finished d after ∧
      d.withdrawState = tick.withdrawState ∧
      ∀ s ∈ after.confirmed, s ∈ tick.confirmed ∨ s = ctx.nextRound) ∨
    (ctx.roundDue ∧ ∃ message, ctx.send ctx.nextRound = .error message ∧
      ctx.createRoundStep tick = .threw message (tick.ask ctx.nextRound)) := by
  rw [TickContext.createRoundStep]
  split
  · rename_i due
    rw [TickContext.sending]
    split
    · refine .inl ⟨_, _, rfl, rfl, ?_⟩
      intro s hs
      cases List.mem_append.mp hs with
      | inl before => exact .inl before
      | inr new => exact .inr (List.mem_singleton.mp new)
    · rename_i message failed
      exact .inr ⟨due, message, failed, rfl⟩
  · exact .inl ⟨_, _, rfl, rfl, fun s hs => .inl hs⟩

theorem createRoundStep_throws (due : ctx.roundDue)
    (failed : ctx.send ctx.nextRound = .error message) :
    ctx.createRoundStep tick = .threw message (tick.ask ctx.nextRound) := by
  refine (if_pos due).trans ?_
  rw [TickContext.sending]
  split
  · rename_i sent
    exact nomatch failed.symm.trans sent
  · rename_i other hother
    cases failed.symm.trans hother
    rfl

theorem withdrawFailed_batch {state : WithdrawState} {batch : List DueWithdrawal}
    (other : message ≠ SHORT_VAULT) (together : state.singleMode = false) :
    (ctx.withdrawFailed state batch message tick).withdrawState =
      some { state with singleMode := true } := by
  rw [TickContext.withdrawFailed.eq_def, if_neg other, if_pos together]

theorem withdrawFailed_alone {state : WithdrawState} {entry : DueWithdrawal}
    {rest : List DueWithdrawal} (other : message ≠ SHORT_VAULT) (alone : state.singleMode = true) :
    (ctx.withdrawFailed state (entry :: rest) message tick).withdrawState =
      some (state.failed entry.owner) := by
  rw [TickContext.withdrawFailed.eq_def, if_neg other, if_neg (by rw [alone]; decide)]
  rfl

theorem withdrawFailed_confirmed (ctx : TickContext) (state : WithdrawState)
    (batch : List DueWithdrawal) (message : String) (tick : Tick) :
    (ctx.withdrawFailed state batch message tick).confirmed = tick.confirmed := by
  rw [TickContext.withdrawFailed.eq_def]
  split
  · rfl
  · split
    · rfl
    · split
      · rfl
      · rfl

/-- The memories a tick tells are not told by a failed batch. -/
theorem withdrawFailed_memories (ctx : TickContext) (state : WithdrawState)
    (batch : List DueWithdrawal) (message : String) (tick : Tick) :
    (ctx.withdrawFailed state batch message tick).settled = tick.settled ∧
      (ctx.withdrawFailed state batch message tick).closingRounds = tick.closingRounds ∧
      (ctx.withdrawFailed state batch message tick).registeredRecently =
        tick.registeredRecently := by
  rw [TickContext.withdrawFailed.eq_def]
  split
  · exact ⟨rfl, rfl, rfl⟩
  · split
    · exact ⟨rfl, rfl, rfl⟩
    · split
      · exact ⟨rfl, rfl, rfl⟩
      · exact ⟨rfl, rfl, rfl⟩

end Step

section Quiet
variable {ctx : TickContext} {tick : Tick} {message : String}

/-- No round is open, nothing is left of the finished ones, and the previous epoch is
over while the current one runs. -/
structure TickContext.Quiet (ctx : TickContext) : Prop where
  openRound : ctx.openRound = none
  unsettledPositions : ctx.unsettledPositions = []
  roundsToClose : ctx.roundsToClose = []
  begun : ctx.pool.currentEpochId ≠ 0
  running : ∀ epoch, ctx.currentEpoch = some epoch → ctx.now < epoch.endsAt
  referralGrantsDue : ∀ id, ctx.referralGrantsDue id = []
  previous : ∀ epoch, ctx.previousEpoch = some epoch → epoch.status = .rolledOver

theorem beginEpochStep_quiet (h : ctx.Quiet) : ctx.beginEpochStep tick = .next tick := by
  simp only [TickContext.beginEpochStep]
  rw [if_neg]
  intro due
  have ended := due.2.2.1
  simp only [Bool.or_eq_true, Bool.and_eq_true, decide_eq_true_eq, Option.any_eq_true] at ended
  rcases ended with first | past
  · exact h.begun first.1
  · obtain ⟨epoch, hepoch, past⟩ := past
    have := h.running epoch hepoch
    omega

theorem grantTicketsStep_quiet (h : ctx.Quiet) : ctx.grantTicketsStep tick = .next tick := by
  rw [TickContext.grantTicketsStep]
  split
  · rfl
  · dsimp only
    rw [h.referralGrantsDue, if_neg fun due => due.2.2 rfl]

/-- The steps that look at the previous epoch do nothing once it is over. -/
theorem previousSteps_quiet (h : ctx.Quiet) (tick : Tick) : ctx.registerStep tick = .next tick ∧
    ctx.closeRegistrationStep tick = .next tick ∧ ctx.drawStep tick = .next tick ∧
    ctx.payoutStep tick = .next tick := by
  rw [TickContext.registerStep, TickContext.closeRegistrationStep, TickContext.drawStep,
    TickContext.payoutStep]
  cases hprev : ctx.previousEpoch with
  | none => exact ⟨rfl, rfl, rfl, rfl⟩
  | some epoch =>
      have status := h.previous epoch hprev
      simp [status]

theorem earlierSteps_quiet (h : ctx.Quiet) : ctx.earlierSteps tick = .next tick := by
  obtain ⟨register, close, draw, payout⟩ := previousSteps_quiet h tick
  rw [TickContext.earlierSteps, TickContext.roundStep, h.openRound, Outcome.andThen,
    TickContext.sweepStep, h.unsettledPositions, Outcome.andThen, TickContext.closeRoundStep,
    h.roundsToClose, Outcome.andThen, beginEpochStep_quiet h, Outcome.andThen,
    grantTicketsStep_quiet h, Outcome.andThen, register, Outcome.andThen, close, Outcome.andThen,
    draw, Outcome.andThen, payout]

end Quiet

end Operator

end HexVault
