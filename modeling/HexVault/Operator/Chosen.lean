import HexVault.Operator.Service

/-!
The steps of a tick that move rounds and epochs on, each with what `decide` saw
when it chose it.
-/

namespace HexVault

namespace Operator

/-- Neither a step of a round nor one of an epoch. -/
def Send.upkeep : Send → Bool
  | .settlePositions .. | .closeRound _ | .grantTickets _ | .register .. | .payout ..
  | .processWithdrawals _ => true
  | _ => false

inductive Chosen (ctx : TickContext) : Send → Prop
  | voidedOpen {round : Round} : ctx.openRound = some round → round.status = .open →
      round.endsAt + ctx.pool.vrfTimeout < ctx.now → Chosen ctx (.voidRound round.roundId)
  | voidedRequested {round : Round} : ctx.openRound = some round → round.status = .requested →
      ctx.fulfilled round.vrfSeed = false →
      round.requestedAt + ctx.pool.vrfTimeout < ctx.now →
      Chosen ctx (.voidRound round.roundId)
  | requested {round : Round} : ctx.openRound = some round → round.status = .open →
      round.endsAt - ctx.pool.closeBuffer ≤ ctx.now →
      Chosen ctx (.requestRoundRandomness round.roundId)
  | settled {round : Round} : ctx.openRound = some round → round.status = .requested →
      ctx.fulfilled round.vrfSeed = true → Chosen ctx (.settleRound round.roundId)
  | began : ctx.pool.shutdown = false → ctx.pool.jackpotPaused = false →
      (ctx.pool.currentEpochId = 0 ∨
        ∃ epoch, ctx.currentEpoch = some epoch ∧ epoch.endsAt ≤ ctx.now) →
      (∀ epoch, ctx.previousEpoch = some epoch →
        epoch.status = .paid ∨ epoch.status = .rolledOver) → Chosen ctx .beginEpoch
  | closed {epoch : Epoch} : ctx.previousEpoch = some epoch → ctx.pool.shutdown = false →
      ctx.pool.jackpotPaused = false → epoch.status = .registering →
      registrationClosesAt ctx.pool epoch ≤ ctx.now →
      Chosen ctx (.closeRegistration epoch.epochId)
  | drawn {epoch : Epoch} : ctx.previousEpoch = some epoch → epoch.status = .drawing →
      ctx.fulfilled epoch.vrfSeed = true → Chosen ctx (.draw epoch.epochId)
  | gaveUp {epoch : Epoch} : ctx.previousEpoch = some epoch → epoch.status = .drawing →
      ¬(ctx.pool.shutdown = false ∧ ctx.fulfilled epoch.vrfSeed = true) →
      epoch.requestedAt + ctx.pool.vrfTimeout < ctx.now →
      Chosen ctx (.rolloverEpoch epoch.epochId)
  | unpaid {epoch : Epoch} : ctx.previousEpoch = some epoch → epoch.status = .drawn →
      epoch.drawnAt + ctx.pool.payoutTimeout < ctx.now →
      Chosen ctx (.rolloverEpoch epoch.epochId)
  | created {epoch : Epoch} : ctx.currentEpoch = some epoch → ctx.pool.openRoundId = 0 →
      ctx.pool.paused = false → ctx.pool.gamePaused = false →
      ctx.now + ctx.pool.roundSeconds ≤ epoch.endsAt →
      Chosen ctx (.createRound ctx.now (ctx.now + ctx.pool.roundSeconds))
  | upkeep {s : Send} : s.upkeep = true → Chosen ctx s

/-- Everything a tick has asked for so far was chosen. -/
def Asks (ctx : TickContext) (tick : Tick) : Prop := ∀ s ∈ tick.asked, Chosen ctx s

section Steps
variable {ctx : TickContext} {tick : Tick}

theorem Asks.ask (h : Asks ctx tick) {s : Send} (chosen : Chosen ctx s) :
    Asks ctx (tick.ask s) := by
  intro t ht
  cases List.mem_append.mp ht with
  | inl before => exact h t before
  | inr new => exact List.mem_singleton.mp new ▸ chosen

theorem Asks.confirm (h : Asks ctx tick) {s : Send} (chosen : Chosen ctx s) :
    Asks ctx (tick.confirm s) := h.ask chosen

theorem Asks.act (h : Asks ctx tick) {s : Send} (chosen : Chosen ctx s) (action : TickAction) :
    Asks ctx (ctx.act tick s action).tick := by
  rw [TickContext.act, TickContext.sending]
  cases ctx.send s with
  | ok _ => exact h.confirm chosen
  | error _ => exact h.ask chosen

theorem Asks.attempt (h : Asks ctx tick) (key : String) {s : Send} (chosen : Chosen ctx s)
    {gone : Tick → Tick} (told : ∀ t, (gone t).asked = t.asked) :
    Asks ctx (ctx.attempt tick key s gone).2 := by
  have asked := h.ask chosen
  have done : Asks ctx (gone (tick.confirm s)) := by
    rw [Asks, told]
    exact asked
  rw [TickContext.attempt]
  cases ctx.send s with
  | ok _ =>
      dsimp only
      split
      · exact done
      · exact done
  | error message =>
      dsimp only
      split
      · rw [Asks, told]
        exact asked
      · split
        · exact asked
        · exact asked

theorem roundStep_asks (h : Asks ctx tick) : Asks ctx (ctx.roundStep tick).tick := by
  rw [TickContext.roundStep]
  cases hround : ctx.openRound with
  | none => exact h
  | some round =>
      dsimp only
      split
      · rename_i late
        exact h.act (.voidedOpen hround late.1 late.2) _
      · split
        · rename_i closing
          exact h.act (.requested hround closing.1 closing.2) _
        · split
          · rename_i answered
            exact h.act (.settled hround answered.1 answered.2) _
          · rename_i unanswered
            split
            · rename_i late
              have unread : ctx.fulfilled round.vrfSeed = false := by
                rw [← Bool.not_eq_true]
                exact fun read => unanswered ⟨late.1, read⟩
              exact h.act (.voidedRequested hround late.1 unread late.2) _
            · exact h

theorem tryFirst_asks {α : Type} {left : List α} {key : α → String} {s : α → Send}
    {gone : α → Tick → Tick} {action : TickAction} (h : Asks ctx tick)
    (upkeep : ∀ first, Chosen ctx (s first)) (told : ∀ first t, (gone first t).asked = t.asked) :
    Asks ctx (ctx.tryFirst tick left key s gone action).tick := by
  cases left with
  | nil => exact h
  | cons first rest =>
      rw [TickContext.tryFirst]
      dsimp only
      split
      · exact h.attempt _ (upkeep first) (told first)
      · exact h.attempt _ (upkeep first) (told first)

theorem sweepStep_asks (h : Asks ctx tick) : Asks ctx (ctx.sweepStep tick).tick := by
  rw [TickContext.sweepStep_eq]
  exact tryFirst_asks h (fun _ => .upkeep rfl) fun _ _ => rfl

theorem closeRoundStep_asks (h : Asks ctx tick) : Asks ctx (ctx.closeRoundStep tick).tick := by
  rw [TickContext.closeRoundStep_eq]
  exact tryFirst_asks h (fun _ => .upkeep rfl) fun _ _ => rfl

theorem beginEpochStep_asks (h : Asks ctx tick) : Asks ctx (ctx.beginEpochStep tick).tick := by
  simp only [TickContext.beginEpochStep]
  split
  · rename_i due
    obtain ⟨running, started, ended, -, done⟩ := due
    refine h.act (.began running started ?_ ?_) _
    · simp only [Bool.or_eq_true, Bool.and_eq_true, decide_eq_true_eq, Option.any_eq_true] at ended
      cases ended with
      | inl first => exact .inl first.1
      | inr later =>
          obtain ⟨epoch, hepoch, past⟩ := later
          exact .inr ⟨epoch, hepoch, past⟩
    · intro epoch hepoch
      rw [hepoch, Option.all_some, Bool.or_eq_true, decide_eq_true_eq, decide_eq_true_eq] at done
      exact done
  · exact h

theorem grantTicketsStep_asks (h : Asks ctx tick) :
    Asks ctx (ctx.grantTicketsStep tick).tick := by
  rw [TickContext.grantTicketsStep]
  cases ctx.currentEpoch with
  | none => exact h
  | some epoch =>
      dsimp only
      split
      · split
        · exact h.confirm (.upkeep rfl)
        · split
          · exact h.ask (.upkeep rfl)
          · exact h.ask (.upkeep rfl)
      · exact h

theorem registerStep_asks (h : Asks ctx tick) : Asks ctx (ctx.registerStep tick).tick := by
  rw [TickContext.registerStep]
  cases ctx.previousEpoch with
  | none => exact h
  | some epoch =>
      dsimp only
      split
      · rw [TickContext.sending]
        split
        · exact h.confirm (.upkeep rfl)
        · exact h.ask (.upkeep rfl)
      · exact h

theorem closeRegistrationStep_asks (h : Asks ctx tick) :
    Asks ctx (ctx.closeRegistrationStep tick).tick := by
  rw [TickContext.closeRegistrationStep]
  cases hprev : ctx.previousEpoch with
  | none => exact h
  | some epoch =>
      dsimp only
      split
      · rename_i closing
        split
        · exact h
        · split
          · exact h
          · rename_i passed
            split
            · exact h
            · have chosen : Chosen ctx (.closeRegistration epoch.epochId) :=
                .closed hprev closing.1 closing.2.1 closing.2.2 (Int.not_lt.mp passed)
              rw [TickContext.sending]
              split
              · exact h.confirm chosen
              · exact h.ask chosen
      · exact h

theorem drawStep_asks (h : Asks ctx tick) : Asks ctx (ctx.drawStep tick).tick := by
  rw [TickContext.drawStep]
  cases hprev : ctx.previousEpoch with
  | none => exact h
  | some epoch =>
      dsimp only
      split
      · rename_i answered
        exact h.act (.drawn hprev answered.1 answered.2.2) _
      · rename_i unanswered
        split
        · rename_i late
          exact h.act (.gaveUp hprev late.1 (fun read => unanswered ⟨late.1, read⟩) late.2) _
        · exact h

theorem rolloverUnpaid_asks (h : Asks ctx tick) {epoch : Epoch} {timedOut : Bool}
    (hprev : ctx.previousEpoch = some epoch) (drawn : epoch.status = .drawn)
    (late : timedOut = true → epoch.drawnAt + ctx.pool.payoutTimeout < ctx.now) :
    Asks ctx (ctx.rolloverUnpaid epoch timedOut tick).tick := by
  rw [TickContext.rolloverUnpaid]
  split
  · rename_i passed
    exact h.act (.unpaid hprev drawn (late passed)) _
  · exact h

theorem payoutStep_asks (h : Asks ctx tick) : Asks ctx (ctx.payoutStep tick).tick := by
  rw [TickContext.payoutStep]
  cases hprev : ctx.previousEpoch with
  | none => exact h
  | some epoch =>
      dsimp only
      split
      · rename_i drawn
        split
        · exact rolloverUnpaid_asks h hprev drawn fun passed => (of_decide_eq_true passed).1
        · rename_i owner _
          have asked : Asks ctx (tick.ask (.payout epoch.epochId owner)) := h.ask (.upkeep rfl)
          split
          · exact asked
          · split
            · exact rolloverUnpaid_asks asked hprev drawn fun passed => (of_decide_eq_true passed).1
            · exact asked
      · exact h

theorem withdrawFailed_asked (state : WithdrawState) (batch : List DueWithdrawal)
    (message : String) : (ctx.withdrawFailed state batch message tick).asked = tick.asked := by
  simp only [TickContext.withdrawFailed]
  split
  · rfl
  · split
    · rfl
    · cases batch with
      | nil => rfl
      | cons entry rest => rfl

theorem withdrawStep_asks (h : Asks ctx tick) : Asks ctx (ctx.withdrawStep tick).tick := by
  simp only [TickContext.withdrawStep]
  split
  · exact h
  · split
    · exact h.confirm (.upkeep rfl)
    · rw [Asks, Outcome.tick, withdrawFailed_asked]
      exact h.ask (.upkeep rfl)

theorem createRoundStep_asks (h : Asks ctx tick) :
    Asks ctx (ctx.createRoundStep tick).tick := by
  simp only [TickContext.createRoundStep]
  split
  · rename_i due
    obtain ⟨free, running, playing, fits, -⟩ := due
    rw [Option.any_eq_true] at fits
    obtain ⟨epoch, hepoch, within⟩ := fits
    have chosen := Chosen.created hepoch free running playing (of_decide_eq_true within)
    rw [TickContext.sending]
    split
    · exact h.confirm chosen
    · exact h.ask chosen
  · exact h

theorem andThen_asks {outcome : Outcome} {step : Tick → Outcome} (h : Asks ctx outcome.tick)
    (rest : ∀ t, Asks ctx t → Asks ctx (step t).tick) :
    Asks ctx (outcome.andThen step).tick := by
  cases outcome with
  | next t => exact rest t h
  | finished decision t => exact h
  | threw message t => exact h

/-- Whatever a tick asks for, it saw a reason to. -/
theorem decide_asks (h : Asks ctx tick) : Asks ctx (ctx.decide tick).tick := by
  rw [TickContext.decide]
  refine andThen_asks (roundStep_asks h) fun _ h => ?_
  refine andThen_asks (sweepStep_asks h) fun _ h => ?_
  refine andThen_asks (closeRoundStep_asks h) fun _ h => ?_
  refine andThen_asks (beginEpochStep_asks h) fun _ h => ?_
  refine andThen_asks (grantTicketsStep_asks h) fun _ h => ?_
  refine andThen_asks (registerStep_asks h) fun _ h => ?_
  refine andThen_asks (closeRegistrationStep_asks h) fun _ h => ?_
  refine andThen_asks (drawStep_asks h) fun _ h => ?_
  refine andThen_asks (payoutStep_asks h) fun _ h => ?_
  refine andThen_asks (withdrawStep_asks h) fun _ h => ?_
  exact createRoundStep_asks h

end Steps

end Operator

end HexVault
