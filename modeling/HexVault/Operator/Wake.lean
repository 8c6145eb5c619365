import HexVault.Operator.Steps

/-!
When the operator looks again. A tick that took no action names the next instant at
which the clock alone could make one of its guards pass; the guards are compared with
that list one step of `decide` at a time.
-/

namespace HexVault

open Fallible

namespace Operator

def SAFETY_INTERVAL_SECONDS : Int := 60

/-- The smallest of the candidates, the first of them given. -/
def soonest (first : Int) (rest : List Int) : Int :=
  rest.foldl (fun soonest candidate => if candidate < soonest then candidate else soonest) first

section Soonest
variable {first c : Int} {rest : List Int}

theorem soonest_le_first (first : Int) (rest : List Int) : soonest first rest ≤ first := by
  induction rest generalizing first with
  | nil => exact Int.le_refl _
  | cons c rest ih =>
      rw [soonest, List.foldl_cons]
      refine Int.le_trans (ih _) ?_
      split <;> omega

theorem soonest_le (first : Int) (h : c ∈ rest) : soonest first rest ≤ c := by
  induction rest generalizing first with
  | nil => exact absurd h List.not_mem_nil
  | cons d rest ih =>
      rw [soonest, List.foldl_cons]
      cases List.mem_cons.mp h with
      | inl head =>
          subst head
          refine Int.le_trans (soonest_le_first _ rest) ?_
          split <;> omega
      | inr tail => exact ih _ tail

theorem le_soonest {now : Int} (hfirst : now ≤ first) (h : ∀ c ∈ rest, now ≤ c) :
    now ≤ soonest first rest := by
  induction rest generalizing first with
  | nil => exact hfirst
  | cons d rest ih =>
      rw [soonest, List.foldl_cons]
      refine ih ?_ fun c hc => h c (List.mem_cons_of_mem _ hc)
      split
      · exact h d List.mem_cons_self
      · exact hfirst

end Soonest

namespace TickContext

/-- The instants at which a guard of `decide` can come to pass, past ones included. -/
def deadlines (ctx : TickContext) : List Int :=
  (ctx.openRound.elim [] fun round =>
    if round.status = .open then
      [round.endsAt - ctx.pool.closeBuffer, round.endsAt + ctx.pool.vrfTimeout]
    else if round.status = .requested then [round.requestedAt + ctx.pool.vrfTimeout]
    else []) ++
  (ctx.currentEpoch.elim [] fun epoch => [epoch.endsAt]) ++
  (ctx.previousEpoch.elim [] fun epoch =>
    if epoch.status = .registering then [registrationClosesAt ctx.pool epoch]
    else if epoch.status = .drawing then [epoch.requestedAt + ctx.pool.vrfTimeout]
    else if epoch.status = .drawn then [epoch.drawnAt + ctx.pool.payoutTimeout]
    else []) ++
  (if ctx.pool.currentEpochId = 0 then ctx.launchAt.toList else []) ++
  (if ctx.pool.openRoundId = 0 then
    ctx.lastRound.elim [] fun round =>
      if round.status ≠ .voided then [round.endsAt + REVEAL_SECONDS] else []
    else [])

/-- The safety interval always passes the filter, so the smallest of what is left is
taken from it on. -/
def nextWakeAt (ctx : TickContext) (acted : Bool) : Int :=
  soonest (ctx.now + SAFETY_INTERVAL_SECONDS)
    (((if acted then [ctx.now] else []) ++ ctx.deadlines).filter fun c => ctx.now ≤ c)

/-- A tick that does not throw, and when the next one is due. -/
def runTick (ctx : TickContext) (tick : Tick) : Option (Decision × Int) :=
  match ctx.decide tick with
  | .finished decision _ => some (decision, ctx.nextWakeAt decision.action.isSome)
  | _ => none

/-- The same context at another time. -/
def clocked (ctx : TickContext) (t : Int) : TickContext := { ctx with now := t }

end TickContext

/-- Milliseconds until the scheduler looks again. -/
def msUntilWake (now deadline : Int) : Int :=
  min (max (deadline - now) 0) SAFETY_INTERVAL_SECONDS * 1000

/-- The tick goes on to its next step, or ends without having acted. -/
def Outcome.Idle : Outcome → Prop
  | .next _ => True
  | .finished decision _ => decision.action = none
  | .threw _ _ => False

/-- Both idle, and both in the same way. -/
inductive Outcome.StillIdle : Outcome → Outcome → Prop
  | passed (tick : Tick) : StillIdle (.next tick) (.next tick)
  | rested (tick : Tick) {d d' : Decision} : d.action = none → d'.action = none →
      StillIdle (.finished d tick) (.finished d' tick)

section Steps
variable {ctx : TickContext} {tick : Tick} {t : Int} {s : Send} {action : TickAction}

theorem Outcome.StillIdle.andThen {o o' : Outcome} {f f' : Tick → Outcome}
    (idle : (o.andThen f).Idle) (first : o.Idle → o.StillIdle o')
    (rest : ∀ tick, (f tick).Idle → (f tick).StillIdle (f' tick)) :
    (o.andThen f).StillIdle (o'.andThen f') := by
  cases o with
  | next tick =>
      cases first trivial
      exact rest tick idle
  | finished d tick =>
      cases first idle with
      | rested _ h h' => exact .rested tick h h'
  | threw => exact idle.elim

theorem act_not_idle : ¬ (ctx.act tick s action).Idle := by
  rw [TickContext.act, TickContext.sending]
  cases ctx.send s with
  | ok _ =>
      intro idle
      cases idle
  | error _ => exact id

/-- No guard that was waiting for a deadline has come to pass before the wake-up. -/
theorem deadline_ahead {c : Int} (before : t < ctx.nextWakeAt false) (h : c ∈ ctx.deadlines)
    (past : c ≤ t) : c < ctx.now := by
  by_contra ahead
  have kept : c ∈ ctx.deadlines.filter fun c => ctx.now ≤ c := by
    rw [List.mem_filter, decide_eq_true_eq]
    exact ⟨h, Int.not_lt.mp ahead⟩
  have wake : ctx.nextWakeAt false ≤ c := soonest_le _ kept
  omega

section Deadlines
variable {round : Round} {epoch : Epoch}

theorem mem_deadlines_open (h : ctx.openRound = some round) (isOpen : round.status = .open) :
    round.endsAt - ctx.pool.closeBuffer ∈ ctx.deadlines ∧
      round.endsAt + ctx.pool.vrfTimeout ∈ ctx.deadlines := by
  simp [TickContext.deadlines, h, isOpen]

theorem mem_deadlines_requested (h : ctx.openRound = some round)
    (requested : round.status = .requested) :
    round.requestedAt + ctx.pool.vrfTimeout ∈ ctx.deadlines := by
  simp [TickContext.deadlines, h, requested]

theorem mem_deadlines_current (h : ctx.currentEpoch = some epoch) :
    epoch.endsAt ∈ ctx.deadlines := by
  simp [TickContext.deadlines, h]

theorem mem_deadlines_registering (h : ctx.previousEpoch = some epoch)
    (registering : epoch.status = .registering) :
    registrationClosesAt ctx.pool epoch ∈ ctx.deadlines := by
  simp [TickContext.deadlines, h, registering]

theorem mem_deadlines_drawing (h : ctx.previousEpoch = some epoch)
    (drawing : epoch.status = .drawing) :
    epoch.requestedAt + ctx.pool.vrfTimeout ∈ ctx.deadlines := by
  simp [TickContext.deadlines, h, drawing]

theorem mem_deadlines_drawn (h : ctx.previousEpoch = some epoch) (drawn : epoch.status = .drawn) :
    epoch.drawnAt + ctx.pool.payoutTimeout ∈ ctx.deadlines := by
  simp [TickContext.deadlines, h, drawn]

theorem mem_deadlines_launch {launchAt : Int} (h : ctx.launchAt = some launchAt)
    (first : ctx.pool.currentEpochId = 0) : launchAt ∈ ctx.deadlines := by
  simp [TickContext.deadlines, h, first]

theorem mem_deadlines_reveal (h : ctx.lastRound = some round) (closed : ctx.pool.openRoundId = 0)
    (played : round.status ≠ .voided) : round.endsAt + REVEAL_SECONDS ∈ ctx.deadlines := by
  simp [TickContext.deadlines, h, closed, played]

end Deadlines

/-! Each step of `decide`, idle now, is idle in the same way until the wake-up. -/

theorem roundStep_still (before : t < ctx.nextWakeAt false) (idle : (ctx.roundStep tick).Idle) :
    (ctx.roundStep tick).StillIdle ((ctx.clocked t).roundStep tick) := by
  rw [TickContext.roundStep] at idle ⊢
  rw [TickContext.roundStep]
  cases hround : ctx.openRound with
  | none =>
      rw [TickContext.clocked, hround]
      exact .passed tick
  | some round =>
      rw [hround] at idle
      simp only [TickContext.clocked, hround]
      dsimp only at idle
      split at idle
      · exact absurd idle act_not_idle
      · rename_i notVoid
        split at idle
        · exact absurd idle act_not_idle
        · rename_i notDue
          split at idle
          · exact absurd idle act_not_idle
          · rename_i unfulfilled
            split at idle
            · exact absurd idle act_not_idle
            · rename_i notTimedOut
              rw [if_neg notVoid, if_neg notDue, if_neg unfulfilled, if_neg notTimedOut, if_neg,
                if_neg, if_neg unfulfilled, if_neg]
              · exact .passed tick
              · intro h
                have ahead := deadline_ahead before (mem_deadlines_requested hround h.1)
                  (Int.le_of_lt h.2)
                exact notTimedOut ⟨h.1, ahead⟩
              · intro h
                have ahead := deadline_ahead before (mem_deadlines_open hround h.1).1 h.2
                exact notDue ⟨h.1, Int.le_of_lt ahead⟩
              · intro h
                have ahead := deadline_ahead before (mem_deadlines_open hround h.1).2
                  (Int.le_of_lt h.2)
                exact notVoid ⟨h.1, ahead⟩

/-- A send that is attempted and not confirmed leaves the tick to go on, at any time. -/
theorem attempted_still {sent : Bool} {d d' : Decision} (some : d.action ≠ none)
    (idle : (if sent then ctx.finish tick d else .next tick).Idle) :
    (if sent then ctx.finish tick d else .next tick).StillIdle
      (if sent then (ctx.clocked t).finish tick d' else .next tick) := by
  cases sent with
  | true => exact absurd idle some
  | false => exact .passed tick

theorem tryFirst_still {α : Type} {left : List α} {key : α → String} {s : α → Send}
    {gone : α → Tick → Tick} {action : TickAction}
    (idle : (ctx.tryFirst tick left key s gone action).Idle) :
    (ctx.tryFirst tick left key s gone action).StillIdle
      ((ctx.clocked t).tryFirst tick left key s gone action) := by
  cases left with
  | nil => exact .passed tick
  | cons first rest =>
      rw [TickContext.tryFirst] at idle ⊢
      rw [TickContext.tryFirst]
      exact attempted_still (by simp) idle

theorem sweepStep_still (idle : (ctx.sweepStep tick).Idle) :
    (ctx.sweepStep tick).StillIdle ((ctx.clocked t).sweepStep tick) := by
  rw [TickContext.sweepStep_eq] at idle ⊢
  rw [TickContext.sweepStep_eq]
  exact tryFirst_still idle

theorem closeRoundStep_still (idle : (ctx.closeRoundStep tick).Idle) :
    (ctx.closeRoundStep tick).StillIdle ((ctx.clocked t).closeRoundStep tick) := by
  rw [TickContext.closeRoundStep_eq] at idle ⊢
  rw [TickContext.closeRoundStep_eq]
  exact tryFirst_still idle

theorem beginEpochStep_still (before : t < ctx.nextWakeAt false)
    (idle : (ctx.beginEpochStep tick).Idle) :
    (ctx.beginEpochStep tick).StillIdle ((ctx.clocked t).beginEpochStep tick) := by
  simp only [TickContext.beginEpochStep] at idle ⊢
  split at idle
  · exact absurd idle act_not_idle
  · rename_i waiting
    rw [if_neg waiting, if_neg]
    · exact .passed tick
    · intro h
      obtain ⟨running, unpaused, ended, closed, done'⟩ := h
      refine waiting ⟨running, unpaused, ?_, closed, done'⟩
      simp only [TickContext.clocked, Bool.or_eq_true, Bool.and_eq_true,
        Option.any_eq_true] at ended ⊢
      cases ended with
      | inl launched =>
          refine .inl ⟨launched.1, ?_⟩
          cases hlaunch : ctx.launchAt with
          | none => rfl
          | some launchAt =>
              have past := launched.2
              rw [hlaunch] at past
              have ahead := deadline_ahead before
                (mem_deadlines_launch hlaunch (of_decide_eq_true launched.1))
                (of_decide_eq_true past)
              exact decide_eq_true (Int.le_of_lt ahead)
      | inr ended =>
          obtain ⟨epoch, hepoch, past⟩ := ended
          have ahead := deadline_ahead before (mem_deadlines_current hepoch)
            (of_decide_eq_true past)
          exact .inr ⟨epoch, hepoch, decide_eq_true (Int.le_of_lt ahead)⟩

theorem grantTicketsStep_still (idle : (ctx.grantTicketsStep tick).Idle) :
    (ctx.grantTicketsStep tick).StillIdle ((ctx.clocked t).grantTicketsStep tick) := by
  rw [TickContext.grantTicketsStep] at idle ⊢
  rw [TickContext.grantTicketsStep]
  cases hepoch : ctx.currentEpoch with
  | none =>
      simp only [TickContext.clocked, hepoch]
      exact .passed tick
  | some epoch =>
      simp only [hepoch] at idle
      simp only [TickContext.clocked, hepoch]
      split at idle
      · rename_i due
        rw [if_pos due, if_pos due]
        split at idle
        · cases idle
        · split at idle
          · rename_i capped
            rw [if_pos capped]
            exact .passed _
          · exact idle.elim
      · rename_i nothing
        rw [if_neg nothing, if_neg nothing]
        exact .passed tick

theorem registerStep_still (idle : (ctx.registerStep tick).Idle) :
    (ctx.registerStep tick).StillIdle ((ctx.clocked t).registerStep tick) := by
  rw [TickContext.registerStep] at idle ⊢
  rw [TickContext.registerStep]
  cases hepoch : ctx.previousEpoch with
  | none =>
      simp only [TickContext.clocked, hepoch]
      exact .passed tick
  | some epoch =>
      simp only [hepoch] at idle
      simp only [TickContext.clocked, hepoch]
      split at idle
      · rw [TickContext.sending] at idle
        split at idle
        · cases idle
        · exact idle.elim
      · rename_i nothing
        rw [if_neg nothing, if_neg nothing]
        exact .passed tick

theorem closeRegistrationStep_still (now : ctx.now < t) (before : t < ctx.nextWakeAt false)
    (idle : (ctx.closeRegistrationStep tick).Idle) :
    (ctx.closeRegistrationStep tick).StillIdle ((ctx.clocked t).closeRegistrationStep tick) := by
  rw [TickContext.closeRegistrationStep] at idle ⊢
  rw [TickContext.closeRegistrationStep]
  cases hepoch : ctx.previousEpoch with
  | none =>
      simp only [TickContext.clocked, hepoch]
      exact .passed tick
  | some epoch =>
      simp only [hepoch] at idle
      simp only [TickContext.clocked, hepoch]
      split at idle
      · rename_i registering
        rw [if_pos registering, if_pos registering]
        split at idle
        · rename_i seen
          rw [if_pos seen, if_pos seen]
          exact .rested tick rfl rfl
        · rename_i again
          rw [if_neg again, if_neg again]
          split at idle
          · rename_i early
            -- The end of the window is a deadline, so it is still early then.
            have still : t < registrationClosesAt ctx.pool epoch := by
              by_contra past
              have ahead := deadline_ahead before
                (mem_deadlines_registering hepoch registering.2.2) (Int.not_lt.mp past)
              omega
            rw [if_pos early, if_pos still]
            exact .rested tick rfl rfl
          · rename_i late
            have still : ¬ t < registrationClosesAt ctx.pool epoch := by omega
            rw [if_neg late, if_neg still]
            split at idle
            · rename_i stale
              rw [if_pos stale, if_pos stale]
              exact .rested tick rfl rfl
            · rw [TickContext.sending] at idle
              split at idle
              · cases idle
              · exact idle.elim
      · rename_i other
        rw [if_neg other, if_neg other]
        exact .passed tick

theorem drawStep_still (before : t < ctx.nextWakeAt false) (idle : (ctx.drawStep tick).Idle) :
    (ctx.drawStep tick).StillIdle ((ctx.clocked t).drawStep tick) := by
  rw [TickContext.drawStep] at idle ⊢
  rw [TickContext.drawStep]
  cases hepoch : ctx.previousEpoch with
  | none =>
      simp only [TickContext.clocked, hepoch]
      exact .passed tick
  | some epoch =>
      simp only [hepoch] at idle
      simp only [TickContext.clocked, hepoch]
      split at idle
      · exact absurd idle act_not_idle
      · rename_i unfulfilled
        split at idle
        · exact absurd idle act_not_idle
        · rename_i notTimedOut
          rw [if_neg unfulfilled, if_neg notTimedOut, if_neg unfulfilled, if_neg]
          · exact .passed tick
          · intro h
            have ahead := deadline_ahead before (mem_deadlines_drawing hepoch h.1)
              (Int.le_of_lt h.2)
            exact notTimedOut ⟨h.1, ahead⟩

theorem rolloverUnpaid_still {ctx' : TickContext} {epoch : Epoch} {timedOut timedOut' : Bool}
    (later : timedOut' = true → timedOut = true)
    (idle : (ctx.rolloverUnpaid epoch timedOut tick).Idle) :
    (ctx.rolloverUnpaid epoch timedOut tick).StillIdle
      (ctx'.rolloverUnpaid epoch timedOut' tick) := by
  rw [TickContext.rolloverUnpaid] at idle ⊢
  rw [TickContext.rolloverUnpaid]
  split at idle
  · exact absurd idle act_not_idle
  · rename_i unpaid
    rw [if_neg unpaid, if_neg fun late => unpaid (later late)]
    exact .passed tick

/-- Past the timeout the alert for an unpaid winner has long fired, so the timeout alone
decides when an unpaid prize rolls over. -/
theorem payoutStep_still (production : MIN_PAYOUT_TIMEOUT ≤ ctx.pool.payoutTimeout)
    (before : t < ctx.nextWakeAt false) (idle : (ctx.payoutStep tick).Idle) :
    (ctx.payoutStep tick).StillIdle ((ctx.clocked t).payoutStep tick) := by
  rw [TickContext.payoutStep] at idle ⊢
  rw [TickContext.payoutStep]
  cases hepoch : ctx.previousEpoch with
  | none =>
      simp only [TickContext.clocked, hepoch]
      exact .passed tick
  | some epoch =>
      simp only [hepoch] at idle
      simp only [TickContext.clocked, hepoch]
      by_cases drawn : epoch.status = .drawn
      · simp only [if_pos drawn] at idle ⊢
        have later : ∀ house : Prop, epoch.drawnAt + ctx.pool.payoutTimeout < t ∧
            (house ∨ epoch.drawnAt + DRAWN_UNPAID_ALERT_SECONDS < t) →
            epoch.drawnAt + ctx.pool.payoutTimeout < ctx.now ∧
            (house ∨ epoch.drawnAt + DRAWN_UNPAID_ALERT_SECONDS < ctx.now) := by
          intro house late
          have ahead := deadline_ahead before (mem_deadlines_drawn hepoch drawn)
            (Int.le_of_lt late.1)
          refine ⟨ahead, .inr ?_⟩
          unfold MIN_PAYOUT_TIMEOUT at production
          unfold DRAWN_UNPAID_ALERT_SECONDS
          omega
        split at idle
        · exact rolloverUnpaid_still (fun late =>
            decide_eq_true (later _ (of_decide_eq_true late))) idle
        · split at idle
          · cases idle
          · split at idle
            · rename_i unpayable
              rw [if_pos unpayable, if_pos unpayable]
              exact rolloverUnpaid_still (fun late =>
                decide_eq_true (later _ (of_decide_eq_true late))) idle
            · exact idle.elim
      · rw [if_neg drawn, if_neg drawn]
        exact .passed tick

theorem withdrawStep_still (idle : (ctx.withdrawStep tick).Idle) :
    (ctx.withdrawStep tick).StillIdle ((ctx.clocked t).withdrawStep tick) := by
  by_cases nobody : ctx.dueWithdrawals = []
  · have still : (ctx.clocked t).dueWithdrawals = [] := nobody
    rw [withdrawStep_nobody nobody, withdrawStep_nobody still]
    exact .passed _
  · cases hs : ctx.send (.processWithdrawals ctx.withdrawBatch) with
    | ok _ =>
        rw [withdrawStep_sent tick nobody hs] at idle
        exact nomatch idle
    | error message =>
        have still : (ctx.clocked t).dueWithdrawals ≠ [] := nobody
        rw [withdrawStep_failed tick nobody hs, withdrawStep_failed tick still hs]
        exact .passed _

theorem createRoundStep_still (now : ctx.now < t) (before : t < ctx.nextWakeAt false)
    (idle : (ctx.createRoundStep tick).Idle) :
    (ctx.createRoundStep tick).StillIdle ((ctx.clocked t).createRoundStep tick) := by
  simp only [TickContext.createRoundStep] at idle ⊢
  split at idle
  · rw [TickContext.sending] at idle
    split at idle
    · cases idle
    · exact idle.elim
  · rename_i waiting
    rw [if_neg waiting, if_neg]
    · exact .rested tick rfl rfl
    · intro h
      obtain ⟨closed, unpaused, running, fits, revealed⟩ := h
      refine waiting ⟨closed, unpaused, running, ?_, ?_⟩
      · simp only [TickContext.clocked, Option.any_eq_true] at fits ⊢
        obtain ⟨epoch, hepoch, fits⟩ := fits
        have := of_decide_eq_true fits
        exact ⟨epoch, hepoch, decide_eq_true (by omega)⟩
      · cases hlast : ctx.lastRound with
        | none => rfl
        | some round =>
            simp only [TickContext.clocked, hlast, Option.all_some, Bool.or_eq_true] at revealed ⊢
            cases revealed with
            | inl voided => exact .inl voided
            | inr past =>
                by_cases voided : round.status = .voided
                · exact .inl (decide_eq_true voided)
                · have ahead := deadline_ahead before
                    (mem_deadlines_reveal hlast closed voided) (of_decide_eq_true past)
                  exact .inr (decide_eq_true (Int.le_of_lt ahead))

/-- An idle tick, run again before the wake-up on the same reads, is idle again. -/
theorem decide_still (production : MIN_PAYOUT_TIMEOUT ≤ ctx.pool.payoutTimeout)
    (now : ctx.now < t) (before : t < ctx.nextWakeAt false) (idle : (ctx.decide tick).Idle) :
    (ctx.decide tick).StillIdle ((ctx.clocked t).decide tick) := by
  refine .andThen idle (roundStep_still before) fun _ idle => ?_
  refine .andThen idle sweepStep_still fun _ idle => ?_
  refine .andThen idle closeRoundStep_still fun _ idle => ?_
  refine .andThen idle (beginEpochStep_still before) fun _ idle => ?_
  refine .andThen idle grantTicketsStep_still fun _ idle => ?_
  refine .andThen idle registerStep_still fun _ idle => ?_
  refine .andThen idle (closeRegistrationStep_still now before) fun _ idle => ?_
  refine .andThen idle (drawStep_still before) fun _ idle => ?_
  refine .andThen idle (payoutStep_still production before) fun _ idle => ?_
  refine .andThen idle withdrawStep_still fun _ idle => ?_
  exact createRoundStep_still now before idle

end Steps

section Wake
variable {ctx : TickContext} {tick : Tick} {d : Decision} {wake : Int}

theorem runTick_eq_some (h : ctx.runTick tick = some (d, wake)) :
    (∃ after, ctx.decide tick = .finished d after) ∧ wake = ctx.nextWakeAt d.action.isSome := by
  simp only [TickContext.runTick] at h
  split at h
  · rename_i decision after decided
    cases h
    exact ⟨⟨after, decided⟩, rfl⟩
  · exact nomatch h

theorem nextWakeAt_bounds (ctx : TickContext) (acted : Bool) :
    ctx.now ≤ ctx.nextWakeAt acted ∧
      ctx.nextWakeAt acted ≤ ctx.now + SAFETY_INTERVAL_SECONDS := by
  refine ⟨le_soonest ?_ ?_, soonest_le_first _ _⟩
  · unfold SAFETY_INTERVAL_SECONDS
    omega
  · intro c hc
    exact of_decide_eq_true (List.mem_filter.mp hc).2

/-- A tick that takes no action sleeps for at most the safety interval, exactly until
the instant it names, and no tick on the same reads before then would act. -/
theorem never_oversleeps (production : MIN_PAYOUT_TIMEOUT ≤ ctx.pool.payoutTimeout)
    (run : ctx.runTick tick = some (d, wake)) (idle : d.action = none) :
    (ctx.now ≤ wake ∧ wake ≤ ctx.now + SAFETY_INTERVAL_SECONDS) ∧
    msUntilWake ctx.now wake = (wake - ctx.now) * 1000 ∧
    ∀ t, ctx.now < t → t < wake →
      ∃ d' wake', (ctx.clocked t).runTick tick = some (d', wake') ∧ d'.action = none := by
  obtain ⟨⟨after, decided⟩, rfl⟩ := runTick_eq_some run
  have bounds := nextWakeAt_bounds ctx d.action.isSome
  refine ⟨bounds, ?_, ?_⟩
  · rw [msUntilWake, max_eq_left (by omega), min_eq_left (by omega)]
  · intro t now before
    rw [idle, Option.isSome_none] at before
    have resting : (ctx.decide tick).Idle := by
      rw [decided]
      exact idle
    have still := decide_still production now before resting
    rw [decided] at still
    cases hlater : (ctx.clocked t).decide tick with
    | finished d' after' =>
        rw [hlater] at still
        refine ⟨d', (ctx.clocked t).nextWakeAt d'.action.isSome, ?_, ?_⟩
        · rw [TickContext.runTick, hlater]
        · cases still with
          | rested _ _ none => exact none
    | next _ =>
        rw [hlater] at still
        exact nomatch still
    | threw _ _ =>
        rw [hlater] at still
        exact nomatch still

end Wake

/-- Half a minute before the epoch's end, with nothing else to do: the operator sleeps
until then. -/
theorem never_oversleeps_ending : ∃ w d, Reachable HexVault.Demo.runtime w ∧ w.clock = 1070 ∧
    (context Demo.config .fresh w (Demo.reads w)).runTick Memory.fresh.tick = some (d, 1100) ∧
    d.action = none ∧ ∀ t, 1070 < t → t < 1100 → ∃ d' wake',
      ((context Demo.config .fresh w (Demo.reads w)).clocked t).runTick Memory.fresh.tick =
        some (d', wake') ∧ d'.action = none := by
  obtain ⟨⟨history, w⟩, hrun, hcheck⟩ := exists_of_any
    (x := HexVault.Demo.script [.setFeaturePause HexVault.Demo.admin .jackpot false,
      .beginEpoch HexVault.Demo.operator, .wait 1070])
    (p := fun s => decide (s.2.clock = 1070) && decide (600 ≤ s.2.pool.payoutTimeout) &&
      ((context Demo.config .fresh s.2 (Demo.reads s.2)).runTick Memory.fresh.tick).any
        fun (x : Decision × Int) => decide (x.2 = 1100) && decide (x.1.action = none))
    (by decide +kernel)
  simp only [Bool.and_eq_true, decide_eq_true_eq, Option.any_eq_true] at hcheck
  obtain ⟨⟨clock, production⟩, ⟨d, wake⟩, run, waking, idle⟩ := hcheck
  subst waking
  have paid : MIN_PAYOUT_TIMEOUT ≤
      (context Demo.config .fresh w (Demo.reads w)).pool.payoutTimeout := production
  obtain ⟨-, -, still⟩ := never_oversleeps paid run idle
  refine ⟨w, d, (HexVault.Demo.script_run hrun).reachable, clock, run, idle, ?_⟩
  intro t now before
  refine still t ?_ before
  change w.clock < t
  omega

end Operator

end HexVault
