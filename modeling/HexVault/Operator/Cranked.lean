import HexVault.Operator.Service

/-!
What a tick can do to registration, said once: nothing, a batch sent and perhaps
confirmed, or the close of an epoch nobody on the list is owed a register for.
-/

namespace HexVault

namespace Operator

def Send.registration : Send → Bool
  | .register _ _ | .closeRegistration _ => true
  | _ => false

/-- A tick that has left registration alone. -/
structure Aside (before after : Tick) : Prop where
  registeredRecently : after.registeredRecently = before.registeredRecently
  asked : after.asked.filter Send.registration = before.asked.filter Send.registration
  confirmed : after.confirmed.filter Send.registration =
    before.confirmed.filter Send.registration

namespace Aside
variable {before middle after : Tick} {s : Send}

theorem refl (tick : Tick) : Aside tick tick := ⟨rfl, rfl, rfl⟩

theorem trans (first : Aside before middle) (second : Aside middle after) :
    Aside before after where
  registeredRecently := second.registeredRecently.trans first.registeredRecently
  asked := second.asked.trans first.asked
  confirmed := second.confirmed.trans first.confirmed

theorem filter_append (sends : List Send) (h : s.registration = false) :
    (sends ++ [s]).filter Send.registration = sends.filter Send.registration := by
  rw [List.filter_append, List.filter_singleton, h, cond_false, List.append_nil]

theorem ask (tick : Tick) (h : s.registration = false) : Aside tick (tick.ask s) :=
  ⟨rfl, filter_append _ h, rfl⟩

theorem confirm (tick : Tick) (h : s.registration = false) : Aside tick (tick.confirm s) :=
  ⟨rfl, filter_append _ h, filter_append _ h⟩

end Aside

section Steps
variable (ctx : TickContext) (tick : Tick)

theorem act_aside {s : Send} (h : s.registration = false) (action : TickAction) :
    Aside tick (ctx.act tick s action).tick := by
  rw [TickContext.act, TickContext.sending]
  cases ctx.send s with
  | ok _ => exact .confirm tick h
  | error _ => exact .ask tick h

theorem attempt_aside (key : String) {s : Send} (h : s.registration = false)
    {gone : Tick → Tick} (told : ∀ t, Aside t (gone t)) :
    Aside tick (ctx.attempt tick key s gone).2 := by
  rw [TickContext.attempt]
  cases ctx.send s with
  | ok _ =>
      have done := (Aside.confirm tick h).trans (told _)
      dsimp only
      split
      · exact ⟨done.registeredRecently, done.asked, done.confirmed⟩
      · exact done
  | error message =>
      have asked := Aside.ask tick h
      dsimp only
      split
      · exact asked.trans (told _)
      · split
        · exact ⟨asked.registeredRecently, asked.asked, asked.confirmed⟩
        · exact ⟨asked.registeredRecently, asked.asked, asked.confirmed⟩

theorem roundStep_aside : Aside tick (ctx.roundStep tick).tick := by
  rw [TickContext.roundStep]
  cases ctx.openRound with
  | none => exact .refl tick
  | some round =>
      dsimp only
      split
      · exact act_aside ctx tick rfl _
      · split
        · exact act_aside ctx tick rfl _
        · split
          · exact act_aside ctx tick rfl _
          · split
            · exact act_aside ctx tick rfl _
            · exact .refl tick

theorem tryFirst_aside {α : Type} {left : List α} {key : α → String} {s : α → Send}
    {gone : α → Tick → Tick} {action : TickAction} (h : ∀ first, (s first).registration = false)
    (told : ∀ first t, Aside t (gone first t)) :
    Aside tick (ctx.tryFirst tick left key s gone action).tick := by
  cases left with
  | nil => exact .refl tick
  | cons first rest =>
      rw [TickContext.tryFirst]
      dsimp only
      split
      · exact attempt_aside ctx tick _ (h first) (told first)
      · exact attempt_aside ctx tick _ (h first) (told first)

theorem sweepStep_aside : Aside tick (ctx.sweepStep tick).tick := by
  rw [TickContext.sweepStep_eq]
  exact tryFirst_aside ctx tick (fun _ => rfl) fun _ _ => ⟨rfl, rfl, rfl⟩

theorem closeRoundStep_aside : Aside tick (ctx.closeRoundStep tick).tick := by
  rw [TickContext.closeRoundStep_eq]
  exact tryFirst_aside ctx tick (fun _ => rfl) fun _ _ => ⟨rfl, rfl, rfl⟩

theorem beginEpochStep_aside : Aside tick (ctx.beginEpochStep tick).tick := by
  rw [TickContext.beginEpochStep]
  split
  · exact act_aside ctx tick rfl _
  · exact .refl tick

theorem grantTicketsStep_aside : Aside tick (ctx.grantTicketsStep tick).tick := by
  rw [TickContext.grantTicketsStep]
  cases ctx.currentEpoch with
  | none => exact .refl tick
  | some epoch =>
      dsimp only
      split
      · split
        · exact .confirm tick rfl
        · split
          · exact .ask tick rfl
          · exact .ask tick rfl
      · exact .refl tick

theorem drawStep_aside : Aside tick (ctx.drawStep tick).tick := by
  rw [TickContext.drawStep]
  cases ctx.previousEpoch with
  | none => exact .refl tick
  | some epoch =>
      dsimp only
      split
      · exact act_aside ctx tick rfl _
      · split
        · exact act_aside ctx tick rfl _
        · exact .refl tick

theorem rolloverUnpaid_aside (epoch : Epoch) (timedOut : Bool) :
    Aside tick (ctx.rolloverUnpaid epoch timedOut tick).tick := by
  rw [TickContext.rolloverUnpaid]
  split
  · exact act_aside ctx tick rfl _
  · exact .refl tick

theorem payoutStep_aside : Aside tick (ctx.payoutStep tick).tick := by
  rw [TickContext.payoutStep]
  cases ctx.previousEpoch with
  | none => exact .refl tick
  | some epoch =>
      dsimp only
      split
      · split
        · exact rolloverUnpaid_aside ctx tick _ _
        · split
          · exact .confirm tick rfl
          · split
            · exact (Aside.ask tick rfl).trans (rolloverUnpaid_aside ctx _ _ _)
            · exact .ask tick rfl
      · exact .refl tick

theorem withdrawFailed_aside (state : WithdrawState) (batch : List DueWithdrawal)
    (message : String) : Aside tick (ctx.withdrawFailed state batch message tick) := by
  simp only [TickContext.withdrawFailed]
  split
  · exact ⟨rfl, rfl, rfl⟩
  · split
    · exact ⟨rfl, rfl, rfl⟩
    · cases batch with
      | nil => exact .refl tick
      | cons entry rest => exact ⟨rfl, rfl, rfl⟩

theorem withdrawStep_aside : Aside tick (ctx.withdrawStep tick).tick := by
  rw [TickContext.withdrawStep]
  dsimp only
  split
  · exact ⟨rfl, rfl, rfl⟩
  · split
    · exact ⟨rfl, Aside.filter_append _ rfl, Aside.filter_append _ rfl⟩
    · refine Aside.trans (Aside.ask tick ?_) (withdrawFailed_aside ctx _ _ _ _)
      rfl

theorem createRoundStep_aside : Aside tick (ctx.createRoundStep tick).tick := by
  rw [TickContext.createRoundStep]
  split
  · rw [TickContext.sending]
    split
    · exact .confirm tick rfl
    · exact .ask tick rfl
  · exact .refl tick

/-- What a tick did to registration. -/
inductive Cranked (before after : Tick) : Prop
  | aside : Aside before after → Cranked before after
  | refused {epoch : Epoch} : ctx.previousEpoch = some epoch →
      after.registeredRecently = before.registeredRecently →
      after.asked.filter Send.registration = before.asked.filter Send.registration ++
        [.register epoch.epochId ((ctx.playersToRegister epoch.epochId).take BATCH_SIZE)] →
      after.confirmed.filter Send.registration =
        before.confirmed.filter Send.registration → Cranked before after
  | registered {epoch : Epoch} (now : Int) : ctx.previousEpoch = some epoch →
      after.registeredRecently = before.registeredRecently.remember REGISTERED_MEMORY_MS now
        ((ctx.playersToRegister epoch.epochId).take BATCH_SIZE) →
      after.asked.filter Send.registration = before.asked.filter Send.registration ++
        [.register epoch.epochId ((ctx.playersToRegister epoch.epochId).take BATCH_SIZE)] →
      after.confirmed.filter Send.registration = before.confirmed.filter Send.registration ++
        [.register epoch.epochId ((ctx.playersToRegister epoch.epochId).take BATCH_SIZE)] →
      Cranked before after
  | closed {epoch : Epoch} (landed : List Send) : ctx.previousEpoch = some epoch →
      ctx.playersToRegister epoch.epochId = [] →
      after.registeredRecently = before.registeredRecently →
      after.asked.filter Send.registration =
        before.asked.filter Send.registration ++ [.closeRegistration epoch.epochId] →
      after.confirmed.filter Send.registration =
        before.confirmed.filter Send.registration ++ landed →
      (∀ s ∈ landed, s = .closeRegistration epoch.epochId) → Cranked before after

variable {ctx tick} {before : Tick}

/-- One step, then the rest of the tick. -/
theorem andThen_cranked {outcome : Outcome} {step : Tick → Outcome}
    (h : Cranked ctx before outcome.tick)
    (rest : ∀ t, outcome = .next t → Cranked ctx before (step t).tick) :
    Cranked ctx before (outcome.andThen step).tick := by
  cases outcome with
  | next t => exact rest t rfl
  | finished decision t => exact h
  | threw message t => exact h

theorem andThen_of_aside {outcome : Outcome} {step : Tick → Outcome}
    (h : Aside before outcome.tick)
    (rest : ∀ t, Aside before t → Cranked ctx before (step t).tick) :
    Cranked ctx before (outcome.andThen step).tick := by
  refine andThen_cranked (.aside h) ?_
  intro t ht
  rw [ht] at h
  exact rest t h

theorem registerStep_cases (ctx : TickContext) (h : Aside before tick) :
    Cranked ctx before (ctx.registerStep tick).tick ∧ ∀ t, ctx.registerStep tick = .next t →
      t = tick ∧ ∀ epoch, ctx.previousEpoch = some epoch → ctx.pool.shutdown = false →
        epoch.status = .registering → ctx.playersToRegister epoch.epochId = [] := by
  rw [TickContext.registerStep]
  cases hprev : ctx.previousEpoch with
  | none =>
      refine ⟨.aside h, fun t ht => ⟨(Outcome.next.inj ht).symm, ?_⟩⟩
      intro _ missing
      cases missing
  | some epoch =>
      dsimp only
      split
      · rw [TickContext.sending]
        cases ctx.send (.register epoch.epochId
          ((ctx.playersToRegister epoch.epochId).take BATCH_SIZE)) with
        | ok _ =>
            refine ⟨.registered (ctx.wallNow (.register epoch.epochId
              ((ctx.playersToRegister epoch.epochId).take BATCH_SIZE))) hprev ?_ ?_ ?_, ?_⟩
            · exact congrArg (fun m => Memo.remember _ _ m _) h.registeredRecently
            · exact (List.filter_append ..).trans (congrArg (· ++ _) h.asked)
            · exact (List.filter_append ..).trans (congrArg (· ++ _) h.confirmed)
            · intro _ on
              cases on
        | error _ =>
            refine ⟨.refused hprev h.registeredRecently ?_ h.confirmed, ?_⟩
            · exact (List.filter_append ..).trans (congrArg (· ++ _) h.asked)
            · intro _ on
              cases on
      · rename_i none
        refine ⟨.aside h, fun t ht => ⟨(Outcome.next.inj ht).symm, ?_⟩⟩
        intro other hother running registering
        obtain rfl := Option.some.inj hother
        by_contra owed
        exact none ⟨running, registering, owed⟩

theorem closeRegistrationStep_cases (ctx : TickContext) (h : Aside before tick)
    (nobody : ∀ epoch, ctx.previousEpoch = some epoch → ctx.pool.shutdown = false →
      epoch.status = .registering → ctx.playersToRegister epoch.epochId = []) :
    Cranked ctx before (ctx.closeRegistrationStep tick).tick ∧
      ∀ t, ctx.closeRegistrationStep tick = .next t → t = tick := by
  rw [TickContext.closeRegistrationStep]
  cases hprev : ctx.previousEpoch with
  | none => exact ⟨.aside h, fun t ht => (Outcome.next.inj ht).symm⟩
  | some epoch =>
      dsimp only
      split
      · rename_i open_
        split
        · exact ⟨.aside h, nofun⟩
        · split
          · exact ⟨.aside h, nofun⟩
          · split
            · exact ⟨.aside h, nofun⟩
            · have empty := nobody epoch hprev open_.1 open_.2.2
              rw [TickContext.sending]
              cases ctx.send (.closeRegistration epoch.epochId) with
              | ok _ =>
                  refine ⟨.closed [.closeRegistration epoch.epochId] hprev empty
                    h.registeredRecently ?_ ?_ fun s => List.mem_singleton.mp, nofun⟩
                  · exact (List.filter_append ..).trans (congrArg (· ++ _) h.asked)
                  · exact (List.filter_append ..).trans (congrArg (· ++ _) h.confirmed)
              | error _ =>
                  refine ⟨.closed [] hprev empty h.registeredRecently ?_ ?_ nofun,
                    nofun⟩
                  · exact (List.filter_append ..).trans (congrArg (· ++ _) h.asked)
                  · rw [List.append_nil]
                    exact h.confirmed
      · exact ⟨.aside h, fun t ht => (Outcome.next.inj ht).symm⟩

/-- A whole tick. -/
theorem decide_cranked (ctx : TickContext) (before : Tick) :
    Cranked ctx before (ctx.decide before).tick := by
  rw [TickContext.decide]
  refine andThen_of_aside (roundStep_aside ctx before) fun t₁ h₁ => ?_
  refine andThen_of_aside (h₁.trans (sweepStep_aside ctx t₁)) fun t₂ h₂ => ?_
  refine andThen_of_aside (h₂.trans (closeRoundStep_aside ctx t₂)) fun t₃ h₃ => ?_
  refine andThen_of_aside (h₃.trans (beginEpochStep_aside ctx t₃)) fun t₄ h₄ => ?_
  refine andThen_of_aside (h₄.trans (grantTicketsStep_aside ctx t₄)) fun t₅ h₅ => ?_
  have registered := registerStep_cases ctx h₅
  refine andThen_cranked registered.1 fun t ht => ?_
  obtain ⟨rfl, nobody⟩ := registered.2 t ht
  have closed := closeRegistrationStep_cases ctx h₅ nobody
  refine andThen_cranked closed.1 fun u hu => ?_
  obtain rfl := closed.2 u hu
  refine andThen_of_aside (h₅.trans (drawStep_aside ctx _)) fun t₆ h₆ => ?_
  refine andThen_of_aside (h₆.trans (payoutStep_aside ctx t₆)) fun t₇ h₇ => ?_
  refine andThen_of_aside (h₇.trans (withdrawStep_aside ctx t₇)) fun t₈ h₈ => ?_
  exact .aside (h₈.trans (createRoundStep_aside ctx t₈))

end Steps

end Operator

end HexVault
