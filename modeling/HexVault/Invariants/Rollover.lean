import HexVault.Invariants.Stamps
import HexVault.Program.Configuration

/-!
Rolling over an epoch that is still Registering. Anyone may do it once the close
is overdue by `vrf_timeout`, counted from when the window ended; whether the
operator could have closed in that time is a matter of the states the run went
through, each in force until the next one's clock.
-/

namespace HexVault

open Fallible Finmap Runs

/-- `close_registration` of an epoch passes its guards at an instant: the window
is over, the jackpot is not paused and the pool is not shut down. -/
def acceptsClose (w : World) (id : Nat) (t : Int) : Prop :=
  w.pool.shutdown = false ∧ w.pool.jackpotPaused = false ∧
  ∃ e closesAt, w.epochs.lookup id = some e ∧ e.status = .registering ∧
    registrationClosesAt w.pool e = .ok closesAt ∧ closesAt ≤ t

/-- Every state in force after `since` accepts the close from then on; the newest
of the history was in force until `stop`. -/
def AcceptedSince (id : Nat) (since : Int) : Int → History → Prop
  | _, [] => True
  | stop, (w, _) :: earlier => (since < stop → acceptsClose w id (max w.clock since)) ∧
      AcceptedSince id since w.clock earlier

/-- The close was accepted for more than `vrf_timeout` seconds up to now. -/
def LongAccepted (history : History) (w : World) (id : Nat) : Prop :=
  acceptsClose w id w.clock ∧
  ∃ since, since + w.pool.vrfTimeout < w.clock ∧ AcceptedSince id since w.clock history

/-- Where an epoch's registration window ends, under a pool's parameters. -/
def windowEnd (pool : Pool) (e : Epoch) : Int :=
  max e.registrationOpenedAt e.endsAt + pool.registrationWindow

/-- A step that makes room for the close where there was none: it unpauses the
jackpot, or cuts a window that has not been over for `vrf_timeout` by now. -/
def makesRoom (now : World) (id : Nat) (x : World × Action) : Bool :=
  match x.2 with
  | .setFeaturePause _ .jackpot false => x.1.pool.jackpotPaused
  | .setParams _ args =>
      decide (args.registrationWindow.getD x.1.pool.registrationWindow <
        x.1.pool.registrationWindow) &&
      (x.1.epochs.lookup id).any fun e =>
        decide (now.clock ≤ windowEnd x.1.pool e + now.pool.vrfTimeout)
  | _ => false

theorem registrationClosesAt_eq_ok {pool : Pool} {e : Epoch} {c : Int} :
    registrationClosesAt pool e = .ok c ↔
      (-i64Limit ≤ windowEnd pool e ∧ windowEnd pool e < i64Limit) ∧ c = windowEnd pool e :=
  addI64_eq_ok

/-- The close is due by an instant: nothing holds it back then. -/
structure Due (w : World) (id : Nat) (e : Epoch) (since : Int) : Prop where
  running : w.pool.shutdown = false
  unpaused : w.pool.jackpotPaused = false
  epoch : w.epochs.lookup id = some e
  registering : e.status = .registering
  passed : windowEnd w.pool e ≤ since

section Steps
variable {rt : Runtime} {history : History} {w w' : World} {a : Action} {id : Nat} {e e' : Epoch}
  {since : Int}

theorem created_window (h : Created w) : 0 ≤ w.pool.registrationWindow := by
  obtain ⟨params, accounts, now, -, -, h⟩ := h
  obtain ⟨valid, es, rfl⟩ := createPool_eq_ok h
  exact valid.window.1

theorem reachable_window (h : Reachable rt w) : 0 ≤ w.pool.registrationWindow := by
  refine h.invariant (P := fun w => 0 ≤ w.pool.registrationWindow) created_window ?_
  intro w a w' _ hi hs
  cases ha : a.reconfigures with
  | false =>
      have same := congrArg Params.registrationWindow
        (effect_sameConfig ha (step_effect hs)).params
      exact Int.le_trans hi (Int.le_of_eq same.symm)
  | true =>
      obtain ⟨pool, es, config, rfl⟩ := step_configured ha hs
      cases config with
      | params _ window => exact window
      | @featurePaused _ feature => cases feature <;> exact hi
      | _ => exact hi

/-- An epoch that registers after a step registered before it with the same
window, unless the step began the next epoch. -/
theorem effect_registered (h : Effect rt w a w') (he : w'.epochs.lookup id = some e')
    (hs : e'.status = .registering) :
    e'.registrationOpenedAt = w'.clock ∨
      ∃ e, w.epochs.lookup id = some e ∧ e.status = .registering ∧
        e.registrationOpenedAt = e'.registrationOpenedAt ∧ e.endsAt = e'.endsAt := by
  have written : ∀ {key : Nat} {x x' : Epoch}, w.epochs.lookup key = some x →
      (x'.status = .registering → x.status = .registering ∧
        x.registrationOpenedAt = x'.registrationOpenedAt ∧ x.endsAt = x'.endsAt) →
      (w.epochs.insert key x').lookup id = some e' →
      e'.registrationOpenedAt = w'.clock ∨
        ∃ e, w.epochs.lookup id = some e ∧ e.status = .registering ∧
          e.registrationOpenedAt = e'.registrationOpenedAt ∧ e.endsAt = e'.endsAt := by
    intro key x x' hx same hid
    cases lookup_insert_cases hid with
    | inl this =>
        obtain ⟨rfl, rfl⟩ := this
        exact .inr ⟨x, hx, same hs⟩
    | inr rest => exact .inr ⟨e', rest.2, hs, rfl, rfl⟩
  cases h with
  | epochBegan _ _ hend =>
      cases lookup_insert_cases he with
      | inl new =>
          obtain ⟨-, rfl⟩ := new
          exact nomatch hs
      | inr rest =>
          cases endCurrent_cases hend with
          | inl first =>
              obtain ⟨-, -, rfl⟩ := first
              exact .inr ⟨e', rest.2, hs, rfl, rfl⟩
          | inr later =>
              obtain ⟨-, previous, f, hp, -, -, -, rfl⟩ := later
              cases lookup_insert_cases rest.2 with
              | inl this =>
                  obtain ⟨-, rfl⟩ := this
                  exact .inl rfl
              | inr other => exact .inr ⟨e', other.2, hs, rfl, rfl⟩
  | registered hx =>
      refine written hx ?_ he
      intro hs
      exact ⟨hs, rfl, rfl⟩
  | closedUndrawn hx =>
      refine written hx ?_ he
      exact nofun
  | closedForDraw hx =>
      refine written hx ?_ he
      exact nofun
  | drawn hx =>
      refine written hx ?_ he
      exact nofun
  | paidHouse hx =>
      refine written hx ?_ he
      exact nofun
  | paidPlayer hx =>
      refine written hx ?_ he
      exact nofun
  | rolledOver hx =>
      refine written hx ?_ he
      exact nofun
  | _ => exact .inr ⟨e', he, hs, rfl, rfl⟩

/-- Where the close is due, `close_registration` passes its guards. -/
theorem Due.accepts (due : Due w id e since) (h : Reachable rt w) (fits : since < i64Limit)
    {t : Int} (ht : since ≤ t) : acceptsClose w id t := by
  have opened := ((reachable_stamps h).epochs due.epoch).opened.1
  have window := reachable_window h
  have passed := due.passed
  have positive : (0 : Int) < i64Limit := by decide
  have known : registrationClosesAt w.pool e = .ok (windowEnd w.pool e) := by
    refine registrationClosesAt_eq_ok.mpr ⟨⟨?_, Int.lt_of_le_of_lt passed fits⟩, rfl⟩
    unfold windowEnd
    omega
  exact ⟨due.running, due.unpaused, e, _, due.epoch, due.registering, known,
    Int.le_trans passed ht⟩

/-- A step that neither configures the pool nor makes room for the close found it due. -/
theorem due_before_same (ha : a.reconfigures = false) (h : Effect rt w a w')
    (window : 0 ≤ w'.pool.registrationWindow) (later : since < w'.clock)
    (due : Due w' id e' since) : ∃ e, Due w id e since := by
  have same := effect_sameConfig ha h
  have params : w'.pool.registrationWindow = w.pool.registrationWindow :=
    congrArg Params.registrationWindow same.params
  have passed := due.passed
  unfold windowEnd at passed
  cases effect_registered h due.epoch due.registering with
  | inl opened => omega
  | inr before =>
      obtain ⟨e, he, hs, hopened, hends⟩ := before
      refine ⟨e, ?_, ?_, he, hs, ?_⟩
      · exact (congrArg Pauses.shutdown same.pauses).symm.trans due.running
      · exact (congrArg Pauses.jackpotPaused same.pauses).symm.trans due.unpaused
      · unfold windowEnd
        rw [hopened, hends, ← params]
        exact passed

theorem due_before_configured {now : World} {pool : Pool} {es : List Event}
    (config : Configured w a pool) (stop : since + now.pool.vrfTimeout + 1 = now.clock)
    (noRoom : makesRoom now id (w, a) = false)
    (due : Due ({ w with pool }.emit es) id e since) : Due w id e since := by
  have passed : windowEnd pool e ≤ since := due.passed
  have unpaused : pool.jackpotPaused = false := due.unpaused
  have running : pool.shutdown = false := due.running
  refine ⟨?_, ?_, due.epoch, due.registering, ?_⟩
  · cases config with
    | @featurePaused _ feature => cases feature <;> exact running
    | shutdown => exact nomatch running
    | _ => exact running
  · cases config with
    | @featurePaused _ feature paused =>
        cases feature with
        | game => exact unpaused
        | jackpot =>
            have lifted : paused = false := unpaused
            subst lifted
            exact noRoom
    | shutdown => exact nomatch unpaused
    | _ => exact unpaused
  · cases config with
    | @params _ args =>
        have epoch : w.epochs.lookup id = some e := due.epoch
        simp only [makesRoom, epoch, Option.any_some, Bool.and_eq_false_iff,
          decide_eq_false_iff_not] at noRoom
        have applied : (args.apply w.pool).registrationWindow =
          args.registrationWindow.getD w.pool.registrationWindow := rfl
        unfold windowEnd at *
        omega
    | @featurePaused _ feature => cases feature <;> exact passed
    | _ => exact passed

theorem due_before {now : World} (reachable : Reachable rt w) (h : Step rt w a w')
    (stop : since + now.pool.vrfTimeout + 1 = now.clock)
    (noRoom : makesRoom now id (w, a) = true → w.clock ≤ since) (later : since < w'.clock)
    (due : Due w' id e' since) : ∃ e, Due w id e since := by
  cases ha : a.reconfigures with
  | false =>
      exact due_before_same ha (step_effect h) (reachable_window (reachable.next h)) later due
  | true =>
      obtain ⟨pool, es, config, rfl⟩ := step_configured ha h
      refine ⟨e', due_before_configured config stop ?_ due⟩
      refine Bool.eq_false_iff.mpr fun room => ?_
      exact Int.lt_irrefl _ (Int.lt_of_lt_of_le later (noRoom room))

/-- Walking back from where the close is due, it was due ever since. -/
theorem accepted_since {now : World} (run : Run rt history w)
    (stop : since + now.pool.vrfTimeout + 1 = now.clock) (fits : since < i64Limit)
    (noRoom : ∀ x ∈ history, makesRoom now id x = true → x.1.clock ≤ since)
    (due : since < w.clock → ∃ e, Due w id e since) :
    AcceptedSince id since w.clock history := by
  obtain ⟨start, created, steps⟩ := run
  induction steps with
  | start => trivial
  | @next history u w a before h ih =>
      have reachable : Reachable rt u := ⟨history, start, created, before⟩
      have found : since < w.clock → ∃ e, Due u id e since := by
        intro later
        obtain ⟨e, due⟩ := due later
        exact due_before reachable h stop (noRoom _ (List.mem_cons_self ..)) later due
      refine ⟨?_, ih (fun x hx => noRoom x (List.mem_cons_of_mem _ hx)) ?_⟩
      · intro later
        obtain ⟨e, due⟩ := found later
        exact due.accepts reachable fits (Int.le_max_right ..)
      · intro later
        exact found (Int.lt_of_lt_of_le later (effect_clock (step_effect h)))

/-- What a rollover of a Registering epoch found. -/
theorem rollover_due {account : AccountInfo}
    (h : Step rt w (.rolloverEpoch id account) w') (he : w.epochs.lookup id = some e)
    (hs : e.status = .registering) :
    w.pool.jackpotPaused = false ∧ windowEnd w.pool e + w.pool.vrfTimeout < w.clock := by
  have h : rolloverEpoch rt id account w = .ok w' := h
  simp only [rolloverEpoch, bind_eq_ok, World.epoch_eq_ok] at h
  obtain ⟨x, hx, _, check, -⟩ := h
  obtain rfl := Option.some.inj (he.symm.trans hx)
  simp only [checkRollover, hs, bind_eq_ok, ensure_eq_ok, registrationClosesAt_eq_ok,
    addI64_eq_ok, exists_const] at check
  obtain ⟨unpaused, _, ⟨-, rfl⟩, _, ⟨-, rfl⟩, late⟩ := check
  exact ⟨unpaused, late⟩

/-- A stranger who rolls over an epoch that still registers comes after the
operator could have closed it for more than `vrf_timeout`, unless room for the
close was made within that time. -/
theorem rollover_after_close (run : Run rt history w) {account : AccountInfo}
    (h : Step rt w (.rolloverEpoch id account) w') (he : w.epochs.lookup id = some e)
    (hs : e.status = .registering)
    (noRoom : ∀ x ∈ history, makesRoom w id x = true →
      x.1.clock + w.pool.vrfTimeout < w.clock) : LongAccepted history w id := by
  have reachable := run.reachable
  obtain ⟨unpaused, late⟩ := rollover_due h he hs
  have running : w.pool.shutdown = false := by
    refine Bool.eq_false_iff.mpr fun shut => ?_
    have paused : w.pool.jackpotPaused = true := (reachable_consistent reachable shut).2.2
    rw [unpaused] at paused
    exact nomatch paused
  have timeout : (0 : Int) ≤ w.pool.vrfTimeout :=
    Int.le_trans (by decide) (reachable_inRange reachable).vrfTimeout
  have clock := (reachable_calendar reachable).clockRange.2
  let since := w.clock - w.pool.vrfTimeout - 1
  have due : Due w id e since := ⟨running, unpaused, he, hs, by omega⟩
  have fits : since < i64Limit := by omega
  have span : since + w.pool.vrfTimeout + 1 = w.clock := by omega
  refine ⟨due.accepts reachable fits (by omega), since, by omega, ?_⟩
  refine accepted_since run span fits ?_ fun _ => ⟨e, due⟩
  intro x hx room
  have before := noRoom x hx room
  omega

end Steps

theorem rollover_after_close_overdue : ∃ history w w', Run Demo.runtime history w ∧
    Step Demo.runtime w (.rolloverEpoch 1 ⟨⟨9⟩, []⟩) w' ∧ LongAccepted history w 1 := by
  obtain ⟨⟨history, w⟩, hrun, hcheck⟩ := exists_of_any
    (x := Demo.script [.setFeaturePause Demo.admin .jackpot false, .beginEpoch Demo.operator,
      .wait 1100, .beginEpoch Demo.operator, .wait 1161])
    (p := fun s => (perform Demo.runtime (.rolloverEpoch 1 ⟨⟨9⟩, []⟩) s.2).toOption.isSome &&
      ((s.2.epochs.lookup 1).any fun e => e.status = .registering) &&
      s.1.all fun x => !makesRoom s.2 1 x || x.1.clock + s.2.pool.vrfTimeout < s.2.clock)
    (by decide +kernel)
  simp only [Bool.and_eq_true, Option.any_eq_true, List.all_eq_true, decide_eq_true_eq,
    Option.isSome_iff_exists, Bool.or_eq_true, Bool.not_eq_true'] at hcheck
  obtain ⟨⟨⟨w', hw⟩, e, he, hs⟩, noRoom⟩ := hcheck
  have run := Demo.script_run hrun
  have step : Step Demo.runtime w (.rolloverEpoch 1 ⟨⟨9⟩, []⟩) w' := ok_of_toOption hw
  refine ⟨history, w, w', run, step, rollover_after_close run step he hs ?_⟩
  intro x hx room
  refine (noRoom x hx).resolve_left ?_
  rw [room]
  exact nofun

/-- The jackpot paused from 1100 to 1170: unpaused, the epoch is rolled over by a
stranger at that same instant. -/
theorem rollover_at_unpause : ∃ history w w', Run Demo.runtime history w ∧
    Step Demo.runtime w (.rolloverEpoch 1 ⟨⟨9⟩, []⟩) w' ∧
    (∃ e, w.epochs.lookup 1 = some e ∧ e.status = .registering) ∧
    ¬ LongAccepted history w 1 := by
  obtain ⟨⟨history, w⟩, hrun, hcheck⟩ := exists_of_any
    (x := Demo.script [.setFeaturePause Demo.admin .jackpot false, .beginEpoch Demo.operator,
      .wait 1100, .beginEpoch Demo.operator, .setFeaturePause Demo.operator .jackpot true,
      .wait 1170, .setFeaturePause Demo.admin .jackpot false])
    (p := fun s => (perform Demo.runtime (.rolloverEpoch 1 ⟨⟨9⟩, []⟩) s.2).toOption.isSome &&
      ((s.2.epochs.lookup 1).any fun e => e.status = .registering) &&
      (s.2.clock = 1170 && s.2.pool.vrfTimeout = 60) &&
      s.1.head?.any fun x => x.1.pool.jackpotPaused)
    (by decide +kernel)
  simp only [Bool.and_eq_true, Option.any_eq_true, decide_eq_true_eq,
    Option.isSome_iff_exists] at hcheck
  obtain ⟨⟨⟨⟨w', hw⟩, hepoch⟩, hclock, htimeout⟩, ⟨u, a⟩, hhead, paused⟩ := hcheck
  have step : Step Demo.runtime w (.rolloverEpoch 1 ⟨⟨9⟩, []⟩) w' := ok_of_toOption hw
  refine ⟨history, w, w', Demo.script_run hrun, step, hepoch, ?_⟩
  intro long
  obtain ⟨-, since, hsince, accepted⟩ := long
  obtain ⟨earlier, rfl⟩ := List.head?_eq_some_iff.mp hhead
  have unpaused := (accepted.1 (by omega)).2.1
  rw [paused] at unpaused
  exact nomatch unpaused

end HexVault
