import HexVault.Invariants.Calendar
import HexVault.Program.Configuration

/-!
Parameter validity. `create_pool` checks a full set of parameters and `set_params`
any part of one, so the constraints that join two parameters are checked twice:
all but one at both entries, and `payout_timeout < epoch_seconds` at the second
alone.
-/

namespace HexVault

open Fallible Runs

/-- What the program's later arithmetic relies on, all at once. -/
structure Params.Valid (params : Params) : Prop where
  closeBuffer : 0 ≤ params.closeBuffer ∧ params.closeBuffer < params.roundSeconds
  registrationWindow :
    0 ≤ params.registrationWindow ∧ params.registrationWindow < params.epochSeconds
  payoutTimeout :
    MIN_PAYOUT_TIMEOUT ≤ params.payoutTimeout ∧ params.payoutTimeout < params.epochSeconds
  vrfTimeout : MIN_VRF_TIMEOUT ≤ params.vrfTimeout
  basisPoints : params.houseCutBps ≤ BPS_DENOMINATOR ∧ params.baseRateBps ≤ BPS_DENOMINATOR ∧
    params.bonusCapBps ≤ BPS_DENOMINATOR
  ticketsPerUsdc : 0 < params.ticketsPerUsdc

/-- What both entries check: each range, and the first two joint constraints. -/
structure Pool.Checked (pool : Pool) : Prop where
  range : pool.InRange
  closeBuffer : pool.closeBuffer < pool.roundSeconds
  window : 0 ≤ pool.registrationWindow ∧ pool.registrationWindow < pool.epochSeconds

def Action.setsParams : Action → Bool
  | .setParams .. => true
  | _ => false

section Steps
variable {rt : Runtime} {history : History} {w w' start : World} {a : Action} {pool : Pool}
  {params : CreatePoolParams} {accounts : CreatePoolAccounts} {now : Int}

theorem Pool.Checked.valid_iff (checked : pool.Checked) :
    pool.params.Valid ↔ pool.payoutTimeout < pool.epochSeconds := by
  have range := checked.range
  constructor
  · intro valid
    exact valid.payoutTimeout.2
  · intro short
    exact ⟨⟨range.closeBuffer, checked.closeBuffer⟩, checked.window,
      ⟨range.payoutTimeout, short⟩, range.vrfTimeout,
      ⟨range.houseCutBps, range.baseRateBps, range.bonusCapBps⟩, range.ticketsPerUsdc⟩

/-- The pool `create_pool` leaves; its payout timeout it took as it came. -/
theorem createPool_checked (h : createPool params accounts now = .ok start) :
    start.pool.Checked ∧ start.pool.payoutTimeout = params.payoutTimeout ∧
      start.pool.epochSeconds = params.epochSeconds := by
  obtain ⟨valid, es, rfl⟩ := createPool_eq_ok h
  exact ⟨⟨valid.inRange accounts, valid.closeBuffer.2, valid.window⟩, rfl, rfl⟩

/-- Only `set_params` writes a parameter. -/
theorem step_sameParams (h : Step rt w a w') (other : a.setsParams = false) :
    w'.pool.params = w.pool.params := by
  cases ha : a.reconfigures with
  | false => exact (effect_sameConfig ha (step_effect h)).params
  | true =>
      obtain ⟨pool, es, config, rfl⟩ := step_configured ha h
      cases config with
      | params => exact nomatch other
      | @featurePaused _ feature => cases feature <;> rfl
      | _ => rfl

theorem Pool.Checked.congr {pool' : Pool} (checked : pool.Checked) (range : pool'.InRange)
    (same : pool'.params = pool.params) : pool'.Checked := by
  have round : pool'.roundSeconds = pool.roundSeconds := congrArg Params.roundSeconds same
  have buffer : pool'.closeBuffer = pool.closeBuffer := congrArg Params.closeBuffer same
  have epoch : pool'.epochSeconds = pool.epochSeconds := congrArg Params.epochSeconds same
  have window : pool'.registrationWindow = pool.registrationWindow :=
    congrArg Params.registrationWindow same
  refine ⟨range, ?_, ?_⟩
  · rw [round, buffer]
    exact checked.closeBuffer
  · rw [epoch, window]
    exact checked.window

/-- `set_params` leaves every constraint met. -/
theorem setParams_checked {admin : Signer} {args : SetParamsArgs}
    (h : Step rt w (.setParams admin args) w') (range : w.pool.InRange) :
    w'.pool.Checked ∧ w'.pool.payoutTimeout < w'.pool.epochSeconds := by
  obtain ⟨-, inRange, window, short, buffer, es, rfl⟩ := setParams_eq_ok h
  exact ⟨⟨inRange range, buffer, window⟩, short⟩

/-- The parameters are valid in every state of a run exactly when `create_pool` was
handed a payout timeout below the epoch's length, or `set_params` was called since. -/
theorem params_valid (created : createPool params accounts now = .ok start)
    (steps : Steps (Step rt) start history w) :
    w.pool.params.Valid ↔ params.payoutTimeout < params.epochSeconds ∨
      ∃ x ∈ history, x.2.setsParams = true := by
  have kept := steps.invariant (P := fun history w => w.pool.Checked ∧
    (w.pool.payoutTimeout < w.pool.epochSeconds ↔ params.payoutTimeout < params.epochSeconds ∨
      ∃ x ∈ history, x.2.setsParams = true)) ?_ ?_
  · exact kept.1.valid_iff.trans kept.2
  · obtain ⟨checked, timeout, epoch⟩ := createPool_checked created
    refine ⟨checked, ?_⟩
    rw [timeout, epoch]
    simp
  · intro history v b u _ hv h
    obtain ⟨checked, short⟩ := hv
    cases hb : b.setsParams with
    | true =>
        cases b with
        | setParams admin args =>
            obtain ⟨checked', short'⟩ := setParams_checked h checked.range
            exact ⟨checked', iff_of_true short' (.inr ⟨_, List.mem_cons_self .., hb⟩)⟩
        | _ => exact nomatch hb
    | false =>
        have same := step_sameParams h hb
        have timeout : u.pool.payoutTimeout = v.pool.payoutTimeout :=
          congrArg Params.payoutTimeout same
        have epoch : u.pool.epochSeconds = v.pool.epochSeconds :=
          congrArg Params.epochSeconds same
        refine ⟨checked.congr (effect_inRange (step_effect h) checked.range) same, ?_⟩
        rw [timeout, epoch, short]
        simp [hb]

end Steps

/-- Epochs of 1000 seconds leave room for the timeout of 600. -/
theorem params_valid_lengthened : ∃ start history w,
    createPool Demo.params Demo.accounts 1000 = .ok start ∧
    Steps (Step Demo.runtime) start history w ∧ w.pool.params.Valid := by
  obtain ⟨start, created, hchecks⟩ := exists_of_any
    (x := createPool Demo.params Demo.accounts 1000)
    (p := fun start => (perform Demo.runtime
      (.setParams Demo.admin (Demo.setEpochSeconds 1000)) start).toOption.isSome)
    (by decide +kernel)
  obtain ⟨w, hw⟩ := Option.isSome_iff_exists.mp hchecks
  have steps : Steps (Step Demo.runtime) start [(start, _)] w :=
    Steps.start.next (ok_of_toOption hw)
  exact ⟨start, _, w, created, steps,
    (params_valid created steps).mpr (.inr ⟨_, List.mem_cons_self .., rfl⟩)⟩

/-- A pool created with 100-second epochs and a payout timeout of 600. -/
theorem params_invalid : ∃ w, Reachable Demo.runtime w ∧ ¬ w.pool.params.Valid := by
  obtain ⟨⟨history, w⟩, hrun, hcheck⟩ := exists_of_any (x := Demo.script [])
    (p := fun s => s.2.pool.epochSeconds ≤ s.2.pool.payoutTimeout) (by decide +kernel)
  have long : w.pool.epochSeconds ≤ w.pool.payoutTimeout := of_decide_eq_true hcheck
  exact ⟨w, (Demo.script_run hrun).reachable,
    fun valid => absurd valid.payoutTimeout.2 (Int.not_lt.mpr long)⟩

end HexVault
