import HexVault.Program.Inversion

/-!
Roles, parameters and pauses. Seven instructions write them, each under its own
guard, and `Configured` says what each may write; every other step leaves the
whole configuration as it was.
-/

namespace HexVault

open Fallible

/-- The keys a pool answers to and the accounts it is bound to. -/
structure Roles where
  admin : Pubkey
  operator : Pubkey
  pendingAdmin : Pubkey
  house : Pubkey
  acceptedMint : Pubkey
  treasury : Pubkey
  buybackReserve : Pubkey
  deriving DecidableEq, Repr

structure Params where
  epochSeconds : Int
  epochAnchor : Int
  roundSeconds : Int
  closeBuffer : Int
  vrfTimeout : Int
  minDeposit : Nat
  houseCutBps : Nat
  minJackpot : Nat
  registrationWindow : Int
  payoutTimeout : Int
  baseRateBps : Nat
  ticketsPerUsdc : Nat
  bonusCapBps : Nat
  deriving DecidableEq, Repr

structure Pauses where
  paused : Bool
  gamePaused : Bool
  jackpotPaused : Bool
  shutdown : Bool
  deriving DecidableEq, Repr

def Pool.roles (pool : Pool) : Roles where
  admin := pool.admin
  operator := pool.operator
  pendingAdmin := pool.pendingAdmin
  house := pool.house
  acceptedMint := pool.acceptedMint
  treasury := pool.treasury
  buybackReserve := pool.buybackReserve

def Pool.params (pool : Pool) : Params where
  epochSeconds := pool.epochSeconds
  epochAnchor := pool.epochAnchor
  roundSeconds := pool.roundSeconds
  closeBuffer := pool.closeBuffer
  vrfTimeout := pool.vrfTimeout
  minDeposit := pool.minDeposit
  houseCutBps := pool.houseCutBps
  minJackpot := pool.minJackpot
  registrationWindow := pool.registrationWindow
  payoutTimeout := pool.payoutTimeout
  baseRateBps := pool.baseRateBps
  ticketsPerUsdc := pool.ticketsPerUsdc
  bonusCapBps := pool.bonusCapBps

def Pool.pauses (pool : Pool) : Pauses where
  paused := pool.paused
  gamePaused := pool.gamePaused
  jackpotPaused := pool.jackpotPaused
  shutdown := pool.shutdown

/-- The pool with one of its two features paused or not. -/
def Pool.pauseFeature (pool : Pool) (feature : PauseFeature) (paused : Bool) : Pool :=
  match feature with
  | .game => { pool with gamePaused := paused }
  | .jackpot => { pool with jackpotPaused := paused }

/-- What a reconfiguring instruction may write, with the guards it passed. -/
inductive Configured (w : World) : Action → Pool → Prop
  | params {admin : Signer} {args : SetParamsArgs} : admin.key = w.pool.admin →
      0 ≤ (args.apply w.pool).registrationWindow →
      (args.apply w.pool).registrationWindow < (args.apply w.pool).epochSeconds →
      Configured w (.setParams admin args) (args.apply w.pool)
  | paused {signer : Signer} {paused : Bool} : mayPause w.pool signer.key paused →
      (paused = true ∨ w.pool.shutdown = false) →
      Configured w (.setPause signer paused) { w.pool with paused }
  | featurePaused {signer : Signer} {feature : PauseFeature} {paused : Bool} :
      mayPause w.pool signer.key paused → (paused = true ∨ w.pool.shutdown = false) →
      Configured w (.setFeaturePause signer feature paused) (w.pool.pauseFeature feature paused)
  | shutdown {admin : Signer} : admin.key = w.pool.admin → w.pool.shutdown = false →
      Configured w (.shutdown admin) { w.pool with
        shutdown := true, paused := true, gamePaused := true, jackpotPaused := true }
  | operator {admin : Signer} {newOperator : Pubkey} : admin.key = w.pool.admin →
      Configured w (.setOperator admin newOperator) { w.pool with operator := newOperator }
  | proposed {admin : Signer} {newAdmin : Pubkey} : admin.key = w.pool.admin →
      Configured w (.proposeAdmin admin newAdmin) { w.pool with pendingAdmin := newAdmin }
  | accepted {pendingAdmin : Signer} : w.pool.pendingAdmin ≠ Pubkey.default →
      pendingAdmin.key = w.pool.pendingAdmin →
      Configured w (.acceptAdmin pendingAdmin)
        { w.pool with admin := w.pool.pendingAdmin, pendingAdmin := Pubkey.default }

section Steps
variable {rt : Runtime} {w w' : World} {a : Action}

theorem setParams_configured {admin : Signer} {args : SetParamsArgs}
    (h : setParams admin args w = .ok w') : ∃ pool es,
      Configured w (.setParams admin args) pool ∧ w' = { w with pool }.emit es := by
  obtain ⟨hadmin, -, window, -, -, es, rfl⟩ := setParams_eq_ok h
  exact ⟨_, es, .params hadmin window.1 window.2, rfl⟩

theorem setPause_configured {signer : Signer} {paused : Bool}
    (h : setPause signer paused w = .ok w') : ∃ pool es,
      Configured w (.setPause signer paused) pool ∧ w' = { w with pool }.emit es := by
  simp only [setPause, bind_eq_ok, ensure_eq_ok, pure_eq_ok, exists_const] at h
  obtain ⟨may, hopen, rfl⟩ := h
  exact ⟨_, _, .paused may hopen, rfl⟩

theorem setFeaturePause_configured {signer : Signer} {feature : PauseFeature} {paused : Bool}
    (h : setFeaturePause signer feature paused w = .ok w') : ∃ pool es,
      Configured w (.setFeaturePause signer feature paused) pool ∧
        w' = { w with pool }.emit es := by
  simp only [setFeaturePause, bind_eq_ok, ensure_eq_ok, pure_eq_ok, exists_const] at h
  obtain ⟨may, hopen, rfl⟩ := h
  exact ⟨_, _, .featurePaused may hopen, rfl⟩

theorem shutdown_configured {admin : Signer} (h : shutdown admin w = .ok w') : ∃ pool es,
    Configured w (.shutdown admin) pool ∧ w' = { w with pool }.emit es := by
  simp only [shutdown, bind_eq_ok, constraint_eq_ok, ensure_eq_ok, pure_eq_ok,
    exists_const] at h
  obtain ⟨hadmin, hopen, rfl⟩ := h
  exact ⟨_, _, .shutdown hadmin hopen, rfl⟩

theorem setOperator_configured {admin : Signer} {newOperator : Pubkey}
    (h : setOperator admin newOperator w = .ok w') : ∃ pool es,
      Configured w (.setOperator admin newOperator) pool ∧ w' = { w with pool }.emit es := by
  simp only [setOperator, bind_eq_ok, constraint_eq_ok, pure_eq_ok, exists_const] at h
  obtain ⟨hadmin, rfl⟩ := h
  exact ⟨_, _, .operator hadmin, rfl⟩

theorem proposeAdmin_configured {admin : Signer} {newAdmin : Pubkey}
    (h : proposeAdmin admin newAdmin w = .ok w') : ∃ pool es,
      Configured w (.proposeAdmin admin newAdmin) pool ∧ w' = { w with pool }.emit es := by
  simp only [proposeAdmin, bind_eq_ok, constraint_eq_ok, pure_eq_ok, exists_const] at h
  obtain ⟨hadmin, rfl⟩ := h
  exact ⟨_, _, .proposed hadmin, rfl⟩

theorem acceptAdmin_configured {pendingAdmin : Signer}
    (h : acceptAdmin pendingAdmin w = .ok w') : ∃ pool es,
      Configured w (.acceptAdmin pendingAdmin) pool ∧ w' = { w with pool }.emit es := by
  simp only [acceptAdmin, bind_eq_ok, ensure_eq_ok, pure_eq_ok, exists_const] at h
  obtain ⟨proposed, signed, rfl⟩ := h
  exact ⟨_, _, .accepted proposed signed, rfl⟩

theorem step_configured (ha : a.reconfigures = true) (h : Step rt w a w') :
    ∃ pool es, Configured w a pool ∧ w' = { w with pool }.emit es := by
  cases a with
  | setParams admin args => exact setParams_configured h
  | setPause signer paused => exact setPause_configured h
  | setFeaturePause signer feature paused => exact setFeaturePause_configured h
  | shutdown admin => exact shutdown_configured h
  | setOperator admin newOperator => exact setOperator_configured h
  | proposeAdmin admin newAdmin => exact proposeAdmin_configured h
  | acceptAdmin pendingAdmin => exact acceptAdmin_configured h
  | _ => exact nomatch ha

/-- The same roles, parameters and pauses. -/
structure SameConfig (pool pool' : Pool) : Prop where
  roles : pool'.roles = pool.roles
  params : pool'.params = pool.params
  pauses : pool'.pauses = pool.pauses

theorem effect_sameConfig (ha : a.reconfigures = false) (h : Effect rt w a w') :
    SameConfig w.pool w'.pool := by
  cases h with
  | reconfigured config =>
      rw [config] at ha
      exact nomatch ha
  | _ => exact ⟨rfl, rfl, rfl⟩

/-- Shutdown implies all three pauses. -/
def Pauses.Consistent (pauses : Pauses) : Prop :=
  pauses.shutdown = true →
    pauses.paused = true ∧ pauses.gamePaused = true ∧ pauses.jackpotPaused = true

theorem configured_consistent {pool : Pool} (h : Configured w a pool)
    (hi : w.pool.pauses.Consistent) : pool.pauses.Consistent := by
  cases h with
  | @paused _ paused _ hopen =>
      intro shut
      have shut : w.pool.shutdown = true := shut
      have old := hi shut
      rw [shut] at hopen
      exact ⟨hopen.resolve_right nofun, old.2⟩
  | @featurePaused _ feature paused _ hopen =>
      intro shut
      cases feature with
      | game =>
          have shut : w.pool.shutdown = true := shut
          have old := hi shut
          rw [shut] at hopen
          exact ⟨old.1, hopen.resolve_right nofun, old.2.2⟩
      | jackpot =>
          have shut : w.pool.shutdown = true := shut
          have old := hi shut
          rw [shut] at hopen
          exact ⟨old.1, old.2.1, hopen.resolve_right nofun⟩
  | shutdown => exact fun _ => ⟨rfl, rfl, rfl⟩
  | _ => exact hi

theorem reachable_consistent (h : Reachable rt w) : w.pool.pauses.Consistent := by
  refine h.invariant (P := fun w => w.pool.pauses.Consistent) ?_ ?_
  · intro start created
    obtain ⟨params, accounts, now, -, -, h⟩ := created
    simp only [createPool, bind_eq_ok, ensure_eq_ok, pure_eq_ok, exists_const] at h
    obtain ⟨-, -, _, -, -, rfl⟩ := h
    intro shut
    cases shut
  · intro w a w' _ hi hs
    cases ha : a.reconfigures with
    | false =>
        have same := (effect_sameConfig ha (step_effect hs)).pauses
        exact same ▸ hi
    | true =>
        obtain ⟨pool, es, config, rfl⟩ := step_configured ha hs
        exact configured_consistent config hi

end Steps

end HexVault
