import HexVault.Invariants.Authority
import HexVault.Invariants.Ledger
import HexVault.Invariants.Maturity
import HexVault.Invariants.Reservation

/-!
Leaving a pool that has been shut down. Once every deployed token is back, the
principal vault covers what the books owe whatever leaves it and in whatever
order, the sweep included: no Player who is still in is ever short of funds.
-/

namespace HexVault

open Fallible Finmap Runs

/-- All deployed Principal is back: the vault covers the Players, the requests
still to be paid and the unspent yield. -/
def World.Funded (w : World) : Prop :=
  w.pool.totalPrincipal + w.pool.pendingWithdrawals + w.pool.yieldBudget ≤ w.principalVault

instance (w : World) : Decidable w.Funded := inferInstanceAs (Decidable (_ ≤ _))

/-- A step that sends Principal out to be lent. -/
def Action.deploys : Action → Bool
  | .adminWithdraw .. => true
  | _ => false

section Steps
variable {rt : Runtime} {w w' : World} {a : Action}

/-- What leaves the vault leaves the books with it. -/
theorem effect_funded (h : Effect rt w a w') (kept : a.deploys = false) (hi : w.Funded) :
    w'.Funded := by
  have books : w.pool.totalPrincipal + w.pool.pendingWithdrawals + w.pool.yieldBudget ≤
    w.principalVault := hi
  cases h with
  | principalReceived => exact Nat.le_add_right_of_le hi
  | reconfigured _ hr =>
      unfold World.Funded
      rw [World.emit_pool, hr.totalPrincipal, hr.pendingWithdrawals, hr.yieldBudget]
      exact hi
  | deposited =>
      simp only [World.Funded, World.emit_pool, World.emit_principalVault]
      omega
  | withdrawRequested _ _ _ htotal =>
      simp only [World.Funded, World.emit_pool, World.emit_principalVault]
      omega
  | withdrawn _ hv hn =>
      simp only [World.Funded, World.emit_pool, World.emit_principalVault]
      omega
  | principalDeployed => exact nomatch kept
  | emergencyWithdrawn _ _ _ _ hv hp hn =>
      simp only [World.Funded, World.emit_pool, World.emit_principalVault]
      omega
  | houseSwept _ hy hv =>
      simp only [World.Funded, World.emit_pool, World.emit_principalVault]
      omega
  | registeredNothing _ _ _ _ _ _ _ _ hb =>
      simp only [World.Funded, World.emit_pool, World.emit_principalVault, Pool.creditYield]
      omega
  | registered _ _ _ _ _ _ _ _ _ hb =>
      simp only [World.Funded, World.emit_pool, World.emit_principalVault, Pool.creditYield]
      omega
  | yieldFunded =>
      simp only [World.Funded, World.emit_pool, World.emit_principalVault]
      omega
  | paidPlayer =>
      simp only [World.Funded, World.emit_pool, World.emit_principalVault]
      omega
  | _ => exact hi

theorem span_funded {span : History} (steps : Steps (Step rt) w span w')
    (kept : ∀ x ∈ span, x.2.deploys = false) (hi : w.Funded) : w'.Funded := by
  refine steps.invariantWhile (P := fun _ w => w.Funded) hi ?_ kept
  intro history t a u _ hi hc h
  exact effect_funded (step_effect h) hc hi

/-- The vault's balance fits the token program's amounts. -/
theorem payout_vault {epochId : Nat} {owner : Pubkey} (hi : w.principalVault < u64Limit)
    (h : payout epochId owner w = .ok w') : w'.principalVault < u64Limit := by
  simp only [payout, payWinner, bind_eq_ok, ensure_eq_ok, subU_eq_ok, pure_eq_ok,
    exists_const] at h
  obtain ⟨_, -, _, -, -, -, -, paid, hpaid, _, -, rfl⟩ := h
  simp only [World.emit_principalVault]
  split at hpaid
  · simp only [payHouse, bind_eq_ok, transferOut_eq_ok, pure_eq_ok] at hpaid
    obtain ⟨_, -, _, -, rfl⟩ := hpaid
    exact hi
  · simp only [payPlayer, bind_eq_ok, transferOut_eq_ok, checkedAdd_eq_ok, pure_eq_ok] at hpaid
    obtain ⟨_, -, _, -, _, ⟨hv, rfl⟩, _, -, _, -, _, -, rfl⟩ := hpaid
    exact hv

theorem step_vault (h : Step rt w a w') (hi : w.principalVault < u64Limit) :
    w'.principalVault < u64Limit := by
  cases step_effect h with
  | principalReceived hv => exact hv
  | deposited _ _ _ hv => exact hv
  | yieldFunded hv => exact hv
  | paidPlayer => exact payout_vault hi h
  | withdrawn => exact Nat.lt_of_le_of_lt (Nat.sub_le _ _) hi
  | principalDeployed => exact Nat.lt_of_le_of_lt (Nat.sub_le _ _) hi
  | emergencyWithdrawn => exact Nat.lt_of_le_of_lt (Nat.sub_le _ _) hi
  | houseSwept => exact Nat.lt_of_le_of_lt (Nat.sub_le _ _) hi
  | _ => exact hi

theorem reachable_vault (h : Reachable rt w) : w.principalVault < u64Limit := by
  refine h.invariant (P := fun w => w.principalVault < u64Limit) ?_ fun _ hi hs => step_vault hs hi
  intro start created
  obtain ⟨params, accounts, now, -, -, h⟩ := created
  obtain ⟨-, es, rfl⟩ := createPool_eq_ok h
  show 0 < u64Limit
  decide

theorem emergencyWithdraw_covered {owner : Pubkey} {token : TokenAccount} {history : History}
    (ledger : w.Ledger history) (funded : w.Funded) :
    emergencyWithdraw owner token w ≠ .error (.vault .insufficientVault) := by
  have books : w.pool.totalPrincipal + w.pool.pendingWithdrawals + w.pool.yieldBudget ≤
    w.principalVault := funded
  intro h
  simp only [emergencyWithdraw, checkDestination, constraint, addU64, subU, transferOut,
    bind_eq_error, World.player_eq_error, World.player_eq_ok, ensure_eq_error, require_eq_error,
    checkedAdd_eq_error, checkedAdd_eq_ok, checkedSub_eq_error, pure_eq_error,
    ProgramError.vault.injEq, reduceCtorEq, and_false, and_true, false_or, or_false,
    exists_false] at h
  obtain ⟨account, ha, _, -, ht | ⟨player, ht, _, -, _, -, total, ⟨-, rfl⟩, _, -, short⟩⟩ := h
  · cases touch_eq_error ht
  · have same := touch_sameHoldings ht
    have within := ledger.le ha
    have hp := same.principal
    have hn := same.pendingWithdraw
    omega

theorem processWithdraw_covered {owner : Pubkey} {token : TokenAccount} {history : History}
    (ledger : w.Ledger history) (funded : w.Funded) :
    processWithdraw owner token w ≠ .error (.vault .insufficientVaultLiquidity) := by
  have books : w.pool.totalPrincipal + w.pool.pendingWithdrawals + w.pool.yieldBudget ≤
    w.principalVault := funded
  intro h
  simp only [processWithdraw, checkDestination, constraint, addI64, subU, transferOut,
    bind_eq_error, World.player_eq_error, World.player_eq_ok, ensure_eq_error, require_eq_error,
    checkedSigned_eq_error, checkedSub_eq_error, pure_eq_error, ProgramError.vault.injEq,
    reduceCtorEq, and_false, and_true, false_or, or_false, exists_false] at h
  obtain ⟨player, ha, _, -, _, -, deadline, -, _, -, short⟩ := h
  have within := ledger.le ha
  omega

/-- What a sweep takes from the principal vault is spare. -/
theorem sweepHouse_spares {admin : Signer} (h : Step rt w (.sweepHouse admin) w')
    (funded : w.Funded) :
    w'.pool.totalPrincipal + w'.pool.pendingWithdrawals ≤ w'.principalVault :=
  Nat.le_trans (Nat.le_add_right _ _) (effect_funded (step_effect h) rfl funded)

/-- A Player paid the whole of its balance, and left with nothing to be paid. -/
structure PaidOut (w : World) (owner : Pubkey) (p : Player) (w' : World) : Prop where
  paid : w.principalVault = w'.principalVault + (p.principal + p.pendingWithdraw)
  cleared : ∃ q, w'.players.lookup owner = some q ∧ q.principal = 0 ∧ q.pendingWithdraw = 0

/-- Nothing refuses a Player its exit from a vault that covers its balance. -/
theorem emergencyWithdraw_returns {owner : Pubkey} {token : TokenAccount} {p q : Player}
    {history : History} (ledger : w.Ledger history) (fits : w.principalVault < u64Limit)
    (shut : w.pool.shutdown = true) (hp : w.players.lookup owner = some p)
    (player : p.isHouse = false) (balance : 0 < p.principal + p.pendingWithdraw)
    (covered : p.principal + p.pendingWithdraw ≤ w.principalVault)
    (target : token.mint = w.pool.acceptedMint ∧ token.authority = p.owner)
    (ht : touch p w.pool w.clock = .ok q) :
    Returns (emergencyWithdraw owner token w) := by
  have within := ledger.le hp
  have same := touch_sameHoldings ht
  rw [← same.principal, ← same.pendingWithdraw] at covered balance within
  rw [← same.isHouse] at player
  refine .bind (World.player_eq_ok.mpr hp) (.check (checkDestination_eq_ok.mpr target) ?_)
  refine .bind ht (.guard shut (.guard player ?_))
  refine .bind (addU64_eq_ok.mpr ⟨Nat.lt_of_le_of_lt covered fits, rfl⟩) ?_
  refine .guard balance (.guard covered ?_)
  refine .bind (subU_eq_ok.mpr ⟨within.1, rfl⟩) (.bind (subU_eq_ok.mpr ⟨within.2, rfl⟩) ?_)
  exact .bind (transferOut_eq_ok.mpr ⟨covered, rfl⟩) (.pure _)

theorem emergencyWithdraw_pays {owner : Pubkey} {token : TokenAccount} {p q : Player}
    {history : History} (ledger : w.Ledger history) (funded : w.Funded)
    (fits : w.principalVault < u64Limit) (shut : w.pool.shutdown = true)
    (hp : w.players.lookup owner = some p) (player : p.isHouse = false)
    (balance : 0 < p.principal + p.pendingWithdraw)
    (target : token.mint = w.pool.acceptedMint ∧ token.authority = p.owner)
    (ht : touch p w.pool w.clock = .ok q) :
    ∃ w', Step rt w (.emergencyWithdraw owner token) w' ∧ PaidOut w owner p w' := by
  have books : w.pool.totalPrincipal + w.pool.pendingWithdrawals + w.pool.yieldBudget ≤
    w.principalVault := funded
  have within := ledger.le hp
  have covered : p.principal + p.pendingWithdraw ≤ w.principalVault := by omega
  obtain ⟨w', h⟩ :=
    emergencyWithdraw_returns ledger fits shut hp player balance covered target ht
  have step : Step rt w (.emergencyWithdraw owner token) w' := h
  refine ⟨w', step, ?_⟩
  cases step_effect step with
  | reconfigured ha => exact nomatch ha
  | emergencyWithdrawn ha ht' _ _ hv =>
      obtain rfl := Option.some.inj (hp.symm.trans ha)
      have same := touch_sameHoldings ht'
      rw [same.principal, same.pendingWithdraw] at hv
      refine ⟨?_, _, lookup_insert _, rfl, rfl⟩
      simp only [World.emit_principalVault, same.principal, same.pendingWithdraw]
      omega

theorem Reachable.span {span : History} (h : Reachable rt w)
    (steps : Steps (Step rt) w span w') : Reachable rt w' := by
  obtain ⟨history, start, created, before⟩ := h
  exact ⟨_, start, created, before.append steps⟩

/-- The ways out of a pool that was shut down with its funds back. -/
structure ExitsOpen (rt : Runtime) (w : World) : Prop where
  emergency : ∀ owner token,
    emergencyWithdraw owner token w ≠ .error (.vault .insufficientVault)
  pending : ∀ owner token,
    processWithdraw owner token w ≠ .error (.vault .insufficientVaultLiquidity)
  swept : ∀ admin w', Step rt w (.sweepHouse admin) w' →
    w'.pool.totalPrincipal + w'.pool.pendingWithdrawals ≤ w'.principalVault ∧
      w'.pool.jackpotReserved ≤ w'.jackpotVault
  /-- A Player with a balance is paid the whole of it, unless its own touch overflows. -/
  paid : ∀ owner token p, w.players.lookup owner = some p → p.isHouse = false →
    0 < p.principal + p.pendingWithdraw →
    token.mint = w.pool.acceptedMint ∧ token.authority = p.owner →
    ((∃ w', Step rt w (.emergencyWithdraw owner token) w' ∧ PaidOut w owner p w') ↔
      ∃ q, touch p w.pool w.clock = .ok q)

theorem shutdown_exits {span : History} (reachable : Reachable rt w)
    (shut : w.pool.shutdown = true) (funded : w.Funded) (steps : Steps (Step rt) w span w')
    (kept : ∀ x ∈ span, x.2.deploys = false) : ExitsOpen rt w' := by
  have reached := reachable.span steps
  have still := shutdown_final steps shut
  have covered := span_funded steps kept funded
  obtain ⟨history, run⟩ := reached
  have ledger := run_ledger run
  refine ⟨fun _ _ => emergencyWithdraw_covered ledger covered,
    fun _ _ => processWithdraw_covered ledger covered, ?_, ?_⟩
  · intro admin v h
    exact ⟨sweepHouse_spares h covered, (reachable_reservation (run.reachable.next h)).covered⟩
  · intro owner token p hp player balance target
    constructor
    · intro paid
      obtain ⟨v, h, -⟩ := paid
      cases step_effect h with
      | reconfigured ha => exact nomatch ha
      | emergencyWithdrawn ha ht =>
          obtain rfl := Option.some.inj (hp.symm.trans ha)
          exact ⟨_, ht⟩
    · intro touched
      obtain ⟨q, ht⟩ := touched
      exact emergencyWithdraw_pays ledger covered (reachable_vault run.reachable) still hp player
        balance target ht

end Steps

/-! A shutdown with its funds back, and one after rounds that end in the far future. -/

namespace Demo

def shutDown : List Action :=
  [.deposit (signer 3) (wallet (signer 3)) 100, .deposit (signer 4) (wallet (signer 4)) 50,
    .fundYield (signer 4) (wallet (signer 4)) 7, .requestWithdraw (signer 3) 30,
    .shutdown admin]

def setCloseBuffer (seconds : Int) : SetParamsArgs :=
  { setEpochSeconds 2000 with closeBuffer := some seconds }

/-- A round to the last second of the clock's type, bought and settled at once
by way of `close_buffer`: the stake comes back, its Weight up to the end stays. -/
def farRound (id : Nat) : List Action :=
  [.createRound operator 0 (2 ^ 63 - 1), .buyPosition (signer 3) id 1 (2 ^ 64 - 1),
    .setParams admin (setCloseBuffer (2 ^ 63 - 1001)),
    .requestRoundRandomness id ⟨9⟩ (List.replicate 32 0),
    .settleRound id ⟨⟨9⟩, List.replicate 8 0 ++ [1] ++ List.replicate 128 0⟩,
    .settlePosition id ⟨3⟩, .setParams admin (setCloseBuffer 2)]

def overflowing : List Action :=
  [.setParams admin { setEpochSeconds 2000 with roundSeconds := some (2 ^ 63 - 1) },
    .setFeaturePause admin .game false,
    .deposit (signer 3) { wallet (signer 3) with amount := 2 ^ 64 - 1 } (2 ^ 64 - 1)] ++
  farRound 1 ++ farRound 2 ++ [.shutdown admin, .wait 5000]

end Demo

theorem shutdown_exits_swept : ∃ w span w', Steps (Step Demo.runtime) w span w' ∧
    span.length = 2 ∧ w'.principalVault = 50 ∧ ExitsOpen Demo.runtime w' := by
  let player := Demo.signer 3
  obtain ⟨⟨history, w⟩, hrun, hcheck⟩ := exists_of_any (x := Demo.script Demo.shutDown)
    (p := fun s => s.2.pool.shutdown && decide s.2.Funded &&
      (replay Demo.runtime [.sweepHouse Demo.admin, .emergencyWithdraw ⟨3⟩ (Demo.wallet player)]
        ([], s.2)).toOption.any fun t => t.1.all (fun x => !x.2.deploys) &&
          t.1.length = 2 && t.2.principalVault = 50)
    (by decide +kernel)
  simp only [Bool.and_eq_true, decide_eq_true_eq] at hcheck
  obtain ⟨⟨shut, funded⟩, later⟩ := hcheck
  obtain ⟨⟨span, w'⟩, hspan, hcheck⟩ := exists_of_any later
  simp only [Bool.and_eq_true, List.all_eq_true, Bool.not_eq_true', decide_eq_true_eq] at hcheck
  obtain ⟨⟨kept, length⟩, vault⟩ := hcheck
  have steps := replay_steps .start hspan
  exact ⟨w, span, w', steps, length, vault,
    shutdown_exits (Demo.script_run hrun).reachable shut funded steps kept⟩

/-- A Player whose Weight is too near the end of its type is refused its exit. -/
theorem shutdown_refused : ∃ w p, Reachable Demo.runtime w ∧ w.pool.shutdown = true ∧
    w.Funded ∧ w.players.lookup ⟨3⟩ = some p ∧ p.isHouse = false ∧
    0 < p.principal + p.pendingWithdraw ∧
    ∀ token w', ¬ Step Demo.runtime w (.emergencyWithdraw ⟨3⟩ token) w' := by
  obtain ⟨⟨history, w⟩, hrun, hcheck⟩ := exists_of_any (x := Demo.script Demo.overflowing)
    (p := fun s => s.2.pool.shutdown && decide s.2.Funded &&
      (s.2.players.lookup ⟨3⟩).any fun p => p.isHouse = false &&
        0 < p.principal + p.pendingWithdraw && (touch p s.2.pool s.2.clock).toOption.isNone)
    (by decide +kernel)
  simp only [Bool.and_eq_true, Option.any_eq_true, decide_eq_true_eq] at hcheck
  obtain ⟨⟨shut, funded⟩, p, hp, ⟨player, balance⟩, overflow⟩ := hcheck
  refine ⟨w, p, (Demo.script_run hrun).reachable, shut, funded, hp, player, balance, ?_⟩
  intro token w' h
  cases step_effect h with
  | reconfigured ha => exact nomatch ha
  | emergencyWithdrawn ha ht =>
      obtain rfl := Option.some.inj (hp.symm.trans ha)
      rw [ht] at overflow
      exact nomatch overflow

end HexVault
