import HexVault.Program.Inversion

/-!
The custody ledger: what the principal vault holds and what it owes. Deployments
by the admin and plain transfers into the vault are read off the history, since
no account counts them.
-/

namespace HexVault

open Finmap

/-- What a step sends out to be lent. -/
def Action.deployed : Action → Nat
  | .adminWithdraw _ amount => amount
  | _ => 0

/-- What a step brings into the principal vault with no instruction behind it. -/
def Action.returned : Action → Nat
  | .transferToPrincipalVault amount => amount
  | _ => 0

def deployed : History → Nat
  | [] => 0
  | x :: history => deployed history + x.2.deployed

def returned : History → Nat
  | [] => 0
  | x :: history => returned history + x.2.returned

def principalOf (_ : Pubkey) (player : Player) : Nat := player.principal

def pendingOf (_ : Pubkey) (player : Player) : Nat := player.pendingWithdraw

/-- The vault against the books, and the books against the accounts. -/
structure Ledger (deployed returned vault totalPrincipal pendingWithdrawals yieldBudget : Nat)
    (players : Finmap fun _ : Pubkey => Player) : Prop where
  vault : vault + deployed = totalPrincipal + pendingWithdrawals + yieldBudget + returned
  principal : totalPrincipal = total principalOf players
  pending : pendingWithdrawals = total pendingOf players

section Writes
variable {d r v t n y : Nat} {players : Finmap fun _ : Pubkey => Player} {owner : Pubkey}
  {p q : Player}

/-- A Player rewritten with the same Principal and the same request. -/
theorem Ledger.same (hi : Ledger d r v t n y players) (h : players.lookup owner = some p)
    (hp : q.principal = p.principal) (hn : q.pendingWithdraw = p.pendingWithdraw) :
    Ledger d r v t n y (players.insert owner q) where
  vault := hi.vault
  principal := by rw [total_insert_of_eq h hp]; exact hi.principal
  pending := by rw [total_insert_of_eq h hn]; exact hi.pending

/-- A Player rewritten: the books move by as much as the account does. -/
theorem Ledger.write {d' r' v' t' n' y' : Nat} (hi : Ledger d r v t n y players)
    (h : players.lookup owner = some p)
    (hp : t' + p.principal = t + q.principal)
    (hn : n' + p.pendingWithdraw = n + q.pendingWithdraw)
    (hv : v' + d' = t' + n' + y' + r') :
    Ledger d' r' v' t' n' y' (players.insert owner q) where
  vault := hv
  principal := by
    have hsum := total_insert_add principalOf h q
    have hold := hi.principal
    simp only [principalOf] at hsum hold ⊢
    omega
  pending := by
    have hsum := total_insert_add pendingOf h q
    have hold := hi.pending
    simp only [pendingOf] at hsum hold ⊢
    omega

theorem Ledger.create {d' r' v' t' n' y' : Nat} (hi : Ledger d r v t n y players)
    (hp : t' + ((players.lookup owner).getD Player.zeroed).principal = t + q.principal)
    (hn : n' + ((players.lookup owner).getD Player.zeroed).pendingWithdraw =
      n + q.pendingWithdraw)
    (hv : v' + d' = t' + n' + y' + r') :
    Ledger d' r' v' t' n' y' (players.insert owner q) where
  vault := hv
  principal := by
    have hsum := total_insert_getD principalOf (k := owner) (d := Player.zeroed) rfl players q
    have hold := hi.principal
    simp only [principalOf] at hsum hold ⊢
    omega
  pending := by
    have hsum := total_insert_getD pendingOf (k := owner) (d := Player.zeroed) rfl players q
    have hold := hi.pending
    simp only [pendingOf] at hsum hold ⊢
    omega

/-- The principal and the request of one account are within the pool's totals. -/
theorem Ledger.le (hi : Ledger d r v t n y players) (h : players.lookup owner = some p) :
    p.principal ≤ t ∧ p.pendingWithdraw ≤ n := by
  rw [hi.principal, hi.pending]
  exact ⟨le_total principalOf h, le_total pendingOf h⟩

end Writes

def World.Ledger (w : World) (history : History) : Prop :=
  HexVault.Ledger (deployed history) (returned history) w.principalVault w.pool.totalPrincipal
    w.pool.pendingWithdrawals w.pool.yieldBudget w.players

theorem initIfFresh_holdings (account : Player) (owner : Pubkey) (pool : Pool) (now : Int) :
    (account.initIfFresh owner pool now).principal = account.principal ∧
      (account.initIfFresh owner pool now).pendingWithdraw = account.pendingWithdraw := by
  unfold Player.initIfFresh
  split <;> exact ⟨rfl, rfl⟩

theorem created_ledger {w : World} (h : Created w) : w.Ledger [] := by
  obtain ⟨params, accounts, now, -, -, h⟩ := h
  simp only [createPool, Fallible.bind_eq_ok, ensure_eq_ok, Fallible.pure_eq_ok,
    exists_const] at h
  obtain ⟨-, -, _, -, -, rfl⟩ := h
  have hne : params.operator ∉ (∅ : Finmap fun _ : Pubkey => Player) := notMem_empty
  refine ⟨rfl, ?_, ?_⟩
  all_goals rfl

theorem reconfigures_moves_nothing {a : Action} (h : a.reconfigures = true) :
    a.deployed = 0 ∧ a.returned = 0 := by
  cases a <;> first | exact ⟨rfl, rfl⟩ | exact nomatch h

/-- A Base-yield credit moves the budget into one Player's Principal. -/
theorem Ledger.credit {w : World} {d r : Nat} {owner : Pubkey} {p q q' : Player}
    {credited : Nat}
    (hi : HexVault.Ledger d r w.principalVault w.pool.totalPrincipal w.pool.pendingWithdrawals
      w.pool.yieldBudget w.players)
    (ha : w.players.lookup owner = some p) (hq : YieldTouch w p credited q)
    (hb : credited ≤ w.pool.yieldBudget) (hp : q'.principal = q.principal + credited)
    (hn : q'.pendingWithdraw = q.pendingWithdraw) :
    HexVault.Ledger d r w.principalVault (w.pool.creditYield credited).totalPrincipal
      (w.pool.creditYield credited).pendingWithdrawals
      (w.pool.creditYield credited).yieldBudget (w.players.insert owner q') := by
  have same := hq.sameHoldings
  have hprincipal := same.principal
  have hpending := same.pendingWithdraw
  have books := hi.vault
  apply Ledger.write hi ha
  · simp only [Pool.creditYield]
    omega
  · simp only [Pool.creditYield]
    omega
  · simp only [Pool.creditYield]
    omega

section Steps
variable {rt : Runtime} {w w' : World} {a : Action} {history : History}

/-- A step that touches one account and writes it: the books move by as much as the account does,
and the vault by as much as the books and what is lent. -/
theorem World.Ledger.moved {owner : Pubkey} {p q r : Player} (hi : w.Ledger history)
    (ha : w.players.lookup owner = some p) (same : p.SameHoldings q)
    (players : w'.players = w.players.insert owner r)
    (principal : w'.pool.totalPrincipal + q.principal = w.pool.totalPrincipal + r.principal)
    (pending : w'.pool.pendingWithdrawals + q.pendingWithdraw =
      w.pool.pendingWithdrawals + r.pendingWithdraw)
    (vault : w'.principalVault + a.deployed +
        (w.pool.totalPrincipal + w.pool.pendingWithdrawals + w.pool.yieldBudget) =
      w.principalVault + a.returned +
        (w'.pool.totalPrincipal + w'.pool.pendingWithdrawals + w'.pool.yieldBudget)) :
    w'.Ledger ((w, a) :: history) := by
  have books := hi.vault
  have hprincipal := same.principal
  have hpending := same.pendingWithdraw
  rw [World.Ledger, players]
  refine Ledger.write hi ha (by omega) (by omega) ?_
  simp only [HexVault.deployed, HexVault.returned]
  omega

/-- A step that writes no account. -/
theorem World.Ledger.lent (hi : w.Ledger history) (players : w'.players = w.players)
    (principal : w'.pool.totalPrincipal = w.pool.totalPrincipal)
    (pending : w'.pool.pendingWithdrawals = w.pool.pendingWithdrawals)
    (vault : w'.principalVault + a.deployed + w.pool.yieldBudget =
      w.principalVault + a.returned + w'.pool.yieldBudget) :
    w'.Ledger ((w, a) :: history) := by
  have books := hi.vault
  refine ⟨?_, principal.trans (players ▸ hi.principal), pending.trans (players ▸ hi.pending)⟩
  simp only [HexVault.deployed, HexVault.returned]
  omega

theorem deposited_ledger {owner : Signer} {token : TokenAccount} {amount : Nat} {q r : Player}
    (hi : w.Ledger history)
    (ht : touch (((w.players.lookup owner.key).getD Player.zeroed).initIfFresh owner.key w.pool
      w.clock) w.pool w.clock = .ok q)
    (players : w'.players = w.players.insert owner.key r)
    (principal : w'.pool.totalPrincipal + q.principal = w.pool.totalPrincipal + r.principal)
    (pending : w'.pool.pendingWithdrawals + q.pendingWithdraw =
      w.pool.pendingWithdrawals + r.pendingWithdraw)
    (vault : w'.principalVault +
        (w.pool.totalPrincipal + w.pool.pendingWithdrawals + w.pool.yieldBudget) =
      w.principalVault +
        (w'.pool.totalPrincipal + w'.pool.pendingWithdrawals + w'.pool.yieldBudget)) :
    w'.Ledger ((w, .deposit owner token amount) :: history) := by
  have books := hi.vault
  have same := touch_sameHoldings ht
  have hprincipal := same.principal
  have hpending := same.pendingWithdraw
  obtain ⟨fresh, freshPending⟩ := initIfFresh_holdings
    ((w.players.lookup owner.key).getD Player.zeroed) owner.key w.pool w.clock
  rw [World.Ledger, players]
  refine Ledger.create hi (by omega) (by omega) ?_
  simp only [HexVault.deployed, HexVault.returned, Action.deployed, Action.returned]
  omega

theorem effect_ledger (h : Effect rt w a w') (hi : w.Ledger history) :
    w'.Ledger ((w, a) :: history) := by
  cases h with
  | principalReceived hv =>
      refine hi.lent rfl rfl rfl ?_
      simp only [Action.deployed, Action.returned]
      omega
  | reconfigured config hr =>
      obtain ⟨hd, hret⟩ := reconfigures_moves_nothing config
      refine hi.lent rfl hr.totalPrincipal hr.pendingWithdrawals ?_
      simp only [World.emit_pool, World.emit_principalVault, hd, hret, hr.yieldBudget]
  | deposited ht hh hs hv =>
      refine deposited_ledger hi ht rfl ?_ ?_ ?_ <;>
        simp only [World.emit_pool, World.emit_principalVault] <;> omega
  | withdrawRequested ha ht hp htotal =>
      refine hi.moved ha (touch_sameHoldings ht) rfl ?_ ?_ ?_ <;>
        simp only [World.emit_pool, World.emit_principalVault, Action.deployed, Action.returned] <;>
        omega
  | withdrawn ha hv hn =>
      refine hi.moved ha (.refl _) rfl ?_ ?_ ?_ <;>
        simp only [World.emit_pool, World.emit_principalVault, Action.deployed, Action.returned] <;>
        omega
  | principalDeployed hv hn | yieldFunded hv =>
      refine hi.lent rfl rfl rfl ?_
      simp only [World.emit_pool, World.emit_principalVault, Action.deployed, Action.returned]
      omega
  | emergencyWithdrawn ha ht _ _ hv hp hn =>
      refine hi.moved ha (touch_sameHoldings ht) rfl ?_ ?_ ?_ <;>
        simp only [World.emit_pool, World.emit_principalVault, Action.deployed, Action.returned] <;>
        omega
  | houseSwept _ hy hv =>
      refine hi.lent rfl rfl rfl ?_
      simp only [World.emit_pool, World.emit_principalVault, Action.deployed, Action.returned]
      omega
  | ticketsBought ha ht _ _ _ hc | ticketsGranted ha ht hc =>
      have same := touch_sameHoldings ht
      exact Ledger.same hi ha (hc.principal.trans same.principal)
        (hc.pendingWithdraw.trans same.pendingWithdraw)
  | positionBought ha _ _ ht | positionSettled _ ha _ ht =>
      have same := touch_sameHoldings ht
      exact Ledger.same hi ha same.principal same.pendingWithdraw
  | roundSettled _ ha _ _ hh =>
      have same := hh.sameHoldings
      exact Ledger.same hi ha same.principal same.pendingWithdraw
  | registeredNothing _ ha _ _ _ _ _ hq hb | registered _ ha _ _ _ _ _ _ hq hb =>
      exact Ledger.credit hi ha hq hb rfl rfl
  | paidPlayer _ ha _ _ _ _ _ ht hv hres =>
      refine hi.moved ha (touch_sameHoldings ht) rfl ?_ ?_ ?_ <;>
        simp only [World.emit_pool, World.emit_principalVault, Action.deployed, Action.returned] <;>
        omega
  | _ => exact hi

end Steps

theorem run_ledger {rt : Runtime} {w : World} {history : History} (run : Run rt history w) :
    w.Ledger history :=
  run.invariant (P := fun history w => w.Ledger history) created_ledger
    fun _ hi h => effect_ledger (step_effect h) hi

/-- Every reachable pool's principal vault, with what the admin deployed from it
and less what was sent back, is what the books owe; and both totals of the books
are the sums over the Player accounts. -/
theorem custody_ledger {rt : Runtime} {w : World} {history : History} (run : Run rt history w) :
    (w.principalVault : Int) + deployed history - returned history =
        w.pool.totalPrincipal + w.pool.pendingWithdrawals + w.pool.yieldBudget ∧
      w.pool.totalPrincipal = w.players.total principalOf ∧
      w.pool.pendingWithdrawals = w.players.total pendingOf := by
  have ledger := run_ledger run
  have books := ledger.vault
  exact ⟨by omega, ledger.principal, ledger.pending⟩

theorem custody_ledger_deployed : ∃ history w, Run Demo.runtime history w ∧
    deployed history = 40 ∧ returned history = 15 ∧
    (w.principalVault : Int) + deployed history - returned history =
        w.pool.totalPrincipal + w.pool.pendingWithdrawals + w.pool.yieldBudget ∧
      w.pool.totalPrincipal = w.players.total principalOf ∧
      w.pool.pendingWithdrawals = w.players.total pendingOf := by
  obtain ⟨⟨history, w⟩, hrun, hcheck⟩ := Fallible.exists_of_any
    (x := Demo.script [.setPause Demo.admin false,
      .deposit (Demo.signer 3) (Demo.wallet (Demo.signer 3)) 100,
      .fundYield (Demo.signer 3) (Demo.wallet (Demo.signer 3)) 7,
      .requestWithdraw (Demo.signer 3) 30, .adminWithdraw Demo.admin 40,
      .transferToPrincipalVault 15])
    (p := fun r => deployed r.1 = 40 && returned r.1 = 15) (by decide +kernel)
  rw [Bool.and_eq_true, decide_eq_true_eq, decide_eq_true_eq] at hcheck
  have run := Demo.script_run hrun
  exact ⟨history, w, run, hcheck.1, hcheck.2, custody_ledger run⟩

end HexVault
