import HexVault.Invariants.Winners
import HexVault.Invariants.Exit
import HexVault.Operator.Registered

/-!
The operator's queries beside what they stand for on the chain: the withdrawals it
pushes, picked by the epoch of the request alone, and the owner it pays a prize to,
looked up among the pool's own rows first and then among the Player accounts of
every pool of the program.
-/

namespace HexVault

open Fallible Finmap Intervals Runs

/-- The handler's own lines on when a request may be paid. -/
def withdrawalDue (w : World) (player : Player) : Result Unit := do
  let deadline ← addI64 player.requestedAt w.pool.epochSeconds
  ensure (w.pool.shutdown = true ∨ player.pendingEpoch < w.pool.currentEpochId ∨
    deadline < w.clock) .withdrawalNotDue

/-- A request the program pays, its account given and the vault's liquidity apart. -/
def Payable (w : World) (player : Player) : Prop :=
  0 < player.pendingWithdraw ∧ withdrawalDue w player = .ok ()

section Payment
variable {rt : Runtime} {history : History} {w : World} {owner : Pubkey} {p : Player}

theorem withdrawalDue_eq_ok {u : Unit} : withdrawalDue w p = .ok u ↔
    IsI64 (p.requestedAt + w.pool.epochSeconds) ∧ Matured w p := by
  simp only [withdrawalDue, bind_eq_ok, addI64_eq_ok, ensure_eq_ok]
  constructor
  · intro h
    obtain ⟨_, ⟨fits, rfl⟩, matured⟩ := h
    exact ⟨fits, matured⟩
  · intro h
    exact ⟨_, ⟨h.1, rfl⟩, h.2⟩

/-- What `process_withdraw` accepts: a payable request, its owner's account of the
mint, and a vault that covers it. -/
theorem processWithdraw_returns_iff (run : Run rt history w) {token : TokenAccount} :
    Returns (processWithdraw owner token w) ↔ ∃ p, w.players.lookup owner = some p ∧
      (token.mint = w.pool.acceptedMint ∧ token.authority = p.owner) ∧ Payable w p ∧
      p.pendingWithdraw ≤ w.principalVault := by
  constructor
  · intro h
    obtain ⟨w', h⟩ := h
    simp only [processWithdraw, bind_eq_ok, World.player_eq_ok, ensure_eq_ok, exists_const] at h
    obtain ⟨p, hp, _, target, pending, deadline, hd, due, covered, -⟩ := h
    refine ⟨p, hp, checkDestination_eq_ok.mp target, ⟨pending, ?_⟩, covered⟩
    exact bind_eq_ok.mpr ⟨deadline, hd, ensure_eq_ok.mpr due⟩
  · intro h
    obtain ⟨p, hp, target, ⟨pending, due⟩, covered⟩ := h
    obtain ⟨deadline, hd, due⟩ := bind_eq_ok.mp due
    refine .bind (World.player_eq_ok.mpr hp) (.check (checkDestination_eq_ok.mpr target) ?_)
    refine .guard pending (.bind hd (.guard (ensure_eq_ok.mp due) (.guard covered ?_)))
    refine .bind (transferOut_eq_ok.mpr ⟨covered, rfl⟩) ?_
    exact .bind (subU_eq_ok.mpr ⟨((run_ledger run).le hp).2, rfl⟩) (.pure _)

end Payment

namespace Operator

/-- The query picks the owners of the payable requests, and no others. -/
def DueExactly (players : List Player) (w : World) : Prop :=
  ∀ owner, owner ∈ (duePendingWithdrawals players w.pool.currentEpochId).map (·.owner) ↔
    ∃ p, w.players.lookup owner = some p ∧ Payable w p

/-- Nothing but the end of its epoch has made a request payable, and nothing keeps
one whose epoch is over from being paid. -/
structure DueByEpoch (w : World) : Prop where
  waiting : ∀ owner p, w.players.lookup owner = some p → 0 < p.pendingWithdraw →
    w.pool.currentEpochId ≤ p.pendingEpoch → IsI64 (p.requestedAt + w.pool.epochSeconds) →
    w.pool.shutdown = false ∧ w.clock ≤ p.requestedAt + w.pool.epochSeconds
  ended : ∀ owner p, w.players.lookup owner = some p → 0 < p.pendingWithdraw →
    p.pendingEpoch < w.pool.currentEpochId → IsI64 (p.requestedAt + w.pool.epochSeconds)

section Due
variable {rt : Runtime} {w : World} {players : List Player} {owner : Pubkey} {p : Player}

theorem mem_duePendingWithdrawals (mirrors : Mirrors players w) (owned : Owned w.players) :
    owner ∈ (duePendingWithdrawals players w.pool.currentEpochId).map (·.owner) ↔
      ∃ p, w.players.lookup owner = some p ∧ 0 < p.pendingWithdraw ∧
        p.pendingEpoch < w.pool.currentEpochId := by
  simp only [duePendingWithdrawals, List.map_map, List.mem_map, List.mem_mergeSort,
    List.mem_filter, Bool.and_eq_true, decide_eq_true_eq, Function.comp_apply]
  constructor
  · intro h
    obtain ⟨p, ⟨hp, due⟩, rfl⟩ := h
    exact ⟨p, mirrors.lookup hp, due⟩
  · intro h
    obtain ⟨p, hp, due⟩ := h
    exact ⟨p, ⟨mirrors.mem hp, due⟩, (owned hp).1⟩

/-- The withdrawals the operator pushes are the payable ones exactly while requests
mature by their epoch alone. -/
theorem due_exactly (reachable : Reachable rt w) (mirrors : Mirrors players w) :
    DueExactly players w ↔ DueByEpoch w := by
  have selected : ∀ owner, owner ∈ (duePendingWithdrawals players
      w.pool.currentEpochId).map (·.owner) ↔ ∃ p, w.players.lookup owner = some p ∧
        0 < p.pendingWithdraw ∧ p.pendingEpoch < w.pool.currentEpochId := fun _ =>
    mem_duePendingWithdrawals mirrors (reachable_accounts reachable).owned
  constructor
  · intro exactly
    refine ⟨?_, ?_⟩
    · intro owner p hp pending current fits
      by_contra early
      have due : Matured w p := by
        rw [Matured]
        cases hs : w.pool.shutdown with
        | true => exact .inl rfl
        | false => exact .inr (.inr (Int.not_le.mp fun le => early ⟨hs, le⟩))
      obtain ⟨q, hq, -, past⟩ := (selected owner).mp ((exactly owner).mpr
        ⟨p, hp, pending, withdrawalDue_eq_ok.mpr ⟨fits, due⟩⟩)
      obtain rfl := Option.some.inj (hp.symm.trans hq)
      omega
    · intro owner p hp pending past
      obtain ⟨q, hq, -, due⟩ := (exactly owner).mp ((selected owner).mpr ⟨p, hp, pending, past⟩)
      obtain rfl := Option.some.inj (hp.symm.trans hq)
      exact (withdrawalDue_eq_ok.mp due).1
  · intro alone owner
    rw [selected owner]
    constructor
    · intro h
      obtain ⟨p, hp, pending, past⟩ := h
      have fits := alone.ended owner p hp pending past
      exact ⟨p, hp, pending, withdrawalDue_eq_ok.mpr ⟨fits, .inr (.inl past)⟩⟩
    · intro h
      obtain ⟨p, hp, pending, due⟩ := h
      obtain ⟨fits, matured⟩ := withdrawalDue_eq_ok.mp due
      refine ⟨p, hp, pending, ?_⟩
      by_contra current
      obtain ⟨running, waiting⟩ := alone.waiting owner p hp pending (by omega) fits
      rcases matured with shut | past | late
      · rw [running] at shut
        exact Bool.false_ne_true shut
      · exact current past
      · omega

end Due

/-- A request of the first epoch, pushed once the second has begun. -/
theorem due_exactly_turned : ∃ w players, Reachable HexVault.Demo.runtime w ∧
    Mirrors players w ∧ (duePendingWithdrawals players w.pool.currentEpochId).map (·.owner) = [⟨3⟩] ∧
    (DueExactly players w ↔ DueByEpoch w) := by
  let player := HexVault.Demo.signer 3
  obtain ⟨⟨history, w⟩, hrun, hcheck⟩ := exists_of_any
    (x := HexVault.Demo.script [.setFeaturePause HexVault.Demo.admin .jackpot false,
      .deposit player (HexVault.Demo.wallet player) 100, .beginEpoch HexVault.Demo.operator,
      .requestWithdraw player 40, .wait 1100, .beginEpoch HexVault.Demo.operator])
    (p := fun s => decide (Mirrors (Demo.reads s.2).players s.2) &&
      decide ((duePendingWithdrawals (Demo.reads s.2).players s.2.pool.currentEpochId).map
        (·.owner) = [⟨3⟩])) (by decide +kernel)
  simp only [Bool.and_eq_true, decide_eq_true_eq] at hcheck
  have reachable := (HexVault.Demo.script_run hrun).reachable
  exact ⟨w, _, reachable, hcheck.1, hcheck.2, due_exactly reachable hcheck.1⟩

/-- A request of the epoch the pool was shut down in: anyone may push it, and the
operator does not. -/
theorem due_stranded : ∃ w players, Reachable HexVault.Demo.runtime w ∧ Mirrors players w ∧
    (∃ p, w.players.lookup ⟨3⟩ = some p ∧ Payable w p) ∧
    duePendingWithdrawals players w.pool.currentEpochId = [] ∧ ¬ DueExactly players w := by
  let player := HexVault.Demo.signer 3
  obtain ⟨⟨history, w⟩, hrun, hcheck⟩ := exists_of_any
    (x := HexVault.Demo.script [.setFeaturePause HexVault.Demo.admin .jackpot false,
      .deposit player (HexVault.Demo.wallet player) 100, .beginEpoch HexVault.Demo.operator,
      .requestWithdraw player 40, .shutdown HexVault.Demo.admin])
    (p := fun s => decide (Mirrors (Demo.reads s.2).players s.2) &&
      (duePendingWithdrawals (Demo.reads s.2).players s.2.pool.currentEpochId).isEmpty &&
      (s.2.players.lookup ⟨3⟩).any fun (p : Player) => decide (0 < p.pendingWithdraw) &&
        decide (IsI64 (p.requestedAt + s.2.pool.epochSeconds)) && s.2.pool.shutdown)
    (by decide +kernel)
  simp only [Bool.and_eq_true, Option.any_eq_true, decide_eq_true_eq, List.isEmpty_iff] at hcheck
  obtain ⟨⟨mirrors, none⟩, p, hp, ⟨pending, fits⟩, shut⟩ := hcheck
  have payable : Payable w p := ⟨pending, withdrawalDue_eq_ok.mpr ⟨fits, .inl shut⟩⟩
  refine ⟨w, _, (HexVault.Demo.script_run hrun).reachable, mirrors, ⟨p, hp, payable⟩, none, ?_⟩
  intro exactly
  have picked := (exactly ⟨3⟩).mpr ⟨p, hp, payable⟩
  rw [none] at picked
  exact absurd picked List.not_mem_nil

/-- A Player account, and the pool its address was derived for: the account itself
names none. A row of the mirror carries the two as well. -/
structure PlayerAccount where
  pool : Pubkey
  player : Player
  deriving DecidableEq

/-- The Players of one pool. -/
def ofPool (pool : Pubkey) (accounts : List PlayerAccount) : List Player :=
  (accounts.filter (·.pool = pool)).map (·.player)

/-- The scan of every Player account of the program, whatever its pool. -/
def winnerOnChain (accounts : List PlayerAccount) (epochId target : Nat) : Option Pubkey :=
  (accounts.find? fun account => account.player.regEpoch = epochId &&
    account.player.regStart ≤ target && target < account.player.regEnd).map (·.player.owner)

/-- Whom a payout is sent to: the mirror's winner, else the scan's. -/
def payee (pool : Pubkey) (rows accounts : List PlayerAccount) (epochId target : Nat) :
    Option Pubkey :=
  (winner (ofPool pool rows) epochId target).or (winnerOnChain accounts epochId target)

/-- A tick's reads off the mirror's rows and the program's Player accounts. -/
def Reads.scanning (reads : Reads) (pool : Pubkey) (rows accounts : List PlayerAccount) :
    Reads :=
  { reads with
    players := ofPool pool rows
    winnerOnChain := Operator.winnerOnChain accounts }

/-- The Player's interval is one of the epoch's number and contains the target. -/
def Holds (epochId target : Nat) (player : Player) : Prop :=
  player.regEpoch = epochId ∧ player.regStart ≤ target ∧ target < player.regEnd

instance (epochId target : Nat) (player : Player) : Decidable (Holds epochId target player) :=
  inferInstanceAs (Decidable (_ ∧ _))

section Payout
variable {ctx : TickContext} {tick : Tick} {epoch : Epoch} {id : Nat} {owner : Pubkey}

theorem act_payout {s : Send} {action : TickAction} (other : s ≠ .payout id owner)
    (h : .payout id owner ∈ (ctx.act tick s action).tick.asked) :
    .payout id owner ∈ tick.asked := by
  have sent : .payout id owner ∈ tick.asked ++ [s] := by
    rw [TickContext.act, TickContext.sending] at h
    cases hs : ctx.send s with
    | ok _ =>
        rw [hs] at h
        exact h
    | error _ =>
        rw [hs] at h
        exact h
  cases List.mem_append.mp sent with
  | inl before => exact before
  | inr new => exact absurd (List.mem_singleton.mp new).symm other

theorem rolloverUnpaid_payout {timedOut : Bool}
    (h : .payout id owner ∈ (ctx.rolloverUnpaid epoch timedOut tick).tick.asked) :
    .payout id owner ∈ tick.asked := by
  rw [TickContext.rolloverUnpaid] at h
  split at h
  · exact act_payout (s := .rolloverEpoch epoch.epochId) (by simp) h
  · exact h

/-- The step sends a payout to nobody but the owner it looked up. -/
theorem payoutStep_payout (h : .payout id owner ∈ (ctx.payoutStep tick).tick.asked) :
    .payout id owner ∈ tick.asked ∨ ∃ epoch, ctx.previousEpoch = some epoch ∧
      epoch.status = .drawn ∧ epoch.epochId = id ∧
      (ctx.winner epoch.epochId epoch.target).or
        (ctx.winnerOnChain epoch.epochId epoch.target) = some owner := by
  rw [TickContext.payoutStep] at h
  cases hprev : ctx.previousEpoch with
  | none =>
      rw [hprev] at h
      exact .inl h
  | some epoch =>
      rw [hprev] at h
      dsimp only at h
      split at h
      · rename_i drawn
        split at h
        · exact .inl (rolloverUnpaid_payout h)
        · rename_i found hfound
          have asked : .payout id owner ∈ (tick.ask (.payout epoch.epochId found)).asked := by
            split at h
            · exact h
            · split at h
              · exact rolloverUnpaid_payout h
              · exact h
          cases List.mem_append.mp asked with
          | inl before => exact .inl before
          | inr new =>
              cases List.mem_singleton.mp new
              exact .inr ⟨epoch, rfl, drawn, rfl, hfound⟩
      · exact .inl h

end Payout

/-- The rows of the pool that show a registration for the epoch show the account's
own; a row may be missing, or be behind in everything else. -/
def Shows (rows : List PlayerAccount) (w : World) (id : Nat) : Prop :=
  ∀ row ∈ rows, row.pool = w.key → row.player.regEpoch = id →
    ∃ p, w.players.lookup row.player.owner = some p ∧ SameSlot row.player p

/-- The program's Player accounts, in any order, with those of any other pools. -/
def Scans (accounts : List PlayerAccount) (w : World) : Prop :=
  Mirrors (ofPool w.key accounts) w

instance (accounts : List PlayerAccount) (w : World) : Decidable (Scans accounts w) :=
  inferInstanceAs (Decidable (Mirrors _ _))

/-- The owner of the pool's Player that holds the target, nobody where none does. -/
def RightPayee (w : World) (id target : Nat) (found : Option Pubkey) : Prop :=
  ∀ owner, found = some owner ↔ ∃ p, w.players.lookup owner = some p ∧ Holds id target p

/-- The payee is the pool's own, whatever other pools hold. -/
structure PaysOwn (rows accounts : List PlayerAccount) (w : World) (id target : Nat) :
    Prop where
  right : RightPayee w id target (payee w.key rows accounts id target)
  alone : payee w.key rows accounts id target =
    payee w.key rows (accounts.filter (·.pool = w.key)) id target

/-- The first of all the accounts that holds the target is another pool's, and its
owner has no claim to it in this one. -/
def Shadowed (accounts : List PlayerAccount) (w : World) (id target : Nat) : Prop :=
  ∃ before account after, accounts = before ++ account :: after ∧
    (∀ a ∈ before, ¬ Holds id target a.player) ∧ Holds id target account.player ∧
    account.pool ≠ w.key ∧
    ∀ p, w.players.lookup account.player.owner = some p → ¬ Holds id target p

section Lookup
variable {rt : Runtime} {w : World} {rows accounts : List PlayerAccount} {players : List Player}
  {id target : Nat} {owner : Pubkey} {e : Epoch} {found other : Option Pubkey}

theorem holds_eq (p : Player) : (p.regEpoch = id && p.regStart ≤ target &&
    target < p.regEnd : Bool) = decide (Holds id target p) := by
  rw [Bool.eq_iff_iff]
  simp only [Bool.and_eq_true, decide_eq_true_eq]
  exact and_assoc

theorem winner_eq : winner players id target =
    (players.find? fun p => decide (Holds id target p)).map (·.owner) := by
  rw [winner, funext holds_eq]

theorem winnerOnChain_eq : winnerOnChain accounts id target =
    (accounts.find? fun a => decide (Holds id target a.player)).map (·.player.owner) := by
  rw [winnerOnChain, funext fun a : PlayerAccount => holds_eq a.player]

theorem RightPayee.unique (h : RightPayee w id target found)
    (h' : RightPayee w id target other) : found = other :=
  Option.ext fun owner => (h owner).trans (h' owner).symm

/-- One holder of the target is the only one. -/
theorem rightPayee_of_holds (reachable : Reachable rt w) (he : w.epochs.lookup id = some e)
    {p : Player} (hp : w.players.lookup owner = some p) (holds : Holds id target p) :
    RightPayee w id target (some owner) := by
  intro other
  rw [Option.some.injEq]
  constructor
  · intro same
    exact ⟨p, same ▸ hp, holds⟩
  · intro h
    exact ((reachable_registration reachable).apart he).unique
      (contains_slots.mpr ⟨p, hp, holds⟩) (contains_slots.mpr h)

theorem mem_ofPool {pool : Pubkey} {p : Player} :
    p ∈ ofPool pool accounts ↔ ∃ a ∈ accounts, a.pool = pool ∧ a.player = p := by
  simp only [ofPool, List.mem_map, List.mem_filter, decide_eq_true_eq, and_assoc]

theorem ofPool_filter (pool : Pubkey) (accounts : List PlayerAccount) :
    ofPool pool (accounts.filter (·.pool = pool)) = ofPool pool accounts := by
  rw [ofPool, ofPool, List.filter_filter]
  simp only [Bool.and_self]

/-- The first of a list to meet a condition, and what comes before it. -/
theorem find?_first {α : Type} {P : α → Prop} [DecidablePred P] {l : List α} {a : α} :
    l.find? (fun x => decide (P x)) = some a ↔
      P a ∧ ∃ before after, l = before ++ a :: after ∧ ∀ x ∈ before, ¬ P x := by
  simp only [List.find?_eq_some_iff_append, decide_eq_true_eq, Bool.not_eq_true',
    decide_eq_false_iff_not]

theorem winner_eq_some (h : winner players id target = some owner) :
    ∃ p ∈ players, Holds id target p ∧ p.owner = owner := by
  rw [winner_eq, Option.map_eq_some_iff] at h
  obtain ⟨p, hp, heq⟩ := h
  exact ⟨p, List.mem_of_find?_eq_some hp, (find?_first.mp hp).1, heq⟩

theorem winner_eq_none : winner players id target = none ↔
    ∀ p ∈ players, ¬ Holds id target p := by
  simp only [winner_eq, Option.map_eq_none_iff, List.find?_eq_none, decide_eq_true_eq]

/-- The scan answers right exactly when no foreign account comes first. -/
theorem winnerOnChain_right (reachable : Reachable rt w) (he : w.epochs.lookup id = some e)
    (scan : Scans accounts w) :
    RightPayee w id target (winnerOnChain accounts id target) ↔
      ¬ Shadowed accounts w id target := by
  rw [winnerOnChain_eq]
  cases hfind : accounts.find? fun a => decide (Holds id target a.player) with
  | none =>
      simp only [List.find?_eq_none, decide_eq_true_eq] at hfind
      constructor
      · intro _ shadowed
        obtain ⟨before, a, after, rfl, -, holds, -⟩ := shadowed
        exact hfind a (List.mem_append_right _ (List.mem_cons_self ..)) holds
      · intro _ owner
        constructor
        · intro h
          exact nomatch h
        · intro h
          obtain ⟨p, hp, holds⟩ := h
          obtain ⟨a, ha, -, rfl⟩ := mem_ofPool.mp (scan.mem hp)
          exact absurd holds (hfind a ha)
  | some a =>
      have member := List.mem_of_find?_eq_some hfind
      obtain ⟨holds, before, after, split, missed⟩ := find?_first.mp hfind
      constructor
      · intro right shadowed
        obtain ⟨before', b, after', split', missed', holds', -, free⟩ := shadowed
        have first := find?_first (P := fun c : PlayerAccount => Holds id target c.player)
          |>.mpr ⟨holds', before', after', split', missed'⟩
        cases hfind.symm.trans first
        obtain ⟨p, hp, held⟩ := (right a.player.owner).mp rfl
        exact free p hp held
      · intro clear
        have held : ∃ p, w.players.lookup a.player.owner = some p ∧ Holds id target p := by
          by_contra free
          have foreign : a.pool ≠ w.key := by
            intro own
            exact free ⟨a.player, scan.lookup (mem_ofPool.mpr ⟨a, member, own, rfl⟩), holds⟩
          exact clear ⟨before, a, after, split, missed, holds, foreign,
            fun p hp h => free ⟨p, hp, h⟩⟩
        obtain ⟨p, hp, held⟩ := held
        exact rightPayee_of_holds reachable he hp held

/-- A hit among the pool's rows is the right answer. -/
theorem winner_right (reachable : Reachable rt w) (he : w.epochs.lookup id = some e)
    (shows : Shows rows w id) (h : winner (ofPool w.key rows) id target = some owner) :
    RightPayee w id target (some owner) := by
  obtain ⟨q, hq, ⟨reg, lo, hi⟩, rfl⟩ := winner_eq_some h
  obtain ⟨row, hrow, own, rfl⟩ := mem_ofPool.mp hq
  obtain ⟨p, hp, same⟩ := shows row hrow own reg
  refine rightPayee_of_holds reachable he hp ⟨same.regEpoch.trans reg, ?_, ?_⟩
  · rw [same.regStart]
    exact lo
  · rw [same.regEnd]
    exact hi

theorem not_shadowed_filter (w : World) (accounts : List PlayerAccount) (id target : Nat) :
    ¬ Shadowed (accounts.filter (·.pool = w.key)) w id target := by
  intro shadowed
  obtain ⟨before, a, after, split, -, -, foreign, -⟩ := shadowed
  have member : a ∈ accounts.filter (·.pool = w.key) := by
    rw [split]
    exact List.mem_append_right _ (List.mem_cons_self ..)
  exact foreign (of_decide_eq_true (List.mem_filter.mp member).2)

/-- Of a scan that nothing shadows, the payee is the right one. -/
theorem payee_right (reachable : Reachable rt w) (he : w.epochs.lookup id = some e)
    (shows : Shows rows w id) (scan : Scans accounts w)
    (clear : ¬ Shadowed accounts w id target) :
    RightPayee w id target (payee w.key rows accounts id target) := by
  rw [payee]
  cases hwinner : winner (ofPool w.key rows) id target with
  | some owner =>
      rw [Option.some_or]
      exact winner_right reachable he shows hwinner
  | none =>
      rw [Option.none_or]
      exact (winnerOnChain_right reachable he scan).mpr clear

/-- Two sets with the same accounts of the pool, neither shadowed: one answer. -/
theorem payee_agrees {others : List PlayerAccount} (reachable : Reachable rt w)
    (he : w.epochs.lookup id = some e) (shows : Shows rows w id) (scan : Scans accounts w)
    (scan' : Scans others w) (clear : ¬ Shadowed accounts w id target)
    (clear' : ¬ Shadowed others w id target) :
    payee w.key rows accounts id target = payee w.key rows others id target :=
  (payee_right reachable he shows scan clear).unique
    (payee_right reachable he shows scan' clear')

/-- The operator pays the pool's own winner exactly when its mirror has the winner's
row or no foreign account is scanned first. -/
theorem pays_own (reachable : Reachable rt w) (he : w.epochs.lookup id = some e)
    (shows : Shows rows w id) (scan : Scans accounts w) :
    PaysOwn rows accounts w id target ↔
      (∃ row ∈ rows, row.pool = w.key ∧ Holds id target row.player) ∨
        ¬ Shadowed accounts w id target := by
  have ownScan : Scans (accounts.filter (·.pool = w.key)) w := by
    rw [Scans, ofPool_filter]
    exact scan
  have ownRight := payee_right reachable he shows ownScan (not_shadowed_filter w accounts id target)
  -- the answer over the pool's own accounts is right, so the two agree where the other is
  have right : PaysOwn rows accounts w id target ↔
      RightPayee w id target (payee w.key rows accounts id target) :=
    ⟨fun h => h.right, fun h => ⟨h, h.unique ownRight⟩⟩
  rw [right]
  cases hwinner : winner (ofPool w.key rows) id target with
  | some owner =>
      obtain ⟨q, hq, holds, -⟩ := winner_eq_some hwinner
      obtain ⟨row, hrow, own, rfl⟩ := mem_ofPool.mp hq
      rw [payee, hwinner, Option.some_or]
      exact iff_of_true (winner_right reachable he shows hwinner) (.inl ⟨row, hrow, own, holds⟩)
  | none =>
      have missed : ¬ ∃ row ∈ rows, row.pool = w.key ∧ Holds id target row.player := by
        intro hit
        obtain ⟨row, hrow, own, holds⟩ := hit
        exact winner_eq_none.mp hwinner _ (mem_ofPool.mpr ⟨row, hrow, own, rfl⟩) holds
      rw [payee, hwinner, Option.none_or, or_iff_right missed]
      exact winnerOnChain_right reachable he scan

/-- A tick's payout goes to the payee. -/
theorem scanned_payout {config : Config} {memory : Memory} {reads : Reads} {tick : Tick}
    (h : .payout id owner ∈ ((context config memory w
      (reads.scanning w.key rows accounts)).payoutStep tick).tick.asked) :
    .payout id owner ∈ tick.asked ∨ ∃ epoch,
      w.epochs.lookup (w.pool.currentEpochId - 1) = some epoch ∧ epoch.status = .drawn ∧
      epoch.epochId = id ∧ payee w.key rows accounts epoch.epochId epoch.target = some owner := by
  refine (payoutStep_payout h).imp_right fun found => ?_
  obtain ⟨epoch, hprev, drawn, hid, answer⟩ := found
  exact ⟨epoch, (Option.ite_none_right_eq_some.mp hprev).2, drawn, hid, answer⟩

/-- A registration is for an epoch before the current one. -/
theorem registered_past {p : Player} (reachable : Reachable rt w)
    (hp : w.players.lookup owner = some p) (registered : 1 ≤ p.regEpoch) :
    p.regEpoch < w.pool.currentEpochId := by
  have registration := reachable_registration reachable
  refine Nat.lt_of_le_of_ne (registration.known hp) ?_
  intro current
  obtain ⟨e, he, -, -⟩ := (reachable_calendar reachable).current (current ▸ registered)
  have apart := registration.apart he
  rw [(registration.fresh he).1] at apart
  have empty := apart.of_empty owner
  rw [slots_of_lookup hp, Player.slotIn, if_pos current] at empty
  cases empty

/-- Rows taken off the accounts at any moment of the pool's run show what the
previous epoch's registrations are. -/
theorem shows_of_taken (h1 : 1 ≤ id) (current : w.pool.currentEpochId = id + 1)
    (taken : ∀ row ∈ rows, row.pool = w.key → ∃ v history, Reachable rt v ∧
      Steps (Step rt) v history w ∧ v.players.lookup row.player.owner = some row.player) :
    Shows rows w id := by
  intro row hrow own reg
  obtain ⟨v, history, reachable, steps, hp⟩ := taken row hrow own
  have past := registered_past reachable hp (reg ▸ h1)
  have grows := steps_currentEpochId steps
  exact keeps_slot reachable h1 (by omega) hp reg steps (by omega)

end Lookup

namespace Demo

/-- A second pool of the same program, and its script. -/
def retired (actions : List Action) : Result (HexVault.History × World) := do
  let start ← createPool { HexVault.Demo.params with poolId := 1 }
    { HexVault.Demo.accounts with pool := ⟨200⟩ } 1000
  replay HexVault.Demo.runtime actions ([], start)

theorem retired_run {actions : List Action} {history : HexVault.History} {w : World}
    (h : retired actions = .ok (history, w)) : Run HexVault.Demo.runtime history w := by
  obtain ⟨start, hs, h⟩ := bind_eq_ok.mp h
  exact ⟨start, ⟨_, _, 1000, by decide, by decide, hs⟩, replay_steps .start h⟩

/-- A pool's first epoch, registered, closed and drawn for one Player. -/
def drawn (player : Signer) : List Action :=
  [.setFeaturePause HexVault.Demo.admin .jackpot false,
    .deposit player (HexVault.Demo.wallet player) 100, .beginEpoch HexVault.Demo.operator,
    .wait 1100, .beginEpoch HexVault.Demo.operator, .register 1 player.key,
    .fundJackpot player (HexVault.Demo.wallet player) 500,
    .closeRegistration HexVault.Demo.operator 1 ⟨9⟩ (List.replicate 32 0),
    .draw 1 ⟨⟨9⟩, List.replicate 8 0 ++ [1] ++ List.replicate 128 0⟩]

/-- Both pools drawn, the retired one for a Player of its own. -/
def pools : Result (World × World) := do
  let (_, w) ← HexVault.Demo.script (drawn (HexVault.Demo.signer 3))
  let (_, v) ← retired (drawn (HexVault.Demo.signer 4))
  return (w, v)

theorem pools_reachable {w v : World} (h : pools = .ok (w, v)) :
    Reachable HexVault.Demo.runtime w ∧ Reachable HexVault.Demo.runtime v := by
  obtain ⟨⟨_, _⟩, hw, h⟩ := bind_eq_ok.mp h
  obtain ⟨⟨_, _⟩, hv, h⟩ := bind_eq_ok.mp h
  cases pure_eq_ok.mp h
  exact ⟨(HexVault.Demo.script_run hw).reachable, (retired_run hv).reachable⟩

/-- The accounts of some owners in a pool. -/
def playersOf (owners : List Pubkey) (w : World) : List PlayerAccount :=
  (owners.filterMap fun owner => w.players.lookup owner).map fun player =>
    { pool := w.key, player }

theorem shows_playersOf {w : World} (owned : Owned w.players) (owners : List Pubkey) (id : Nat) :
    Shows (playersOf owners w) w id := by
  intro row hrow _ _
  simp only [playersOf, List.mem_map, List.mem_filterMap] at hrow
  obtain ⟨p, ⟨owner, -, hp⟩, rfl⟩ := hrow
  exact ⟨p, (owned hp).1 ▸ hp, rfl, rfl, rfl⟩

/-- Every Player account of both pools, the retired one's first. -/
def both (w v : World) : List PlayerAccount :=
  playersOf [⟨2⟩, ⟨4⟩] v ++ playersOf [⟨2⟩, ⟨3⟩] w

end Demo

/-- The retired pool's accounts are scanned first, and the mirror has the winner's row. -/
theorem pays_own_mirrored : ∃ w v e, Reachable HexVault.Demo.runtime w ∧
    Reachable HexVault.Demo.runtime v ∧ w.key ≠ v.key ∧
    w.epochs.lookup 1 = some e ∧ e.status = .drawn ∧
    PaysOwn (Demo.playersOf [⟨3⟩] w) (Demo.both w v) w 1 e.target := by
  obtain ⟨⟨w, v⟩, hpools, hcheck⟩ := exists_of_any (x := Demo.pools)
    (p := fun s => decide (s.1.key ≠ s.2.key) && decide (Scans (Demo.both s.1 s.2) s.1) &&
      (s.1.epochs.lookup 1).any fun (e : Epoch) => e.status = .drawn &&
        (Demo.playersOf [⟨3⟩] s.1).any fun row =>
          row.pool = s.1.key && decide (Holds 1 e.target row.player)) (by decide +kernel)
  simp only [Bool.and_eq_true, Option.any_eq_true, List.any_eq_true, decide_eq_true_eq] at hcheck
  obtain ⟨⟨apart, scan⟩, e, he, drawn, hit⟩ := hcheck
  obtain ⟨reachable, reachable'⟩ := Demo.pools_reachable hpools
  have shows := Demo.shows_playersOf (reachable_accounts reachable).owned [⟨3⟩] 1
  exact ⟨w, v, e, reachable, reachable', apart, he, drawn,
    (pays_own reachable he shows scan).mpr (.inl hit)⟩

/-- The same accounts and a mirror without the row: the prize goes to the retired
pool's Player, who has no account in this one. -/
theorem pays_foreign : ∃ w v e, Reachable HexVault.Demo.runtime w ∧
    Reachable HexVault.Demo.runtime v ∧ w.key ≠ v.key ∧
    w.epochs.lookup 1 = some e ∧ e.status = .drawn ∧
    Scans (Demo.both w v) w ∧ Scans (Demo.both w v) v ∧
    payee w.key [] (Demo.both w v) 1 e.target = some ⟨4⟩ ∧
    payee w.key [] (Demo.playersOf [⟨2⟩, ⟨3⟩] w) 1 e.target = some ⟨3⟩ ∧
    ¬ PaysOwn [] (Demo.both w v) w 1 e.target := by
  obtain ⟨⟨w, v⟩, hpools, hcheck⟩ := exists_of_any (x := Demo.pools)
    (p := fun s => decide (s.1.key ≠ s.2.key) && decide (Scans (Demo.both s.1 s.2) s.1) &&
      decide (Scans (Demo.both s.1 s.2) s.2) && decide (s.1.players.lookup ⟨4⟩ = none) &&
      (s.1.epochs.lookup 1).any fun (e : Epoch) => e.status = .drawn &&
        decide (payee s.1.key [] (Demo.both s.1 s.2) 1 e.target = some ⟨4⟩) &&
        decide (payee s.1.key [] (Demo.playersOf [⟨2⟩, ⟨3⟩] s.1) 1 e.target = some ⟨3⟩))
    (by decide +kernel)
  simp only [Bool.and_eq_true, Option.any_eq_true, decide_eq_true_eq] at hcheck
  obtain ⟨⟨⟨⟨apart, scan⟩, scan'⟩, nobody⟩, e, he, ⟨drawn, foreign⟩, own⟩ := hcheck
  obtain ⟨reachable, reachable'⟩ := Demo.pools_reachable hpools
  refine ⟨w, v, e, reachable, reachable', apart, he, drawn, scan, scan', foreign, own, ?_⟩
  intro h
  obtain ⟨p, hp, -⟩ := (h.right ⟨4⟩).mp foreign
  rw [nobody] at hp
  exact nomatch hp

end Operator

end HexVault
