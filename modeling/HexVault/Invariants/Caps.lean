import HexVault.Invariants.Counters

/-!
The per-epoch Ticket caps over a whole run. The counters are reset lazily, by the id
of the epoch they last counted for; they stand at exactly what the current epoch's
purchases and operator grants come to.
-/

namespace HexVault

open Fallible Runs

/-- A counter that is reset lazily stands at the sum of its epoch's amounts. -/
structure Tracks (countedEpoch amount cur : Nat) (sum : Nat → Nat) : Prop where
  behind : countedEpoch ≤ cur
  current : counted countedEpoch amount cur = sum cur
  ahead : ∀ id, cur < id → sum id = 0

namespace Tracks
variable {countedEpoch amount cur cur' more : Nat} {sum sum' : Nat → Nat}

/-- Nothing counted, perhaps in a later epoch. -/
theorem kept (hi : Tracks countedEpoch amount cur sum) (later : cur ≤ cur')
    (same : ∀ id, sum' id = sum id) : Tracks countedEpoch amount cur' sum' := by
  have behind := hi.behind
  refine ⟨Nat.le_trans behind later, ?_, ?_⟩
  · rw [same]
    cases Nat.eq_or_lt_of_le later with
    | inl same => exact same ▸ hi.current
    | inr next => rw [counted_past (Nat.ne_of_lt (Nat.lt_of_le_of_lt behind next)), hi.ahead _ next]
  · intro id h
    rw [same]
    exact hi.ahead id (Nat.lt_of_le_of_lt later h)

theorem add (hi : Tracks countedEpoch amount cur sum)
    (added : ∀ id, sum' id = sum id + if id = cur then more else 0) :
    Tracks cur (counted countedEpoch amount cur + more) cur sum' := by
  refine ⟨Nat.le_refl _, ?_, ?_⟩
  · rw [counted_self, added, if_pos rfl, hi.current]
  · intro id h
    rw [added, hi.ahead id h, if_neg (Nat.ne_of_gt h)]

end Tracks

/-- The USDC an owner spent on Tickets in an epoch by one step. -/
def spent (owner : Pubkey) (id : Nat) (x : World × Action) : Nat :=
  match x.2 with
  | .buyTickets buyer _ amount =>
      if buyer.key = owner ∧ id = x.1.pool.currentEpochId then amount else 0
  | _ => 0

/-- The Tickets the operator granted in an epoch by one step. -/
def granted (id : Nat) (x : World × Action) : Nat :=
  match x.2 with
  | .grantTickets signer _ amount =>
      if signer.key ≠ x.1.pool.admin ∧ id = x.1.pool.currentEpochId then amount else 0
  | _ => 0

/-- The same to one Player. -/
def grantedTo (owner : Pubkey) (id : Nat) (x : World × Action) : Nat :=
  match x.2 with
  | .grantTickets _ player _ => if player = owner then granted id x else 0
  | _ => 0

def spentIn (owner : Pubkey) (history : History) (id : Nat) : Nat :=
  (history.map (spent owner id)).sum

def grantedIn (history : History) (id : Nat) : Nat := (history.map (granted id)).sum

def grantedToIn (owner : Pubkey) (history : History) (id : Nat) : Nat :=
  (history.map (grantedTo owner id)).sum

/-- The largest Principal an owner held as a step of an epoch was taken. -/
def mostHeld (owner : Pubkey) (id : Nat) : History → Nat
  | [] => 0
  | x :: earlier =>
      if x.1.pool.currentEpochId = id then max (x.1.held owner) (mostHeld owner id earlier)
      else mostHeld owner id earlier

theorem mostHeld_le_cons (owner : Pubkey) (id : Nat) (x : World × Action) (history : History) :
    mostHeld owner id history ≤ mostHeld owner id (x :: history) := by
  rw [mostHeld]
  split
  · exact Nat.le_max_right _ _
  · exact Nat.le_refl _

/-- Every counter stands at what it counts. -/
structure CapsCounted (history : History) (w : World) : Prop where
  bought : ∀ owner, Tracks (w.counters owner).boughtEpoch (w.counters owner).boughtAmount
    w.pool.currentEpochId (spentIn owner history)
  bonus : ∀ owner, Tracks (w.counters owner).bonusEpoch (w.counters owner).bonusGranted
    w.pool.currentEpochId (grantedToIn owner history)
  pool : Tracks w.pool.bonusEpoch w.pool.bonusGranted w.pool.currentEpochId (grantedIn history)

section Runs
variable {rt : Runtime} {history : History} {w w' : World} {a : Action} {owner : Pubkey}
  {id : Nat}

theorem spentIn_cons (owner : Pubkey) (x : World × Action) (history : History) (id : Nat) :
    spentIn owner (x :: history) id = spentIn owner history id + spent owner id x := by
  rw [spentIn, List.map_cons, List.sum_cons, Nat.add_comm, spentIn]

theorem grantedIn_cons (x : World × Action) (history : History) (id : Nat) :
    grantedIn (x :: history) id = grantedIn history id + granted id x := by
  rw [grantedIn, List.map_cons, List.sum_cons, Nat.add_comm, grantedIn]

theorem grantedToIn_cons (owner : Pubkey) (x : World × Action) (history : History) (id : Nat) :
    grantedToIn owner (x :: history) id = grantedToIn owner history id + grantedTo owner id x := by
  rw [grantedToIn, List.map_cons, List.sum_cons, Nat.add_comm, grantedToIn]

theorem spent_other (h : a.counts ≠ some owner) (id : Nat) : spent owner id (w, a) = 0 := by
  cases a with
  | buyTickets buyer token amount =>
      refine if_neg ?_
      intro hb
      exact h (congrArg some hb.1)
  | _ => rfl

theorem grantedTo_other (h : a.counts ≠ some owner) (id : Nat) :
    grantedTo owner id (w, a) = 0 := by
  cases a with
  | grantTickets signer player amount =>
      refine if_neg ?_
      intro same
      exact h (congrArg some same)
  | _ => rfl

theorem grantedTo_self (signer : Signer) (owner : Pubkey) (amount id : Nat) :
    grantedTo owner id (w, .grantTickets signer owner amount) =
      granted id (w, .grantTickets signer owner amount) := if_pos rfl

theorem granted_byAdmin {signer : Signer} {player : Pubkey} {amount : Nat}
    (admin : signer.key = w.pool.admin) (id : Nat) :
    granted id (w, .grantTickets signer player amount) = 0 :=
  if_neg fun h => h.1 admin

theorem granted_byOperator {signer : Signer} {player : Pubkey} {amount : Nat}
    (operator : signer.key ≠ w.pool.admin) (id : Nat) :
    granted id (w, .grantTickets signer player amount) =
      if id = w.pool.currentEpochId then amount else 0 := by
  simp only [granted, ne_eq, operator, not_false_eq_true, true_and]

/-- Only the operator's grants move the pool's counter. -/
theorem effect_poolBonus (h : Effect rt w a w')
    (other : ∀ signer owner amount, a ≠ .grantTickets signer owner amount) :
    w'.pool.bonusEpoch = w.pool.bonusEpoch ∧ w'.pool.bonusGranted = w.pool.bonusGranted := by
  cases h with
  | reconfigured _ hr => exact ⟨hr.bonusEpoch, hr.bonusGranted⟩
  | ticketsGranted => exact absurd rfl (other _ _ _)
  | _ => exact ⟨rfl, rfl⟩

theorem step_bought (calendar : w.Calendar) (hi : CapsCounted history w) (h : Step rt w a w')
    (owner : Pubkey) : Tracks (w'.counters owner).boughtEpoch (w'.counters owner).boughtAmount
      w'.pool.currentEpochId (spentIn owner ((w, a) :: history)) := by
  have later := effect_currentEpochId (step_effect h)
  have kept : (w'.counters owner).boughtEpoch = (w.counters owner).boughtEpoch →
      (w'.counters owner).boughtAmount = (w.counters owner).boughtAmount →
      (∀ id, spent owner id (w, a) = 0) →
      Tracks (w'.counters owner).boughtEpoch (w'.counters owner).boughtAmount
        w'.pool.currentEpochId (spentIn owner ((w, a) :: history)) := by
    intro epoch amount none
    rw [epoch, amount]
    refine (hi.bought owner).kept later ?_
    intro id
    rw [spentIn_cons, none, Nat.add_zero]
  cases step_counters calendar h owner with
  | quiet other same => exact kept (by rw [same]) (by rw [same]) (spent_other other)
  | credited _ moved => exact kept (by rw [moved]) (by rw [moved]) fun _ => rfl
  | granted _ moved => exact kept (by rw [moved.counters]) (by rw [moved.counters]) fun _ => rfl
  | byAdmin _ same => exact kept (by rw [same]) (by rw [same]) fun _ => rfl
  | @bought buyer token amount this moved =>
      have still : w'.pool.currentEpochId = w.pool.currentEpochId := by
        cases step_effect h with
        | reconfigured ha => exact nomatch ha
        | ticketsBought => rfl
      rw [moved.counters, still]
      refine (hi.bought owner).add ?_
      intro id
      rw [spentIn_cons]
      simp only [spent, this, true_and]

theorem step_bonus (calendar : w.Calendar) (hi : CapsCounted history w) (h : Step rt w a w')
    (owner : Pubkey) : Tracks (w'.counters owner).bonusEpoch (w'.counters owner).bonusGranted
      w'.pool.currentEpochId (grantedToIn owner ((w, a) :: history)) := by
  have later := effect_currentEpochId (step_effect h)
  have kept : (w'.counters owner).bonusEpoch = (w.counters owner).bonusEpoch →
      (w'.counters owner).bonusGranted = (w.counters owner).bonusGranted →
      (∀ id, grantedTo owner id (w, a) = 0) →
      Tracks (w'.counters owner).bonusEpoch (w'.counters owner).bonusGranted
        w'.pool.currentEpochId (grantedToIn owner ((w, a) :: history)) := by
    intro epoch amount none
    rw [epoch, amount]
    refine (hi.bonus owner).kept later ?_
    intro id
    rw [grantedToIn_cons, none, Nat.add_zero]
  cases step_counters calendar h owner with
  | quiet other same => exact kept (by rw [same]) (by rw [same]) (grantedTo_other other)
  | credited _ moved => exact kept (by rw [moved]) (by rw [moved]) fun _ => rfl
  | bought _ moved => exact kept (by rw [moved.counters]) (by rw [moved.counters]) fun _ => rfl
  | byAdmin admin same =>
      refine kept (by rw [same]) (by rw [same]) ?_
      intro id
      rw [grantedTo_self, granted_byAdmin admin]
  | granted operator moved =>
      rw [moved.counters, moved.pool]
      refine (hi.bonus owner).add ?_
      intro id
      rw [grantedToIn_cons, grantedTo_self, granted_byOperator operator]

theorem step_poolBonus (hi : CapsCounted history w) (h : Step rt w a w') :
    Tracks w'.pool.bonusEpoch w'.pool.bonusGranted w'.pool.currentEpochId
      (grantedIn ((w, a) :: history)) := by
  have later := effect_currentEpochId (step_effect h)
  have kept : w'.pool.bonusEpoch = w.pool.bonusEpoch ∧
      w'.pool.bonusGranted = w.pool.bonusGranted → (∀ id, granted id (w, a) = 0) →
      Tracks w'.pool.bonusEpoch w'.pool.bonusGranted w'.pool.currentEpochId
        (grantedIn ((w, a) :: history)) := by
    intro same none
    rw [same.1, same.2]
    refine hi.pool.kept later ?_
    intro id
    rw [grantedIn_cons, none, Nat.add_zero]
  cases a with
  | grantTickets signer player amount =>
      obtain ⟨byAdmin, byOperator⟩ := grantTickets_counters h
      by_cases admin : signer.key = w.pool.admin
      · have same := (byAdmin admin).1
        exact kept ⟨by rw [same], by rw [same]⟩ (granted_byAdmin admin)
      · have moved := byOperator admin
        rw [moved.pool]
        refine hi.pool.add ?_
        intro id
        rw [grantedIn_cons, granted_byOperator admin]
  | _ => exact kept (effect_poolBonus (step_effect h) nofun) fun _ => rfl

theorem run_capsCounted (run : Run rt history w) : CapsCounted history w := by
  refine run.invariant (P := CapsCounted) ?_ ?_
  · intro start created
    have fresh : ∀ cur, Tracks 0 0 cur fun _ => 0 := by
      intro cur
      refine ⟨Nat.zero_le _, ?_, fun _ _ => rfl⟩
      unfold counted
      split <;> rfl
    refine ⟨fun owner => ?_, fun owner => ?_, ?_⟩
    · rw [created_counters created]
      exact fresh _
    · rw [created_counters created]
      exact fresh _
    · obtain ⟨params, accounts, now, -, -, h⟩ := created
      obtain ⟨-, es, rfl⟩ := createPool_eq_ok h
      exact fresh _
  · intro history w a w' before hi hs
    have calendar := reachable_calendar before.reachable
    exact ⟨step_bought calendar hi hs, step_bonus calendar hi hs, step_poolBonus hi hs⟩

/-- A purchase is within the Principal its buyer holds as it is made. -/
theorem run_spent (run : Run rt history w) (owner : Pubkey) (id : Nat) :
    spentIn owner history id ≤ mostHeld owner id history := by
  refine run.invariant (P := fun history _ => spentIn owner history id ≤
    mostHeld owner id history) (fun _ => Nat.le_refl 0) ?_
  intro history w a w' before hi hs
  have longer := mostHeld_le_cons owner id (w, a) history
  have calendar := reachable_calendar before.reachable
  have kept : spent owner id (w, a) = 0 →
      spentIn owner ((w, a) :: history) id ≤ mostHeld owner id ((w, a) :: history) := by
    intro none
    rw [spentIn_cons, none]
    exact Nat.le_trans hi longer
  cases step_counters calendar hs owner with
  | quiet other => exact kept (spent_other other id)
  | credited => exact kept rfl
  | granted => exact kept rfl
  | byAdmin => exact kept rfl
  | @bought buyer token amount this moved =>
      have counts := (run_capsCounted before).bought owner
      have cap := moved.cap
      rw [counts.current] at cap
      rw [spentIn_cons, spent]
      dsimp only
      split
      · rename_i current
        rw [mostHeld, if_pos current.2.symm, current.2]
        exact Nat.le_trans cap (Nat.le_max_left _ _)
      · exact Nat.le_trans hi longer

/-- What an operator's grant leaves: its Player's and the pool's Tickets of the epoch
are within their caps. -/
structure WithinCaps (history : History) (owner : Pubkey) (w : World) : Prop where
  player : grantedToIn owner history w.pool.currentEpochId ≤ w.held owner
  counter : grantedIn history w.pool.currentEpochId = w.pool.bonusGranted
  pool : grantedIn history w.pool.currentEpochId ≤
    w.pool.totalPrincipal * w.pool.bonusCapBps / BPS_DENOMINATOR

theorem operatorGrant_within (run : Run rt history w) {signer : Signer} {amount : Nat}
    (h : Step rt w (.grantTickets signer owner amount) w')
    (operator : signer.key ≠ w.pool.admin) :
    WithinCaps ((w, .grantTickets signer owner amount) :: history) owner w' := by
  have counts := run_capsCounted (run.next h)
  have moved := (grantTickets_counters h).2 operator
  have playerCap := moved.playerCap
  have poolCap := moved.poolCap
  have player := (counts.bonus owner).current
  have pool := counts.pool.current
  rw [moved.counters, moved.pool, counted_self] at player
  rw [moved.pool, counted_self] at pool
  refine ⟨?_, ?_, ?_⟩
  · rw [moved.held, moved.pool, ← player]
    exact playerCap
  · rw [moved.pool, ← pool]
  · rw [moved.pool, ← pool]
    exact poolCap

/-- The admin's grants leave every counter where it is. -/
theorem adminGrant_uncounted (calendar : w.Calendar) {signer : Signer} {amount : Nat}
    (h : Step rt w (.grantTickets signer owner amount) w')
    (admin : signer.key = w.pool.admin) (other : Pubkey) :
    w'.counters other = w.counters other ∧ w'.pool.bonusEpoch = w.pool.bonusEpoch ∧
      w'.pool.bonusGranted = w.pool.bonusGranted := by
  have same := ((grantTickets_counters h).1 admin).1
  refine ⟨?_, by rw [same], by rw [same]⟩
  cases step_counters calendar h other with
  | quiet _ kept => exact kept
  | byAdmin _ kept => exact kept
  | granted operator => exact absurd admin operator

/-- Over every run: what an owner spends on Tickets in an epoch is at most the largest
Principal it held in it; each operator's grant leaves its Player's and the pool's Tickets
of the epoch within their caps; an admin's grant is not counted; and what a cap check
counts is what the current epoch's purchases and grants come to, whatever came before. -/
theorem ticket_caps (run : Run rt history w) :
    (∀ owner id, spentIn owner history id ≤ mostHeld owner id history) ∧
    (∀ {signer owner amount w'}, Step rt w (.grantTickets signer owner amount) w' →
      (signer.key ≠ w.pool.admin →
        WithinCaps ((w, .grantTickets signer owner amount) :: history) owner w') ∧
      (signer.key = w.pool.admin → ∀ other, w'.counters other = w.counters other ∧
        w'.pool.bonusEpoch = w.pool.bonusEpoch ∧
        w'.pool.bonusGranted = w.pool.bonusGranted)) ∧
    (∀ owner principal amount, boughtAmountAfter (w.counters owner).boughtEpoch
        (w.counters owner).boughtAmount w.pool.currentEpochId principal amount =
      capCheck (spentIn owner history w.pool.currentEpochId) principal amount
        .dailyBuyCapExceeded) ∧
    (∀ owner cap amount err, bonusAfter (w.counters owner).bonusEpoch
        (w.counters owner).bonusGranted w.pool.currentEpochId cap amount err =
      capCheck (grantedToIn owner history w.pool.currentEpochId) cap amount err) ∧
    ∀ cap amount err, bonusAfter w.pool.bonusEpoch w.pool.bonusGranted w.pool.currentEpochId cap
        amount err =
      capCheck (grantedIn history w.pool.currentEpochId) cap amount err := by
  have counts := run_capsCounted run
  refine ⟨run_spent run, ?_, ?_, ?_, ?_⟩
  · intro signer owner amount w' h
    exact ⟨operatorGrant_within run h,
      adminGrant_uncounted (reachable_calendar run.reachable) h⟩
  · intro owner principal amount
    rw [← (counts.bought owner).current]
    exact countedAfter_eq _ _ _ _ _ _
  · intro owner cap amount err
    rw [← (counts.bonus owner).current]
    exact countedAfter_eq _ _ _ _ _ _
  · intro cap amount err
    rw [← counts.pool.current]
    exact countedAfter_eq _ _ _ _ _ _

/-- 100 deposited, 60 spent, 70 withdrawn and deposited again: the room left is still 40,
and an operator's grant of 50 fills half of the pool's cap of 100. -/
theorem ticket_caps_redeposit : ∃ history w w', Run Demo.runtime history w ∧
    Step Demo.runtime w (.grantTickets Demo.operator ⟨3⟩ 50) w' ∧
    spentIn ⟨3⟩ history 1 = 60 ∧ spentIn ⟨3⟩ history 1 ≤ mostHeld ⟨3⟩ 1 history ∧
    WithinCaps ((w, .grantTickets Demo.operator ⟨3⟩ 50) :: history) ⟨3⟩ w' ∧
    boughtAmountAfter (w.counters ⟨3⟩).boughtEpoch (w.counters ⟨3⟩).boughtAmount
      w.pool.currentEpochId 100 41 = .error (.vault .dailyBuyCapExceeded) := by
  let player := Demo.signer 3
  let wallet := Demo.wallet player
  obtain ⟨⟨⟨history, w⟩, w'⟩, hrun, hcheck⟩ := exists_of_any
    (x := do
      let r ← Demo.script [.setFeaturePause Demo.admin .jackpot false,
        .setParams Demo.admin { Demo.setEpochSeconds 1000 with bonusCapBps := some 10000 },
        .beginEpoch Demo.operator, .deposit player wallet 100, .buyTickets player wallet 60,
        .requestWithdraw player 70, .deposit player wallet 70]
      let w' ← perform Demo.runtime (.grantTickets Demo.operator ⟨3⟩ 50) r.2
      return (r, w'))
    (p := fun r => decide (spentIn ⟨3⟩ r.1.1 1 = 60) &&
      decide (r.1.2.pool.admin = Demo.admin.key) && decide (r.1.2.pool.currentEpochId = 1))
    (by decide +kernel)
  obtain ⟨r, hr, hrest⟩ := bind_eq_ok.mp hrun
  obtain ⟨u, hstep, heq⟩ := bind_eq_ok.mp hrest
  cases pure_eq_ok.mp heq
  simp only [Bool.and_eq_true, decide_eq_true_eq] at hcheck
  obtain ⟨⟨hspent, hadmin⟩, hcur⟩ := hcheck
  have run := Demo.script_run hr
  obtain ⟨spending, grants, checks, -⟩ := ticket_caps run
  refine ⟨history, w, w', run, hstep, hspent, spending ⟨3⟩ 1, (grants hstep).1 ?_, ?_⟩
  · rw [hadmin]
    decide
  · rw [checks, hcur, hspent]
    rfl

end Runs

end HexVault
