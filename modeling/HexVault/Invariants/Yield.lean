import HexVault.Invariants.Counters
import HexVault.Invariants.Stability

/-!
Base yield over a whole run: once for a Player and an ended epoch, in the amount the
principal-seconds earn as far as the budget goes, never to the House, and out of the
budget alone.
-/

namespace HexVault

open Fallible Finmap Runs

/-- What a registration for an epoch credits a Player with these principal-seconds:
nothing once it has been credited for the epoch. -/
def yieldDue (pool : Pool) (player : Player) (epochId ps : Nat) : Nat :=
  if player.yieldEpoch = epochId then 0
  else min (ps * pool.baseRateBps / (BPS_DENOMINATOR * SECONDS_PER_YEAR)) pool.yieldBudget

theorem yieldDue_nothing (pool : Pool) (player : Player) (epochId : Nat) :
    yieldDue pool player epochId 0 = 0 := by
  rw [yieldDue, Nat.zero_mul, Nat.zero_div, Nat.zero_min, ite_self]

section Register
variable {w w' : World} {player : Player} {epochId ps : Nat} {owner : Pubkey}

theorem creditYield_amount {pool : Pool} {now : Int} {r : YieldCredit}
    (h : creditYield pool player ps now = .ok r) :
    r.credited =
      min (ps * pool.baseRateBps / (BPS_DENOMINATOR * SECONDS_PER_YEAR)) pool.yieldBudget := by
  simp only [creditYield, yieldFor, bind_eq_ok, mulU128_eq_ok, narrowU64_eq_ok, subU_eq_ok,
    addU64_eq_ok, pure_eq_ok] at h
  obtain ⟨_, ⟨_, ⟨-, rfl⟩, -, rfl⟩, _, -, _, -, _, -, _, -, _, -, _, -, rfl⟩ := h
  rfl

theorem registerYield_amount {player' : Player} {pool' : Pool} {es : List Event}
    (h : registerYield w.pool player epochId ps w.clock = .ok (pool', player', es)) :
    ∃ q, YieldTouch w player (yieldDue w.pool player epochId ps) q ∧
      pool' = w.pool.creditYield (yieldDue w.pool player epochId ps) ∧
      player' = q.creditYield (yieldDue w.pool player epochId ps) epochId := by
  obtain ⟨credited, q, hq, -, hpool, hplayer, how⟩ := registerYield_eq_ok h
  have due : credited = yieldDue w.pool player epochId ps := by
    rw [yieldDue]
    cases how with
    | inl paid => rw [if_pos paid.1, paid.2]
    | inr first =>
        obtain ⟨fresh, r, hr, rfl⟩ := first
        rw [if_neg fresh, creditYield_amount hr]
  rw [← due]
  exact ⟨q, hq, hpool, hplayer⟩

/-- A registration's writes, as far as the yield goes: the budget's loss is the
Player's gain. -/
structure RegisterCredit (w : World) (owner : Pubkey) (p : Player) (due : Nat) (q r : Player)
    (w' : World) : Prop where
  pool : w'.pool = w.pool.creditYield due
  players : w'.players = w.players.insert owner r
  vault : w'.principalVault = w.principalVault
  touched : YieldTouch w p due q
  isHouse : r.isHouse = q.isHouse
  principal : r.principal = q.principal + due
  principalAcc : r.principalAcc = q.principalAcc
  frozenPrincipalAcc : r.frozenPrincipalAcc = q.frozenPrincipalAcc

theorem register_credit (h : register epochId owner w = .ok w') :
    ∃ epoch p q r weight ps, w.epochs.lookup epochId = some epoch ∧
      w.players.lookup owner = some p ∧ 0 < w.pool.currentEpochId ∧
      epoch.epochId = w.pool.currentEpochId - 1 ∧
      weightAndPrincipalSeconds epoch p = .ok (weight, ps) ∧
      RegisterCredit w owner p (yieldDue w.pool p epoch.epochId ps) q r w' := by
  simp only [register, bind_eq_ok, World.epoch_eq_ok, World.player_eq_ok, ensure_eq_ok,
    exists_const] at h
  obtain ⟨epoch, he, p, hp, -, ⟨hcur, hprev⟩, -, ⟨weight, ps⟩, hps, ⟨pool, player, es⟩, hy, h⟩ := h
  obtain ⟨q, hq, rfl, rfl⟩ := registerYield_amount hy
  simp only at h
  split at h
  · cases pure_eq_ok.mp h
    exact ⟨epoch, p, q, _, weight, ps, he, hp, hcur, hprev, hps, rfl, rfl, rfl, hq, rfl, rfl, rfl,
      rfl⟩
  · simp only [takeInterval, bind_eq_ok, pure_eq_ok] at h
    obtain ⟨_, ⟨_, -, _, -, rfl⟩, rfl⟩ := h
    exact ⟨epoch, p, q, _, weight, ps, he, hp, hcur, hprev, hps, rfl, rfl, rfl, hq, rfl, rfl, rfl,
      rfl⟩

end Register

/-- Nothing Base yield could be computed from. -/
structure Player.Unowed (p : Player) : Prop where
  principal : p.principal = 0
  principalAcc : p.principalAcc = 0
  frozenPrincipalAcc : p.frozenPrincipalAcc = 0

section Unowed
variable {p q : Player} {epoch : Epoch} {pool : Pool} {now : Int} {weight ps : Nat}

theorem weightAndPrincipalSeconds_unowed (hp : p.Unowed)
    (h : weightAndPrincipalSeconds epoch p = .ok (weight, ps)) : ps = 0 := by
  simp only [weightAndPrincipalSeconds, hp.principal, hp.principalAcc,
    hp.frozenPrincipalAcc] at h
  split at h
  · simp only [bind_eq_ok, accrue_eq_ok, pure_eq_ok, Prod.mk.injEq] at h
    obtain ⟨_, -, _, ⟨-, rfl⟩, -, rfl⟩ := h
    omega
  · split at h
    · simp only [bind_eq_ok, pure_eq_ok, Prod.mk.injEq] at h
      obtain ⟨_, -, -, rfl⟩ := h
      rfl
    · simp only [bind_eq_ok, weightOf_eq_ok, pure_eq_ok, Prod.mk.injEq] at h
      obtain ⟨_, ⟨-, rfl⟩, -, rfl⟩ := h
      omega

theorem touch_unowed (hp : p.Unowed) (h : touch p pool now = .ok q) : q.Unowed := by
  cases touch_cases h with
  | inl same =>
      have acc := (accrue_eq_ok.mp same.principalSeconds).2
      rw [hp.principal, hp.principalAcc] at acc
      exact ⟨same.principal.trans hp.principal, by omega,
        same.frozenPrincipalAcc.trans hp.frozenPrincipalAcc⟩
  | inr new =>
      have acc := (weightOf_eq_ok.mp new.weight).2
      rw [hp.principal] at acc
      have frozen := new.frozen
      rw [freeze_eq (e := newEpoch (pool.currentEpochId - 1) pool.previousEpochStart
        pool.previousEpochEndsAt) rfl rfl rfl new.behind] at frozen
      have seconds := new.principalSeconds
      exact ⟨new.principal.trans hp.principal, by omega,
        weightAndPrincipalSeconds_unowed hp frozen⟩

end Unowed

/-- Nothing is ever owed to a House. -/
def HousesUnowed (players : Finmap fun _ : Pubkey => Player) : Prop :=
  ∀ owner p, players.lookup owner = some p → p.isHouse = true → p.Unowed

theorem HousesUnowed.write {players : Finmap fun _ : Pubkey => Player} {owner : Pubkey}
    {r : Player} (hi : HousesUnowed players) (hr : r.isHouse = true → r.Unowed) :
    HousesUnowed (players.insert owner r) := by
  intro other p hp house
  cases lookup_insert_cases hp with
  | inl new =>
      obtain ⟨rfl, rfl⟩ := new
      exact hr house
  | inr old => exact hi other p old.2 house

section Houses
variable {rt : Runtime} {w w' : World} {a : Action} {owner : Pubkey} {p q : Player}

/-- A House is owed nothing after a touch either. -/
theorem HousesUnowed.touched (hi : HousesUnowed w.players)
    (hp : w.players.lookup owner = some p) (ht : touch p w.pool w.clock = .ok q)
    (house : q.isHouse = true) : q.Unowed :=
  touch_unowed (hi owner p hp ((touch_sameHoldings ht).isHouse ▸ house)) ht

theorem Credited.unowed {tickets : Nat} {r : Player} (h : Credited q tickets r)
    (hq : q.isHouse = true → q.Unowed) (house : r.isHouse = true) : r.Unowed := by
  rw [h.player] at house ⊢
  have unowed := hq house
  exact ⟨unowed.principal, unowed.principalAcc, unowed.frozenPrincipalAcc⟩

theorem effect_housesUnowed (h : Effect rt w a w') (other : ∀ id owner, a ≠ .register id owner)
    (hi : HousesUnowed w.players) : HousesUnowed w'.players := by
  have notHouse : ∀ {r : Player}, r.isHouse = false → r.isHouse = true → r.Unowed := by
    intro r no yes
    exact absurd (no.symm.trans yes) Bool.false_ne_true
  cases h with
  | deposited _ no =>
      refine hi.write ?_
      exact notHouse no
  | withdrawRequested ha ht =>
      refine hi.write ?_
      intro house
      have unowed := hi.touched ha ht house
      refine ⟨?_, unowed.principalAcc, unowed.frozenPrincipalAcc⟩
      rw [unowed.principal, Nat.zero_sub]
  | withdrawn ha =>
      refine hi.write ?_
      intro house
      have unowed := hi _ _ ha house
      exact ⟨unowed.principal, unowed.principalAcc, unowed.frozenPrincipalAcc⟩
  | emergencyWithdrawn _ _ _ no =>
      refine hi.write ?_
      exact notHouse no
  | ticketsBought ha ht _ _ _ hc =>
      refine hi.write ?_
      exact hc.unowed (hi.touched ha ht)
  | ticketsGranted ha ht hc =>
      refine hi.write ?_
      exact hc.unowed (hi.touched ha ht)
  | positionBought ha _ _ ht no =>
      refine hi.write ?_
      exact notHouse no
  | roundSettled _ ha _ _ hh =>
      cases hh with
      | credited _ _ ht =>
          refine hi.write ?_
          intro house
          have unowed := hi.touched ha ht house
          exact ⟨unowed.principal, unowed.principalAcc, unowed.frozenPrincipalAcc⟩
      | evaporated => exact hi.write (hi _ _ ha)
  | positionSettled _ ha _ ht =>
      refine hi.write ?_
      intro house
      have unowed := hi.touched ha ht house
      exact ⟨unowed.principal, unowed.principalAcc, unowed.frozenPrincipalAcc⟩
  | registeredNothing => exact absurd rfl (other _ _)
  | registered => exact absurd rfl (other _ _)
  | paidPlayer _ _ _ _ _ _ no ht =>
      exact hi.write (notHouse ((touch_sameHoldings ht).isHouse.trans no))
  | _ => exact hi

theorem RegisterCredit.held {due : Nat} {r : Player}
    (h : RegisterCredit w owner p due q r w') (hp : w.players.lookup owner = some p) :
    w'.held owner = w.held owner + due := by
  have written : w'.players.lookup owner = some r := by
    rw [h.players, lookup_insert]
  rw [held_of_lookup written, held_of_lookup hp, h.principal, h.touched.sameHoldings.principal]

theorem RegisterCredit.others {due : Nat} {r : Player}
    (h : RegisterCredit w owner p due q r w') {other : Pubkey} (ne : other ≠ owner) :
    w'.held other = w.held other := by
  rw [World.held, h.players, lookup_insert_of_ne _ ne, World.held]

theorem step_housesUnowed (h : Step rt w a w') (hi : HousesUnowed w.players) :
    HousesUnowed w'.players := by
  cases a with
  | register id owner =>
      obtain ⟨epoch, p, q, r, weight, ps, -, hp, -, -, hps, hc⟩ := register_credit h
      rw [hc.players]
      refine hi.write ?_
      intro house
      have flag : p.isHouse = true := by
        rw [← hc.touched.sameHoldings.isHouse, ← hc.isHouse, house]
      have unowed := hi owner p hp flag
      have nothing := weightAndPrincipalSeconds_unowed unowed hps
      have touched : q.Unowed := by
        cases hc.touched with
        | inl same => exact same.2 ▸ unowed
        | inr ht => exact touch_unowed unowed ht
      refine ⟨?_, hc.principalAcc.trans touched.principalAcc,
        hc.frozenPrincipalAcc.trans touched.frozenPrincipalAcc⟩
      rw [hc.principal, touched.principal, nothing, yieldDue_nothing]
  | _ => exact effect_housesUnowed (step_effect h) nofun hi

theorem reachable_housesUnowed (h : Reachable rt w) : HousesUnowed w.players := by
  refine h.invariant (P := fun w => HousesUnowed w.players) ?_ ?_
  · intro start created owner p hp _
    obtain ⟨-, rfl⟩ := created_player created hp
    exact ⟨rfl, rfl, rfl⟩
  · intro _ _ _ _ hi hs
    exact step_housesUnowed hs hi

end Houses

/-- The world a step leaves. -/
def after (rt : Runtime) (x : World × Action) : World :=
  (perform rt x.2 x.1).toOption.getD x.1

/-- The Principal a registration added to the Player it was called for. -/
def credited (rt : Runtime) (x : World × Action) : Nat :=
  match x.2 with
  | .register _ owner => (after rt x).held owner - x.1.held owner
  | _ => 0

/-- The yield budget a sweep took. -/
def swept (rt : Runtime) (x : World × Action) : Nat :=
  match x.2 with
  | .sweepHouse _ => x.1.pool.yieldBudget - (after rt x).pool.yieldBudget
  | _ => 0

def funded (x : World × Action) : Nat :=
  match x.2 with
  | .fundYield _ _ amount => amount
  | _ => 0

/-- A registration that credits a Player for an epoch, be it with nothing. -/
def creditsYield (id : Nat) (owner : Pubkey) (x : World × Action) : Bool :=
  match x.2 with
  | .register epochId player => decide (epochId = id ∧ player = owner ∧
      (x.1.counters owner).yieldEpoch ≠ id)
  | _ => false

/-- A credit moves the budget into the one Player's Principal, and nothing else. -/
structure FromBudget (w : World) (owner : Pubkey) (credit : Nat) (w' : World) : Prop where
  budget : w'.pool.yieldBudget + credit = w.pool.yieldBudget
  total : w'.pool.totalPrincipal = w.pool.totalPrincipal + credit
  vault : w'.principalVault = w.principalVault
  player : w'.held owner = w.held owner + credit
  others : ∀ {other}, other ≠ owner → w'.held other = w.held other

/-- A registration credits what is due, the House nothing. -/
def YieldPaid (rt : Runtime) (x : World × Action) : Prop :=
  ∀ id owner, x.2 = .register id owner → ∃ epoch p weight ps,
    x.1.epochs.lookup id = some epoch ∧ x.1.players.lookup owner = some p ∧
    weightAndPrincipalSeconds epoch p = .ok (weight, ps) ∧
    credited rt x = yieldDue x.1.pool p id ps ∧
    (p.isHouse = true ∨ owner = x.1.pool.house → credited rt x = 0) ∧
    FromBudget x.1 owner (credited rt x) (after rt x)

section Runs
variable {rt : Runtime} {history : History} {w w' : World} {a : Action} {id : Nat}
  {owner : Pubkey}

theorem after_step (h : Step rt w a w') : after rt (w, a) = w' := by
  have result : perform rt a w = .ok w' := h
  rw [after, result]
  rfl

theorem yieldDue_le (pool : Pool) (player : Player) (epochId ps : Nat) :
    yieldDue pool player epochId ps ≤ pool.yieldBudget := by
  unfold yieldDue
  split
  · exact Nat.zero_le _
  · exact Nat.min_le_right _ _

theorem step_yieldPaid (reachable : Reachable rt w) (h : Step rt w a w') :
    YieldPaid rt (w, a) := by
  rintro id owner rfl
  obtain ⟨epoch, p, q, r, weight, ps, he, hp, -, -, hps, hc⟩ := register_credit h
  have keyed := ((reachable_calendar reachable).keyed he).1
  rw [keyed] at hc
  have player := hc.held hp
  have paid : credited rt (w, .register id owner) = yieldDue w.pool p id ps := by
    rw [credited, after_step h]
    dsimp only
    omega
  have budget := yieldDue_le w.pool p id ps
  refine ⟨epoch, p, weight, ps, he, hp, hps, paid, ?_, ?_⟩
  · intro house
    have flag : p.isHouse = true := by
      cases house with
      | inl flag => exact flag
      | inr same =>
          obtain ⟨x, hx, flag⟩ := reachable_house reachable
          rw [same, hx, Option.some.injEq] at hp
          exact hp ▸ flag
    have unowed := reachable_housesUnowed reachable owner p hp flag
    rw [paid, weightAndPrincipalSeconds_unowed unowed hps, yieldDue_nothing]
  · rw [paid, after_step h]
    refine ⟨?_, ?_, hc.vault, player, hc.others⟩
    · rw [hc.pool]
      exact Nat.sub_add_cancel budget
    · rw [hc.pool]
      rfl

/-- Only a registration, a sweep and funding move the budget. -/
theorem effect_yieldBudget (h : Effect rt w a w') (register : ∀ id owner, a ≠ .register id owner)
    (sweep : ∀ admin, a ≠ .sweepHouse admin)
    (fund : ∀ authority source amount, a ≠ .fundYield authority source amount) :
    w'.pool.yieldBudget = w.pool.yieldBudget := by
  cases h with
  | reconfigured _ hr => exact hr.yieldBudget
  | registeredNothing => exact absurd rfl (register _ _)
  | registered => exact absurd rfl (register _ _)
  | houseSwept => exact absurd rfl (sweep _)
  | yieldFunded => exact absurd rfl (fund _ _ _)
  | _ => rfl

theorem step_budget (reachable : Reachable rt w) (h : Step rt w a w') :
    credited rt (w, a) + w'.pool.yieldBudget + swept rt (w, a) =
      w.pool.yieldBudget + funded (w, a) := by
  cases a with
  | register id owner =>
      obtain ⟨epoch, p, weight, ps, -, -, -, -, -, paid⟩ := step_yieldPaid reachable h id owner rfl
      rw [after_step h] at paid
      have budget : w'.pool.yieldBudget + _ = w.pool.yieldBudget := paid.budget
      simp only [swept, funded]
      omega
  | sweepHouse admin =>
      cases step_effect h with
      | reconfigured ha => exact nomatch ha
      | houseSwept _ hle =>
          rw [swept, after_step h]
          simp only [credited, funded, World.emit_pool]
          omega
  | fundYield authority source amount =>
      cases step_effect h with
      | reconfigured ha => exact nomatch ha
      | yieldFunded =>
          simp only [credited, swept, funded, World.emit_pool]
          omega
  | _ =>
      have same := effect_yieldBudget (step_effect h) nofun nofun nofun
      simp only [credited, swept, funded]
      omega

/-- A Player is credited for an epoch at most once, and its marker tells. -/
structure CreditedOnce (id : Nat) (owner : Pubkey) (history : History) (w : World) : Prop where
  ended : (w.counters owner).yieldEpoch ≤ w.pool.currentEpochId - 1
  once : history.countP (creditsYield id owner) ≤ 1
  marked : 0 < history.countP (creditsYield id owner) → id ≤ (w.counters owner).yieldEpoch

/-- A step that leaves the Player's marker alone. -/
theorem CreditedOnce.unmarked (hi : CreditedOnce id owner history w) (h : Step rt w a w')
    (same : (w'.counters owner).yieldEpoch = (w.counters owner).yieldEpoch)
    (silent : creditsYield id owner (w, a) = false) :
    CreditedOnce id owner ((w, a) :: history) w' := by
  have grows := effect_currentEpochId (step_effect h)
  have ended := hi.ended
  have count : ((w, a) :: history).countP (creditsYield id owner) =
      history.countP (creditsYield id owner) :=
    List.countP_cons_of_neg (Bool.not_eq_true _ ▸ silent)
  refine ⟨?_, ?_, ?_⟩
  · rw [same]
    omega
  · rw [count]
    exact hi.once
  · rw [count, same]
    exact hi.marked

/-- Registrations are for the epoch just before the current one, so a marker short
of it has never been at it. -/
theorem CreditedOnce.register {epochId : Nat} (hi : CreditedOnce id owner history w)
    (h : Step rt w (.register epochId owner) w') (previous : epochId + 1 = w.pool.currentEpochId)
    (marked : (w'.counters owner).yieldEpoch = epochId) :
    CreditedOnce id owner ((w, .register epochId owner) :: history) w' := by
  have grows := effect_currentEpochId (step_effect h)
  have ended := hi.ended
  have once := hi.once
  have before := hi.marked
  have count : ((w, .register epochId owner) :: history).countP (creditsYield id owner) =
      history.countP (creditsYield id owner) +
        if epochId = id ∧ (w.counters owner).yieldEpoch ≠ id then 1 else 0 := by
    rw [List.countP_cons]
    simp only [creditsYield, true_and, decide_eq_true_eq]
  refine ⟨?_, ?_, ?_⟩
  · omega
  · rw [count]
    split
    · omega
    · exact once
  · rw [count, marked]
    split
    · omega
    · omega

theorem step_creditedOnce (reachable : Reachable rt w) (hi : CreditedOnce id owner history w)
    (h : Step rt w a w') : CreditedOnce id owner ((w, a) :: history) w' := by
  cases step_counters (reachable_calendar reachable) h owner with
  | quiet other same =>
      refine hi.unmarked h (by rw [same]) ?_
      cases a with
      | register epochId player =>
          refine decide_eq_false ?_
          intro hc
          exact other (congrArg some hc.2.1)
      | _ => rfl
  | credited previous marked => exact hi.register h previous (by rw [marked])
  | bought _ moved => exact hi.unmarked h (by rw [moved.counters]) rfl
  | granted _ moved => exact hi.unmarked h (by rw [moved.counters]) rfl
  | byAdmin _ same => exact hi.unmarked h (by rw [same]) rfl

theorem run_creditedOnce (run : Run rt history w) (id : Nat) (owner : Pubkey) :
    CreditedOnce id owner history w := by
  refine run.invariant (P := CreditedOnce id owner) ?_ ?_
  · intro start created
    refine ⟨?_, Nat.zero_le _, fun pos => absurd pos (Nat.lt_irrefl 0)⟩
    rw [created_counters created]
    exact Nat.zero_le _
  · intro history w a w' before hi hs
    exact step_creditedOnce before.reachable hi hs

/-- Everything funded has been credited, swept or is still in the budget. -/
theorem run_budget (run : Run rt history w) :
    (history.map (credited rt)).sum + w.pool.yieldBudget + (history.map (swept rt)).sum =
      (history.map funded).sum := by
  refine run.invariant (P := fun history w => (history.map (credited rt)).sum +
    w.pool.yieldBudget + (history.map (swept rt)).sum = (history.map funded).sum) ?_ ?_
  · intro start created
    obtain ⟨params, accounts, now, -, -, h⟩ := created
    obtain ⟨-, es, rfl⟩ := createPool_eq_ok h
    rfl
  · intro history w a w' before hi hs
    have moved := step_budget before.reachable hs
    simp only [List.map_cons, List.sum_cons]
    omega

/-- Over every run, a Player is credited for an epoch at most once, each credit is
what its principal-seconds earn as far as the budget goes and none to the House, and
credits, budget and sweeps add up to what was funded. -/
theorem base_yield (run : Run rt history w) :
    (∀ id owner, history.countP (creditsYield id owner) ≤ 1) ∧
    (∀ x ∈ history, YieldPaid rt x) ∧
    (history.map (credited rt)).sum + w.pool.yieldBudget + (history.map (swept rt)).sum =
      (history.map funded).sum := by
  refine ⟨fun id owner => (run_creditedOnce run id owner).once, ?_, run_budget run⟩
  intro x hx
  obtain ⟨start, created, steps⟩ := run
  obtain ⟨later, earlier, u, -, before, hstep, -⟩ := steps.split hx
  exact step_yieldPaid ⟨earlier, start, created, before⟩ hstep

/-- A Principal of 63072 through an epoch of 1000 seconds at a yearly rate of a whole:
two units are earned and credited, and the sweep takes the third. -/
theorem base_yield_spent : ∃ history w, Run Demo.runtime history w ∧
    ((history.map (credited Demo.runtime)).sum = 2 ∧
      (history.map (swept Demo.runtime)).sum = 1) ∧
    (∀ id owner, history.countP (creditsYield id owner) ≤ 1) ∧
    (∀ x ∈ history, YieldPaid Demo.runtime x) ∧
    (history.map (credited Demo.runtime)).sum + w.pool.yieldBudget +
      (history.map (swept Demo.runtime)).sum = (history.map funded).sum := by
  let player := Demo.signer 3
  obtain ⟨⟨history, w⟩, hrun, hcheck⟩ := exists_of_any
    (x := Demo.script [.setFeaturePause Demo.admin .jackpot false,
      .setParams Demo.admin { Demo.setEpochSeconds 1000 with baseRateBps := some 10000 },
      .fundYield player (Demo.wallet player) 3, .deposit player (Demo.wallet player) 63072,
      .beginEpoch Demo.operator, .wait 2000, .beginEpoch Demo.operator, .register 1 ⟨3⟩,
      .shutdown Demo.admin, .sweepHouse Demo.admin])
    (p := fun s => (s.1.map (credited Demo.runtime)).sum = 2 &&
      (s.1.map (swept Demo.runtime)).sum = 1) (by decide +kernel)
  simp only [Bool.and_eq_true, decide_eq_true_eq] at hcheck
  have run := Demo.script_run hrun
  exact ⟨history, w, run, hcheck, base_yield run⟩

end Runs

end HexVault
