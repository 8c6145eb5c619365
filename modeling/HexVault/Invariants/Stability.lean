import HexVault.Invariants.Accounts

/-!
Registration stability: once an epoch has ended, what it owes a Player is fixed.
A touch either finishes both accumulators at the epoch's end, or freezes the very
figures a registration would have computed; the instruction's own change comes
after either.
-/

namespace HexVault

open Fallible Runs

section Pair
variable {e e' : Epoch} {p q r : Player} {pool : Pool} {now : Int} {preCredit : Nat}

theorem accrue_zero {acc a s x : Nat} (h : accrue acc a s = .ok x) (b : Nat) :
    accrue x b 0 = .ok x := by
  obtain ⟨hlt, rfl⟩ := accrue_eq_ok.mp h
  rw [accrue_eq_ok]
  simpa only [Nat.mul_zero, Nat.add_zero, and_true] using hlt

theorem weightAndPrincipalSeconds_epoch (hid : e'.epochId = e.epochId)
    (hstart : e'.startsAt = e.startsAt) (hend : e'.endsAt = e.endsAt) (p : Player) :
    weightAndPrincipalSeconds e' p = weightAndPrincipalSeconds e p := by
  simp only [weightAndPrincipalSeconds, hid, hstart, hend]

theorem weightAndPrincipalSeconds_booked (h : SameAccrual p r) :
    weightAndPrincipalSeconds e r = weightAndPrincipalSeconds e p := by
  simp only [weightAndPrincipalSeconds, h.epochId, h.lastUpdate, h.weightAcc, h.entries,
    h.principalAcc, h.principal, h.frozenEpoch, h.frozenWeight, h.frozenPrincipalAcc]

/-- What a touch freezes is what a registration would have computed. -/
theorem freeze_eq (hid : e.epochId = pool.currentEpochId - 1)
    (hstart : e.startsAt = pool.previousEpochStart) (hend : e.endsAt = pool.previousEpochEndsAt)
    (behind : p.epochId < pool.currentEpochId) :
    freeze p pool = weightAndPrincipalSeconds e p := by
  have notAhead : ¬ pool.currentEpochId - 1 < p.epochId := by omega
  simp only [freeze, weightAndPrincipalSeconds, hid, hstart, hend, if_neg notAhead]

/-- The epoch whose registration is at stake is the pool's current one. -/
structure IsCurrent (e : Epoch) (pool : Pool) : Prop where
  epochId : e.epochId = pool.currentEpochId
  startsAt : e.startsAt = pool.currentEpochStart
  endsAt : e.endsAt = pool.currentEpochEndsAt
  positive : 1 ≤ pool.currentEpochId

/-- It is the one just before the current one. -/
structure IsPrevious (e : Epoch) (pool : Pool) : Prop where
  epochId : e.epochId + 1 = pool.currentEpochId
  startsAt : e.startsAt = pool.previousEpochStart
  endsAt : e.endsAt = pool.previousEpochEndsAt

/-- A touch in an epoch that is over but still current. -/
theorem touch_current (place : IsCurrent e pool) (ended : e.endsAt ≤ now)
    (behind : p.epochId ≤ pool.currentEpochId) (ht : touch p pool now = .ok q)
    (hm : Moved q r 0) : weightAndPrincipalSeconds e r = weightAndPrincipalSeconds e p := by
  have hzero : elapsed now e.endsAt = 0 := elapsed_eq_zero ended
  have hmin : min now pool.currentEpochEndsAt = e.endsAt := by
    rw [place.endsAt] at ended ⊢
    exact min_eq_right ended
  have hr : r.epochId = e.epochId := by
    rw [hm.epochId, touch_epochId behind ht, place.epochId]
  cases touch_cases ht with
  | inl same =>
      have hp : p.epochId = e.epochId := by
        rw [place.epochId]
        exact Nat.le_antisymm behind same.current
      have until_ : accrueUntil pool now = e.endsAt := by
        rw [accrueUntil, if_neg (Nat.ne_of_gt place.positive), hmin]
      have hweight := same.weight
      have hprincipal := same.principalSeconds
      rw [until_] at hweight hprincipal
      simp only [weightAndPrincipalSeconds, if_pos hr, if_pos hp, hm.lastUpdate, hm.weightAcc,
        hm.principalAcc, same.lastUpdate, hzero, Nat.add_zero, hweight, hprincipal,
        accrue_zero hweight, accrue_zero hprincipal]
  | inr new =>
      have hne : p.epochId ≠ e.epochId := by
        rw [place.epochId]
        exact Nat.ne_of_lt new.behind
      have notAhead : ¬ e.epochId < p.epochId := by
        rw [place.epochId]
        exact Nat.not_lt.mpr behind
      have hweight := new.weight
      rw [hmin, ← place.startsAt] at hweight
      have fits : accrue 0 p.principal (elapsed e.startsAt e.endsAt) = .ok q.weightAcc := by
        rw [weightOf_eq_ok] at hweight
        rw [accrue_eq_ok, Nat.zero_add]
        exact hweight
      simp only [weightAndPrincipalSeconds, if_pos hr, if_neg hne, if_neg notAhead,
        hm.lastUpdate, hm.weightAcc, hm.principalAcc, new.principalSeconds, new.lastUpdate, hzero,
        Nat.add_zero, hweight, accrue_zero fits, ok_bind]

/-- A touch in the epoch after it. -/
theorem touch_previous (place : IsPrevious e pool) (behind : p.epochId ≤ pool.currentEpochId)
    (ht : touch p pool now = .ok q) (hm : Moved q r preCredit) :
    weightAndPrincipalSeconds e r = weightAndPrincipalSeconds e p := by
  have hr : r.epochId = pool.currentEpochId := by
    rw [hm.epochId, touch_epochId behind ht]
  have hrne : r.epochId ≠ e.epochId := by
    have := place.epochId
    omega
  have hrlt : e.epochId < r.epochId := by
    have := place.epochId
    omega
  have hid : e.epochId = pool.currentEpochId - 1 := by
    have := place.epochId
    omega
  have after : weightAndPrincipalSeconds e r = (do
      ensure (q.frozenEpoch = e.epochId) .frozenEpochMismatch
      return (q.frozenWeight, q.frozenPrincipalAcc)) := by
    simp only [weightAndPrincipalSeconds, if_neg hrne, if_pos hrlt, hm.frozenEpoch,
      hm.frozenWeight, hm.frozenPrincipalAcc]
  rw [after]
  cases touch_cases ht with
  | inl same =>
      have hplt : e.epochId < p.epochId := by
        have := place.epochId
        have := same.current
        omega
      simp only [weightAndPrincipalSeconds, if_neg (Nat.ne_of_gt hplt), if_pos hplt,
        same.frozenEpoch, same.frozenWeight, same.frozenPrincipalAcc]
  | inr new =>
      have frozen := new.frozen
      rw [freeze_eq hid place.startsAt place.endsAt new.behind] at frozen
      rw [frozen, new.frozenEpoch, ← hid]
      simp only [ensure, require, if_true, ok_bind]
      rfl

end Pair

/-- A position is bought on a round created while an epoch was open. -/
def buysWithinEpoch (x : World × Action) : Bool :=
  match x.2 with
  | .buyPosition _ roundId _ _ => (x.1.rounds.lookup roundId).all fun round => 1 ≤ round.epochId
  | _ => true

section Runs
variable {rt : Runtime} {w w' : World} {a : Action} {history : History} {N : Nat}
  {owner : Pubkey} {e : Epoch} {p : Player}

/-- Nothing is bought within an epoch that is over. -/
theorem preCredited_zero (reachable : Reachable rt w) (within : buysWithinEpoch (w, a) = true)
    (ended : w.pool.currentEpochEndsAt ≤ w.clock) {preCredit : Nat}
    (h : PreCredited w a owner preCredit) : preCredit = 0 := by
  cases h with
  | inl zero => exact zero
  | inr bought =>
      obtain ⟨buyer, roundId, tiles, stake, round, rfl, -, hr, hclose, -⟩ := bought
      simp only [buysWithinEpoch, hr, Option.all_some, decide_eq_true_eq] at within
      have hend := (reachable_roundsWithin reachable roundId round hr).2 within
      have hbuffer := (reachable_inRange reachable).closeBuffer
      omega

/-- What a registration finds: the epoch before the current one, and a weight in
it; and the interval it leaves, where that is any. -/
theorem effect_register (h : Effect rt w (.register N owner) w') : ∃ e p weight ps,
    w.epochs.lookup N = some e ∧ w.players.lookup owner = some p ∧
    0 < w.pool.currentEpochId ∧ e.epochId = w.pool.currentEpochId - 1 ∧
    weightAndPrincipalSeconds e p = .ok (weight, ps) ∧ (0 < weight →
      ∃ p', w'.players.lookup owner = some p' ∧ p'.regEpoch = e.epochId) := by
  cases h with
  | reconfigured hr => exact nomatch hr
  | registeredNothing he hp _ hcur hid _ hw =>
      exact ⟨_, _, 0, _, he, hp, hcur, hid, hw, fun some => absurd some (Nat.lt_irrefl 0)⟩
  | registered he hp _ hcur hid _ hw =>
      exact ⟨_, _, _, _, he, hp, hcur, hid, hw, fun _ => ⟨_, Finmap.lookup_insert _, rfl⟩⟩

theorem place_of_calendar (calendar : w.Calendar) (h1 : 1 ≤ N)
    (he : w.epochs.lookup N = some e) (lo : N ≤ w.pool.currentEpochId)
    (hi : w.pool.currentEpochId ≤ N + 1) : IsCurrent e w.pool ∨ IsPrevious e w.pool := by
  have hid := (calendar.keyed he).1
  by_cases same : w.pool.currentEpochId = N
  · obtain ⟨x, hx, hs, hend⟩ := calendar.current (by omega)
    rw [same] at hx
    obtain rfl := Option.some.inj (he.symm.trans hx)
    exact .inl ⟨by omega, hs, hend, by omega⟩
  · obtain ⟨x, hx, hs, hend⟩ := calendar.previous (by omega)
    have hprev : w.pool.currentEpochId - 1 = N := by omega
    rw [hprev] at hx
    obtain rfl := Option.some.inj (he.symm.trans hx)
    exact .inr ⟨by omega, hs, hend⟩

/-- A step leaves what an epoch owes a Player as it is, if a touch does. -/
theorem step_pair (reachable : Reachable rt w) (hp : w.players.lookup owner = some p)
    (h : Step rt w a w') (touched : ∀ {q r preCredit}, touch p w.pool w.clock = .ok q →
      Moved q r preCredit → PreCredited w a owner preCredit →
      weightAndPrincipalSeconds e r = weightAndPrincipalSeconds e p) :
    ∃ p', w'.players.lookup owner = some p' ∧
      weightAndPrincipalSeconds e p' = weightAndPrincipalSeconds e p := by
  have step := effect_player (reachable_accounts reachable).owned (step_effect h) owner
  rw [hp] at step
  cases hp' : w'.players.lookup owner with
  | none =>
      rw [hp'] at step
      exact nomatch step
  | some p' =>
      rw [hp'] at step
      refine ⟨p', rfl, ?_⟩
      cases step with
      | same => rfl
      | booked booked => exact weightAndPrincipalSeconds_booked booked
      | moved ht hm hc => exact touched ht hm hc

/-- One step leaves what an ended epoch owes a Player as it is. -/
theorem step_stable (reachable : Reachable rt w) (h1 : 1 ≤ N)
    (he : w.epochs.lookup N = some e) (lo : N ≤ w.pool.currentEpochId)
    (hi : w.pool.currentEpochId ≤ N + 1) (ended : e.endsAt ≤ w.clock)
    (hp : w.players.lookup owner = some p) (within : buysWithinEpoch (w, a) = true)
    (h : Step rt w a w') : ∃ p', w'.players.lookup owner = some p' ∧
      weightAndPrincipalSeconds e p' = weightAndPrincipalSeconds e p := by
  have behind := (reachable_accounts reachable).behind hp
  refine step_pair reachable hp h ?_
  intro q r preCredit ht hm hc
  cases place_of_calendar (reachable_calendar reachable) h1 he lo hi with
  | inl current =>
      rw [current.endsAt] at ended
      obtain rfl := preCredited_zero reachable within ended hc
      exact touch_current current (current.endsAt ▸ ended) behind ht hm
  | inr previous => exact touch_previous previous behind ht hm

/-- The same in the epoch after it, whatever is bought. -/
theorem step_previous (reachable : Reachable rt w) (place : IsPrevious e w.pool)
    (hp : w.players.lookup owner = some p) (h : Step rt w a w') :
    ∃ p', w'.players.lookup owner = some p' ∧
      weightAndPrincipalSeconds e p' = weightAndPrincipalSeconds e p := by
  have behind := (reachable_accounts reachable).behind hp
  exact step_pair reachable hp h fun ht hm _ => touch_previous place behind ht hm

/-- From the moment an epoch is over, and while it is the current one or the one
before, every run leaves both figures a registration for it reads off a Player
exactly as they were. -/
theorem registration_stable (reachable : Reachable rt w) (h1 : 1 ≤ N)
    (current : w.pool.currentEpochId = N) (he : w.epochs.lookup N = some e)
    (ended : e.endsAt ≤ w.clock) (hp : w.players.lookup owner = some p)
    (steps : Steps (Step rt) w history w') (hi : w'.pool.currentEpochId ≤ N + 1)
    (within : ∀ x ∈ history, buysWithinEpoch x = true) :
    ∃ e' p', w'.epochs.lookup N = some e' ∧ w'.players.lookup owner = some p' ∧
      weightAndPrincipalSeconds e' p' = weightAndPrincipalSeconds e p := by
  have kept : Reachable rt w' ∧ N ≤ w'.pool.currentEpochId ∧ (w'.pool.currentEpochId ≤ N + 1 →
      ∃ e' p', w'.epochs.lookup N = some e' ∧ w'.players.lookup owner = some p' ∧
        e'.endsAt ≤ w'.clock ∧
        weightAndPrincipalSeconds e' p' = weightAndPrincipalSeconds e p) := by
    refine steps.invariantWhile (P := fun _ v => Reachable rt v ∧ N ≤ v.pool.currentEpochId ∧
      (v.pool.currentEpochId ≤ N + 1 → ∃ e' p', v.epochs.lookup N = some e' ∧
        v.players.lookup owner = some p' ∧ e'.endsAt ≤ v.clock ∧
        weightAndPrincipalSeconds e' p' = weightAndPrincipalSeconds e p)) ?_ ?_ within
    · exact ⟨reachable, Nat.le_of_eq current.symm, fun _ => ⟨e, p, he, hp, ended, rfl⟩⟩
    · intro _ v b u _ hv hwithin hstep
      obtain ⟨reached, lo, pair⟩ := hv
      have effect := step_effect hstep
      have grows := effect_currentEpochId effect
      refine ⟨reached.next hstep, Nat.le_trans lo grows, ?_⟩
      intro hu
      have hv1 := Nat.le_trans grows hu
      obtain ⟨x, y, hx, hy, hend, heq⟩ := pair hv1
      obtain ⟨x', hx', hid, hstart, hends⟩ := effect_epoch effect hx
      obtain ⟨y', hy', hsame⟩ := step_stable reached h1 hx lo hv1 hend hy hwithin hstep
      refine ⟨x', y', hx', hy', ?_, ?_⟩
      · rw [hends]
        exact Int.le_trans hend (effect_clock effect)
      · rw [weightAndPrincipalSeconds_epoch hid hstart hends, hsame, heq]
  obtain ⟨e', p', he', hp', -, heq⟩ := kept.2.2 hi
  exact ⟨e', p', he', hp', heq⟩

/-- A deposit of 100 through a whole epoch of 100 seconds; then a purchase, a
deposit and a withdrawal around the next epoch's start. -/
theorem registration_stable_late : ∃ w w' history e p e' p',
    w.epochs.lookup 1 = some e ∧ w.players.lookup ⟨3⟩ = some p ∧
    weightAndPrincipalSeconds e p = .ok (10000, 10000) ∧
    Steps (Step Demo.runtime) w history w' ∧ w'.pool.currentEpochId = 2 ∧
    w'.epochs.lookup 1 = some e' ∧ w'.players.lookup ⟨3⟩ = some p' ∧
      weightAndPrincipalSeconds e' p' = weightAndPrincipalSeconds e p := by
  let player := Demo.signer 3
  let wallet := Demo.wallet player
  obtain ⟨⟨⟨before, w⟩, history, w'⟩, hrun, hcheck⟩ := exists_of_any
    (x := do
      let first ← Demo.script [.setFeaturePause Demo.admin .jackpot false,
        .deposit player wallet 100, .beginEpoch Demo.operator, .wait 1100]
      let later ← replay Demo.runtime [.deposit player wallet 50, .buyTickets player wallet 9,
        .beginEpoch Demo.operator, .requestWithdraw player 120, .wait 1130,
        .deposit player wallet 7] ([], first.2)
      return (first, later))
    (p := fun r => r.1.2.pool.currentEpochId = 1 &&
      ((r.1.2.epochs.lookup 1).any fun e => (r.1.2.players.lookup ⟨3⟩).any fun p =>
        e.endsAt ≤ r.1.2.clock &&
        (weightAndPrincipalSeconds e p).toOption = some (10000, 10000)) &&
      r.2.2.pool.currentEpochId = 2 && r.2.1.all buysWithinEpoch) (by decide +kernel)
  obtain ⟨first, hfirst, hrest⟩ := bind_eq_ok.mp hrun
  obtain ⟨later, hlater, heq⟩ := bind_eq_ok.mp hrest
  cases pure_eq_ok.mp heq
  simp only [Bool.and_eq_true, decide_eq_true_eq, List.all_eq_true, Option.any_eq_true] at hcheck
  obtain ⟨⟨⟨hcur, e, he, p, hp, hend, hpair⟩, hcur'⟩, hbuys⟩ := hcheck
  have reachable := (Demo.script_run hfirst).reachable
  have steps := replay_steps .start hlater
  obtain ⟨e', p', he', hp', hsame⟩ := registration_stable reachable (Nat.le_refl 1) hcur he hend
    hp steps (Nat.le_of_eq hcur') hbuys
  exact ⟨w, w', history, e, p, e', p', he, hp, ok_of_toOption hpair, steps, hcur', he', hp',
    hsame⟩

end Runs

end HexVault
