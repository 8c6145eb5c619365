import HexVault.Invariants.Boundaries
import HexVault.Invariants.Stability
import HexVault.Lib.Timeline

/-!
Registered principal-seconds against the Principal a Player really held. From the
instant an epoch is begun the accumulator follows the Principal second by second;
what lies between the epoch's backdated start and that instant is counted as if
the Principal held then had been there all along.
-/

namespace HexVault

open Fallible Runs Timeline

/-- The Principal an owner held at each second of a run. -/
def heldAt (owner : Pubkey) (history : History) (w : World) : Int → Nat :=
  trajectory World.clock (fun _ v => v.held owner) history w

/-- What a Player's accumulators come to for an epoch, with nothing outgrowing
its type. -/
def principalSeconds (id : Nat) (startsAt endsAt : Int) (p : Player) : Nat :=
  if p.epochId = id then p.principalAcc + p.principal * (endsAt - p.lastUpdate).toNat
  else if id < p.epochId then p.frozenPrincipalAcc
  else p.principal * (endsAt - startsAt).toNat

/-- The frozen figures, where a registration would read them, are the epoch's. -/
def FrozenFor (id : Nat) (p : Player) : Prop := id < p.epochId → p.frozenEpoch = id

section Pair
variable {e : Epoch} {p q r : Player} {pool : Pool} {now : Int} {preCredit weight ps : Nat}

theorem weightAndPrincipalSeconds_eq_ok (start : 0 ≤ e.startsAt) (updated : 0 ≤ p.lastUpdate)
    (stop : e.endsAt < i64Limit) (h : weightAndPrincipalSeconds e p = .ok (weight, ps)) :
    FrozenFor e.epochId p ∧ ps = principalSeconds e.epochId e.startsAt e.endsAt p := by
  simp only [weightAndPrincipalSeconds] at h
  split at h
  · rename_i same
    simp only [bind_eq_ok, accrue_eq_ok, pure_eq_ok, elapsed_eq updated stop] at h
    obtain ⟨_, -, _, ⟨-, rfl⟩, heq⟩ := h
    refine ⟨fun hlt => absurd same (Nat.ne_of_gt hlt), ?_⟩
    rw [principalSeconds, if_pos same]
    exact (Prod.mk.inj heq).2.symm
  · rename_i other
    split at h
    · rename_i later
      simp only [bind_eq_ok, ensure_eq_ok, pure_eq_ok, exists_const] at h
      refine ⟨fun _ => h.1, ?_⟩
      rw [principalSeconds, if_neg other, if_pos later]
      exact (Prod.mk.inj h.2).2.symm
    · rename_i idle
      simp only [bind_eq_ok, weightOf_eq_ok, pure_eq_ok, elapsed_eq start stop] at h
      obtain ⟨_, ⟨-, rfl⟩, heq⟩ := h
      refine ⟨fun hlt => absurd hlt idle, ?_⟩
      rw [principalSeconds, if_neg other, if_neg idle]
      exact (Prod.mk.inj heq).2.symm

/-- A touch within the epoch counts up to now on the old Principal; the seconds
left count on the new one. -/
theorem principalSeconds_current (positive : 1 ≤ pool.currentEpochId)
    (behind : p.epochId ≤ pool.currentEpochId) (updated : 0 ≤ p.lastUpdate ∧ p.lastUpdate ≤ now)
    (start : 0 ≤ pool.currentEpochStart ∧ pool.currentEpochStart ≤ now)
    (stop : pool.currentEpochEndsAt < i64Limit) (ht : touch p pool now = .ok q)
    (hm : Moved q r preCredit) :
    principalSeconds pool.currentEpochId pool.currentEpochStart pool.currentEpochEndsAt r +
        p.principal * (pool.currentEpochEndsAt - now).toNat =
      principalSeconds pool.currentEpochId pool.currentEpochStart pool.currentEpochEndsAt p +
        r.principal * (pool.currentEpochEndsAt - now).toNat := by
  have hr : r.epochId = pool.currentEpochId := hm.epochId.trans (touch_epochId behind ht)
  have hlast : r.lastUpdate = now := hm.lastUpdate.trans (touch_lastUpdate ht)
  have cut : min now pool.currentEpochEndsAt < i64Limit :=
    Int.lt_of_le_of_lt (min_le_right _ _) stop
  rw [principalSeconds, if_pos hr, hlast, hm.principalAcc]
  cases touch_cases ht with
  | inl same =>
      have hp : p.epochId = pool.currentEpochId := Nat.le_antisymm behind same.current
      have acc := same.principalSeconds
      rw [accrueUntil, if_neg (Nat.ne_of_gt positive), accrue_eq_ok, elapsed_eq updated.1 cut]
        at acc
      have seconds : (min now pool.currentEpochEndsAt - p.lastUpdate).toNat +
          (pool.currentEpochEndsAt - now).toNat =
          (pool.currentEpochEndsAt - p.lastUpdate).toNat := by
        omega
      rw [principalSeconds, if_pos hp, acc.2, ← seconds, Nat.mul_add]
      omega
  | inr new =>
      have acc := new.weight
      rw [weightOf_eq_ok, elapsed_eq start.1 cut] at acc
      have seconds : (min now pool.currentEpochEndsAt - pool.currentEpochStart).toNat +
          (pool.currentEpochEndsAt - now).toNat =
          (pool.currentEpochEndsAt - pool.currentEpochStart).toNat := by
        omega
      rw [principalSeconds, if_neg (Nat.ne_of_lt new.behind), if_neg (Nat.not_lt.mpr behind),
        new.principalSeconds, acc.2, ← seconds, Nat.mul_add]
      omega

/-- A touch in the epoch after it leaves what the epoch owes as it is. -/
theorem principalSeconds_previous (positive : 2 ≤ pool.currentEpochId)
    (behind : p.epochId ≤ pool.currentEpochId) (updated : 0 ≤ p.lastUpdate)
    (start : 0 ≤ pool.previousEpochStart) (stop : pool.previousEpochEndsAt < i64Limit)
    (ht : touch p pool now = .ok q) (hm : Moved q r preCredit)
    (frozen : FrozenFor (pool.currentEpochId - 1) r) :
    FrozenFor (pool.currentEpochId - 1) p ∧
      principalSeconds (pool.currentEpochId - 1) pool.previousEpochStart
          pool.previousEpochEndsAt r =
        principalSeconds (pool.currentEpochId - 1) pool.previousEpochStart
          pool.previousEpochEndsAt p := by
  have hr : r.epochId = pool.currentEpochId := hm.epochId.trans (touch_epochId behind ht)
  have after : pool.currentEpochId - 1 < r.epochId := by omega
  have hfrozen := frozen after
  rw [hm.frozenEpoch] at hfrozen
  have owed : principalSeconds (pool.currentEpochId - 1) pool.previousEpochStart
      pool.previousEpochEndsAt r = q.frozenPrincipalAcc := by
    rw [principalSeconds, if_neg (Nat.ne_of_gt after), if_pos after, hm.frozenPrincipalAcc]
  rw [owed]
  cases touch_cases ht with
  | inl same =>
      have hp : pool.currentEpochId - 1 < p.epochId := by
        have := same.current
        omega
      refine ⟨fun _ => same.frozenEpoch ▸ hfrozen, ?_⟩
      rw [principalSeconds, if_neg (Nat.ne_of_gt hp), if_pos hp, same.frozenPrincipalAcc]
  | inr new =>
      have frozen := new.frozen
      rw [freeze_eq (e := newEpoch (pool.currentEpochId - 1) pool.previousEpochStart
        pool.previousEpochEndsAt) rfl rfl rfl new.behind] at frozen
      exact weightAndPrincipalSeconds_eq_ok start updated stop frozen

end Pair

/-- An epoch's principal-seconds: from the instant the epoch was begun in `v` on,
the Principal held; before it, the Principal held at that instant. -/
def Backed (owner : Pubkey) (held : Int → Nat) (v : World) (id : Nat) (startsAt endsAt : Int)
    (p : Player) : Prop :=
  FrozenFor id p → principalSeconds id startsAt endsAt p =
    v.held owner * (v.clock - startsAt).toNat + integral held v.clock endsAt

structure Holdings (owner : Pubkey) (history : History) (w : World) : Prop where
  absent : w.players.lookup owner = none → ∀ x ∈ history, x.1.players.lookup owner = none
  current : ∀ v p, BeganIn history w.pool.currentEpochId v →
    w.players.lookup owner = some p →
    Backed owner (heldAt owner history w) v w.pool.currentEpochId w.pool.currentEpochStart
      w.pool.currentEpochEndsAt p
  previous : ∀ v p, BeganIn history (w.pool.currentEpochId - 1) v →
    w.players.lookup owner = some p →
    Backed owner (heldAt owner history w) v (w.pool.currentEpochId - 1)
      w.pool.previousEpochStart w.pool.previousEpochEndsAt p

section Runs
variable {rt : Runtime} {w w' v : World} {a : Action} {history : History} {owner : Pubkey}
  {p r : Player} {id : Nat} {startsAt endsAt : Int}

theorem beganIn_positive (h : BeganIn history id v) : 1 ≤ id := by
  obtain ⟨_, -, hid⟩ := h
  omega

/-- Principal that stays leaves the integral alone, whatever the clock does. -/
theorem heldAt_same (history : History) (a : Action) (stop : Int) {start : Int}
    (same : w'.held owner = w.held owner) (later : w.clock ≤ w'.clock) (h : start ≤ w.clock) :
    integral (heldAt owner ((w, a) :: history) w') start stop =
      integral (heldAt owner history w) start stop := by
  have next := trajectory_next (fun _ v => v.held owner) history a stop (Int.le_trans h later) later
  simp only [same] at next
  exact Nat.add_right_cancel next

/-- A change now moves the integral by the seconds left. -/
theorem heldAt_moved (history : History) (a : Action) (owner : Pubkey) (stop : Int) {start : Int}
    (clock : w'.clock = w.clock) (h : start ≤ w.clock) :
    integral (heldAt owner ((w, a) :: history) w') start stop +
        w.held owner * (stop - w.clock).toNat =
      integral (heldAt owner history w) start stop +
        w'.held owner * (stop - w.clock).toNat := by
  have next := trajectory_next (fun _ v => v.held owner) history a stop
    (Int.le_trans h (Int.le_of_eq clock.symm)) (Int.le_of_eq clock.symm)
  rw [clock] at next
  exact next

/-- A change now comes too late for a stretch that is over. -/
theorem heldAt_past (history : History) (a : Action) (owner : Pubkey) {start stop : Int}
    (later : w.clock ≤ w'.clock) (h : start ≤ w.clock) (passed : stop ≤ w.clock) :
    integral (heldAt owner ((w, a) :: history) w') start stop =
      integral (heldAt owner history w) start stop := by
  have next := trajectory_next (fun _ v => v.held owner) history a stop (Int.le_trans h later) later
  have gone : (stop - w'.clock).toNat = 0 := by omega
  simp only [gone, Nat.mul_zero, Nat.add_zero] at next
  exact next

theorem Backed.congr {held held' : Int → Nat} (h : Backed owner held v id startsAt endsAt p)
    (frozen : FrozenFor id r → FrozenFor id p)
    (same : principalSeconds id startsAt endsAt r = principalSeconds id startsAt endsAt p)
    (integrals : integral held' v.clock endsAt = integral held v.clock endsAt) :
    Backed owner held' v id startsAt endsAt r := by
  intro hr
  rw [same, integrals]
  exact h (frozen hr)

theorem principalSeconds_booked (id : Nat) (startsAt endsAt : Int) (h : SameAccrual p r) :
    principalSeconds id startsAt endsAt r = principalSeconds id startsAt endsAt p ∧
      (FrozenFor id r → FrozenFor id p) := by
  refine ⟨?_, ?_⟩
  · simp only [principalSeconds, h.epochId, h.principalAcc, h.principal, h.lastUpdate,
      h.frozenPrincipalAcc]
  · simp only [FrozenFor, h.epochId, h.frozenEpoch, imp_self]

theorem SameAccrual.refl (p : Player) : SameAccrual p p :=
  ⟨rfl, rfl, rfl, rfl, rfl, rfl, rfl, rfl, rfl, rfl, rfl⟩

theorem PlayerStep.absent {x : Option Player} (h : PlayerStep w a owner x none) : x = none := by
  cases h with
  | same => rfl

/-- A Player created in the current epoch has held nothing before. -/
theorem created_principalSeconds {q : Player}
    (ht : touch (Player.zeroed.initIfFresh owner w.pool w.clock) w.pool w.clock = .ok q)
    (hm : Moved q r 0) : r.epochId = w.pool.currentEpochId ∧ r.frozenEpoch = 0 ∧
      principalSeconds w.pool.currentEpochId w.pool.currentEpochStart w.pool.currentEpochEndsAt
        r = r.principal * (w.pool.currentEpochEndsAt - w.clock).toNat := by
  rw [initIfFresh_zeroed] at ht
  cases touch_cases ht with
  | inl same =>
      have hr : r.epochId = w.pool.currentEpochId := hm.epochId.trans same.epochId
      have acc := (accrue_eq_ok.mp same.principalSeconds).2
      have zero : q.principalAcc = 0 := by
        simpa only [Player.zeroed, Nat.zero_mul, Nat.add_zero] using acc
      refine ⟨hr, hm.frozenEpoch.trans same.frozenEpoch, ?_⟩
      rw [principalSeconds, if_pos hr, hm.principalAcc, zero, hm.lastUpdate, same.lastUpdate,
        Nat.zero_add]
  | inr new => exact absurd new.behind (Nat.lt_irrefl _)

/-- An owner without an account has held nothing at any second of the run. -/
theorem heldAt_absent (hi : Holdings owner history w) (h : w.players.lookup owner = none)
    (start stop : Int) : integral (heldAt owner history w) start stop = 0 := by
  have none : ∀ t, heldAt owner history w t = 0 :=
    trajectory_const (held_of_none h) fun x hx => held_of_none (hi.absent h x hx)
  rw [integral_const fun t _ _ => none t, Nat.zero_mul]

theorem holdings_current (calendar : w.Calendar) (accounts : w.Accounts)
    (boundaries : Boundaries history w) (hi : Holdings owner history w)
    (clock : w'.clock = w.clock)
    (step : PlayerStep w a owner (w.players.lookup owner) (some r))
    (hr : w'.players.lookup owner = some r) (began : BeganIn history w.pool.currentEpochId v) :
    Backed owner (heldAt owner ((w, a) :: history) w') v w.pool.currentEpochId
      w.pool.currentEpochStart w.pool.currentEpochEndsAt r := by
  have before := (boundaries.past _ v began).2
  have order := calendar.currentOrder (beganIn_positive began)
  have moved := heldAt_moved history a owner w.pool.currentEpochEndsAt clock before
  rw [held_of_lookup hr] at moved
  cases hold : w.players.lookup owner with
  | none =>
      rw [hold] at step
      cases step with
      | created _ ht hm =>
          intro _
          obtain ⟨operator, hmem, -⟩ := began
          have nothing := heldAt_absent hi hold v.clock w.pool.currentEpochEndsAt
          rw [held_of_none hold, nothing] at moved
          rw [(created_principalSeconds ht hm).2.2, held_of_none (hi.absent hold _ hmem)]
          omega
  | some p =>
      rw [hold] at step
      have behind := accounts.behind hold
      have old := hi.current v p began hold
      have kept : SameAccrual p r → Backed owner (heldAt owner ((w, a) :: history) w') v
          w.pool.currentEpochId w.pool.currentEpochStart w.pool.currentEpochEndsAt r := by
        intro same
        have booked := principalSeconds_booked w.pool.currentEpochId w.pool.currentEpochStart
          w.pool.currentEpochEndsAt same
        refine old.congr booked.2 booked.1 (heldAt_same history a _ ?_ (Int.le_of_eq clock.symm) before)
        rw [held_of_lookup hr, held_of_lookup hold, same.principal]
      cases step with
      | same => exact kept (.refl r)
      | booked same => exact kept same
      | moved ht hm _ =>
          intro _
          have backed := old fun ahead => absurd ahead (Nat.not_lt.mpr behind)
          have counted := principalSeconds_current (beganIn_positive began) behind
            (accounts.updated hold) ⟨order.1, order.2.2.1⟩ order.2.2.2 ht hm
          rw [held_of_lookup hold] at moved
          omega

theorem holdings_previous (calendar : w.Calendar) (accounts : w.Accounts)
    (boundaries : Boundaries history w) (hi : Holdings owner history w)
    (later : w.clock ≤ w'.clock)
    (step : PlayerStep w a owner (w.players.lookup owner) (some r))
    (began : BeganIn history (w.pool.currentEpochId - 1) v) :
    Backed owner (heldAt owner ((w, a) :: history) w') v (w.pool.currentEpochId - 1)
      w.pool.previousEpochStart w.pool.previousEpochEndsAt r := by
  have before := (boundaries.past _ v began).2
  have positive : 2 ≤ w.pool.currentEpochId := by
    have := beganIn_positive began
    omega
  have order := calendar.previousOrder positive
  have now := calendar.currentOrder (Nat.le_of_succ_le positive)
  have passed : w.pool.previousEpochEndsAt ≤ w.clock := by omega
  have past := heldAt_past history a owner later before passed
  cases hold : w.players.lookup owner with
  | none =>
      rw [hold] at step
      cases step with
      | created _ ht hm =>
          intro frozen
          have made := created_principalSeconds ht hm
          have := frozen (by omega)
          omega
  | some p =>
      rw [hold] at step
      have old := hi.previous v p began hold
      have kept : SameAccrual p r → Backed owner (heldAt owner ((w, a) :: history) w') v
          (w.pool.currentEpochId - 1) w.pool.previousEpochStart w.pool.previousEpochEndsAt r := by
        intro same
        have booked := principalSeconds_booked (w.pool.currentEpochId - 1)
          w.pool.previousEpochStart w.pool.previousEpochEndsAt same
        exact old.congr booked.2 booked.1 past
      cases step with
      | same => exact kept (.refl r)
      | booked same => exact kept same
      | moved ht hm _ =>
          intro frozen
          have counted := principalSeconds_previous positive (accounts.behind hold)
            (accounts.updated hold).1 order.1 (by omega) ht hm frozen
          rw [counted.2, past]
          exact old counted.1

/-- Only the clock moved. -/
theorem holdings_waited (boundaries : Boundaries history w) (hi : Holdings owner history w)
    (later : w.clock ≤ w'.clock) (players : w'.players = w.players)
    (hr : w.players.lookup owner = some r) (began : BeganIn history w.pool.currentEpochId v) :
    Backed owner (heldAt owner ((w, a) :: history) w') v w.pool.currentEpochId
      w.pool.currentEpochStart w.pool.currentEpochEndsAt r := by
  have before := (boundaries.past _ v began).2
  have same : w'.held owner = w.held owner := by
    rw [World.held, World.held, players]
  exact (hi.current v r began hr).congr (fun h => h) rfl (heldAt_same history a _ same later before)

theorem holdings_kept (calendar : w.Calendar) (accounts : w.Accounts)
    (boundaries : Boundaries history w) (h : Effect rt w a w')
    (kept : (∀ operator, a ≠ .beginEpoch operator) ∧ SameSpan w.pool w'.pool)
    (hi : Holdings owner history w) : Holdings owner ((w, a) :: history) w' := by
  have step := effect_player accounts.owned h owner
  have later := effect_clock h
  obtain ⟨hne, span⟩ := kept
  refine ⟨?_, ?_, ?_⟩
  · intro hnone x hx
    rw [hnone] at step
    have old := step.absent
    cases List.mem_cons.mp hx with
    | inl heq => exact heq ▸ old
    | inr older => exact hi.absent old x older
  · intro v r began hr
    rw [span.currentEpochId, beganIn_kept hne] at began
    rw [span.currentEpochId, span.currentEpochStart, span.currentEpochEndsAt]
    cases effect_moment h with
    | inl clock =>
        rw [hr] at step
        exact holdings_current calendar accounts boundaries hi clock step hr began
    | inr waited =>
        obtain ⟨t, -, rfl, rfl⟩ := waited
        exact holdings_waited boundaries hi later rfl hr began
  · intro v r began hr
    rw [span.currentEpochId, beganIn_kept hne] at began
    rw [span.currentEpochId, span.previousEpochStart, span.previousEpochEndsAt]
    rw [hr] at step
    exact holdings_previous calendar accounts boundaries hi later step began

/-- The epoch that was current becomes the previous one as it stands; the new
one starts from the Principal held now, for the seconds it is backdated by. -/
theorem holdings_began (accounts : w.Accounts) (boundaries : Boundaries history w)
    (began : Began w w') (hi : Holdings owner history w) :
    Holdings owner ((w, a) :: history) w' := by
  have same : w'.held owner = w.held owner := by
    rw [World.held, World.held, began.players]
  have later := Int.le_of_eq began.clock.symm
  refine ⟨?_, ?_, ?_⟩
  · intro hnone x hx
    rw [began.players] at hnone
    cases List.mem_cons.mp hx with
    | inl heq => exact heq ▸ hnone
    | inr older => exact hi.absent hnone x older
  · intro v p hv hp _
    rw [began.currentEpochId] at hv ⊢
    rw [began.players] at hp
    cases beganIn_next hv with
    | inl new =>
        obtain ⟨rfl, -⟩ := new
        have behind := accounts.behind hp
        have held := held_of_lookup hp
        have settled : ∀ t, v.clock ≤ t → heldAt owner ((v, a) :: history) w' t = p.principal := by
          intro t ht
          rw [heldAt, trajectory_settled (Int.le_trans (Int.le_of_eq began.clock) ht)]
          exact same.trans held
        have started := began.started
        have ends := began.ends
        have seconds : (v.clock - w'.pool.currentEpochStart).toNat +
            (w'.pool.currentEpochEndsAt - v.clock).toNat =
            (w'.pool.currentEpochEndsAt - w'.pool.currentEpochStart).toNat := by
          omega
        rw [principalSeconds, if_neg (by omega), if_neg (by omega), held,
          integral_const fun t ht _ => settled t ht, ← Nat.mul_add, seconds]
    | inr old =>
        have past := (boundaries.past _ v old).1
        omega
  · intro v p hv hp
    rw [began.currentEpochId, Nat.add_sub_cancel] at hv ⊢
    rw [began.players] at hp
    rw [began.previousEpochStart, began.previousEpochEndsAt]
    cases beganIn_next hv with
    | inl new => omega
    | inr old =>
        have before := (boundaries.past _ v old).2
        exact (hi.current v p old hp).congr (fun h => h) rfl
          (heldAt_same history a _ same later before)

theorem run_holdings (run : Run rt history w) (owner : Pubkey) : Holdings owner history w := by
  refine run.invariant (P := fun history w => Holdings owner history w) ?_ ?_
  · intro start created
    have none : ∀ id v, ¬ BeganIn [] id v := by
      intro id v began
      obtain ⟨operator, hmem, -⟩ := began
      exact absurd hmem List.not_mem_nil
    exact ⟨fun _ x hx => absurd hx List.not_mem_nil, fun v p began => absurd began (none _ v),
      fun v p began => absurd began (none _ v)⟩
  · intro _ w b w' before hi hs
    have reachable := before.reachable
    have calendar := reachable_calendar reachable
    have accounts := reachable_accounts reachable
    have boundaries := run_boundaries before
    have effect := step_effect hs
    cases effect_span (reachable_inRange reachable) calendar effect with
    | inl kept => exact holdings_kept calendar accounts boundaries effect kept hi
    | inr began => exact holdings_began accounts boundaries began.2 hi

/-- The principal-seconds a registration pays on are the Principal really held,
second by second over the epoch. -/
def PaidAsHeld (history : History) (w : World) (id : Nat) (owner : Pubkey) : Prop :=
  ∀ e p weight ps, w.epochs.lookup id = some e → w.players.lookup owner = some p →
    weightAndPrincipalSeconds e p = .ok (weight, ps) →
    ps = integral (heldAt owner history w) e.startsAt e.endsAt

/-- Between an epoch's start and the instant it was begun, the owner held as many
principal-seconds as the Principal held at that instant makes. -/
def HeldBefore (history : History) (w : World) (id : Nat) (owner : Pubkey) : Prop :=
  ∀ e v, w.epochs.lookup id = some e → BeganIn history id v →
    integral (heldAt owner history w) e.startsAt v.clock =
      v.held owner * (v.clock - e.startsAt).toNat

/-- In every run, what a registration pays on is what the owner held if and only
if the backdated stretch of the epoch is. -/
theorem principalSeconds_held {N : Nat} (run : Run rt history w)
    (h : Step rt w (.register N owner) w') :
    PaidAsHeld history w N owner ↔ HeldBefore history w N owner := by
  obtain ⟨e, p, weight, ps, he, hp, hcur, hid, hps, -⟩ := effect_register (step_effect h)
  have calendar := reachable_calendar run.reachable
  have boundaries := run_boundaries run
  have keyed := calendar.keyed he
  have place : N = w.pool.currentEpochId - 1 := keyed.1.symm.trans hid
  obtain ⟨x, hx, hstart, hend⟩ := calendar.previous (by omega)
  rw [← place] at hx
  obtain rfl := Option.some.inj (he.symm.trans hx)
  have order := calendar.previousOrder (by omega)
  have now := calendar.currentOrder (by omega)
  have updated := ((reachable_accounts run.reachable).updated hp).1
  have owed := weightAndPrincipalSeconds_eq_ok (by omega) updated (by omega) hps
  have counted : ∀ v, BeganIn history N v → ps = v.held owner * (v.clock - e.startsAt).toNat +
      integral (heldAt owner history w) v.clock e.endsAt := by
    intro v began
    rw [place] at began
    have backed := (run_holdings run owner).previous v p began hp
    rw [← hid, ← hstart, ← hend] at backed
    exact owed.2.trans (backed owed.1)
  have split : ∀ v, BeganIn history N v →
      integral (heldAt owner history w) e.startsAt e.endsAt =
        integral (heldAt owner history w) e.startsAt v.clock +
          integral (heldAt owner history w) v.clock e.endsAt := by
    intro v began
    rw [place] at began
    have bounds := boundaries.previous v began
    exact integral_split (by omega) (by omega)
  constructor
  · intro paid x v hx began
    obtain rfl := Option.some.inj (he.symm.trans hx)
    have same := paid e p weight ps he hp hps
    rw [split v began, counted v began] at same
    omega
  · intro before x q weight' ps' hx hq hps'
    obtain rfl := Option.some.inj (he.symm.trans hx)
    obtain rfl := Option.some.inj (hp.symm.trans hq)
    have same := (Prod.mk.inj (Except.ok.inj (hps.symm.trans hps'))).2
    obtain ⟨v, began⟩ := boundaries.begun N keyed.2.1 keyed.2.2
    have stretch := before e v he began
    rw [← same, split v began, stretch]
    exact counted v began

/-- A late epoch 2, begun at 1150 with a start of 1100: 100 held since 1030, and
50 more from 1170. -/
theorem principalSeconds_held_late : ∃ history w w', Run Demo.runtime history w ∧
    Step Demo.runtime w (.register 2 ⟨3⟩) w' ∧
    (∃ e p, w.epochs.lookup 2 = some e ∧ w.players.lookup ⟨3⟩ = some p ∧
      weightAndPrincipalSeconds e p = .ok (11500, 11500)) ∧ PaidAsHeld history w 2 ⟨3⟩ := by
  let player := Demo.signer 3
  let wallet := Demo.wallet player
  obtain ⟨⟨⟨history, w⟩, w'⟩, hrun, hcheck⟩ := exists_of_any
    (x := do
      let r ← Demo.script [.setFeaturePause Demo.admin .jackpot false, .beginEpoch Demo.operator,
        .wait 1030, .deposit player wallet 100, .wait 1150, .beginEpoch Demo.operator,
        .wait 1170, .deposit player wallet 50, .wait 1200, .beginEpoch Demo.operator]
      let w' ← perform Demo.runtime (.register 2 ⟨3⟩) r.2
      return (r, w'))
    (p := fun r => (r.1.2.epochs.lookup 2).any fun e =>
      ((r.1.2.players.lookup ⟨3⟩).any fun p =>
        (weightAndPrincipalSeconds e p).toOption = some (11500, 11500)) &&
      r.1.1.all fun x => x.1.pool.currentEpochId + 1 ≠ 2 ||
        !x.2.beginsEpoch ||
        integral (heldAt ⟨3⟩ r.1.1 r.1.2) e.startsAt x.1.clock =
          x.1.held ⟨3⟩ * (x.1.clock - e.startsAt).toNat) (by decide +kernel)
  obtain ⟨r, hr, hrest⟩ := bind_eq_ok.mp hrun
  obtain ⟨u, hstep, heq⟩ := bind_eq_ok.mp hrest
  cases pure_eq_ok.mp heq
  simp only [Option.any_eq_true, Bool.and_eq_true, decide_eq_true_eq, List.all_eq_true,
    Bool.or_eq_true, Bool.not_eq_true'] at hcheck
  obtain ⟨e, he, ⟨p, hp, hps⟩, hbefore⟩ := hcheck
  have run := Demo.script_run hr
  refine ⟨history, w, w', run, hstep, ⟨e, p, he, hp, ?_⟩, ?_⟩
  · exact ok_of_toOption hps
  · refine (principalSeconds_held run hstep).mpr ?_
    intro x v hx began
    obtain rfl := Option.some.inj (he.symm.trans hx)
    obtain ⟨operator, hmem, hid⟩ := began
    obtain (hne | hother) | hsame := hbefore _ hmem
    · exact absurd hid hne
    · cases hother
    · exact hsame

/-- A deposit of 100 at second 1140 counts from 1100, the start that `begin_epoch`
gives epoch 2 at 1150. -/
theorem principalSeconds_backdated : ∃ history w w', Run Demo.runtime history w ∧
    Step Demo.runtime w (.register 2 ⟨3⟩) w' ∧
    (∃ p, w.players.lookup ⟨3⟩ = some p ∧ p.isHouse = false) ∧
    ¬ PaidAsHeld history w 2 ⟨3⟩ := by
  let player := Demo.signer 3
  obtain ⟨⟨⟨history, w⟩, w'⟩, hrun, hcheck⟩ := exists_of_any
    (x := do
      let r ← Demo.script [.setFeaturePause Demo.admin .jackpot false, .beginEpoch Demo.operator,
        .wait 1140, .deposit player (Demo.wallet player) 100, .wait 1150,
        .beginEpoch Demo.operator, .wait 1200, .beginEpoch Demo.operator]
      let w' ← perform Demo.runtime (.register 2 ⟨3⟩) r.2
      return (r, w'))
    (p := fun r => (r.1.2.epochs.lookup 2).any fun e => (r.1.2.players.lookup ⟨3⟩).any fun p =>
      !p.isHouse && (weightAndPrincipalSeconds e p).toOption = some (10000, 10000) &&
      integral (heldAt ⟨3⟩ r.1.1 r.1.2) e.startsAt e.endsAt = 6000) (by decide +kernel)
  obtain ⟨r, hr, hrest⟩ := bind_eq_ok.mp hrun
  obtain ⟨u, hstep, heq⟩ := bind_eq_ok.mp hrest
  cases pure_eq_ok.mp heq
  simp only [Option.any_eq_true, Bool.and_eq_true, decide_eq_true_eq, Bool.not_eq_true']
    at hcheck
  obtain ⟨e, he, p, hp, ⟨hhouse, hps⟩, held⟩ := hcheck
  refine ⟨history, w, w', Demo.script_run hr, hstep, ⟨p, hp, hhouse⟩, ?_⟩
  intro paid
  have same := paid e p 10000 10000 he hp (ok_of_toOption hps)
  omega

end Runs

end HexVault
