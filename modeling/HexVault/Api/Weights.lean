import HexVault.Invariants.Accrual
import HexVault.Invariants.Weighted
import HexVault.Operator.Registered

/-!
The two computations of a Player's Weight off the chain: the operator's, before it
sends a `register`, and the one the API shows. Both read mirrored fields; the chain's
own are `weightAndPrincipalSeconds` and `touch`.
-/

namespace HexVault

open Fallible Finmap Runs
open Operator (registrationWeight)

namespace Api

/-- A Player's Weight for one epoch at an instant, without the Player having to be
touched. -/
def weightAt (player : Player) (epochId : Nat) (epochStart instant : Int) : Int :=
  if player.frozenEpoch = epochId then player.frozenWeight
  else if player.epochId = epochId then
    let elapsed := instant - player.lastUpdate
    if elapsed ≤ 0 then player.weightAcc else player.weightAcc + player.entries * elapsed
  else if player.epochId < epochId then
    let elapsed := instant - epochStart
    if elapsed ≤ 0 then 0 else player.principal * elapsed
  else 0

/-- A registration would find no Weight, or a frozen copy of another epoch. -/
def NothingToRegister (e : Epoch) (p : Player) : Prop :=
  (∃ ps, weightAndPrincipalSeconds e p = .ok (0, ps)) ∨
    weightAndPrincipalSeconds e p = .error (.vault .frozenEpochMismatch)

section Registration
variable {e : Epoch} {p : Player} {weight ps : Nat}

theorem registrationWeight_of_ok (start : 0 ≤ e.startsAt) (updated : 0 ≤ p.lastUpdate)
    (stop : e.endsAt < i64Limit) (h : weightAndPrincipalSeconds e p = .ok (weight, ps)) :
    registrationWeight p e = weight := by
  simp only [weightAndPrincipalSeconds] at h
  split at h
  · rename_i same
    simp only [bind_eq_ok, accrue_eq_ok, pure_eq_ok, Prod.mk.injEq,
      elapsed_eq updated stop] at h
    obtain ⟨_, ⟨-, rfl⟩, _, -, hw, -⟩ := h
    rw [registrationWeight, if_pos same, hw]
  · rename_i other
    split at h
    · rename_i later
      simp only [bind_eq_ok, ensure_eq_ok, pure_eq_ok, exists_const, Prod.mk.injEq] at h
      rw [registrationWeight, if_neg other, if_pos later, if_pos h.1, h.2.1]
    · rename_i idle
      simp only [bind_eq_ok, weightOf_eq_ok, pure_eq_ok, Prod.mk.injEq,
        elapsed_eq start stop] at h
      obtain ⟨_, ⟨-, rfl⟩, hw, -⟩ := h
      rw [registrationWeight, if_neg other, if_neg idle, hw]

/-- No Weight, and the principal-seconds beside it fit: the registration goes through. -/
theorem nothing_of_registrationWeight (start : 0 ≤ e.startsAt) (updated : 0 ≤ p.lastUpdate)
    (stop : e.endsAt < i64Limit)
    (seconds : p.principalAcc + p.principal * elapsed p.lastUpdate e.endsAt < u128Limit)
    (h : registrationWeight p e = 0) : NothingToRegister e p := by
  rw [registrationWeight] at h
  rw [NothingToRegister, weightAndPrincipalSeconds]
  split at h
  · rename_i same
    rw [if_pos same]
    have weight : accrue p.weightAcc p.entries (elapsed p.lastUpdate e.endsAt) = .ok 0 := by
      rw [accrue_eq_ok, elapsed_eq updated stop, h]
      exact ⟨Nat.two_pow_pos 128, rfl⟩
    refine .inl ⟨p.principalAcc + p.principal * elapsed p.lastUpdate e.endsAt, ?_⟩
    dsimp only
    rw [weight, accrue_eq_ok.mpr ⟨seconds, rfl⟩]
    rfl
  · rename_i other
    rw [if_neg other]
    split at h
    · rename_i later
      rw [if_pos later]
      split at h
      · rename_i frozen
        refine .inl ⟨p.frozenPrincipalAcc, ?_⟩
        rw [ensure, require, if_pos frozen, h]
        rfl
      · rename_i stale
        refine .inr ?_
        rw [ensure, require, if_neg stale]
        rfl
    · rename_i idle
      rw [if_neg idle]
      refine .inl ⟨0, ?_⟩
      rw [weightOf_eq_ok.mpr ⟨?_, rfl⟩, elapsed_eq start stop, h]
      · rfl
      · rw [elapsed_eq start stop, h]
        exact Nat.two_pow_pos 128

theorem registrationWeight_of_mismatch
    (h : weightAndPrincipalSeconds e p = .error (.vault .frozenEpochMismatch)) :
    registrationWeight p e = 0 := by
  simp only [weightAndPrincipalSeconds] at h
  split at h
  · simp only [bind_eq_error] at h
    obtain h | ⟨_, -, h | ⟨_, -, h⟩⟩ := h
    · cases accrue_eq_error h
    · cases accrue_eq_error h
    · cases h
  · rename_i other
    split at h
    · rename_i later
      simp only [bind_eq_error, ensure_eq_error] at h
      obtain ⟨stale, -⟩ | ⟨_, -, h⟩ := h
      · rw [registrationWeight, if_neg other, if_pos later, if_neg stale]
      · cases h
    · simp only [weightOf, mulU128, bind_eq_error, checkedMul_eq_error] at h
      obtain ⟨-, h⟩ | ⟨_, -, h⟩ := h
      · cases h
      · cases h

/-- What the API counts as elapsed and what the operator does. -/
theorem scaled_span (amount : Nat) (span : Int) :
    (if span ≤ 0 then 0 else (amount : Int) * span) = ((amount * span.toNat : Nat) : Int) := by
  split
  · rename_i none
    rw [Int.toNat_of_nonpos none, Nat.mul_zero]
    rfl
  · rename_i some
    rw [Int.natCast_mul, Int.toNat_of_nonneg (by omega)]

theorem weightAt_current {epochId : Nat} {epochStart : Int} (h : p.epochId = epochId)
    (unfrozen : p.frozenEpoch ≠ epochId) (instant : Int) :
    weightAt p epochId epochStart instant =
      ((p.weightAcc + p.entries * (instant - p.lastUpdate).toNat : Nat) : Int) := by
  rw [weightAt, if_neg unfrozen, if_pos h, Int.natCast_add, ← scaled_span]
  dsimp only
  split
  · exact (Int.add_zero _).symm
  · rfl

theorem weightAt_idle {epochId : Nat} (epochStart : Int) (h : p.epochId < epochId)
    (unfrozen : p.frozenEpoch ≠ epochId) (instant : Int) :
    weightAt p epochId epochStart instant =
      ((p.principal * (instant - epochStart).toNat : Nat) : Int) := by
  rw [weightAt, if_neg unfrozen, if_neg (Nat.ne_of_lt h), if_pos h, ← scaled_span]

/-- The two computations off the chain agree at the epoch's end. -/
theorem weightAt_endsAt (behind : p.FrozenBehind) (positive : 1 ≤ e.epochId) :
    weightAt p e.epochId e.startsAt e.endsAt = registrationWeight p e := by
  by_cases frozen : p.frozenEpoch = e.epochId
  · have later : e.epochId < p.epochId := by
      cases behind with
      | inl none => omega
      | inr before => omega
    rw [weightAt, if_pos frozen, registrationWeight, if_neg (Nat.ne_of_gt later), if_pos later,
      if_pos frozen]
  · cases Nat.lt_trichotomy p.epochId e.epochId with
    | inl idle =>
        rw [weightAt_idle _ idle frozen, registrationWeight, if_neg (Nat.ne_of_lt idle),
          if_neg (Nat.not_lt.mpr (Nat.le_of_lt idle))]
    | inr rest =>
        cases rest with
        | inl same => rw [weightAt_current same frozen, registrationWeight, if_pos same]
        | inr later =>
            rw [weightAt, if_neg frozen, if_neg (Nat.ne_of_gt later),
              if_neg (Nat.not_lt.mpr (Nat.le_of_lt later)), registrationWeight,
              if_neg (Nat.ne_of_gt later), if_pos later, if_neg frozen]
            rfl

end Registration

section Run
variable {rt : Runtime} {w w' : World} {owner : Pubkey} {p q : Player} {e : Epoch} {id : Nat}

theorem previous_bounds (calendar : w.Calendar) (he : w.epochs.lookup id = some e)
    (previous : id + 1 = w.pool.currentEpochId) :
    e.epochId = id ∧ 1 ≤ id ∧ 0 ≤ e.startsAt ∧ e.endsAt < i64Limit := by
  have keyed := calendar.keyed he
  have two : 2 ≤ w.pool.currentEpochId := by omega
  obtain ⟨x, hx, hs, hend⟩ := calendar.previous two
  have this : w.pool.currentEpochId - 1 = id := by omega
  rw [this] at hx
  obtain rfl := Option.some.inj (he.symm.trans hx)
  have order := calendar.previousOrder two
  have current := calendar.currentOrder (Nat.le_of_succ_le two)
  exact ⟨keyed.1, keyed.2.1, by omega, by omega⟩

/-- For the epoch being registered, the operator's figure and the API's at its end are
the length of the interval a registration takes, and zero exactly where it finds no
Weight or refuses a frozen copy of another epoch. -/
theorem weights_registered (reachable : Reachable rt w) (he : w.epochs.lookup id = some e)
    (previous : id + 1 = w.pool.currentEpochId) (hp : w.players.lookup owner = some p) :
    weightAt p id e.startsAt e.endsAt = registrationWeight p e ∧
    (∀ weight ps, weightAndPrincipalSeconds e p = .ok (weight, ps) →
      registrationWeight p e = weight) ∧
    (registrationWeight p e = 0 ↔ NothingToRegister e p) ∧
    (∀ w', Step rt w (.register id owner) w' → 0 < registrationWeight p e →
      ∃ p', w'.players.lookup owner = some p' ∧ p'.regEpoch = id ∧
        p'.regEnd = p'.regStart + registrationWeight p e) := by
  obtain ⟨keyed, positive, start, stop⟩ :=
    previous_bounds (reachable_calendar reachable) he previous
  have updated := (reachable_accounts reachable).updated hp
  have counts : ∀ weight ps, weightAndPrincipalSeconds e p = .ok (weight, ps) →
      registrationWeight p e = weight :=
    fun weight ps h => registrationWeight_of_ok start updated.1 stop h
  refine ⟨?_, counts, ?_, ?_⟩
  · have agree := weightAt_endsAt (e := e) (reachable_frozenBehind reachable hp) (by omega)
    rw [keyed] at agree
    exact agree
  · constructor
    · exact nothing_of_registrationWeight start updated.1 stop
        (reachable_seconds_fit reachable hp stop)
    · intro nothing
      cases nothing with
      | inl found =>
          obtain ⟨ps, hps⟩ := found
          exact counts 0 ps hps
      | inr refused => exact registrationWeight_of_mismatch refused
  · intro w' h some
    cases step_effect h with
    | reconfigured ha => exact nomatch ha
    | registeredNothing hx ha _ _ _ _ hps =>
        obtain rfl := Option.some.inj (he.symm.trans hx)
        obtain rfl := Option.some.inj (hp.symm.trans ha)
        exact absurd (counts _ _ hps) (Nat.ne_of_gt some)
    | registered hx ha _ _ _ _ hps =>
        obtain rfl := Option.some.inj (he.symm.trans hx)
        obtain rfl := Option.some.inj (hp.symm.trans ha)
        refine ⟨_, lookup_insert _, keyed, ?_⟩
        rw [counts _ _ hps]

/-- 100 of Principal since the first second of a 100-second epoch. -/
theorem weights_registered_held : ∃ w e p, Reachable Demo.runtime w ∧
    w.epochs.lookup 1 = some e ∧ w.players.lookup ⟨3⟩ = some p ∧
    (weightAt p 1 e.startsAt e.endsAt = 10000 ∧ registrationWeight p e = 10000) ∧
    (registrationWeight p e = 0 ↔ NothingToRegister e p) := by
  let player := Demo.signer 3
  obtain ⟨⟨history, w⟩, hrun, hcheck⟩ := exists_of_any
    (x := Demo.script [.setFeaturePause Demo.admin .jackpot false, .beginEpoch Demo.operator,
      .deposit player (Demo.wallet player) 100, .wait 1100, .beginEpoch Demo.operator])
    (p := fun s => decide (s.2.pool.currentEpochId = 2) &&
      (s.2.epochs.lookup 1).any fun e => (s.2.players.lookup ⟨3⟩).any fun p =>
        decide ((weightAndPrincipalSeconds e p).toOption = some (10000, 10000)))
    (by decide +kernel)
  simp only [Bool.and_eq_true, Option.any_eq_true, decide_eq_true_eq] at hcheck
  obtain ⟨hcur, e, he, p, hp, hps⟩ := hcheck
  have reachable := (Demo.script_run hrun).reachable
  obtain ⟨shown, counts, nothing, -⟩ := weights_registered reachable he hcur.symm hp
  have weight := counts _ _ (ok_of_toOption hps)
  refine ⟨w, e, p, reachable, he, hp, ⟨?_, weight⟩, nothing⟩
  rw [shown, weight]
  rfl

/-- An epoch that owes a Player no Weight owes it no principal-seconds; so whoever a
registration credits Base yield is among those the operator registers. -/
theorem no_weight_no_yield (reachable : Reachable rt w) :
    (∀ owner p epoch ps, w.players.lookup owner = some p →
      weightAndPrincipalSeconds epoch p = .ok (0, ps) → ps = 0) ∧
    ∀ players id owner w', Operator.Mirrors players w → register id owner w = .ok w' →
      w.held owner < w'.held owner → owner ∈ Operator.playersToRegister players w.epochs id := by
  have weighted := reachable_weighted reachable
  refine ⟨?_, ?_⟩
  · intro owner p epoch ps hp h
    exact weightAndPrincipalSeconds_weighted (weighted owner p hp) h
  · intro players id owner w' mirrors h credited
    obtain ⟨epoch, p, q, r, weight, ps, he, hp, current, previous, hps, credit⟩ :=
      register_credit h
    rw [credit.held hp] at credited
    have free : p.regEpoch ≠ epoch.epochId := by
      simp only [register, bind_eq_ok, World.epoch_eq_ok, World.player_eq_ok, ensure_eq_ok,
        exists_const] at h
      obtain ⟨x, hx, y, hy, -, -, free, -⟩ := h
      obtain rfl := Option.some.inj (he.symm.trans hx)
      obtain rfl := Option.some.inj (hp.symm.trans hy)
      exact free
    have accounts := reachable_accounts reachable
    have keyed := (reachable_calendar reachable).keyed he
    obtain ⟨-, -, start, stop⟩ := previous_bounds (reachable_calendar reachable) he (by omega)
    have positive : 0 < weight := by
      by_contra none
      obtain rfl : weight = 0 := by omega
      rw [weightAndPrincipalSeconds_weighted (weighted owner p hp) hps, yieldDue_nothing]
        at credited
      exact Nat.lt_irrefl _ credited
    refine (Operator.mem_playersToRegister mirrors accounts.owned).mpr ⟨p, epoch, hp, he, ?_, ?_⟩
    · exact keyed.1 ▸ free
    · rw [registrationWeight_of_ok start (accounts.updated hp).1 stop hps]
      exact positive

/-- A Player credited two units by its registration, and on the operator's list before it. -/
theorem no_weight_no_yield_credited : ∃ w w' players, Reachable Demo.runtime w ∧
    Operator.Mirrors players w ∧ register 1 ⟨3⟩ w = .ok w' ∧
    w.held ⟨3⟩ = 63072 ∧ w'.held ⟨3⟩ = 63074 ∧
    ⟨3⟩ ∈ Operator.playersToRegister players w.epochs 1 := by
  let player := Demo.signer 3
  obtain ⟨⟨history, w⟩, hrun, hcheck⟩ := exists_of_any
    (x := Demo.script [.setFeaturePause Demo.admin .jackpot false,
      .setParams Demo.admin { Demo.setEpochSeconds 1000 with baseRateBps := some 10000 },
      .fundYield player (Demo.wallet player) 3, .deposit player (Demo.wallet player) 63072,
      .beginEpoch Demo.operator, .wait 2000, .beginEpoch Demo.operator])
    (p := fun s => decide (Operator.Mirrors (Operator.Demo.reads s.2).players s.2) &&
      decide (s.2.held ⟨3⟩ = 63072) &&
      (register 1 ⟨3⟩ s.2).toOption.any fun (w' : World) => decide (w'.held ⟨3⟩ = 63074))
    (by decide +kernel)
  simp only [Bool.and_eq_true, Option.any_eq_true, decide_eq_true_eq] at hcheck
  obtain ⟨⟨mirrors, before⟩, w', hw', after⟩ := hcheck
  have reachable := (Demo.script_run hrun).reachable
  have credited := ok_of_toOption hw'
  refine ⟨w, w', _, reachable, mirrors, credited, before, after, ?_⟩
  refine (no_weight_no_yield reachable).2 _ 1 ⟨3⟩ w' mirrors credited ?_
  rw [before, after]
  decide

/-- What still accrues for a Player once the current epoch is over is nothing. -/
def NothingAccrues (p : Player) (epochId : Nat) (instant : Int) : Prop :=
  if p.epochId = epochId then p.entries = 0 ∨ instant = p.lastUpdate else p.principal = 0

/-- From a Player's last update on, the Weight shown is the Weight a touch would store
exactly when the epoch is not over yet or nothing accrues in it any more. -/
theorem weightAt_touched (reachable : Reachable rt w) (hp : w.players.lookup owner = some p)
    (positive : 1 ≤ w.pool.currentEpochId) {instant : Int} (later : p.lastUpdate ≤ instant)
    (ht : touch p w.pool instant = .ok q) :
    weightAt p w.pool.currentEpochId w.pool.currentEpochStart instant = q.weightAcc ↔
      instant ≤ w.pool.currentEpochEndsAt ∨
        NothingAccrues p w.pool.currentEpochId instant := by
  have calendar := reachable_calendar reachable
  have order := calendar.currentOrder positive
  have updated := (reachable_accounts reachable).updated hp
  have behind := (reachable_accounts reachable).behind hp
  have frozen := reachable_frozenBehind reachable hp
  have unfrozen : p.frozenEpoch ≠ w.pool.currentEpochId := by
    cases frozen with
    | inl none => omega
    | inr before => omega
  have cut : min instant w.pool.currentEpochEndsAt < i64Limit :=
    Int.lt_of_le_of_lt (min_le_right _ _) order.2.2.2
  cases touch_cases ht with
  | inl same =>
      have current : p.epochId = w.pool.currentEpochId := Nat.le_antisymm behind same.current
      have weight := same.weight
      rw [accrueUntil, if_neg (Nat.ne_of_gt positive), accrue_eq_ok, elapsed_eq updated.1 cut]
        at weight
      rw [weightAt_current current unfrozen, weight.2, NothingAccrues, if_pos current,
        Int.natCast_inj, Nat.add_left_cancel_iff, mul_eq_mul_left_iff]
      omega
  | inr new =>
      have weight := new.weight
      rw [weightOf_eq_ok, elapsed_eq order.1 cut] at weight
      rw [weightAt_idle _ new.behind unfrozen, weight.2, NothingAccrues,
        if_neg (Nat.ne_of_lt new.behind), Int.natCast_inj, mul_eq_mul_left_iff]
      omega

/-- An account of 100 begun with the epoch, 30 seconds after the epoch's end. -/
theorem weightAt_late : ∃ w p q, Reachable Demo.runtime w ∧
    w.players.lookup ⟨3⟩ = some p ∧ 1 ≤ w.pool.currentEpochId ∧ p.lastUpdate ≤ w.clock ∧
    touch p w.pool w.clock = .ok q ∧ q.weightAcc = 10000 ∧
    weightAt p w.pool.currentEpochId w.pool.currentEpochStart w.clock ≠ q.weightAcc := by
  let player := Demo.signer 3
  obtain ⟨⟨history, w⟩, hrun, hcheck⟩ := exists_of_any
    (x := Demo.script [.setFeaturePause Demo.admin .jackpot false, .beginEpoch Demo.operator,
      .deposit player (Demo.wallet player) 100, .wait 1130])
    (p := fun s => decide (1 ≤ s.2.pool.currentEpochId) &&
      (s.2.players.lookup ⟨3⟩).any fun (p : Player) => decide (p.lastUpdate ≤ s.2.clock) &&
        ((touch p s.2.pool s.2.clock).toOption.any fun (q : Player) => decide (q.weightAcc = 10000) &&
          decide (weightAt p s.2.pool.currentEpochId s.2.pool.currentEpochStart s.2.clock =
            13000))) (by decide +kernel)
  simp only [Bool.and_eq_true, Option.any_eq_true, decide_eq_true_eq] at hcheck
  obtain ⟨hcur, p, hp, hupdated, q, hq, hweight, hshown⟩ := hcheck
  refine ⟨w, p, q, (Demo.script_run hrun).reachable, hp, hcur, hupdated, ok_of_toOption hq,
    hweight, ?_⟩
  rw [hshown, hweight]
  decide

/-- The same account within the epoch. -/
theorem weightAt_inside : ∃ w p q, Reachable Demo.runtime w ∧
    w.players.lookup ⟨3⟩ = some p ∧ touch p w.pool 1060 = .ok q ∧
    weightAt p w.pool.currentEpochId w.pool.currentEpochStart 1060 = q.weightAcc := by
  let player := Demo.signer 3
  obtain ⟨⟨history, w⟩, hrun, hcheck⟩ := exists_of_any
    (x := Demo.script [.setFeaturePause Demo.admin .jackpot false, .beginEpoch Demo.operator,
      .deposit player (Demo.wallet player) 100, .wait 1030])
    (p := fun s => decide (1 ≤ s.2.pool.currentEpochId) &&
      decide (1060 ≤ s.2.pool.currentEpochEndsAt) &&
      (s.2.players.lookup ⟨3⟩).any fun (p : Player) => decide (p.lastUpdate ≤ 1060) &&
        (touch p s.2.pool 1060).toOption.isSome) (by decide +kernel)
  simp only [Bool.and_eq_true, Option.any_eq_true, decide_eq_true_eq,
    Option.isSome_iff_exists] at hcheck
  obtain ⟨⟨hcur, hopen⟩, p, hp, hupdated, q, hq⟩ := hcheck
  have touched := ok_of_toOption hq
  have reachable := (Demo.script_run hrun).reachable
  exact ⟨w, p, q, reachable, hp, touched,
    (weightAt_touched reachable hp hcur hupdated touched).mpr (.inl hopen)⟩

end Run

end Api

end HexVault
