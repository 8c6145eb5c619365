import HexVault.Invariants.Stamps

/-!
The two ways out of a request for randomness: a fulfilled one is read, and one
that timed out unfulfilled is given up. Each subject has one gate for either, and
they are each other's complement on every account the reader does not panic on.
-/

namespace HexVault

open Fallible

section Vrf
variable (rt : Runtime)

/-- A fulfilled request with bytes after its randomness. -/
def overlong (data : Bytes) : Prop :=
  FULFILLED_LEN < data.length ∧ data.take 8 = randomnessDiscriminator rt ∧ data[8]? = some 1

instance (data : Bytes) : Decidable (overlong rt data) :=
  inferInstanceAs (Decidable (_ ∧ _ ∧ _))

/-- Two gates that are exact complements, on what an account parses to: the one
that reads it passes when it holds a fulfilled request, the one that gives it up
when it does not, and parsing it never panics. -/
structure Dual (parsed : Result Bytes) (reads escapes : Prop) : Prop where
  total : parsed ≠ .error .abort
  reads : reads ↔ ∃ bytes, parsed = .ok bytes
  escapes : escapes ↔ ¬ ∃ bytes, parsed = .ok bytes

/-- The randomness gate of `settle_round` and of `draw`. -/
def readGate (account : AccountInfo) (seed : Bytes) : Prop :=
  ∃ bytes, readFulfilled rt account seed = .ok bytes

/-- The gates of `settle_round` and `void_round` on a requested round. -/
def RoundDual (w : World) (round : Round) (account : AccountInfo) : Prop :=
  Dual (parseFulfilled rt account.data) (readGate rt account round.vrfSeed)
    (checkVoidable rt w.pool round account w.clock = .ok ())

/-- The gates of `draw` and `rollover_epoch` on an epoch being drawn. -/
def EpochDual (w : World) (epoch : Epoch) (account : AccountInfo) : Prop :=
  Dual (parseFulfilled rt account.data) (readGate rt account epoch.vrfSeed)
    (checkRollover rt w.pool epoch account w.clock = .ok ())

variable {rt}

theorem parseFulfilled_abort {data : Bytes} :
    parseFulfilled rt data = .error .abort ↔ overlong rt data := by
  simp only [parseFulfilled, bind_eq_error, require_eq_error, require_eq_ok, reduceCtorEq,
    and_false, false_or, exists_const, pure_eq_error, or_false, and_true, overlong,
    List.length_drop]
  constructor
  · intro h
    obtain ⟨hlen, hdisc, htag, hrest⟩ := h
    refine ⟨?_, hdisc, htag⟩
    unfold FULFILLED_LEN at *
    omega
  · intro h
    obtain ⟨hlen, hdisc, htag⟩ := h
    refine ⟨Nat.le_of_lt hlen, hdisc, htag, ?_⟩
    unfold FULFILLED_LEN at *
    omega

theorem readFulfilled_bound {account : AccountInfo} {seed : Bytes}
    (h : account.key = randomnessAddress rt seed) :
    readFulfilled rt account seed = parseFulfilled rt account.data := by
  simp only [readFulfilled, require, if_pos h, ok_bind]

theorem isFulfilled_false {account : AccountInfo} {seed : Bytes}
    (h : account.key = randomnessAddress rt seed) :
    isFulfilled rt account seed = .ok false ↔
      ∃ e, parseFulfilled rt account.data = .error e ∧ e ≠ .abort := by
  simp only [isFulfilled, readFulfilled_bound h]
  cases parseFulfilled rt account.data with
  | ok bytes => simp
  | error e => cases e <;> simp

theorem dual_iff {parsed : Result Bytes} {reads escapes : Prop}
    (hr : reads ↔ ∃ bytes, parsed = .ok bytes)
    (he : escapes ↔ ∃ e, parsed = .error e ∧ e ≠ .abort) :
    Dual parsed reads escapes ↔ parsed ≠ .error .abort := by
  constructor
  · intro dual
    exact dual.total
  · intro total
    refine ⟨total, hr, he.trans ?_⟩
    cases parsed with
    | ok bytes => simp
    | error e => simpa using total

theorem readGate_iff {account : AccountInfo} {seed : Bytes}
    (h : account.key = randomnessAddress rt seed) :
    readGate rt account seed ↔ ∃ bytes, parseFulfilled rt account.data = .ok bytes := by
  rw [readGate, readFulfilled_bound h]

/-- The escape gate of either subject: the account is the one bound to the
request, and it reads as unfulfilled. -/
theorem escapeGate_iff {account : AccountInfo} {seed : Bytes} {requestedAt timeout now : Int}
    (h : account.key = randomnessAddress rt seed)
    (deadline : addI64 requestedAt timeout = .ok (requestedAt + timeout))
    (past : requestedAt + timeout < now) : ((do
      ensure (account.key = randomnessAddress rt seed) .invalidRandomnessAccount
      let fulfilled ← isFulfilled rt account seed
      ensure (fulfilled = false) .randomnessAlreadyFulfilled
      let timeoutAt ← addI64 requestedAt timeout
      ensure (timeoutAt < now) .vrfTimeoutNotElapsed) : Result Unit) = .ok () ↔
      ∃ e, parseFulfilled rt account.data = .error e ∧ e ≠ .abort := by
  rw [← isFulfilled_false h]
  simp only [bind_eq_ok, ensure_eq_ok, deadline, Except.ok.injEq, exists_const, exists_eq_left',
    past, and_true, h, true_and]
  constructor
  · intro gate
    obtain ⟨fulfilled, hf, rfl⟩ := gate
    exact hf
  · intro hf
    exact ⟨false, hf, rfl⟩

end Vrf

section Gates
variable {rt : Runtime} {w : World}

/-- The void gate of a requested round past its timeout, on the account bound to it. -/
theorem voidGate_iff (reachable : Reachable rt w) {id : Nat} {round : Round}
    {account : AccountInfo} (hr : w.rounds.lookup id = some round)
    (requested : round.status = .requested)
    (past : round.requestedAt + w.pool.vrfTimeout < w.clock)
    (bound : account.key = randomnessAddress rt round.vrfSeed) :
    checkVoidable rt w.pool round account w.clock = .ok () ↔
      ∃ e, parseFulfilled rt account.data = .error e ∧ e ≠ .abort := by
  have stamp := (reachable_stamps reachable).rounds hr
  have timeout := (reachable_inRange reachable).vrfTimeout
  have clock := (reachable_calendar reachable).clockRange.2
  have deadline := stamp.deadline (Int.le_trans (by decide) timeout) clock past
  simp only [checkVoidable, requested]
  exact escapeGate_iff bound deadline past

/-- The rollover gate of an epoch being drawn, likewise. -/
theorem rolloverGate_iff (reachable : Reachable rt w) {id : Nat} {epoch : Epoch}
    {account : AccountInfo} (he : w.epochs.lookup id = some epoch)
    (drawing : epoch.status = .drawing)
    (past : epoch.requestedAt + w.pool.vrfTimeout < w.clock)
    (bound : account.key = randomnessAddress rt epoch.vrfSeed) :
    checkRollover rt w.pool epoch account w.clock = .ok () ↔
      ∃ e, parseFulfilled rt account.data = .error e ∧ e ≠ .abort := by
  have stamp := ((reachable_stamps reachable).epochs he).requested
  have timeout := (reachable_inRange reachable).vrfTimeout
  have clock := (reachable_calendar reachable).clockRange.2
  have deadline := stamp.deadline (Int.le_trans (by decide) timeout) clock past
  simp only [checkRollover, drawing]
  exact escapeGate_iff bound deadline past

theorem round_gates (reachable : Reachable rt w) {id : Nat} {round : Round}
    {account : AccountInfo} (hr : w.rounds.lookup id = some round)
    (requested : round.status = .requested)
    (past : round.requestedAt + w.pool.vrfTimeout < w.clock)
    (bound : account.key = randomnessAddress rt round.vrfSeed) :
    RoundDual rt w round account ↔ ¬ overlong rt account.data :=
  (dual_iff (readGate_iff bound) (voidGate_iff reachable hr requested past bound)).trans
    (not_congr parseFulfilled_abort)

theorem epoch_gates (reachable : Reachable rt w) {id : Nat} {epoch : Epoch}
    {account : AccountInfo} (he : w.epochs.lookup id = some epoch)
    (drawing : epoch.status = .drawing)
    (past : epoch.requestedAt + w.pool.vrfTimeout < w.clock)
    (bound : account.key = randomnessAddress rt epoch.vrfSeed) :
    EpochDual rt w epoch account ↔ ¬ overlong rt account.data :=
  (dual_iff (readGate_iff bound) (rolloverGate_iff reachable he drawing past bound)).trans
    (not_congr parseFulfilled_abort)

/-- The randomness gates of every request past its timeout are exact complements
on an account unless it is a fulfilled request with bytes to spare. -/
theorem randomness_gates (reachable : Reachable rt w) (account : AccountInfo) :
    (∀ id round, w.rounds.lookup id = some round → round.status = .requested →
      round.requestedAt + w.pool.vrfTimeout < w.clock →
      account.key = randomnessAddress rt round.vrfSeed →
      (RoundDual rt w round account ↔ ¬ overlong rt account.data)) ∧
    (∀ id epoch, w.epochs.lookup id = some epoch → epoch.status = .drawing →
      epoch.requestedAt + w.pool.vrfTimeout < w.clock →
      account.key = randomnessAddress rt epoch.vrfSeed →
      (EpochDual rt w epoch account ↔ ¬ overlong rt account.data)) :=
  ⟨fun _ _ hr requested past bound => round_gates reachable hr requested past bound,
    fun _ _ he drawing past bound => epoch_gates reachable he drawing past bound⟩

end Gates

/-! A round and an epoch that wait for their randomness past its timeout. -/

namespace Demo

def awaiting : List Action :=
  [.setFeaturePause admin .jackpot false, .setFeaturePause admin .game false,
    .deposit (signer 3) (wallet (signer 3)) 100, .beginEpoch operator,
    .wait 1100, .beginEpoch operator, .register 1 ⟨3⟩,
    .fundJackpot (signer 3) (wallet (signer 3)) 500,
    .closeRegistration operator 1 ⟨9⟩ (List.replicate 32 0),
    .createRound operator 1100 1110, .wait 1108,
    .requestRoundRandomness 1 ⟨9⟩ (List.replicate 32 0), .wait 1169]

/-- A fulfilled request one byte too long. -/
def overlongAccount : AccountInfo where
  key := ⟨9⟩
  data := List.replicate 8 0 ++ [1] ++ List.replicate 129 0

theorem awaiting_reached : ∃ w, Reachable runtime w ∧
    (∃ r, w.rounds.lookup 1 = some r ∧ r.status = .requested ∧
      r.requestedAt + w.pool.vrfTimeout < w.clock) ∧
    ∃ e, w.epochs.lookup 1 = some e ∧ e.status = .drawing ∧
      e.requestedAt + w.pool.vrfTimeout < w.clock := by
  obtain ⟨⟨history, w⟩, hrun, hcheck⟩ := exists_of_any (x := script awaiting)
    (p := fun s => (s.2.rounds.lookup 1).any (fun r =>
        r.status = .requested && r.requestedAt + s.2.pool.vrfTimeout < s.2.clock) &&
      (s.2.epochs.lookup 1).any fun e =>
        e.status = .drawing && e.requestedAt + s.2.pool.vrfTimeout < s.2.clock)
    (by decide +kernel)
  simp only [Bool.and_eq_true, Option.any_eq_true, decide_eq_true_eq] at hcheck
  exact ⟨w, (script_run hrun).reachable, hcheck⟩

end Demo

theorem randomness_gates_empty : ∃ w, Reachable Demo.runtime w ∧
    (∃ id round, w.rounds.lookup id = some round ∧
      RoundDual Demo.runtime w round ⟨⟨9⟩, []⟩) ∧
    ∃ id epoch, w.epochs.lookup id = some epoch ∧
      EpochDual Demo.runtime w epoch ⟨⟨9⟩, []⟩ := by
  obtain ⟨w, reachable, ⟨r, hr, hs, hpast⟩, e, he, hd, hlate⟩ := Demo.awaiting_reached
  have gates := randomness_gates reachable ⟨⟨9⟩, []⟩
  have fits : ¬ overlong Demo.runtime [] := by decide
  exact ⟨w, reachable, ⟨1, r, hr, (gates.1 1 r hr hs hpast rfl).mpr fits⟩,
    1, e, he, (gates.2 1 e he hd hlate rfl).mpr fits⟩

/-- Neither gate of a subject passes on a fulfilled request one byte too long: both
instructions abort, and the round and the draw are stuck. -/
theorem randomness_stuck : ∃ w, Reachable Demo.runtime w ∧
    (∃ id round, w.rounds.lookup id = some round ∧ round.status = .requested ∧
      round.requestedAt + w.pool.vrfTimeout < w.clock ∧
      Demo.overlongAccount.key = randomnessAddress Demo.runtime round.vrfSeed ∧
      ¬ RoundDual Demo.runtime w round Demo.overlongAccount ∧
      ¬ readGate Demo.runtime Demo.overlongAccount round.vrfSeed ∧
      checkVoidable Demo.runtime w.pool round Demo.overlongAccount w.clock = .error .abort) ∧
    ∃ id epoch, w.epochs.lookup id = some epoch ∧ epoch.status = .drawing ∧
      epoch.requestedAt + w.pool.vrfTimeout < w.clock ∧
      ¬ EpochDual Demo.runtime w epoch Demo.overlongAccount := by
  obtain ⟨w, reachable, ⟨r, hr, hs, hpast⟩, e, he, hd, hlate⟩ := Demo.awaiting_reached
  have long : overlong Demo.runtime Demo.overlongAccount.data := by decide +kernel
  have abort := parseFulfilled_abort.mpr long
  have bound : Demo.overlongAccount.key = randomnessAddress Demo.runtime r.vrfSeed := rfl
  refine ⟨w, reachable, ⟨1, r, hr, hs, hpast, rfl, fun dual => dual.total abort, ?_, ?_⟩,
    1, e, he, hd, hlate, fun dual => dual.total abort⟩
  · intro gate
    obtain ⟨bytes, hread⟩ := gate
    rw [readFulfilled_bound bound, abort] at hread
    exact nomatch hread
  · simp only [checkVoidable, hs, isFulfilled, readFulfilled_bound bound, abort, ensure, require,
      if_pos bound, ok_bind, error_bind]

end HexVault
