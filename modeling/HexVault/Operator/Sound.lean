import HexVault.Invariants.Enabled
import HexVault.Operator.Chosen

/-!
Whether the program takes what the operator sends. A tick and the program decide
on the same accounts at the same clock; for each step of a round or an epoch that
a tick chose, what is left for the program to refuse it for.
-/

namespace HexVault

open Fallible

namespace Operator

section Vrf
variable (rt : Runtime)

/-- The check of `vrf.ts`; an account that does not exist has no data. -/
def isFulfilled (data : Bytes) : Bool :=
  decide (FULFILLED_LEN ≤ data.length) &&
    decide (data.take 8 = randomnessDiscriminator rt) && decide (data[8]? = some 1)

/-- The 64 bytes a fulfilled request ends in. -/
def randomness (data : Bytes) : Bytes := data.drop (FULFILLED_LEN - 64)

/-- The account a request is answered in. -/
def requestAccount (data : Bytes → Bytes) (seed : Bytes) : AccountInfo where
  key := randomnessAddress rt seed
  data := data seed

/-- A tick's reads where the oracle's answers are the chain's own accounts. -/
def Reads.onChain (reads : Reads) (data : Bytes → Bytes) : Reads :=
  { reads with fulfilled := fun seed => isFulfilled rt (data seed) }

/-- The instruction a step of a round or an epoch is sent as, with the nonce it
was built with. -/
def Send.instruction (signer : Signer) (data : Bytes → Bytes) (nonce : Bytes) (w : World) :
    Send → Option Action
  | .voidRound id => (w.rounds.lookup id).map fun round =>
      .voidRound id (requestAccount rt data round.vrfSeed)
  | .requestRoundRandomness id => some (.requestRoundRandomness id
      (randomnessAddress rt (vrfSeed rt ROUND_DOMAIN w.key id nonce)) nonce)
  | .settleRound id => (w.rounds.lookup id).map fun round =>
      .settleRound id (requestAccount rt data round.vrfSeed)
  | .beginEpoch => some (.beginEpoch signer)
  | .closeRegistration id => some (.closeRegistration signer id
      (randomnessAddress rt (vrfSeed rt EPOCH_DOMAIN w.key id nonce)) nonce)
  | .draw id => (w.epochs.lookup id).map fun epoch =>
      .draw id (requestAccount rt data epoch.vrfSeed)
  | .rolloverEpoch id => (w.epochs.lookup id).map fun epoch =>
      .rolloverEpoch id (requestAccount rt data epoch.vrfSeed)
  | .createRound startsAt endsAt => some (.createRound signer startsAt endsAt)
  | _ => none

/-- The account of a fulfilled request is one the program can settle a round on. -/
def settlesOn (data : Bytes → Bytes) (w : World) (round : Round) : Prop :=
  (data round.vrfSeed).length = FULFILLED_LEN ∧ ∃ tile : Fin TILE_COUNT,
    unbiasedU64 rt (randomness (data round.vrfSeed)) TILE_COUNT = .ok tile ∧
      HouseRoom w round tile

/-- The account of a fulfilled request is one the program can draw an epoch on. -/
def drawsOn (data : Bytes → Bytes) (epoch : Epoch) : Prop :=
  (data epoch.vrfSeed).length = FULFILLED_LEN ∧
    Returns (unbiasedU128 rt (randomness (data epoch.vrfSeed)) epoch.registeredWeight)

/-- The operator rolls over an epoch the oracle has answered: only the pool's
shutdown makes it, and the program refuses whatever the pool's state. -/
def rollsAnswered (data : Bytes → Bytes) (epoch : Epoch) : Prop :=
  epoch.status = .drawing ∧ isFulfilled rt (data epoch.vrfSeed) = true

/-- What the program still asks of each step a tick chose. -/
def Send.Admissible (signer : Signer) (data : Bytes → Bytes) (w : World) : Send → Prop
  | .requestRoundRandomness id => ∀ round, w.rounds.lookup id = some round →
      -i64Limit ≤ round.endsAt - w.pool.closeBuffer
  | .settleRound id => ∀ round, w.rounds.lookup id = some round → settlesOn rt data w round
  | .beginEpoch => signer.key = w.pool.operator ∧ GridFits w ∧
      w.pool.currentEpochId + 1 < u64Limit
  | .closeRegistration _ => signer.key = w.pool.operator
  | .draw id => ∀ epoch, w.epochs.lookup id = some epoch → drawsOn rt data epoch
  | .rolloverEpoch id => ∀ epoch, w.epochs.lookup id = some epoch →
      ¬ rollsAnswered rt data epoch
  | .createRound _ _ => signer.key = w.pool.operator ∧ w.pool.nextRoundId + 1 < u64Limit
  | _ => True

variable {rt}

theorem parseFulfilled_iff {data bytes : Bytes} : parseFulfilled rt data = .ok bytes ↔
    isFulfilled rt data = true ∧ data.length = FULFILLED_LEN ∧ bytes = randomness data := by
  simp only [parseFulfilled, isFulfilled, randomness, bind_eq_ok, require_eq_ok, pure_eq_ok,
    exists_const, List.length_drop, Bool.and_eq_true, decide_eq_true_eq]
  constructor
  · intro h
    obtain ⟨hlen, hdisc, htag, hrest, rfl⟩ := h
    refine ⟨⟨⟨hlen, hdisc⟩, htag⟩, ?_, rfl⟩
    unfold FULFILLED_LEN at *
    omega
  · intro h
    obtain ⟨⟨⟨hlen, hdisc⟩, htag⟩, hexact, rfl⟩ := h
    refine ⟨hlen, hdisc, htag, ?_, rfl⟩
    rw [hexact]
    decide

/-- What the operator calls unfulfilled, the program reads as an error. -/
theorem parseFulfilled_refused {data : Bytes} :
    (∃ e, parseFulfilled rt data = .error e ∧ e ≠ .abort) ↔ isFulfilled rt data = false := by
  constructor
  · intro h
    obtain ⟨e, he, named⟩ := h
    refine Bool.eq_false_iff.mpr fun read => ?_
    by_cases exact_ : data.length = FULFILLED_LEN
    · rw [parseFulfilled_iff.mpr ⟨read, exact_, rfl⟩] at he
      exact nomatch he
    · simp only [isFulfilled, Bool.and_eq_true, decide_eq_true_eq] at read
      obtain ⟨⟨hlen, hdisc⟩, htag⟩ := read
      have long : overlong rt data := ⟨by omega, hdisc, htag⟩
      rw [parseFulfilled_abort.mpr long, Except.error.injEq] at he
      exact named he.symm
  · intro unread
    cases hparse : parseFulfilled rt data with
    | ok bytes =>
        rw [(parseFulfilled_iff.mp hparse).1] at unread
        exact nomatch unread
    | error e =>
        refine ⟨e, rfl, ?_⟩
        rintro rfl
        obtain ⟨hlen, hdisc, htag⟩ := parseFulfilled_abort.mp hparse
        have read : isFulfilled rt data = true := by
          simp only [isFulfilled, Bool.and_eq_true, decide_eq_true_eq]
          exact ⟨⟨Nat.le_of_lt hlen, hdisc⟩, htag⟩
        rw [read] at unread
        exact nomatch unread

end Vrf

section Context
variable {rt : Runtime} {config : Config} {memory : Memory} {reads : Reads} {w : World}

/-- What is read off a table keyed by a number of its records is found under that number. -/
theorem lookup_keyed {β : Type} {records : Finmap fun _ : Nat => β} {key : β → Nat} {id : Nat}
    {record : β} {asked : Prop} [Decidable asked]
    (keyed : records.lookup id = some record → key record = id)
    (h : (if asked then records.lookup id else none) = some record) :
    records.lookup (key record) = some record := by
  have found := (Option.ite_none_right_eq_some.mp h).2
  rw [keyed found]
  exact found

theorem openRound_lookup (reachable : Reachable rt w) {round : Round}
    (h : (context config memory w reads).openRound = some round) :
    w.rounds.lookup round.roundId = some round :=
  lookup_keyed (fun found => ((reachable_live reachable).keyed found).1) h

theorem currentEpoch_lookup {epoch : Epoch}
    (h : (context config memory w reads).currentEpoch = some epoch) :
    1 ≤ w.pool.currentEpochId ∧ w.epochs.lookup w.pool.currentEpochId = some epoch :=
  Option.ite_none_right_eq_some.mp h

theorem previousEpoch_lookup (reachable : Reachable rt w) {epoch : Epoch}
    (h : (context config memory w reads).previousEpoch = some epoch) :
    w.epochs.lookup epoch.epochId = some epoch :=
  lookup_keyed (fun found => ((reachable_calendar reachable).keyed found).1) h

theorem previousEpoch_of_lookup {epoch : Epoch} (later : 2 ≤ w.pool.currentEpochId)
    (h : w.epochs.lookup (w.pool.currentEpochId - 1) = some epoch) :
    (context config memory w reads).previousEpoch = some epoch := by
  exact (if_pos later).trans h

end Context

section Results
variable {rt : Runtime} {config : Config} {memory : Memory} {reads : Reads} {w : World}
  {data : Bytes → Bytes} {signer : Signer} {nonce : Bytes}

theorem instruction_upkeep {s : Send} (h : s.upkeep = true) :
    s.instruction rt signer data nonce w = none := by
  cases s <;> first | rfl | exact nomatch h

theorem requestAccount_reads {seed bytes : Bytes} (h : isFulfilled rt (data seed) = true) :
    readFulfilled rt (requestAccount rt data seed) seed = .ok bytes ↔
      (data seed).length = FULFILLED_LEN ∧ bytes = randomness (data seed) := by
  rw [readFulfilled_bound rfl, requestAccount, parseFulfilled_iff, h]
  exact and_iff_right rfl

theorem settleRound_chosen (reachable : Reachable rt w) {round : Round}
    (hr : w.rounds.lookup round.roundId = some round) (hs : round.status = .requested)
    (answered : isFulfilled rt (data round.vrfSeed) = true) :
    Returns (settleRound rt round.roundId (requestAccount rt data round.vrfSeed) w) ↔
      settlesOn rt data w round := by
  simp only [settleRound_requested reachable hr hs, requestAccount_reads answered]
  constructor
  · intro accepted
    obtain ⟨bytes, ⟨exact_, rfl⟩, settles⟩ := accepted
    exact ⟨exact_, settles⟩
  · intro settles
    exact ⟨_, ⟨settles.1, rfl⟩, settles.2⟩

theorem draw_chosen {epoch : Epoch} (he : w.epochs.lookup epoch.epochId = some epoch)
    (drawing : epoch.status = .drawing)
    (answered : isFulfilled rt (data epoch.vrfSeed) = true) :
    Returns (draw rt epoch.epochId (requestAccount rt data epoch.vrfSeed) w) ↔
      drawsOn rt data epoch := by
  simp only [draw_drawing he drawing, requestAccount_reads answered]
  constructor
  · intro accepted
    obtain ⟨bytes, ⟨exact_, rfl⟩, draws⟩ := accepted
    exact ⟨exact_, draws⟩
  · intro draws
    exact ⟨_, ⟨draws.1, rfl⟩, draws.2⟩

theorem beginEpoch_chosen (reachable : Reachable rt w) (running : w.pool.shutdown = false)
    (started : w.pool.jackpotPaused = false)
    (ended : w.pool.currentEpochId = 0 ∨ ∃ epoch,
      (context config memory w reads).currentEpoch = some epoch ∧ epoch.endsAt ≤ w.clock)
    (done : ∀ epoch, (context config memory w reads).previousEpoch = some epoch →
      epoch.status = .paid ∨ epoch.status = .rolledOver) :
    Returns (beginEpoch signer w) ↔ signer.key = w.pool.operator ∧ GridFits w ∧
      w.pool.currentEpochId + 1 < u64Limit := by
  refine beginEpoch_due reachable running started ?_ ?_
  · intro current hcurrent
    cases ended with
    | inl first =>
        have begun := ((reachable_calendar reachable).keyed hcurrent).2.1
        omega
    | inr later =>
        obtain ⟨epoch, hepoch, past⟩ := later
        obtain rfl := Option.some.inj ((currentEpoch_lookup hepoch).2.symm.trans hcurrent)
        exact past
  · intro previous hprevious two
    have finished := done previous (previousEpoch_of_lookup two hprevious)
    unfold Epoch.holdsPrize
    cases finished with
    | inl paid =>
        rw [paid]
        decide
    | inr rolledOver =>
        rw [rolledOver]
        decide

/-- A step of a round or an epoch that a tick chose goes through on the state the
tick saw exactly where it is admissible. -/
theorem operator_sound (reachable : Reachable rt w) {s : Send} {a : Action}
    (asked : s ∈ (decided config memory w (reads.onChain rt data)).tick.asked)
    (sent : s.instruction rt signer data nonce w = some a) :
    (∃ w', Step rt w a w') ↔ s.Admissible rt signer data w := by
  have nothing : Asks (context config memory w (reads.onChain rt data)) memory.tick := nofun
  cases decide_asks nothing s asked with
  | voidedOpen hround hs late =>
      have hr := openRound_lookup reachable hround
      simp only [Send.instruction, hr, Option.map_some, Option.some.injEq] at sent
      subst sent
      exact iff_of_true (voidRound_open reachable hr hs late) trivial
  | @voidedRequested round hround hs unread late =>
      have hr := openRound_lookup reachable hround
      simp only [Send.instruction, hr, Option.map_some, Option.some.injEq] at sent
      subst sent
      have refused := parseFulfilled_refused.mpr unread
      exact iff_of_true ((voidRound_requested reachable hr hs late rfl).mpr refused) trivial
  | requested hround hs closing =>
      have hr := openRound_lookup reachable hround
      simp only [Send.instruction, Option.some.injEq] at sent
      subst sent
      refine (requestRoundRandomness_open reachable hr hs closing nonce).trans ?_
      simp only [Send.Admissible, hr, Option.some.injEq, forall_eq']
  | settled hround hs answered =>
      have hr := openRound_lookup reachable hround
      simp only [Send.instruction, hr, Option.map_some, Option.some.injEq] at sent
      subst sent
      refine (settleRound_chosen reachable hr hs answered).trans ?_
      simp only [Send.Admissible, hr, Option.some.injEq, forall_eq']
  | began running started ended done =>
      simp only [Send.instruction, Option.some.injEq] at sent
      subst sent
      exact beginEpoch_chosen reachable running started ended done
  | closed hepoch running started registering passed =>
      have he := previousEpoch_lookup reachable hepoch
      simp only [Send.instruction, Option.some.injEq] at sent
      subst sent
      refine closeRegistration_due reachable he running started registering ?_ nonce
      refine Int.le_trans (Int.le_of_eq ?_) passed
      unfold windowEnd registrationClosesAt
      split
      · rename_i later
        rw [max_eq_left (Int.le_of_lt later)]
        rfl
      · rename_i earlier
        rw [max_eq_right (Int.not_lt.mp earlier)]
        rfl
  | drawn hepoch drawing answered =>
      have he := previousEpoch_lookup reachable hepoch
      simp only [Send.instruction, he, Option.map_some, Option.some.injEq] at sent
      subst sent
      refine (draw_chosen he drawing answered).trans ?_
      simp only [Send.Admissible, he, Option.some.injEq, forall_eq']
  | @gaveUp epoch hepoch drawing unanswered late =>
      have he := previousEpoch_lookup reachable hepoch
      simp only [Send.instruction, he, Option.map_some, Option.some.injEq] at sent
      subst sent
      refine (rolloverEpoch_drawing reachable he drawing late rfl).trans ?_
      simp only [Send.Admissible, he, Option.some.injEq, forall_eq', rollsAnswered, drawing,
        true_and, Bool.not_eq_true]
      exact parseFulfilled_refused
  | @unpaid epoch hepoch drawn late =>
      have he := previousEpoch_lookup reachable hepoch
      simp only [Send.instruction, he, Option.map_some, Option.some.injEq] at sent
      subst sent
      refine iff_of_true (rolloverEpoch_drawn reachable he drawn late) ?_
      simp only [Send.Admissible, he, Option.some.injEq, forall_eq', rollsAnswered, drawn,
        reduceCtorEq, false_and, not_false_eq_true]
  | created hepoch free running playing fits =>
      obtain ⟨begun, he⟩ := currentEpoch_lookup hepoch
      simp only [Send.instruction, Option.some.injEq] at sent
      subst sent
      exact createRound_now reachable begun he free running playing fits
  | upkeep aside =>
      rw [instruction_upkeep aside] at sent
      exact nomatch sent

end Results

/-! An epoch left in its draw past the timeout, and a withdrawal that is due. -/

namespace Demo

def drawing : List Action :=
  [.setFeaturePause HexVault.Demo.admin .jackpot false,
    .deposit (HexVault.Demo.signer 3) (HexVault.Demo.wallet (HexVault.Demo.signer 3)) 100,
    .beginEpoch HexVault.Demo.operator, .requestWithdraw (HexVault.Demo.signer 3) 40,
    .wait 1100, .beginEpoch HexVault.Demo.operator, .register 1 ⟨3⟩,
    .fundJackpot (HexVault.Demo.signer 3) (HexVault.Demo.wallet (HexVault.Demo.signer 3)) 500,
    .closeRegistration HexVault.Demo.operator 1 ⟨9⟩ (List.replicate 32 0), .wait 1161]

def answered (_ : Bytes) : Bytes := List.replicate 8 0 ++ [1] ++ List.replicate 128 0

def ticked (data : Bytes → Bytes) (w : World) : Outcome :=
  decided config .fresh w ((reads w).onChain HexVault.Demo.runtime data)

end Demo

theorem operator_sound_unanswered : ∃ w a, Reachable HexVault.Demo.runtime w ∧
    Send.rolloverEpoch 1 ∈ (Demo.ticked (fun _ => []) w).tick.asked ∧
    (Send.rolloverEpoch 1).instruction HexVault.Demo.runtime HexVault.Demo.operator
      (fun _ => []) [] w = some a ∧ ∃ w', Step HexVault.Demo.runtime w a w' := by
  obtain ⟨⟨history, w⟩, hrun, hcheck⟩ := exists_of_any (x := HexVault.Demo.script Demo.drawing)
    (p := fun s => (s.2.epochs.lookup 1).isSome &&
      decide (Send.rolloverEpoch 1 ∈ (Demo.ticked (fun _ => []) s.2).tick.asked))
    (by decide +kernel)
  simp only [Bool.and_eq_true, decide_eq_true_eq, Option.isSome_iff_exists] at hcheck
  obtain ⟨⟨epoch, he⟩, asked⟩ := hcheck
  have reachable := (HexVault.Demo.script_run hrun).reachable
  have sent : (Send.rolloverEpoch 1).instruction HexVault.Demo.runtime HexVault.Demo.operator
      (fun _ => []) [] w = some (.rolloverEpoch 1 (requestAccount HexVault.Demo.runtime
        (fun _ => []) epoch.vrfSeed)) := by
    simp only [Send.instruction, he, Option.map_some]
  refine ⟨w, _, reachable, asked, sent, (operator_sound reachable asked sent).mpr ?_⟩
  intro epoch he answered
  exact nomatch answered.2

/-- After a shutdown the operator rolls over the epoch the oracle has answered for:
the program refuses it, and the withdrawal behind it is not sent. -/
theorem operator_stuck : ∃ w a, Reachable HexVault.Demo.runtime w ∧
    (Demo.ticked Demo.answered w).tick.asked = [.rolloverEpoch 1] ∧
    (Send.rolloverEpoch 1).instruction HexVault.Demo.runtime HexVault.Demo.operator
      Demo.answered [] w = some a ∧ (¬ ∃ w', Step HexVault.Demo.runtime w a w') ∧
    (context Demo.config .fresh w (Demo.reads w)).duePendingWithdrawals
      w.pool.currentEpochId ≠ [] := by
  obtain ⟨⟨history, w⟩, hrun, hcheck⟩ := exists_of_any
    (x := HexVault.Demo.script (Demo.drawing ++ [.shutdown HexVault.Demo.admin]))
    (p := fun s => (s.2.epochs.lookup 1).any (fun epoch =>
        epoch.status = .drawing && epoch.requestedAt + s.2.pool.vrfTimeout < s.2.clock) &&
      decide ((Demo.ticked Demo.answered s.2).tick.asked = [.rolloverEpoch 1]) &&
      decide ((context Demo.config .fresh s.2 (Demo.reads s.2)).duePendingWithdrawals
        s.2.pool.currentEpochId ≠ []))
    (by decide +kernel)
  simp only [Bool.and_eq_true, decide_eq_true_eq, Option.any_eq_true] at hcheck
  obtain ⟨⟨⟨epoch, he, drawing, late⟩, asked⟩, due⟩ := hcheck
  have reachable := (HexVault.Demo.script_run hrun).reachable
  refine ⟨w, .rolloverEpoch 1 (requestAccount HexVault.Demo.runtime Demo.answered
    epoch.vrfSeed), reachable, asked, ?_, ?_, due⟩
  · simp only [Send.instruction, he, Option.map_some]
  · intro accepted
    have refused := parseFulfilled_refused.mp
      ((rolloverEpoch_drawing reachable he drawing late rfl).mp accepted)
    have read : isFulfilled HexVault.Demo.runtime (Demo.answered epoch.vrfSeed) = true := by
      show isFulfilled HexVault.Demo.runtime (Demo.answered []) = true
      decide +kernel
    exact Bool.false_ne_true (refused.symm.trans read)

end Operator

end HexVault
