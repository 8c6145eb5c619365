import HexVault.Invariants.Weight

/-!
Weight is neutral to playing. A stake is credited up front for the seconds to its
round's end, so against the Tickets in play it runs ahead by that much and falls
behind by the seconds after; as long as the stake is in play to its round's end,
the Weight of an epoch never exceeds what its Tickets make second by second.
-/

namespace HexVault

open Fallible Finmap Runs Timeline

/-- A round of the current epoch whose stakes are still in play. -/
def isLive (current : Nat) (r : Round) : Prop :=
  r.epochId = current ∧ (r.status = .open ∨ r.status = .requested)

instance (current : Nat) (r : Round) : Decidable (isLive current r) :=
  inferInstanceAs (Decidable (_ ∧ _))

theorem over_of_finished {current : Nat} {r : Round} (h : isFinished r.status) :
    ¬ isLive current r := by
  intro live
  simp only [isFinished] at h
  cases live.2 with
  | inl opened => simp only [opened, reduceCtorEq, or_self] at h
  | inr requested => simp only [requested, reduceCtorEq, or_self] at h

/-- Everything a Position has staked. -/
def Position.stake (x : Position) : Nat := x.stakePerTile * countOnes x.tiles

def liveStake (current : Nat) (r : Round) (x : Position) : Nat :=
  if isLive current r then x.stake else 0

/-- What a stake in play has yet to earn that it was not credited up front: the
seconds between its round's end and the epoch's. -/
def liveAhead (current : Nat) (endsAt now : Int) (r : Round) (x : Position) : Nat :=
  if isLive current r then
    x.stake * ((endsAt - now).toNat - (r.endsAt - now).toNat) else 0

def World.staked (w : World) : Nat :=
  total (onRound (liveStake w.pool.currentEpochId) w.rounds) w.positions

def World.ahead (w : World) : Nat :=
  total (onRound (liveAhead w.pool.currentEpochId w.pool.currentEpochEndsAt w.clock) w.rounds)
    w.positions

/-- The Tickets in existence: Entries, stakes of live rounds and rewards not
collected yet. -/
def World.ticketsInPlay (w : World) : Nat := w.entries + (w.staked + w.unsettled)

/-- A round of the current epoch with a Position on it settles, or is voided, no
earlier than it ends. -/
def settlesInTime (x : World × Action) : Bool :=
  match x.2 with
  | .settleRound id _ | .voidRound id _ => (x.1.rounds.lookup id).all fun r =>
      r.epochId ≠ x.1.pool.currentEpochId || r.openPositions = 0 || r.endsAt ≤ x.1.clock
  | _ => true

/-- A step within the epoch: it begins no other, and stakes on no older round. -/
def staysInEpoch (x : World × Action) : Bool :=
  match x.2 with
  | .beginEpoch _ => false
  | .buyPosition _ id _ _ => (x.1.rounds.lookup id).all fun r =>
      r.epochId = x.1.pool.currentEpochId
  | _ => true

section Stakes
variable {rounds : Finmap fun _ : Nat => Round}
  {positions : Finmap fun _ : Nat × Pubkey => Position} {id current preCredit : Nat}
  {owner : Pubkey} {r r' : Round} {x : Position} {endsAt now : Int}

/-- A purchase: what is credited up front is no longer ahead. -/
theorem stakes_bought (h : rounds.lookup id = some r)
    (hx : positions.lookup (id, owner) = none) (live : isLive current r)
    (epochId : r'.epochId = r.epochId) (status : r'.status = r.status)
    (ends : r'.endsAt = r.endsAt) (within : r.endsAt ≤ endsAt)
    (credited : preCredit ≤ x.stake * (r.endsAt - now).toNat) :
    preCredit + total (onRound (liveAhead current endsAt now) (rounds.insert id r'))
        (positions.insert (id, owner) x) +
        total (onRound (liveStake current) rounds) positions * (endsAt - now).toNat ≤
      total (onRound (liveAhead current endsAt now) rounds) positions +
        total (onRound (liveStake current) (rounds.insert id r'))
          (positions.insert (id, owner) x) * (endsAt - now).toNat := by
  have same : isLive current r' ↔ isLive current r := by
    simp only [isLive, epochId, status]
  have ahead : ∀ y, liveAhead current endsAt now r' y = liveAhead current endsAt now r y := by
    intro y
    simp only [liveAhead, same, ends]
  have stake : ∀ y, liveStake current r' y = liveStake current r y := by
    intro y
    simp only [liveStake, same]
  have seconds : (r.endsAt - now).toNat + ((endsAt - now).toNat - (r.endsAt - now).toNat) =
      (endsAt - now).toNat := by
    omega
  rw [onRound_buy _ h hx ahead, onRound_buy _ h hx stake, liveAhead, if_pos live, liveStake,
    if_pos live, Nat.add_mul]
  have whole := Nat.mul_add x.stake (r.endsAt - now).toNat
    ((endsAt - now).toNat - (r.endsAt - now).toNat)
  rw [seconds] at whole
  omega

/-- A round leaves play once what was credited up front is used up. -/
theorem stakes_finished (books : Books rounds positions) (h : rounds.lookup id = some r)
    (finished : ¬ isLive current r')
    (inTime : r.epochId ≠ current ∨ r.openPositions = 0 ∨ r.endsAt ≤ now) :
    0 + total (onRound (liveAhead current endsAt now) (rounds.insert id r')) positions +
        total (onRound (liveStake current) rounds) positions * (endsAt - now).toNat ≤
      total (onRound (liveAhead current endsAt now) rounds) positions +
        total (onRound (liveStake current) (rounds.insert id r')) positions *
          (endsAt - now).toNat := by
  rw [Nat.zero_add]
  have ahead := onRound_write (liveAhead current endsAt now) h r' positions
  have stake := onRound_write (liveStake current) h r' positions
  have goneAhead : total (onlyOn id (liveAhead current endsAt now r')) positions = 0 := by
    refine total_eq_zero ?_
    intro key x _
    rw [onlyOn, liveAhead, if_neg finished, ite_self]
  have goneStake : total (onlyOn id (liveStake current r')) positions = 0 := by
    refine total_eq_zero ?_
    intro key x _
    rw [onlyOn, liveStake, if_neg finished, ite_self]
  have used : total (onlyOn id (liveAhead current endsAt now r)) positions =
      total (onlyOn id (liveStake current r)) positions * (endsAt - now).toNat := by
    by_cases empty : r.openPositions = 0
    · rw [onlyOn_zero books h empty, onlyOn_zero books h empty, Nat.zero_mul]
    · rw [← total_mul]
      refine total_congr ?_
      intro key x _
      rw [onlyOn, onlyOn, ite_mul, Nat.zero_mul, liveAhead, liveStake, ite_mul, Nat.zero_mul]
      by_cases live : isLive current r
      · have late : (r.endsAt - now).toNat = 0 := by
          have := live.1
          omega
        rw [late, Nat.sub_zero]
      · rw [if_neg live, if_neg live]
  have scaled := congrArg (· * (endsAt - now).toNat) stake
  simp only [Nat.add_mul, goneStake, Nat.zero_mul] at scaled
  omega

theorem stakes_equal {ahead ahead' stake stake' left : Nat} (ha : ahead' = ahead)
    (hs : stake' = stake) : 0 + ahead' + stake * left ≤ ahead + stake' * left := by
  rw [ha, hs, Nat.zero_add]

/-- A round rewritten, as live as it was. -/
theorem stakes_same (h : rounds.lookup id = some r) (same : isLive current r' ↔ isLive current r)
    (ends : r'.endsAt = r.endsAt) :
    0 + total (onRound (liveAhead current endsAt now) (rounds.insert id r')) positions +
        total (onRound (liveStake current) rounds) positions * (endsAt - now).toNat ≤
      total (onRound (liveAhead current endsAt now) rounds) positions +
        total (onRound (liveStake current) (rounds.insert id r')) positions *
          (endsAt - now).toNat := by
  refine stakes_equal (onRound_same _ h fun y => ?_) (onRound_same _ h fun y => ?_)
  · simp only [liveAhead, same, ends]
  · simp only [liveStake, same]

/-- A Position of a round that is over was no longer in play. -/
theorem stakes_collected (h : rounds.lookup id = some r)
    (hx : positions.lookup (id, owner) = some x) (passed : ¬ isLive current r)
    (same : isLive current r' ↔ isLive current r) (ends : r'.endsAt = r.endsAt) :
    0 + total (onRound (liveAhead current endsAt now) (rounds.insert id r'))
        (positions.erase (id, owner)) +
        total (onRound (liveStake current) rounds) positions * (endsAt - now).toNat ≤
      total (onRound (liveAhead current endsAt now) rounds) positions +
        total (onRound (liveStake current) (rounds.insert id r'))
          (positions.erase (id, owner)) * (endsAt - now).toNat := by
  refine stakes_equal (onRound_settle_zero _ h hx (fun y => ?_) (if_neg passed))
    (onRound_settle_zero _ h hx (fun y => ?_) (if_neg passed))
  · simp only [liveAhead, same, ends]
  · simp only [liveStake, same]

end Stakes

section Steps
variable {rt : Runtime} {w w' : World} {a : Action} {owner : Pubkey} {preCredit : Nat}

theorem preCredit_zero (h : PreCredited w a owner preCredit)
    (hne : ∀ buyer id tiles stake, a ≠ .buyPosition buyer id tiles stake) : preCredit = 0 := by
  cases h with
  | inl zero => exact zero
  | inr bought =>
      obtain ⟨buyer, id, tiles, stake, _, rfl, -⟩ := bought
      exact absurd rfl (hne buyer id tiles stake)

/-- A purchase credits at most the stake's Weight to the round's end. -/
theorem preCredit_le {buyer : Signer} {id stake : Nat} {tiles : BitVec 64} {r : Round}
    (h : PreCredited w (.buyPosition buyer id tiles stake) owner preCredit)
    (hr : w.rounds.lookup id = some r) :
    preCredit ≤ stake * countOnes tiles * (r.endsAt - w.clock).toNat := by
  cases h with
  | inl zero =>
      rw [zero]
      exact Nat.zero_le _
  | inr bought =>
      obtain ⟨_, _, _, _, round, heq, -, hround, -, rfl⟩ := bought
      cases heq
      obtain rfl := Option.some.inj (hr.symm.trans hround)
      exact Nat.le_refl _

theorem staked_span (span : SameSpan w.pool w'.pool) : w'.staked =
    total (onRound (liveStake w.pool.currentEpochId) w'.rounds) w'.positions := by
  rw [World.staked, span.currentEpochId]

theorem ahead_span (span : SameSpan w.pool w'.pool) (clock : w'.clock = w.clock) : w'.ahead =
    total (onRound (liveAhead w.pool.currentEpochId w.pool.currentEpochEndsAt w.clock) w'.rounds)
      w'.positions := by
  rw [World.ahead, span.currentEpochId, span.currentEpochEndsAt, clock]

theorem settlesInTime_cases {id : Nat} {r : Round}
    (h : ((w.rounds.lookup id).all fun r =>
      r.epochId ≠ w.pool.currentEpochId || r.openPositions = 0 || r.endsAt ≤ w.clock) = true)
    (hr : w.rounds.lookup id = some r) :
    r.epochId ≠ w.pool.currentEpochId ∨ r.openPositions = 0 ∨ r.endsAt ≤ w.clock := by
  simpa only [hr, Option.all_some, Bool.or_eq_true, decide_eq_true_eq, or_assoc] using h

/-- What a step credits up front comes out of what is ahead, and what leaves play
was no longer ahead. -/
theorem effect_stakes (positive : 1 ≤ w.pool.currentEpochId) (books : w.Books)
    (roundsWithin : w.RoundsWithin) (h : Effect rt w a w') (span : SameSpan w.pool w'.pool)
    (clock : w'.clock = w.clock) (within : staysInEpoch (w, a) = true)
    (inTime : settlesInTime (w, a) = true) (hc : PreCredited w a owner preCredit) :
    preCredit + w'.ahead + w.staked * w.left ≤ w.ahead + w'.staked * w.left := by
  rw [staked_span span, ahead_span span clock, World.ahead, World.staked, World.left]
  cases h with
  | reconfigured ha =>
      have zero := preCredit_zero hc fun _ _ _ _ heq => by
        rw [heq] at ha
        cases ha
      obtain rfl := zero
      exact stakes_equal rfl rfl
  | roundCreated hnew =>
      obtain rfl := preCredit_zero hc (by simp)
      exact stakes_equal (onRound_create _ books hnew) (onRound_create _ books hnew)
  | positionBought _ hr hx _ _ ho =>
      have current := within
      simp only [staysInEpoch, hr, Option.all_some, decide_eq_true_eq] at current
      have ends := (roundsWithin _ _ hr).2 (by omega)
      exact stakes_bought hr hx ⟨current, .inl ho⟩ rfl rfl rfl ends (preCredit_le hc hr)
  | roundRequested hr ho =>
      obtain rfl := preCredit_zero hc (by simp)
      refine stakes_same hr ?_ rfl
      simp only [isLive, ho, true_or, or_true]
  | roundSettled hr =>
      obtain rfl := preCredit_zero hc (by simp)
      refine stakes_finished books hr ?_ (settlesInTime_cases inTime hr)
      simp only [isLive]
      split <;> simp only [reduceCtorEq, or_self, and_false, not_false_eq_true]
  | positionSettled hr _ hx _ hf =>
      obtain rfl := preCredit_zero hc (by simp)
      exact stakes_collected hr hx (over_of_finished hf) Iff.rfl rfl
  | roundVoided hr =>
      obtain rfl := preCredit_zero hc (by simp)
      refine stakes_finished books hr ?_ (settlesInTime_cases inTime hr)
      simp only [isLive, reduceCtorEq, or_self, and_false, not_false_eq_true]
  | roundClosed hr _ zero =>
      obtain rfl := preCredit_zero hc (by simp)
      exact stakes_equal (onRound_close _ books hr zero) (onRound_close _ books hr zero)
  | epochBegan => cases within
  | _ =>
      obtain rfl := preCredit_zero hc (by simp)
      exact stakes_equal rfl rfl

/-- The seconds after its round's end that a stake has yet to earn only pass. -/
theorem ahead_waited {t : Int} (later : w.clock ≤ t) : ({ w with clock := t }).ahead ≤ w.ahead := by
  refine onRound_mono _ ?_
  intro r x
  simp only [liveAhead]
  split
  · refine Nat.mul_le_mul_left _ ?_
    omega
  · exact Nat.le_refl _

/-- Nothing is on a round of a begun epoch yet. -/
theorem began_nothing (roundsWithin : w.RoundsWithin) (began : Began w w')
    {g : Round → Position → Nat}
    (old : ∀ r x, r.epochId ≠ w'.pool.currentEpochId → g r x = 0) :
    total (onRound g w'.rounds) w'.positions = 0 := by
  have current := began.currentEpochId
  rw [began.rounds, began.positions]
  refine onRound_eq_zero _ ?_
  intro id r hr x
  have before := (roundsWithin id r hr).1
  exact old r x (by omega)

/-- A Player's Weight in a begun epoch is its Entries for the whole of it. -/
theorem began_finalWeight (accounts : w.Accounts) (began : Began w w') {p : Player}
    (hp : w.players.lookup owner = some p) :
    finalWeight w'.pool.currentEpochId w'.pool.currentEpochStart w'.pool.currentEpochEndsAt
      owner p = entriesNow w'.pool.currentEpochId owner p *
        (w'.pool.currentEpochEndsAt - w'.pool.currentEpochStart).toNat := by
  have current := began.currentEpochId
  have behind := accounts.behind hp
  have idle : p.epochId ≠ w'.pool.currentEpochId := by omega
  rw [finalWeight, entriesNow, if_neg idle, if_neg idle]

theorem began_weight (accounts : w.Accounts) (roundsWithin : w.RoundsWithin)
    (began : Began w w') : w'.weight =
      w'.entries * (w'.pool.currentEpochEndsAt - w'.pool.currentEpochStart).toNat ∧
    w'.staked = 0 ∧ w'.ahead = 0 := by
  refine ⟨?_, ?_, ?_⟩
  · rw [World.weight, World.entries, ← total_mul, began.players]
    refine total_congr ?_
    intro owner p hp
    exact began_finalWeight accounts began hp
  · exact began_nothing roundsWithin began fun r x old => if_neg fun live => old live.1
  · exact began_nothing roundsWithin began fun r x old => if_neg fun live => old live.1

end Steps

/-- A run from the instant an epoch was begun. -/
def EpochRun (rt : Runtime) (history : History) (w : World) : Prop :=
  ∃ before operator start, Reachable rt before ∧
    Step rt before (.beginEpoch operator) start ∧ Steps (Step rt) start history w

/-- The Tickets in existence at each second of an epoch; what `begin_epoch` left
counts from the epoch's start. -/
def ticketsAt (history : History) (w : World) : Int → Nat :=
  trajectory World.clock (fun _ v => v.ticketsInPlay) history w

/-- The part of them that earns: Entries and stakes. -/
def inPlayAt (history : History) (w : World) : Int → Nat :=
  trajectory World.clock (fun _ v => v.entries + v.staked) history w

section Runs
variable {rt : Runtime} {history : History} {w : World}

theorem EpochRun.invariantWhile {C : World × Action → Prop} {P : History → World → Prop}
    (base : ∀ {w w'}, Reachable rt w → Began w w' → P [] w')
    (kept : ∀ {history w a w'}, Reachable rt w → 1 ≤ w.pool.currentEpochId → P history w →
      C (w, a) → Step rt w a w' → P ((w, a) :: history) w')
    (run : EpochRun rt history w) (all : ∀ x ∈ history, C x) : P history w := by
  obtain ⟨before, operator, start, reachable, hbegin, steps⟩ := run
  have began : Began before start := by
    cases effect_span (reachable_inRange reachable) (reachable_calendar reachable)
        (step_effect hbegin) with
    | inl kept => exact absurd rfl (kept.1 operator)
    | inr began => exact began.2
  have positive : 1 ≤ start.pool.currentEpochId := by
    have := began.currentEpochId
    omega
  have kept' : (Reachable rt w ∧ 1 ≤ w.pool.currentEpochId) ∧ P history w := by
    refine steps.invariantWhile (P := fun history w =>
      (Reachable rt w ∧ 1 ≤ w.pool.currentEpochId) ∧ P history w) ?_ ?_ all
    · exact ⟨⟨reachable.next hbegin, positive⟩, base reachable began⟩
    · intro _ v a u _ hv hc hs
      have grows := effect_currentEpochId (step_effect hs)
      exact ⟨⟨hv.1.1.next hs, Nat.le_trans hv.1.2 grows⟩, kept hv.1.1 hv.1.2 hv.2 hc hs⟩
  exact kept'.2

theorem span_of_stays {a : Action} {w' : World} (reachable : Reachable rt w)
    (hs : Step rt w a w') (within : staysInEpoch (w, a) = true) : SameSpan w.pool w'.pool := by
  cases effect_span (reachable_inRange reachable) (reachable_calendar reachable)
      (step_effect hs) with
  | inl kept => exact kept.2
  | inr began =>
      obtain ⟨⟨operator, rfl⟩, -⟩ := began
      exact nomatch within

theorem inPlayAt_next (history : History) (a : Action) {w' : World} {start : Int} (stop : Int)
    (h : start ≤ w'.clock) (later : w.clock ≤ w'.clock) :
    integral (inPlayAt ((w, a) :: history) w') start stop +
        (w.entries + w.staked) * (stop - w'.clock).toNat =
      integral (inPlayAt history w) start stop +
        (w'.entries + w'.staked) * (stop - w'.clock).toNat :=
  trajectory_next (fun _ v => v.entries + v.staked) history a stop h later

/-- The Weight all Players end the epoch with, and what their stakes have yet to
earn, against the Tickets in play. -/
theorem run_weight (run : EpochRun rt history w)
    (steps : ∀ x ∈ history, staysInEpoch x = true ∧ settlesInTime x = true) :
    w.weight + w.ahead ≤ integral (inPlayAt history w) w.pool.currentEpochStart
      w.pool.currentEpochEndsAt := by
  refine run.invariantWhile (C := fun x => staysInEpoch x = true ∧ settlesInTime x = true)
    (P := fun history w => w.weight + w.ahead ≤ integral (inPlayAt history w)
      w.pool.currentEpochStart w.pool.currentEpochEndsAt) ?_ ?_ steps
  · intro w w' reachable began
    have fresh := began_weight (reachable_accounts reachable) (reachable_roundsWithin reachable)
      began
    have settled : ∀ t, inPlayAt [] w' t = w'.entries := by
      intro t
      rw [inPlayAt, trajectory, fresh.2.1, Nat.add_zero]
    rw [integral_const fun t _ _ => settled t, fresh.1, fresh.2.2, Nat.add_zero]
  · intro history w a w' reachable positive hi hc hs
    have calendar := reachable_calendar reachable
    have accounts := reachable_accounts reachable
    have effect := step_effect hs
    have span := span_of_stays reachable hs hc.1
    have order := calendar.currentOrder positive
    have later := effect_clock effect
    have next := inPlayAt_next history a w.pool.currentEpochEndsAt
      (Int.le_trans order.2.2.1 later) later
    rw [span.currentEpochStart, span.currentEpochEndsAt]
    cases effect_moment effect with
    | inl clock =>
        obtain ⟨owner, preCredit, credited, weight⟩ :=
          effect_weight calendar accounts positive effect span
        have stakes := effect_stakes positive (reachable_books reachable)
          (reachable_roundsWithin reachable) effect span clock hc.1 hc.2 credited
        have left : (w.pool.currentEpochEndsAt - w'.clock).toNat = w.left := by
          rw [clock, World.left]
        simp only [left, Nat.add_mul] at next
        omega
    | inr waited =>
        obtain ⟨t, later, rfl, rfl⟩ := waited
        have ahead := ahead_waited later
        rw [Nat.add_right_cancel next]
        exact Nat.le_trans (Nat.add_le_add_left ahead _) hi

end Runs

end HexVault
