import HexVault.Invariants.Boundaries
import HexVault.Invariants.Widths
import HexVault.Program.Touched

/-!
Touching is path independent: while the calendar stands still, a touch on the way to a later
one leaves no trace in the Player, and fails only where the later one fails.
-/

namespace HexVault

open Fallible

/-- The stretch a touch accrues over, before it is cut at zero. -/
def touchSpan (player : Player) (pool : Pool) (now : Int) : Int :=
  if pool.currentEpochId ≤ player.epochId then accrueUntil pool now - player.lastUpdate
  else min now pool.currentEpochEndsAt - pool.currentEpochStart

def touchAll (touches : List (Pool × Int)) (player : Player) : Result Player :=
  touches.foldlM (fun player touched => touch player touched.1 touched.2) player

section Elapsed
variable {start middle stop now : Int} {pool pool' : Pool}

theorem elapsed_of_lt (fits : stop - start < i64Limit) :
    elapsed start stop = (stop - start).toNat := by
  have positive : (0 : Int) < i64Limit := by decide
  rw [elapsed, saturatingSub, min_eq_left (by omega)]
  omega

theorem accrueUntil_mono (order : middle ≤ now) :
    accrueUntil pool middle ≤ accrueUntil pool now := by
  rw [accrueUntil, accrueUntil]
  split
  · exact order
  · exact min_le_min_right _ order

/-- Where accrual stops, time does. -/
theorem accrueUntil_of_lt (past : accrueUntil pool middle < middle) (order : middle ≤ now) :
    accrueUntil pool now = accrueUntil pool middle := by
  rw [accrueUntil] at past ⊢
  rw [accrueUntil]
  split
  · next first =>
      rw [if_pos first] at past
      exact absurd past (Int.lt_irrefl _)
  · next begun =>
      rw [if_neg begun] at past
      omega

/-- Up to an instant and on from it. -/
theorem elapsed_split (from_ : start ≤ middle) (order : middle ≤ now)
    (fits : accrueUntil pool now - start < i64Limit) :
    elapsed start (accrueUntil pool middle) + elapsed middle (accrueUntil pool now) =
      elapsed start (accrueUntil pool now) := by
  have earlier : accrueUntil pool middle ≤ accrueUntil pool now := accrueUntil_mono order
  rw [elapsed_of_lt (by omega), elapsed_of_lt (by omega), elapsed_of_lt fits]
  have reached : accrueUntil pool middle ≤ middle := accrueUntil_le
  by_cases past : accrueUntil pool middle < middle
  · rw [accrueUntil_of_lt past order]
    omega
  · have here : accrueUntil pool middle = middle :=
      Int.le_antisymm reached (Int.not_lt.mp past)
    omega

theorem SameSpan.refl (pool : Pool) : SameSpan pool pool := ⟨rfl, rfl, rfl, rfl, rfl⟩

theorem SameSpan.accrueUntil_eq (span : SameSpan pool pool') :
    accrueUntil pool' now = accrueUntil pool now := by
  rw [accrueUntil, accrueUntil, span.currentEpochId, span.currentEpochEndsAt]

theorem SameSpan.freeze_eq (span : SameSpan pool pool') (p : Player) :
    freeze p pool' = freeze p pool := by
  rw [freeze, freeze, span.currentEpochId, span.previousEpochStart, span.previousEpochEndsAt]

theorem SameSpan.touch_eq (span : SameSpan pool pool') (p : Player) :
    touch p pool' now = touch p pool now := by
  rw [touch, touch, touchSameEpoch, touchSameEpoch, touchNewEpoch, touchNewEpoch,
    span.accrueUntil_eq, span.freeze_eq, span.currentEpochId, span.currentEpochStart,
    span.currentEpochEndsAt]

end Elapsed

section Twice
variable {p q : Player} {pool pool' : Pool} {middle now : Int}

/-- A Player accrued up to an instant, within the epoch. -/
def Player.accrued (p : Player) (seconds : Nat) (now : Int) : Player :=
  { p with
    weightAcc := p.weightAcc + p.entries * seconds
    principalAcc := p.principalAcc + p.principal * seconds
    lastUpdate := now }

/-- A Player brought into the pool's epoch. -/
def Player.entered (p : Player) (pool : Pool) (frozen : Nat × Nat) (seconds : Nat) (now : Int) :
    Player :=
  { p with
    frozenWeight := frozen.1
    frozenPrincipalAcc := frozen.2
    frozenEpoch := pool.currentEpochId - 1
    entries := p.principal
    weightAcc := p.principal * seconds
    principalAcc := p.principal * seconds
    lastUpdate := now
    epochId := pool.currentEpochId }

theorem touch_same_iff (current : pool.currentEpochId ≤ p.epochId) :
    touch p pool now = .ok q ↔
      p.weightAcc + p.entries * elapsed p.lastUpdate (accrueUntil pool now) < u128Limit ∧
      p.principalAcc + p.principal * elapsed p.lastUpdate (accrueUntil pool now) < u128Limit ∧
        q = p.accrued (elapsed p.lastUpdate (accrueUntil pool now)) now := by
  rw [touch, if_pos current, touchSameEpoch]
  simp only [bind_eq_ok, pure_eq_ok, accrue_eq_ok]
  constructor
  · intro h
    obtain ⟨_, ⟨weight, rfl⟩, _, ⟨seconds, rfl⟩, rfl⟩ := h
    exact ⟨weight, seconds, rfl⟩
  · intro h
    obtain ⟨weight, seconds, rfl⟩ := h
    exact ⟨_, ⟨weight, rfl⟩, _, ⟨seconds, rfl⟩, rfl⟩

theorem touch_new_iff (behind : p.epochId < pool.currentEpochId) :
    touch p pool now = .ok q ↔ ∃ frozen, freeze p pool = .ok frozen ∧
      p.principal * elapsed pool.currentEpochStart (min now pool.currentEpochEndsAt) < u128Limit ∧
        q = p.entered pool frozen
          (elapsed pool.currentEpochStart (min now pool.currentEpochEndsAt)) now := by
  rw [touch, if_neg (Nat.not_le.mpr behind), touchNewEpoch]
  simp only [bind_eq_ok, pure_eq_ok, weightOf_eq_ok]
  constructor
  · intro h
    obtain ⟨frozen, froze, _, ⟨head, rfl⟩, rfl⟩ := h
    exact ⟨frozen, froze, head, rfl⟩
  · intro h
    obtain ⟨frozen, froze, head, rfl⟩ := h
    exact ⟨frozen, froze, _, ⟨head, rfl⟩, rfl⟩

theorem Player.accrued_accrued (p : Player) (first second : Nat) :
    (p.accrued first middle).accrued second now = p.accrued (first + second) now := by
  simp only [Player.accrued, Nat.mul_add, Nat.add_assoc]

theorem Player.entered_accrued (p : Player) (frozen : Nat × Nat) (first second : Nat) :
    (p.entered pool frozen first middle).accrued second now =
      p.entered pool frozen (first + second) now := by
  simp only [Player.accrued, Player.entered, Nat.mul_add]

/-- The same Player comes out of one touch as out of two. -/
theorem touch_touch_iff (order : middle ≤ now) (updated : p.lastUpdate ≤ middle)
    (started : pool.currentEpochStart ≤ middle) (fits : touchSpan p pool now < i64Limit) :
    (∃ m, touch p pool middle = .ok m ∧ touch m pool now = .ok q) ↔ touch p pool now = .ok q := by
  rw [touchSpan] at fits
  by_cases current : pool.currentEpochId ≤ p.epochId
  · rw [if_pos current] at fits
    rw [touch_same_iff current, ← elapsed_split updated order fits, Nat.mul_add, Nat.mul_add]
    constructor
    · intro h
      obtain ⟨m, first, second⟩ := h
      obtain ⟨-, -, rfl⟩ := (touch_same_iff current).mp first
      obtain ⟨weight, seconds, rfl⟩ := (touch_same_iff (p := p.accrued _ _) current).mp second
      rw [Player.accrued_accrued]
      refine ⟨?_, ?_, rfl⟩
      · rw [← Nat.add_assoc]
        exact weight
      · rw [← Nat.add_assoc]
        exact seconds
    · intro h
      obtain ⟨weight, seconds, rfl⟩ := h
      rw [← Nat.add_assoc] at weight seconds
      refine ⟨_, (touch_same_iff current).mpr ⟨?_, ?_, rfl⟩,
        (touch_same_iff (p := p.accrued _ _) current).mpr
          ⟨weight, seconds, (p.accrued_accrued _ _).symm⟩⟩
      · exact Nat.lt_of_le_of_lt (Nat.le_add_right _ _) weight
      · exact Nat.lt_of_le_of_lt (Nat.le_add_right _ _) seconds
  · have behind : p.epochId < pool.currentEpochId := Nat.not_le.mp current
    rw [if_neg current] at fits
    -- The pool has an epoch, so both touches cut at its end.
    have begun : ∀ t, accrueUntil pool t = min t pool.currentEpochEndsAt := fun t =>
      if_neg (Nat.ne_of_gt (Nat.zero_lt_of_lt behind))
    have whole : elapsed pool.currentEpochStart (min middle pool.currentEpochEndsAt) +
        elapsed middle (accrueUntil pool now) =
          elapsed pool.currentEpochStart (min now pool.currentEpochEndsAt) := by
      rw [← begun middle, ← begun now]
      exact elapsed_split started order (by rw [begun now]; exact fits)
    rw [touch_new_iff behind, ← whole, Nat.mul_add]
    constructor
    · intro h
      obtain ⟨m, first, second⟩ := h
      obtain ⟨frozen, froze, -, rfl⟩ := (touch_new_iff behind).mp first
      obtain ⟨weight, -, rfl⟩ :=
        (touch_same_iff (p := p.entered pool _ _ _) (Nat.le_refl _)).mp second
      exact ⟨frozen, froze, weight, Player.entered_accrued ..⟩
    · intro h
      obtain ⟨frozen, froze, weight, rfl⟩ := h
      refine ⟨_, (touch_new_iff behind).mpr ⟨frozen, froze, ?_, rfl⟩,
        (touch_same_iff (p := p.entered pool _ _ _) (Nat.le_refl _)).mpr
          ⟨weight, weight, (Player.entered_accrued ..).symm⟩⟩
      exact Nat.lt_of_le_of_lt (Nat.le_add_right _ _) weight

theorem touch_touch (order : middle ≤ now) (updated : p.lastUpdate ≤ middle)
    (started : pool.currentEpochStart ≤ middle) (fits : touchSpan p pool now < i64Limit) :
    (touch p pool middle >>= fun m => touch m pool now) = touch p pool now := by
  refine eq_of_ok_iff (fun q => ?_) ?_ (fun e => touch_eq_error)
  · rw [bind_eq_ok]
    exact touch_touch_iff order updated started fits
  · intro e failed
    rcases bind_eq_error.mp failed with first | ⟨m, -, second⟩
    · exact touch_eq_error first
    · exact touch_eq_error second

theorem touchSpan_mono (order : middle ≤ now) : touchSpan p pool middle ≤ touchSpan p pool now := by
  rw [touchSpan, touchSpan]
  split
  · exact Int.sub_le_sub_right (accrueUntil_mono order) _
  · exact Int.sub_le_sub_right (min_le_min_right _ order) _

theorem touchAll_concat (touches : List (Pool × Int)) :
    touchAll (touches ++ [(pool, now)]) p = touchAll touches p >>= fun m => touch m pool now := by
  rw [touchAll, List.foldlM_append]
  simp only [List.foldlM_cons, List.foldlM_nil, bind_pure]
  rfl

/-- Touches on the way, however many, are taken in by the last one. -/
theorem touchAll_touch {touches : List (Pool × Int)} (span : ∀ x ∈ touches, SameSpan pool x.1)
    (sorted : touches.Pairwise fun earlier later => earlier.2 ≤ later.2)
    (order : ∀ x ∈ touches, x.2 ≤ now) (updated : ∀ x ∈ touches, p.lastUpdate ≤ x.2)
    (started : ∀ x ∈ touches, pool.currentEpochStart ≤ x.2)
    (fits : touchSpan p pool now < i64Limit) :
    touchAll (touches ++ [(pool, now)]) p = touch p pool now := by
  induction touches using List.reverseRecOn generalizing now with
  | nil => exact touchAll_concat []
  | append_singleton touches x ih =>
      obtain ⟨between, middle⟩ := x
      have last : (between, middle) ∈ touches ++ [(between, middle)] :=
        List.mem_append_right _ (List.mem_singleton.mpr rfl)
      have before : ∀ x ∈ touches, x ∈ touches ++ [(between, middle)] :=
        fun x mem => List.mem_append_left _ mem
      obtain ⟨sorted, -, ordered⟩ := List.pairwise_append.mp sorted
      have order' : middle ≤ now := order _ last
      have reached : touchAll (touches ++ [(pool, middle)]) p = touch p pool middle :=
        ih (fun x mem => span x (before x mem)) sorted
        (fun x mem => ordered x mem _ (List.mem_singleton.mpr rfl))
        (fun x mem => updated x (before x mem)) (fun x mem => started x (before x mem))
        (Int.lt_of_le_of_lt (touchSpan_mono order') fits)
      have same : touchAll (touches ++ [(between, middle)]) p =
          touchAll (touches ++ [(pool, middle)]) p := by
        rw [touchAll_concat, touchAll_concat]
        exact congrArg _ (funext fun m => (span _ last).touch_eq m)
      rw [touchAll_concat, same, reached]
      exact touch_touch order' (updated _ last) (started _ last) fits

end Twice

/-- Under a calendar that stands still, two touches in order do what the later one does alone,
and so does any sequence of touches that ends with it: the same Player comes out, field by
field, or the same error. -/
theorem touch_path_independent (p : Player) (pool pool' : Pool) (t1 t2 : Int)
    (span : SameSpan pool pool') (updated : p.lastUpdate ≤ t1)
    (started : pool.currentEpochStart ≤ t1) (order : t1 ≤ t2)
    (fits : touchSpan p pool t2 < i64Limit) :
    (touch p pool t1 >>= fun q => touch q pool' t2) = touch p pool' t2 ∧
      ∀ touches : List (Pool × Int), (∀ x ∈ touches, SameSpan pool x.1) →
        (touches.Pairwise fun earlier later => earlier.2 ≤ later.2) →
          (∀ x ∈ touches, t1 ≤ x.2 ∧ x.2 ≤ t2) →
            touchAll (touches ++ [(pool', t2)]) p = touch p pool' t2 := by
  refine ⟨?_, fun touches spans sorted within => ?_⟩
  · rw [span.touch_eq p, funext fun q => span.touch_eq q]
    exact touch_touch order updated started fits
  · have same : touchAll (touches ++ [(pool', t2)]) p = touchAll (touches ++ [(pool, t2)]) p := by
      rw [touchAll_concat, touchAll_concat]
      exact congrArg _ (funext fun m => span.touch_eq m)
    rw [same, span.touch_eq p]
    exact touchAll_touch spans sorted (fun x mem => (within x mem).2)
      (fun x mem => Int.le_trans updated (within x mem).1)
      (fun x mem => Int.le_trans started (within x mem).1) fits

def TouchDemo.deposited : Result (History × World) :=
  let player := Demo.signer 3
  Demo.script [.setFeaturePause Demo.admin .jackpot false, .beginEpoch Demo.operator,
    .deposit player (Demo.wallet player) 100]

/-- A deposit of the first epoch, touched while the epoch runs and a hundred seconds after it. -/
theorem touch_path_independent_deposit : ∃ p pool, p.principal = 100 ∧
    touchSpan p pool 1200 = 100 ∧
      (touch p pool 1050 >>= fun q => touch q pool 1200) = touch p pool 1200 := by
  obtain ⟨⟨history, w⟩, -, hcheck⟩ := exists_of_any (x := TouchDemo.deposited)
    (p := fun r => (r.2.players.lookup ⟨3⟩).any fun p : Player =>
      decide (p.lastUpdate ≤ 1050 ∧ r.2.pool.currentEpochStart ≤ 1050 ∧ p.principal = 100 ∧
        touchSpan p r.2.pool 1200 = 100))
    (by decide +kernel)
  obtain ⟨p, -, hcheck⟩ := (Option.any_eq_true _ _).mp hcheck
  obtain ⟨updated, started, principal, span⟩ := of_decide_eq_true hcheck
  have fits : touchSpan p w.pool 1200 < i64Limit := by
    rw [span]
    decide
  exact ⟨p, w.pool, principal, span,
    (touch_path_independent p w.pool w.pool 1050 1200 (.refl w.pool) updated started (by decide)
      fits).1⟩

end HexVault
