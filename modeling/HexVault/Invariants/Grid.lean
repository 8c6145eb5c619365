import HexVault.Invariants.Boundaries

/-!
The epoch grid. Whatever the anchor and the period were at each begin, the epochs
of a run follow one another: each ends on the grid of its own begin, holds the
instant it was begun at, and starts where the last one ended unless that was a
grid point ago.
-/

namespace HexVault

open Fallible

/-- A point of the grid `anchor + k * period`. -/
def OnGrid (anchor period t : Int) : Prop := ∃ k : Int, t = anchor + k * period

/-- The bounds given to an epoch begun in `v`. -/
structure Placed (v : World) (startsAt endsAt : Int) : Prop where
  started : startsAt ≤ v.clock
  running : v.clock < endsAt
  length : endsAt - startsAt ≤ v.pool.epochSeconds
  onGrid : OnGrid v.pool.epochAnchor v.pool.epochSeconds endsAt

/-- A start given in `v`, after an epoch that ended at `previousEnd`. -/
structure Follows (v : World) (previousEnd startsAt : Int) : Prop where
  apart : previousEnd ≤ startsAt
  gap : previousEnd < startsAt → OnGrid v.pool.epochAnchor v.pool.epochSeconds startsAt

theorem gridFloor_onGrid {anchor period t floor : Int}
    (h : gridFloor anchor period t = .ok floor) : OnGrid anchor period floor := by
  simp only [gridFloor, bind_eq_ok, subI64_eq_ok, require_eq_ok, mulI64_eq_ok, addI64_eq_ok,
    exists_const] at h
  obtain ⟨_, ⟨-, rfl⟩, -, _, ⟨-, rfl⟩, -, rfl⟩ := h
  exact ⟨_, rfl⟩

theorem OnGrid.next {anchor period t : Int} (h : OnGrid anchor period t) :
    OnGrid anchor period (t + period) := by
  obtain ⟨k, rfl⟩ := h
  exact ⟨k + 1, by rw [Int.add_mul, Int.one_mul, Int.add_assoc]⟩

section Steps
variable {rt : Runtime} {history : History} {w w' v : World} {a : Action} {id : Nat}
  {e e' : Epoch}

theorem epochBegan_placed {startsAt floor : Int} {epochs : Finmap fun _ : Nat => Epoch}
    (range : w.pool.InRange) (calendar : w.Calendar)
    (hend : endCurrent w = .ok (startsAt, epochs))
    (hfloor : gridFloor w.pool.epochAnchor w.pool.epochSeconds startsAt = .ok floor) :
    Placed w startsAt (floor + w.pool.epochSeconds) := by
  have bounds := epochBegan_bounds range calendar hend hfloor
  have grid := gridFloor_eq_ok range.epochSeconds hfloor
  exact ⟨bounds.2.1, bounds.2.2.1, by omega, (gridFloor_onGrid hfloor).next⟩

theorem epochBegan_follows {startsAt : Int} {epochs : Finmap fun _ : Nat => Epoch}
    (calendar : w.Calendar) (hend : endCurrent w = .ok (startsAt, epochs))
    (positive : 1 ≤ w.pool.currentEpochId) :
    Follows w w.pool.currentEpochEndsAt startsAt := by
  obtain ⟨x, hx, -, ends⟩ := calendar.current positive
  cases endCurrent_cases hend with
  | inl first => omega
  | inr later =>
      obtain ⟨-, previous, floor, hp, -, hf, rfl, -⟩ := later
      obtain rfl := Option.some.inj (hx.symm.trans hp)
      rw [← ends]
      refine ⟨le_max_left .., ?_⟩
      intro late
      rw [max_eq_right (Int.le_of_lt ((lt_max_iff.mp late).resolve_left (Int.lt_irrefl _)))]
      exact gridFloor_onGrid hf

/-- Every epoch up to the current one has its account, with the bounds its begin
gave it. -/
structure Gridded (history : History) (w : World) : Prop where
  known : ∀ id, 1 ≤ id → id ≤ w.pool.currentEpochId → ∃ e, w.epochs.lookup id = some e
  placed : ∀ id v e, BeganIn history id v → w.epochs.lookup id = some e →
    Placed v e.startsAt e.endsAt
  follows : ∀ id v p e, BeganIn history (id + 1) v → w.epochs.lookup id = some p →
    w.epochs.lookup (id + 1) = some e → Follows v p.endsAt e.startsAt

/-- An account of an epoch begun before the step has the bounds it had. -/
theorem Gridded.before (hi : Gridded history w) (h : Effect rt w a w') (positive : 1 ≤ id)
    (old : id ≤ w.pool.currentEpochId) (he : w'.epochs.lookup id = some e') :
    ∃ e, w.epochs.lookup id = some e ∧ e'.startsAt = e.startsAt ∧ e'.endsAt = e.endsAt := by
  obtain ⟨e, hold⟩ := hi.known id positive old
  obtain ⟨x, hx, -, starts, ends⟩ := effect_epoch h hold
  obtain rfl := Option.some.inj (hx.symm.trans he)
  exact ⟨e, hold, starts, ends⟩

theorem BeganIn.positive (h : BeganIn history id v) : 1 ≤ id := by
  obtain ⟨operator, -, hid⟩ := h
  omega

theorem gridded_kept (hi : Gridded history w) (calendar' : w'.Calendar)
    (boundaries : Boundaries history w) (h : Effect rt w a w')
    (ha : ∀ operator, a ≠ .beginEpoch operator) (same : SameSpan w.pool w'.pool) :
    Gridded ((w, a) :: history) w' where
  known := by
    intro id positive old
    rw [same.currentEpochId] at old
    obtain ⟨e, he⟩ := hi.known id positive old
    obtain ⟨e', he', -⟩ := effect_epoch h he
    exact ⟨e', he'⟩
  placed := by
    intro id v e' began he'
    have began := (beganIn_kept ha).mp began
    obtain ⟨e, he, starts, ends⟩ :=
      hi.before h began.positive (boundaries.past id v began).1 he'
    rw [starts, ends]
    exact hi.placed id v e began he
  follows := by
    intro id v p' e' began hp' he'
    have began := (beganIn_kept ha).mp began
    have old := (boundaries.past _ v began).1
    obtain ⟨e, he, starts, -⟩ := hi.before h began.positive old he'
    obtain ⟨p, hp, -, ends⟩ := hi.before h (calendar'.keyed hp').2.1 (by omega) hp'
    rw [starts, ends]
    exact hi.follows id v p e began hp he

/-- What the begin of an epoch leaves: its account, and the pool's count moved on. -/
theorem beginEpoch_account {operator : Signer} (range : w.pool.InRange) (calendar : w.Calendar)
    (h : Effect rt w (.beginEpoch operator) w') :
    w'.pool.currentEpochId = w.pool.currentEpochId + 1 ∧
      ∃ e, w'.epochs.lookup (w.pool.currentEpochId + 1) = some e ∧
        Placed w e.startsAt e.endsAt ∧ (1 ≤ w.pool.currentEpochId →
          Follows w w.pool.currentEpochEndsAt e.startsAt) := by
  cases h with
  | reconfigured ha => exact nomatch ha
  | epochBegan _ _ hend hfloor _ heq =>
      refine ⟨rfl, _, Finmap.lookup_insert _, ?_, epochBegan_follows calendar hend⟩
      rw [heq]
      exact epochBegan_placed range calendar hend hfloor

theorem gridded_began {operator : Signer} (hi : Gridded history w) (range : w.pool.InRange)
    (calendar : w.Calendar) (calendar' : w'.Calendar) (boundaries : Boundaries history w)
    (h : Effect rt w (.beginEpoch operator) w') :
    Gridded ((w, .beginEpoch operator) :: history) w' := by
  obtain ⟨next, x, hx, placed, follows⟩ := beginEpoch_account range calendar h
  refine ⟨?_, ?_, ?_⟩
  · intro id positive old
    by_cases new : id = w.pool.currentEpochId + 1
    · exact ⟨x, new ▸ hx⟩
    · obtain ⟨e, he⟩ := hi.known id positive (by omega)
      obtain ⟨e', he', -⟩ := effect_epoch h he
      exact ⟨e', he'⟩
  · intro id v e' began he'
    cases beganIn_next began with
    | inl new =>
        obtain ⟨rfl, rfl⟩ := new
        obtain rfl := Option.some.inj (hx.symm.trans he')
        exact placed
    | inr old =>
        obtain ⟨e, he, starts, ends⟩ := hi.before h old.positive (boundaries.past id v old).1 he'
        rw [starts, ends]
        exact hi.placed id v e old he
  · intro id v p' e' began hp' he'
    have positive := (calendar'.keyed hp').2.1
    cases beganIn_next began with
    | inl new =>
        obtain ⟨rfl, same⟩ := new
        obtain rfl := Nat.succ_inj.mp same
        obtain rfl := Option.some.inj (hx.symm.trans he')
        obtain ⟨p, hp, -, ends⟩ := hi.before h positive (Nat.le_refl _) hp'
        obtain ⟨y, hy, -, bound⟩ := calendar.current positive
        obtain rfl := Option.some.inj (hy.symm.trans hp)
        rw [ends, bound]
        exact follows positive
    | inr old =>
        have before := (boundaries.past _ v old).1
        obtain ⟨e, he, starts, -⟩ := hi.before h old.positive before he'
        obtain ⟨p, hp, -, ends⟩ := hi.before h positive (by omega) hp'
        rw [starts, ends]
        exact hi.follows id v p e old hp he

theorem run_gridded (run : Run rt history w) : Gridded history w := by
  refine run.invariant ?_ ?_
  · intro start created
    obtain ⟨params, accounts, now, -, -, h⟩ := created
    obtain ⟨-, es, rfl⟩ := createPool_eq_ok h
    refine ⟨?_, ?_, ?_⟩
    · intro id positive old
      exact absurd old (Nat.not_le_of_lt positive)
    · intro id v e began
      obtain ⟨_, hmem, -⟩ := began
      exact absurd hmem List.not_mem_nil
    · intro id v p e began
      obtain ⟨_, hmem, -⟩ := began
      exact absurd hmem List.not_mem_nil
  · intro history v a u before hi hs
    have reachable := before.reachable
    have range := reachable_inRange reachable
    have calendar := reachable_calendar reachable
    have calendar' := reachable_calendar (reachable.next hs)
    have effect := step_effect hs
    cases effect_span range calendar effect with
    | inl kept => exact gridded_kept hi calendar' (run_boundaries before) effect kept.1 kept.2
    | inr began =>
        obtain ⟨operator, rfl⟩ := began.1
        exact gridded_began hi range calendar calendar' (run_boundaries before) effect

/-- The epochs a run has begun, in the order of their ids. -/
structure EpochGrid (history : History) (w : World) : Prop where
  begun : ∀ id, 1 ≤ id → id ≤ w.pool.currentEpochId →
    ∃ v e, BeganIn history id v ∧ w.epochs.lookup id = some e
  known : ∀ id v, BeganIn history id v → ∃ e, w.epochs.lookup id = some e
  nonempty : ∀ id e, w.epochs.lookup id = some e → e.startsAt < e.endsAt
  ordered : ∀ id later e f, id < later → w.epochs.lookup id = some e →
    w.epochs.lookup later = some f → e.endsAt ≤ f.startsAt
  placed : ∀ id v e, BeganIn history id v → w.epochs.lookup id = some e →
    Placed v e.startsAt e.endsAt
  follows : ∀ id v p e, BeganIn history (id + 1) v → w.epochs.lookup id = some p →
    w.epochs.lookup (id + 1) = some e → Follows v p.endsAt e.startsAt
  /-- Nobody began an epoch in a gap. -/
  skipped : ∀ id p e other u, w.epochs.lookup id = some p →
    w.epochs.lookup (id + 1) = some e → BeganIn history other u →
    u.clock < p.endsAt ∨ e.startsAt ≤ u.clock

section Order
variable (hi : Gridded history w) (boundaries : Boundaries history w) (calendar : w.Calendar)
include hi boundaries calendar

theorem Gridded.begun (he : w.epochs.lookup id = some e) :
    ∃ v, BeganIn history id v ∧ Placed v e.startsAt e.endsAt := by
  have keyed := calendar.keyed he
  obtain ⟨v, began⟩ := boundaries.begun id keyed.2.1 keyed.2.2
  exact ⟨v, began, hi.placed id v e began he⟩

theorem Gridded.nonempty (he : w.epochs.lookup id = some e) : e.startsAt < e.endsAt := by
  obtain ⟨v, -, placed⟩ := hi.begun boundaries calendar he
  exact Int.lt_of_le_of_lt placed.started placed.running

theorem Gridded.ordered {p : Epoch} (hp : w.epochs.lookup id = some p) (gap : Nat)
    (he : w.epochs.lookup (id + gap + 1) = some e) : p.endsAt ≤ e.startsAt := by
  induction gap generalizing e with
  | zero =>
      obtain ⟨v, began, -⟩ := hi.begun boundaries calendar he
      exact (hi.follows id v p e began hp he).apart
  | succ gap ih =>
      have last := (calendar.keyed he).2.2
      obtain ⟨m, hm⟩ := hi.known (id + gap + 1) (Nat.succ_pos _) (by omega)
      obtain ⟨v, began, -⟩ := hi.begun boundaries calendar he
      calc p.endsAt ≤ m.startsAt := ih hm
        _ ≤ m.endsAt := Int.le_of_lt (hi.nonempty boundaries calendar hm)
        _ ≤ e.startsAt := (hi.follows _ v m e began hm he).apart

end Order

theorem epoch_grid (run : Run rt history w) : EpochGrid history w := by
  have hi := run_gridded run
  have boundaries := run_boundaries run
  have calendar := reachable_calendar run.reachable
  have ordered : ∀ id later e f, id < later → w.epochs.lookup id = some e →
      w.epochs.lookup later = some f → e.endsAt ≤ f.startsAt := by
    intro id later e f hlt he hf
    obtain ⟨gap, rfl⟩ := Nat.exists_eq_add_of_lt hlt
    exact hi.ordered boundaries calendar he gap hf
  have known : ∀ id v, BeganIn history id v → ∃ e, w.epochs.lookup id = some e :=
    fun id v began => hi.known id began.positive (boundaries.past id v began).1
  refine ⟨?_, known, fun _ _ he => hi.nonempty boundaries calendar he, ordered, hi.placed,
    hi.follows, ?_⟩
  · intro id positive old
    obtain ⟨e, he⟩ := hi.known id positive old
    obtain ⟨v, began, -⟩ := hi.begun boundaries calendar he
    exact ⟨v, e, began, he⟩
  · intro id p e other u hp he began
    obtain ⟨x, hx⟩ := known other u began
    have placed := hi.placed other u x began hx
    by_cases early : other ≤ id
    · refine .inl (Int.lt_of_lt_of_le placed.running ?_)
      cases Nat.eq_or_lt_of_le early with
      | inl same =>
          subst same
          obtain rfl := Option.some.inj (hx.symm.trans hp)
          exact Int.le_refl _
      | inr before =>
          exact Int.le_trans (ordered other id x p before hx hp)
            (Int.le_of_lt (hi.nonempty boundaries calendar hp))
    · refine .inr (Int.le_trans ?_ placed.started)
      cases Nat.eq_or_lt_of_le (Nat.lt_of_not_le early) with
      | inl same =>
          subst same
          obtain rfl := Option.some.inj (hx.symm.trans he)
          exact Int.le_refl _
      | inr after =>
          exact Int.le_trans (Int.le_of_lt (hi.nonempty boundaries calendar he))
            (ordered (id + 1) other e x after he hx)

end Steps

/-- Epochs of 100 seconds from 1000: the second starts on time at 1100, then the
period becomes 1000 and nobody begins the third before 2300, so it starts at 2000. -/
theorem epoch_grid_gap : ∃ history w, Run Demo.runtime history w ∧
    (∃ p e, w.epochs.lookup 2 = some p ∧ w.epochs.lookup 3 = some e ∧
      p.endsAt = 1200 ∧ e.startsAt = 2000 ∧ e.endsAt = 3000) ∧ EpochGrid history w := by
  obtain ⟨⟨history, w⟩, hrun, hcheck⟩ := exists_of_any
    (x := Demo.script [.setFeaturePause Demo.admin .jackpot false, .beginEpoch Demo.operator,
      .wait 1100, .beginEpoch Demo.operator, .setParams Demo.admin (Demo.setEpochSeconds 1000),
      .closeRegistration Demo.operator 1 ⟨9⟩ [], .wait 2300, .beginEpoch Demo.operator])
    (p := fun s => (s.2.epochs.lookup 2).any (fun e => e.endsAt = 1200) &&
      (s.2.epochs.lookup 3).any fun e => e.startsAt = 2000 && e.endsAt = 3000)
    (by decide +kernel)
  simp only [Bool.and_eq_true, Option.any_eq_true, decide_eq_true_eq] at hcheck
  obtain ⟨⟨p, hp, ends⟩, e, he, starts, stops⟩ := hcheck
  have run := Demo.script_run hrun
  exact ⟨history, w, run, ⟨p, e, hp, he, ends, starts, stops⟩, epoch_grid run⟩

end HexVault
