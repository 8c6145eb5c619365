import HexVault.Program.Inversion

/-!
The calendar: the pool's copy of the current and the previous epoch's bounds
against the Epoch accounts, and the order of those bounds in time. Every claim
about seconds rests on it.
-/

namespace HexVault

open Fallible

theorem gridFloor_eq_ok {anchor period t floor : Int} (positive : 0 < period)
    (h : gridFloor anchor period t = .ok floor) : floor ≤ t ∧ t < floor + period := by
  simp only [gridFloor, bind_eq_ok, subI64_eq_ok, require_eq_ok, mulI64_eq_ok, addI64_eq_ok,
    exists_const] at h
  obtain ⟨_, ⟨-, rfl⟩, -, _, ⟨-, rfl⟩, -, rfl⟩ := h
  have hlo := Int.ediv_mul_le (t - anchor) (Int.ne_of_gt positive)
  have hhi := Int.lt_ediv_add_one_mul_self (t - anchor) positive
  rw [Int.add_mul, Int.one_mul] at hhi
  omega

/-- Two instants in one period have the same grid point below them. -/
theorem gridFloor_congr {anchor period s t f g : Int} (positive : 0 < period)
    (hf : gridFloor anchor period s = .ok f) (hg : gridFloor anchor period t = .ok g)
    (hlo : g ≤ s) (hhi : s ≤ t) : f = g := by
  simp only [gridFloor, bind_eq_ok, subI64_eq_ok, require_eq_ok, mulI64_eq_ok, addI64_eq_ok,
    exists_const] at hf hg
  obtain ⟨_, ⟨-, rfl⟩, -, _, ⟨-, rfl⟩, -, rfl⟩ := hf
  obtain ⟨_, ⟨-, rfl⟩, -, _, ⟨-, rfl⟩, -, rfl⟩ := hg
  have hle : (t - anchor) / period ≤ (s - anchor) / period := by
    rw [Int.le_ediv_iff_mul_le positive]
    omega
  have hge : (s - anchor) / period ≤ (t - anchor) / period :=
    Int.ediv_le_ediv positive (by omega)
  rw [Int.le_antisymm hge hle]

/-- The grid point at or before an instant, had nothing overflowed. -/
def gridPoint (anchor period t : Int) : Int := anchor + (t - anchor) / period * period

/-- Only the offset back to the grid can overflow, for an anchor far ahead of `t`. -/
theorem gridFloor_iff {anchor period t f : Int} (positive : 0 < period) (later : 0 < anchor)
    (ht : t < i64Limit) : gridFloor anchor period t = .ok f ↔
      -i64Limit ≤ (t - anchor) / period * period ∧ f = gridPoint anchor period t := by
  have hlo := Int.ediv_mul_le (t - anchor) (Int.ne_of_gt positive)
  simp only [gridFloor, gridPoint, bind_eq_ok, subI64_eq_ok, require_eq_ok, mulI64_eq_ok,
    addI64_eq_ok, exists_const]
  constructor
  · intro h
    obtain ⟨_, ⟨-, rfl⟩, -, _, ⟨base, rfl⟩, -, rfl⟩ := h
    exact ⟨base.1, rfl⟩
  · intro h
    obtain ⟨hbase, rfl⟩ := h
    refine ⟨_, ⟨⟨?_, ?_⟩, rfl⟩, Int.ne_of_gt positive, _, ⟨⟨hbase, ?_⟩, rfl⟩, ⟨?_, ?_⟩, rfl⟩
    all_goals omega

theorem gridPoint_le {anchor period t : Int} (positive : 0 < period) :
    gridPoint anchor period t ≤ t := by
  have hlo := Int.ediv_mul_le (t - anchor) (Int.ne_of_gt positive)
  unfold gridPoint
  omega

/-- An instant between a grid point and `t` has the grid point of `t`. -/
theorem gridPoint_offset {anchor period s t : Int} (positive : 0 < period)
    (hlo : gridPoint anchor period t ≤ s) (hhi : s ≤ t) :
    (s - anchor) / period = (t - anchor) / period := by
  unfold gridPoint at hlo
  refine Int.le_antisymm (Int.ediv_le_ediv positive (by omega)) ?_
  rw [Int.le_ediv_iff_mul_le positive]
  omega

theorem gridPoint_congr {anchor period s t : Int} (positive : 0 < period)
    (hlo : gridPoint anchor period t ≤ s) (hhi : s ≤ t) :
    gridPoint anchor period s = gridPoint anchor period t := by
  rw [gridPoint, gridPoint_offset positive hlo hhi]
  rfl

structure Calendar (cur : Nat) (currentStart currentEnd previousStart previousEnd clock : Int)
    (epochs : Finmap fun _ : Nat => Epoch) : Prop where
  clockRange : 0 ≤ clock ∧ clock < i64Limit
  keyed : ∀ {id e}, epochs.lookup id = some e → e.epochId = id ∧ 1 ≤ id ∧ id ≤ cur
  isOpen : ∀ {id e}, epochs.lookup id = some e → (e.status = .open ↔ id = cur)
  current : 1 ≤ cur → ∃ e, epochs.lookup cur = some e ∧
    e.startsAt = currentStart ∧ e.endsAt = currentEnd
  previous : 2 ≤ cur → ∃ e, epochs.lookup (cur - 1) = some e ∧
    e.startsAt = previousStart ∧ e.endsAt = previousEnd
  currentOrder : 1 ≤ cur → 0 ≤ currentStart ∧ currentStart < currentEnd ∧
    currentStart ≤ clock ∧ currentEnd < i64Limit
  previousOrder : 2 ≤ cur → 0 ≤ previousStart ∧ previousStart < previousEnd ∧
    previousEnd ≤ currentStart
  noPrevious : cur ≤ 1 → previousStart = 0 ∧ previousEnd = 0
  noCurrent : cur = 0 → currentStart = 0 ∧ currentEnd = 0

namespace Calendar
variable {cur : Nat} {cs ce ps pe clock : Int} {epochs : Finmap fun _ : Nat => Epoch}
  {id : Nat} {e e' : Epoch}

/-- An epoch past its own end rewritten: its id and its bounds stay. -/
theorem write (hi : Calendar cur cs ce ps pe clock epochs) (h : epochs.lookup id = some e)
    (hid : e'.epochId = e.epochId) (hstart : e'.startsAt = e.startsAt)
    (hend : e'.endsAt = e.endsAt) (closed : e.status ≠ .open) (closed' : e'.status ≠ .open) :
    Calendar cur cs ce ps pe clock (epochs.insert id e') where
  clockRange := hi.clockRange
  keyed := by
    intro other x hx
    by_cases same : other = id
    · subst same
      rw [Finmap.lookup_insert, Option.some.injEq] at hx
      subst hx
      rw [hid]
      exact hi.keyed h
    · rw [Finmap.lookup_insert_of_ne _ same] at hx
      exact hi.keyed hx
  isOpen := by
    intro other x hx
    by_cases same : other = id
    · subst same
      rw [Finmap.lookup_insert, Option.some.injEq] at hx
      subst hx
      have := hi.isOpen h
      simp only [closed, closed', false_iff] at this ⊢
      exact this
    · rw [Finmap.lookup_insert_of_ne _ same] at hx
      exact hi.isOpen hx
  current := by
    intro hc
    obtain ⟨x, hx, hs, he⟩ := hi.current hc
    by_cases same : cur = id
    · subst same
      obtain rfl := Option.some.inj (h.symm.trans hx)
      exact ⟨e', Finmap.lookup_insert _, hstart.trans hs, hend.trans he⟩
    · exact ⟨x, (Finmap.lookup_insert_of_ne _ same).trans hx, hs, he⟩
  previous := by
    intro hc
    obtain ⟨x, hx, hs, he⟩ := hi.previous hc
    by_cases same : cur - 1 = id
    · subst same
      obtain rfl := Option.some.inj (h.symm.trans hx)
      exact ⟨e', Finmap.lookup_insert _, hstart.trans hs, hend.trans he⟩
    · exact ⟨x, (Finmap.lookup_insert_of_ne _ same).trans hx, hs, he⟩
  currentOrder := hi.currentOrder
  previousOrder := hi.previousOrder
  noPrevious := hi.noPrevious
  noCurrent := hi.noCurrent

end Calendar

def World.Calendar (w : World) : Prop :=
  HexVault.Calendar w.pool.currentEpochId w.pool.currentEpochStart w.pool.currentEpochEndsAt
    w.pool.previousEpochStart w.pool.previousEpochEndsAt w.clock w.epochs

/-- What ending the current epoch does: nothing to end before the first, else
the epoch moves to Registering and the next one starts at or before now. -/
theorem endCurrent_cases {w : World} {startsAt : Int} {epochs : Finmap fun _ : Nat => Epoch}
    (h : endCurrent w = .ok (startsAt, epochs)) :
    (w.pool.currentEpochId = 0 ∧ startsAt = w.clock ∧ epochs = w.epochs) ∨
    (w.pool.currentEpochId ≠ 0 ∧ ∃ previous floor,
      w.epochs.lookup w.pool.currentEpochId = some previous ∧ previous.endsAt ≤ w.clock ∧
      gridFloor w.pool.epochAnchor w.pool.epochSeconds w.clock = .ok floor ∧
      startsAt = max previous.endsAt floor ∧
      epochs = w.epochs.insert w.pool.currentEpochId
        { previous with status := .registering, registrationOpenedAt := w.clock }) := by
  simp only [endCurrent] at h
  split at h
  · rename_i first
    cases h
    exact .inl ⟨first, rfl, rfl⟩
  · rename_i later
    simp only [bind_eq_ok, World.epoch_eq_ok, ensure_eq_ok, pure_eq_ok, exists_const] at h
    obtain ⟨previous, hp, hend, floor, hf, heq⟩ := h
    cases heq
    exact .inr ⟨later, previous, floor, hp, hend, hf, rfl, rfl⟩

/-- Parameters `create_pool` takes. -/
structure CreatePoolParams.Validated (params : CreatePoolParams) : Prop where
  admin : params.admin ≠ Pubkey.default
  operator : params.operator ≠ Pubkey.default
  durations : 0 < params.epochSeconds ∧ 0 < params.epochAnchor ∧ 0 < params.roundSeconds
  vrfTimeout : MIN_VRF_TIMEOUT ≤ params.vrfTimeout
  closeBuffer : 0 ≤ params.closeBuffer ∧ params.closeBuffer < params.roundSeconds
  rates : params.houseCutBps ≤ BPS_DENOMINATOR ∧ params.baseRateBps ≤ BPS_DENOMINATOR ∧
    params.bonusCapBps ≤ BPS_DENOMINATOR
  ticketsPerUsdc : 0 < params.ticketsPerUsdc
  window : 0 ≤ params.registrationWindow ∧ params.registrationWindow < params.epochSeconds
  payoutTimeout : MIN_PAYOUT_TIMEOUT ≤ params.payoutTimeout

theorem validateParams_eq_ok {params : CreatePoolParams} {u : Unit}
    (h : validateParams params = .ok u) : params.Validated := by
  simp only [validateParams, bind_eq_ok, ensure_eq_ok, exists_const] at h
  obtain ⟨⟨admin, operator⟩, ⟨epoch, anchor, round, vrf⟩, buffer, cut, rate, tickets, bonus,
    window, payout⟩ := h
  exact ⟨admin, operator, ⟨epoch, anchor, round⟩, vrf, buffer, ⟨cut, rate, bonus⟩, tickets,
    window, payout⟩

theorem CreatePoolParams.Validated.inRange {params : CreatePoolParams} (valid : params.Validated)
    (accounts : CreatePoolAccounts) : (newPool params accounts).InRange where
  epochSeconds := valid.durations.1
  epochAnchor := valid.durations.2.1
  roundSeconds := valid.durations.2.2
  closeBuffer := valid.closeBuffer.1
  vrfTimeout := valid.vrfTimeout
  houseCutBps := valid.rates.1
  baseRateBps := valid.rates.2.1
  ticketsPerUsdc := valid.ticketsPerUsdc
  bonusCapBps := valid.rates.2.2
  payoutTimeout := valid.payoutTimeout

theorem createPool_eq_ok {params : CreatePoolParams} {accounts : CreatePoolAccounts}
    {now : Int} {w : World} (h : createPool params accounts now = .ok w) :
    params.Validated ∧ ∃ es, w = {
      key := accounts.pool
      pool := newPool params accounts
      players := Finmap.singleton params.operator (newHouse params.operator now)
      epochs := ∅, rounds := ∅, positions := ∅
      principalVault := 0, jackpotVault := 0, clock := now, log := es } := by
  simp only [createPool, bind_eq_ok, ensure_eq_ok, pure_eq_ok, exists_const] at h
  obtain ⟨-, -, _, hv, -, rfl⟩ := h
  exact ⟨validateParams_eq_ok hv, _, rfl⟩

section Created
variable {w : World} {id : Nat}

theorem created_no_epoch (h : Created w) {e : Epoch} : w.epochs.lookup id ≠ some e := by
  obtain ⟨params, accounts, now, -, -, h⟩ := h
  obtain ⟨-, es, rfl⟩ := createPool_eq_ok h
  exact nofun

theorem created_no_round (h : Created w) {r : Round} : w.rounds.lookup id ≠ some r := by
  obtain ⟨params, accounts, now, -, -, h⟩ := h
  obtain ⟨-, es, rfl⟩ := createPool_eq_ok h
  exact nofun

theorem created_no_position (h : Created w) {key : Nat × Pubkey} {x : Position} :
    w.positions.lookup key ≠ some x := by
  obtain ⟨params, accounts, now, -, -, h⟩ := h
  obtain ⟨-, es, rfl⟩ := createPool_eq_ok h
  exact nofun

/-- A new pool has one account, its House. -/
theorem created_player (h : Created w) {owner : Pubkey} {p : Player}
    (hp : w.players.lookup owner = some p) :
    owner ≠ Pubkey.default ∧ p = newHouse owner w.clock := by
  obtain ⟨params, accounts, now, -, -, h⟩ := h
  obtain ⟨valid, es, rfl⟩ := createPool_eq_ok h
  have hmem := Finmap.mem_of_lookup_eq_some hp
  rw [Finmap.mem_singleton] at hmem
  subst hmem
  rw [Finmap.lookup_singleton_eq, Option.some.injEq] at hp
  exact ⟨valid.operator, hp.symm⟩

end Created

theorem created_inRange {w : World} (h : Created w) : w.pool.InRange := by
  obtain ⟨params, accounts, now, -, -, h⟩ := h
  obtain ⟨valid, es, rfl⟩ := createPool_eq_ok h
  exact valid.inRange accounts

theorem effect_inRange {rt : Runtime} {w w' : World} {a : Action} (h : Effect rt w a w')
    (hi : w.pool.InRange) : w'.pool.InRange := by
  cases h with
  | reconfigured _ hr => exact hr.inRange hi
  | _ => exact { hi with }

theorem reachable_inRange {rt : Runtime} {w : World} (h : Reachable rt w) : w.pool.InRange :=
  h.invariant (P := fun w => w.pool.InRange) created_inRange
    fun _ hi hs => effect_inRange (step_effect hs) hi

theorem created_calendar {w : World} (h : Created w) : w.Calendar := by
  obtain ⟨params, accounts, now, hnow, hlt, h⟩ := h
  obtain ⟨-, es, rfl⟩ := createPool_eq_ok h
  refine ⟨⟨hnow, hlt⟩, ?_, ?_, ?_, ?_, ?_, ?_, ?_, ?_⟩
  · intro id e he
    exact nomatch he
  · intro id e he
    exact nomatch he
  · intro hc
    exact nomatch hc
  · intro hc
    exact nomatch hc
  · intro hc
    exact nomatch hc
  · intro hc
    exact nomatch hc
  · intro _
    exact ⟨rfl, rfl⟩
  · intro _
    exact ⟨rfl, rfl⟩

/-- A begun epoch starts no later than now, at or after the end of the one
before, and ends after now. -/
theorem epochBegan_bounds {w : World} {startsAt floor : Int}
    {epochs : Finmap fun _ : Nat => Epoch} (range : w.pool.InRange) (hi : w.Calendar)
    (hend : endCurrent w = .ok (startsAt, epochs))
    (hfloor : gridFloor w.pool.epochAnchor w.pool.epochSeconds startsAt = .ok floor) :
    0 ≤ startsAt ∧ startsAt ≤ w.clock ∧ w.clock < floor + w.pool.epochSeconds ∧
      (1 ≤ w.pool.currentEpochId → w.pool.currentEpochEndsAt ≤ startsAt) := by
  have positive := range.epochSeconds
  have grid := gridFloor_eq_ok positive hfloor
  have hclock := hi.clockRange
  cases endCurrent_cases hend with
  | inl first =>
      obtain ⟨h0, rfl, rfl⟩ := first
      refine ⟨hclock.1, Int.le_refl _, grid.2, ?_⟩
      intro h1
      omega
  | inr later =>
      obtain ⟨h0, previous, f, hp, hle, hf, rfl, rfl⟩ := later
      obtain ⟨x, hx, hs, he⟩ := hi.current (Nat.one_le_iff_ne_zero.mpr h0)
      obtain rfl := Option.some.inj (hx.symm.trans hp)
      have order := hi.currentOrder (Nat.one_le_iff_ne_zero.mpr h0)
      have now := gridFloor_eq_ok positive hf
      have same := gridFloor_congr positive hfloor hf (le_max_right ..) (max_le hle now.1)
      refine ⟨?_, max_le hle now.1, ?_, ?_⟩
      · have := le_max_left x.endsAt f
        omega
      · rw [same]
        exact now.2
      · intro _
        rw [← he]
        exact le_max_left ..

theorem began_calendar {w : World} {startsAt floor : Int}
    {epochs : Finmap fun _ : Nat => Epoch} (range : w.pool.InRange) (hi : w.Calendar)
    (hend : endCurrent w = .ok (startsAt, epochs))
    (hfloor : gridFloor w.pool.epochAnchor w.pool.epochSeconds startsAt = .ok floor)
    (hlt : floor + w.pool.epochSeconds < i64Limit) :
    HexVault.Calendar (w.pool.currentEpochId + 1) startsAt (floor + w.pool.epochSeconds)
      w.pool.currentEpochStart w.pool.currentEpochEndsAt w.clock
      (epochs.insert (w.pool.currentEpochId + 1)
        (newEpoch (w.pool.currentEpochId + 1) startsAt (floor + w.pool.epochSeconds))) := by
  have bounds := epochBegan_bounds range hi hend hfloor
  have ended : ∀ {id e}, epochs.lookup id = some e →
      e.epochId = id ∧ 1 ≤ id ∧ id ≤ w.pool.currentEpochId ∧ e.status ≠ .open := by
    intro id e he
    cases endCurrent_cases hend with
    | inl first =>
        obtain ⟨h0, rfl, rfl⟩ := first
        have := hi.keyed he
        omega
    | inr later =>
        obtain ⟨h0, previous, f, hp, hle, hf, rfl, rfl⟩ := later
        cases Finmap.lookup_insert_cases he with
        | inl same =>
            obtain ⟨rfl, rfl⟩ := same
            have := hi.keyed hp
            exact ⟨this.1, this.2.1, this.2.2, nofun⟩
        | inr other =>
            have := hi.keyed other.2
            refine ⟨this.1, this.2.1, this.2.2, ?_⟩
            intro hopen
            exact other.1 ((hi.isOpen other.2).mp hopen)
  refine ⟨hi.clockRange, ?_, ?_, ?_, ?_, ?_, ?_, ?_, ?_⟩
  · intro id e he
    cases Finmap.lookup_insert_cases he with
    | inl same =>
        obtain ⟨rfl, rfl⟩ := same
        exact ⟨rfl, Nat.le_add_left .., Nat.le_refl _⟩
    | inr other =>
        have := ended other.2
        omega
  · intro id e he
    cases Finmap.lookup_insert_cases he with
    | inl same =>
        obtain ⟨rfl, rfl⟩ := same
        exact ⟨fun _ => rfl, fun _ => rfl⟩
    | inr other =>
        have := ended other.2
        exact ⟨fun h => absurd h this.2.2.2, fun h => absurd h other.1⟩
  · intro _
    exact ⟨newEpoch (w.pool.currentEpochId + 1) startsAt (floor + w.pool.epochSeconds),
      Finmap.lookup_insert _, rfl, rfl⟩
  · intro h2
    have h1 : 1 ≤ w.pool.currentEpochId := by omega
    obtain ⟨x, hx, hs, he⟩ := hi.current h1
    cases endCurrent_cases hend with
    | inl first => omega
    | inr later =>
        obtain ⟨h0, previous, f, hp, hle, hf, rfl, rfl⟩ := later
        obtain rfl := Option.some.inj (hx.symm.trans hp)
        refine ⟨{ x with status := .registering, registrationOpenedAt := w.clock }, ?_, hs, he⟩
        rw [Nat.add_sub_cancel, Finmap.lookup_insert_of_ne _ (Nat.ne_of_lt (Nat.lt_succ_self _))]
        exact Finmap.lookup_insert _
  · intro _
    exact ⟨bounds.1, by omega, bounds.2.1, hlt⟩
  · intro h2
    have h1 : 1 ≤ w.pool.currentEpochId := by omega
    have order := hi.currentOrder h1
    exact ⟨order.1, order.2.1, bounds.2.2.2 h1⟩
  · intro h1
    exact hi.noCurrent (by omega)
  · intro h0
    exact nomatch h0

theorem effect_calendar {rt : Runtime} {w w' : World} {a : Action} (range : w.pool.InRange)
    (h : Effect rt w a w') (hi : w.Calendar) : w'.Calendar := by
  cases h with
  | waited hle hlt =>
      refine { hi with clockRange := ⟨Int.le_trans hi.clockRange.1 hle, hlt⟩, currentOrder := ?_ }
      intro h1
      have order := hi.currentOrder h1
      exact ⟨order.1, order.2.1, Int.le_trans order.2.2.1 hle, order.2.2.2⟩
  | reconfigured _ hr =>
      unfold World.Calendar
      simp only [World.emit_pool, World.emit_clock, World.emit_epochs, hr.currentEpochId,
        hr.currentEpochStart, hr.currentEpochEndsAt, hr.previousEpochStart,
        hr.previousEpochEndsAt]
      exact hi
  | epochBegan _ _ hend hfloor hlt heq =>
      subst heq
      exact began_calendar range hi hend hfloor hlt
  | registered he _ hs =>
      exact Calendar.write hi he rfl rfl rfl (by rw [hs]; nofun) (by rw [hs]; nofun)
  | closedUndrawn he hs => exact Calendar.write hi he rfl rfl rfl (by rw [hs]; nofun) nofun
  | closedForDraw he hs => exact Calendar.write hi he rfl rfl rfl (by rw [hs]; nofun) nofun
  | drawn he hs => exact Calendar.write hi he rfl rfl rfl (by rw [hs]; nofun) nofun
  | paidHouse he _ hs => exact Calendar.write hi he rfl rfl rfl (by rw [hs]; nofun) nofun
  | paidPlayer he _ hs => exact Calendar.write hi he rfl rfl rfl (by rw [hs]; nofun) nofun
  | rolledOver he hs =>
      refine Calendar.write hi he rfl rfl rfl ?_ nofun
      intro hopen
      simp only [hopen, reduceCtorEq, or_self] at hs
  | _ => exact hi

theorem reachable_calendar {rt : Runtime} {w : World} (h : Reachable rt w) : w.Calendar :=
  h.invariant created_calendar fun before hi hs =>
    effect_calendar (reachable_inRange before) (step_effect hs) hi

end HexVault
