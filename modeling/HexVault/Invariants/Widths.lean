import HexVault.Invariants.Accounts
import HexVault.Invariants.Ledger

/-!
How wide the accumulators of a Player can grow. Within a horizon of 2^31 seconds
every balance is below 2^64, so a Player's accumulators stay below 2^64 for each
second since the epoch, and 2^95 more for each Position bought in its epoch.
-/

namespace HexVault

open Fallible Finmap

/-- The horizon of the clock, of the durations and of every round's and epoch's end. -/
def horizon : Int := 2 ^ 31

def Within (t : Int) : Prop := 0 ≤ t ∧ t < horizon

instance (t : Int) : Decidable (Within t) := inferInstanceAs (Decidable (_ ∧ _))

structure Pool.InTime (pool : Pool) : Prop where
  epochSeconds : Within pool.epochSeconds
  roundSeconds : Within pool.roundSeconds
  closeBuffer : Within pool.closeBuffer
  vrfTimeout : Within pool.vrfTimeout
  registrationWindow : Within pool.registrationWindow
  payoutTimeout : Within pool.payoutTimeout

structure World.InTime (w : World) : Prop where
  clock : Within w.clock
  durations : w.pool.InTime
  rounds : ∀ id r, w.rounds.lookup id = some r → Within r.endsAt
  epochs : ∀ id e, w.epochs.lookup id = some e → Within e.endsAt

instance (pool : Pool) : Decidable pool.InTime :=
  decidable_of_iff (Within pool.epochSeconds ∧ Within pool.roundSeconds ∧
      Within pool.closeBuffer ∧ Within pool.vrfTimeout ∧ Within pool.registrationWindow ∧
      Within pool.payoutTimeout)
    ⟨fun ⟨a, b, c, d, e, f⟩ => ⟨a, b, c, d, e, f⟩, fun ⟨a, b, c, d, e, f⟩ => ⟨a, b, c, d, e, f⟩⟩

instance (w : World) : Decidable w.InTime :=
  decidable_of_iff (Within w.clock ∧ w.pool.InTime ∧
      (∀ x ∈ w.rounds.entries, Within x.2.endsAt) ∧ ∀ x ∈ w.epochs.entries, Within x.2.endsAt)
    ⟨fun h => ⟨h.1, h.2.1, fun _ _ hr => h.2.2.1 _ (lookup_eq_some_iff.mp hr),
        fun _ _ he => h.2.2.2 _ (lookup_eq_some_iff.mp he)⟩,
      fun h => ⟨h.clock, h.durations, fun x hx => h.rounds x.1 x.2 (lookup_eq_some_iff.mpr hx),
        fun x hx => h.epochs x.1 x.2 (lookup_eq_some_iff.mpr hx)⟩⟩

section Counts
variable (rt : Runtime)

/-- What a step adds to the Players' Principal. -/
def growth (w : World) (a : Action) : Nat :=
  match perform rt a w with
  | .ok w' => w'.pool.totalPrincipal - w.pool.totalPrincipal
  | .error _ => 0

/-- The deposit, the yield credit or the prize a step adds to a Player's Principal. -/
def gained : World × Action → Nat
  | (_, .deposit _ _ amount) => amount
  | (w, .register epochId owner) => growth rt w (.register epochId owner)
  | (w, .payout epochId owner) => growth rt w (.payout epochId owner)
  | _ => 0

/-- The sum of all deposits, yield credits and prizes of a run. -/
def income (history : History) : Nat := (history.map (gained rt)).sum

/-- The Positions an owner bought while an epoch was current. -/
def buysIn (owner : Pubkey) (id : Nat) (history : History) : Nat :=
  history.countP fun
    | (w, .buyPosition buyer _ _ _) => buyer.key = owner ∧ w.pool.currentEpochId = id
    | _ => false

structure Bounded (history : History) (w : World) : Prop where
  income : income rt history < u64Limit
  states : ∀ x ∈ history, x.1.InTime
  now : w.InTime

end Counts

section Counted
variable {rt : Runtime} {history : History} {w w' : World} {a : Action} {owner : Pubkey}

theorem income_next (history : History) (w : World) (a : Action) :
    income rt ((w, a) :: history) = income rt history + gained rt (w, a) := by
  rw [income, List.map_cons, List.sum_cons, Nat.add_comm]
  rfl

theorem Bounded.earlier (h : Bounded rt ((w, a) :: history) w') : Bounded rt history w where
  income := by
    have sum := h.income
    rw [income_next] at sum
    omega
  states x hx := h.states x (List.mem_cons_of_mem _ hx)
  now := h.states (w, a) (List.mem_cons_self ..)

theorem buysIn_le (owner : Pubkey) (id : Nat) (x : World × Action) (history : History) :
    buysIn owner id history ≤ buysIn owner id (x :: history) := by
  rw [buysIn, buysIn, List.countP_cons]
  exact Nat.le_add_right _ _

theorem buysIn_bought {buyer : Signer} {roundId stake : Nat} {tiles : BitVec 64}
    (own : buyer.key = owner) (history : History) :
    buysIn owner w.pool.currentEpochId ((w, .buyPosition buyer roundId tiles stake) :: history) =
      buysIn owner w.pool.currentEpochId history + 1 := by
  rw [buysIn, buysIn, List.countP_cons, if_pos (by simp [own])]

theorem growth_of_step (h : Step rt w a w') :
    growth rt w a = w'.pool.totalPrincipal - w.pool.totalPrincipal := by
  have h : perform rt a w = .ok w' := h
  rw [growth, h]

/-- What the books owe the Players grows by what a step adds, at most. -/
theorem step_owed (h : Step rt w a w') :
    w'.pool.totalPrincipal + w'.pool.pendingWithdrawals ≤
      w.pool.totalPrincipal + w.pool.pendingWithdrawals + gained rt (w, a) := by
  have grown := growth_of_step h
  cases step_effect h with
  | reconfigured _ hr =>
      rw [World.emit_pool, hr.totalPrincipal, hr.pendingWithdrawals]
      exact Nat.le_add_right _ _
  | deposited =>
      simp only [World.emit_pool, gained]
      omega
  | withdrawRequested _ _ _ htotal =>
      simp only [World.emit_pool]
      omega
  | withdrawn =>
      simp only [World.emit_pool]
      omega
  | emergencyWithdrawn =>
      simp only [World.emit_pool]
      omega
  | registeredNothing =>
      simp only [World.emit_pool, Pool.creditYield, gained] at grown ⊢
      omega
  | registered =>
      simp only [World.emit_pool, Pool.creditYield, gained] at grown ⊢
      omega
  | paidPlayer =>
      simp only [World.emit_pool, gained] at grown ⊢
      omega
  | _ => exact Nat.le_add_right _ _

theorem run_owed (run : Run rt history w) :
    w.pool.totalPrincipal + w.pool.pendingWithdrawals ≤ income rt history := by
  refine run.invariant (P := fun history w =>
    w.pool.totalPrincipal + w.pool.pendingWithdrawals ≤ income rt history) ?_ ?_
  · intro start created
    obtain ⟨params, accounts, now, -, -, h⟩ := created
    obtain ⟨-, es, rfl⟩ := createPool_eq_ok h
    exact Nat.le_refl _
  · intro history w a w' _ hi h
    have step := step_owed h
    rw [income_next]
    omega

end Counted

/-! Tickets stay within their type: every sum of them is checked. -/

def EntriesFit (players : Finmap fun _ : Pubkey => Player) : Prop :=
  ∀ owner p, players.lookup owner = some p → p.entries < u64Limit

section Entries
variable {rt : Runtime} {w w' : World} {a : Action} {owner : Pubkey}
  {players : Finmap fun _ : Pubkey => Player} {p q : Player}

theorem EntriesFit.insert (hi : EntriesFit players) (h : p.entries < u64Limit) :
    EntriesFit (players.insert owner p) := by
  intro other q hq
  cases lookup_insert_cases hq with
  | inl same => exact same.2 ▸ h
  | inr rest => exact hi other q rest.2

theorem touch_entriesFit {pool : Pool} {now : Int} (h : touch p pool now = .ok q)
    (entries : p.entries < u64Limit) (principal : p.principal < u64Limit) :
    q.entries < u64Limit := by
  cases touch_cases h with
  | inl same => exact same.entries ▸ entries
  | inr new => exact new.entries ▸ principal

theorem deposit_entriesFit {signer : Signer} {token : TokenAccount} {amount : Nat}
    (h : deposit signer token amount w = .ok w') (hi : EntriesFit w.players) :
    EntriesFit w'.players := by
  simp only [deposit, bind_eq_ok, addU64_eq_ok, pure_eq_ok] at h
  obtain ⟨_, -, _, -, _, -, _, -, _, -, _, -, _, -, _, ⟨-, rfl⟩, _, ⟨fits, rfl⟩, _, -, rfl⟩ := h
  exact hi.insert fits

theorem buyTickets_entriesFit {signer : Signer} {token : TokenAccount} {amount : Nat}
    (h : buyTickets signer token amount w = .ok w') (hi : EntriesFit w.players) :
    EntriesFit w'.players := by
  simp only [buyTickets, bind_eq_ok, ensure_eq_ok, addU64_eq_ok, pure_eq_ok, exists_const] at h
  obtain ⟨_, -, _, -, _, -, -, -, -, -, -, -, _, -, _, -, _, -, _, ⟨fits, rfl⟩, rfl⟩ := h
  exact hi.insert fits

theorem grantTickets_entriesFit {signer : Signer} {amount : Nat}
    (h : grantTickets signer owner amount w = .ok w') (hi : EntriesFit w.players) :
    EntriesFit w'.players := by
  simp only [grantTickets, bind_eq_ok, ensure_eq_ok, addU64_eq_ok, pure_eq_ok,
    exists_const] at h
  obtain ⟨_, -, -, _, -, -, -, -, -, _, -, _, ⟨fits, rfl⟩, rfl⟩ := h
  exact hi.insert fits

theorem creditHouse_entriesFit {current forfeited : Bool} {credit : Nat}
    (h : creditHouse w current forfeited credit p = .ok q) (entries : p.entries < u64Limit) :
    q.entries < u64Limit := by
  simp only [creditHouse] at h
  split at h
  · simp only [bind_eq_ok, addU64_eq_ok, pure_eq_ok] at h
    obtain ⟨_, -, _, ⟨fits, rfl⟩, rfl⟩ := h
    exact fits
  · cases h
    exact entries

theorem settleRound_entriesFit {id : Nat} {randomness : AccountInfo}
    (h : settleRound rt id randomness w = .ok w') (hi : EntriesFit w.players) :
    EntriesFit w'.players := by
  simp only [settleRound, bind_eq_ok, World.player_eq_ok, pure_eq_ok] at h
  obtain ⟨_, -, account, ha, _, -, _, -, _, -, _, -, _, -, house, hh, rfl⟩ := h
  exact hi.insert (creditHouse_entriesFit hh (hi _ _ ha))

theorem settlePosition_entriesFit {id : Nat} (small : ∀ owner p,
    w.players.lookup owner = some p → p.principal < u64Limit)
    (h : settlePosition id owner w = .ok w') (hi : EntriesFit w.players) :
    EntriesFit w'.players := by
  simp only [settlePosition, bind_eq_ok, World.player_eq_ok, addReward, pure_eq_ok] at h
  obtain ⟨_, -, account, ha, _, -, _, ht, _, -, _, -, _, hadd, _, -, rfl⟩ := h
  split at hadd
  · obtain ⟨fits, rfl⟩ := addU64_eq_ok.mp hadd
    exact hi.insert fits
  · cases hadd
    exact hi.insert (touch_entriesFit ht (hi _ _ ha) (small _ _ ha))

theorem registerYield_entriesFit {pool : Pool} {epochId ps : Nat} {now : Int}
    {r : Pool × Player × List Event} (h : registerYield pool p epochId ps now = .ok r)
    (entries : p.entries < u64Limit) : r.2.1.entries < u64Limit := by
  simp only [registerYield] at h
  split at h
  · simp only [creditYield, bind_eq_ok, addU64_eq_ok, pure_eq_ok] at h
    obtain ⟨_, ⟨_, -, _, -, _, -, _, -, _, ⟨fits, rfl⟩, _, -, _, -, rfl⟩, rfl⟩ := h
    exact fits
  · cases h
    exact entries

theorem register_entriesFit {id : Nat} (h : register id owner w = .ok w')
    (hi : EntriesFit w.players) : EntriesFit w'.players := by
  simp only [register, bind_eq_ok, World.player_eq_ok] at h
  obtain ⟨_, -, p, hp, _, -, _, -, _, -, _, -, _, hy, h⟩ := h
  have fits := registerYield_entriesFit hy (hi _ _ hp)
  split at h
  · cases h
    exact hi.insert fits
  · simp only [takeInterval, bind_eq_ok, pure_eq_ok] at h
    obtain ⟨_, ⟨_, -, _, -, rfl⟩, rfl⟩ := h
    exact hi.insert fits

theorem payout_entriesFit {id : Nat} (h : payout id owner w = .ok w')
    (hi : EntriesFit w.players) : EntriesFit w'.players := by
  simp only [payout, payWinner, bind_eq_ok, pure_eq_ok] at h
  obtain ⟨_, -, _, -, _, -, _, -, _, -, paid, hpaid, _, -, rfl⟩ := h
  split at hpaid
  · simp only [payHouse, bind_eq_ok, pure_eq_ok] at hpaid
    obtain ⟨_, -, _, -, rfl⟩ := hpaid
    exact hi
  · simp only [payPlayer, bind_eq_ok, addU64_eq_ok, pure_eq_ok] at hpaid
    obtain ⟨_, -, _, -, _, -, _, -, _, ⟨fits, rfl⟩, _, -, rfl⟩ := hpaid
    exact hi.insert fits

theorem step_entriesFit (small : ∀ owner p, w.players.lookup owner = some p →
    p.principal < u64Limit) (h : Step rt w a w') (hi : EntriesFit w.players) :
    EntriesFit w'.players := by
  cases step_effect h with
  | deposited => exact deposit_entriesFit h hi
  | ticketsBought => exact buyTickets_entriesFit h hi
  | ticketsGranted => exact grantTickets_entriesFit h hi
  | roundSettled => exact settleRound_entriesFit h hi
  | positionSettled => exact settlePosition_entriesFit small h hi
  | registeredNothing => exact register_entriesFit h hi
  | registered => exact register_entriesFit h hi
  | paidPlayer => exact payout_entriesFit h hi
  | withdrawRequested ha ht =>
      have touched := touch_entriesFit ht (hi _ _ ha) (small _ _ ha)
      exact hi.insert (Nat.lt_of_le_of_lt (Nat.sub_le _ _) touched)
  | withdrawn ha =>
      have same := hi _ _ ha
      exact hi.insert same
  | emergencyWithdrawn => exact hi.insert (show 0 < u64Limit by decide)
  | positionBought ha _ _ ht =>
      have touched := touch_entriesFit ht (hi _ _ ha) (small _ _ ha)
      exact hi.insert (Nat.lt_of_le_of_lt (Nat.sub_le _ _) touched)
  | _ => exact hi

end Entries

/-! The accumulators, and the touch that moves them. -/

/-- What a Position can add to its buyer's Weight, at most. -/
def stakeLimit : Nat := u64Limit * horizon.toNat

structure Player.Fits (p : Player) (buys : Nat) : Prop where
  weight : p.weightAcc ≤ u64Limit * p.lastUpdate.toNat + stakeLimit * buys
  principalSeconds : p.principalAcc ≤ u64Limit * p.lastUpdate.toNat

/-- The bounds of the current and of the previous epoch, as a touch reads them. -/
structure Pool.Spans (pool : Pool) (now : Int) : Prop where
  currentStart : 0 ≤ pool.currentEpochStart ∧ pool.currentEpochStart ≤ now
  previousStart : Within pool.previousEpochStart
  previousEnd : Within pool.previousEpochEndsAt

section Touch
variable {p q : Player} {pool : Pool} {start stop now : Int} {acc amount buys : Nat}

theorem elapsed_le : elapsed start stop ≤ (stop - start).toNat := by
  have hpos : (0 : Int) < i64Limit := by decide
  unfold elapsed saturatingSub
  omega

theorem accrueUntil_le : accrueUntil pool now ≤ now := by
  unfold accrueUntil
  split
  · exact Int.le_refl _
  · exact Int.min_le_left _ _

theorem accrued_le (fits : amount < u64Limit) (h0 : 0 ≤ start) (hle : start ≤ now)
    (hstop : stop ≤ now) :
    u64Limit * start.toNat + amount * elapsed start stop ≤ u64Limit * now.toNat := by
  have span : elapsed start stop ≤ (now - start).toNat := by
    have within : elapsed start stop ≤ (stop - start).toNat := elapsed_le
    omega
  have total : start.toNat + (now - start).toNat = now.toNat := by omega
  calc u64Limit * start.toNat + amount * elapsed start stop
      ≤ u64Limit * start.toNat + u64Limit * (now - start).toNat :=
        Nat.add_le_add_left (Nat.mul_le_mul (Nat.le_of_lt fits) span) _
    _ = u64Limit * now.toNat := by rw [← Nat.mul_add, total]

/-- An accrual within the horizon does not outgrow its type. -/
theorem accrued_fits (h : acc ≤ u64Limit * start.toNat + stakeLimit * buys)
    (fits : amount < u64Limit) (hstart : Within start) (hstop : stop < horizon)
    (few : buys < 2 ^ 32) : acc + amount * elapsed start stop < u128Limit := by
  have later : (max start stop).toNat < horizon.toNat := by
    have hpos : (0 : Int) < horizon := by decide
    obtain ⟨h0, hlt⟩ := hstart
    omega
  have grown := accrued_le fits hstart.1 (Int.le_max_left start stop) (Int.le_max_right start stop)
  have time : u64Limit * (max start stop).toNat ≤ stakeLimit :=
    Nat.mul_le_mul_left _ (Nat.le_of_lt later)
  have bought : stakeLimit * buys ≤ stakeLimit * (2 ^ 32 - 1) :=
    Nat.mul_le_mul_left _ (Nat.le_sub_one_of_lt few)
  calc acc + amount * elapsed start stop
      ≤ u64Limit * start.toNat + stakeLimit * buys + amount * elapsed start stop :=
        Nat.add_le_add_right h _
    _ = u64Limit * start.toNat + amount * elapsed start stop + stakeLimit * buys :=
        Nat.add_right_comm _ _ _
    _ ≤ stakeLimit + stakeLimit * (2 ^ 32 - 1) :=
        Nat.add_le_add (Nat.le_trans grown time) bought
    _ < u128Limit := by decide

/-- An accumulator that no purchase went into. -/
theorem accrued_unbought (h : acc ≤ u64Limit * start.toNat) (fits : amount < u64Limit)
    (hstart : Within start) (hstop : stop < horizon) :
    acc + amount * elapsed start stop < u128Limit := by
  have few : 0 < 2 ^ 32 := by decide
  exact accrued_fits (Nat.le_trans h (Nat.le_add_right _ _)) fits hstart hstop few

theorem touch_returns (fits : p.Fits buys) (entries : p.entries < u64Limit)
    (principal : p.principal < u64Limit) (updated : Within p.lastUpdate) (few : buys < 2 ^ 32)
    (spans : pool.Spans now) (hnow : now < horizon) : Returns (touch p pool now) := by
  have weight := fun stop (h : stop < horizon) =>
    accrued_fits fits.weight entries updated h few
  have seconds := fun stop (h : stop < horizon) =>
    accrued_unbought fits.principalSeconds principal updated h
  have whole : ∀ start stop, Within start → stop < horizon →
      p.principal * elapsed start stop < u128Limit := by
    intro start stop hs h
    rw [← Nat.zero_add (p.principal * _)]
    exact accrued_unbought (Nat.zero_le _) principal hs h
  have until_ : accrueUntil pool now < horizon := Int.lt_of_le_of_lt accrueUntil_le hnow
  unfold touch
  split
  · refine .bind (accrue_eq_ok.mpr ⟨weight _ until_, rfl⟩) ?_
    exact .bind (accrue_eq_ok.mpr ⟨seconds _ until_, rfl⟩) (.pure _)
  · have frozen : Returns (freeze p pool) := by
      unfold freeze
      split
      · refine .bind (accrue_eq_ok.mpr ⟨weight _ spans.previousEnd.2, rfl⟩) ?_
        exact .bind (accrue_eq_ok.mpr ⟨seconds _ spans.previousEnd.2, rfl⟩) (.pure _)
      · exact .bind (weightOf_eq_ok.mpr
          ⟨whole _ _ spans.previousStart spans.previousEnd.2, rfl⟩) (.pure _)
    obtain ⟨f, hf⟩ := frozen
    have began : Within pool.currentEpochStart :=
      ⟨spans.currentStart.1, Int.lt_of_le_of_lt spans.currentStart.2 hnow⟩
    have head := whole _ (min now pool.currentEpochEndsAt) began
      (Int.lt_of_le_of_lt (Int.min_le_left _ _) hnow)
    exact .bind hf (.bind (weightOf_eq_ok.mpr ⟨head, rfl⟩) (.pure _))

/-- A touch keeps the bounds, with the purchases of the epoch it leaves the Player in. -/
theorem Player.Fits.touch {buys' : Nat} (fits : p.Fits buys) (entries : p.entries < u64Limit)
    (principal : p.principal < u64Limit) (updated : 0 ≤ p.lastUpdate ∧ p.lastUpdate ≤ now)
    (start : 0 ≤ pool.currentEpochStart ∧ pool.currentEpochStart ≤ now)
    (kept : pool.currentEpochId ≤ p.epochId → buys ≤ buys')
    (h : HexVault.touch p pool now = .ok q) : q.Fits buys' := by
  cases touch_cases h with
  | inl same =>
      obtain ⟨-, hw⟩ := accrue_eq_ok.mp same.weight
      obtain ⟨-, hp⟩ := accrue_eq_ok.mp same.principalSeconds
      have accruing : accrueUntil pool now ≤ now := accrueUntil_le
      have tickets := accrued_le entries updated.1 updated.2 accruing
      have held := accrued_le principal updated.1 updated.2 accruing
      have more : stakeLimit * buys ≤ stakeLimit * buys' :=
        Nat.mul_le_mul_left _ (kept same.current)
      have weight := fits.weight
      have seconds := fits.principalSeconds
      refine ⟨?_, ?_⟩
      · rw [same.lastUpdate, hw]
        omega
      · rw [same.lastUpdate, hp]
        omega
  | inr new =>
      obtain ⟨-, hw⟩ := weightOf_eq_ok.mp new.weight
      have head := accrued_le principal start.1 start.2
        (Int.min_le_left now pool.currentEpochEndsAt)
      refine ⟨?_, ?_⟩
      · rw [new.lastUpdate, hw]
        omega
      · rw [new.principalSeconds, new.lastUpdate, hw]
        omega

end Touch

/-- Every balance and every accumulator is within its bound. -/
structure Sized (history : History) (w : World) : Prop where
  entries : EntriesFit w.players
  fits : ∀ owner p, w.players.lookup owner = some p → p.Fits (buysIn owner p.epochId history)

section Run
variable {rt : Runtime} {history : History} {w w' : World} {a : Action} {owner : Pubkey}
  {p q r : Player} {buys : Nat}

theorem Player.Fits.more {buys' : Nat} (fits : p.Fits buys) (more : buys ≤ buys') :
    p.Fits buys' where
  weight := Nat.le_trans fits.weight (Nat.add_le_add_left (Nat.mul_le_mul_left _ more) _)
  principalSeconds := fits.principalSeconds

theorem Player.Fits.booked (fits : p.Fits buys) (same : SameAccrual p r) : r.Fits buys where
  weight := by
    rw [same.weightAcc, same.lastUpdate]
    exact fits.weight
  principalSeconds := by
    rw [same.principalAcc, same.lastUpdate]
    exact fits.principalSeconds

theorem Player.Fits.moved {preCredit bought : Nat} (fits : q.Fits buys)
    (h : Moved q r preCredit) (credited : preCredit ≤ stakeLimit * bought) :
    r.Fits (buys + bought) where
  weight := by
    have weight := fits.weight
    rw [h.weightAcc, h.lastUpdate, Nat.mul_add]
    omega
  principalSeconds := by
    rw [h.principalAcc, h.lastUpdate]
    exact fits.principalSeconds

theorem Player.Fits.kept (fits : q.Fits buys) (h : Moved q r 0) : r.Fits buys := by
  have none : 0 ≤ stakeLimit * 0 := Nat.zero_le _
  exact fits.moved h none

theorem bounded_principal (run : Run rt history w) (bounded : Bounded rt history w) :
    ∀ owner p, w.players.lookup owner = some p →
      p.principal + p.pendingWithdraw ≤ w.pool.totalPrincipal + w.pool.pendingWithdrawals ∧
      w.pool.totalPrincipal + w.pool.pendingWithdrawals < u64Limit := by
  intro owner p hp
  have within := (run_ledger run).le hp
  exact ⟨Nat.add_le_add within.1 within.2, Nat.lt_of_le_of_lt (run_owed run) bounded.income⟩

theorem bounded_small (run : Run rt history w) (bounded : Bounded rt history w) :
    ∀ owner p, w.players.lookup owner = some p → p.principal < u64Limit := by
  intro owner p hp
  have within := bounded_principal run bounded owner p hp
  omega

theorem reachable_spans (reachable : Reachable rt w) (now : w.InTime) :
    w.pool.Spans w.clock := by
  have calendar := reachable_calendar reachable
  have clock := now.clock
  have currentStart : 0 ≤ w.pool.currentEpochStart ∧ w.pool.currentEpochStart ≤ w.clock := by
    cases Nat.eq_zero_or_pos w.pool.currentEpochId with
    | inl none =>
        rw [(calendar.noCurrent none).1]
        exact ⟨Int.le_refl _, clock.1⟩
    | inr some =>
        have order := calendar.currentOrder some
        exact ⟨order.1, order.2.2.1⟩
  by_cases two : 2 ≤ w.pool.currentEpochId
  · obtain ⟨e, he, -, hend⟩ := calendar.previous two
    have order := calendar.previousOrder two
    have ends := now.epochs _ e he
    rw [hend] at ends
    exact ⟨currentStart, ⟨order.1, Int.lt_trans order.2.1 ends.2⟩, ends⟩
  · obtain ⟨start, stop⟩ := calendar.noPrevious (by omega)
    have zero : Within 0 := by decide
    exact ⟨currentStart, start ▸ zero, stop ▸ zero⟩

/-- A purchase stakes Tickets the buyer holds, for no longer than the horizon. -/
theorem bought_credit {buyer : Signer} {id stake : Nat} {tiles : BitVec 64} {round : Round}
    (entries : EntriesFit w.players)
    (small : ∀ owner p, w.players.lookup owner = some p → p.principal < u64Limit)
    (now : w.InTime) (hr : w.rounds.lookup id = some round)
    (h : Step rt w (.buyPosition buyer id tiles stake) w') :
    stake * countOnes tiles * (round.endsAt - w.clock).toNat ≤ stakeLimit := by
  have ends := now.rounds id round hr
  have clock := now.clock
  cases step_effect h with
  | reconfigured ha => exact nomatch ha
  | positionBought ha hr' _ ht _ _ _ _ _ _ _ afford =>
      have touched := touch_entriesFit ht (entries _ _ ha) (small _ _ ha)
      apply Nat.mul_le_mul
      · omega
      · have later : round.endsAt < horizon := ends.2
        have started : 0 ≤ w.clock := clock.1
        omega

theorem step_fits (run : Run rt history w) (bounded : Bounded rt history w)
    (h : Step rt w a w') (hi : Sized history w) (hp : w'.players.lookup owner = some r) :
    r.Fits (buysIn owner r.epochId ((w, a) :: history)) := by
  have accounts := reachable_accounts run.reachable
  have small := bounded_small run bounded
  have spans := reachable_spans run.reachable bounded.now
  have step := effect_player accounts.owned (step_effect h) owner
  rw [hp] at step
  cases hold : w.players.lookup owner with
  | none =>
      rw [hold] at step
      cases step with
      | created hne ht hm =>
          rw [initIfFresh_zeroed] at ht
          have fresh : Player.Fits { Player.zeroed with
              owner, lastUpdate := w.clock, epochId := w.pool.currentEpochId } 0 :=
            ⟨Nat.zero_le _, Nat.zero_le _⟩
          have empty : 0 < u64Limit := by decide
          have touched := fresh.touch empty empty ⟨bounded.now.clock.1,
            Int.le_refl _⟩ spans.currentStart (fun _ => Nat.le_refl _) ht
          exact (touched.kept hm).more (Nat.zero_le _)
  | some p =>
      rw [hold] at step
      have old := hi.fits owner p hold
      have updated := accounts.updated hold
      have behind := accounts.behind hold
      cases step with
      | same => exact old.more (buysIn_le _ _ _ _)
      | booked hs =>
          rw [hs.epochId]
          exact (old.booked hs).more (buysIn_le _ _ _ _)
      | @moved _ q _ preCredit ht hm hpre =>
          have current := touch_epochId behind ht
          have touched : q.Fits (buysIn owner w.pool.currentEpochId history) :=
            old.touch (hi.entries _ _ hold) (small _ _ hold) updated spans.currentStart
              (fun ahead => Nat.le_of_eq (by rw [Nat.le_antisymm behind ahead])) ht
          rw [hm.epochId, current]
          cases hpre with
          | inl zero =>
              subst zero
              exact (touched.kept hm).more (buysIn_le _ _ _ _)
          | inr bought =>
              obtain ⟨buyer, id, tiles, stake, round, rfl, own, hr, -, rfl⟩ := bought
              have credit := bought_credit hi.entries small bounded.now hr h
              rw [buysIn_bought own]
              exact touched.moved hm (by rw [Nat.mul_one]; exact credit)

theorem run_sized (run : Run rt history w) (bounded : Bounded rt history w) :
    Sized history w := by
  refine run.invariant (P := fun history w => Bounded rt history w → Sized history w) ?_ ?_
    bounded
  · intro start created _
    have empty : 0 < u64Limit := by decide
    refine ⟨?_, ?_⟩
    · intro owner p hp
      obtain ⟨-, rfl⟩ := created_player created hp
      exact empty
    · intro owner p hp
      obtain ⟨-, rfl⟩ := created_player created hp
      exact ⟨Nat.zero_le _, Nat.zero_le _⟩
  · intro history w a w' before hi h bounded
    have old := hi bounded.earlier
    have small := bounded_small before bounded.earlier
    exact ⟨step_entriesFit small h old.entries,
      fun owner r hr => step_fits before bounded.earlier h old hr⟩

end Run

end HexVault
