import HexVault.Program.Touch

/-!
What a touch does to a Player, said once: the fields it never writes, and the two
ways it accrues.
-/

namespace HexVault

open Fallible

theorem weightOf_eq_ok {a s c : Nat} : weightOf a s = .ok c ↔ a * s < u128Limit ∧ c = a * s :=
  mulU128_eq_ok

theorem accrue_eq_ok {acc a s c : Nat} :
    accrue acc a s = .ok c ↔ acc + a * s < u128Limit ∧ c = acc + a * s := by
  simp only [accrue, bind_eq_ok, weightOf_eq_ok, addU128_eq_ok]
  constructor
  · intro h
    obtain ⟨x, ⟨_, rfl⟩, h⟩ := h
    exact h
  · intro h
    exact ⟨a * s, ⟨Nat.lt_of_le_of_lt (Nat.le_add_left _ _) h.1, rfl⟩, h⟩

theorem elapsed_eq_zero {start stop : Int} (h : stop ≤ start) : elapsed start stop = 0 := by
  have hpos : (0 : Int) < i64Limit := by decide
  unfold elapsed saturatingSub
  omega

/-- The span of an accrual, where both instants fit the clock's type. -/
theorem elapsed_eq {start stop : Int} (hs : 0 ≤ start) (ht : stop < i64Limit) :
    elapsed start stop = (stop - start).toNat := by
  by_cases h : stop ≤ start
  · rw [elapsed_eq_zero h]
    omega
  · unfold elapsed saturatingSub
    rw [min_eq_left (by omega), max_eq_right (by omega)]

/-- The fields no touch writes. -/
structure Player.SameHoldings (p q : Player) : Prop where
  owner : q.owner = p.owner
  principal : q.principal = p.principal
  pendingWithdraw : q.pendingWithdraw = p.pendingWithdraw
  pendingEpoch : q.pendingEpoch = p.pendingEpoch
  requestedAt : q.requestedAt = p.requestedAt
  isHouse : q.isHouse = p.isHouse
  regEpoch : q.regEpoch = p.regEpoch
  regStart : q.regStart = p.regStart
  regEnd : q.regEnd = p.regEnd
  yieldEpoch : q.yieldEpoch = p.yieldEpoch
  boughtEpoch : q.boughtEpoch = p.boughtEpoch
  boughtAmount : q.boughtAmount = p.boughtAmount
  bonusEpoch : q.bonusEpoch = p.bonusEpoch
  bonusGranted : q.bonusGranted = p.bonusGranted

theorem Player.SameHoldings.refl (p : Player) : p.SameHoldings p :=
  ⟨rfl, rfl, rfl, rfl, rfl, rfl, rfl, rfl, rfl, rfl, rfl, rfl, rfl, rfl⟩

/-- A touch within the epoch of the last one: both accumulators grow by the
stretch since, cut at the epoch's end. -/
structure TouchedSame (p : Player) (pool : Pool) (now : Int) (q : Player) : Prop
    extends p.SameHoldings q where
  current : pool.currentEpochId ≤ p.epochId
  entries : q.entries = p.entries
  weight : accrue p.weightAcc p.entries (elapsed p.lastUpdate (accrueUntil pool now)) =
    .ok q.weightAcc
  principalSeconds :
    accrue p.principalAcc p.principal (elapsed p.lastUpdate (accrueUntil pool now)) =
      .ok q.principalAcc
  lastUpdate : q.lastUpdate = now
  epochId : q.epochId = p.epochId
  frozenWeight : q.frozenWeight = p.frozenWeight
  frozenPrincipalAcc : q.frozenPrincipalAcc = p.frozenPrincipalAcc
  frozenEpoch : q.frozenEpoch = p.frozenEpoch

/-- The first touch of a new epoch: the last one is frozen and the accumulators
start over from the new epoch's start. -/
structure TouchedNew (p : Player) (pool : Pool) (now : Int) (q : Player) : Prop
    extends p.SameHoldings q where
  behind : p.epochId < pool.currentEpochId
  entries : q.entries = p.principal
  weight : weightOf p.principal
    (elapsed pool.currentEpochStart (min now pool.currentEpochEndsAt)) = .ok q.weightAcc
  principalSeconds : q.principalAcc = q.weightAcc
  lastUpdate : q.lastUpdate = now
  epochId : q.epochId = pool.currentEpochId
  frozen : freeze p pool = .ok (q.frozenWeight, q.frozenPrincipalAcc)
  frozenEpoch : q.frozenEpoch = pool.currentEpochId - 1

theorem touchSameEpoch_eq_ok {p q : Player} {pool : Pool} {now : Int}
    (current : pool.currentEpochId ≤ p.epochId)
    (h : touchSameEpoch p pool now = .ok q) : TouchedSame p pool now q := by
  simp only [touchSameEpoch, bind_eq_ok, pure_eq_ok] at h
  obtain ⟨wa, hw, pa, hp, rfl⟩ := h
  exact { Player.SameHoldings.refl p with
    current, entries := rfl, weight := hw, principalSeconds := hp, lastUpdate := rfl
    epochId := rfl, frozenWeight := rfl, frozenPrincipalAcc := rfl, frozenEpoch := rfl }

theorem touchNewEpoch_eq_ok {p q : Player} {pool : Pool} {now : Int}
    (behind : p.epochId < pool.currentEpochId)
    (h : touchNewEpoch p pool now = .ok q) : TouchedNew p pool now q := by
  simp only [touchNewEpoch, bind_eq_ok, pure_eq_ok] at h
  obtain ⟨frozen, hf, head, hw, rfl⟩ := h
  exact { Player.SameHoldings.refl p with
    behind, entries := rfl, weight := hw, principalSeconds := rfl, lastUpdate := rfl
    epochId := rfl, frozen := hf, frozenEpoch := rfl }

theorem touch_cases {p q : Player} {pool : Pool} {now : Int} (h : touch p pool now = .ok q) :
    TouchedSame p pool now q ∨ TouchedNew p pool now q := by
  simp only [touch] at h
  split at h
  · rename_i hle
    exact .inl (touchSameEpoch_eq_ok hle h)
  · rename_i hlt
    exact .inr (touchNewEpoch_eq_ok (Nat.lt_of_not_le hlt) h)

theorem touch_sameHoldings {p q : Player} {pool : Pool} {now : Int}
    (h : touch p pool now = .ok q) : p.SameHoldings q := by
  cases touch_cases h with
  | inl same => exact same.toSameHoldings
  | inr new => exact new.toSameHoldings

/-! A touch fails only where a product or a sum outgrows its type. -/

theorem accrue_eq_error {acc a s : Nat} {e : ProgramError} (h : accrue acc a s = .error e) :
    e = .vault .arithmeticOverflow := by
  simp only [accrue, weightOf, mulU128, addU128, bind_eq_error, checkedMul_eq_error,
    checkedAdd_eq_error] at h
  obtain ⟨-, rfl⟩ | ⟨_, -, -, rfl⟩ := h
  · rfl
  · rfl

theorem touch_eq_error {p : Player} {pool : Pool} {now : Int} {e : ProgramError}
    (h : touch p pool now = .error e) : e = .vault .arithmeticOverflow := by
  simp only [touch] at h
  split at h
  · simp only [touchSameEpoch, bind_eq_error] at h
    obtain h | ⟨_, -, h | ⟨_, -, h⟩⟩ := h
    · exact accrue_eq_error h
    · exact accrue_eq_error h
    · exact nomatch h
  · simp only [touchNewEpoch, freeze, weightOf, mulU128, bind_eq_error, checkedMul_eq_error] at h
    obtain h | ⟨_, -, ⟨-, rfl⟩ | ⟨_, -, h⟩⟩ := h
    · split at h
      · simp only [bind_eq_error] at h
        obtain h | ⟨_, -, h | ⟨_, -, h⟩⟩ := h
        · exact accrue_eq_error h
        · exact accrue_eq_error h
        · exact nomatch h
      · simp only [bind_eq_error, checkedMul_eq_error] at h
        obtain ⟨-, rfl⟩ | ⟨_, -, h⟩ := h
        · rfl
        · exact nomatch h
    · rfl
    · exact nomatch h

end HexVault
