import HexVault.Invariants.Stakes
import HexVault.Invariants.Yield

/-!
No Weight, no yield. Weight follows a Player's Tickets and principal-seconds its
Principal; while no Weight has accrued the Tickets still cover the Principal, since
the only way to part with them and keep the Principal, a stake, is credited up front.
So an epoch that owes a Player no Weight owes it no principal-seconds.
-/

namespace HexVault

open Fallible Finmap Runs

/-- Without Weight there are no principal-seconds, and Tickets cover the Principal. -/
structure Player.Weighted (p : Player) : Prop where
  accruing : p.weightAcc = 0 → p.principalAcc = 0 ∧ p.principal ≤ p.entries
  frozen : p.frozenWeight = 0 → p.frozenPrincipalAcc = 0

section Player
variable {p q r : Player} {epoch : Epoch} {pool : Pool} {now : Int} {ps : Nat}

theorem weighted_initIfFresh (hp : p.Weighted) (owner : Pubkey) (pool : Pool) (now : Int) :
    (p.initIfFresh owner pool now).Weighted := by
  rw [Player.initIfFresh]
  split
  · exact hp
  · exact ⟨hp.accruing, hp.frozen⟩

theorem weighted_zeroed : Player.zeroed.Weighted :=
  ⟨fun _ => ⟨rfl, Nat.le_refl _⟩, fun _ => rfl⟩

/-- A stretch that adds no Weight to none adds no principal-seconds to none either. -/
theorem Player.Weighted.accrue_zero {seconds weight principalSeconds : Nat} (hp : p.Weighted)
    (hw : accrue p.weightAcc p.entries seconds = .ok weight)
    (hps : accrue p.principalAcc p.principal seconds = .ok principalSeconds)
    (none : weight = 0) : principalSeconds = 0 ∧ p.principal ≤ p.entries := by
  have weighed := (accrue_eq_ok.mp hw).2
  have before : p.weightAcc = 0 := by omega
  have nothing : p.entries * seconds = 0 := by omega
  obtain ⟨acc, covered⟩ := hp.accruing before
  have held : p.principal * seconds ≤ p.entries * seconds := Nat.mul_le_mul_right _ covered
  refine ⟨?_, covered⟩
  rw [(accrue_eq_ok.mp hps).2, acc]
  omega

theorem weightAndPrincipalSeconds_weighted (hp : p.Weighted)
    (h : weightAndPrincipalSeconds epoch p = .ok (0, ps)) : ps = 0 := by
  simp only [weightAndPrincipalSeconds] at h
  split at h
  · simp only [bind_eq_ok, pure_eq_ok, Prod.mk.injEq] at h
    obtain ⟨weight, hw, seconds, hps, none, rfl⟩ := h
    exact (hp.accrue_zero hw hps none).1
  · split at h
    · simp only [bind_eq_ok, pure_eq_ok, Prod.mk.injEq] at h
      obtain ⟨_, -, none, rfl⟩ := h
      exact hp.frozen none
    · simp only [bind_eq_ok, pure_eq_ok, Prod.mk.injEq] at h
      obtain ⟨idle, -, none, rfl⟩ := h
      exact none

theorem touch_weighted (hp : p.Weighted) (h : touch p pool now = .ok q) : q.Weighted := by
  cases touch_cases h with
  | inl same =>
      refine ⟨?_, ?_⟩
      · intro none
        rw [same.principal, same.entries]
        exact hp.accrue_zero same.weight same.principalSeconds none
      · rw [same.frozenWeight, same.frozenPrincipalAcc]
        exact hp.frozen
  | inr new =>
      have frozen := new.frozen
      rw [freeze_eq (e := newEpoch (pool.currentEpochId - 1) pool.previousEpochStart
        pool.previousEpochEndsAt) rfl rfl rfl new.behind] at frozen
      refine ⟨?_, ?_⟩
      · intro none
        refine ⟨new.principalSeconds.trans none, Nat.le_of_eq ?_⟩
        rw [new.principal, new.entries]
      · intro none
        rw [none] at frozen
        exact weightAndPrincipalSeconds_weighted hp frozen

/-- The instruction's own change leaves the Principal covered if it was. -/
theorem Player.Weighted.moved (hq : q.Weighted) (hm : Moved q r 0)
    (covered : q.principal ≤ q.entries → r.principal ≤ r.entries) : r.Weighted := by
  refine ⟨?_, ?_⟩
  · rw [hm.weightAcc, hm.principalAcc]
    intro none
    obtain ⟨acc, le⟩ := hq.accruing none
    exact ⟨acc, covered le⟩
  · rw [hm.frozenWeight, hm.frozenPrincipalAcc]
    exact hq.frozen

/-- Tickets staked are Weight already. -/
theorem Player.Weighted.staked {preCredit : Nat} (hq : q.Weighted) (hm : Moved q r preCredit)
    (some : 0 < preCredit) : r.Weighted := by
  refine ⟨?_, ?_⟩
  · rw [hm.weightAcc]
    omega
  · rw [hm.frozenWeight, hm.frozenPrincipalAcc]
    exact hq.frozen

end Player

def AllWeighted (players : Finmap fun _ : Pubkey => Player) : Prop :=
  ∀ owner p, players.lookup owner = some p → p.Weighted

section Steps
variable {rt : Runtime} {w w' : World} {a : Action} {owner : Pubkey} {p q r : Player}
  {players : Finmap fun _ : Pubkey => Player}

theorem AllWeighted.write (hi : AllWeighted players) (hr : r.Weighted) :
    AllWeighted (players.insert owner r) := by
  intro other p hp
  cases lookup_insert_cases hp with
  | inl new =>
      obtain ⟨-, rfl⟩ := new
      exact hr
  | inr old => exact hi other p old.2

theorem AllWeighted.touched (hi : AllWeighted w.players) (hp : w.players.lookup owner = some p)
    (ht : touch p w.pool w.clock = .ok q) : q.Weighted :=
  touch_weighted (hi owner p hp) ht

/-- Tickets added to a Player cover no less of its Principal. -/
theorem Credited.weighted {tickets : Nat} (h : Credited q tickets r) (hq : q.Weighted) :
    r.Weighted := by
  refine hq.moved h.moved ?_
  intro le
  rw [h.principal, h.player]
  exact Nat.le_trans le (Nat.le_add_right _ _)

theorem YieldTouch.weighted {credited : Nat} (h : YieldTouch w p credited q) (hp : p.Weighted) :
    q.Weighted := by
  cases h with
  | inl same => exact same.2 ▸ hp
  | inr touched => exact touch_weighted hp touched

theorem creditYield_weighted (hq : q.Weighted) (credited epochId : Nat) :
    (q.creditYield credited epochId).Weighted :=
  hq.moved ⟨rfl, rfl, rfl, rfl, rfl, rfl, rfl, rfl, rfl⟩
    fun le => Nat.add_le_add_right le credited

theorem effect_weighted (range : w.pool.InRange) (h : Effect rt w a w')
    (hi : AllWeighted w.players) : AllWeighted w'.players := by
  cases h with
  | @deposited owner _ _ _ _ ht =>
      have before : ((w.players.lookup owner.key).getD Player.zeroed).Weighted := by
        cases hp : w.players.lookup owner.key with
        | none => exact weighted_zeroed
        | some p => exact hi _ p hp
      have touched := touch_weighted (weighted_initIfFresh before _ _ _) ht
      exact hi.write (touched.moved ⟨rfl, rfl, rfl, rfl, rfl, rfl, rfl, rfl, rfl⟩
        fun le => Nat.add_le_add_right le _)
  | withdrawRequested ha ht =>
      exact hi.write ((hi.touched ha ht).moved ⟨rfl, rfl, rfl, rfl, rfl, rfl, rfl, rfl, rfl⟩
        fun le => Nat.sub_le_sub_right le _)
  | withdrawn ha =>
      have weighted := hi _ _ ha
      exact hi.write ⟨weighted.accruing, weighted.frozen⟩
  | emergencyWithdrawn ha ht =>
      exact hi.write ((hi.touched ha ht).moved ⟨rfl, rfl, rfl, rfl, rfl, rfl, rfl, rfl, rfl⟩
        fun _ => Nat.le_refl _)
  | ticketsBought ha ht _ _ _ hc => exact hi.write (hc.weighted (hi.touched ha ht))
  | ticketsGranted ha ht hc => exact hi.write (hc.weighted (hi.touched ha ht))
  | @positionBought _ _ _ _ _ _ round _ ha _ _ ht _ _ before _ stake tiles =>
      -- The round still runs: the stake is credited for at least a second of it.
      have buffer := range.closeBuffer
      have seconds : 0 < (round.endsAt - w.clock).toNat := by omega
      have staked := Nat.mul_pos (Nat.mul_pos stake (countOnes_pos tiles)) seconds
      exact hi.write ((hi.touched ha ht).staked
        ⟨rfl, rfl, rfl, rfl, rfl, rfl, rfl, rfl, rfl⟩ staked)
  | roundSettled _ ha _ _ hh =>
      cases hh with
      | credited _ _ ht =>
          exact hi.write ((hi.touched ha ht).moved
            ⟨rfl, rfl, rfl, rfl, rfl, rfl, rfl, rfl, rfl⟩
            fun le => Nat.le_trans le (Nat.le_add_right _ _))
      | evaporated => exact hi.write (hi _ _ ha)
  | positionSettled _ ha _ ht =>
      exact hi.write ((hi.touched ha ht).moved ⟨rfl, rfl, rfl, rfl, rfl, rfl, rfl, rfl, rfl⟩
        fun le => Nat.le_trans le (Nat.le_add_right _ _))
  | registeredNothing _ ha _ _ _ _ _ hq =>
      exact hi.write (creditYield_weighted (hq.weighted (hi _ _ ha)) _ _)
  | @registered _ _ epoch _ _ _ _ credited _ _ ha _ _ _ _ _ _ hq =>
      have weighted := creditYield_weighted (hq.weighted (hi _ _ ha)) credited epoch.epochId
      exact hi.write ⟨weighted.accruing, weighted.frozen⟩
  | paidPlayer _ ha _ _ _ _ _ ht =>
      exact hi.write ((hi.touched ha ht).moved ⟨rfl, rfl, rfl, rfl, rfl, rfl, rfl, rfl, rfl⟩
        fun le => Nat.add_le_add_right le _)
  | _ => exact hi

theorem reachable_weighted (h : Reachable rt w) : AllWeighted w.players := by
  refine h.invariant (P := fun w => AllWeighted w.players) ?_ fun before hi hs =>
    effect_weighted (reachable_inRange before) (step_effect hs) hi
  intro start created owner p hp
  obtain ⟨-, rfl⟩ := created_player created hp
  exact ⟨fun _ => ⟨rfl, Nat.le_refl _⟩, fun _ => rfl⟩

end Steps

end HexVault
