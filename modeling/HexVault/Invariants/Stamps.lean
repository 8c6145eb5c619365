import HexVault.Invariants.Accounts

/-!
The instants the program records: each is a clock the pool has already shown, so
a deadline counted from one stays within the clock's type once it has passed.
-/

namespace HexVault

open Fallible Finmap

/-- An instant recorded at or before `now`, or never. -/
def Stamp (now t : Int) : Prop := 0 ≤ t ∧ t ≤ now

theorem Stamp.later {now now' t : Int} (h : Stamp now t) (hle : now ≤ now') : Stamp now' t :=
  ⟨h.1, Int.le_trans h.2 hle⟩

/-- A deadline that has passed is representable. -/
theorem Stamp.deadline {now t period : Int} (h : Stamp now t) (hp : 0 ≤ period)
    (hnow : now < i64Limit) (hpast : t + period < now) : addI64 t period = .ok (t + period) := by
  have hpos : (0 : Int) < i64Limit := by decide
  obtain ⟨h0, -⟩ := h
  refine addI64_eq_ok.mpr ⟨⟨?_, ?_⟩, rfl⟩
  · omega
  · omega

structure Epoch.Stamped (e : Epoch) (now : Int) : Prop where
  requested : Stamp now e.requestedAt
  drawn : Stamp now e.drawnAt
  opened : Stamp now e.registrationOpenedAt

structure Stamps (clock : Int) (epochs : Finmap fun _ : Nat => Epoch)
    (rounds : Finmap fun _ : Nat => Round) : Prop where
  started : 0 ≤ clock
  epochs : ∀ {id e}, epochs.lookup id = some e → e.Stamped clock
  rounds : ∀ {id r}, rounds.lookup id = some r → Stamp clock r.requestedAt

def World.Stamps (w : World) : Prop := HexVault.Stamps w.clock w.epochs w.rounds

namespace Stamps
variable {clock : Int} {epochs : Finmap fun _ : Nat => Epoch}
  {rounds : Finmap fun _ : Nat => Round} {id : Nat}

theorem now (hi : Stamps clock epochs rounds) : Stamp clock clock := ⟨hi.started, Int.le_refl _⟩

theorem zero (hi : Stamps clock epochs rounds) : Stamp clock 0 := ⟨Int.le_refl _, hi.started⟩

theorem epoch (hi : Stamps clock epochs rounds) {e : Epoch} (h : e.Stamped clock) :
    Stamps clock (epochs.insert id e) rounds := by
  refine { hi with epochs := ?_ }
  intro other x hx
  cases lookup_insert_cases hx with
  | inl same => exact same.2 ▸ h
  | inr rest => exact hi.epochs rest.2

theorem round (hi : Stamps clock epochs rounds) {r : Round} (h : Stamp clock r.requestedAt) :
    Stamps clock epochs (rounds.insert id r) := by
  refine { hi with rounds := ?_ }
  intro other x hx
  cases lookup_insert_cases hx with
  | inl same => exact same.2 ▸ h
  | inr rest => exact hi.rounds rest.2

theorem rewrite (hi : Stamps clock epochs rounds) {r r' : Round} (h : rounds.lookup id = some r)
    (same : r'.requestedAt = r.requestedAt) : Stamps clock epochs (rounds.insert id r') :=
  hi.round (same ▸ hi.rounds h)

end Stamps

section Steps
variable {rt : Runtime} {w w' : World} {a : Action}

theorem began_stamps {startsAt endsAt : Int} {epochs : Finmap fun _ : Nat => Epoch} {id : Nat}
    (hend : endCurrent w = .ok (startsAt, epochs)) (hi : w.Stamps) :
    HexVault.Stamps w.clock (epochs.insert id (newEpoch id startsAt endsAt)) w.rounds := by
  have fresh : (newEpoch id startsAt endsAt).Stamped w.clock := ⟨hi.zero, hi.zero, hi.zero⟩
  cases endCurrent_cases hend with
  | inl first =>
      obtain ⟨-, -, rfl⟩ := first
      exact Stamps.epoch hi fresh
  | inr later =>
      obtain ⟨-, previous, floor, hp, -, -, -, rfl⟩ := later
      have old := hi.epochs hp
      have ended : HexVault.Stamps w.clock (w.epochs.insert w.pool.currentEpochId
          { previous with status := .registering, registrationOpenedAt := w.clock }) w.rounds :=
        Stamps.epoch hi ⟨old.requested, old.drawn, hi.now⟩
      exact ended.epoch fresh

theorem effect_stamps (h : Effect rt w a w') (hi : w.Stamps) : w'.Stamps := by
  cases h with
  | waited hle =>
      refine ⟨Int.le_trans hi.started hle, ?_, ?_⟩
      · intro id e he
        have old := hi.epochs he
        exact ⟨old.requested.later hle, old.drawn.later hle, old.opened.later hle⟩
      · intro id r hr
        exact (hi.rounds hr).later hle
  | epochBegan _ _ hend => exact began_stamps (w := w) hend hi
  | registered he => exact Stamps.epoch hi { hi.epochs he with }
  | closedUndrawn he => exact Stamps.epoch hi { hi.epochs he with }
  | closedForDraw he => exact Stamps.epoch hi { hi.epochs he with requested := hi.now }
  | drawn he => exact Stamps.epoch hi { hi.epochs he with drawn := hi.now }
  | paidHouse he => exact Stamps.epoch hi { hi.epochs he with }
  | paidPlayer he => exact Stamps.epoch hi { hi.epochs he with }
  | rolledOver he => exact Stamps.epoch hi { hi.epochs he with }
  | roundCreated => exact Stamps.round hi hi.zero
  | positionBought _ hr => exact Stamps.rewrite hi hr rfl
  | roundRequested hr => exact Stamps.round hi hi.now
  | roundSettled hr => exact Stamps.rewrite hi hr rfl
  | positionSettled hr => exact Stamps.rewrite hi hr rfl
  | roundVoided hr => exact Stamps.rewrite hi hr rfl
  | roundClosed =>
      refine { started := hi.started, epochs := hi.epochs, rounds := ?_ }
      intro id r hr
      exact hi.rounds (lookup_of_erase hr)
  | _ => exact hi

theorem reachable_stamps (h : Reachable rt w) : w.Stamps := by
  refine h.invariant (P := fun w => w.Stamps) ?_ fun _ hi hs => effect_stamps (step_effect hs) hi
  intro start created
  obtain ⟨params, accounts, now, hnow, -, h⟩ := created
  obtain ⟨-, es, rfl⟩ := createPool_eq_ok h
  refine ⟨hnow, ?_, ?_⟩
  · intro id e he
    exact nomatch he
  · intro id r hr
    exact nomatch hr

end Steps

end HexVault
