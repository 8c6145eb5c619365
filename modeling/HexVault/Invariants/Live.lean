import HexVault.Invariants.Calendar
import HexVault.Program.Accepts

/-!
The round in play. At most one round is unfinished, the one the pool names; the
pot carried over went into it, and nothing is carried again before it is void.
-/

namespace HexVault

open Fallible Finmap

structure Live (opened carry next : Nat) (rounds : Finmap fun _ : Nat => Round) : Prop where
  keyed : ∀ {id r}, rounds.lookup id = some r → r.roundId = id ∧ 1 ≤ id
  started : 1 ≤ next
  carried : carry < u64Limit
  only : ∀ {id r}, rounds.lookup id = some r → ¬ isFinished r.status → opened = id
  running : opened ≠ 0 → carry = 0 ∧
    ∃ r, rounds.lookup opened = some r ∧ ¬ isFinished r.status
  fits : ∀ {id r}, rounds.lookup id = some r → r.pot < u64Limit ∧ IsI64 r.endsAt

namespace Live
variable {opened carry next : Nat} {rounds : Finmap fun _ : Nat => Round} {id : Nat}
  {r r' : Round}

/-- A round rewritten, no nearer to its end and no further from it. -/
theorem write (hi : Live opened carry next rounds) (h : rounds.lookup id = some r)
    (hid : r'.roundId = r.roundId) (same : isFinished r'.status ↔ isFinished r.status)
    (pot : r'.pot < u64Limit) (ends : r'.endsAt = r.endsAt) :
    Live opened carry next (rounds.insert id r') where
  keyed := by
    intro other x hx
    cases lookup_insert_cases hx with
    | inl this =>
        obtain ⟨rfl, rfl⟩ := this
        rw [hid]
        exact hi.keyed h
    | inr rest => exact hi.keyed rest.2
  started := hi.started
  carried := hi.carried
  only := by
    intro other x hx live
    cases lookup_insert_cases hx with
    | inl this =>
        obtain ⟨rfl, rfl⟩ := this
        exact hi.only h (same.not.mp live)
    | inr rest => exact hi.only rest.2 live
  running := by
    intro hopen
    obtain ⟨spent, x, hx, live⟩ := hi.running hopen
    by_cases this : opened = id
    · subst this
      obtain rfl := Option.some.inj (hx.symm.trans h)
      exact ⟨spent, r', lookup_insert _, same.not.mpr live⟩
    · exact ⟨spent, x, (lookup_insert_of_ne _ this).trans hx, live⟩
  fits := by
    intro other x hx
    cases lookup_insert_cases hx with
    | inl this =>
        obtain ⟨rfl, rfl⟩ := this
        rw [ends]
        exact ⟨pot, (hi.fits h).2⟩
    | inr rest => exact hi.fits rest.2

/-- The round in play ended. -/
theorem finish {carry' : Nat} (hi : Live opened carry next rounds)
    (h : rounds.lookup id = some r) (live : ¬ isFinished r.status)
    (hid : r'.roundId = r.roundId) (ended : isFinished r'.status) (pot : r'.pot = r.pot)
    (ends : r'.endsAt = r.endsAt) (fitting : carry' < u64Limit) :
    Live 0 carry' next (rounds.insert id r') where
  keyed := by
    intro other x hx
    cases lookup_insert_cases hx with
    | inl this =>
        obtain ⟨rfl, rfl⟩ := this
        rw [hid]
        exact hi.keyed h
    | inr rest => exact hi.keyed rest.2
  started := hi.started
  carried := fitting
  only := by
    intro other x hx unfinished
    cases lookup_insert_cases hx with
    | inl this =>
        obtain ⟨rfl, rfl⟩ := this
        exact absurd ended unfinished
    | inr rest => exact absurd ((hi.only rest.2 unfinished).symm.trans (hi.only h live)) rest.1
  running := fun hopen => absurd rfl hopen
  fits := by
    intro other x hx
    cases lookup_insert_cases hx with
    | inl this =>
        obtain ⟨rfl, rfl⟩ := this
        rw [pot, ends]
        exact hi.fits h
    | inr rest => exact hi.fits rest.2

theorem create (hi : Live 0 carry next rounds) (hid : r.roundId = next)
    (live : ¬ isFinished r.status) (pot : r.pot = carry) (ends : IsI64 r.endsAt) :
    Live next 0 (next + 1) (rounds.insert next r) where
  keyed := by
    intro other x hx
    cases lookup_insert_cases hx with
    | inl this =>
        obtain ⟨rfl, rfl⟩ := this
        exact ⟨hid, hi.started⟩
    | inr rest => exact hi.keyed rest.2
  started := Nat.le_succ_of_le hi.started
  carried := by decide
  only := by
    intro other x hx unfinished
    cases lookup_insert_cases hx with
    | inl this => exact this.1.symm
    | inr rest =>
        have none := hi.only rest.2 unfinished
        exact absurd none (Nat.ne_of_lt (hi.keyed rest.2).2)
  running := fun _ => ⟨rfl, r, lookup_insert _, live⟩
  fits := by
    intro other x hx
    cases lookup_insert_cases hx with
    | inl this =>
        obtain ⟨rfl, rfl⟩ := this
        rw [pot]
        exact ⟨hi.carried, ends⟩
    | inr rest => exact hi.fits rest.2

theorem erase (hi : Live opened carry next rounds) (h : rounds.lookup id = some r)
    (ended : isFinished r.status) : Live opened carry next (rounds.erase id) where
  keyed := fun hx => hi.keyed (lookup_of_erase hx)
  started := hi.started
  carried := hi.carried
  only := fun hx => hi.only (lookup_of_erase hx)
  running := by
    intro hopen
    obtain ⟨spent, x, hx, live⟩ := hi.running hopen
    refine ⟨spent, x, ?_, live⟩
    rw [lookup_erase_ne ?_]
    · exact hx
    · intro same
      rw [same, h, Option.some.injEq] at hx
      exact live (hx ▸ ended)
  fits := fun hx => hi.fits (lookup_of_erase hx)

end Live

def World.Live (w : World) : Prop :=
  HexVault.Live w.pool.openRoundId w.pool.carryPot w.pool.nextRoundId w.rounds

section Steps
variable {rt : Runtime} {w w' : World} {a : Action}

theorem buyPosition_pot {owner : Signer} {id stake : Nat} {tiles : BitVec 64}
    (h : buyPosition owner id tiles stake w = .ok w') {r : Round}
    (hr : w'.rounds.lookup id = some r) : r.pot < u64Limit := by
  simp only [buyPosition, bind_eq_ok, constraint_eq_ok, ensure_eq_ok, addU64_eq_ok, pure_eq_ok,
    exists_const] at h
  obtain ⟨_, -, _, -, -, _, -, -, -, -, -, -, _, -, -, _, -, -, _, -, -, _, -, _, -, _, -,
    _, ⟨fits, rfl⟩, _, -, rfl⟩ := h
  rw [World.emit_rounds, lookup_insert, Option.some.injEq] at hr
  rw [← hr]
  exact fits

theorem step_live (h : Step rt w a w') (hi : w.Live) : w'.Live := by
  have unended : ∀ {r : Round}, r.status = .open ∨ r.status = .requested →
      ¬ isFinished r.status := by
    intro r status
    cases status with
    | inl hs =>
        rw [hs]
        decide
    | inr hs =>
        rw [hs]
        decide
  cases step_effect h with
  | reconfigured _ hr =>
      unfold World.Live
      rw [World.emit_pool, hr.openRoundId, hr.carryPot, hr.nextRoundId]
      exact hi
  | @roundCreated operator startsAt endsAt es =>
      obtain ⟨typed, accepted⟩ := createRound_step.mp h
      obtain ⟨-, -, -, -, -, free, -⟩ := createRound_returns.mp ⟨_, accepted⟩
      have idle : HexVault.Live 0 w.pool.carryPot w.pool.nextRoundId w.rounds := free ▸ hi
      exact idle.create rfl (by simp [newRound, isFinished]) rfl typed.2
  | positionBought _ hr =>
      exact Live.write hi hr rfl Iff.rfl (buyPosition_pot h (lookup_insert _)) rfl
  | roundRequested hr hs =>
      have same : isFinished RoundStatus.requested ↔ isFinished RoundStatus.open := by decide
      exact Live.write hi hr rfl (hs ▸ same) (hi.fits hr).1 rfl
  | @roundSettled _ _ round _ _ tile _ _ hr _ hs =>
      have ended : isFinished (if round.tileTotals tile = 0 then RoundStatus.forfeited
          else RoundStatus.settled) := by
        split <;> decide
      exact Live.finish hi hr (unended (.inr hs)) rfl ended rfl rfl hi.carried
  | positionSettled hr => exact Live.write hi hr rfl Iff.rfl (hi.fits hr).1 rfl
  | @roundVoided _ _ round _ hr hs =>
      have live := unended hs.symm
      have named := hi.only hr live
      have spent := (hi.running (by rw [named]; exact Nat.ne_of_gt (hi.keyed hr).2)).1
      have fits : w.pool.carryPot +
          (if round.epochId = w.pool.currentEpochId then round.pot else 0) < u64Limit := by
        rw [spent, Nat.zero_add]
        split
        · exact (hi.fits hr).1
        · decide
      exact Live.finish hi hr live rfl (.inr (.inr rfl)) rfl rfl fits
  | roundClosed hr hs => exact Live.erase hi hr hs
  | _ => exact hi

theorem reachable_live (h : Reachable rt w) : w.Live := by
  refine h.invariant (P := fun w => w.Live) ?_ fun _ hi hs => step_live hs hi
  intro start created
  obtain ⟨params, accounts, now, -, -, h⟩ := created
  obtain ⟨-, es, rfl⟩ := createPool_eq_ok h
  have empty : 0 < u64Limit := by decide
  refine ⟨?_, Nat.le_refl _, empty, ?_, fun hopen => absurd rfl hopen, ?_⟩
  · intro id r hr
    exact nomatch hr
  · intro id r hr
    exact nomatch hr
  · intro id r hr
    exact nomatch hr

/-- The jackpot vault's balance fits the token program's amounts. -/
theorem effect_jackpotVault (h : Effect rt w a w') (hi : w.jackpotVault < u64Limit) :
    w'.jackpotVault < u64Limit := by
  cases h with
  | jackpotReceived hv => exact hv
  | ticketsBought _ _ _ _ hv => exact hv
  | jackpotFunded hv => exact hv
  | houseSwept => exact Nat.lt_of_le_of_lt (Nat.sub_le _ _) hi
  | paidHouse =>
      exact Nat.lt_of_le_of_lt (Nat.le_trans (Nat.sub_le _ _) (Nat.sub_le _ _)) hi
  | paidPlayer => exact Nat.lt_of_le_of_lt (Nat.sub_le _ _) hi
  | _ => exact hi

theorem reachable_jackpotVault (h : Reachable rt w) : w.jackpotVault < u64Limit := by
  refine h.invariant (P := fun w => w.jackpotVault < u64Limit) ?_
    fun _ hi hs => effect_jackpotVault (step_effect hs) hi
  intro start created
  obtain ⟨params, accounts, now, -, -, h⟩ := created
  obtain ⟨-, es, rfl⟩ := createPool_eq_ok h
  show 0 < u64Limit
  decide

end Steps

end HexVault
