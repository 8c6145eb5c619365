import HexVault.Invariants.Calendar

/-!
The jackpot reservation: what the pool has promised to epochs that were closed
for a draw and are neither paid nor rolled over, against the jackpot vault.
-/

namespace HexVault

open Fallible Finmap

/-- An epoch that still owes its prize. -/
def Epoch.holdsPrize (epoch : Epoch) : Prop :=
  epoch.status = .drawing ∨ epoch.status = .drawn

instance (epoch : Epoch) : Decidable epoch.holdsPrize := inferInstanceAs (Decidable (_ ∨ _))

/-- The prize promised to an epoch. -/
def promisedTo (_ : Nat) (epoch : Epoch) : Nat :=
  if epoch.holdsPrize then epoch.jackpotAmount else 0

theorem promisedTo_of_holds (id : Nat) {epoch : Epoch} (h : epoch.holdsPrize) :
    promisedTo id epoch = epoch.jackpotAmount := if_pos h

theorem promisedTo_registering {id : Nat} {epoch : Epoch} (h : epoch.status = .registering) :
    promisedTo id epoch = 0 := by
  simp [promisedTo, Epoch.holdsPrize, h]

theorem promisedTo_of_not {id : Nat} {epoch : Epoch} (h : ¬ epoch.holdsPrize) :
    promisedTo id epoch = 0 := if_neg h

structure Reservation (reserved vault : Nat) (epochs : Finmap fun _ : Nat => Epoch) : Prop where
  sum : reserved = total promisedTo epochs
  covered : reserved ≤ vault
  /-- Nothing is set aside before registration closes. -/
  unset : ∀ {id e}, epochs.lookup id = some e →
    (e.status = .open ∨ e.status = .registering) → e.jackpotAmount = 0

namespace Reservation
variable {r v : Nat} {epochs : Finmap fun _ : Nat => Epoch} {id : Nat} {e e' : Epoch}

/-- An epoch rewritten: the reservation moves by as much as its promise does. -/
theorem write {r' v' : Nat} (hi : Reservation r v epochs) (h : epochs.lookup id = some e)
    (hr : r' + promisedTo id e = r + promisedTo id e') (hv : r' ≤ v')
    (hu : e'.status = .open ∨ e'.status = .registering → e'.jackpotAmount = 0) :
    Reservation r' v' (epochs.insert id e') where
  sum := by
    have hsum := total_insert_add promisedTo h e'
    have hold := hi.sum
    omega
  covered := hv
  unset := by
    intro other x hx hs
    cases lookup_insert_cases hx with
    | inl same =>
        obtain ⟨rfl, rfl⟩ := same
        exact hu hs
    | inr rest => exact hi.unset rest.2 hs

theorem promised_le (hi : Reservation r v epochs) (h : epochs.lookup id = some e)
    (holds : e.holdsPrize) : e.jackpotAmount ≤ r := by
  rw [hi.sum, ← promisedTo_of_holds id holds]
  exact le_total promisedTo h

/-- A new epoch, which promises nothing yet. -/
theorem create (hi : Reservation r v epochs) (h : epochs.lookup id = none)
    (hn : ¬ e.holdsPrize) (hz : e.jackpotAmount = 0) :
    Reservation r v (epochs.insert id e) where
  sum := by
    rw [total_insert, total_erase_of_notMem _ h, promisedTo_of_not hn, Nat.zero_add]
    exact hi.sum
  covered := hi.covered
  unset := by
    intro other x hx hs
    cases lookup_insert_cases hx with
    | inl same =>
        obtain ⟨rfl, rfl⟩ := same
        exact hz
    | inr rest => exact hi.unset rest.2 hs

end Reservation

def World.Reservation (w : World) : Prop :=
  HexVault.Reservation w.pool.jackpotReserved w.jackpotVault w.epochs

theorem created_reservation {w : World} (h : Created w) : w.Reservation := by
  obtain ⟨params, accounts, now, -, -, h⟩ := h
  obtain ⟨-, es, rfl⟩ := createPool_eq_ok h
  refine ⟨rfl, Nat.le_refl _, ?_⟩
  intro id e he
  exact nomatch he

theorem began_reservation {w : World} {startsAt endsAt : Int}
    {epochs : Finmap fun _ : Nat => Epoch} (calendar : w.Calendar) (hi : w.Reservation)
    (hnew : w.epochs.lookup (w.pool.currentEpochId + 1) = none)
    (hend : endCurrent w = .ok (startsAt, epochs)) :
    HexVault.Reservation w.pool.jackpotReserved w.jackpotVault
      (epochs.insert (w.pool.currentEpochId + 1)
        (newEpoch (w.pool.currentEpochId + 1) startsAt endsAt)) := by
  have fresh : ¬ (newEpoch (w.pool.currentEpochId + 1) startsAt endsAt).holdsPrize := by
    simp [Epoch.holdsPrize, newEpoch]
  cases endCurrent_cases hend with
  | inl first =>
      obtain ⟨h0, rfl, rfl⟩ := first
      exact Reservation.create hi hnew fresh rfl
  | inr later =>
      obtain ⟨h0, previous, f, hp, hle, hf, rfl, rfl⟩ := later
      have hopen := (calendar.isOpen hp).mpr rfl
      have hold : ¬ previous.holdsPrize := by
        simp [Epoch.holdsPrize, hopen]
      have hz := hi.unset hp (.inl hopen)
      have hnone : (w.epochs.insert w.pool.currentEpochId
          { previous with status := .registering, registrationOpenedAt := w.clock }).lookup
          (w.pool.currentEpochId + 1) = none := by
        rw [lookup_insert_of_ne _ (Nat.succ_ne_self _)]
        exact hnew
      refine Reservation.create ?_ hnone fresh rfl
      refine Reservation.write hi hp ?_ hi.covered fun _ => hz
      rw [promisedTo_of_not hold, promisedTo_of_not (by simp [Epoch.holdsPrize])]

theorem effect_reservation {rt : Runtime} {w w' : World} {a : Action} (calendar : w.Calendar)
    (h : Effect rt w a w') (hi : w.Reservation) : w'.Reservation := by
  have covered := hi.covered
  cases h with
  | jackpotReceived hv => exact { hi with covered := Nat.le_add_right_of_le covered }
  | jackpotFunded hv => exact { hi with covered := Nat.le_add_right_of_le covered }
  | ticketsBought => exact { hi with covered := Nat.le_add_right_of_le covered }
  | houseSwept =>
      refine { hi with covered := ?_ }
      simp only [World.emit_pool, World.emit_jackpotVault]
      omega
  | reconfigured _ hr =>
      unfold World.Reservation
      rw [World.emit_pool, hr.jackpotReserved]
      exact hi
  | epochBegan hnew _ hend => exact began_reservation calendar hi hnew hend
  | registered he _ hs =>
      have unset := hi.unset he (.inr hs)
      refine Reservation.write hi he ?_ covered fun _ => unset
      rw [promisedTo_registering hs, promisedTo_registering (by exact hs)]
      rfl
  | closedUndrawn he hs =>
      refine Reservation.write hi he ?_ covered ?_
      · rw [promisedTo_registering hs]
        rfl
      · intro later
        cases later <;> contradiction
  | closedForDraw he hs =>
      refine Reservation.write hi he ?_ ?_ ?_
      · rw [promisedTo_registering hs]
        rfl
      · change w.pool.jackpotReserved + (w.jackpotVault - w.pool.jackpotReserved) ≤ w.jackpotVault
        omega
      · intro later
        cases later <;> contradiction
  | drawn he hs =>
      refine Reservation.write hi he ?_ covered ?_
      · rw [promisedTo_of_holds _ (.inl hs)]
        rfl
      · intro later
        cases later <;> contradiction
  | paidHouse he _ hs _ _ _ _ hpay hres =>
      refine Reservation.write hi he ?_ ?_ ?_
      · rw [promisedTo_of_holds _ (.inr hs)]
        exact Nat.sub_add_cancel hres
      · simp only [World.emit_pool, World.emit_jackpotVault]
        omega
      · intro later
        cases later <;> contradiction
  | paidPlayer he _ hs _ _ _ _ _ hpay hres =>
      refine Reservation.write hi he ?_ (Nat.sub_le_sub_right covered _) ?_
      · rw [promisedTo_of_holds _ (.inr hs)]
        exact Nat.sub_add_cancel hres
      · intro later
        cases later <;> contradiction
  | rolledOver he hs hres =>
      refine Reservation.write hi he ?_ (Nat.le_trans (Nat.sub_le ..) covered) ?_
      · cases hs with
        | inl unclosed =>
            rw [promisedTo_registering unclosed, World.emit_pool, hi.unset he (.inr unclosed)]
            rfl
        | inr holds =>
            rw [promisedTo_of_holds _ holds]
            exact Nat.sub_add_cancel hres
      · intro later
        cases later <;> contradiction
  | _ => exact hi

theorem reachable_reservation {rt : Runtime} {w : World} (h : Reachable rt w) : w.Reservation :=
  h.invariant created_reservation fun before hi hs =>
    effect_reservation (reachable_calendar before) (step_effect hs) hi

theorem payWinner_funded {w : World} {winner : Player} {owner : Pubkey} {amount : Nat}
    (covered : amount ≤ w.jackpotVault) :
    payWinner amount winner owner w ≠ .error (.token .insufficientFunds) := by
  intro h
  simp only [payWinner] at h
  split at h
  · simp only [payHouse, transferOut, bind_eq_error, checkedSub_eq_error, checkedSub_eq_ok] at h
    obtain ⟨short, -⟩ | ⟨_, ⟨-, rfl⟩, ⟨short, -⟩ | ⟨_, -, h⟩⟩ := h
    · omega
    · omega
    · cases h
  · simp only [payPlayer, transferOut, addU64, bind_eq_error, checkedSub_eq_error,
      checkedAdd_eq_error, pure_eq_error, ProgramError.token.injEq, reduceCtorEq, and_false,
      and_true, or_false, exists_false] at h
    obtain h | ⟨_, -, short⟩ := h
    · cases touch_eq_error h
    · exact short covered

theorem payout_funded {w : World} (hi : w.Reservation) {epochId : Nat} {owner : Pubkey} :
    payout epochId owner w ≠ .error (.token .insufficientFunds) := by
  intro h
  simp only [payout, subU, bind_eq_error, World.epoch_eq_error, World.player_eq_error,
    ensure_eq_error, checkedSub_eq_error, pure_eq_error, ensure_eq_ok, World.epoch_eq_ok,
    reduceCtorEq, and_false, false_or, or_false, exists_false, exists_const] at h
  obtain ⟨epoch, he, winner, -, hs, -, -, hpay⟩ := h
  have covered := Nat.le_trans (hi.promised_le he (.inr hs)) hi.covered
  exact payWinner_funded covered hpay

/-- The jackpot vault covers every prize still owed, and what follows for the
instructions that release, pay or sweep. -/
structure JackpotSafe (w : World) : Prop where
  reserved : w.pool.jackpotReserved = w.epochs.total promisedTo
  covered : w.pool.jackpotReserved ≤ w.jackpotVault
  /-- The subtraction a payout or a rollover makes does not underflow. -/
  released : ∀ id epoch, w.epochs.lookup id = some epoch →
    (epoch.status = .registering ∨ epoch.status = .drawing ∨ epoch.status = .drawn) →
    epoch.jackpotAmount ≤ w.pool.jackpotReserved
  /-- A payout never lacks the funds. -/
  payable : ∀ id owner, payout id owner w ≠ .error (.token .insufficientFunds)
  /-- A sweep leaves every promised prize behind. -/
  swept : ∀ admin w', sweepHouse admin w = .ok w' →
    w'.pool.jackpotReserved = w.pool.jackpotReserved ∧ w'.pool.jackpotReserved ≤ w'.jackpotVault

theorem jackpot_reservation {rt : Runtime} {w : World} (h : Reachable rt w) : JackpotSafe w := by
  have hi := reachable_reservation h
  refine ⟨hi.sum, hi.covered, ?_, fun _ _ => payout_funded hi, ?_⟩
  · intro id epoch he hs
    cases hs with
    | inl unclosed =>
        rw [hi.unset he (.inr unclosed)]
        exact Nat.zero_le _
    | inr holds => exact hi.promised_le he holds
  · intro admin w' hsweep
    have effect : Effect rt w (.sweepHouse admin) w' := sweepHouse_effect hsweep
    have after := effect_reservation (reachable_calendar h) effect hi
    cases effect with
    | houseSwept => exact ⟨rfl, after.covered⟩
    | reconfigured config => exact nomatch config

theorem jackpot_reservation_drawing : ∃ w, Reachable Demo.runtime w ∧
    w.pool.jackpotReserved = 500 ∧ JackpotSafe w := by
  obtain ⟨⟨history, w⟩, hrun, hcheck⟩ := exists_of_any
    (x := Demo.script [.setFeaturePause Demo.admin .jackpot false,
      .deposit (Demo.signer 3) (Demo.wallet (Demo.signer 3)) 100, .beginEpoch Demo.operator,
      .wait 1100, .beginEpoch Demo.operator, .register 1 ⟨3⟩,
      .fundJackpot (Demo.signer 3) (Demo.wallet (Demo.signer 3)) 500,
      .closeRegistration Demo.operator 1 ⟨9⟩ (List.replicate 32 0)])
    (p := fun r => r.2.pool.jackpotReserved = 500) (by decide +kernel)
  have reachable := (Demo.script_run hrun).reachable
  exact ⟨w, reachable, of_decide_eq_true hcheck, jackpot_reservation reachable⟩

end HexVault
