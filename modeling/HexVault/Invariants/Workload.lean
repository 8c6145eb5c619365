import HexVault.Invariants.Enabled
import HexVault.Invariants.Grid
import HexVault.Invariants.Parameters
import HexVault.Invariants.Registration
import HexVault.Lib.Potentials

/-!
The work a pool has left for whoever cranks it, counted in instructions: what the round in
play still takes, the turn of an epoch, the registrations and the draw behind it, a
withdrawal asked for, a Position, a round to close. Each instruction of the crank does at
least one of them, and what puts new ones on the list is told by the charge of an action.
-/

namespace HexVault

open Fallible Finmap Runs

/-- Positions are still taken on the round. -/
def Round.taking (round : Round) (pool : Pool) (now : Int) : Prop :=
  round.status = .open ∧ now < round.endsAt - pool.closeBuffer

instance (round : Round) (pool : Pool) (now : Int) : Decidable (round.taking pool now) :=
  inferInstanceAs (Decidable (_ ∧ _))

/-- A request of randomness and a settlement, or the settlement alone. -/
def RoundStatus.work : RoundStatus → Nat
  | .open => 2
  | .requested => 1
  | .settled | .forfeited | .voided => 0

/-- The close of registration, the draw and the payout, or the last ones of them. -/
def EpochStatus.work : EpochStatus → Nat
  | .registering => 3
  | .drawing => 2
  | .drawn => 1
  | .open | .paid | .rolledOver => 0

/-- What the place of the round in play takes: nothing while it takes Positions, else its end
and two instructions for the round after it, opened and closed in its turn. -/
def World.slotWork (w : World) : Nat :=
  match w.rounds.lookup w.pool.openRoundId with
  | none => 2
  | some round => if round.taking w.pool w.clock then 0 else round.status.work + 2

/-- The current epoch has ended, or none has begun. -/
def World.turning (w : World) (now : Int) : Prop :=
  w.pool.currentEpochId = 0 ∨ w.pool.currentEpochEndsAt ≤ now

instance (w : World) (now : Int) : Decidable (w.turning now) :=
  inferInstanceAs (Decidable (_ ∨ _))

/-- The Players of the pool, the House with them. -/
def World.seats (w : World) : Nat := total (fun _ _ => 1) w.players

/-- A new epoch: its begin, the three steps of the one before and everybody's registration. -/
def World.turnWork (w : World) : Nat := if w.turning w.clock then w.seats + 4 else 0

def Player.unregistered (previous : Nat) (_ : Pubkey) (player : Player) : Nat :=
  if player.regEpoch = previous then 0 else 1

def Player.owed (_ : Pubkey) (player : Player) : Nat :=
  if player.pendingWithdraw = 0 then 0 else 1

def World.registrationWork (w : World) : Nat :=
  total (Player.unregistered (w.pool.currentEpochId - 1)) w.players

def World.withdrawalWork (w : World) : Nat := total Player.owed w.players

def World.epochWork (w : World) : Nat := total (fun _ epoch => epoch.status.work) w.epochs

/-- The parts of the work, one for each kind of account. -/
inductive Part where
  | slot | turn | epochs | registrations | withdrawals | rounds | positions
  deriving DecidableEq, Repr

def Part.work (w : World) : Part → Nat
  | .slot => w.slotWork
  | .turn => w.turnWork
  | .epochs => w.epochWork
  | .registrations => w.registrationWork
  | .withdrawals => w.withdrawalWork
  | .rounds => total (fun _ _ => 1) w.rounds
  | .positions => total (fun _ _ => 1) w.positions

def Part.all : List Part :=
  [.slot, .turn, .epochs, .registrations, .withdrawals, .rounds, .positions]

def World.work (w : World) : Nat := (Part.all.map (Part.work w)).sum

/-- The round in play takes Positions now and will take none at an instant. -/
def World.closesBy (w : World) (instant : Int) : Bool :=
  (w.rounds.lookup w.pool.openRoundId).any fun round =>
    decide (round.taking w.pool w.clock) && !decide (round.taking w.pool instant)

/-- The current epoch runs now and will be over at an instant. -/
def World.turnsBy (w : World) (instant : Int) : Bool :=
  !decide (w.turning w.clock) && decide (w.turning instant)

/-- One for an owner who holds no account yet. -/
def World.newcomer (w : World) (owner : Pubkey) : Nat :=
  (w.players.lookup owner).elim 1 fun _ => 0

/-- The Player still has an interval to take on the epoch's line. -/
def World.weighs (w : World) (epochId : Nat) (owner : Pubkey) : Bool :=
  match w.epochs.lookup epochId, w.players.lookup owner with
  | some epoch, some player => match weightAndPrincipalSeconds epoch player with
    | .ok (weight, _) => decide (0 < weight)
    | .error _ => false
  | _, _ => false

/-- The part of the work an action does. -/
def Part.done (w : World) : Part → Action → Nat
  | .slot, .createRound .. => 2
  | .slot, .requestRoundRandomness .. | .slot, .settleRound .. | .slot, .voidRound .. => 1
  | .turn, .beginEpoch _ => w.seats + 4
  | .epochs, .closeRegistration .. | .epochs, .draw .. | .epochs, .payout ..
  | .epochs, .rolloverEpoch .. => 1
  | .registrations, .register epochId owner => if w.weighs epochId owner then 1 else 0
  | .withdrawals, .processWithdraw .. => 1
  | .rounds, .closeRound .. => 1
  | .positions, .settlePosition .. => 1
  | _, _ => 0

/-- The part of the work an action leaves to be done. -/
def Part.added (w : World) : Part → Action → Nat
  | .slot, .wait instant => if w.closesBy instant then 4 else 0
  | .slot, .setParams .. => 4
  | .slot, .createRound _ _ endsAt => if w.clock < endsAt - w.pool.closeBuffer then 0 else 4
  | .turn, .wait instant => if w.turnsBy instant then w.seats + 4 else 0
  | .turn, .deposit owner .. => w.newcomer owner.key
  | .epochs, .beginEpoch _ => 3
  | .registrations, .beginEpoch _ => w.seats
  | .registrations, .deposit owner .. => w.newcomer owner.key
  | .withdrawals, .requestWithdraw .. => 1
  | .rounds, .createRound .. => 1
  | .positions, .buyPosition .. => 1
  | _, _ => 0

/-- What is charged to an action: a round that closes, an epoch that ends, a depositor, a
request to withdraw, a Position, and what a change of parameters may close. -/
def Action.charge (w : World) : Action → Nat
  | .wait instant => (if w.closesBy instant then 4 else 0) +
      if w.turnsBy instant then w.seats + 4 else 0
  | .setParams .. => 4
  | .deposit owner .. => 2 * w.newcomer owner.key
  | .requestWithdraw .. => 1
  | .buyPosition .. => 1
  | .createRound _ _ endsAt => if w.clock < endsAt - w.pool.closeBuffer then 0 else 4
  | _ => 0

/-- The instructions of the crank; a registration of no weight is none of its work. -/
def Action.crank (w : World) : Action → Nat
  | .register epochId owner => if w.weighs epochId owner then 1 else 0
  | .processWithdraw .. | .createRound .. | .requestRoundRandomness .. | .settleRound ..
  | .settlePosition .. | .voidRound .. | .closeRound .. | .beginEpoch .. | .closeRegistration ..
  | .draw .. | .payout .. | .rolloverEpoch .. => 1
  | _ => 0

theorem crank_done (w : World) (a : Action) :
    a.crank w + (Part.all.map fun part => part.added w a).sum ≤
      (Part.all.map fun part => part.done w a).sum + a.charge w := by
  cases a <;> simp [Action.crank, Action.charge, Part.all, Part.added, Part.done] <;> omega

section Counts
variable {κ : Type} {α : Type} [DecidableEq κ] {s : Finmap fun _ : κ => α} {k : κ} {x y : α}

theorem count_fresh (free : s.lookup k = none) :
    total (fun _ _ => 1) (s.insert k x) = total (fun _ _ => 1) s + 1 := by
  rw [total_insert, total_erase_of_notMem _ free, Nat.add_comm]

theorem count_kept (h : s.lookup k = some y) :
    total (fun _ _ => 1) (s.insert k x) = total (fun _ _ => 1) s :=
  total_insert_of_eq h rfl

theorem count_erased (h : s.lookup k = some y) :
    total (fun _ _ => 1) (s.erase k) + 1 = total (fun _ _ => 1) s := by
  rw [total_erase _ h, Nat.add_comm]

end Counts

section Accounts
variable {rt : Runtime} {w w' : World} {a : Action}

theorem done_reconfigured {part : Part} (ha : a.reconfigures = true) : part.done w a = 0 := by
  cases a with
  | setParams | setPause | setFeaturePause | shutdown | setOperator | proposeAdmin
  | acceptAdmin => cases part <;> rfl
  | _ => cases ha

theorem rounds_step (h : Effect rt w a w') : Part.rounds.work w' + Part.rounds.done w a ≤
    Part.rounds.work w + Part.rounds.added w a := by
  have kept : ∀ {id : Nat} {r r' : Round}, w.rounds.lookup id = some r →
      total (fun _ _ => 1) (w.rounds.insert id r') + 0 ≤ total (fun _ _ => 1) w.rounds + 0 :=
    fun hr => Nat.le_of_eq (count_kept hr)
  cases h with
  | reconfigured ha =>
      rw [done_reconfigured ha]
      exact Nat.le_add_right _ _
  | roundCreated free =>
      simp only [Part.work, Part.done, Part.added, World.emit_rounds, count_fresh free]
      exact Nat.le_refl _
  | positionBought _ hr => exact kept hr
  | roundRequested hr => exact kept hr
  | roundSettled hr => exact kept hr
  | positionSettled hr => exact kept hr
  | roundVoided hr => exact kept hr
  | roundClosed hr =>
      simp only [Part.work, Part.done, Part.added, World.emit_rounds, count_erased hr]
      exact Nat.le_refl _
  | _ => exact Nat.le_refl _

theorem positions_step (h : Effect rt w a w') :
    Part.positions.work w' + Part.positions.done w a ≤
      Part.positions.work w + Part.positions.added w a := by
  cases h with
  | reconfigured ha =>
      rw [done_reconfigured ha]
      exact Nat.le_add_right _ _
  | positionBought _ _ free =>
      simp only [Part.work, Part.done, Part.added, World.emit_positions, count_fresh free]
      exact Nat.le_refl _
  | positionSettled _ _ hx =>
      simp only [Part.work, Part.done, Part.added, World.emit_positions, count_erased hx]
      exact Nat.le_refl _
  | _ => exact Nat.le_refl _

/-- An epoch one step or more further on. -/
theorem epochWork_write {id : Nat} {e e' : Epoch} {before : EpochStatus} (after : EpochStatus)
    (he : w.epochs.lookup id = some e) (was : e.status = before) (now : e'.status = after)
    (fewer : after.work + 1 ≤ before.work) :
    total (fun _ (epoch : Epoch) => epoch.status.work) (w.epochs.insert id e') + 1 ≤
      total (fun _ (epoch : Epoch) => epoch.status.work) w.epochs := by
  have swapped := total_insert_add (fun _ (epoch : Epoch) => epoch.status.work) he e'
  rw [was, now] at swapped
  omega

/-- The epoch that ended is left to be closed, drawn and paid. -/
theorem epochWork_began {startsAt : Int} {epochs : Finmap fun _ : Nat => Epoch} {id : Nat}
    {next : Epoch} (free : w.epochs.lookup id = none) (hid : id ≠ w.pool.currentEpochId)
    (opened : next.status = .open) (h : endCurrent w = .ok (startsAt, epochs)) :
    total (fun _ (epoch : Epoch) => epoch.status.work) (epochs.insert id next) ≤
      total (fun _ (epoch : Epoch) => epoch.status.work) w.epochs + 3 := by
  have added : ∀ {before : Finmap fun _ : Nat => Epoch}, before.lookup id = none →
      total (fun _ (epoch : Epoch) => epoch.status.work) (before.insert id next) =
        total (fun _ (epoch : Epoch) => epoch.status.work) before := by
    intro before absent
    rw [total_insert, total_erase_of_notMem _ absent, opened, EpochStatus.work, Nat.zero_add]
  cases endCurrent_cases h with
  | inl first =>
      obtain ⟨-, -, rfl⟩ := first
      rw [added free]
      exact Nat.le_add_right _ 3
  | inr later =>
      obtain ⟨-, previous, floor, hp, -, -, -, rfl⟩ := later
      rw [added ((lookup_insert_of_ne _ hid).trans free)]
      have swapped := total_insert_add (fun _ (epoch : Epoch) => epoch.status.work) hp
        { previous with status := .registering, registrationOpenedAt := w.clock }
      have three : EpochStatus.registering.work = 3 := rfl
      simp only [three] at swapped
      omega

theorem epochs_step (h : Effect rt w a w') : Part.epochs.work w' + Part.epochs.done w a ≤
    Part.epochs.work w + Part.epochs.added w a := by
  have kept : ∀ {id : Nat} {e e' : Epoch}, w.epochs.lookup id = some e → e'.status = e.status →
      total (fun _ (epoch : Epoch) => epoch.status.work) (w.epochs.insert id e') + 0 ≤
        total (fun _ (epoch : Epoch) => epoch.status.work) w.epochs + 0 := by
    intro id e e' he same
    exact Nat.add_le_add_right
      (Nat.le_of_eq (total_insert_of_eq he (congrArg EpochStatus.work same))) 0
  cases h with
  | reconfigured ha =>
      rw [done_reconfigured ha]
      exact Nat.le_add_right _ _
  | epochBegan free _ hend =>
      exact epochWork_began free (Nat.ne_of_gt (Nat.lt_succ_self _)) rfl hend
  | registered he => exact kept he rfl
  | closedUndrawn he registering => exact epochWork_write .rolledOver he registering rfl (by decide)
  | closedForDraw he registering => exact epochWork_write .drawing he registering rfl (by decide)
  | drawn he drawing => exact epochWork_write .drawn he drawing rfl (by decide)
  | paidHouse he _ drawn => exact epochWork_write .paid he drawn rfl (by decide)
  | paidPlayer he _ drawn => exact epochWork_write .paid he drawn rfl (by decide)
  | rolledOver he stuck =>
      rcases stuck with registering | drawing | drawn
      · exact epochWork_write .rolledOver he registering rfl (by decide)
      · exact epochWork_write .rolledOver he drawing rfl (by decide)
      · exact epochWork_write .rolledOver he drawn rfl (by decide)
  | _ => exact Nat.le_refl _

end Accounts

/-- The instructions that do a Player's part of the work. -/
def Action.serves : Action → Bool
  | .register .. | .processWithdraw .. => true
  | _ => false

/-- What an action does to who is registered and who is owed. -/
inductive Marked (w : World) : Action → (Finmap fun _ : Pubkey => Player) → Prop
  | same {a : Action} : a.serves = false → Marked w a w.players
  | kept {a : Action} {owner : Pubkey} {p q : Player} : a.serves = false →
      w.players.lookup owner = some p → q.regEpoch = p.regEpoch →
      q.pendingWithdraw = p.pendingWithdraw → Marked w a (w.players.insert owner q)
  | joined {owner : Signer} {token : TokenAccount} {amount : Nat} {q : Player} :
      w.players.lookup owner.key = none → q.pendingWithdraw = 0 →
      Marked w (.deposit owner token amount) (w.players.insert owner.key q)
  | asked {owner : Signer} {amount : Nat} {p q : Player} :
      w.players.lookup owner.key = some p → q.regEpoch = p.regEpoch →
      Marked w (.requestWithdraw owner amount) (w.players.insert owner.key q)
  | paid {owner : Pubkey} {token : TokenAccount} {p q : Player} :
      w.players.lookup owner = some p → 0 < p.pendingWithdraw → q.regEpoch = p.regEpoch →
      q.pendingWithdraw = 0 → Marked w (.processWithdraw owner token) (w.players.insert owner q)
  | left {owner : Pubkey} {token : TokenAccount} {p q : Player} :
      w.players.lookup owner = some p → q.regEpoch = p.regEpoch → q.pendingWithdraw = 0 →
      Marked w (.emergencyWithdraw owner token) (w.players.insert owner q)
  | passed {id : Nat} {owner : Pubkey} {p q : Player} : w.players.lookup owner = some p →
      w.weighs id owner = false → q.regEpoch = p.regEpoch →
      q.pendingWithdraw = p.pendingWithdraw → Marked w (.register id owner)
        (w.players.insert owner q)
  | registered {id : Nat} {owner : Pubkey} {p q : Player} : w.players.lookup owner = some p →
      p.regEpoch ≠ w.pool.currentEpochId - 1 → q.regEpoch = w.pool.currentEpochId - 1 →
      q.pendingWithdraw = p.pendingWithdraw → Marked w (.register id owner)
        (w.players.insert owner q)

section Players
variable {rt : Runtime} {w w' : World} {a : Action}

theorem weighs_of {id : Nat} {owner : Pubkey} {epoch : Epoch} {player : Player}
    {weight ps : Nat} (he : w.epochs.lookup id = some epoch)
    (hp : w.players.lookup owner = some player)
    (hw : weightAndPrincipalSeconds epoch player = .ok (weight, ps)) :
    w.weighs id owner = decide (0 < weight) := by
  simp [World.weighs, he, hp, hw]

theorem processWithdraw_owed {owner : Pubkey} {token : TokenAccount} {p : Player}
    (h : processWithdraw owner token w = .ok w') (hp : w.players.lookup owner = some p) :
    0 < p.pendingWithdraw := by
  simp only [processWithdraw, bind_eq_ok, World.player_eq_ok, ensure_eq_ok, exists_const] at h
  obtain ⟨q, hq, _, -, owed, -⟩ := h
  obtain rfl := Option.some.inj (hp.symm.trans hq)
  exact owed

theorem step_marked (owned : Owned w.players) (h : Step rt w a w') : Marked w a w'.players := by
  cases step_effect h with
  | reconfigured ha =>
      refine .same ?_
      cases a with
      | setParams | setPause | setFeaturePause | shutdown | setOperator | proposeAdmin
      | acceptAdmin => rfl
      | _ => cases ha
  | @deposited owner _ _ player _ ht =>
      have same := touch_sameHoldings ht
      cases hp : w.players.lookup owner.key with
      | none =>
          rw [hp, Option.getD_none, initIfFresh_zeroed] at same
          exact .joined hp same.pendingWithdraw
      | some p =>
          rw [hp, Option.getD_some, Player.initIfFresh, if_pos (owned hp).2] at same
          exact .kept rfl hp same.regEpoch same.pendingWithdraw
  | withdrawRequested ha ht => exact .asked ha (touch_sameHoldings ht).regEpoch
  | withdrawn ha => exact .paid ha (processWithdraw_owed h ha) rfl rfl
  | emergencyWithdrawn ha ht => exact .left ha (touch_sameHoldings ht).regEpoch rfl
  | ticketsBought ha ht _ _ _ hc =>
      have same := touch_sameHoldings ht
      rw [World.emit_players]
      exact .kept rfl ha ((hc.sameSlot same).regEpoch)
        (hc.pendingWithdraw.trans same.pendingWithdraw)
  | ticketsGranted ha ht hc =>
      have same := touch_sameHoldings ht
      exact .kept rfl ha ((hc.sameSlot same).regEpoch)
        (hc.pendingWithdraw.trans same.pendingWithdraw)
  | positionBought ha _ _ ht =>
      have same := touch_sameHoldings ht
      exact .kept rfl ha same.regEpoch same.pendingWithdraw
  | roundSettled _ ha _ _ share =>
      have same := share.sameHoldings
      exact .kept rfl ha same.regEpoch same.pendingWithdraw
  | positionSettled _ ha _ ht =>
      have same := touch_sameHoldings ht
      exact .kept rfl ha same.regEpoch same.pendingWithdraw
  | registeredNothing he ha _ _ _ _ hw hq =>
      have same := hq.sameHoldings
      exact .passed ha (weighs_of he ha hw) same.regEpoch same.pendingWithdraw
  | registered _ ha _ _ hid free _ _ hq =>
      exact .registered ha (hid ▸ free) hid hq.sameHoldings.pendingWithdraw
  | paidPlayer _ ha _ _ _ _ _ ht =>
      have same := touch_sameHoldings ht
      exact .kept rfl ha same.regEpoch same.pendingWithdraw
  | _ => exact .same rfl

/-- The seats of the pool: one more for a first deposit. -/
theorem Marked.seats {players : Finmap fun _ : Pubkey => Player} (h : Marked w a players) :
    total (fun _ _ => 1) players ≤ w.seats + Part.turn.added w a := by
  cases h with
  | same => exact Nat.le_add_right _ _
  | @joined owner _ _ q free =>
      simp only [Part.added, World.newcomer, free, Option.elim_none, count_fresh free]
      exact Nat.le_refl _
  | kept _ hp => exact Nat.le_of_eq (count_kept hp) |>.trans (Nat.le_add_right _ _)
  | asked hp => exact Nat.le_of_eq (count_kept hp) |>.trans (Nat.le_add_right _ _)
  | paid hp => exact Nat.le_of_eq (count_kept hp) |>.trans (Nat.le_add_right _ _)
  | left hp => exact Nat.le_of_eq (count_kept hp) |>.trans (Nat.le_add_right _ _)
  | passed hp => exact Nat.le_of_eq (count_kept hp) |>.trans (Nat.le_add_right _ _)
  | registered hp => exact Nat.le_of_eq (count_kept hp) |>.trans (Nat.le_add_right _ _)

theorem done_of_serves (w : World) (h : a.serves = false) :
    Part.registrations.done w a = 0 ∧ Part.withdrawals.done w a = 0 := by
  cases a with
  | register | processWithdraw => cases h
  | _ => exact ⟨rfl, rfl⟩

theorem owed_le_one (owner : Pubkey) (p : Player) : p.owed owner ≤ 1 := by
  rw [Player.owed]
  split
  · exact Nat.zero_le 1
  · exact Nat.le_refl 1

theorem unregistered_le_one (previous : Nat) (owner : Pubkey) (p : Player) :
    p.unregistered previous owner ≤ 1 := by
  rw [Player.unregistered]
  split
  · exact Nat.zero_le 1
  · exact Nat.le_refl 1

theorem owed_same {owner : Pubkey} {p q : Player} (same : q.pendingWithdraw = p.pendingWithdraw) :
    q.owed owner = p.owed owner := by
  rw [Player.owed, Player.owed, same]

theorem unregistered_same {previous : Nat} {owner : Pubkey} {p q : Player}
    (same : q.regEpoch = p.regEpoch) :
    q.unregistered previous owner = p.unregistered previous owner := by
  rw [Player.unregistered, Player.unregistered, same]

/-- Who is owed: one more for a request, one fewer for a payment. -/
theorem Marked.owed {players : Finmap fun _ : Pubkey => Player} (h : Marked w a players) :
    total Player.owed players + Part.withdrawals.done w a ≤
      w.withdrawalWork + Part.withdrawals.added w a := by
  cases h with
  | same aside =>
      rw [(done_of_serves w aside).2]
      exact Nat.le_add_right _ _
  | kept aside hp _ same =>
      rw [(done_of_serves w aside).2, total_insert_of_eq hp (owed_same same)]
      exact Nat.le_add_right _ _
  | @joined owner _ _ q free nothing =>
      have none : q.owed owner.key = 0 := if_pos nothing
      rw [total_insert, total_erase_of_notMem _ free, none, Nat.zero_add]
      exact Nat.le_refl _
  | @asked owner _ p q hp _ =>
      have swapped := total_insert_add Player.owed hp q
      have most := owed_le_one owner.key q
      simp only [Part.done, Part.added, World.withdrawalWork]
      omega
  | @paid owner _ p q hp owed _ nothing =>
      have swapped := total_insert_add Player.owed hp q
      have one : p.owed owner = 1 := if_neg (Nat.ne_of_gt owed)
      have none : q.owed owner = 0 := if_pos nothing
      simp only [Part.done, Part.added, World.withdrawalWork]
      omega
  | @left owner _ p q hp _ nothing =>
      have swapped := total_insert_add Player.owed hp q
      have none : q.owed owner = 0 := if_pos nothing
      simp only [Part.done, Part.added, World.withdrawalWork]
      omega
  | passed hp _ _ same =>
      rw [total_insert_of_eq hp (owed_same same)]
      exact Nat.le_refl _
  | registered hp _ _ same =>
      rw [total_insert_of_eq hp (owed_same same)]
      exact Nat.le_refl _

/-- Who is still to be registered for the epoch before the current one: one more for a first
deposit, one fewer for a registration of weight. -/
theorem Marked.unregistered {players : Finmap fun _ : Pubkey => Player} (h : Marked w a players) :
    total (Player.unregistered (w.pool.currentEpochId - 1)) players +
        Part.registrations.done w a ≤ w.registrationWork + Part.registrations.added w a := by
  cases h with
  | same aside =>
      rw [(done_of_serves w aside).1]
      exact Nat.le_add_right _ _
  | kept aside hp same =>
      rw [(done_of_serves w aside).1, total_insert_of_eq hp (unregistered_same same)]
      exact Nat.le_add_right _ _
  | @joined owner _ _ q free =>
      have most := unregistered_le_one (w.pool.currentEpochId - 1) owner.key q
      simp only [Part.done, Part.added, World.newcomer, free, Option.elim_none, total_insert,
        total_erase_of_notMem _ free, World.registrationWork]
      omega
  | asked hp same =>
      rw [total_insert_of_eq hp (unregistered_same same)]
      exact Nat.le_refl _
  | paid hp _ same =>
      rw [total_insert_of_eq hp (unregistered_same same)]
      exact Nat.le_refl _
  | left hp same =>
      rw [total_insert_of_eq hp (unregistered_same same)]
      exact Nat.le_refl _
  | passed hp nothing same =>
      rw [total_insert_of_eq hp (unregistered_same same), Part.done, nothing]
      exact Nat.le_refl _
  | @registered id owner p q hp free held =>
      have swapped := total_insert_add (Player.unregistered (w.pool.currentEpochId - 1)) hp q
      have one : p.unregistered (w.pool.currentEpochId - 1) owner = 1 := if_neg free
      have none : q.unregistered (w.pool.currentEpochId - 1) owner = 0 := if_pos held
      simp only [Part.done, Part.added, World.registrationWork]
      split <;> omega

end Players

section Turns
variable {rt : Runtime} {w w' : World} {a : Action}

theorem withdrawals_step (reachable : Reachable rt w) (h : Step rt w a w') :
    Part.withdrawals.work w' + Part.withdrawals.done w a ≤
      Part.withdrawals.work w + Part.withdrawals.added w a :=
  (step_marked (reachable_accounts reachable).owned h).owed

theorem registrations_step (reachable : Reachable rt w) (h : Step rt w a w') :
    Part.registrations.work w' + Part.registrations.done w a ≤
      Part.registrations.work w + Part.registrations.added w a := by
  have marked := step_marked (reachable_accounts reachable).owned h
  rw [Part.work, World.registrationWork]
  have effect := step_effect h
  cases effect_span (reachable_inRange reachable) (reachable_calendar reachable) effect with
  | inl same =>
      rw [same.2.currentEpochId]
      exact marked.unregistered
  | inr began =>
      obtain ⟨⟨operator, rfl⟩, began⟩ := began
      have most := total_mono (s := w.players) fun owner p _ =>
        unregistered_le_one (w'.pool.currentEpochId - 1) owner p
      rw [began.players]
      exact most.trans (Nat.le_add_left _ _)

theorem beginEpoch_turning {operator : Signer} (reachable : Reachable rt w)
    (h : beginEpoch operator w = .ok w') : w.turning w.clock := by
  obtain ⟨-, -, -, -, -, next, ended, -⟩ := beginEpoch_returns.mp ⟨w', h⟩
  cases endCurrent_cases ended with
  | inl first => exact .inl first.1
  | inr later =>
      obtain ⟨-, previous, _, hp, past, -⟩ := later
      have calendar := reachable_calendar reachable
      obtain ⟨x, hx, -, bound⟩ := calendar.current (calendar.keyed hp).2.1
      obtain rfl := Option.some.inj (hx.symm.trans hp)
      exact .inr (bound ▸ past)

/-- An epoch is begun at its turn, and the turn is over with it. -/
theorem turnWork_began {operator : Signer} (reachable : Reachable rt w)
    (h : Step rt w (.beginEpoch operator) w') (began : Began w w') :
    w.turnWork = w.seats + 4 ∧ w'.turnWork = 0 := by
  refine ⟨if_pos (beginEpoch_turning reachable h), if_neg ?_⟩
  rw [World.turning, began.currentEpochId, began.clock]
  have ahead := began.ends
  omega

theorem turn_step (reachable : Reachable rt w) (h : Step rt w a w') :
    Part.turn.work w' + Part.turn.done w a ≤ Part.turn.work w + Part.turn.added w a := by
  have seats := (step_marked (reachable_accounts reachable).owned h).seats
  have effect := step_effect h
  rw [Part.work, Part.work]
  cases effect_span (reachable_inRange reachable) (reachable_calendar reachable) effect with
  | inr began =>
      obtain ⟨⟨operator, rfl⟩, began⟩ := began
      obtain ⟨before, after⟩ := turnWork_began reachable h began
      rw [before, after]
      exact Nat.le_of_eq (Nat.zero_add _)
  | inl same =>
      obtain ⟨stays, same⟩ := same
      have nothing : Part.turn.done w a = 0 := by
        cases a with
        | beginEpoch operator => exact absurd rfl (stays operator)
        | _ => rfl
      rw [nothing, Nat.add_zero]
      cases effect_moment effect with
      | inl still =>
          have turning : w'.turning w'.clock ↔ w.turning w.clock := by
            rw [World.turning, World.turning, same.currentEpochId, same.currentEpochEndsAt, still]
          rw [World.turnWork, World.turnWork]
          by_cases now : w.turning w.clock
          · rw [if_pos now, if_pos (turning.mpr now)]
            change total _ w'.players + 4 ≤ _
            omega
          · rw [if_neg (turning.not.mpr now)]
            exact Nat.zero_le _
      | inr passed =>
          obtain ⟨t, -, rfl, rfl⟩ := passed
          change (if w.turning t then w.seats + 4 else 0) ≤
            (if w.turning w.clock then w.seats + 4 else 0) +
              if w.turnsBy t = true then w.seats + 4 else 0
          by_cases now : w.turning w.clock
          · rw [if_pos now]
            split
            · exact Nat.le_add_right _ _
            · exact Nat.zero_le _
          · by_cases later : w.turning t
            · have turns : w.turnsBy t = true := by simp [World.turnsBy, now, later]
              rw [if_pos later, if_pos turns]
              exact Nat.le_add_left _ _
            · rw [if_neg later]
              exact Nat.zero_le _

end Turns

section Slot
variable {rt : Runtime} {w w' : World} {a : Action} {id : Nat} {r r' : Round}

theorem slotWork_of (h : w.rounds.lookup w.pool.openRoundId = some r) :
    w.slotWork = if r.taking w.pool w.clock then 0 else r.status.work + 2 := by
  rw [World.slotWork, h]

theorem slotWork_idle (live : w.Live) (idle : w.pool.openRoundId = 0) : w.slotWork = 2 := by
  have none : w.rounds.lookup w.pool.openRoundId = none := by
    refine Option.eq_none_iff_forall_ne_some.mpr fun r hr => ?_
    have positive := (live.keyed hr).2
    omega
  rw [World.slotWork, none]

theorem slotWork_le (w : World) : w.slotWork ≤ 4 := by
  rw [World.slotWork]
  split
  · decide
  · rename_i r _
    split
    · exact Nat.zero_le 4
    · cases r.status <;> decide

/-- What the place of the round in play is read off. -/
theorem slotWork_congr (opened : w'.pool.openRoundId = w.pool.openRoundId)
    (buffer : w'.pool.closeBuffer = w.pool.closeBuffer) (clock : w'.clock = w.clock)
    (rounds : (w'.rounds.lookup w.pool.openRoundId).map (fun r => (r.status, r.endsAt)) =
      (w.rounds.lookup w.pool.openRoundId).map fun r => (r.status, r.endsAt)) :
    w'.slotWork = w.slotWork := by
  rw [World.slotWork, World.slotWork, opened]
  cases h : w.rounds.lookup w.pool.openRoundId with
  | none =>
      rw [h, Option.map_none, Option.map_eq_none_iff] at rounds
      rw [rounds]
  | some r =>
      rw [h, Option.map_some, Option.map_eq_some_iff] at rounds
      obtain ⟨r', h', same⟩ := rounds
      obtain ⟨status, ends⟩ := Prod.mk.inj same
      have taking : r'.taking w'.pool w'.clock ↔ r.taking w.pool w.clock := by
        rw [Round.taking, Round.taking, status, ends, buffer, clock]
      rw [h']
      exact if_congr taking rfl (congrArg (·.work + 2) status)

/-- A round rewritten with its status and its end as they were. -/
theorem slotWork_write (hr : w.rounds.lookup id = some r) (status : r'.status = r.status)
    (ends : r'.endsAt = r.endsAt) : ((w.rounds.insert id r').lookup w.pool.openRoundId).map
      (fun r => (r.status, r.endsAt)) =
        (w.rounds.lookup w.pool.openRoundId).map fun r => (r.status, r.endsAt) := by
  by_cases this : w.pool.openRoundId = id
  · rw [this, lookup_insert, hr, Option.map_some, Option.map_some, status, ends]
  · rw [lookup_insert_of_ne _ this]

theorem Round.taking.earlier {pool : Pool} {now later : Int} (taking : r.taking pool later)
    (h : now ≤ later) : r.taking pool now := ⟨taking.1, Int.lt_of_le_of_lt h taking.2⟩

theorem slotWork_waited (w : World) {t : Int} (h : w.clock ≤ t) :
    ({ w with clock := t } : World).slotWork ≤
      w.slotWork + if w.closesBy t = true then 4 else 0 := by
  cases hr : w.rounds.lookup w.pool.openRoundId with
  | none => simp [World.slotWork, hr]
  | some r =>
      by_cases now : r.taking w.pool w.clock
      · by_cases later : r.taking w.pool t
        · simp [World.slotWork, hr, now, later]
        · have closes : w.closesBy t = true := by simp [World.closesBy, hr, now, later]
          rw [if_pos closes]
          exact (slotWork_le _).trans (Nat.le_add_left _ _)
      · have later : ¬ r.taking w.pool t := fun taking => now (taking.earlier h)
        simp [World.slotWork, hr, now, later]

/-- The round in play, if it is named, is the only one unfinished. -/
theorem slot_named (live : w.Live) (hr : w.rounds.lookup id = some r)
    (unfinished : ¬ isFinished r.status) :
    w.rounds.lookup w.pool.openRoundId = some r := by
  rw [live.only hr unfinished]
  exact hr

/-- A round nobody takes Positions on any more. -/
theorem slotWork_ending (live : w.Live) (hr : w.rounds.lookup id = some r)
    (unfinished : ¬ isFinished r.status) (late : ¬ r.taking w.pool w.clock) :
    w.slotWork = r.status.work + 2 := by
  rw [slotWork_of (slot_named live hr unfinished), if_neg late]

theorem voidRound_late {account : AccountInfo} (reachable : Reachable rt w)
    (h : voidRound rt id account w = .ok w') (hr : w.rounds.lookup id = some r) :
    ¬ r.taking w.pool w.clock := by
  intro taking
  obtain ⟨x, hx, ⟨_, check⟩, -⟩ := voidRound_returns.mp ⟨w', h⟩
  obtain rfl := Option.some.inj (hr.symm.trans hx)
  simp only [checkVoidable, taking.1, bind_eq_ok, addI64_eq_ok, ensure_eq_ok] at check
  obtain ⟨_, ⟨-, rfl⟩, late⟩ := check
  have range := reachable_inRange reachable
  have timeout : 0 ≤ w.pool.vrfTimeout := Int.le_trans (by decide) range.vrfTimeout
  have buffer := range.closeBuffer
  have before := taking.2
  omega

theorem slot_step (reachable : Reachable rt w) (h : Step rt w a w') :
    Part.slot.work w' + Part.slot.done w a ≤ Part.slot.work w + Part.slot.added w a := by
  have live := reachable_live reachable
  have live' := reachable_live (reachable.next h)
  have kept : w'.slotWork = w.slotWork → w'.slotWork + 0 ≤ w.slotWork + 0 := fun same =>
    Nat.le_of_eq (congrArg (· + 0) same)
  cases step_effect h with
  | @waited t later => exact slotWork_waited w later
  | reconfigured ha hr =>
      cases hset : a.setsParams with
      | true =>
          cases a with
          | setParams => exact (slotWork_le _).trans (Nat.le_add_left _ _)
          | _ => cases hset
      | false =>
          have buffer := congrArg Params.closeBuffer (step_sameParams h hset)
          have same := slotWork_congr hr.openRoundId buffer rfl rfl
          rw [done_reconfigured ha]
          exact (kept same).trans (Nat.le_add_right _ _)
  | @roundCreated operator startsAt endsAt =>
      obtain ⟨-, accepted⟩ := createRound_step.mp h
      obtain ⟨-, -, -, -, -, free, -⟩ := createRound_returns.mp ⟨_, accepted⟩
      have before := slotWork_idle live free
      refine Nat.le_trans (Nat.add_le_add_right (Nat.le_of_eq (slotWork_of (lookup_insert _))) 2) ?_
      change _ ≤ w.slotWork + if w.clock < endsAt - w.pool.closeBuffer then 0 else 4
      rw [before]
      by_cases early : w.clock < endsAt - w.pool.closeBuffer
      · rw [if_pos ⟨rfl, early⟩, if_pos early]
      · rw [if_neg fun taking => early taking.2, if_neg early]
        exact Nat.le_refl 6
  | positionBought _ hr => exact kept (slotWork_congr rfl rfl rfl (slotWork_write hr rfl rfl))
  | positionSettled hr => exact kept (slotWork_congr rfl rfl rfl (slotWork_write hr rfl rfl))
  | @roundRequested id _ _ _ r hr opened closing =>
      have late : ¬ r.taking w.pool w.clock := fun taking => Int.not_lt.mpr closing taking.2
      have unfinished : ¬ isFinished r.status := by rw [opened]; decide
      have before := slotWork_ending live hr unfinished late
      have after := slotWork_ending live' (lookup_insert _) (fun ended => nomatch ended)
        fun taking => nomatch taking.1
      rw [opened] at before
      exact Nat.le_of_eq ((congrArg (· + 1) after).trans before.symm)
  | @roundSettled id _ r _ _ _ _ _ hr _ requested =>
      have late : ¬ r.taking w.pool w.clock := fun taking => nomatch requested.symm.trans taking.1
      have unfinished : ¬ isFinished r.status := by rw [requested]; decide
      have before := slotWork_ending live hr unfinished late
      have after := slotWork_idle live' rfl
      rw [requested] at before
      exact Nat.le_of_eq ((congrArg (· + 1) after).trans before.symm)
  | @roundVoided id _ r _ hr running =>
      have unfinished : ¬ isFinished r.status := by
        rcases running with requested | opened
        · rw [requested]; decide
        · rw [opened]; decide
      have before := slotWork_ending live hr unfinished (voidRound_late reachable h hr)
      have after := slotWork_idle live' rfl
      have some : 1 ≤ r.status.work := by
        rcases running with requested | opened
        · rw [requested]; decide
        · rw [opened]; decide
      change World.slotWork _ + 1 ≤ w.slotWork + 0
      omega
  | @roundClosed _ id r _ hr finished =>
      have elsewhere : w.pool.openRoundId ≠ id := by
        rintro rfl
        have named := (live.keyed hr).2
        obtain ⟨-, x, hx, unfinished⟩ := live.running (by omega)
        obtain rfl := Option.some.inj (hx.symm.trans hr)
        exact unfinished finished
      exact kept (slotWork_congr rfl rfl rfl (congrArg _ (lookup_erase_ne elsewhere)))
  | _ => exact Nat.le_refl _

end Slot

section Work
variable {rt : Runtime} {w w' : World} {a : Action}

theorem part_step (reachable : Reachable rt w) (h : Step rt w a w') (part : Part) :
    part.work w' + part.done w a ≤ part.work w + part.added w a := by
  cases part with
  | slot => exact slot_step reachable h
  | turn => exact turn_step reachable h
  | epochs => exact epochs_step (step_effect h)
  | registrations => exact registrations_step reachable h
  | withdrawals => exact withdrawals_step reachable h
  | rounds => exact rounds_step (step_effect h)
  | positions => exact positions_step (step_effect h)

/-- An instruction of the crank does some of the work there was, and nothing is added to it
but what the action is charged. -/
theorem step_work (reachable : Reachable rt w) (h : Step rt w a w') :
    w'.work + a.crank w ≤ w.work + a.charge w := by
  have counted := crank_done w a
  have each : ∀ parts : List Part,
      (parts.map (Part.work w')).sum + (parts.map fun part => part.done w a).sum ≤
        (parts.map (Part.work w)).sum + (parts.map fun part => part.added w a).sum := by
    intro parts
    induction parts with
    | nil => exact Nat.le_refl _
    | cons part parts ih =>
        have one := part_step reachable h part
        simp only [List.map_cons, List.sum_cons]
        omega
  have whole := each Part.all
  simp only [World.work]
  omega

end Work

end HexVault
