import HexVault.Invariants.Stability
import HexVault.Lib.Intervals

/-!
Registration intervals: each Player's slot on the line of the epoch it last
registered for. A registration appends to the line of the epoch just before the
current one and gives up whatever the Player held on an older one, so intervals
never overlap, and they tile that epoch's line for as long as it is registering.
-/

namespace HexVault

open Fallible Finmap Intervals Runs

/-- The interval a Player holds on an epoch's line. -/
def Player.slotIn (id : Nat) (player : Player) : Option (Nat × Nat) :=
  if player.regEpoch = id then some (player.regStart, player.regEnd) else none

def slots (players : Finmap fun _ : Pubkey => Player) (id : Nat) :
    Pubkey → Option (Nat × Nat) :=
  fun owner => (players.lookup owner).bind (Player.slotIn id)

def registersFor (id : Nat) (_ : Pubkey) (player : Player) : Nat :=
  if player.regEpoch = id then 1 else 0

/-- How many Players hold an interval on an epoch's line. -/
def registrants (players : Finmap fun _ : Pubkey => Player) (id : Nat) : Nat :=
  total (registersFor id) players

structure SameSlot (p r : Player) : Prop where
  regEpoch : r.regEpoch = p.regEpoch
  regStart : r.regStart = p.regStart
  regEnd : r.regEnd = p.regEnd

section Slots
variable {players : Finmap fun _ : Pubkey => Player} {owner : Pubkey} {p r : Player} {id : Nat}

theorem slots_insert (players : Finmap fun _ : Pubkey => Player) (owner : Pubkey) (r : Player)
    (id : Nat) : slots (players.insert owner r) id =
      Function.update (slots players id) owner (r.slotIn id) := by
  funext other
  by_cases same : other = owner
  · subst same
    rw [Function.update_self, slots, lookup_insert, Option.bind_some]
  · rw [Function.update_of_ne same, slots, slots, lookup_insert_of_ne _ same]

theorem slots_of_lookup (h : players.lookup owner = some p) :
    slots players id owner = p.slotIn id := by
  rw [slots, h, Option.bind_some]

theorem SameSlot.slotIn (h : SameSlot p r) (id : Nat) : r.slotIn id = p.slotIn id := by
  rw [Player.slotIn, Player.slotIn, h.regEpoch, h.regStart, h.regEnd]

/-- A Player rewritten with its slot as it was. -/
theorem slots_same (h : players.lookup owner = some p) (same : SameSlot p r) :
    slots (players.insert owner r) id = slots players id := by
  rw [slots_insert, same.slotIn, ← slots_of_lookup h, Function.update_eq_self]

theorem registrants_same (h : players.lookup owner = some p) (same : SameSlot p r) :
    registrants (players.insert owner r) id = registrants players id := by
  refine total_insert_of_eq h ?_
  rw [registersFor, registersFor, same.regEpoch]

/-- A new Player holds no slot on any epoch's line. -/
theorem slots_created (h : players.lookup owner = none) (fresh : r.regEpoch = 0)
    (h1 : 1 ≤ id) : slots (players.insert owner r) id = slots players id := by
  have hne : r.regEpoch ≠ id := by omega
  have hold : slots players id owner = none := by rw [slots, h, Option.bind_none]
  rw [slots_insert, Player.slotIn, if_neg hne, ← hold, Function.update_eq_self]

theorem registrants_created (h : players.lookup owner = none) (fresh : r.regEpoch = 0)
    (h1 : 1 ≤ id) : registrants (players.insert owner r) id = registrants players id := by
  have hne : r.regEpoch ≠ id := by omega
  rw [registrants, total_insert, total_erase_of_notMem _ h, registersFor, if_neg hne,
    Nat.zero_add, registrants]

theorem registrants_zero (h : ∀ owner, slots players id owner = none) :
    registrants players id = 0 := by
  refine total_eq_zero ?_
  intro owner p hp
  have hnone := h owner
  rw [slots_of_lookup hp, Player.slotIn] at hnone
  rw [registersFor]
  split at hnone
  · exact nomatch hnone
  · rename_i hne
    exact if_neg hne

/-- Players rewritten with every slot as it was. -/
structure SlotsKept (players players' : Finmap fun _ : Pubkey => Player) : Prop where
  slots : ∀ {id}, 1 ≤ id → slots players' id = slots players id
  registrants : ∀ {id}, 1 ≤ id → registrants players' id = registrants players id
  known : ∀ {cur}, (∀ {owner p}, players.lookup owner = some p → p.regEpoch ≤ cur) →
    ∀ {owner p}, players'.lookup owner = some p → p.regEpoch ≤ cur

theorem SlotsKept.refl (players : Finmap fun _ : Pubkey => Player) :
    SlotsKept players players := ⟨fun _ => rfl, fun _ => rfl, fun h => h⟩

theorem SlotsKept.player (h : players.lookup owner = some p) (same : SameSlot p r) :
    SlotsKept players (players.insert owner r) where
  slots := fun _ => slots_same h same
  registrants := fun _ => registrants_same h same
  known := by
    intro cur known other q hq
    cases lookup_insert_cases hq with
    | inl new =>
        obtain ⟨rfl, rfl⟩ := new
        rw [same.regEpoch]
        exact known h
    | inr old => exact known old.2

theorem SlotsKept.create (h : players.lookup owner = none) (fresh : r.regEpoch = 0) :
    SlotsKept players (players.insert owner r) where
  slots := slots_created h fresh
  registrants := registrants_created h fresh
  known := by
    intro cur known other q hq
    cases lookup_insert_cases hq with
    | inl new =>
        obtain ⟨rfl, rfl⟩ := new
        rw [fresh]
        exact Nat.zero_le _
    | inr old => exact known old.2

/-- `Contains` on an epoch's line, spelled out on the Player account. -/
theorem contains_slots {t : Nat} : Contains (slots players id) owner t ↔
    ∃ p, players.lookup owner = some p ∧ p.regEpoch = id ∧ p.regStart ≤ t ∧ t < p.regEnd := by
  constructor
  · intro h
    obtain ⟨a, b, hab, ha, hb⟩ := h
    rw [slots, Option.bind_eq_some_iff] at hab
    obtain ⟨p, hp, hslot⟩ := hab
    rw [Player.slotIn] at hslot
    split at hslot
    · cases hslot
      exact ⟨p, hp, ‹_›, ha, hb⟩
    · exact nomatch hslot
  · intro h
    obtain ⟨p, hp, hid, ha, hb⟩ := h
    exact ⟨p.regStart, p.regEnd, by rw [slots_of_lookup hp, Player.slotIn, if_pos hid], ha, hb⟩

end Slots

structure Registration (cur : Nat) (epochs : Finmap fun _ : Nat => Epoch)
    (players : Finmap fun _ : Pubkey => Player) : Prop where
  known : ∀ {owner p}, players.lookup owner = some p → p.regEpoch ≤ cur
  apart : ∀ {id e}, epochs.lookup id = some e → Apart (slots players id) e.registeredWeight
  tiled : ∀ {id e}, epochs.lookup id = some e → id + 1 = cur → e.status = .registering →
    Tiled (slots players id) e.registeredWeight ∧ e.registeredCount = registrants players id
  fresh : ∀ {e}, epochs.lookup cur = some e → e.registeredWeight = 0 ∧ e.registeredCount = 0

namespace Registration
variable {cur : Nat} {epochs : Finmap fun _ : Nat => Epoch}
  {players players' : Finmap fun _ : Pubkey => Player} {owner : Pubkey} {p r : Player}

theorem kept (hi : Registration cur epochs players)
    (keyed : ∀ {id e}, epochs.lookup id = some e → 1 ≤ id) (h : SlotsKept players players') :
    Registration cur epochs players' where
  known := h.known hi.known
  apart := by
    intro id e he
    rw [h.slots (keyed he)]
    exact hi.apart he
  tiled := by
    intro id e he hcur hs
    rw [h.slots (keyed he), h.registrants (keyed he)]
    exact hi.tiled he hcur hs
  fresh := hi.fresh

/-- An epoch rewritten with its line as it was, and not moved to Registering. -/
theorem epoch (hi : Registration cur epochs players) {id : Nat} {e e' : Epoch}
    (h : epochs.lookup id = some e) (hweight : e'.registeredWeight = e.registeredWeight)
    (hcount : e'.registeredCount = e.registeredCount)
    (hs : e'.status = .registering → e.status = .registering) :
    Registration cur (epochs.insert id e') players where
  known := hi.known
  apart := by
    intro other x hx
    cases lookup_insert_cases hx with
    | inl new =>
        obtain ⟨rfl, rfl⟩ := new
        rw [hweight]
        exact hi.apart h
    | inr old => exact hi.apart old.2
  tiled := by
    intro other x hx hcur hreg
    cases lookup_insert_cases hx with
    | inl new =>
        obtain ⟨rfl, rfl⟩ := new
        rw [hweight, hcount]
        exact hi.tiled h hcur (hs hreg)
    | inr old => exact hi.tiled old.2 hcur hreg
  fresh := by
    intro x hx
    cases lookup_insert_cases hx with
    | inl new =>
        obtain ⟨rfl, rfl⟩ := new
        rw [hweight, hcount]
        exact hi.fresh h
    | inr old => exact hi.fresh old.2

/-- A registration: the Player's slot moves to the end of the epoch's line. -/
theorem register (hi : Registration cur epochs players) {id weight : Nat} {e e' : Epoch}
    (he : epochs.lookup id = some e) (hp : players.lookup owner = some p) (hcur : id + 1 = cur)
    (hs : e.status = .registering) (free : p.regEpoch ≠ id) (hw : 0 < weight)
    (hslot : r.regEpoch = id ∧ r.regStart = e.registeredWeight ∧
      r.regEnd = e.registeredWeight + weight)
    (hweight : e'.registeredWeight = e.registeredWeight + weight)
    (hcount : e'.registeredCount = e.registeredCount + 1) :
    Registration cur (epochs.insert id e') (players.insert owner r) := by
  have hfree : slots players id owner = none := by
    rw [slots_of_lookup hp, Player.slotIn, if_neg free]
  have hnew : slots (players.insert owner r) id = Function.update (slots players id) owner
      (some (e.registeredWeight, e.registeredWeight + weight)) := by
    rw [slots_insert, Player.slotIn, if_pos hslot.1, hslot.2.1, hslot.2.2]
  have hother : ∀ other, other ≠ id → slots (players.insert owner r) other =
      Function.update (slots players other) owner none := by
    intro other hne
    have hid := hslot.1
    rw [slots_insert, Player.slotIn, if_neg (by omega)]
  have tiled := hi.tiled he hcur hs
  refine ⟨?_, ?_, ?_, ?_⟩
  · intro other q hq
    cases lookup_insert_cases hq with
    | inl new =>
        obtain ⟨rfl, rfl⟩ := new
        omega
    | inr old => exact hi.known old.2
  · intro other x hx
    cases lookup_insert_cases hx with
    | inl new =>
        obtain ⟨rfl, rfl⟩ := new
        rw [hnew, hweight]
        exact (tiled.1.append hfree hw).toApart
    | inr old =>
        rw [hother other old.1]
        exact (hi.apart old.2).drop
  · intro other x hx hother hreg
    cases lookup_insert_cases hx with
    | inl new =>
        obtain ⟨rfl, rfl⟩ := new
        have hsum := total_insert_add (registersFor other) hp r
        simp only [registersFor, if_neg free, if_pos hslot.1] at hsum
        rw [hnew, hweight, hcount, tiled.2]
        exact ⟨tiled.1.append hfree hw, hsum.symm⟩
    | inr old => exact absurd (Nat.succ.inj (hother.trans hcur.symm)) old.1
  · intro x hx
    rw [lookup_insert_of_ne _ (by omega)] at hx
    exact hi.fresh hx

end Registration

def World.Registration (w : World) : Prop :=
  HexVault.Registration w.pool.currentEpochId w.epochs w.players

theorem created_registration {w : World} (h : Created w) : w.Registration := by
  refine ⟨?_, ?_, ?_, ?_⟩
  · intro owner p hp
    obtain ⟨-, rfl⟩ := created_player h hp
    exact Nat.zero_le _
  · intro id e he
    exact absurd he (created_no_epoch h)
  · intro id e he
    exact absurd he (created_no_epoch h)
  · intro e he
    exact absurd he (created_no_epoch h)

/-- A begun epoch: the one that ended opens its line, empty, for registration. -/
theorem began_registration {w : World} {startsAt endsAt : Int}
    {epochs : Finmap fun _ : Nat => Epoch} (hi : w.Registration)
    (hend : endCurrent w = .ok (startsAt, epochs)) :
    HexVault.Registration (w.pool.currentEpochId + 1)
      (epochs.insert (w.pool.currentEpochId + 1)
        (newEpoch (w.pool.currentEpochId + 1) startsAt endsAt)) w.players := by
  -- Every epoch but the new one was there before, its line unchanged.
  have before : ∀ {id e}, epochs.lookup id = some e → ∃ x, w.epochs.lookup id = some x ∧
      e.registeredWeight = x.registeredWeight ∧ e.registeredCount = x.registeredCount := by
    intro id e he
    cases endCurrent_cases hend with
    | inl first =>
        obtain ⟨-, -, rfl⟩ := first
        exact ⟨e, he, rfl, rfl⟩
    | inr later =>
        obtain ⟨-, previous, f, hp, -, -, -, rfl⟩ := later
        cases lookup_insert_cases he with
        | inl same =>
            obtain ⟨rfl, rfl⟩ := same
            exact ⟨previous, hp, rfl, rfl⟩
        | inr other => exact ⟨e, other.2, rfl, rfl⟩
  refine ⟨fun hp => Nat.le_succ_of_le (hi.known hp), ?_, ?_, ?_⟩
  · intro id e he
    cases lookup_insert_cases he with
    | inl new =>
        obtain ⟨rfl, rfl⟩ := new
        refine (Tiled.empty ?_).toApart
        intro owner
        cases hp : w.players.lookup owner with
        | none => rw [slots, hp, Option.bind_none]
        | some p =>
            have := hi.known hp
            rw [slots_of_lookup hp, Player.slotIn, if_neg (by omega)]
    | inr old =>
        obtain ⟨x, hx, hweight, -⟩ := before old.2
        rw [hweight]
        exact hi.apart hx
  · intro id e he hcur hreg
    obtain rfl := Nat.succ.inj hcur
    rw [lookup_insert_of_ne _ (Nat.ne_of_lt (Nat.lt_succ_self _))] at he
    obtain ⟨x, hx, hweight, hcount⟩ := before he
    have fresh := hi.fresh hx
    have empty : ∀ owner, slots w.players w.pool.currentEpochId owner = none := by
      have apart := hi.apart hx
      rw [fresh.1] at apart
      exact apart.of_empty
    rw [hweight, hcount, fresh.1, fresh.2, registrants_zero empty]
    exact ⟨Tiled.empty empty, rfl⟩
  · intro e he
    rw [lookup_insert] at he
    cases he
    exact ⟨rfl, rfl⟩

theorem Credited.sameSlot {p q r : Player} {tickets : Nat} (hp : p.SameHoldings q)
    (h : Credited q tickets r) : SameSlot p r := by
  rw [h.player]
  exact ⟨hp.regEpoch, hp.regStart, hp.regEnd⟩

def Action.registers : Action → Bool
  | .register _ _ => true
  | _ => false

/-- Only a registration moves a slot. -/
theorem effect_slots {rt : Runtime} {w w' : World} {a : Action} (owned : Owned w.players)
    (h : Effect rt w a w') (other : a.registers = false) : SlotsKept w.players w'.players := by
  cases h with
  | @deposited owner _ _ player _ ht =>
      have same := touch_sameHoldings ht
      cases hp : w.players.lookup owner.key with
      | none =>
          rw [hp, Option.getD_none, initIfFresh_zeroed] at same
          exact .create hp same.regEpoch
      | some p =>
          rw [hp, Option.getD_some, Player.initIfFresh, if_pos (owned hp).2] at same
          exact .player hp ⟨same.regEpoch, same.regStart, same.regEnd⟩
  | withdrawRequested ha ht =>
      have same := touch_sameHoldings ht
      exact .player ha ⟨same.regEpoch, same.regStart, same.regEnd⟩
  | withdrawn ha => exact .player ha ⟨rfl, rfl, rfl⟩
  | emergencyWithdrawn ha ht =>
      have same := touch_sameHoldings ht
      exact .player ha ⟨same.regEpoch, same.regStart, same.regEnd⟩
  | ticketsBought ha ht _ _ _ hc => exact .player ha (hc.sameSlot (touch_sameHoldings ht))
  | ticketsGranted ha ht hc => exact .player ha (hc.sameSlot (touch_sameHoldings ht))
  | positionBought ha _ _ ht =>
      have same := touch_sameHoldings ht
      exact .player ha ⟨same.regEpoch, same.regStart, same.regEnd⟩
  | roundSettled _ ha _ _ hh =>
      have same := hh.sameHoldings
      exact .player ha ⟨same.regEpoch, same.regStart, same.regEnd⟩
  | positionSettled _ ha _ ht =>
      have same := touch_sameHoldings ht
      exact .player ha ⟨same.regEpoch, same.regStart, same.regEnd⟩
  | registeredNothing => cases other
  | registered => cases other
  | paidPlayer _ ha _ _ _ _ _ ht =>
      have same := touch_sameHoldings ht
      exact .player ha ⟨same.regEpoch, same.regStart, same.regEnd⟩
  | _ => exact .refl _

theorem effect_registration {rt : Runtime} {w w' : World} {a : Action} (calendar : w.Calendar)
    (owned : Owned w.players) (h : Effect rt w a w') (hi : w.Registration) :
    w'.Registration := by
  have keyed : ∀ {id e}, w.epochs.lookup id = some e → 1 ≤ id := fun he =>
    (calendar.keyed he).2.1
  have kept := effect_slots owned h
  cases h with
  | reconfigured _ hr =>
      unfold World.Registration
      rw [World.emit_pool, hr.currentEpochId]
      exact hi
  | epochBegan _ _ hend => exact began_registration hi hend
  | registeredNothing _ ha _ _ _ _ _ hq =>
      have same := hq.sameHoldings
      exact Registration.kept hi keyed
        (.player ha ⟨same.regEpoch, same.regStart, same.regEnd⟩)
  | registered he ha hs hpos hprev hfree _ hw =>
      have hid := (calendar.keyed he).1
      rw [hid] at hfree hprev
      exact Registration.register hi he ha (by omega) hs hfree hw ⟨hid, rfl, rfl⟩ rfl rfl
  | closedUndrawn he => exact Registration.epoch hi he rfl rfl nofun
  | closedForDraw he => exact Registration.epoch hi he rfl rfl nofun
  | drawn he => exact Registration.epoch hi he rfl rfl nofun
  | paidHouse he => exact Registration.epoch hi he rfl rfl nofun
  | paidPlayer he =>
      exact Registration.epoch (Registration.kept hi keyed (kept rfl)) he rfl rfl nofun
  | rolledOver he => exact Registration.epoch hi he rfl rfl nofun
  | _ => exact Registration.kept hi keyed (kept rfl)

theorem reachable_registration {rt : Runtime} {w : World} (h : Reachable rt w) :
    w.Registration :=
  h.invariant created_registration fun before hi hs =>
    effect_registration (reachable_calendar before) (reachable_accounts before).owned
      (step_effect hs) hi

end HexVault
