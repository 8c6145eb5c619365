import HexVault.Invariants.Calendar

/-!
What one step does to a single Player, whatever the instruction: nothing, some
bookkeeping, a touch followed by its own change, or the account's creation. The
invariants about one Player's accumulators are proved from these four cases.
-/

namespace HexVault

open Fallible

/-- The fields a touch reads are the same. -/
structure SameAccrual (p q : Player) : Prop where
  owner : q.owner = p.owner
  isHouse : q.isHouse = p.isHouse
  principal : q.principal = p.principal
  entries : q.entries = p.entries
  weightAcc : q.weightAcc = p.weightAcc
  principalAcc : q.principalAcc = p.principalAcc
  lastUpdate : q.lastUpdate = p.lastUpdate
  epochId : q.epochId = p.epochId
  frozenWeight : q.frozenWeight = p.frozenWeight
  frozenPrincipalAcc : q.frozenPrincipalAcc = p.frozenPrincipalAcc
  frozenEpoch : q.frozenEpoch = p.frozenEpoch

/-- A touched Player after the instruction's own change: Principal and Entries
may have moved, and a stake may have been credited up front. -/
structure Moved (q r : Player) (preCredit : Nat) : Prop where
  owner : r.owner = q.owner
  isHouse : r.isHouse = q.isHouse
  weightAcc : r.weightAcc = q.weightAcc + preCredit
  principalAcc : r.principalAcc = q.principalAcc
  lastUpdate : r.lastUpdate = q.lastUpdate
  epochId : r.epochId = q.epochId
  frozenWeight : r.frozenWeight = q.frozenWeight
  frozenPrincipalAcc : r.frozenPrincipalAcc = q.frozenPrincipalAcc
  frozenEpoch : r.frozenEpoch = q.frozenEpoch

/-- Only a purchase on a round still open for it credits anything up front: the
stake's Weight up to the round's end. -/
def PreCredited (w : World) (a : Action) (owner : Pubkey) (preCredit : Nat) : Prop :=
  preCredit = 0 ∨ ∃ buyer roundId tiles stakePerTile round,
    a = .buyPosition buyer roundId tiles stakePerTile ∧ buyer.key = owner ∧
    w.rounds.lookup roundId = some round ∧ w.clock < round.endsAt - w.pool.closeBuffer ∧
    preCredit = stakePerTile * countOnes tiles * (round.endsAt - w.clock).toNat

inductive PlayerStep (w : World) (a : Action) (owner : Pubkey) :
    Option Player → Option Player → Prop
  | same {x : Option Player} : PlayerStep w a owner x x
  | booked {p r : Player} : SameAccrual p r → PlayerStep w a owner (some p) (some r)
  | moved {p q r : Player} {preCredit : Nat} : touch p w.pool w.clock = .ok q →
      Moved q r preCredit → PreCredited w a owner preCredit →
      PlayerStep w a owner (some p) (some r)
  | created {q r : Player} : owner ≠ Pubkey.default →
      touch (Player.zeroed.initIfFresh owner w.pool w.clock) w.pool w.clock = .ok q →
      Moved q r 0 → PlayerStep w a owner none (some r)

/-- The Principal an owner holds, none without an account. -/
def World.held (w : World) (owner : Pubkey) : Nat :=
  (w.players.lookup owner).elim 0 Player.principal

section Steps
variable {rt : Runtime} {w w' : World} {a : Action} {owner other : Pubkey} {p q r : Player}

/-- A step writes at most one Player, and that one in one of these ways. -/
def PlayersStep (w : World) (a : Action) (players : Finmap fun _ : Pubkey => Player) : Prop :=
  players = w.players ∨ ∃ owner r, players = w.players.insert owner r ∧
    PlayerStep w a owner (w.players.lookup owner) (some r)

theorem held_of_lookup (h : w.players.lookup owner = some p) : w.held owner = p.principal := by
  rw [World.held, h, Option.elim_some]

theorem held_of_none (h : w.players.lookup owner = none) : w.held owner = 0 := by
  rw [World.held, h, Option.elim_none]

theorem PlayersStep.insert (ha : w.players.lookup owner = some p)
    (h : PlayerStep w a owner (some p) (some r)) :
    PlayersStep w a (w.players.insert owner r) := by
  refine .inr ⟨owner, r, rfl, ?_⟩
  rw [ha]
  exact h

theorem PlayersStep.player {players : Finmap fun _ : Pubkey => Player}
    (h : PlayersStep w a players) (other : Pubkey) :
    PlayerStep w a other (w.players.lookup other) (players.lookup other) := by
  cases h with
  | inl same =>
      rw [same]
      exact .same
  | inr written =>
      obtain ⟨owner, r, rfl, step⟩ := written
      by_cases same : other = owner
      · subst same
        rw [Finmap.lookup_insert]
        exact step
      · rw [Finmap.lookup_insert_of_ne _ same]
        exact .same

theorem Credited.moved {tickets : Nat} (h : Credited q tickets r) : Moved q r 0 := by
  rw [h.player]
  exact ⟨rfl, rfl, rfl, rfl, rfl, rfl, rfl, rfl, rfl⟩

/-- A registration touches the Player it credits, and only that one. -/
theorem PlayerStep.yield {credited : Nat} (h : YieldTouch w p credited q) (hr : Moved q r 0)
    (hp : r.principal = q.principal + credited) (he : r.entries = q.entries + credited) :
    PlayerStep w a owner (some p) (some r) := by
  cases h with
  | inl nothing =>
      obtain ⟨rfl, rfl⟩ := nothing
      exact .booked ⟨hr.owner, hr.isHouse, hp, he, hr.weightAcc, hr.principalAcc,
        hr.lastUpdate, hr.epochId, hr.frozenWeight, hr.frozenPrincipalAcc, hr.frozenEpoch⟩
  | inr touched => exact .moved touched hr (.inl rfl)

/-- Existing accounts have an owner, so only a missing one counts as fresh. -/
def Owned (players : Finmap fun _ : Pubkey => Player) : Prop :=
  ∀ {owner p}, players.lookup owner = some p → p.owner = owner ∧ p.owner ≠ Pubkey.default

theorem effect_players (owned : Owned w.players) (h : Effect rt w a w') :
    PlayersStep w a w'.players := by
  cases h with
  | @deposited owner _ _ player _ ht =>
      refine .inr ⟨owner.key, _, rfl, ?_⟩
      cases hp : w.players.lookup owner.key with
      | none =>
          rw [hp, Option.getD_none] at ht
          exact .created owner.held ht ⟨rfl, rfl, rfl, rfl, rfl, rfl, rfl, rfl, rfl⟩
      | some p =>
          rw [hp, Option.getD_some, Player.initIfFresh, if_pos (owned hp).2] at ht
          exact .moved ht ⟨rfl, rfl, rfl, rfl, rfl, rfl, rfl, rfl, rfl⟩ (.inl rfl)
  | withdrawRequested ha ht =>
      exact .insert ha (.moved ht ⟨rfl, rfl, rfl, rfl, rfl, rfl, rfl, rfl, rfl⟩ (.inl rfl))
  | withdrawn ha =>
      exact .insert ha (.booked ⟨rfl, rfl, rfl, rfl, rfl, rfl, rfl, rfl, rfl, rfl, rfl⟩)
  | emergencyWithdrawn ha ht =>
      exact .insert ha (.moved ht ⟨rfl, rfl, rfl, rfl, rfl, rfl, rfl, rfl, rfl⟩ (.inl rfl))
  | ticketsBought ha ht _ _ _ hc => exact .insert ha (.moved ht hc.moved (.inl rfl))
  | ticketsGranted ha ht hc => exact .insert ha (.moved ht hc.moved (.inl rfl))
  | positionBought ha hr _ ht _ _ hclose =>
      exact .insert ha (.moved ht ⟨rfl, rfl, rfl, rfl, rfl, rfl, rfl, rfl, rfl⟩
        (.inr ⟨_, _, _, _, _, rfl, rfl, hr, hclose, rfl⟩))
  | roundSettled _ ha _ _ hh =>
      refine .insert ha ?_
      cases hh with
      | credited _ _ ht =>
          exact .moved ht ⟨rfl, rfl, rfl, rfl, rfl, rfl, rfl, rfl, rfl⟩ (.inl rfl)
      | evaporated _ => exact .same
  | positionSettled _ ha _ ht =>
      exact .insert ha (.moved ht ⟨rfl, rfl, rfl, rfl, rfl, rfl, rfl, rfl, rfl⟩ (.inl rfl))
  | registeredNothing _ ha _ _ _ _ _ hq =>
      exact .insert ha (.yield hq ⟨rfl, rfl, rfl, rfl, rfl, rfl, rfl, rfl, rfl⟩ rfl rfl)
  | registered _ ha _ _ _ _ _ _ hq =>
      exact .insert ha (.yield hq ⟨rfl, rfl, rfl, rfl, rfl, rfl, rfl, rfl, rfl⟩ rfl rfl)
  | paidPlayer _ ha _ _ _ _ _ ht =>
      exact .insert ha (.moved ht ⟨rfl, rfl, rfl, rfl, rfl, rfl, rfl, rfl, rfl⟩ (.inl rfl))
  | _ => exact .inl rfl

theorem effect_player (owned : Owned w.players) (h : Effect rt w a w') (other : Pubkey) :
    PlayerStep w a other (w.players.lookup other) (w'.players.lookup other) :=
  (effect_players owned h).player other

/-- Every account is its owner's, has been touched at or before now, and its
epoch is not ahead of the pool's. -/
structure Accounts (cur : Nat) (clock : Int) (players : Finmap fun _ : Pubkey => Player) :
    Prop where
  owned : Owned players
  behind : ∀ {owner p}, players.lookup owner = some p → p.epochId ≤ cur
  updated : ∀ {owner p}, players.lookup owner = some p →
    0 ≤ p.lastUpdate ∧ p.lastUpdate ≤ clock

def World.Accounts (w : World) : Prop :=
  HexVault.Accounts w.pool.currentEpochId w.clock w.players

theorem touch_lastUpdate {pool : Pool} {now : Int} (h : touch p pool now = .ok q) :
    q.lastUpdate = now := by
  cases touch_cases h with
  | inl same => exact same.lastUpdate
  | inr new => exact new.lastUpdate

theorem touch_epochId {pool : Pool} {now : Int} (behind : p.epochId ≤ pool.currentEpochId)
    (h : touch p pool now = .ok q) : q.epochId = pool.currentEpochId := by
  cases touch_cases h with
  | inl same => exact same.epochId.trans (Nat.le_antisymm behind same.current)
  | inr new => exact new.epochId

theorem initIfFresh_zeroed (owner : Pubkey) (pool : Pool) (now : Int) :
    Player.zeroed.initIfFresh owner pool now =
      { Player.zeroed with owner, lastUpdate := now, epochId := pool.currentEpochId } :=
  if_neg fun hne => hne rfl

theorem effect_clock (h : Effect rt w a w') : w.clock ≤ w'.clock := by
  cases h with
  | waited hle => exact hle
  | _ => exact Int.le_refl _

theorem effect_currentEpochId (h : Effect rt w a w') :
    w.pool.currentEpochId ≤ w'.pool.currentEpochId := by
  cases h with
  | reconfigured _ hr => exact Nat.le_of_eq hr.currentEpochId.symm
  | epochBegan => exact Nat.le_succ _
  | _ => exact Nat.le_refl _

theorem effect_accounts (calendar : w.Calendar) (h : Effect rt w a w') (hi : w.Accounts) :
    w'.Accounts := by
  have hclock := calendar.clockRange.1
  have later := effect_clock h
  have epochs := effect_currentEpochId h
  have each : ∀ {owner p}, w'.players.lookup owner = some p →
      (p.owner = owner ∧ p.owner ≠ Pubkey.default) ∧ p.epochId ≤ w.pool.currentEpochId ∧
        0 ≤ p.lastUpdate ∧ p.lastUpdate ≤ w.clock := by
    intro owner p hp
    have step := effect_player hi.owned h owner
    rw [hp] at step
    cases hold : w.players.lookup owner with
    | none =>
        rw [hold] at step
        cases step with
        | created hne ht hm =>
            rw [initIfFresh_zeroed] at ht
            have same := touch_sameHoldings ht
            have hid := touch_epochId (Nat.le_refl _) ht
            have hat := touch_lastUpdate ht
            refine ⟨?_, ?_, ?_⟩
            · rw [hm.owner, same.owner]
              exact ⟨rfl, hne⟩
            · rw [hm.epochId, hid]
            · rw [hm.lastUpdate, hat]
              exact ⟨hclock, Int.le_refl _⟩
    | some old =>
        rw [hold] at step
        have ho := hi.owned hold
        have hb := hi.behind hold
        have hu := hi.updated hold
        cases step with
        | same => exact ⟨ho, hb, hu⟩
        | booked hs =>
            rw [hs.owner, hs.epochId, hs.lastUpdate]
            exact ⟨ho, hb, hu⟩
        | moved ht hm =>
            have same := touch_sameHoldings ht
            have hid := touch_epochId hb ht
            have hat := touch_lastUpdate ht
            rw [hm.owner, hm.epochId, hm.lastUpdate, same.owner, hid, hat]
            exact ⟨ho, Nat.le_refl _, hclock, Int.le_refl _⟩
  refine ⟨fun hp => (each hp).1, fun hp => ?_, fun hp => ?_⟩
  · exact Nat.le_trans (each hp).2.1 epochs
  · exact ⟨(each hp).2.2.1, Int.le_trans (each hp).2.2.2 later⟩

theorem created_accounts (h : Created w) : w.Accounts := by
  have started := (created_calendar h).clockRange.1
  refine ⟨fun hp => ?_, fun hp => ?_, fun hp => ?_⟩
  · obtain ⟨named, rfl⟩ := created_player h hp
    exact ⟨rfl, named⟩
  · obtain ⟨-, rfl⟩ := created_player h hp
    exact Nat.zero_le _
  · obtain ⟨-, rfl⟩ := created_player h hp
    exact ⟨started, Int.le_refl _⟩

theorem reachable_accounts (h : Reachable rt w) : w.Accounts :=
  h.invariant created_accounts fun before hi hs =>
    effect_accounts (reachable_calendar before) (step_effect hs) hi

/-- An Epoch account keeps its id and its bounds. -/
theorem effect_epoch (h : Effect rt w a w') {id : Nat} {e : Epoch}
    (he : w.epochs.lookup id = some e) : ∃ e', w'.epochs.lookup id = some e' ∧
      e'.epochId = e.epochId ∧ e'.startsAt = e.startsAt ∧ e'.endsAt = e.endsAt := by
  have written : ∀ {key : Nat} {x x' : Epoch}, w.epochs.lookup key = some x →
      x'.epochId = x.epochId ∧ x'.startsAt = x.startsAt ∧ x'.endsAt = x.endsAt →
      ∃ e', (w.epochs.insert key x').lookup id = some e' ∧
        e'.epochId = e.epochId ∧ e'.startsAt = e.startsAt ∧ e'.endsAt = e.endsAt := by
    intro key x x' hx hsame
    by_cases same : id = key
    · subst same
      obtain rfl := Option.some.inj (he.symm.trans hx)
      exact ⟨x', Finmap.lookup_insert _, hsame⟩
    · exact ⟨e, (Finmap.lookup_insert_of_ne _ same).trans he, rfl, rfl, rfl⟩
  cases h with
  | epochBegan hnew _ hend =>
      have hne : id ≠ w.pool.currentEpochId + 1 := by
        intro heq
        rw [heq, hnew] at he
        exact nomatch he
      rw [World.emit_epochs, Finmap.lookup_insert_of_ne _ hne]
      cases endCurrent_cases hend with
      | inl first =>
          obtain ⟨-, -, rfl⟩ := first
          exact ⟨e, he, rfl, rfl, rfl⟩
      | inr later =>
          obtain ⟨-, previous, f, hp, -, -, -, rfl⟩ := later
          exact written hp ⟨rfl, rfl, rfl⟩
  | registered hx => exact written hx ⟨rfl, rfl, rfl⟩
  | closedUndrawn hx => exact written hx ⟨rfl, rfl, rfl⟩
  | closedForDraw hx => exact written hx ⟨rfl, rfl, rfl⟩
  | drawn hx => exact written hx ⟨rfl, rfl, rfl⟩
  | paidHouse hx => exact written hx ⟨rfl, rfl, rfl⟩
  | paidPlayer hx => exact written hx ⟨rfl, rfl, rfl⟩
  | rolledOver hx => exact written hx ⟨rfl, rfl, rfl⟩
  | _ => exact ⟨e, he, rfl, rfl, rfl⟩

theorem PlayerStep.kept {x : Option Player} {owner : Pubkey} {p : Player}
    (h : PlayerStep w a owner (some p) x) : ∃ r, x = some r ∧ r.isHouse = p.isHouse := by
  cases h with
  | same => exact ⟨p, rfl, rfl⟩
  | booked hs => exact ⟨_, rfl, hs.isHouse⟩
  | moved ht hm => exact ⟨_, rfl, hm.isHouse.trans (touch_sameHoldings ht).isHouse⟩

/-- An account once opened stays, the House's the House's. -/
theorem step_player_kept (reachable : Reachable rt w) (h : Step rt w a w') {owner : Pubkey}
    {p : Player} (hp : w.players.lookup owner = some p) :
    ∃ r, w'.players.lookup owner = some r ∧ r.isHouse = p.isHouse := by
  have step := effect_player (reachable_accounts reachable).owned (step_effect h) owner
  rw [hp] at step
  exact step.kept

theorem effect_house (h : Effect rt w a w') : w'.pool.house = w.pool.house := by
  cases h with
  | reconfigured _ hr => exact hr.house
  | _ => rfl

theorem reachable_house (h : Reachable rt w) :
    ∃ house, w.players.lookup w.pool.house = some house ∧ house.isHouse = true := by
  refine h.invariant (P := fun w => ∃ house, w.players.lookup w.pool.house = some house ∧
    house.isHouse = true) ?_ ?_
  · intro start created
    obtain ⟨params, accounts, now, -, -, h⟩ := created
    obtain ⟨-, es, rfl⟩ := createPool_eq_ok h
    exact ⟨_, Finmap.lookup_singleton_eq, rfl⟩
  · intro w a w' before hi hs
    obtain ⟨house, hhouse, flag⟩ := hi
    rw [effect_house (step_effect hs)]
    obtain ⟨r, hr, same⟩ := step_player_kept before hs hhouse
    exact ⟨r, hr, same.trans flag⟩

/-- A round created within an epoch ends no later than the current one does. -/
def RoundsWithin (cur : Nat) (currentEnd : Int) (rounds : Finmap fun _ : Nat => Round) : Prop :=
  ∀ id r, rounds.lookup id = some r →
    r.epochId ≤ cur ∧ (1 ≤ r.epochId → r.endsAt ≤ currentEnd)

def World.RoundsWithin (w : World) : Prop :=
  HexVault.RoundsWithin w.pool.currentEpochId w.pool.currentEpochEndsAt w.rounds

/-- A round just opened, within the current epoch where there is one. -/
structure RoundOpened (w w' : World) (r : Round) : Prop where
  epochId : r.epochId = w.pool.currentEpochId
  within : w.pool.currentEpochId = 0 ∨
    ∃ epoch, w.epochs.lookup w.pool.currentEpochId = some epoch ∧ r.endsAt ≤ epoch.endsAt
  currentEpochId : w'.pool.currentEpochId = w.pool.currentEpochId
  currentEpochEndsAt : w'.pool.currentEpochEndsAt = w.pool.currentEpochEndsAt

theorem kept_round {rounds : Finmap fun _ : Nat => Round} {id other : Nat} {x x' r' : Round}
    (h : rounds.lookup id = some x) (hr : (rounds.insert id x').lookup other = some r')
    (hid : x'.epochId = x.epochId) (hend : x'.endsAt = x.endsAt) :
    ∃ r, rounds.lookup other = some r ∧ r'.epochId = r.epochId ∧ r'.endsAt = r.endsAt := by
  cases Finmap.lookup_insert_cases hr with
  | inl same =>
      obtain ⟨rfl, rfl⟩ := same
      exact ⟨x, h, hid, hend⟩
  | inr rest => exact ⟨r', rest.2, rfl, rfl⟩

/-- Each round a step leaves was there, of the same epoch and with the same end, or
has just been opened. -/
theorem effect_round (h : Effect rt w a w') {id : Nat} {r' : Round}
    (hr : w'.rounds.lookup id = some r') :
    (∃ r, w.rounds.lookup id = some r ∧ r'.epochId = r.epochId ∧ r'.endsAt = r.endsAt) ∨
      RoundOpened w w' r' := by
  cases h with
  | roundCreated _ within =>
      cases Finmap.lookup_insert_cases hr with
      | inl new =>
          obtain ⟨-, rfl⟩ := new
          exact .inr ⟨rfl, within, rfl, rfl⟩
      | inr rest => exact .inl ⟨r', rest.2, rfl, rfl⟩
  | positionBought _ hx => exact .inl (kept_round hx hr rfl rfl)
  | roundRequested hx => exact .inl (kept_round hx hr rfl rfl)
  | roundSettled hx => exact .inl (kept_round hx hr rfl rfl)
  | positionSettled hx => exact .inl (kept_round hx hr rfl rfl)
  | roundVoided hx => exact .inl (kept_round hx hr rfl rfl)
  | roundClosed => exact .inl ⟨r', Finmap.lookup_of_erase hr, rfl, rfl⟩
  | _ => exact .inl ⟨r', hr, rfl, rfl⟩

theorem effect_currentEpochEndsAt (range : w.pool.InRange) (calendar : w.Calendar)
    (h : Effect rt w a w') (h1 : 1 ≤ w.pool.currentEpochId) :
    w.pool.currentEpochEndsAt ≤ w'.pool.currentEpochEndsAt := by
  cases h with
  | reconfigured _ hr => exact Int.le_of_eq hr.currentEpochEndsAt.symm
  | epochBegan _ _ hend hfloor _ heq =>
      have bounds := epochBegan_bounds range calendar hend hfloor
      have started := bounds.2.2.2 h1
      simp only [World.emit_pool]
      omega
  | _ => exact Int.le_refl _

theorem effect_roundsWithin (range : w.pool.InRange) (calendar : w.Calendar)
    (h : Effect rt w a w') (hi : w.RoundsWithin) : w'.RoundsWithin := by
  intro id r' hr'
  cases effect_round h hr' with
  | inl kept =>
      obtain ⟨r, hr, epochId, endsAt⟩ := kept
      have old := hi id r hr
      rw [epochId, endsAt]
      refine ⟨Nat.le_trans old.1 (effect_currentEpochId h), ?_⟩
      intro h1
      have later := effect_currentEpochEndsAt range calendar h (Nat.le_trans h1 old.1)
      exact Int.le_trans (old.2 h1) later
  | inr opened =>
      rw [opened.epochId, opened.currentEpochId, opened.currentEpochEndsAt]
      refine ⟨Nat.le_refl _, ?_⟩
      intro h1
      obtain ⟨e, he, hle⟩ := opened.within.resolve_left (Nat.ne_of_gt h1)
      obtain ⟨x, hx, -, hend⟩ := calendar.current h1
      obtain rfl := Option.some.inj (hx.symm.trans he)
      exact Int.le_trans hle (Int.le_of_eq hend)

theorem reachable_roundsWithin (h : Reachable rt w) : w.RoundsWithin := by
  refine h.invariant (P := fun w => w.RoundsWithin) ?_ fun before hi hs =>
    effect_roundsWithin (reachable_inRange before) (reachable_calendar before) (step_effect hs) hi
  intro start created id r hr
  exact absurd hr (created_no_round created)

end Steps

end HexVault
