import HexVault.Invariants.Books
import HexVault.Invariants.Boundaries
import HexVault.Invariants.Ledger

/-!
Ticket conservation. A Ticket is an Entry, part of a live pot, a reward not yet
collected or part of the pot carried to the next round; within an epoch every
step moves Tickets between these places, and only Principal, a purchase or a
grant makes new ones. `begin_epoch` returns all of them to Principal, except the
carried pot.
-/

namespace HexVault

open Fallible Finmap

/-- The Entries a touch would find: in an epoch not yet acted in, the Principal. -/
def entriesNow (current : Nat) (_ : Pubkey) (p : Player) : Nat :=
  if p.epochId = current then p.entries else p.principal

/-- The pot of a round of the current epoch that is not settled yet. -/
def livePot (current : Nat) (_ : Nat) (r : Round) : Nat :=
  if r.epochId = current ∧ (r.status = .open ∨ r.status = .requested) then r.pot else 0

/-- What `settle_position` would credit. -/
def rewardOf (pool : Pool) (r : Round) (x : Position) : Nat :=
  (positionReward pool r x).toOption.getD 0

def World.entries (w : World) : Nat := total (entriesNow w.pool.currentEpochId) w.players

def World.livePots (w : World) : Nat := total (livePot w.pool.currentEpochId) w.rounds

def World.unsettled (w : World) : Nat := total (onRound (rewardOf w.pool) w.rounds) w.positions

/-- Every Ticket of the current epoch, wherever it is. -/
def World.tickets (w : World) : Nat :=
  w.entries + (w.livePots + w.unsettled) + w.pool.carryPot

/-- Tickets bought or granted by a step. -/
def issued (w : World) : Action → Nat
  | .buyTickets _ _ amount => amount * w.pool.ticketsPerUsdc
  | .grantTickets _ _ amount => amount
  | _ => 0

/-- Principal a step takes out of play. -/
def takenOut (w : World) : Action → Nat
  | .requestWithdraw _ amount => amount
  | .emergencyWithdraw owner _ => w.held owner
  | _ => 0

/-- A figure summed over the steps since the current epoch was begun. -/
def thisEpoch (f : World → Action → Nat) : History → Nat
  | [] => 0
  | (w, a) :: history => if a.beginsEpoch then 0 else thisEpoch f history + f w a

section Entries
variable {players : Finmap fun _ : Pubkey => Player} {owner : Pubkey}
  {p q r : Player} {pool : Pool} {now : Int} {preCredit : Nat}

theorem touch_entries (owner : Pubkey) (behind : p.epochId ≤ pool.currentEpochId)
    (h : touch p pool now = .ok q) : q.entries = entriesNow pool.currentEpochId owner p := by
  cases touch_cases h with
  | inl same =>
      rw [same.entries, entriesNow, if_pos (Nat.le_antisymm behind same.current)]
  | inr new => rw [new.entries, entriesNow, if_neg (Nat.ne_of_lt new.behind)]

/-- A touched Player's own change is the change of the total. -/
theorem entries_moved (ha : players.lookup owner = some p)
    (behind : p.epochId ≤ pool.currentEpochId) (ht : touch p pool now = .ok q)
    (hr : r.epochId = q.epochId) :
    total (entriesNow pool.currentEpochId) (players.insert owner r) + q.entries =
      total (entriesNow pool.currentEpochId) players + r.entries := by
  have moved := total_insert_add (entriesNow pool.currentEpochId) ha r
  have current : entriesNow pool.currentEpochId owner r = r.entries := by
    rw [entriesNow, if_pos (hr.trans (touch_epochId behind ht))]
  rw [current, ← touch_entries _ behind ht] at moved
  exact moved

/-- A Player rewritten without a touch. -/
theorem entries_booked (current : Nat) (ha : players.lookup owner = some p)
    (he : r.epochId = p.epochId) (hp : r.principal = p.principal) (hr : r.entries = p.entries) :
    total (entriesNow current) (players.insert owner r) + p.entries =
      total (entriesNow current) players + r.entries := by
  have same : entriesNow current owner r = entriesNow current owner p := by
    rw [entriesNow, entriesNow, he, hp, hr]
  rw [total_insert_of_eq ha same, hr]

end Entries

section Rewards
variable {pool : Pool} {r : Round} {x : Position} {reward : Nat}

theorem rewardOf_of_ok (h : positionReward pool r x = .ok reward) :
    rewardOf pool r x = reward := by
  rw [rewardOf, h]
  rfl

theorem rewardOf_congr {pool' : Pool} {r' : Round} (hp : pool'.currentEpochId = pool.currentEpochId)
    (epochId : r'.epochId = r.epochId) (status : r'.status = r.status)
    (tile : r'.winningTile = r.winningTile) (tiles : r'.tileTotals = r.tileTotals)
    (pot : r'.pot = r.pot) (cut : r'.houseCut = r.houseCut) :
    rewardOf pool' r' x = rewardOf pool r x := by
  simp only [rewardOf, positionReward, Round.tileTotal, hp, epochId, status, tile, tiles, pot, cut]

/-- Nothing is owed on a round that has not settled in the current epoch. -/
theorem rewardOf_zero (h : ¬ (r.epochId = pool.currentEpochId ∧ r.status = .settled)) :
    rewardOf pool r x = 0 := by
  have none : positionReward pool r x = .ok 0 := if_neg fun all => h ⟨all.1, all.2.1⟩
  rw [rewardOf_of_ok none]

theorem rewardOf_unsettled {r' : Round} {status : RoundStatus} (h : r.status = status)
    (h' : r'.status = status) (hne : status ≠ .settled) : rewardOf pool r' x = rewardOf pool r x := by
  rw [rewardOf_zero fun both => hne (h'.symm.trans both.2),
    rewardOf_zero fun both => hne (h.symm.trans both.2)]

/-- A reward is the stake's share of the pot after the cut, rounded down. -/
theorem rewardOf_le {tile : Fin TILE_COUNT} (htile : r.winningTile = tile) :
    rewardOf pool r x ≤ (r.pot - r.houseCut) *
      (if tileIsCovered x.tiles tile = true then x.stakePerTile else 0) / r.tileTotals tile := by
  cases h : positionReward pool r x with
  | error e =>
      rw [rewardOf, h]
      exact Nat.zero_le _
  | ok reward =>
      rw [rewardOf_of_ok h]
      simp only [positionReward] at h
      split at h
      · rename_i wins
        simp only [bind_eq_ok, subU_eq_ok, mulU128_eq_ok, require_eq_ok, narrowU64_eq_ok,
          exists_const] at h
        obtain ⟨_, htotal, _, ⟨-, rfl⟩, _, ⟨-, rfl⟩, -, -, rfl⟩ := h
        obtain ⟨t, hwin, rfl⟩ := tileTotal_eq_ok htotal
        have same : t = tile := Fin.ext (hwin.trans htile)
        rw [htile] at wins
        rw [same, if_pos wins.2.2]
      · cases h
        exact Nat.zero_le _

section Owed
variable {rounds : Finmap fun _ : Nat => Round}
  {positions : Finmap fun _ : Nat × Pubkey => Position} {id : Nat} {owner : Pubkey}
  {r' : Round}

theorem owed_bought (h : rounds.lookup id = some r)
    (hx : positions.lookup (id, owner) = none) (before : r.status = .open)
    (after : r'.status = .open) :
    total (onRound (rewardOf pool) (rounds.insert id r')) (positions.insert (id, owner) x) + 0 ≤
      total (onRound (rewardOf pool) rounds) positions + 0 := by
  have nothing : rewardOf pool r x = 0 := by
    refine rewardOf_zero fun both => ?_
    rw [before] at both
    exact nomatch both.2
  rw [onRound_buy _ h hx fun _ => rewardOf_unsettled before after nofun, nothing, Nat.zero_add]

theorem owed_none (h : ¬ (r.epochId = pool.currentEpochId ∧ r.status = .settled)) :
    total (onlyOn id (rewardOf pool r)) positions = 0 := by
  refine total_eq_zero ?_
  intro key x _
  rw [onlyOn, rewardOf_zero h, ite_self]

/-- What a settled round owes its Positions is within its pot after the cut. -/
theorem owed_le {tile : Fin TILE_COUNT}
    (staked : total (stakedOn id tile) positions ≤ r.tileTotals tile)
    (htile : r.winningTile = tile) :
    total (onlyOn id (rewardOf pool r)) positions ≤
      if r.epochId = pool.currentEpochId ∧ r.status = .settled then r.pot - r.houseCut else 0 := by
  split
  · refine Nat.le_trans (total_mono ?_) (total_share_le (stakedOn id tile) _ staked)
    intro key x _
    rw [onlyOn, stakedOn]
    by_cases same : key.1 = id
    · simp only [same, true_and]
      exact rewardOf_le htile
    · rw [if_neg same]
      exact Nat.zero_le _
  · rename_i other
    exact Nat.le_of_eq (owed_none other)

/-- A round rewritten owes what it owes afterwards, and at least nothing before. -/
theorem owed_write (h : rounds.lookup id = some r) :
    total (onRound (rewardOf pool) (rounds.insert id r')) positions ≤
      total (onRound (rewardOf pool) rounds) positions +
        total (onlyOn id (rewardOf pool r')) positions :=
  Nat.le_trans (Nat.le_add_right _ _) (Nat.le_of_eq (onRound_write (rewardOf pool) h r' positions))

theorem owed_idle (h : rounds.lookup id = some r) (idle : r'.status ≠ .settled) :
    total (onRound (rewardOf pool) (rounds.insert id r')) positions + 0 ≤
      total (onRound (rewardOf pool) rounds) positions + 0 := by
  refine Nat.le_trans (owed_write h) ?_
  rw [owed_none fun both => idle both.2]

theorem owed_settled {tile : Fin TILE_COUNT} (h : rounds.lookup id = some r)
    (staked : total (stakedOn id tile) positions ≤ r.tileTotals tile)
    (tiles : r'.tileTotals = r.tileTotals) (htile : r'.winningTile = tile) :
    total (onRound (rewardOf pool) (rounds.insert id r')) positions + 0 ≤
      total (onRound (rewardOf pool) rounds) positions +
        if r'.epochId = pool.currentEpochId ∧ r'.status = .settled then r'.pot - r'.houseCut
        else 0 := by
  rw [← tiles] at staked
  exact Nat.le_trans (owed_write h) (Nat.add_le_add_left (owed_le staked htile) _)

theorem owed_collected (h : rounds.lookup id = some r)
    (hx : positions.lookup (id, owner) = some x) (hreward : positionReward pool r x = .ok reward)
    (same : ∀ x, rewardOf pool r' x = rewardOf pool r x) :
    total (onRound (rewardOf pool) (rounds.insert id r')) (positions.erase (id, owner)) + reward ≤
      total (onRound (rewardOf pool) rounds) positions + 0 := by
  have moved := onRound_settle (rewardOf pool) h hx same
  rw [rewardOf_of_ok hreward] at moved
  omega

end Owed

end Rewards

section Steps
variable {rt : Runtime} {w w' : World} {a : Action} {owner : Pubkey} {p q r : Player}

theorem rewardOf_pool {pool pool' : Pool} (h : pool'.currentEpochId = pool.currentEpochId) :
    rewardOf pool' = rewardOf pool := by
  funext r x
  exact rewardOf_congr h rfl rfl rfl rfl rfl rfl

/-- Nothing but the Players' Entries moved. -/
structure SameRounds (w w' : World) : Prop where
  currentEpochId : w'.pool.currentEpochId = w.pool.currentEpochId
  carryPot : w'.pool.carryPot = w.pool.carryPot
  rounds : w'.rounds = w.rounds
  positions : w'.positions = w.positions

theorem tickets_players (same : SameRounds w w') :
    w'.tickets + w.entries = w.tickets + w'.entries := by
  simp only [World.tickets, World.livePots, World.unsettled, same.currentEpochId, same.carryPot,
    same.rounds, same.positions, rewardOf_pool same.currentEpochId]
  omega

theorem tickets_same (same : SameRounds w w') (players : w'.players = w.players) :
    w'.tickets + 0 = w.tickets + 0 := by
  have moved := tickets_players same
  rw [World.entries, World.entries, same.currentEpochId, players] at moved
  exact Nat.add_right_cancel moved

theorem tickets_moved (same : SameRounds w w') (ha : w.players.lookup owner = some p)
    (behind : p.epochId ≤ w.pool.currentEpochId) (ht : touch p w.pool w.clock = .ok q)
    (players : w'.players = w.players.insert owner r) (hr : r.epochId = q.epochId) :
    w'.tickets + q.entries = w.tickets + r.entries := by
  have moved := tickets_players same
  have entries := entries_moved ha behind ht hr
  rw [World.entries, World.entries, same.currentEpochId, players] at moved
  omega

theorem tickets_booked (same : SameRounds w w') (ha : w.players.lookup owner = some p)
    (players : w'.players = w.players.insert owner r) (hr : r.epochId = p.epochId)
    (hp : r.principal = p.principal) (he : r.entries = p.entries) :
    w'.tickets + p.entries = w.tickets + r.entries := by
  have moved := tickets_players same
  have booked := entries_booked w.pool.currentEpochId ha hr hp he
  rw [World.entries, World.entries, same.currentEpochId, players] at moved
  omega

/-- A Player who may have been touched, then credited. -/
theorem tickets_credited (same : SameRounds w w') (ha : w.players.lookup owner = some p)
    (behind : p.epochId ≤ w.pool.currentEpochId) {credited : Nat}
    (hq : YieldTouch w p credited q) (players : w'.players = w.players.insert owner r)
    (hr : r.epochId = q.epochId) (hp : r.principal = q.principal + credited)
    (he : r.entries = q.entries + credited) :
    w'.tickets + q.entries = w.tickets + r.entries := by
  cases hq with
  | inl nothing =>
      obtain ⟨rfl, rfl⟩ := nothing
      exact tickets_booked same ha players hr hp he
  | inr touched => exact tickets_moved same ha behind touched players hr

theorem tickets_le {x y : Nat} (h : w'.tickets + x = w.tickets + y)
    (le : y + w.pool.totalPrincipal ≤
      x + w'.pool.totalPrincipal + issued w a + takenOut w a) :
    w'.tickets + w.pool.totalPrincipal ≤
      w.tickets + w'.pool.totalPrincipal + issued w a + takenOut w a := by
  omega

/-- An account made by a deposit had no Entries before it. -/
theorem initIfFresh_entries (owned : Owned w.players) (owner : Pubkey) :
    entriesNow w.pool.currentEpochId owner
        (((w.players.lookup owner).getD Player.zeroed).initIfFresh owner w.pool w.clock) =
      entriesNow w.pool.currentEpochId owner ((w.players.lookup owner).getD Player.zeroed) := by
  cases hp : w.players.lookup owner with
  | none =>
      rw [Option.getD_none, initIfFresh_zeroed]
      exact (ite_self 0).trans (ite_self 0).symm
  | some p => rw [Option.getD_some, Player.initIfFresh, if_pos (owned hp).2]

theorem initIfFresh_behind (accounts : w.Accounts) (owner : Pubkey) :
    (((w.players.lookup owner).getD Player.zeroed).initIfFresh owner w.pool w.clock).epochId ≤
      w.pool.currentEpochId := by
  cases hp : w.players.lookup owner with
  | none =>
      rw [Option.getD_none, initIfFresh_zeroed]
  | some p =>
      rw [Option.getD_some, Player.initIfFresh, if_pos (accounts.owned hp).2]
      exact accounts.behind hp

theorem tickets_deposited (accounts : w.Accounts) (same : SameRounds w w')
    (ht : touch (((w.players.lookup owner).getD Player.zeroed).initIfFresh owner w.pool w.clock)
      w.pool w.clock = .ok q)
    (players : w'.players = w.players.insert owner r) (hr : r.epochId = q.epochId) :
    w'.tickets + q.entries = w.tickets + r.entries := by
  have behind := initIfFresh_behind accounts owner
  have before := touch_entries owner behind ht
  rw [initIfFresh_entries accounts.owned] at before
  have zero : entriesNow w.pool.currentEpochId owner Player.zeroed = 0 := ite_self 0
  have after : entriesNow w.pool.currentEpochId owner r = r.entries := by
    rw [entriesNow, if_pos (hr.trans (touch_epochId behind ht))]
  have written := total_insert_getD (entriesNow w.pool.currentEpochId) zero w.players r
  have moved := tickets_players same
  rw [← before, after] at written
  rw [World.entries, World.entries, same.currentEpochId, players] at moved
  omega

/-- A step within an epoch, place by place. -/
theorem tickets_places {x y u v s t : Nat}
    (current : w'.pool.currentEpochId = w.pool.currentEpochId)
    (entries : total (entriesNow w.pool.currentEpochId) w'.players + x =
      total (entriesNow w.pool.currentEpochId) w.players + y)
    (pots : total (livePot w.pool.currentEpochId) w'.rounds + u =
      total (livePot w.pool.currentEpochId) w.rounds + v)
    (owed : total (onRound (rewardOf w.pool) w'.rounds) w'.positions + s ≤
      total (onRound (rewardOf w.pool) w.rounds) w.positions + t)
    (le : y + v + t + w'.pool.carryPot + w.pool.totalPrincipal ≤
      x + u + s + w.pool.carryPot + w'.pool.totalPrincipal) :
    w'.tickets + w.pool.totalPrincipal ≤
      w.tickets + w'.pool.totalPrincipal + issued w a + takenOut w a := by
  simp only [World.tickets, World.entries, World.livePots, World.unsettled, current,
    rewardOf_pool current]
  omega

/-- The House's cut is a part of the pot. -/
theorem houseCut_le {pool : Pool} (range : pool.InRange) {forfeited : Prop} [Decidable forfeited]
    {pot cut : Nat} (h : cut = if forfeited then 0 else pot * pool.houseCutBps / BPS_DENOMINATOR) :
    cut ≤ pot := by
  rw [h]
  split
  · exact Nat.zero_le _
  · exact cut_le range.houseCutBps

theorem livePot_create {rounds : Finmap fun _ : Nat => Round} {id current : Nat} {r : Round}
    (h : rounds.lookup id = none) : total (livePot current) (rounds.insert id r) + 0 =
      total (livePot current) rounds + livePot current id r := by
  rw [total_insert, total_erase_of_notMem _ h, Nat.add_comm (livePot current id r), Nat.add_zero]

theorem livePot_close {rounds : Finmap fun _ : Nat => Round} {id current : Nat} {r : Round}
    (h : rounds.lookup id = some r) : total (livePot current) (rounds.erase id) +
      livePot current id r = total (livePot current) rounds + 0 := by
  rw [total_erase _ h, Nat.add_comm, Nat.add_zero]

/-- A settled round is worth no more than its pot: the House's share, credited or lost with its
epoch, and what the stakes on the winning tile are owed. -/
theorem tickets_settled {roundId : Nat} {round : Round} {account house : Player}
    {tile : Fin TILE_COUNT} {houseCut : Nat} {es : List Event} (range : w.pool.InRange)
    (accounts : w.Accounts) (books : w.Books) (hr : w.rounds.lookup roundId = some round)
    (ha : w.players.lookup w.pool.house = some account) (hs : round.status = .requested)
    (hcut : houseCut = if round.tileTotals tile = 0 then 0
      else round.pot * w.pool.houseCutBps / BPS_DENOMINATOR)
    (hh : HouseShare w (decide (round.epochId = w.pool.currentEpochId))
      (decide (round.tileTotals tile = 0))
      (if round.tileTotals tile = 0 then round.pot else houseCut) account house)
    (settled : w' = ({ w with
      pool := { w.pool with openRoundId := 0 }
      players := w.players.insert w.pool.house house
      rounds := w.rounds.insert roundId { round with
        status := if round.tileTotals tile = 0 then .forfeited else .settled
        houseCut, winningTile := tile } }.emit es)) :
    w'.tickets + w.pool.totalPrincipal ≤
      w.tickets + w'.pool.totalPrincipal + issued w a + takenOut w a := by
  subst settled
  have cut := houseCut_le range hcut
  have staked := books.staked hr tile
  cases hh with
  | credited hcur _ ht =>
      have current := of_decide_eq_true hcur
      refine tickets_places rfl (entries_moved ha (accounts.behind ha) ht rfl)
        (total_insert_add _ hr _) (owed_settled hr staked rfl rfl) ?_
      by_cases forfeited : round.tileTotals tile = 0 <;>
        simp only [World.emit_pool, livePot, hs, current, forfeited, if_true, true_and,
          or_true, reduceCtorEq, or_self, if_false] <;>
        omega
  | evaporated none =>
      refine tickets_places rfl (entries_booked _ ha rfl rfl rfl)
        (total_insert_add _ hr _) (owed_settled hr staked rfl rfl) ?_
      by_cases current : round.epochId = w.pool.currentEpochId
      · by_cases forfeited : round.tileTotals tile = 0 <;>
          simp only [World.emit_pool, livePot, hs, current, forfeited, if_true, true_and,
            or_true, reduceCtorEq, or_self, if_false] <;>
          omega
      · simp only [World.emit_pool, livePot, current, false_and, if_false]
        omega

/-- A step within an epoch makes no Ticket but for new Principal, a purchase or a
grant. -/
theorem effect_tickets (range : w.pool.InRange) (accounts : w.Accounts) (books : w.Books)
    (h : Effect rt w a w') (within : a.beginsEpoch = false) :
    w'.tickets + w.pool.totalPrincipal ≤
      w.tickets + w'.pool.totalPrincipal + issued w a + takenOut w a := by
  cases h with
  | reconfigured _ hr =>
      refine tickets_le (tickets_same ⟨hr.currentEpochId, hr.carryPot, rfl, rfl⟩ rfl) ?_
      simp only [World.emit_pool, hr.totalPrincipal]
      omega
  | deposited ht =>
      refine tickets_le (tickets_deposited accounts ⟨rfl, rfl, rfl, rfl⟩ ht rfl rfl) ?_
      simp only [World.emit_pool]
      omega
  | withdrawRequested ha ht hle hpool =>
      have behind := accounts.behind ha
      refine tickets_le (tickets_moved ⟨rfl, rfl, rfl, rfl⟩ ha behind ht rfl rfl) ?_
      simp only [World.emit_pool, takenOut]
      omega
  | withdrawn ha =>
      refine tickets_le (tickets_booked ⟨rfl, rfl, rfl, rfl⟩ ha rfl rfl rfl rfl) ?_
      simp only [World.emit_pool]
      omega
  | emergencyWithdrawn ha ht =>
      have principal := (touch_sameHoldings ht).principal
      have behind := accounts.behind ha
      refine tickets_le (tickets_moved ⟨rfl, rfl, rfl, rfl⟩ ha behind ht rfl rfl) ?_
      simp only [World.emit_pool, takenOut, held_of_lookup ha]
      omega
  | ticketsBought ha ht _ _ _ hc =>
      have behind := accounts.behind ha
      have epoch := congrArg Player.epochId hc.player
      refine tickets_le (tickets_moved ⟨rfl, rfl, rfl, rfl⟩ ha behind ht rfl epoch) ?_
      rw [hc.player]
      simp only [World.emit_pool, issued]
      omega
  | ticketsGranted ha ht hc =>
      have behind := accounts.behind ha
      have epoch := congrArg Player.epochId hc.player
      refine tickets_le (tickets_moved ⟨rfl, rfl, rfl, rfl⟩ ha behind ht rfl epoch) ?_
      rw [hc.player]
      simp only [World.emit_pool, issued]
      omega
  | registeredNothing _ ha _ _ _ _ _ hq =>
      have behind := accounts.behind ha
      refine tickets_le (tickets_credited ⟨rfl, rfl, rfl, rfl⟩ ha behind hq rfl rfl rfl rfl) ?_
      simp only [World.emit_pool, Pool.creditYield, Player.creditYield]
      omega
  | registered _ ha _ _ _ _ _ _ hq =>
      have behind := accounts.behind ha
      refine tickets_le (tickets_credited ⟨rfl, rfl, rfl, rfl⟩ ha behind hq rfl rfl rfl rfl) ?_
      simp only [World.emit_pool, Pool.creditYield, Player.creditYield]
      omega
  | paidPlayer _ ha _ _ _ _ _ ht =>
      have behind := accounts.behind ha
      refine tickets_le (tickets_moved ⟨rfl, rfl, rfl, rfl⟩ ha behind ht rfl rfl) ?_
      simp only [World.emit_pool]
      omega
  | roundCreated hnew =>
      refine tickets_places (x := 0) (y := 0) (s := 0) (t := 0) rfl rfl (livePot_create hnew)
        (Nat.le_of_eq (onRound_create _ books hnew)) ?_
      simp only [World.emit_pool, livePot, newRound, true_and, reduceCtorEq, or_false, if_true]
      omega
  | positionBought ha hr hx ht _ ho _ _ _ _ _ afford =>
      refine tickets_places rfl (entries_moved ha (accounts.behind ha) ht rfl)
        (total_insert_add _ hr _) (owed_bought hr hx ho ho) ?_
      simp only [World.emit_pool, livePot]
      split <;> omega
  | roundRequested hr ho =>
      refine tickets_places (x := 0) (y := 0) rfl rfl (total_insert_add _ hr _)
        (owed_idle hr (by simp)) ?_
      simp only [livePot, ho, true_or, or_true]
      omega
  | roundSettled hr ha hs hcut hh => exact tickets_settled range accounts books hr ha hs hcut hh rfl
  | positionSettled hr ha hx ht hf hreward =>
      refine tickets_places rfl (entries_moved ha (accounts.behind ha) ht rfl)
        (total_insert_add _ hr _) (owed_collected hr hx hreward ?_) ?_
      · intro _
        exact rewardOf_congr rfl rfl rfl rfl rfl rfl rfl
      · simp only [World.emit_pool, livePot]
        omega
  | roundVoided hr hs =>
      refine tickets_places (x := 0) (y := 0) rfl rfl (total_insert_add _ hr _)
        (owed_idle hr (by simp)) ?_
      simp only [World.emit_pool, livePot, hs.symm, reduceCtorEq, or_self, and_false, if_false,
        and_true]
      omega
  | roundClosed hr hf zero =>
      refine tickets_places (x := 0) (y := 0) (s := 0) (t := 0) rfl rfl (livePot_close hr)
        (Nat.le_of_eq (onRound_close _ books hr zero)) ?_
      simp only [World.emit_pool]
      omega
  | epochBegan => cases within
  | _ =>
      refine tickets_le (tickets_same ⟨rfl, rfl, rfl, rfl⟩ rfl) ?_
      simp only [World.emit_pool]
      omega

/-- A begun epoch returns every Ticket to Principal, and leaves the carried pot. -/
theorem began_tickets (accounts : w.Accounts) (within : w.RoundsWithin)
    (principal : w.pool.totalPrincipal = total principalOf w.players) (began : Began w w') :
    w'.tickets = w'.pool.totalPrincipal + w.pool.carryPot := by
  have entries : w'.entries = w.pool.totalPrincipal := by
    rw [World.entries, began.currentEpochId, began.players, principal]
    refine total_congr ?_
    intro owner p hp
    have behind := accounts.behind hp
    exact if_neg (by omega)
  have old : ∀ {id r}, w.rounds.lookup id = some r → r.epochId ≠ w.pool.currentEpochId + 1 := by
    intro id r hr
    have := (within id r hr).1
    omega
  have pots : w'.livePots = 0 := by
    rw [World.livePots, began.currentEpochId, began.rounds]
    exact total_eq_zero fun id r hr => if_neg fun live => old hr live.1
  have owed : w'.unsettled = 0 := by
    rw [World.unsettled, began.rounds, began.positions]
    refine onRound_eq_zero _ ?_
    intro id r hr x
    refine rewardOf_zero fun both => old hr ?_
    rw [both.1, began.currentEpochId]
  rw [World.tickets, entries, pots, owed, began.carryPot, began.totalPrincipal]
  rfl

end Steps

/-- Every Ticket of the epoch is backed: by Principal, by a purchase or a grant,
or by Principal that left since the epoch was begun. -/
structure TicketsBacked (history : History) (w : World) : Prop where
  backed : w.entries + (w.livePots + w.unsettled) + w.pool.carryPot ≤
    w.pool.totalPrincipal + thisEpoch issued history + thisEpoch takenOut history
  begun : ∀ v operator older, history = (v, .beginEpoch operator) :: older →
    w.entries + (w.livePots + w.unsettled) + w.pool.carryPot ≤ w.pool.totalPrincipal

/-- An epoch is begun with no pot carried. -/
def carriesNothing (x : World × Action) : Bool :=
  match x.2 with
  | .beginEpoch _ => x.1.pool.carryPot = 0
  | _ => true

section Runs
variable {rt : Runtime} {w w' : World} {a : Action} {history : History}

/-- In every run whose epochs are begun with no pot carried, no Ticket of an
ended epoch is a Ticket of the next one. -/
theorem tickets_conserved (run : Run rt history w)
    (nothing : ∀ x ∈ history, carriesNothing x = true) : TicketsBacked history w := by
  have backed : w.tickets ≤
      w.pool.totalPrincipal + thisEpoch issued history + thisEpoch takenOut history := by
    refine run.invariantWhile (P := fun history w => w.tickets ≤
      w.pool.totalPrincipal + thisEpoch issued history + thisEpoch takenOut history)
      (C := fun x => carriesNothing x = true) ?_ ?_ nothing
    · intro start created
      obtain ⟨params, accounts, now, -, -, h⟩ := created
      obtain ⟨-, es, rfl⟩ := createPool_eq_ok h
      exact Nat.le_refl _
    · intro history v b u before hv hc hs
      have reachable := before.reachable
      have range := reachable_inRange reachable
      have accounts := reachable_accounts reachable
      have effect := step_effect hs
      cases effect_span range (reachable_calendar reachable) effect with
      | inl kept =>
          have within : b.beginsEpoch = false := by
            cases b with
            | beginEpoch operator => exact absurd rfl (kept.1 operator)
            | _ => rfl
          have moved := effect_tickets range accounts (reachable_books reachable) effect within
          simp only [thisEpoch, within, Bool.false_eq_true, if_false]
          omega
      | inr began =>
          obtain ⟨⟨operator, rfl⟩, began⟩ := began
          have fresh := began_tickets accounts (reachable_roundsWithin reachable)
            (run_ledger before).principal began
          have carried : v.pool.carryPot = 0 := of_decide_eq_true hc
          rw [fresh, carried]
          exact Nat.le_refl _
  refine ⟨backed, ?_⟩
  intro v operator older heq
  rw [heq] at backed
  exact backed

/-- A voided pot carried into the next round of its epoch; then, in the next
epoch, 9 Tickets bought and 50 staked. -/
theorem tickets_conserved_carried : ∃ history w, Run Demo.runtime history w ∧
    w.entries = 59 ∧ w.livePots = 50 ∧ w.pool.carryPot = 0 ∧ TicketsBacked history w := by
  let player := Demo.signer 3
  let wallet := Demo.wallet player
  obtain ⟨⟨history, w⟩, hrun, hcheck⟩ := exists_of_any
    (x := Demo.script [.setFeaturePause Demo.admin .jackpot false,
      .setFeaturePause Demo.admin .game false, .deposit player wallet 100,
      .beginEpoch Demo.operator, .createRound Demo.operator 1000 1010,
      .buyPosition player 1 1 100, .wait 1071, .voidRound 1 ⟨⟨9⟩, []⟩,
      .createRound Demo.operator 1071 1081, .wait 1190, .voidRound 2 ⟨⟨9⟩, []⟩,
      .createRound Demo.operator 1080 1090, .beginEpoch Demo.operator,
      .buyTickets player wallet 9, .wait 1195, .voidRound 3 ⟨⟨9⟩, []⟩,
      .createRound Demo.operator 1190 1200, .buyPosition player 4 1 50])
    (p := fun r => r.1.all carriesNothing && r.2.entries = 59 && r.2.livePots = 50 &&
      r.2.pool.carryPot = 0) (by decide +kernel)
  simp only [Bool.and_eq_true, List.all_eq_true, decide_eq_true_eq] at hcheck
  obtain ⟨⟨⟨nothing, entries⟩, pots⟩, carried⟩ := hcheck
  have run := Demo.script_run hrun
  exact ⟨history, w, run, entries, pots, carried, tickets_conserved run nothing⟩

/-- A pot voided in the last round of an epoch is still carried in the next. -/
theorem tickets_carried_over : ∃ history w, Run Demo.runtime history w ∧
    w.pool.currentEpochId = 2 ∧ ¬ TicketsBacked history w := by
  let player := Demo.signer 3
  obtain ⟨⟨history, w⟩, hrun, hcheck⟩ := exists_of_any
    (x := Demo.script [.setFeaturePause Demo.admin .jackpot false,
      .setFeaturePause Demo.admin .game false, .deposit player (Demo.wallet player) 100,
      .beginEpoch Demo.operator, .createRound Demo.operator 1000 1010,
      .buyPosition player 1 1 100, .wait 1071, .voidRound 1 ⟨⟨9⟩, []⟩, .wait 1100,
      .beginEpoch Demo.operator])
    (p := fun r => r.2.pool.currentEpochId = 2 && r.2.entries = 100 && r.2.pool.carryPot = 100 &&
      r.2.pool.totalPrincipal = 100 && thisEpoch issued r.1 = 0 && thisEpoch takenOut r.1 = 0)
    (by decide +kernel)
  simp only [Bool.and_eq_true, decide_eq_true_eq] at hcheck
  obtain ⟨⟨⟨⟨⟨current, entries⟩, carried⟩, principal⟩, hissued⟩, hout⟩ := hcheck
  refine ⟨history, w, Demo.script_run hrun, current, ?_⟩
  intro conserved
  have backed := conserved.backed
  omega

end Runs

end HexVault
