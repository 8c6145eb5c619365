import HexVault.Invariants.Lifetime
import HexVault.Invariants.Tickets
import HexVault.Lib.Shares
import Mathlib.Algebra.BigOperators.Fin

/-!
Round solvency. What a round took in is its carry and its stakes, tile by tile;
a Position that is settled leaves the accounts and enters the round's history, so
the stakes of a tile are those of the Positions left and of the ones settled. The
rewards of a settled round are shares of its pot after the cut, rounded down.
-/

namespace HexVault

open Fallible Finmap Shares

section Tiles
variable {tiles : BitVec 64}

theorem tile_off {bit : Nat} (h : tiles &&& ~~~TILE_MASK = 0) (hlo : TILE_COUNT ≤ bit)
    (hhi : bit < 64) : tiles.getLsbD bit = false := by
  have masked := congrArg (BitVec.getLsbD · bit) h
  have above : TILE_MASK.getLsbD bit = false := by
    rw [TILE_MASK, BitVec.getLsbD_ofNat, Nat.testBit_two_pow_sub_one]
    simp [Nat.not_lt.mpr hlo]
  simp only [BitVec.getLsbD_and, BitVec.getLsbD_not, above, hhi] at masked
  simpa using masked

theorem countP_range (p : Nat → Bool) (n : Nat) :
    (List.range n).countP p = ∑ i ∈ Finset.range n, if p i then 1 else 0 := by
  induction n with
  | zero => rfl
  | succ n ih =>
      rw [List.range_succ, List.countP_append, ih, Finset.sum_range_succ, List.countP_singleton]

/-- The number of bits of a mask is the number of tiles it covers. -/
theorem countOnes_eq (h : tiles &&& ~~~TILE_MASK = 0) :
    countOnes tiles = ∑ tile : Fin TILE_COUNT, if tileIsCovered tiles tile then 1 else 0 := by
  have covered : ∀ tile : Fin TILE_COUNT,
      tileIsCovered tiles tile = tiles.getLsbD tile := by
    intro tile
    simp [tileIsCovered]
  simp only [covered]
  rw [countOnes, countP_range,
    Fin.sum_univ_eq_sum_range (fun i => if tiles.getLsbD i then 1 else 0) TILE_COUNT]
  symm
  refine Finset.sum_subset (Finset.range_subset_range.mpr (by decide)) ?_
  intro bit hin hout
  rw [Finset.mem_range] at hin hout
  rw [tile_off h (Nat.le_of_not_lt hout) hin]
  rfl

/-- A stake on each covered tile adds up to the stake times their number. -/
theorem sum_stakes (h : tiles &&& ~~~TILE_MASK = 0) (stake : Nat) :
    (∑ tile : Fin TILE_COUNT, if tileIsCovered tiles tile then stake else 0) =
      stake * countOnes tiles := by
  rw [countOnes_eq h, Finset.mul_sum]
  refine Finset.sum_congr rfl ?_
  intro tile _
  split <;> simp

end Tiles

/-- The Position a step settles on a round, with the world it is settled in. -/
def settlement (id : Nat) (x : World × Action) : Option (World × Position) :=
  match x.2 with
  | .settlePosition round owner =>
      if round = id then (x.1.positions.lookup (id, owner)).map fun p => (x.1, p) else none
  | _ => none

/-- The Positions of a round settled so far. -/
def settlements (id : Nat) (history : History) : List (World × Position) :=
  history.filterMap (settlement id)

/-- What `settle_position` credited for a Position it settled. -/
def creditedBy (id : Nat) (s : World × Position) : Nat :=
  (s.1.rounds.lookup id).elim 0 fun r => rewardOf s.1.pool r s.2

/-- All rewards a round ever credited. -/
def rewards (id : Nat) (history : History) : Nat :=
  ((settlements id history).map (creditedBy id)).sum

/-- The carried pot a round was created with. -/
def startedWith (id : Nat) : History → Nat
  | [] => 0
  | (w, .createRound ..) :: earlier =>
      if w.pool.nextRoundId = id then w.pool.carryPot else startedWith id earlier
  | _ :: earlier => startedWith id earlier

/-- What a settled Position had on a tile. -/
def stakeOf (tile : Fin TILE_COUNT) (s : World × Position) : Nat :=
  if tileIsCovered s.2.tiles tile then s.2.stakePerTile else 0

/-- The reward of a settled Position in terms of its round as it stands. -/
def rewardIn (r : Round) (tile : Fin TILE_COUNT) (s : World × Position) : Nat :=
  if r.epochId = s.1.pool.currentEpochId ∧ r.status = .settled then
    share (r.pot - r.houseCut) (r.tileTotals tile) (stakeOf tile s)
  else 0

/-- A reward is the stake's share of the pot after the cut, where there is one. -/
theorem reward_eq {w : World} {r : Round} {x : Position} {reward : Nat} {tile : Fin TILE_COUNT}
    (htile : r.winningTile = tile) (h : positionReward w.pool r x = .ok reward) :
    reward = rewardIn r tile (w, x) := by
  simp only [positionReward] at h
  split at h
  · rename_i wins
    simp only [bind_eq_ok, subU_eq_ok, mulU128_eq_ok, require_eq_ok, narrowU64_eq_ok,
      exists_const] at h
    obtain ⟨_, htotal, _, ⟨-, rfl⟩, _, ⟨-, rfl⟩, -, -, rfl⟩ := h
    obtain ⟨t, hwin, rfl⟩ := tileTotal_eq_ok htotal
    have same : t = tile := Fin.ext (hwin.trans htile)
    rw [htile] at wins
    rw [rewardIn, if_pos ⟨wins.1, wins.2.1⟩, stakeOf, if_pos wins.2.2, share, same]
  · rename_i loses
    cases h
    rw [htile] at loses
    rw [rewardIn]
    split
    · rename_i settled
      have off : ¬ tileIsCovered x.tiles tile = true := fun on => loses ⟨settled.1, settled.2, on⟩
      rw [stakeOf, if_neg off, share, Nat.mul_zero, Nat.zero_div]
    · rfl

/-- A round's books: its stakes and its pot against the Positions on it and the
ones settled from it. -/
structure Accounted (id : Nat) (settled : List (World × Position)) (carry : Nat)
    (positions : Finmap fun _ : Nat × Pubkey => Position) (r : Round) : Prop where
  staked : ∀ tile, total (stakedOn id tile) positions + (settled.map (stakeOf tile)).sum =
    r.tileTotals tile
  pot : r.pot = carry + ∑ tile, r.tileTotals tile
  cut : r.houseCut ≤ r.pot
  paid : ∀ tile : Fin TILE_COUNT, r.winningTile = tile →
    ∀ s ∈ settled, creditedBy id s = rewardIn r tile s
  won : ∃ tile : Fin TILE_COUNT, r.winningTile = tile ∧
    (r.status = .settled → 0 < r.tileTotals tile)

namespace Accounted
variable {id : Nat} {settled : List (World × Position)} {carry : Nat}
  {positions : Finmap fun _ : Nat × Pubkey => Position} {r r' : Round}

theorem create {pot : Nat} (epochId : Nat) (startsAt endsAt : Int)
    (none : ∀ {key x}, positions.lookup key = some x → key.1 ≠ id) :
    Accounted id [] pot positions (newRound id epochId startsAt endsAt pot) := by
  refine ⟨?_, ?_, Nat.zero_le _, ?_, ⟨⟨0, by decide⟩, rfl, nofun⟩⟩
  · intro tile
    have empty : total (stakedOn id tile) positions = 0 :=
      total_eq_zero fun key x hx => if_neg fun both => none hx both.1
    rw [empty]
    rfl
  · simp [newRound]
  · intro _ _ s hs
    exact absurd hs List.not_mem_nil

/-- A round that nothing was settled from yet, rewritten with its stakes as they were. -/
theorem write (hi : Accounted id [] carry positions r) (tiles : r'.tileTotals = r.tileTotals)
    (pot : r'.pot = r.pot) (cut : r'.houseCut ≤ r'.pot)
    (won : ∃ tile : Fin TILE_COUNT, r'.winningTile = tile ∧
      (r'.status = .settled → 0 < r'.tileTotals tile)) : Accounted id [] carry positions r' := by
  refine ⟨?_, ?_, cut, ?_, won⟩
  · intro tile
    rw [tiles]
    exact hi.staked tile
  · rw [pot, tiles]
    exact hi.pot
  · intro _ _ s hs
    exact absurd hs List.not_mem_nil

theorem buy (hi : Accounted id [] carry positions r) {owner : Pubkey} {x : Position}
    (none : positions.lookup (id, owner) = none) (mask : x.tiles &&& ~~~TILE_MASK = 0)
    (hopen : r.status = .open) (status : r'.status = r.status)
    (tiles : r'.tileTotals = fun tile => r.tileTotals tile +
      if tileIsCovered x.tiles tile then x.stakePerTile else 0)
    (pot : r'.pot = r.pot + x.stakePerTile * countOnes x.tiles)
    (cut : r'.houseCut = r.houseCut) (winning : r'.winningTile = r.winningTile) :
    Accounted id [] carry (positions.insert (id, owner) x) r' := by
  refine ⟨?_, ?_, ?_, ?_, ?_⟩
  · intro tile
    have old := hi.staked tile
    rw [total_insert, total_erase_of_notMem _ none, tiles, stakedOn]
    simp only [true_and]
    omega
  · rw [pot, tiles, hi.pot, Finset.sum_add_distrib, sum_stakes mask, Nat.add_assoc]
  · rw [cut, pot]
    exact Nat.le_trans hi.cut (Nat.le_add_right _ _)
  · intro _ _ s hs
    exact absurd hs List.not_mem_nil
  · obtain ⟨tile, htile, -⟩ := hi.won
    refine ⟨tile, winning.trans htile, ?_⟩
    intro ended
    rw [status, hopen] at ended
    cases ended

theorem settle (hi : Accounted id settled carry positions r) {w : World} {owner : Pubkey}
    {x : Position} {opened reward : Nat} (hx : positions.lookup (id, owner) = some x)
    (hr : w.rounds.lookup id = some r) (hreward : positionReward w.pool r x = .ok reward) :
    Accounted id ((w, x) :: settled) carry (positions.erase (id, owner))
      { r with openPositions := opened } := by
  have credited : creditedBy id (w, x) = reward := by
    rw [creditedBy, hr]
    exact rewardOf_of_ok hreward
  refine ⟨?_, hi.pot, hi.cut, ?_, hi.won⟩
  · intro tile
    have old := hi.staked tile
    have split := total_erase (stakedOn id tile) hx
    rw [List.map_cons, List.sum_cons, stakeOf]
    simp only [stakedOn, true_and] at split old ⊢
    omega
  · intro tile htile s hs
    cases List.mem_cons.mp hs with
    | inr old => exact hi.paid tile htile s old
    | inl new =>
        subst new
        rw [credited]
        exact reward_eq htile hreward

end Accounted

/-- The books of every round of a world. -/
def Booked (history : History) (w : World) : Prop :=
  ∀ id r, w.rounds.lookup id = some r →
    Accounted id (settlements id history) (startedWith id history) w.positions r

section Steps
variable {rt : Runtime} {history : History} {w w' : World} {a : Action} {id : Nat}

theorem settlements_nil (none : ∀ owner, timesSettled id owner history = 0) :
    settlements id history = [] := by
  refine List.filterMap_eq_nil_iff.mpr ?_
  rintro ⟨v, a⟩ hx
  cases a with
  | settlePosition round owner =>
      have quiet := List.countP_eq_zero.mp (none owner) _ hx
      simp only [Action.settles, and_true, decide_eq_true_eq] at quiet
      simp only [settlement, if_neg quiet]
  | _ => rfl

theorem Lifetime.settlements_none (life : Lifetime history w) {r : Round}
    (h : w.rounds.lookup id = some r) (waiting : ¬ isFinished r.status) :
    settlements id history = [] :=
  settlements_nil fun owner => life.waiting h waiting owner

theorem settlements_reconfigured (h : a.reconfigures = true) :
    settlements id ((w, a) :: history) = settlements id history := by
  cases a <;> first | rfl | exact nomatch h

theorem startedWith_reconfigured (h : a.reconfigures = true) :
    startedWith id ((w, a) :: history) = startedWith id history := by
  cases a <;> first | rfl | exact nomatch h

theorem stakedOn_other {tile : Fin TILE_COUNT} {other : Nat} {owner : Pubkey} {x : Position}
    (hne : other ≠ id) : stakedOn id tile (other, owner) x = 0 :=
  if_neg fun both => hne both.1

/-- A Position bought on another round leaves a round's books alone. -/
theorem Accounted.bought {settled : List (World × Position)} {carry other : Nat}
    {positions : Finmap fun _ : Nat × Pubkey => Position} {r : Round} {owner : Pubkey}
    {x : Position} (hi : Accounted id settled carry positions r) (hne : other ≠ id)
    (none : positions.lookup (other, owner) = none) :
    Accounted id settled carry (positions.insert (other, owner) x) r := by
  refine { hi with staked := ?_ }
  intro tile
  rw [total_insert, total_erase_of_notMem _ none, stakedOn_other hne, Nat.zero_add]
  exact hi.staked tile

/-- A Position settled on another round leaves a round's books alone. -/
theorem Accounted.settledElsewhere {settled : List (World × Position)} {carry other : Nat}
    {positions : Finmap fun _ : Nat × Pubkey => Position} {r : Round} {owner : Pubkey}
    {x : Position} (hi : Accounted id settled carry positions r) (hne : other ≠ id)
    (hx : positions.lookup (other, owner) = some x) :
    Accounted id settled carry (positions.erase (other, owner)) r := by
  refine { hi with staked := ?_ }
  intro tile
  have split := total_erase (stakedOn id tile) hx
  rw [stakedOn_other hne, Nat.zero_add] at split
  rw [← split]
  exact hi.staked tile

/-- A round rewritten, by a step that settles no Position and creates no round. -/
theorem Booked.write {r' : Round} (hi : Booked history w)
    (rounds : w'.rounds = w.rounds.insert id r') (positions : w'.positions = w.positions)
    (settled : ∀ id, settlements id ((w, a) :: history) = settlements id history)
    (started : ∀ id, startedWith id ((w, a) :: history) = startedWith id history)
    (own : Accounted id (settlements id history) (startedWith id history) w.positions r') :
    Booked ((w, a) :: history) w' := by
  intro other x hx
  rw [settled, started, positions]
  rw [rounds] at hx
  cases lookup_insert_cases hx with
  | inl same =>
      obtain ⟨rfl, rfl⟩ := same
      exact own
  | inr rest => exact hi other x rest.2

theorem created_booked (books : w.Books) (life : Lifetime history w) (hi : Booked history w)
    (hnew : w.rounds.lookup w.pool.nextRoundId = none) {operator : Signer}
    {startsAt endsAt : Int} {x : Nat} {r : Round}
    (hx : (w.rounds.insert w.pool.nextRoundId (newRound w.pool.nextRoundId w.pool.currentEpochId
      startsAt endsAt w.pool.carryPot)).lookup x = some r) :
    Accounted x (settlements x ((w, .createRound operator startsAt endsAt) :: history))
      (startedWith x ((w, .createRound operator startsAt endsAt) :: history)) w.positions r := by
  have quiet : settlements x ((w, .createRound operator startsAt endsAt) :: history) =
      settlements x history := rfl
  rw [quiet, startedWith]
  cases lookup_insert_cases hx with
  | inl same =>
      obtain ⟨rfl, rfl⟩ := same
      rw [if_pos rfl, settlements_nil fun owner => life.settled_none (life.fresh le_rfl owner)]
      exact Accounted.create _ _ _ (books.off_of_none hnew)
  | inr rest =>
      rw [if_neg (Ne.symm rest.1)]
      exact hi x r rest.2

theorem effect_booked (range : w.pool.InRange) (books : w.Books) (life : Lifetime history w)
    (h : Effect rt w a w') (hi : Booked history w) : Booked ((w, a) :: history) w' := by
  have live : ∀ {id r}, w.rounds.lookup id = some r → ¬ isFinished r.status →
      Accounted id [] (startedWith id history) w.positions r := by
    intro id r hr waiting
    have own := hi id r hr
    rw [life.settlements_none hr waiting] at own
    exact own
  have opened : ∀ {r : Round}, r.status = .open → ¬ isFinished r.status := by
    intro r ho
    rw [ho]
    decide
  have requested : ∀ {r : Round}, r.status = .requested → ¬ isFinished r.status := by
    intro r hs
    rw [hs]
    decide
  cases h with
  | reconfigured ha =>
      intro id r hr
      rw [settlements_reconfigured ha, startedWith_reconfigured ha]
      exact hi id r hr
  | roundCreated hnew =>
      intro id r hr
      exact created_booked books life hi hnew hr
  | @positionBought owner roundId tiles stake _ _ _ _ _ hr hx _ _ ho _ _ _ _ mask =>
      have quiet : ∀ id, settlements id ((w, .buyPosition owner roundId tiles stake) :: history) =
          settlements id history := fun _ => rfl
      intro id r hid
      rw [World.emit_positions, quiet]
      cases lookup_insert_cases hid with
      | inl same =>
          obtain ⟨rfl, rfl⟩ := same
          rw [life.settlements_none hr (opened ho)]
          exact Accounted.buy (live hr (opened ho)) hx mask ho rfl rfl rfl rfl rfl
      | inr rest => exact (hi id r rest.2).bought (Ne.symm rest.1) hx
  | @positionSettled roundId owner round _ _ x _ _ hr _ hx _ _ hreward =>
      have split : ∀ id, settlements id ((w, .settlePosition roundId owner) :: history) =
          if roundId = id then (w, x) :: settlements id history else settlements id history := by
        intro id
        by_cases same : roundId = id
        · subst same
          rw [if_pos rfl]
          exact List.filterMap_cons_some (by simp [settlement, hx])
        · rw [if_neg same]
          exact List.filterMap_cons_none (by simp [settlement, same])
      intro id r hid
      rw [World.emit_positions, split]
      cases lookup_insert_cases hid with
      | inl same =>
          obtain ⟨rfl, rfl⟩ := same
          rw [if_pos rfl]
          exact (hi id round hr).settle hx hr hreward
      | inr rest =>
          rw [if_neg (Ne.symm rest.1)]
          exact (hi id r rest.2).settledElsewhere (Ne.symm rest.1) hx
  | roundRequested hr ho =>
      refine hi.write rfl rfl (fun _ => rfl) (fun _ => rfl) ?_
      rw [life.settlements_none hr (opened ho)]
      obtain ⟨tile, htile, -⟩ := (hi _ _ hr).won
      exact (live hr (opened ho)).write rfl rfl (hi _ _ hr).cut ⟨tile, htile, nofun⟩
  | @roundSettled _ _ round _ _ tile _ _ hr _ hs hcut =>
      refine hi.write rfl rfl (fun _ => rfl) (fun _ => rfl) ?_
      rw [life.settlements_none hr (requested hs)]
      refine (live hr (requested hs)).write rfl rfl (houseCut_le range hcut) ?_
      refine ⟨tile, rfl, ?_⟩
      intro settled
      refine Nat.pos_of_ne_zero ?_
      intro zero
      have empty : round.tileTotals tile = 0 := zero
      simp only [empty, if_true] at settled
      exact nomatch settled
  | roundVoided hr hs =>
      refine hi.write rfl rfl (fun _ => rfl) (fun _ => rfl) ?_
      have waiting := hs.elim requested opened
      rw [life.settlements_none hr waiting]
      obtain ⟨tile, htile, -⟩ := (hi _ _ hr).won
      exact (live hr waiting).write rfl rfl (hi _ _ hr).cut ⟨tile, htile, nofun⟩
  | roundClosed =>
      intro id r hid
      exact hi id r (lookup_of_erase hid)
  | _ => exact hi

theorem run_booked (run : Run rt history w) : Booked history w := by
  refine run.invariant (P := Booked) ?_ ?_
  · intro start created id r hr
    exact absurd hr (created_no_round created)
  · intro history w a w' before hi hs
    have reachable := before.reachable
    exact effect_booked (reachable_inRange reachable) (reachable_books reachable)
      (run_lifetime before) (step_effect hs) hi

end Steps

/-- Whether a Position covers the tile its round settled on. -/
def wins (r : Round) (x : Position) : Bool := tileIsCovered x.tiles r.winningTile

/-- Every winning Position of a round has been settled, each while the round's
epoch was current. -/
def WonInEpoch (history : History) (w : World) (id : Nat) (r : Round) : Prop :=
  (∀ owner x, w.positions.lookup (id, owner) = some x → wins r x = false) ∧
  ∀ s ∈ settlements id history, wins r s.2 = true → r.epochId = s.1.pool.currentEpochId

/-- What a round took in and what it gave its Positions; the House's share of a
forfeited pot is no Position's. -/
structure RoundSolvent (history : History) (w : World) (id : Nat) (r : Round) : Prop where
  staked : ¬ isFinished r.status →
    ∀ tile, r.tileTotals tile = total (stakedOn id tile) w.positions
  pot : r.pot = startedWith id history + ∑ tile, r.tileTotals tile
  bounded : r.status = .settled → r.houseCut + rewards id history ≤ r.pot
  dust : r.status = .settled → WonInEpoch history w id r →
    r.pot - (r.houseCut + rewards id history) <
      (settlements id history).countP fun s => wins r s.2
  divisor : ∀ x, positionReward w.pool r x ≠ .error .abort
  nothing : ∀ s ∈ settlements id history,
    ¬ (wins r s.2 = true ∧ r.status = .settled ∧ r.epochId = s.1.pool.currentEpochId) →
      creditedBy id s = 0
  /-- A settlement credits its owner what the round's history counts for it. -/
  credits : ∀ owner w', settlePosition id owner w = .ok w' → ∃ x account player,
    w.positions.lookup (id, owner) = some x ∧ w.players.lookup owner = some account ∧
    touch account w.pool w.clock = .ok player ∧
    w'.players = w.players.insert owner
      { player with entries := player.entries + creditedBy id (w, x) }

section Solvent
variable {rt : Runtime} {history : History} {w w' : World} {id : Nat} {r : Round}
  {settled : List (World × Position)} {carry : Nat}
  {positions : Finmap fun _ : Nat × Pubkey => Position} {tile : Fin TILE_COUNT}

theorem stakeOf_lost (htile : r.winningTile = tile) {s : World × Position}
    (h : wins r s.2 = false) : stakeOf tile s = 0 := by
  rw [wins, htile] at h
  rw [stakeOf, if_neg (Bool.eq_false_iff.mp h)]

theorem rewardIn_le (s : World × Position) : rewardIn r tile s ≤
    share (r.pot - r.houseCut) (r.tileTotals tile) (stakeOf tile s) := by
  unfold rewardIn
  split
  · exact Nat.le_refl _
  · exact Nat.zero_le _

theorem rewardIn_zero (htile : r.winningTile = tile) {s : World × Position}
    (h : ¬ (wins r s.2 = true ∧ r.status = .settled ∧ r.epochId = s.1.pool.currentEpochId)) :
    rewardIn r tile s = 0 := by
  cases won : wins r s.2 with
  | false =>
      rw [rewardIn, stakeOf_lost htile won, share, Nat.mul_zero, Nat.zero_div, ite_self]
  | true =>
      rw [rewardIn, if_neg]
      intro both
      exact h ⟨won, both.2, both.1⟩

theorem Accounted.rewards_eq (hi : Accounted id settled carry positions r)
    (htile : r.winningTile = tile) :
    (settled.map (creditedBy id)).sum = (settled.map (rewardIn r tile)).sum := by
  rw [List.map_congr_left (hi.paid tile htile)]

/-- The cut and the rewards together are within the pot. -/
theorem Accounted.bounded (hi : Accounted id settled carry positions r) :
    r.houseCut + (settled.map (creditedBy id)).sum ≤ r.pot := by
  obtain ⟨tile, htile, -⟩ := hi.won
  have stakes : (settled.map (stakeOf tile)).sum ≤ r.tileTotals tile := by
    rw [← hi.staked tile]
    exact Nat.le_add_left _ _
  have shares : (settled.map (rewardIn r tile)).sum ≤ r.pot - r.houseCut := by
    refine Nat.le_trans (List.sum_le_sum fun s _ => rewardIn_le s) ?_
    exact sum_share_le _ (stakeOf tile) stakes
  have cut := hi.cut
  rw [hi.rewards_eq htile]
  omega

/-- With every winner settled in time, less than one Ticket a winner is lost. -/
theorem Accounted.dust (hi : Accounted id settled carry positions r)
    (h : r.status = .settled)
    (left : ∀ owner x, positions.lookup (id, owner) = some x → wins r x = false)
    (inTime : ∀ s ∈ settled, wins r s.2 = true → r.epochId = s.1.pool.currentEpochId) :
    r.pot - (r.houseCut + (settled.map (creditedBy id)).sum) <
      settled.countP fun s => wins r s.2 := by
  obtain ⟨tile, htile, positive⟩ := hi.won
  have none : total (stakedOn id tile) positions = 0 := by
    refine total_eq_zero ?_
    rintro ⟨round, owner⟩ x hx
    refine if_neg ?_
    rintro ⟨rfl, covered⟩
    have lost := left owner x hx
    rw [wins, htile] at lost
    exact Bool.eq_false_iff.mp lost covered
  have stakes := hi.staked tile
  rw [none, Nat.zero_add] at stakes
  have shares : settled.map (rewardIn r tile) =
      settled.map fun s => share (r.pot - r.houseCut) (r.tileTotals tile) (stakeOf tile s) := by
    refine List.map_congr_left ?_
    intro s hs
    cases won : wins r s.2 with
    | false =>
        rw [rewardIn_zero htile fun all => Bool.eq_false_iff.mp won all.1, stakeOf_lost htile won,
          share, Nat.mul_zero, Nat.zero_div]
    | true => rw [rewardIn, if_pos ⟨inTime s hs won, h⟩]
  have lost := lt_sum_share (r.pot - r.houseCut) (positive h)
    (fun s hs => stakeOf_lost htile hs) stakes
  have bound := hi.bounded
  rw [hi.rewards_eq htile, shares] at *
  omega

/-- The winning tile's total is never zero where a reward is computed. -/
theorem Accounted.divisor (hi : Accounted id settled carry positions r) {pool : Pool}
    (x : Position) : positionReward pool r x ≠ .error .abort := by
  obtain ⟨tile, htile, positive⟩ := hi.won
  intro h
  simp only [positionReward] at h
  split at h
  · rename_i wins
    have total : r.tileTotal r.winningTile = .ok (r.tileTotals tile) := by
      rw [htile, Round.tileTotal, dif_pos tile.isLt]
    have divides : require (0 < r.tileTotals tile) ProgramError.abort = .ok () :=
      require_eq_ok.mpr (positive wins.2.1)
    simp only [total, divides, ok_bind, bind_eq_error, subU, mulU128, narrowU64,
      checkedSub_eq_error, checkedMul_eq_error, narrow_eq_error, reduceCtorEq, and_false,
      false_or, exists_false] at h
  · cases h

theorem round_solvent (run : Run rt history w) :
    ∀ id r, w.rounds.lookup id = some r → RoundSolvent history w id r := by
  intro id r hr
  have hi := run_booked run id r hr
  have life := run_lifetime run
  refine ⟨?_, hi.pot, fun _ => hi.bounded, fun h all => hi.dust h all.1 all.2, hi.divisor, ?_, ?_⟩
  · intro waiting tile
    rw [← hi.staked tile, life.settlements_none hr waiting]
    rfl
  · intro s hs h
    obtain ⟨tile, htile, -⟩ := hi.won
    rw [hi.paid tile htile s hs, rewardIn_zero htile h]
  · intro owner w' h
    have step : Step rt w (.settlePosition id owner) w' := h
    cases step_effect step with
    | reconfigured ha => exact nomatch ha
    | positionSettled hround ha hx ht _ hreward =>
        refine ⟨_, _, _, hx, ha, ht, ?_⟩
        rw [World.emit_players, creditedBy, hround, Option.elim_some, rewardOf_of_ok hreward]

end Solvent

/-- Two winners share a pot of 40 by stakes of 10 and 20: 13 and 26, and 1 is lost. -/
theorem round_solvent_shared : ∃ history w, Run Demo.runtime history w ∧
    rewards 1 history = 39 ∧ ∃ r, w.rounds.lookup 1 = some r ∧ RoundSolvent history w 1 r := by
  let player := Demo.signer 3
  let other := Demo.signer 4
  obtain ⟨⟨history, w⟩, hrun, hcheck⟩ := exists_of_any
    (x := Demo.script [.setFeaturePause Demo.admin .game false,
      .deposit player (Demo.wallet player) 100, .deposit other (Demo.wallet other) 100,
      .createRound Demo.operator 1000 1010, .buyPosition player 1 3 10,
      .buyPosition other 1 1 20, .wait 1008,
      .requestRoundRandomness 1 ⟨9⟩ (List.replicate 32 0),
      .settleRound 1 ⟨⟨9⟩, List.replicate 8 0 ++ [1] ++ List.replicate 128 0⟩,
      .settlePosition 1 ⟨3⟩, .settlePosition 1 ⟨4⟩])
    (p := fun s => rewards 1 s.1 = 39 && (s.2.rounds.lookup 1).isSome) (by decide +kernel)
  simp only [Bool.and_eq_true, decide_eq_true_eq, Option.isSome_iff_exists] at hcheck
  obtain ⟨paid, r, hr⟩ := hcheck
  have run := Demo.script_run hrun
  exact ⟨history, w, run, paid, r, hr, round_solvent run 1 r hr⟩

end HexVault
