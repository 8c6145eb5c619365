import HexVault.Invariants.Books
import HexVault.Invariants.Enabled
import HexVault.Invariants.Shutdown
import HexVault.Invariants.Solvency
import Mathlib.Algebra.Order.BigOperators.Group.Finset

/-!
Nothing wedges. From any state of the pool there is a way out of every round and
every draw that anyone can take, and a way into the next epoch that takes the
operator's signature and the admin's word to start.
-/

namespace HexVault

open Fallible Finmap Runs

/-- The clock, and the instructions anyone may send. -/
def Action.permissionless : Action → Bool
  | .wait .. | .processWithdraw .. | .emergencyWithdraw .. | .requestRoundRandomness ..
  | .settleRound .. | .settlePosition .. | .voidRound .. | .closeRound .. | .register ..
  | .draw .. | .payout .. | .rolloverEpoch .. => true
  | _ => false

def Action.operates : Action → Bool
  | .createRound .. | .beginEpoch .. | .closeRegistration .. | .grantTickets .. => true
  | _ => false

def Action.clearsPause : Action → Bool
  | .setPause _ paused | .setFeaturePause _ _ paused => !paused
  | _ => false

/-- A randomness account an instruction is handed holds what the chain has there. -/
def Action.readsFrom (accounts : Pubkey → Bytes) : Action → Prop
  | .settleRound _ account | .voidRound _ account | .draw _ account
  | .rolloverEpoch _ account => account.data = accounts account.key
  | _ => True

def byAnyone (accounts : Pubkey → Bytes) (x : World × Action) : Prop :=
  x.2.permissionless = true ∧ x.2.readsFrom accounts

/-- A step that needs no more than the admin's clearing of a pause and the operator. -/
def resumes (accounts : Pubkey → Bytes) (x : World × Action) : Prop :=
  byAnyone accounts x ∨ x.2.clearsPause = true ∨
    (x.2.operates = true ∧ x.2.signer = some x.1.pool.operator)

/-- The admin names another operator in the place of the key nobody holds. -/
def reappoints (x : World × Action) : Prop :=
  x.1.pool.operator = Pubkey.default ∧ ∃ admin newOperator, x.2 = .setOperator admin newOperator

/-- A request's account: absent or pending, or fulfilled in exactly its length with
a randomness that the mapping takes within its 256 tries. -/
def WellFormed (rt : Runtime) (data : Bytes) (width range : Nat) : Prop :=
  data[8]? ≠ some 1 ∨
    (data.length = FULFILLED_LEN ∧ data.take 8 = randomnessDiscriminator rt ∧
      acceptsSample rt width (data.drop (FULFILLED_LEN - 64)) range)

/-- The owner's balance at an instant, and a pot on top of it, are within their types. -/
def RoomFor (w : World) (instant : Int) (pot : Nat) (owner : Pubkey) : Prop :=
  ∀ p, w.players.lookup owner = some p →
    ∃ q, touch p w.pool instant = .ok q ∧ q.entries + pot < u64Limit

/-- When a round can be ended whatever became of its request. -/
def roundDue (w : World) (round : Round) : Int :=
  max w.clock round.endsAt + w.pool.vrfTimeout + 1

structure RoundFits (w : World) (id : Nat) (round : Round) : Prop where
  due : roundDue w round < i64Limit
  house : RoomFor w (roundDue w round) round.pot w.pool.house
  owners : ∀ owner x, w.positions.lookup (id, owner) = some x →
    RoomFor w (roundDue w round) round.pot owner

/-- When a draw can be ended whatever became of its request. -/
def epochDue (w : World) : Int :=
  w.clock + max w.pool.vrfTimeout w.pool.payoutTimeout + 1

/-- When the next epoch can begin. -/
def nextDue (w : World) : Int := max (epochDue w) w.pool.currentEpochEndsAt

structure NextFits (w : World) : Prop where
  due : nextDue w < i64Limit
  grid : GridFits { w with clock := nextDue w }
  count : w.pool.currentEpochId + 1 < u64Limit

/-- A round that is over: no Position is left on it, and it can be closed. -/
structure RoundOver (rt : Runtime) (id : Nat) (w : World) : Prop where
  finished : ∃ r, w.rounds.lookup id = some r ∧ isFinished r.status
  settled : ∀ owner, w.positions.lookup (id, owner) = none
  closes : ∃ w', Step rt w (.closeRound w.pool.operator id) w'

/-- Every round and every draw can be ended by anyone, and the next epoch begun. -/
structure Unwedged (rt : Runtime) (accounts : Pubkey → Bytes) (w : World) : Prop where
  round : ∀ id r, w.rounds.lookup id = some r → r.status = .open ∨ r.status = .requested →
    RoundFits w id r →
    (r.status = .requested →
      WellFormed rt (accounts (randomnessAddress rt r.vrfSeed)) 8 TILE_COUNT) →
    ∃ w', Leads (Step rt) (byAnyone accounts) w w' ∧ RoundOver rt id w'
  epoch : ∀ id e, w.epochs.lookup id = some e → e.status = .drawing ∨ e.status = .drawn →
    epochDue w < i64Limit →
    (e.status = .drawing →
      WellFormed rt (accounts (randomnessAddress rt e.vrfSeed)) 16 e.registeredWeight) →
    ∃ w', Leads (Step rt) (byAnyone accounts) w w' ∧
      ∃ e', w'.epochs.lookup id = some e' ∧ (e'.status = .paid ∨ e'.status = .rolledOver)
  next : w.pool.shutdown = false → NextFits w →
    (∀ e, w.epochs.lookup (w.pool.currentEpochId - 1) = some e → e.status = .drawing →
      WellFormed rt (accounts (randomnessAddress rt e.vrfSeed)) 16 e.registeredWeight) →
    ∃ w', Leads (Step rt) (fun x => resumes accounts x ∨ reappoints x) w w' ∧
      w'.pool.currentEpochId = w.pool.currentEpochId + 1

section Requests
variable {rt : Runtime} {data : Bytes} {width range : Nat}

/-- A request reads as unfulfilled, or as a randomness the mapping takes. -/
theorem WellFormed.cases (h : WellFormed rt data width range) :
    (∃ e, parseFulfilled rt data = .error e ∧ e ≠ .abort) ∨
      ∃ bytes, parseFulfilled rt data = .ok bytes ∧ acceptsSample rt width bytes range := by
  by_cases tag : data[8]? = some 1
  · right
    obtain ⟨length, discriminator, accepted⟩ := h.resolve_left fun waiting => waiting tag
    refine ⟨data.drop (FULFILLED_LEN - 64), ?_, accepted⟩
    have rest : (data.drop (FULFILLED_LEN - 64)).length = 64 := by
      rw [List.length_drop, length]
      rfl
    simp only [parseFulfilled, bind_eq_ok, require_eq_ok, exists_const, pure_eq_ok]
    exact ⟨Nat.le_of_eq length.symm, discriminator, tag, rest, trivial⟩
  · left
    cases parsed : parseFulfilled rt data with
    | ok bytes =>
        simp only [parseFulfilled, bind_eq_ok, require_eq_ok, exists_const] at parsed
        exact absurd parsed.2.2.1 tag
    | error e =>
        refine ⟨e, rfl, ?_⟩
        intro abort
        subst abort
        exact tag (parseFulfilled_abort.mp parsed).2.2

end Requests

section Rounds
variable {rt : Runtime} {accounts : Pubkey → Bytes} {history : History} {w w' : World}
  {id : Nat} {round : Round} {owner : Pubkey}

theorem houseCredit_le {pool : Pool} {tile : Fin TILE_COUNT}
    (hb : pool.houseCutBps ≤ BPS_DENOMINATOR) : houseCredit pool round tile ≤ round.pot := by
  unfold houseCredit
  split
  · exact Nat.le_refl _
  · exact cut_le hb

/-- A Position's reward is computed, and is part of its round's pot. -/
theorem positionReward_returns (run : Run rt history w) (hr : w.rounds.lookup id = some round)
    {x : Position} (hx : w.positions.lookup (id, owner) = some x) :
    ∃ reward, positionReward w.pool round x = .ok reward ∧ reward ≤ round.pot := by
  have books := run_booked run id round hr
  obtain ⟨tile, htile, positive⟩ := books.won
  have fits := ((reachable_live run.reachable).fits hr).1
  unfold positionReward
  split
  · rename_i wins
    have staked : x.stakePerTile ≤ round.tileTotals tile := by
      have covered := wins.2.2
      rw [htile] at covered
      have own := le_total (stakedOn id tile) hx
      rw [stakedOn, if_pos ⟨rfl, covered⟩] at own
      exact Nat.le_trans own ((reachable_books run.reachable).staked hr tile)
    have within : round.tileTotals tile ≤ round.pot := by
      rw [books.pot]
      exact Nat.le_add_left_of_le
        (Finset.single_le_sum (fun _ _ => Nat.zero_le _) (Finset.mem_univ tile))
    have total : round.tileTotal round.winningTile = .ok (round.tileTotals tile) := by
      rw [htile, Round.tileTotal, dif_pos tile.isLt]
    have payable : round.pot - round.houseCut ≤ round.pot := Nat.sub_le _ _
    have scaled : (round.pot - round.houseCut) * x.stakePerTile < u128Limit := by
      have wide : u64Limit * u64Limit = u128Limit := by decide
      rw [← wide]
      exact Nat.mul_lt_mul'' (Nat.lt_of_le_of_lt payable fits)
        (Nat.lt_of_le_of_lt (Nat.le_trans staked within) fits)
    have share : (round.pot - round.houseCut) * x.stakePerTile / round.tileTotals tile ≤
        round.pot := by
      refine Nat.le_trans (Nat.div_le_of_le_mul ?_) payable
      rw [Nat.mul_comm]
      exact Nat.mul_le_mul_right _ staked
    refine ⟨_, bind_eq_ok.mpr ⟨_, total, bind_eq_ok.mpr ⟨_, subU_eq_ok.mpr ⟨books.cut, rfl⟩, ?_⟩⟩,
      share⟩
    refine bind_eq_ok.mpr ⟨_, mulU128_eq_ok.mpr ⟨scaled, rfl⟩, ?_⟩
    exact bind_eq_ok.mpr ⟨(), require_eq_ok.mpr (positive wins.2.1),
      narrowU64_eq_ok.mpr ⟨Nat.lt_of_le_of_lt share fits, rfl⟩⟩
  · exact ⟨0, rfl, Nat.zero_le _⟩

theorem settlePosition_finished (run : Run rt history w)
    (hr : w.rounds.lookup id = some round) (ended : isFinished round.status) {x : Position}
    (hx : w.positions.lookup (id, owner) = some x) (room : RoomFor w w.clock round.pot owner) :
    ∃ w', Step rt w (.settlePosition id owner) w' := by
  obtain ⟨p, hp, -⟩ := reachable_holders run.reachable _ _ hx
  obtain ⟨q, ht, fits⟩ := room p hp
  obtain ⟨reward, hreward, most⟩ := positionReward_returns run hr hx
  have counted : 1 ≤ round.openPositions := by
    have one := le_total (positionsOn id) hx
    rw [(reachable_books run.reachable).counted hr, positionsOn, if_pos rfl] at one
    exact one
  have added : Returns (addReward q.entries reward) := by
    unfold addReward
    split
    · exact ⟨_, addU64_eq_ok.mpr ⟨by omega, rfl⟩⟩
    · exact ⟨_, rfl⟩
  exact settlePosition_returns.mpr
    ⟨round, hr, p, hp, x, hx, q, ht, ended, reward, hreward, added, counted⟩

/-- The Positions of a finished round are settled one by one. -/
theorem settle_all (n : Nat) (reachable : Reachable rt w)
    (hr : w.rounds.lookup id = some round) (ended : isFinished round.status)
    (count : round.openPositions = n)
    (room : ∀ owner x, w.positions.lookup (id, owner) = some x →
      RoomFor w w.clock round.pot owner) :
    ∃ w', Leads (Step rt) (byAnyone accounts) w w' ∧ RoundOver rt id w' := by
  induction n generalizing w round with
  | zero =>
      have none := (reachable_books reachable).none_of_zero hr count
      exact ⟨w, .refl w, ⟨round, hr, ended⟩, none,
        closeRound_returns.mpr ⟨rfl, round, hr, ended, count⟩⟩
  | succ n ih =>
      have left : ∃ owner x, w.positions.lookup (id, owner) = some x := by
        by_contra none
        have empty : total (positionsOn id) w.positions = 0 := by
          refine total_eq_zero ?_
          intro key x hx
          refine if_neg ?_
          intro same
          exact none ⟨key.2, x, same ▸ hx⟩
        rw [(reachable_books reachable).counted hr, count] at empty
        exact absurd empty (Nat.succ_ne_zero n)
      obtain ⟨owner, x, hx⟩ := left
      obtain ⟨history, run⟩ := reachable
      obtain ⟨v, h⟩ := settlePosition_finished run hr ended hx (room owner x hx)
      have first : Leads (Step rt) (byAnyone accounts) w v := .single h ⟨rfl, trivial⟩
      have reached := run.reachable.next h
      cases step_effect h with
      | reconfigured ha => exact nomatch ha
      | @positionSettled _ _ r _ _ _ _ es hround _ _ _ _ _ one =>
          obtain rfl := Option.some.inj (hr.symm.trans hround)
          obtain ⟨w', rest, emptied⟩ := ih reached (lookup_insert _) ended
            (by show round.openPositions - 1 = n; omega) (by
              intro other y hy p hp
              have hne : other ≠ owner := by
                intro same
                subst same
                rw [World.emit_positions, lookup_erase] at hy
                exact nomatch hy
              rw [World.emit_players, lookup_insert_of_ne _ hne] at hp
              exact room other y (lookup_of_erase hy) p hp)
          exact ⟨w', first.trans rest, emptied⟩

/-- A round that ended in one step, which no owner of a Position was touched in. -/
structure RoundEnded (w : World) (id : Nat) (round : Round) (w' : World) : Prop where
  finished : ∃ r, w'.rounds.lookup id = some r ∧ isFinished r.status ∧ r.pot = round.pot
  positions : w'.positions = w.positions
  clock : w'.clock = w.clock
  room : ∀ owner, owner ≠ w.pool.house → RoomFor w w.clock round.pot owner →
    RoomFor w' w.clock round.pot owner

theorem voided_ended {account : AccountInfo} (hr : w.rounds.lookup id = some round)
    (h : Step rt w (.voidRound id account) w') : RoundEnded w id round w' := by
  cases step_effect h with
  | reconfigured ha => exact nomatch ha
  | roundVoided hround =>
      obtain rfl := Option.some.inj (hr.symm.trans hround)
      refine ⟨⟨_, lookup_insert _, .inr (.inr rfl), rfl⟩, rfl, rfl, ?_⟩
      intro owner _ room
      exact room

theorem settled_ended {account : AccountInfo} (hr : w.rounds.lookup id = some round)
    (h : Step rt w (.settleRound id account) w') : RoundEnded w id round w' := by
  cases step_effect h with
  | reconfigured ha => exact nomatch ha
  | roundSettled hround =>
      obtain rfl := Option.some.inj (hr.symm.trans hround)
      refine ⟨⟨_, lookup_insert _, ?_, rfl⟩, rfl, rfl, ?_⟩
      · show isFinished (if _ then RoundStatus.forfeited else RoundStatus.settled)
        split <;> decide
      · intro owner hne room p hp
        rw [World.emit_players, lookup_insert_of_ne _ hne] at hp
        exact room p hp

/-- Past its timeouts a round can be settled or voided, whatever its request came to. -/
theorem round_ends (reachable : Reachable rt w) (hr : w.rounds.lookup id = some round)
    (live : round.status = .open ∨ round.status = .requested)
    (late : max round.requestedAt round.endsAt + w.pool.vrfTimeout < w.clock)
    (house : RoomFor w w.clock round.pot w.pool.house)
    (formed : round.status = .requested →
      WellFormed rt (accounts (randomnessAddress rt round.vrfSeed)) 8 TILE_COUNT) :
    ∃ w', Leads (Step rt) (byAnyone accounts) w w' ∧ RoundEnded w id round w' := by
  let account : AccountInfo :=
    ⟨randomnessAddress rt round.vrfSeed, accounts (randomnessAddress rt round.vrfSeed)⟩
  have voids : Returns (voidRound rt id account w) →
      ∃ w', Leads (Step rt) (byAnyone accounts) w w' ∧ RoundEnded w id round w' := by
    intro done
    obtain ⟨w', h⟩ := done
    exact ⟨w', .single (a := .voidRound id account) h ⟨rfl, rfl⟩, voided_ended hr h⟩
  cases live with
  | inl opened => exact voids (voidRound_open reachable hr opened (by omega))
  | inr requested =>
      cases (formed requested).cases with
      | inl waiting =>
          exact voids ((voidRound_requested reachable hr requested (by omega) rfl).mpr waiting)
      | inr fulfilled =>
          obtain ⟨bytes, parsed, accepted⟩ := fulfilled
          obtain ⟨n, hn⟩ := unbiased_returns accepted
          have read : readFulfilled rt account round.vrfSeed = .ok bytes :=
            (readFulfilled_bound rfl).trans parsed
          have room : HouseRoom w round ⟨n, unbiased_lt hn⟩ := by
            intro _ _ p hp
            obtain ⟨q, ht, fits⟩ := house p hp
            have most : houseCredit w.pool round ⟨n, unbiased_lt hn⟩ ≤ round.pot :=
              houseCredit_le (reachable_inRange reachable).houseCutBps
            exact ⟨q, ht, Nat.lt_of_le_of_lt (Nat.add_le_add_left most _) fits⟩
          obtain ⟨w', h⟩ := (settleRound_requested reachable hr requested).mpr
            ⟨bytes, read, ⟨n, unbiased_lt hn⟩, hn, room⟩
          exact ⟨w', .single (a := .settleRound id account) h ⟨rfl, rfl⟩, settled_ended hr h⟩

theorem wait_step {instant : Int} (later : w.clock ≤ instant) (fits : instant < i64Limit) :
    Step rt w (.wait instant) { w with clock := instant } :=
  bind_eq_ok.mpr ⟨(), require_eq_ok.mpr ⟨later, fits⟩, rfl⟩

theorem round_over (reachable : Reachable rt w) (hr : w.rounds.lookup id = some round)
    (live : round.status = .open ∨ round.status = .requested) (fits : RoundFits w id round)
    (formed : round.status = .requested →
      WellFormed rt (accounts (randomnessAddress rt round.vrfSeed)) 8 TILE_COUNT) :
    ∃ w', Leads (Step rt) (byAnyone accounts) w w' ∧ RoundOver rt id w' := by
  have stamp := (reachable_stamps reachable).rounds hr
  have timeout : 0 ≤ w.pool.vrfTimeout :=
    Int.le_trans (by decide) (reachable_inRange reachable).vrfTimeout
  have past : max w.clock round.endsAt + w.pool.vrfTimeout < roundDue w round := by
    unfold roundDue
    omega
  have later : w.clock ≤ roundDue w round := by omega
  have waited : Step rt w (.wait (roundDue w round)) { w with clock := roundDue w round } :=
    wait_step later fits.due
  have reached := reachable.next waited
  have late : max round.requestedAt round.endsAt + w.pool.vrfTimeout < roundDue w round := by
    obtain ⟨-, made⟩ := stamp
    omega
  obtain ⟨v, ends, ended⟩ := round_ends reached hr live late fits.house formed
  have first : Leads (Step rt) (byAnyone accounts) w v :=
    .trans (.single waited ⟨rfl, trivial⟩) ends
  obtain ⟨span, steps, -⟩ := ends
  obtain ⟨r, hround, finished, pot⟩ := ended.finished
  obtain ⟨w', rest, emptied⟩ := settle_all _ (reached.span steps) hround finished rfl (by
    intro owner x hx
    rw [ended.positions] at hx
    rw [ended.clock, pot]
    refine ended.room owner ?_ (fits.owners owner x hx)
    intro same
    subst same
    obtain ⟨house, hhouse, flag⟩ := reachable_house reachable
    obtain ⟨p, hp, player⟩ := reachable_holders reachable _ _ hx
    obtain rfl := Option.some.inj (hhouse.symm.trans hp)
    rw [flag] at player
    exact nomatch player)
  exact ⟨w', first.trans rest, emptied⟩

end Rounds

section Epochs
variable {rt : Runtime} {accounts : Pubkey → Bytes} {w w' : World} {id : Nat} {epoch : Epoch}

/-- A draw that ended without a payout, with the rest of the cycle as it was. -/
structure Released (w : World) (id : Nat) (instant : Int) (w' : World) : Prop where
  epoch : ∃ e, w'.epochs.lookup id = some e ∧ e.status = .rolledOver
  others : ∀ other, other ≠ id → w'.epochs.lookup other = w.epochs.lookup other
  config : SameConfig w.pool w'.pool
  current : w'.pool.currentEpochId = w.pool.currentEpochId
  clock : w'.clock = instant

theorem rolledOver_released {account : AccountInfo}
    (h : Step rt w (.rolloverEpoch id account) w') : Released w id w.clock w' := by
  cases step_effect h with
  | reconfigured ha => exact nomatch ha
  | rolledOver =>
      exact ⟨⟨_, lookup_insert _, rfl⟩, fun other hne => lookup_insert_of_ne _ hne,
        ⟨rfl, rfl, rfl⟩, rfl, rfl⟩

theorem epochDue_later (reachable : Reachable rt w) : w.clock ≤ epochDue w := by
  have timeout : 0 ≤ w.pool.vrfTimeout :=
    Int.le_trans (by decide) (reachable_inRange reachable).vrfTimeout
  unfold epochDue
  omega

/-- The rollover of an epoch, once the clock has come to where nothing refuses it. -/
theorem waited_released {account : AccountInfo} {instant : Int} (later : w.clock ≤ instant)
    (fits : instant < i64Limit) (reads : account.data = accounts account.key)
    (done : Returns (rolloverEpoch rt id account { w with clock := instant })) :
    ∃ w', Leads (Step rt) (byAnyone accounts) w w' ∧ Released w id instant w' := by
  obtain ⟨w', h⟩ := done
  have step : Step rt { w with clock := instant } (.rolloverEpoch id account) w' := h
  have released := rolledOver_released step
  refine ⟨w', .trans (.single (wait_step later fits) ⟨rfl, trivial⟩)
    (.single step ⟨rfl, reads⟩), ?_⟩
  exact ⟨released.epoch, released.others, released.config, released.current, released.clock⟩

theorem drawn_released (accounts : Pubkey → Bytes) (reachable : Reachable rt w)
    (he : w.epochs.lookup id = some epoch) (drawn : epoch.status = .drawn)
    (fits : epochDue w < i64Limit) :
    ∃ w', Leads (Step rt) (byAnyone accounts) w w' ∧ Released w id (epochDue w) w' := by
  have stamp := ((reachable_stamps reachable).epochs he).drawn
  have later := epochDue_later reachable
  have late : epoch.drawnAt + w.pool.payoutTimeout < epochDue w := by
    obtain ⟨-, made⟩ := stamp
    unfold epochDue
    omega
  let account : AccountInfo := ⟨Pubkey.default, accounts Pubkey.default⟩
  have done : Returns (rolloverEpoch rt id account { w with clock := epochDue w }) :=
    rolloverEpoch_drawn (reachable.next (wait_step later fits)) he drawn late
  exact waited_released later fits rfl done

theorem epoch_released (reachable : Reachable rt w) (he : w.epochs.lookup id = some epoch)
    (holds : epoch.status = .drawing ∨ epoch.status = .drawn) (fits : epochDue w < i64Limit)
    (formed : epoch.status = .drawing →
      WellFormed rt (accounts (randomnessAddress rt epoch.vrfSeed)) 16 epoch.registeredWeight) :
    ∃ w', Leads (Step rt) (byAnyone accounts) w w' ∧ Released w id (epochDue w) w' := by
  let account : AccountInfo :=
    ⟨randomnessAddress rt epoch.vrfSeed, accounts (randomnessAddress rt epoch.vrfSeed)⟩
  cases holds with
  | inr drawn => exact drawn_released accounts reachable he drawn fits
  | inl drawing =>
      cases (formed drawing).cases with
      | inl waiting =>
          have stamp := ((reachable_stamps reachable).epochs he).requested
          have later := epochDue_later reachable
          have late : epoch.requestedAt + w.pool.vrfTimeout < epochDue w := by
            obtain ⟨-, made⟩ := stamp
            unfold epochDue
            omega
          have done : Returns (rolloverEpoch rt id account { w with clock := epochDue w }) :=
            (rolloverEpoch_drawing (reachable.next (wait_step later fits)) he drawing late
              rfl).mpr waiting
          exact waited_released later fits rfl done
      | inr fulfilled =>
          obtain ⟨bytes, parsed, accepted⟩ := fulfilled
          have read : readFulfilled rt account epoch.vrfSeed = .ok bytes :=
            (readFulfilled_bound rfl).trans parsed
          obtain ⟨v, h⟩ := (draw_drawing he drawing).mpr ⟨bytes, read, unbiased_returns accepted⟩
          have step : Step rt w (.draw id account) v := h
          have reached := reachable.next step
          cases step_effect step with
          | reconfigured ha => exact nomatch ha
          | drawn hepoch =>
              obtain ⟨w', rest, released⟩ :=
                drawn_released accounts reached (lookup_insert _) rfl fits
              refine ⟨w', .trans (.single step ⟨rfl, rfl⟩) rest, released.epoch, ?_,
                released.config, released.current, released.clock⟩
              intro other hne
              exact (released.others other hne).trans (lookup_insert_of_ne _ hne)

end Epochs

section Next
variable {rt : Runtime} {accounts : Pubkey → Bytes} {w w' : World} {a : Action}

theorem reachable_admin (h : Reachable rt w) : w.pool.admin ≠ Pubkey.default := by
  refine h.invariant (P := fun w => w.pool.admin ≠ Pubkey.default) ?_ ?_
  · intro start created
    obtain ⟨params, accounts, now, -, -, h⟩ := created
    obtain ⟨valid, es, rfl⟩ := createPool_eq_ok h
    exact valid.admin
  · intro w a w' _ hi hs
    cases ha : a.reconfigures with
    | false =>
        have roles := (effect_sameConfig ha (step_effect hs)).roles
        exact ne_of_eq_of_ne (congrArg Roles.admin roles) hi
    | true =>
        obtain ⟨pool, es, config, rfl⟩ := step_configured ha hs
        cases config with
        | accepted hne => exact hne
        | @featurePaused _ feature => cases feature <;> exact hi
        | _ => exact hi

/-- No epoch waits for a draw two behind the next one, and the rest is as it was. -/
structure Vacated (w w' : World) : Prop where
  done : ∀ e, w'.epochs.lookup (w.pool.currentEpochId - 1) = some e →
    2 ≤ w.pool.currentEpochId → ¬ e.holdsPrize
  running : w'.epochs.lookup w.pool.currentEpochId = w.epochs.lookup w.pool.currentEpochId
  config : SameConfig w.pool w'.pool
  current : w'.pool.currentEpochId = w.pool.currentEpochId
  clock : w'.clock ≤ epochDue w

theorem epoch_vacated (reachable : Reachable rt w) (fits : epochDue w < i64Limit)
    (formed : ∀ e, w.epochs.lookup (w.pool.currentEpochId - 1) = some e → e.status = .drawing →
      WellFormed rt (accounts (randomnessAddress rt e.vrfSeed)) 16 e.registeredWeight) :
    ∃ w', Leads (Step rt) (byAnyone accounts) w w' ∧ Vacated w w' := by
  by_cases held : ∃ e, w.epochs.lookup (w.pool.currentEpochId - 1) = some e ∧ e.holdsPrize
  · obtain ⟨e, he, holds⟩ := held
    obtain ⟨w', leads, released⟩ := epoch_released reachable he holds fits (formed e he)
    have keyed := ((reachable_calendar reachable).keyed he).2
    refine ⟨w', leads, ?_, released.others _ (by omega), released.config, released.current,
      Int.le_of_eq released.clock⟩
    intro e' he' _ prize
    obtain ⟨x, hx, closed⟩ := released.epoch
    obtain rfl := Option.some.inj (hx.symm.trans he')
    rw [Epoch.holdsPrize, closed] at prize
    simp at prize
  · refine ⟨w, .refl w, ?_, rfl, ⟨rfl, rfl, rfl⟩, rfl, epochDue_later reachable⟩
    intro e he _ prize
    exact held ⟨e, he, prize⟩

/-- The pool answers to a key that can sign, and its jackpot runs. -/
structure Manned (w : World) (operator : Signer) (w' : World) : Prop where
  signed : operator.key = w'.pool.operator
  started : w'.pool.jackpotPaused = false
  running : w'.pool.shutdown = false
  params : w'.pool.params = w.pool.params
  current : w'.pool.currentEpochId = w.pool.currentEpochId
  epochs : w'.epochs = w.epochs
  clock : w'.clock = w.clock

/-- The admin starts the jackpot of a pool that was not shut down. -/
theorem unpause_jackpot {admin : Signer} (signed : admin.key = w.pool.admin)
    (running : w.pool.shutdown = false) :
    Step rt w (.setFeaturePause admin .jackpot false)
      ({ w with pool := { w.pool with jackpotPaused := false } }.emit
        [.featurePaused .jackpot false w.clock]) := by
  have may : mayPause w.pool admin.key false := .inl signed
  refine bind_eq_ok.mpr ⟨(), ensure_eq_ok.mpr may, ?_⟩
  exact bind_eq_ok.mpr ⟨(), ensure_eq_ok.mpr (.inr running), rfl⟩

theorem operator_manned (accounts : Pubkey → Bytes) (reachable : Reachable rt w)
    (running : w.pool.shutdown = false) :
    ∃ operator w', Leads (Step rt) (fun x => resumes accounts x ∨ reappoints x) w w' ∧
      Manned w operator w' := by
  let admin : Signer := ⟨w.pool.admin, reachable_admin reachable⟩
  by_cases nobody : w.pool.operator = Pubkey.default
  · let u : World := { w with pool := { w.pool with operator := admin.key } }.emit
      [.operatorChanged w.pool.operator admin.key]
    have named : Step rt w (.setOperator admin admin.key) u :=
      bind_eq_ok.mpr ⟨(), constraint_eq_ok.mpr rfl, rfl⟩
    have cleared : Step rt u (.setFeaturePause admin .jackpot false) _ :=
      unpause_jackpot rfl running
    refine ⟨admin, _, .trans (.single named (.inr ⟨nobody, admin, admin.key, rfl⟩))
      (.single cleared (.inl (.inr (.inl rfl)))), ?_⟩
    exact ⟨rfl, rfl, running, rfl, rfl, rfl, rfl⟩
  · have cleared : Step rt w (.setFeaturePause admin .jackpot false) _ :=
      unpause_jackpot rfl running
    refine ⟨⟨w.pool.operator, nobody⟩, _, .single cleared (.inl (.inr (.inl rfl))), ?_⟩
    exact ⟨rfl, rfl, running, rfl, rfl, rfl, rfl⟩

theorem beginEpoch_next {operator : Signer} (h : Step rt w (.beginEpoch operator) w') :
    w'.pool.currentEpochId = w.pool.currentEpochId + 1 := by
  cases step_effect h with
  | reconfigured ha => exact nomatch ha
  | epochBegan => rfl

theorem next_begins (reachable : Reachable rt w) (running : w.pool.shutdown = false)
    (fits : NextFits w)
    (formed : ∀ e, w.epochs.lookup (w.pool.currentEpochId - 1) = some e → e.status = .drawing →
      WellFormed rt (accounts (randomnessAddress rt e.vrfSeed)) 16 e.registeredWeight) :
    ∃ w', Leads (Step rt) (fun x => resumes accounts x ∨ reappoints x) w w' ∧
      w'.pool.currentEpochId = w.pool.currentEpochId + 1 := by
  have due : epochDue w ≤ nextDue w := le_max_left _ _
  obtain ⟨u, leads, vacated⟩ := epoch_vacated reachable (Int.lt_of_le_of_lt due fits.due) formed
  have first : Leads (Step rt) (fun x => resumes accounts x ∨ reappoints x) w u :=
    leads.mono fun x hx => .inl (.inl hx)
  obtain ⟨past, before, -⟩ := leads
  have open_ : u.pool.shutdown = false :=
    (congrArg Pauses.shutdown vacated.config.pauses).trans running
  obtain ⟨operator, v, second, manned⟩ := operator_manned accounts (reachable.span before) open_
  obtain ⟨_, between, -⟩ := id second
  have waited : Step rt v (.wait (nextDue w)) { v with clock := nextDue w } := by
    refine wait_step ?_ fits.due
    rw [manned.clock]
    exact Int.le_trans vacated.clock due
  have reached := ((reachable.span before).span between).next waited
  have params := manned.params.trans vacated.config.params
  have current := manned.current.trans vacated.current
  have grid : GridFits { v with clock := nextDue w } := by
    have grid := fits.grid
    unfold GridFits at grid ⊢
    have anchor : v.pool.epochAnchor = w.pool.epochAnchor := congrArg Params.epochAnchor params
    have period : v.pool.epochSeconds = w.pool.epochSeconds :=
      congrArg Params.epochSeconds params
    rw [anchor, period]
    exact grid
  have ended : ∀ e, v.epochs.lookup v.pool.currentEpochId = some e → e.endsAt ≤ nextDue w := by
    intro e he
    rw [current, manned.epochs, vacated.running] at he
    obtain ⟨x, hx, -, ends⟩ := (reachable_calendar reachable).current
      ((reachable_calendar reachable).keyed he).2.1
    obtain rfl := Option.some.inj (hx.symm.trans he)
    rw [ends]
    exact le_max_right _ _
  have done : ∀ e, v.epochs.lookup (v.pool.currentEpochId - 1) = some e →
      2 ≤ v.pool.currentEpochId → ¬ e.holdsPrize := by
    intro e he two
    rw [current, manned.epochs] at he
    exact vacated.done e he (current ▸ two)
  have count : v.pool.currentEpochId + 1 < u64Limit := by
    rw [current]
    exact fits.count
  obtain ⟨w', h⟩ := (beginEpoch_due reached manned.running manned.started ended done).mpr
    ⟨manned.signed, grid, count⟩
  have begun : Step rt { v with clock := nextDue w } (.beginEpoch operator) w' := h
  refine ⟨w', (first.trans second).trans (.trans
    (.single waited (.inl (.inl ⟨rfl, trivial⟩)))
    (.single begun (.inl (.inr (.inr ⟨rfl, ?_⟩))))), ?_⟩
  · exact congrArg some manned.signed
  · have next := beginEpoch_next begun
    rw [← current]
    exact next

/-- What resumes a pool that answers to nobody begins no epoch, and names no operator. -/
theorem unmanned_step (h : Step rt w a w') (hc : resumes accounts (w, a))
    (nobody : w.pool.operator = Pubkey.default) :
    w'.pool.operator = Pubkey.default ∧ w'.pool.currentEpochId = w.pool.currentEpochId := by
  have idle : a.operates = false := by
    cases hc with
    | inl anyone =>
        have open_ := anyone.1
        cases a <;> first | rfl | exact nomatch open_
    | inr rest =>
        cases rest with
        | inl clears => cases a <;> first | rfl | exact nomatch clears
        | inr signed =>
            obtain ⟨operates, signed⟩ := signed
            rw [nobody] at signed
            cases a with
            | createRound operator => exact absurd (Option.some.inj signed) operator.held
            | beginEpoch operator => exact absurd (Option.some.inj signed) operator.held
            | closeRegistration operator => exact absurd (Option.some.inj signed) operator.held
            | grantTickets signer => exact absurd (Option.some.inj signed) signer.held
            | _ => exact nomatch operates
  cases ha : a.reconfigures with
  | false =>
      have effect := step_effect h
      have roles := (effect_sameConfig ha effect).roles
      refine ⟨(congrArg Roles.operator roles).trans nobody, ?_⟩
      cases effect with
      | reconfigured config =>
          rw [config] at ha
          exact nomatch ha
      | epochBegan => exact nomatch idle
      | _ => rfl
  | true =>
      obtain ⟨pool, es, config, rfl⟩ := step_configured ha h
      cases config with
      | paused => exact ⟨nobody, rfl⟩
      | @featurePaused _ feature => cases feature <;> exact ⟨nobody, rfl⟩
      | _ => exact absurd hc (by simp [resumes, byAnyone, Action.permissionless,
          Action.clearsPause, Action.operates])

/-- Whatever the oracle answers meanwhile. -/
theorem unmanned_leads (nobody : w.pool.operator = Pubkey.default)
    (leads : Leads (Step rt) (fun x => ∃ accounts, resumes accounts x) w w') :
    w'.pool.currentEpochId = w.pool.currentEpochId := by
  obtain ⟨span, steps, all⟩ := leads
  refine (steps.invariantWhile (C := fun x => ∃ accounts, resumes accounts x) (P := fun _ u =>
    u.pool.operator = Pubkey.default ∧ u.pool.currentEpochId = w.pool.currentEpochId)
    ⟨nobody, rfl⟩ ?_ all).2
  intro _ u a v _ hi hc h
  obtain ⟨accounts, hc⟩ := hc
  obtain ⟨still, same⟩ := unmanned_step h hc hi.1
  exact ⟨still, same.trans hi.2⟩

end Next

/-- No state a pool can reach is wedged. -/
theorem unwedged {rt : Runtime} {w : World} (reachable : Reachable rt w)
    (accounts : Pubkey → Bytes) : Unwedged rt accounts w where
  round := fun _ _ hr live fits formed => round_over reachable hr live fits formed
  epoch := by
    intro id e he holds fits formed
    obtain ⟨w', leads, released⟩ := epoch_released reachable he holds fits formed
    obtain ⟨e', he', closed⟩ := released.epoch
    exact ⟨w', leads, e', he', .inr closed⟩
  next := next_begins reachable

instance (w : World) (instant : Int) (pot : Nat) (owner : Pubkey) :
    Decidable (RoomFor w instant pot owner) :=
  decidable_of_iff ((w.players.lookup owner).all fun p =>
      (touch p w.pool instant).toOption.any fun q => q.entries + pot < u64Limit) <| by
    unfold RoomFor
    cases w.players.lookup owner with
    | none => simp
    | some p => cases ht : touch p w.pool instant <;> simp [ht, Except.toOption]

instance (w : World) (id : Nat) (round : Round) : Decidable (RoundFits w id round) :=
  decidable_of_iff (roundDue w round < i64Limit ∧
      RoomFor w (roundDue w round) round.pot w.pool.house ∧
      ∀ key ∈ w.positions.keys, key.1 = id →
        RoomFor w (roundDue w round) round.pot key.2) <| by
    constructor
    · intro h
      refine ⟨h.1, h.2.1, ?_⟩
      intro owner x hx
      exact h.2.2 (id, owner) (mem_keys.mpr (mem_of_lookup_eq_some hx)) rfl
    · intro h
      refine ⟨h.due, h.house, ?_⟩
      intro key hkey same
      obtain ⟨x, hx⟩ := mem_iff.mp (mem_keys.mp hkey)
      exact h.owners key.2 x (same ▸ hx)

instance (w : World) : Decidable (NextFits w) :=
  decidable_of_iff (nextDue w < i64Limit ∧ GridFits { w with clock := nextDue w } ∧
      w.pool.currentEpochId + 1 < u64Limit)
    ⟨fun h => ⟨h.1, h.2.1, h.2.2⟩, fun h => ⟨h.due, h.grid, h.count⟩⟩

namespace Demo

/-- A round with a Position on it and an epoch, both waiting for their randomness on
a pool the operator has paused. -/
def stalled : List Action :=
  [.setFeaturePause admin .jackpot false, .setFeaturePause admin .game false,
    .deposit (signer 3) (wallet (signer 3)) 100, .beginEpoch operator,
    .wait 1100, .beginEpoch operator, .register 1 ⟨3⟩,
    .fundJackpot (signer 3) (wallet (signer 3)) 500,
    .closeRegistration operator 1 ⟨9⟩ (List.replicate 32 0),
    .createRound operator 1100 1110, .buyPosition (signer 3) 1 1 10, .wait 1108,
    .requestRoundRandomness 1 ⟨9⟩ (List.replicate 32 0), .setPause operator true,
    .setFeaturePause operator .jackpot true]

def fulfilled : Bytes := List.replicate 8 0 ++ [1] ++ List.replicate 128 0

/-- Its samples are all zero. -/
theorem fulfilled_wellFormed {width range : Nat}
    (h : 0 < 256 ^ width - 1 - (256 ^ width - 1) % range) :
    WellFormed runtime fulfilled width range := by
  refine .inr ⟨by decide +kernel, by decide +kernel, 0, by decide, ?_⟩
  have zero : ∀ n k, fromLeBytes ((List.replicate n 0).take k) = 0 := by
    intro n k
    rw [List.take_replicate]
    induction min k n with
    | zero => rfl
    | succ m ih => exact congrArg (0 + 256 * ·) ih
  have rest : fulfilled.drop (FULFILLED_LEN - 64) = List.replicate 64 0 := by decide +kernel
  rw [sample, if_pos rfl, rest, zero]
  exact h

end Demo

theorem unwedged_stalled : ∃ w r e, Reachable Demo.runtime w ∧ w.pool.jackpotPaused = true ∧
    w.rounds.lookup 1 = some r ∧ r.status = .requested ∧ r.openPositions = 1 ∧
    (∃ w', Leads (Step Demo.runtime) (byAnyone fun _ => Demo.fulfilled) w w' ∧
      RoundOver Demo.runtime 1 w') ∧
    w.epochs.lookup 1 = some e ∧ e.status = .drawing ∧
    (∃ w', Leads (Step Demo.runtime) (byAnyone fun _ => Demo.fulfilled) w w' ∧
      ∃ e', w'.epochs.lookup 1 = some e' ∧ (e'.status = .paid ∨ e'.status = .rolledOver)) ∧
    ∃ w', Leads (Step Demo.runtime)
      (fun x => resumes (fun _ => Demo.fulfilled) x ∨ reappoints x) w w' ∧
      w'.pool.currentEpochId = 3 := by
  obtain ⟨⟨history, w⟩, hrun, hcheck⟩ := exists_of_any (x := Demo.script Demo.stalled)
    (p := fun s => s.2.pool.jackpotPaused && !s.2.pool.shutdown &&
      s.2.pool.currentEpochId = 2 && decide (NextFits s.2) &&
      decide (epochDue s.2 < i64Limit) &&
      (s.2.rounds.lookup 1).any (fun r : Round => r.status = .requested && r.openPositions = 1 &&
        decide (RoundFits s.2 1 r)) &&
      (s.2.epochs.lookup 1).any fun e : Epoch => e.status = .drawing &&
        decide (0 < 256 ^ 16 - 1 - (256 ^ 16 - 1) % e.registeredWeight)) (by decide +kernel)
  simp only [Bool.and_eq_true, Bool.not_eq_true', decide_eq_true_eq, Option.any_eq_true] at hcheck
  obtain ⟨⟨⟨⟨⟨⟨paused, running⟩, current⟩, next⟩, due⟩, r, hr, ⟨requested, counted⟩, fits⟩,
    e, he, drawing, limit⟩ := hcheck
  have reachable := (Demo.script_run hrun).reachable
  have tiles : WellFormed Demo.runtime Demo.fulfilled 8 TILE_COUNT :=
    Demo.fulfilled_wellFormed (by decide)
  have weights := Demo.fulfilled_wellFormed limit
  have exits := unwedged reachable fun _ => Demo.fulfilled
  have begins := exits.next running next (by
    intro x hx _
    rw [current] at hx
    obtain rfl := Option.some.inj (he.symm.trans hx)
    exact weights)
  rw [current] at begins
  exact ⟨w, r, e, reachable, paused, hr, requested, counted,
    exits.round 1 r hr (.inr requested) fits fun _ => tiles, he, drawing,
    exits.epoch 1 e he (.inl drawing) due fun _ => weights, begins⟩

/-- The admin names the key nobody holds: no step but another naming brings the
next epoch nearer, however long. -/
theorem unmanned_stuck : ∃ w, Reachable Demo.runtime w ∧ w.pool.shutdown = false ∧
    NextFits w ∧ w.pool.currentEpochId = 0 ∧ w.epochs.lookup 0 = none ∧
    ∀ w', Leads (Step Demo.runtime) (fun x => ∃ accounts, resumes accounts x) w w' →
      w'.pool.currentEpochId ≠ w.pool.currentEpochId + 1 := by
  obtain ⟨⟨history, w⟩, hrun, hcheck⟩ := exists_of_any
    (x := Demo.script [.setOperator Demo.admin Pubkey.default])
    (p := fun s => !s.2.pool.shutdown && decide (NextFits s.2) && s.2.pool.currentEpochId = 0 &&
      (s.2.epochs.lookup 0).isNone && s.2.pool.operator = Pubkey.default) (by decide +kernel)
  simp only [Bool.and_eq_true, Bool.not_eq_true', decide_eq_true_eq,
    Option.isNone_iff_eq_none] at hcheck
  obtain ⟨⟨⟨⟨running, fits⟩, first⟩, none⟩, nobody⟩ := hcheck
  refine ⟨w, (Demo.script_run hrun).reachable, running, fits, first, none, ?_⟩
  intro w' leads
  rw [unmanned_leads nobody leads]
  exact Nat.ne_of_lt (Nat.lt_succ_self _)

end HexVault
