import HexVault.Invariants.Live
import HexVault.Invariants.Tickets
import HexVault.Lib.Views
import HexVault.Program.Configuration
import HexVault.Program.Journal

/-!
The log is a complete journal: in every reachable state, recording its events one after the other
gives every balance the accounts show. Each handler emits what it did, so each step records itself;
the rule of the library carries that over a run.
-/

namespace HexVault

open Fallible Finmap Journals Views

section Views
variable {current : Nat} {players : Finmap fun _ : Pubkey => Player} {owner : Pubkey}
  {epochs : Finmap fun _ : Nat => Epoch} {p q r : Player} {pool : Pool} {now : Int}

theorem balanceOf_of_lookup (h : players.lookup owner = some p) :
    balanceOf current players owner = p.balance current := by
  rw [balanceOf, h, Option.elim_some]

theorem balanceOf_insert (owner : Pubkey) (p : Player) :
    balanceOf current (players.insert owner p) =
      Function.update (balanceOf current players) owner (p.balance current) := by
  funext other
  by_cases same : other = owner
  · subst same
    rw [Function.update_self, balanceOf_of_lookup (Finmap.lookup_insert _)]
  · rw [Function.update_of_ne same, balanceOf, Finmap.lookup_insert_of_ne _ same, balanceOf]

theorem epochBooks_eq : epochBooks epochs = view Epoch.book epochs := rfl

/-- A touch changes no balance. -/
theorem touch_balance (behind : p.epochId ≤ pool.currentEpochId)
    (h : touch p pool now = .ok q) :
    q.balance pool.currentEpochId = p.balance pool.currentEpochId := by
  have same := touch_sameHoldings h
  have tickets : (q.balance pool.currentEpochId).tickets =
      (p.balance pool.currentEpochId).tickets := by
    cases touch_cases h with
    | inl kept =>
        have epoch := Nat.le_antisymm behind kept.current
        rw [Player.balance, Player.balance, kept.epochId, kept.entries, kept.principal]
    | inr new =>
        rw [Player.balance, Player.balance]
        dsimp only
        rw [if_pos new.epochId, if_neg (Nat.ne_of_lt new.behind), new.entries]
  simp only [Player.balance, same.principal, same.pendingWithdraw, same.pendingEpoch,
    same.yieldEpoch, same.boughtEpoch, same.boughtAmount, same.bonusEpoch, same.bonusGranted,
    same.regEpoch, same.regStart, same.regEnd, Balance.mk.injEq, true_and, and_true] at tickets ⊢
  exact tickets

end Views

section Steps
variable {rt : Runtime} {w w' : World} {owner : Pubkey} {p q r : Player}

theorem journal_player (h : w.players.lookup owner = some p) :
    w.journal.balances owner = p.balance w.pool.currentEpochId :=
  balanceOf_of_lookup h

/-- The books of an owner are those of the touched Player. -/
theorem journal_touched (accounts : w.Accounts) (h : w.players.lookup owner = some p)
    (ht : touch p w.pool w.clock = .ok q) :
    w.journal.balances owner = q.balance w.pool.currentEpochId := by
  rw [journal_player h, touch_balance (accounts.behind h) ht]

/-- In the current epoch the Tickets are the Entries. -/
theorem balance_tickets {current : Nat} (h : q.epochId = current) :
    (q.balance current).tickets = q.entries := if_pos h

/-- An owner's balance rewritten as an event says. -/
theorem balanceOf_write {change : Balance → Balance}
    (before : w.journal.balances owner = p.balance w.pool.currentEpochId)
    (changed : r.balance w.pool.currentEpochId = change (p.balance w.pool.currentEpochId)) :
    balanceOf w.pool.currentEpochId (w.players.insert owner r) =
      (w.journal.write owner change).balances := by
  rw [balanceOf_insert, changed, ← before]
  rfl

/-- Journals that agree on the pool and on each kind of account are the same. -/
theorem Journal.eq_of_books {j j' : Journal}
    (pool : { j with
      balances := j'.balances, rounds := j'.rounds, stakes := j'.stakes, epochs := j'.epochs } = j')
    (balances : j.balances = j'.balances) (rounds : j.rounds = j'.rounds)
    (stakes : j.stakes = j'.stakes) (epochs : j.epochs = j'.epochs) : j = j' := by
  rw [← pool, ← balances, ← rounds, ← stakes, ← epochs]

theorem deposit_records {token : TokenAccount} {amount : Nat} {owner : Signer}
    (accounts : w.Accounts) (h : deposit owner token amount w = .ok w') :
    journaling.Records w w' := by
  simp only [deposit, bind_eq_ok, ensure_eq_ok, transferIn_eq_ok, addU64_eq_ok, pure_eq_ok,
    exists_const] at h
  obtain ⟨_, -, player, ht, -, -, -, -, _, ⟨-, -, rfl⟩, _, ⟨-, rfl⟩, _, ⟨-, rfl⟩, _, ⟨-, rfl⟩,
    rfl⟩ := h
  have behind := initIfFresh_behind accounts owner.key
  have current := touch_epochId behind ht
  have before : w.journal.balances owner.key = player.balance w.pool.currentEpochId := by
    rw [touch_balance behind ht]
    cases hp : w.players.lookup owner.key with
    | none =>
        change balanceOf w.pool.currentEpochId w.players owner.key = _
        rw [balanceOf, hp, Option.getD_none, initIfFresh_zeroed]
        simp [Player.balance, Player.zeroed, Balance.empty]
    | some p =>
        rw [journal_player hp, Option.getD_some, Player.initIfFresh,
          if_pos (accounts.owned hp).2]
  refine .single rfl ?_ (Journal.eq_of_books rfl (Eq.symm ?_) rfl rfl rfl)
  · change _ = (w.journal.balances owner.key).principal + amount ∧
      _ = (w.journal.balances owner.key).tickets + amount
    rw [before, balance_tickets current]
    exact ⟨rfl, rfl⟩
  · refine balanceOf_write before ?_
    simp only [Player.balance, Balance.credit, if_pos current]

theorem requestWithdraw_records {owner : Signer} {amount : Nat} (accounts : w.Accounts)
    (h : requestWithdraw owner amount w = .ok w') : journaling.Records w w' := by
  simp only [requestWithdraw, bind_eq_ok, World.player_eq_ok, ensure_eq_ok, subU_eq_ok,
    addU64_eq_ok, pure_eq_ok, exists_const] at h
  obtain ⟨account, ha, player, ht, -, hp, _, ⟨-, rfl⟩, _, ⟨-, rfl⟩, _, ⟨-, rfl⟩, _,
    ⟨-, rfl⟩, rfl⟩ := h
  have before := journal_touched accounts ha ht
  have current := touch_epochId (accounts.behind ha) ht
  refine .single rfl ?_ (Journal.eq_of_books rfl (Eq.symm ?_) rfl rfl rfl)
  · change amount ≤ (w.journal.balances owner.key).principal ∧
      _ = (w.journal.balances owner.key).pending + amount ∧ _
    rw [before]
    exact ⟨hp, rfl, rfl⟩
  · refine balanceOf_write before ?_
    simp only [Player.balance, Balance.request, if_pos current]

theorem processWithdraw_records {token : TokenAccount} (accounts : w.Accounts)
    (h : processWithdraw owner token w = .ok w') : journaling.Records w w' := by
  simp only [processWithdraw, bind_eq_ok, World.player_eq_ok, ensure_eq_ok, transferOut_eq_ok,
    subU_eq_ok, pure_eq_ok, exists_const] at h
  obtain ⟨player, ha, _, -, -, _, -, -, -, _, ⟨-, rfl⟩, _, ⟨-, rfl⟩, rfl⟩ := h
  have own : player.owner = owner := (accounts.owned ha).1
  subst own
  have before := journal_player ha
  refine .single rfl ?_ (Journal.eq_of_books rfl (Eq.symm ?_) rfl rfl rfl)
  · change _ = (w.journal.balances player.owner).pending ∧
      _ = (w.journal.balances player.owner).principal
    rw [before]
    exact ⟨rfl, rfl⟩
  · refine balanceOf_write before ?_
    simp only [Player.balance, Balance.withdraw, Nat.sub_self]

theorem adminWithdraw_records {admin : Signer} {amount : Nat}
    (h : adminWithdraw admin amount w = .ok w') : journaling.Records w w' := by
  simp only [adminWithdraw, bind_eq_ok, constraint_eq_ok, ensure_eq_ok, checkedSub_eq_ok,
    transferOut_eq_ok, pure_eq_ok, exists_const] at h
  obtain ⟨-, -, _, ⟨-, rfl⟩, -, _, ⟨-, rfl⟩, rfl⟩ := h
  exact .single rfl trivial rfl

theorem emergencyWithdraw_records {token : TokenAccount} (accounts : w.Accounts)
    (h : emergencyWithdraw owner token w = .ok w') : journaling.Records w w' := by
  simp only [emergencyWithdraw, bind_eq_ok, World.player_eq_ok, ensure_eq_ok, addU64_eq_ok,
    subU_eq_ok, transferOut_eq_ok, pure_eq_ok, exists_const] at h
  obtain ⟨account, ha, _, -, player, ht, -, -, _, ⟨-, rfl⟩, -, -, _, ⟨-, rfl⟩, _,
    ⟨-, rfl⟩, _, ⟨-, rfl⟩, rfl⟩ := h
  have own : player.owner = owner := (touch_sameHoldings ht).owner.trans (accounts.owned ha).1
  subst own
  have before := journal_touched accounts ha ht
  have current := touch_epochId (accounts.behind ha) ht
  refine .single rfl ?_ (Journal.eq_of_books rfl (Eq.symm ?_) rfl rfl rfl)
  · change _ = (w.journal.balances player.owner).principal ∧
      _ = (w.journal.balances player.owner).pending ∧ _
    rw [before]
    exact ⟨rfl, rfl, rfl⟩
  · refine balanceOf_write before ?_
    simp only [Player.balance, Balance.exit, if_pos current]

theorem sweepHouse_records {admin : Signer} (h : sweepHouse admin w = .ok w') :
    journaling.Records w w' := by
  simp only [sweepHouse, bind_eq_ok, constraint_eq_ok, ensure_eq_ok, subU_eq_ok,
    transferOut_eq_ok, pure_eq_ok, exists_const] at h
  obtain ⟨-, -, _, ⟨hy, rfl⟩, _, ⟨-, rfl⟩, _, ⟨-, rfl⟩, rfl⟩ := h
  exact .single rfl hy rfl

theorem countedAfter_add {countedEpoch counted epochId cap amount total : Nat}
    {err : HexVaultError}
    (h : countedAfter countedEpoch counted epochId cap amount err = .ok total) :
    total = ((Counted.mk countedEpoch counted).add epochId amount).amount ∧ total ≤ cap := by
  simp only [countedAfter, bind_eq_ok, addU64_eq_ok, ensure_eq_ok, pure_eq_ok, exists_const] at h
  obtain ⟨_, ⟨-, rfl⟩, within, rfl⟩ := h
  exact ⟨rfl, within⟩

theorem buyTickets_records {owner : Signer} {token : TokenAccount} {amount : Nat}
    (accounts : w.Accounts) (h : buyTickets owner token amount w = .ok w') :
    journaling.Records w w' := by
  simp only [buyTickets, bind_eq_ok, World.player_eq_ok, ensure_eq_ok, transferIn_eq_ok,
    mulU64_eq_ok, addU64_eq_ok, pure_eq_ok, exists_const] at h
  obtain ⟨_, -, account, ha, player, ht, -, -, -, -, -, -, bought, hb, _, ⟨-, -, rfl⟩, _,
    ⟨-, rfl⟩, _, ⟨-, rfl⟩, rfl⟩ := h
  obtain ⟨rfl, within⟩ := countedAfter_add hb
  have own : player.owner = owner.key := (touch_sameHoldings ht).owner.trans (accounts.owned ha).1
  have before := journal_touched accounts ha ht
  have current := touch_epochId (accounts.behind ha) ht
  rw [own]
  refine .single rfl ?_ (Journal.eq_of_books rfl (Eq.symm ?_) rfl rfl rfl)
  · change _ ∧ ((w.journal.balances owner.key).bought.add _ _).amount ≤
      (w.journal.balances owner.key).principal
    rw [before]
    exact ⟨rfl, within⟩
  · refine balanceOf_write before ?_
    simp only [Player.balance, Balance.buy, Balance.receive, Counted.add, if_pos current]

/-- A grant's counters: neither moves for the admin. -/
theorem countGrant_counted {byAdmin : Bool} {player : Player} {pool : Pool} {amount : Nat}
    {counted : Player × Pool} (h : countGrant byAdmin player pool amount = .ok counted) :
    (byAdmin = true ∧ counted = (player, pool)) ∨ (byAdmin = false ∧ ∃ playerBonus poolBonus,
      counted = ({ player with bonusEpoch := pool.currentEpochId, bonusGranted := playerBonus },
        { pool with bonusEpoch := pool.currentEpochId, bonusGranted := poolBonus }) ∧
      playerBonus = ((Counted.mk player.bonusEpoch player.bonusGranted).add pool.currentEpochId
        amount).amount ∧
      poolBonus = ((Counted.mk pool.bonusEpoch pool.bonusGranted).add pool.currentEpochId
        amount).amount ∧ playerBonus ≤ player.principal) := by
  cases byAdmin with
  | true =>
      cases h
      exact .inl ⟨rfl, rfl⟩
  | false =>
      simp only [countGrant, Bool.false_eq_true, if_false, operatorGrant, bonusAfter, bind_eq_ok,
        ensure_eq_ok, pure_eq_ok, exists_const] at h
      obtain ⟨-, _, hplayer, _, -, _, hpool, rfl⟩ := h
      obtain ⟨rfl, within⟩ := countedAfter_add hplayer
      obtain ⟨rfl, -⟩ := countedAfter_add hpool
      exact .inr ⟨rfl, _, _, rfl, rfl, rfl, within⟩

theorem grantTickets_records {signer : Signer} {amount : Nat} (accounts : w.Accounts)
    (h : grantTickets signer owner amount w = .ok w') : journaling.Records w w' := by
  simp only [grantTickets, bind_eq_ok, World.player_eq_ok, ensure_eq_ok, addU64_eq_ok,
    pure_eq_ok, exists_const] at h
  obtain ⟨account, ha, -, player, ht, -, -, -, -, counted, hc, _, ⟨-, rfl⟩, rfl⟩ := h
  have own : player.owner = owner := (touch_sameHoldings ht).owner.trans (accounts.owned ha).1
  have before := journal_touched accounts ha ht
  have current := touch_epochId (accounts.behind ha) ht
  rw [own]
  rcases countGrant_counted hc with ⟨byAdmin, rfl⟩ | ⟨byOperator, _, _, rfl, rfl, rfl, within⟩
  · rw [byAdmin]
    refine .single rfl ⟨rfl, fun bad => absurd bad (by decide)⟩
      (Journal.eq_of_books rfl (Eq.symm ?_) rfl rfl rfl)
    refine balanceOf_write before ?_
    simp only [Player.balance, Balance.receive, if_pos current]
  · rw [byOperator]
    refine .single rfl ⟨rfl, fun _ => ?_⟩ (Journal.eq_of_books rfl (Eq.symm ?_) rfl rfl rfl)
    · change ((w.journal.balances owner).bonus.add _ _).amount ≤
        (w.journal.balances owner).principal
      rw [before]
      exact within
    · refine balanceOf_write before ?_
      simp only [Player.balance, Balance.grant, Balance.receive, Counted.add, if_pos current]

theorem createRound_records {operator : Signer} {startsAt endsAt : Int}
    (h : createRound operator startsAt endsAt w = .ok w') : journaling.Records w w' := by
  simp only [createRound, bind_eq_ok, constraint_eq_ok, ensure_eq_ok, addU64_eq_ok, pure_eq_ok,
    exists_const] at h
  obtain ⟨-, -, -, -, -, idle, -, _, -, _, ⟨-, rfl⟩, rfl⟩ := h
  exact .single rfl ⟨idle, rfl, rfl, rfl⟩
    (Journal.eq_of_books rfl rfl view_insert.symm rfl rfl)

/-- A round not finished has no outcome yet. -/
theorem outcome_none {status : RoundStatus} : status.outcome = none ↔ ¬ isFinished status := by
  cases status <;> simp [RoundStatus.outcome, isFinished]

theorem roundBook_lookup {id : Nat} {r : Round} (h : w.rounds.lookup id = some r) :
    w.journal.rounds id = some r.book := view_of_lookup h

theorem RoundBook.tileTotal_eq (round : RoundBook) (tile : Fin TILE_COUNT) :
    round.tileTotal tile = round.tileTotals tile := by
  rw [RoundBook.tileTotal, dif_pos tile.isLt]

theorem buyPosition_records {owner : Signer} {roundId : Nat} {tiles : BitVec 64}
    {stakePerTile : Nat} (accounts : w.Accounts) (live : w.Live)
    (h : buyPosition owner roundId tiles stakePerTile w = .ok w') : journaling.Records w w' := by
  simp only [buyPosition, preCredit, tileCount, bind_eq_ok, World.player_eq_ok,
    World.round_eq_ok, constraint_eq_ok, ensure_eq_ok, require_eq_ok, subI64_eq_ok,
    mulU64_eq_ok, mulU128_eq_ok, addU128_eq_ok, addU64_eq_ok, addU32_eq_ok, subU_eq_ok,
    pure_eq_ok, exists_const] at h
  obtain ⟨account, ha, round, hr, hpos, player, ht, -, -, -, -, ho, _, ⟨-, rfl⟩, -, _,
    ⟨-, rfl⟩, -, _, ⟨-, rfl⟩, hafford, _, ⟨_, ⟨-, rfl⟩, -, _, ⟨-, rfl⟩, _,
    ⟨-, rfl⟩, rfl⟩, _, ⟨-, rfl⟩, round', hadd, _, ⟨-, rfl⟩, _, ⟨-, rfl⟩, rfl⟩ := h
  obtain rfl := addStakes_eq_ok (List.nodup_finRange _) hadd
  have before := journal_touched accounts ha ht
  have current := touch_epochId (accounts.behind ha) ht
  have keyed := (live.keyed hr).1
  subst keyed
  simp only [List.mem_finRange, true_and]
  refine .single rfl ⟨⟨round.book, roundBook_lookup hr, ?_⟩, ?_, rfl, ?_⟩
    (Journal.eq_of_books rfl (Eq.symm ?_) (Eq.symm ?_) (Eq.symm ?_) rfl)
  · rw [Round.book, ho]
    rfl
  · change stakeBooks w.positions (round.roundId, owner.key) = none
    rw [stakeBooks, hpos, Option.map_none]
  · change _ ≤ (w.journal.balances owner.key).tickets
    rw [before, balance_tickets current]
    exact hafford
  · refine balanceOf_write before ?_
    simp only [Player.balance, Balance.stake, if_pos current]
  · exact view_write hr rfl
  · exact view_insert

theorem requestRoundRandomness_records {rt : Runtime} {roundId : Nat} {randomness : Pubkey}
    {nonce : Bytes} (h : requestRoundRandomness rt roundId randomness nonce w = .ok w') :
    journaling.Records w w' := by
  simp only [requestRoundRandomness, bind_eq_ok, World.round_eq_ok, ensure_eq_ok,
    subI64_eq_ok, pure_eq_ok, exists_const] at h
  obtain ⟨round, hr, ho, _, ⟨-, rfl⟩, -, -, rfl⟩ := h
  refine .silent rfl (Journal.eq_of_books rfl rfl (view_same hr ?_) rfl rfl)
  rw [Round.book, Round.book, ho]
  rfl

/-- Of a round in the books, the House's share is what `settle_round` credits. -/
theorem houseShare_eq {id credit : Nat} {r : Round} (h : w.rounds.lookup id = some r) :
    w.journal.houseShare id credit =
      if r.epochId = w.pool.currentEpochId then credit else 0 := by
  rw [Journal.houseShare, roundBook_lookup h, Option.any_some]
  change (if (r.epochId == w.pool.currentEpochId) = true then credit else 0) = _
  simp only [beq_iff_eq]

theorem settleRound_records {rt : Runtime} {roundId : Nat} {randomness : AccountInfo}
    (accounts : w.Accounts) (live : w.Live) (range : w.pool.InRange)
    (h : settleRound rt roundId randomness w = .ok w') : journaling.Records w w' := by
  simp only [settleRound, bind_eq_ok, World.player_eq_ok, World.round_eq_ok, ensure_eq_ok,
    pure_eq_ok, exists_const] at h
  obtain ⟨round, hr, account, ha, hs, _, -, _, -, _, htile, cut, hcut, house, hh, rfl⟩ := h
  obtain ⟨tile, rfl, rfl⟩ := tileTotal_eq_ok htile
  have hcut := houseCutOf_eq_ok hcut
  have share := creditHouse_eq_ok hh
  have keyed := (live.keyed hr).1
  subst keyed
  refine .single rfl ⟨round.book, roundBook_lookup hr, ?_, rfl, tile.isLt, ?_, ?_⟩
    (Journal.eq_of_books rfl (Eq.symm ?_) (Eq.symm ?_) rfl rfl)
  · rw [Round.book, hs]
    rfl
  · rw [hcut]
    split
    · exact Nat.zero_le _
    · exact cut_le range.houseCutBps
  · rw [RoundBook.tileTotal_eq, decide_eq_true_iff]
    rfl
  · change balanceOf w.pool.currentEpochId (w.players.insert w.pool.house house) =
      (w.journal.write w.pool.house (.receive (w.journal.houseShare round.roundId _))).balances
    rw [houseShare_eq hr]
    cases share with
    | credited current _ ht =>
        refine balanceOf_write (journal_touched accounts ha ht) ?_
        rw [if_pos (of_decide_eq_true current)]
        simp only [Player.balance, Balance.receive, if_pos (touch_epochId (accounts.behind ha) ht)]
    | evaporated none =>
        refine balanceOf_write (journal_player ha) ?_
        rw [Balance.receive]
        split
        · next current =>
            have idle := fun credited => none ⟨decide_eq_true current, credited⟩
            rw [Nat.eq_zero_of_not_pos fun positive => idle (.inr positive), Nat.add_zero]
        · rfl
  · refine view_write hr ?_
    cases decide (round.tileTotals tile = 0) <;> rfl

theorem outcome_settled {status : RoundStatus} :
    status.outcome = some .settled ↔ status = .settled := by
  cases status <;> simp [RoundStatus.outcome]

/-- What a Position is owed is what the books owe it. -/
theorem positionReward_book {round : Round} {x : Position} {reward : Nat}
    (h : positionReward w.pool round x = .ok reward) :
    reward = round.book.reward w.pool.currentEpochId x.tiles x.stakePerTile := by
  have shared : round.book.outcome = some .settled ↔ round.status = .settled := outcome_settled
  simp only [RoundBook.reward, shared]
  change reward = if round.epochId = _ ∧ round.status = _ ∧ tileIsCovered x.tiles round.winningTile
    = true then _ else 0
  simp only [positionReward] at h
  split at h
  · next all =>
      simp only [bind_eq_ok, subU_eq_ok, mulU128_eq_ok, require_eq_ok, narrowU64_eq_ok,
        exists_const] at h
      obtain ⟨_, htile, _, ⟨-, rfl⟩, _, ⟨-, rfl⟩, -, -, rfl⟩ := h
      obtain ⟨tile, winning, rfl⟩ := tileTotal_eq_ok htile
      rw [if_pos all]
      change _ = _ / round.book.tileTotal round.winningTile
      rw [← winning, RoundBook.tileTotal_eq]
      rfl
  · next none =>
      cases h
      rw [if_neg none]

theorem settlePosition_records {roundId : Nat} (accounts : w.Accounts) (live : w.Live)
    (books : w.Books) (h : settlePosition roundId owner w = .ok w') :
    journaling.Records w w' := by
  simp only [settlePosition, bind_eq_ok, World.player_eq_ok, World.round_eq_ok,
    World.position_eq_ok, ensure_eq_ok, subU_eq_ok, pure_eq_ok, exists_const] at h
  obtain ⟨round, hr, account, ha, position, hp, player, ht, hf, reward, hreward, _, hadd, _,
    ⟨-, rfl⟩, rfl⟩ := h
  obtain rfl := addReward_eq_ok hadd
  have keyed := (live.keyed hr).1
  have own : position.owner = owner := books.keyed hp
  subst keyed own
  refine .single rfl ⟨round.book, position.tiles, position.stakePerTile, roundBook_lookup hr,
    fun none => outcome_none.mp none hf, ?_, positionReward_book hreward⟩
    (Journal.eq_of_books rfl (Eq.symm ?_) (Eq.symm ?_) (Eq.symm ?_) rfl)
  · change stakeBooks w.positions (round.roundId, position.owner) = _
    rw [stakeBooks, hp, Option.map_some]
  · refine balanceOf_write (journal_touched accounts ha ht) ?_
    simp only [Player.balance, Balance.receive, if_pos (touch_epochId (accounts.behind ha) ht)]
  · exact view_same hr rfl
  · exact view_erase

theorem voidRound_records {rt : Runtime} {roundId : Nat} {randomness : AccountInfo}
    (live : w.Live) (h : voidRound rt roundId randomness w = .ok w') :
    journaling.Records w w' := by
  simp only [voidRound, bind_eq_ok, World.round_eq_ok, pure_eq_ok] at h
  obtain ⟨round, hr, _, hv, carry, hcarry, rfl⟩ := h
  have keyed := (live.keyed hr).1
  subst keyed
  refine .single rfl ⟨round.book, roundBook_lookup hr, ?_, carryPotAfter_eq_ok hcarry⟩
    (Journal.eq_of_books rfl rfl (Eq.symm ?_) rfl rfl)
  · refine outcome_none.mpr fun finished => ?_
    rcases checkVoidable_eq_ok hv with requested | unrequested
    · rw [requested] at finished
      exact absurd finished (by decide)
    · rw [unrequested] at finished
      exact absurd finished (by decide)
  · exact view_write hr rfl

theorem closeRound_records {operator : Pubkey} {roundId : Nat} (live : w.Live) (books : w.Books)
    (h : closeRound operator roundId w = .ok w') : journaling.Records w w' := by
  simp only [closeRound, bind_eq_ok, constraint_eq_ok, World.round_eq_ok, ensure_eq_ok,
    pure_eq_ok, exists_const] at h
  obtain ⟨-, round, hr, hf, hopen, rfl⟩ := h
  have keyed := (live.keyed hr).1
  subst keyed
  refine .single rfl ⟨⟨round.book, roundBook_lookup hr, fun none => outcome_none.mp none hf⟩, ?_⟩
    (Journal.eq_of_books rfl rfl view_erase.symm rfl rfl)
  intro owner
  change stakeBooks w.positions (round.roundId, owner) = none
  rw [stakeBooks, Option.map_eq_none_iff]
  exact Books.none_of_zero books hr hopen owner

theorem epochBook_lookup {id : Nat} {e : Epoch} (h : w.epochs.lookup id = some e) :
    w.journal.epochs id = some e.book := view_of_lookup h

theorem epochBooks_write {id : Nat} {e e' : Epoch} {change : EpochBook → EpochBook}
    (h : w.epochs.lookup id = some e) (changed : e'.book = change e.book) :
    epochBooks (w.epochs.insert id e') = (w.journal.writeEpoch id change).epochs :=
  view_write h changed

/-- Past the end of its epoch, every balance starts the new one from Principal. -/
theorem balanceOf_renew {players : Finmap fun _ : Pubkey => Player} {current : Nat}
    (behind : ∀ {owner p}, players.lookup owner = some p → p.epochId ≤ current) :
    balanceOf (current + 1) players = fun owner => (balanceOf current players owner).renew := by
  funext owner
  cases hp : players.lookup owner with
  | none => rw [balanceOf, balanceOf, hp, Option.elim_none, Option.elim_none, Balance.renew,
      Balance.empty]
  | some p =>
      have before := behind hp
      rw [balanceOf_of_lookup hp, balanceOf_of_lookup hp, Balance.renew]
      simp only [Player.balance, if_neg (Nat.ne_of_lt (Nat.lt_succ_of_le before))]

theorem beginEpoch_records {operator : Signer} (accounts : w.Accounts) (calendar : w.Calendar)
    (h : beginEpoch operator w = .ok w') : journaling.Records w w' := by
  simp only [beginEpoch, bind_eq_ok, constraint_eq_ok, ensure_eq_ok, addI64_eq_ok,
    addU64_eq_ok, pure_eq_ok, exists_const] at h
  obtain ⟨-, hnew, -, -, _, -, ⟨startsAt, epochs⟩, hend, floor, -, _, ⟨-, rfl⟩, _,
    ⟨-, rfl⟩, rfl⟩ := h
  have ended : epochBooks epochs = epochBooks w.epochs := by
    rcases endCurrent_cases hend with ⟨-, -, rfl⟩ | ⟨-, previous, _, hp, -, -, -, rfl⟩
    · rfl
    · have running := (calendar.isOpen hp).mpr rfl
      refine view_same hp ?_
      simp only [Epoch.book, Epoch.drawBook, running]
  refine .single rfl ⟨rfl, ?_⟩ (Journal.eq_of_books rfl (Eq.symm ?_) rfl rfl (Eq.symm ?_))
  · change epochBooks w.epochs _ = none
    rw [epochBooks, hnew, Option.map_none]
  · exact balanceOf_renew accounts.behind
  · change epochBooks (epochs.insert _ _) = _
    rw [epochBooks_eq, view_insert, ← epochBooks_eq, ended]
    rfl

/-- A Player written twice, the second time as an event says. -/
theorem balanceOf_rewrite {players : Finmap fun _ : Pubkey => Player} {current : Nat}
    {change : Balance → Balance} (changed : r.balance current = change (q.balance current)) :
    balanceOf current (players.insert owner r) =
      Function.update (balanceOf current (players.insert owner q)) owner
        (change (balanceOf current (players.insert owner q) owner)) := by
  rw [balanceOf_of_lookup (Finmap.lookup_insert _), ← changed, balanceOf_insert, balanceOf_insert,
    Function.update_idem]

theorem creditYield_shortfall {pool : Pool} {player : Player} {ps : Nat} {now : Int}
    {credit : YieldCredit} (h : creditYield pool player ps now = .ok credit) :
    credit.shortfall = 0 ∨ credit.credited = pool.yieldBudget := by
  simp only [creditYield, bind_eq_ok, subU_eq_ok, addU64_eq_ok, pure_eq_ok] at h
  obtain ⟨desired, -, _, ⟨-, rfl⟩, q, -, _, ⟨-, rfl⟩, _, ⟨-, rfl⟩, _, ⟨-, rfl⟩, _, ⟨-, rfl⟩,
    rfl⟩ := h
  by_cases covered : desired ≤ pool.yieldBudget
  · left
    change desired - min desired pool.yieldBudget = 0
    rw [min_eq_left covered, Nat.sub_self]
  · exact .inr (min_eq_right (Nat.le_of_not_le covered))

/-- Base yield as its event reports it, credited to a touched Player or, where there is nothing
to credit, to one that was left alone. -/
theorem YieldTouch.balance {credited epochId : Nat} (behind : p.epochId ≤ w.pool.currentEpochId)
    (h : YieldTouch w p credited q) :
    (q.creditYield credited epochId).balance w.pool.currentEpochId =
      (p.balance w.pool.currentEpochId).creditYield epochId credited := by
  have same : q.balance w.pool.currentEpochId = p.balance w.pool.currentEpochId := by
    rcases h with ⟨-, rfl⟩ | touched
    · rfl
    · exact touch_balance behind touched
  rw [← same]
  by_cases current : q.epochId = w.pool.currentEpochId
  · have kept : (q.creditYield credited epochId).epochId = w.pool.currentEpochId := current
    simp only [Player.balance, if_pos current, if_pos kept]
    rfl
  · have kept : (q.creditYield credited epochId).epochId ≠ w.pool.currentEpochId := current
    simp only [Player.balance, if_neg current, if_neg kept]
    rfl

/-- The yield part of a registration records itself. -/
theorem registerYield_records {epochId ps : Nat} {pool : Pool} {player : Player}
    {es : List Event} (accounts : w.Accounts) (ha : w.players.lookup owner = some p)
    (closing : epochId + 1 = w.pool.currentEpochId)
    (h : registerYield w.pool p epochId ps w.clock = .ok (pool, player, es)) :
    journaling.Records w
      ({ w with pool, players := w.players.insert owner player }.emit es) := by
  have own := (accounts.owned ha).1
  subst own
  simp only [registerYield] at h
  split at h
  · next fresh =>
      simp only [bind_eq_ok, pure_eq_ok] at h
      obtain ⟨credit, hc, heq⟩ := h
      cases heq
      obtain ⟨q, hq, within, hpool, hplayer⟩ := creditYield_eq_ok hc
      have before := journal_player ha
      simp only [hpool, hplayer]
      refine .single rfl ⟨closing, ?_, within, creditYield_shortfall hc⟩
        (Journal.eq_of_books rfl (Eq.symm ?_) rfl rfl rfl)
      · change (w.journal.balances p.owner).yieldEpoch ≠ epochId
        rw [before]
        exact fresh
      · exact balanceOf_write before (YieldTouch.balance (accounts.behind ha) hq)
  · cases h
    refine .silent (List.append_nil _) (Journal.eq_of_books rfl ?_ rfl rfl rfl)
    change balanceOf _ (w.players.insert p.owner p) = balanceOf _ w.players
    rw [Finmap.insert_lookup_self ha]
    rfl

theorem register_records {epochId : Nat} (accounts : w.Accounts) (calendar : w.Calendar)
    (h : register epochId owner w = .ok w') : journaling.Records w w' := by
  simp only [register, bind_eq_ok, World.epoch_eq_ok, World.player_eq_ok, ensure_eq_ok,
    exists_const] at h
  obtain ⟨epoch, he, account, ha, hs, ⟨hcur, hprev⟩, hreg, ⟨weight, ps⟩, -, ⟨pool, player, es⟩,
    hy, h⟩ := h
  have keyed := (calendar.keyed he).1
  subst keyed
  have own := (accounts.owned ha).1
  have closing : epoch.epochId + 1 = w.pool.currentEpochId := by omega
  have credited := registerYield_records accounts ha closing hy
  simp only at h
  split at h
  · cases pure_eq_ok.mp h
    exact credited
  · next positive =>
      simp only [takeInterval, bind_eq_ok, addU128_eq_ok, addU32_eq_ok, pure_eq_ok] at h
      obtain ⟨_, ⟨_, ⟨-, rfl⟩, _, ⟨-, rfl⟩, rfl⟩, rfl⟩ := h
      obtain ⟨c, q, hq, -, rfl, rfl, -⟩ := registerYield_eq_ok hy
      have same : q.regEpoch = account.regEpoch := hq.sameHoldings.regEpoch
      have owner' : q.owner = owner := hq.sameHoldings.owner.trans own
      subst owner'
      refine credited.trans (.single (List.append_assoc _ _ _).symm
        ⟨epoch.book, epochBook_lookup he, ?_, closing, ?_, Nat.pos_of_ne_zero positive, rfl, rfl⟩
        (Journal.eq_of_books rfl (Eq.symm ?_) rfl rfl (Eq.symm ?_)))
      · simp only [Epoch.book, Epoch.drawBook, hs]
      · change (balanceOf w.pool.currentEpochId (w.players.insert q.owner _) q.owner).regEpoch ≠ _
        rw [balanceOf_of_lookup (Finmap.lookup_insert _)]
        exact fun registered => hreg (same.symm.trans registered)
      · change balanceOf w.pool.currentEpochId (w.players.insert q.owner _) = _
        exact balanceOf_rewrite rfl
      · exact view_write he rfl

theorem fundJackpot_records {authority : Signer} {source : TokenAccount} {amount : Nat}
    (h : fundJackpot authority source amount w = .ok w') : journaling.Records w w' := by
  simp only [fundJackpot, bind_eq_ok, transferIn_eq_ok, pure_eq_ok] at h
  obtain ⟨_, -, _, ⟨-, -, rfl⟩, rfl⟩ := h
  exact .single rfl trivial rfl

theorem fundYield_records {authority : Signer} {source : TokenAccount} {amount : Nat}
    (h : fundYield authority source amount w = .ok w') : journaling.Records w w' := by
  simp only [fundYield, bind_eq_ok, ensure_eq_ok, transferIn_eq_ok, addU64_eq_ok, pure_eq_ok,
    exists_const] at h
  obtain ⟨_, -, -, _, ⟨-, -, rfl⟩, _, ⟨-, rfl⟩, rfl⟩ := h
  exact .single rfl rfl rfl

theorem closeRegistration_records {rt : Runtime} {operator : Signer} {epochId : Nat}
    {randomness : Pubkey} {nonce : Bytes} (calendar : w.Calendar)
    (h : closeRegistration rt operator epochId randomness nonce w = .ok w') :
    journaling.Records w w' := by
  simp only [closeRegistration, bind_eq_ok, constraint_eq_ok, World.epoch_eq_ok, ensure_eq_ok,
    exists_const] at h
  obtain ⟨-, epoch, he, -, -, hs, _, -, -, h⟩ := h
  have keyed := (calendar.keyed he).1
  subst keyed
  have undrawn : epoch.book.draw = .undrawn := by simp only [Epoch.book, Epoch.drawBook, hs]
  split at h
  · cases pure_eq_ok.mp h
    exact .single rfl ⟨epoch.book, epochBook_lookup he, .inl undrawn⟩
      (Journal.eq_of_books rfl rfl rfl rfl (epochBooks_write he rfl).symm)
  · simp only [bind_eq_ok, ensure_eq_ok, addU64_eq_ok, pure_eq_ok, exists_const] at h
    obtain ⟨-, _, ⟨-, rfl⟩, rfl⟩ := h
    refine .silent rfl (Journal.eq_of_books rfl rfl rfl rfl (view_same he ?_))
    simp only [Epoch.book, Epoch.drawBook, hs]

theorem draw_records {rt : Runtime} {epochId : Nat} {randomness : AccountInfo}
    (calendar : w.Calendar) (h : draw rt epochId randomness w = .ok w') :
    journaling.Records w w' := by
  simp only [draw, bind_eq_ok, World.epoch_eq_ok, ensure_eq_ok, pure_eq_ok, exists_const] at h
  obtain ⟨epoch, he, hs, _, -, target, ht, rfl⟩ := h
  have keyed := (calendar.keyed he).1
  subst keyed
  refine .single rfl ⟨epoch.book, epochBook_lookup he, ?_, rfl, unbiased_lt ht⟩
    (Journal.eq_of_books rfl rfl rfl rfl (epochBooks_write he rfl).symm)
  simp only [Epoch.book, Epoch.drawBook, hs]

theorem payout_records {epochId : Nat} (accounts : w.Accounts) (calendar : w.Calendar)
    (h : payout epochId owner w = .ok w') : journaling.Records w w' := by
  simp only [payout, payWinner, bind_eq_ok, World.epoch_eq_ok, World.player_eq_ok, ensure_eq_ok,
    subU_eq_ok, pure_eq_ok, exists_const] at h
  obtain ⟨epoch, he, winner, ha, hs, hreg, inside, paid, hpaid, _, ⟨-, rfl⟩, rfl⟩ := h
  have keyed := (calendar.keyed he).1
  subst keyed
  have own := (accounts.owned ha).1
  subst own
  have before := journal_player ha
  have drawn : epoch.book.draw = .drawn epoch.target := by
    simp only [Epoch.book, Epoch.drawBook, hs]
  have won : (w.journal.balances winner.owner).regEpoch = epoch.epochId ∧
      (w.journal.balances winner.owner).regStart ≤ epoch.target ∧
      epoch.target < (w.journal.balances winner.owner).regEnd := by
    rw [before]
    exact ⟨hreg, inside⟩
  have written : ∀ {e : Epoch},
      e.book = { epoch.book with draw := .paid epoch.target winner.owner } →
      epochBooks (w.epochs.insert epoch.epochId e) =
        (w.journal.writeEpoch epoch.epochId (.pay winner.owner)).epochs := by
    intro e book
    refine view_write he (book.trans ?_)
    rw [EpochBook.pay, drawn, DrawBook.pay]
  split at hpaid
  · next house =>
      simp only [payHouse, bind_eq_ok, transferOut_eq_ok, pure_eq_ok] at hpaid
      obtain ⟨_, ⟨-, rfl⟩, _, ⟨-, rfl⟩, rfl⟩ := hpaid
      rw [house]
      exact .single rfl ⟨rfl, epoch.book, epoch.target, epochBook_lookup he, drawn, won⟩
        (Journal.eq_of_books rfl rfl rfl rfl (written rfl).symm)
  · next notHouse =>
      simp only [payPlayer, bind_eq_ok, transferOut_eq_ok, checkedAdd_eq_ok, addU64_eq_ok,
        pure_eq_ok] at hpaid
      obtain ⟨player, ht, _, ⟨-, rfl⟩, _, ⟨-, rfl⟩, _, ⟨-, rfl⟩, _, ⟨-, rfl⟩, _, ⟨-, rfl⟩,
        rfl⟩ := hpaid
      rw [Bool.eq_false_of_not_eq_true notHouse]
      refine .single rfl ⟨rfl, epoch.book, epoch.target, epochBook_lookup he, drawn, won⟩
        (Journal.eq_of_books rfl (Eq.symm ?_) rfl rfl (written rfl).symm)
      refine balanceOf_write (journal_touched accounts ha ht) ?_
      simp only [Player.balance, Balance.credit, if_pos (touch_epochId (accounts.behind ha) ht)]

theorem rolloverEpoch_records {rt : Runtime} {epochId : Nat} {randomness : AccountInfo}
    (calendar : w.Calendar) (h : rolloverEpoch rt epochId randomness w = .ok w') :
    journaling.Records w w' := by
  simp only [rolloverEpoch, bind_eq_ok, World.epoch_eq_ok, subU_eq_ok, pure_eq_ok] at h
  obtain ⟨epoch, he, _, hs, _, -, rfl⟩ := h
  have keyed := (calendar.keyed he).1
  subst keyed
  refine .single rfl ⟨epoch.book, epochBook_lookup he, ?_⟩
    (Journal.eq_of_books rfl rfl rfl rfl (epochBooks_write he rfl).symm)
  rcases checkRollover_eq_ok hs with status | status | status
  · exact .inl (by simp only [Epoch.book, Epoch.drawBook, status])
  · exact .inl (by simp only [Epoch.book, Epoch.drawBook, status])
  · exact .inr ⟨epoch.target, by simp only [Epoch.book, Epoch.drawBook, status]⟩

/-- Roles and pauses are all the books show of a pool whose parameters are set. -/
theorem setParams_records {admin : Signer} {args : SetParamsArgs}
    (h : setParams admin args w = .ok w') : journaling.Records w w' := by
  obtain ⟨-, -, -, -, -, es, rfl⟩ := setParams_eq_ok h
  have logged : ∃ pool, es = [.paramsSet pool] := by
    simp only [setParams, bind_eq_ok, pure_eq_ok] at h
    obtain ⟨_, -, _, -, _, -, _, -, _, -, _, -, _, -, _, -, _, -, _, -, _, -, _, -, _, -, _, -, _,
      -, _, -, _, -, same⟩ := h
    exact ⟨_, List.append_cancel_left (congrArg World.log same).symm⟩
  obtain ⟨pool, rfl⟩ := logged
  exact .single rfl trivial rfl

theorem setPause_records {signer : Signer} {paused : Bool}
    (h : setPause signer paused w = .ok w') : journaling.Records w w' := by
  simp only [setPause, bind_eq_ok, ensure_eq_ok, pure_eq_ok, exists_const] at h
  obtain ⟨-, -, rfl⟩ := h
  exact .single rfl trivial rfl

theorem setFeaturePause_records {signer : Signer} {feature : PauseFeature} {paused : Bool}
    (h : setFeaturePause signer feature paused w = .ok w') : journaling.Records w w' := by
  simp only [setFeaturePause, bind_eq_ok, ensure_eq_ok, pure_eq_ok, exists_const] at h
  obtain ⟨-, -, rfl⟩ := h
  cases feature with
  | game => exact .single rfl trivial rfl
  | jackpot => exact .single rfl trivial rfl

theorem shutdown_records {admin : Signer} (h : shutdown admin w = .ok w') :
    journaling.Records w w' := by
  simp only [shutdown, bind_eq_ok, constraint_eq_ok, ensure_eq_ok, pure_eq_ok, exists_const] at h
  obtain ⟨-, running, rfl⟩ := h
  exact .single rfl running rfl

theorem setOperator_records {admin : Signer} {newOperator : Pubkey}
    (h : setOperator admin newOperator w = .ok w') : journaling.Records w w' := by
  simp only [setOperator, bind_eq_ok, constraint_eq_ok, pure_eq_ok, exists_const] at h
  obtain ⟨-, rfl⟩ := h
  exact .single rfl rfl rfl

theorem proposeAdmin_records {admin : Signer} {newAdmin : Pubkey}
    (h : proposeAdmin admin newAdmin w = .ok w') : journaling.Records w w' := by
  simp only [proposeAdmin, bind_eq_ok, constraint_eq_ok, pure_eq_ok, exists_const] at h
  obtain ⟨-, rfl⟩ := h
  exact .single rfl trivial rfl

theorem acceptAdmin_records {pendingAdmin : Signer} (h : acceptAdmin pendingAdmin w = .ok w') :
    journaling.Records w w' := by
  simp only [acceptAdmin, bind_eq_ok, ensure_eq_ok, pure_eq_ok, exists_const] at h
  obtain ⟨-, -, rfl⟩ := h
  exact .single rfl ⟨rfl, rfl⟩ rfl

/-- Every step logs what it did. -/
theorem step_records {a : Action} (reachable : Reachable rt w) (h : Step rt w a w') :
    journaling.Records w w' := by
  have accounts := reachable_accounts reachable
  have live := reachable_live reachable
  have calendar := reachable_calendar reachable
  cases a with
  | wait t =>
      simp only [Step, perform, wait, bind_eq_ok, require_eq_ok, pure_eq_ok, exists_const] at h
      obtain ⟨-, rfl⟩ := h
      exact .silent rfl rfl
  | transferToPrincipalVault amount =>
      simp only [Step, perform, transferToPrincipalVault, bind_eq_ok, pure_eq_ok] at h
      obtain ⟨_, -, rfl⟩ := h
      exact .silent rfl rfl
  | transferToJackpotVault amount =>
      simp only [Step, perform, transferToJackpotVault, bind_eq_ok, pure_eq_ok] at h
      obtain ⟨_, -, rfl⟩ := h
      exact .silent rfl rfl
  | setParams admin args => exact setParams_records h
  | setPause signer paused => exact setPause_records h
  | setFeaturePause signer feature paused => exact setFeaturePause_records h
  | shutdown admin => exact shutdown_records h
  | setOperator admin newOperator => exact setOperator_records h
  | proposeAdmin admin newAdmin => exact proposeAdmin_records h
  | acceptAdmin pendingAdmin => exact acceptAdmin_records h
  | deposit owner ownerToken amount => exact deposit_records accounts h
  | requestWithdraw owner amount => exact requestWithdraw_records accounts h
  | processWithdraw owner ownerToken => exact processWithdraw_records accounts h
  | adminWithdraw admin amount => exact adminWithdraw_records h
  | emergencyWithdraw owner ownerToken => exact emergencyWithdraw_records accounts h
  | sweepHouse admin => exact sweepHouse_records h
  | buyTickets owner ownerToken amount => exact buyTickets_records accounts h
  | grantTickets signer owner amount => exact grantTickets_records accounts h
  | createRound operator startsAt endsAt => exact createRound_records (createRound_step.mp h).2
  | buyPosition owner roundId tiles stakePerTile => exact buyPosition_records accounts live h
  | requestRoundRandomness roundId randomness nonce => exact requestRoundRandomness_records h
  | settleRound roundId randomness =>
      exact settleRound_records accounts live (reachable_inRange reachable) h
  | settlePosition roundId owner =>
      exact settlePosition_records accounts live (reachable_books reachable) h
  | voidRound roundId randomness => exact voidRound_records live h
  | closeRound operator roundId => exact closeRound_records live (reachable_books reachable) h
  | beginEpoch operator => exact beginEpoch_records accounts calendar h
  | register epochId owner => exact register_records accounts calendar h
  | fundJackpot authority source amount => exact fundJackpot_records h
  | fundYield authority source amount => exact fundYield_records h
  | closeRegistration operator epochId randomness nonce =>
      exact closeRegistration_records calendar h
  | draw epochId randomness => exact draw_records calendar h
  | payout epochId owner => exact payout_records accounts calendar h
  | rolloverEpoch epochId randomness => exact rolloverEpoch_records calendar h

/-- A new pool's accounts show nothing its first event does not say. -/
theorem created_balanced (h : Created w) : journaling.Balanced Journal.empty w := by
  obtain ⟨params, accounts, now, -, -, h⟩ := h
  simp only [createPool, bind_eq_ok, ensure_eq_ok, pure_eq_ok, exists_const] at h
  obtain ⟨-, -, _, -, -, rfl⟩ := h
  refine ⟨⟨trivial, trivial⟩, Journal.eq_of_books rfl ?_ ?_ ?_ ?_⟩
  · funext owner
    change Balance.empty = balanceOf 0 (Finmap.singleton params.operator _) owner
    by_cases same : owner = params.operator
    · subst same
      rw [balanceOf_of_lookup Finmap.lookup_singleton_eq]
      rfl
    · rw [balanceOf, Finmap.lookup_eq_none.mpr (by simpa using same), Option.elim_none]
  · funext id
    rfl
  · funext key
    rfl
  · funext id
    rfl

theorem reachable_balanced (h : Reachable rt w) : journaling.Balanced Journal.empty w :=
  h.invariant created_balanced fun before hi hs => hi.next (step_records before hs)

end Steps

end HexVault
