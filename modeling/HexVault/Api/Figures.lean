import HexVault.Indexer.Settled
import HexVault.Invariants.Ledger
import HexVault.Invariants.RoundLog
import Mathlib.Algebra.BigOperators.Ring.Finset

/-!
The figures the API serves beside the accounts: what the event table adds up to for a wallet, what
a Player may still buy today, and how much Principal is out of the pool. Each is what the program
itself did or would do.
-/

namespace HexVault

namespace Api

open Fallible Indexer Journals

/-- A counter left over from an earlier epoch reads as though it were already reset. -/
def ifCurrentEpoch (counterEpoch currentEpochId value : Nat) : Nat :=
  if counterEpoch = currentEpochId then value else 0

structure PlayerTicketExtras where
  boughtToday : Nat
  buyAllowanceLeft : Nat
  grantedToday : Nat
  deriving DecidableEq, Repr

def playerTicketExtras (player : Player) (currentEpochId : Nat) : PlayerTicketExtras :=
  let boughtToday := ifCurrentEpoch player.boughtEpoch currentEpochId player.boughtAmount
  { boughtToday
    buyAllowanceLeft := if boughtToday < player.principal then player.principal - boughtToday else 0
    grantedToday := ifCurrentEpoch player.bonusEpoch currentEpochId player.bonusGranted }

structure PrincipalOutInputs where
  totalPrincipal : Nat
  pendingWithdrawals : Nat
  yieldBudget : Nat
  vaultAmount : Nat
  deriving DecidableEq, Repr

def principalOut (inputs : PrincipalOutInputs) : Nat :=
  let owed := inputs.totalPrincipal + inputs.pendingWithdrawals + inputs.yieldBudget
  if inputs.vaultAmount < owed then owed - inputs.vaultAmount else 0

/-! The sums the API takes over the event table. -/

/-- A row as the indexer decoded it. -/
def rowEvent (row : EventRow) : DecodedEvent := ⟨row.name, row.data⟩

/-- The Active pool's rows. -/
def poolEvents (poolAddress : Pubkey) (rows : List EventRow) : List DecodedEvent :=
  (rows.filter fun row => row.poolAddress = poolAddress).map rowEvent

structure YieldStats where
  yieldToDate : Int
  yieldLastEpoch : Int
  deriving DecidableEq, Repr

/-- The epoch and the amount of a `YieldCredited` of one owner. -/
def creditOf (owner : Pubkey) (event : DecodedEvent) : Option (Int × Int) :=
  if event.name = "YieldCredited" ∧ eventKey event "owner" = some owner then do
    let epochId ← eventInteger event "epochId"
    let amount ← eventInteger event "amount"
    return (epochId, amount)
  else none

def playerYieldStats (poolAddress owner : Pubkey) (yieldEpoch : Nat) (rows : List EventRow) :
    YieldStats :=
  let credits := (poolEvents poolAddress rows).filterMap (creditOf owner)
  { yieldToDate := (credits.map Prod.snd).sum
    yieldLastEpoch :=
      ((credits.filter fun credit => credit.1 = (yieldEpoch : Int)).map Prod.snd).sum }

/-- The round of a `PositionBought` of one owner. -/
def roundBought (owner : Pubkey) (event : DecodedEvent) : Option Int :=
  if event.name = "PositionBought" ∧ eventKey event "owner" = some owner then
    eventInteger event "roundId"
  else none

/-- One owner's entry of the answer: the distinct rounds among its rows. -/
def positionCount (poolAddress owner : Pubkey) (rows : List EventRow) : Nat :=
  ((poolEvents poolAddress rows).filterMap (roundBought owner)).dedup.length

/-- The event table holds the pool's log, in any order. -/
def Stored (poolAddress : Pubkey) (rows : List EventRow) (log : List Event) : Prop :=
  (poolEvents poolAddress rows).Perm (log.map (decodeEvent poolAddress))

/-! What the log says of one wallet. -/

section Wallet
variable (owner : Pubkey)

/-- The epoch and the amount of each credit of Base yield. -/
def creditEntry : Event → Option (Nat × Nat)
  | .yieldCredited epochId named amount _ => if named = owner then some (epochId, amount) else none
  | _ => none

def credits (log : List Event) : List (Nat × Nat) := log.filterMap (creditEntry owner)

def depositedBy : Event → Nat
  | .deposited named amount _ _ => if named = owner then amount else 0
  | _ => 0

def requestedBy : Event → Nat
  | .withdrawRequested named amount _ _ => if named = owner then amount else 0
  | _ => 0

/-- A jackpot that compounded into the Principal. -/
def wonBy : Event → Nat
  | .jackpotPaid _ winner amount _ true => if winner = owner then amount else 0
  | _ => 0

def roundEntry : Event → Option Nat
  | .positionBought roundId named _ _ _ => if named = owner then some roundId else none
  | _ => none

/-- The rounds it staked on, one for each time. -/
def roundsBought (log : List Event) : List Nat := log.filterMap (roundEntry owner)

end Wallet

section Decode
variable {owner pool : Pubkey} {event : Event} {log : List Event} {rows : List EventRow}

theorem creditOf_decode : creditOf owner (decodeEvent pool event) =
    (creditEntry owner event).map fun credit => ((credit.1 : Int), (credit.2 : Int)) := by
  cases event with
  | yieldCredited epochId named amount shortfall =>
      by_cases own : named = owner
      · rw [creditEntry, if_pos own, own]
        exact if_pos ⟨rfl, rfl⟩
      · rw [creditEntry, if_neg own]
        exact if_neg fun same => own (Option.some.inj same.2)
  | _ => rfl

theorem roundBought_decode : roundBought owner (decodeEvent pool event) =
    (roundEntry owner event).map (Nat.cast : Nat → Int) := by
  cases event with
  | positionBought roundId named tiles stakePerTile total =>
      by_cases own : named = owner
      · rw [roundEntry, if_pos own, own]
        exact if_pos ⟨rfl, rfl⟩
      · rw [roundEntry, if_neg own]
        exact if_neg fun same => own (Option.some.inj same.2)
  | _ => rfl

theorem stored_credits (h : Stored pool rows log) :
    ((poolEvents pool rows).filterMap (creditOf owner)).Perm
      ((credits owner log).map fun credit => ((credit.1 : Int), (credit.2 : Int))) := by
  refine (h.filterMap _).trans (.of_eq ?_)
  rw [List.filterMap_map, credits, List.map_filterMap]
  exact List.filterMap_congr fun event _ => creditOf_decode

theorem stored_rounds (h : Stored pool rows log) :
    ((poolEvents pool rows).filterMap (roundBought owner)).Perm
      ((roundsBought owner log).map (Nat.cast : Nat → Int)) := by
  refine (h.filterMap _).trans (.of_eq ?_)
  rw [List.filterMap_map, roundsBought, List.map_filterMap]
  exact List.filterMap_congr fun event _ => roundBought_decode

end Decode

section Told
variable {owner : Pubkey} {log : List Event} {books : Journal} {event : Event}

/-- A wallet's credits are of later and later epochs, the last one the epoch its account names. -/
structure CreditsTold (owner : Pubkey) (log : List Event) (books : Journal) : Prop where
  ordered : (credits owner log).Pairwise fun earlier later => earlier.1 < later.1
  latest : (credits owner log).getLast?.elim 0 Prod.fst = (books.balances owner).yieldEpoch
  closed : (books.balances owner).yieldEpoch ≤ books.currentEpochId - 1

/-- What the log's amounts come to is the Principal in the books. -/
def PrincipalTold (owner : Pubkey) (log : List Event) (books : Journal) : Prop :=
  (log.map (depositedBy owner)).sum + ((credits owner log).map Prod.snd).sum +
      (log.map (wonBy owner)).sum =
    (books.balances owner).principal + (log.map (requestedBy owner)).sum

theorem credits_append : credits owner (log ++ [event]) =
    credits owner log ++ (creditEntry owner event).toList := by
  rw [credits, List.filterMap_append]
  cases h : creditEntry owner event with
  | none => rw [List.filterMap_cons_none h, List.filterMap_nil, Option.toList_none, credits]
  | some credit =>
      rw [List.filterMap_cons_some h, List.filterMap_nil, Option.toList_some, credits]

theorem write_at {named : Pubkey} {write : Balance → Balance} :
    (books.write named write).balances owner =
      if named = owner then write (books.balances named) else books.balances owner := by
  by_cases own : named = owner
  · subst own
    rw [if_pos rfl]
    exact Function.update_self ..
  · rw [if_neg own]
    exact Function.update_of_ne (Ne.symm own) ..

/-- An event that credits this wallet nothing. -/
theorem CreditsTold.quiet (hi : CreditsTold owner log books) (none : creditEntry owner event = none)
    (kept : ((books.record event).balances owner).yieldEpoch = (books.balances owner).yieldEpoch)
    (later : books.currentEpochId ≤ (books.record event).currentEpochId) :
    CreditsTold owner (log ++ [event]) (books.record event) := by
  have same : credits owner (log ++ [event]) = credits owner log := by
    rw [credits_append, none, Option.toList_none, List.append_nil]
  refine ⟨same ▸ hi.ordered, same ▸ kept ▸ hi.latest, ?_⟩
  have closed := hi.closed
  rw [kept]
  omega

theorem write_yieldEpoch {named : Pubkey} {write : Balance → Balance}
    (kept : ∀ b, (write b).yieldEpoch = b.yieldEpoch) :
    ((books.write named write).balances owner).yieldEpoch =
      (books.balances owner).yieldEpoch := by
  rw [write_at]
  split
  · next own => rw [kept, own]
  · rfl

theorem CreditsTold.credit {epochId amount shortfall : Nat} (hi : CreditsTold owner log books)
    (valid : books.Valid (.yieldCredited epochId owner amount shortfall)) :
    CreditsTold owner (log ++ [.yieldCredited epochId owner amount shortfall])
      (books.record (.yieldCredited epochId owner amount shortfall)) := by
  obtain ⟨closing, fresh, -, -⟩ := valid
  have last : (credits owner (log ++ [.yieldCredited epochId owner amount shortfall])) =
      credits owner log ++ [(epochId, amount)] := by
    rw [credits_append, creditEntry, if_pos rfl, Option.toList_some]
  have now : ((books.record (.yieldCredited epochId owner amount shortfall)).balances
      owner).yieldEpoch = epochId := by
    change ((books.write owner (.creditYield epochId amount)).balances owner).yieldEpoch = epochId
    rw [write_at, if_pos rfl, Balance.creditYield]
  have closed := hi.closed
  refine ⟨?_, ?_, ?_⟩
  · rw [last, List.pairwise_append]
    refine ⟨hi.ordered, List.pairwise_singleton .., ?_⟩
    intro earlier mem single here
    rw [List.mem_singleton.mp here]
    -- No credit is later than the last one, and that one is for an epoch before this.
    have latest := hi.latest
    have most : earlier.1 ≤ (books.balances owner).yieldEpoch := by
      obtain ⟨front, final, split⟩ := List.eq_nil_or_concat (credits owner log) |>.resolve_left
        (List.ne_nil_of_mem mem)
      have ordered := hi.ordered
      rw [List.concat_eq_append] at split
      rw [split, List.getLast?_concat, Option.elim_some] at latest
      rw [split] at mem ordered
      rcases List.mem_append.mp mem with front | final
      · exact latest ▸ Nat.le_of_lt
          ((List.pairwise_append.mp ordered).2.2 _ front _ (List.mem_singleton.mpr rfl))
      · rw [List.mem_singleton.mp final, latest]
    change earlier.1 < epochId
    omega
  · rw [last, List.getLast?_concat, Option.elim_some, now]
  · rw [now]
    change epochId ≤ books.currentEpochId - 1
    omega

theorem creditsTold_next (hi : CreditsTold owner log books) (valid : books.Valid event) :
    CreditsTold owner (log ++ [event]) (books.record event) := by
  cases event with
  | yieldCredited epochId named amount shortfall =>
      by_cases own : named = owner
      · subst own
        exact hi.credit valid
      · refine hi.quiet (if_neg own) ?_ (Nat.le_refl _)
        exact congrArg Balance.yieldEpoch (Function.update_of_ne (Ne.symm own) ..)
  | epochBegan epochId startsAt endsAt =>
      obtain ⟨rfl, -⟩ := valid
      exact hi.quiet rfl rfl (Nat.le_succ _)
  | deposited named amount principal entries =>
      exact hi.quiet rfl (write_yieldEpoch fun _ => rfl) (Nat.le_refl _)
  | withdrawRequested named amount pending pendingEpoch =>
      exact hi.quiet rfl (write_yieldEpoch fun _ => rfl) (Nat.le_refl _)
  | withdrawn named amount principal entries =>
      exact hi.quiet rfl (write_yieldEpoch fun _ => rfl) (Nat.le_refl _)
  | emergencyWithdrawn named principal pending total =>
      exact hi.quiet rfl (write_yieldEpoch fun _ => rfl) (Nat.le_refl _)
  | ticketsBought named epochId usdc tickets =>
      exact hi.quiet rfl (write_yieldEpoch fun _ => rfl) (Nat.le_refl _)
  | ticketsGranted named epochId amount byAdmin =>
      cases byAdmin with
      | true => exact hi.quiet rfl (write_yieldEpoch fun _ => rfl) (Nat.le_refl _)
      | false => exact hi.quiet rfl (write_yieldEpoch fun _ => rfl) (Nat.le_refl _)
  | positionBought roundId named tiles stakePerTile total =>
      exact hi.quiet rfl (write_yieldEpoch fun _ => rfl) (Nat.le_refl _)
  | roundSettled roundId winningTile pot forfeited houseCut =>
      exact hi.quiet rfl (write_yieldEpoch fun _ => rfl) (Nat.le_refl _)
  | positionSettled roundId named reward =>
      exact hi.quiet rfl (write_yieldEpoch fun _ => rfl) (Nat.le_refl _)
  | registered epochId named weight regStart regEnd =>
      exact hi.quiet rfl (write_yieldEpoch fun _ => rfl) (Nat.le_refl _)
  | jackpotPaid epochId winner amount isHouse compounded =>
      cases compounded with
      | true => exact hi.quiet rfl (write_yieldEpoch fun _ => rfl) (Nat.le_refl _)
      | false => exact hi.quiet rfl rfl (Nat.le_refl _)
  | featurePaused feature paused now =>
      cases feature with
      | game => exact hi.quiet rfl rfl (Nat.le_refl _)
      | jackpot => exact hi.quiet rfl rfl (Nat.le_refl _)
  | _ => exact hi.quiet rfl rfl (Nat.le_refl _)

/-- What one event adds to the Principal of a wallet that does not leave by it. -/
theorem principal_record (valid : books.Valid event) (stays : emptied event ≠ some owner) :
    (books.balances owner).principal + depositedBy owner event +
        ((creditEntry owner event).elim 0 Prod.snd) + wonBy owner event =
      ((books.record event).balances owner).principal + requestedBy owner event := by
  have silent : depositedBy owner event = 0 → creditEntry owner event = none →
      wonBy owner event = 0 → requestedBy owner event = 0 →
      ((books.record event).balances owner).principal = (books.balances owner).principal →
      (books.balances owner).principal + depositedBy owner event +
          ((creditEntry owner event).elim 0 Prod.snd) + wonBy owner event =
        ((books.record event).balances owner).principal + requestedBy owner event := by
    intro deposited credit won requested kept
    rw [deposited, credit, won, requested, kept, Option.elim_none]
  cases event with
  | deposited named amount principal entries =>
      change _ + (if named = owner then amount else 0) + 0 + 0 =
        ((books.write named (.credit amount)).balances owner).principal + 0
      rw [write_at]
      by_cases own : named = owner
      · rw [if_pos own, if_pos own, own, Balance.credit]
      · rw [if_neg own, if_neg own]
  | withdrawRequested named amount pending pendingEpoch =>
      obtain ⟨there, -, -⟩ := valid
      change _ + 0 + 0 + 0 = ((books.write named (.request amount pendingEpoch)).balances
        owner).principal + (if named = owner then amount else 0)
      rw [write_at]
      by_cases own : named = owner
      · rw [if_pos own, if_pos own, Balance.request, ← own]
        dsimp only
        omega
      · rw [if_neg own, if_neg own]
  | yieldCredited epochId named amount shortfall =>
      change _ + 0 + ((if named = owner then some (epochId, amount) else none).elim 0 Prod.snd) +
        0 = ((books.write named (.creditYield epochId amount)).balances owner).principal + 0
      rw [write_at]
      by_cases own : named = owner
      · rw [if_pos own, if_pos own, own, Option.elim_some, Balance.creditYield, Balance.credit]
        rfl
      · rw [if_neg own, if_neg own, Option.elim_none]
  | jackpotPaid epochId winner amount isHouse compounded =>
      cases compounded with
      | false => exact silent rfl rfl rfl rfl rfl
      | true =>
          change _ + 0 + 0 + (if winner = owner then amount else 0) =
            ((books.write winner (.credit amount)).balances owner).principal + 0
          rw [write_at]
          by_cases own : winner = owner
          · rw [if_pos own, if_pos own, own, Balance.credit]
            rfl
          · rw [if_neg own, if_neg own]
  | emergencyWithdrawn named principal pending total =>
      have other : owner ≠ named := fun same => stays (congrArg some same.symm)
      refine silent rfl rfl rfl rfl ?_
      change ((books.write named .exit).balances owner).principal = _
      rw [write_at, if_neg (Ne.symm other)]
  | withdrawn named amount principal entries =>
      exact silent rfl rfl rfl rfl (write_principal fun _ => rfl)
  | ticketsBought named epochId usdc tickets =>
      exact silent rfl rfl rfl rfl (write_principal fun _ => rfl)
  | ticketsGranted named epochId amount byAdmin =>
      cases byAdmin with
      | true => exact silent rfl rfl rfl rfl (write_principal fun _ => rfl)
      | false => exact silent rfl rfl rfl rfl (write_principal fun _ => rfl)
  | positionBought roundId named tiles stakePerTile total =>
      exact silent rfl rfl rfl rfl (write_principal fun _ => rfl)
  | roundSettled roundId winningTile pot forfeited houseCut =>
      exact silent rfl rfl rfl rfl (write_principal fun _ => rfl)
  | positionSettled roundId named reward =>
      exact silent rfl rfl rfl rfl (write_principal fun _ => rfl)
  | registered epochId named weight regStart regEnd =>
      exact silent rfl rfl rfl rfl (write_principal fun _ => rfl)
  | featurePaused feature paused now =>
      cases feature with
      | game => exact silent rfl rfl rfl rfl rfl
      | jackpot => exact silent rfl rfl rfl rfl rfl
  | _ => exact silent rfl rfl rfl rfl rfl

theorem principalTold_next (hi : PrincipalTold owner log books) (valid : books.Valid event)
    (stays : emptied event ≠ some owner) :
    PrincipalTold owner (log ++ [event]) (books.record event) := by
  have moved := principal_record valid stays
  have credit : ((credits owner (log ++ [event])).map Prod.snd).sum =
      ((credits owner log).map Prod.snd).sum + (creditEntry owner event).elim 0 Prod.snd := by
    rw [credits_append, List.map_append, List.sum_append]
    cases creditEntry owner event <;> rfl
  simp only [PrincipalTold, List.map_append, List.sum_append, List.map_cons, List.map_nil,
    List.sum_cons, List.sum_nil, Nat.add_zero, credit] at hi ⊢
  omega

end Told

section Runs
variable {rt : Runtime} {w : World} {owner : Pubkey} {p : Player} {rows : List EventRow}

theorem reachable_credits (h : Reachable rt w) : CreditsTold owner w.log w.journal := by
  have balanced := reachable_balanced h
  have told := balanced.sound.invariant (P := CreditsTold owner)
    ⟨List.Pairwise.nil, rfl, Nat.le_refl 0⟩ fun hi valid => creditsTold_next hi valid
  rw [balanced.books] at told
  exact told

theorem reachable_principal (h : Reachable rt w)
    (stays : ∀ event ∈ w.log, emptied event ≠ some owner) :
    PrincipalTold owner w.log w.journal := by
  have balanced := reachable_balanced h
  have opening : (∀ event ∈ [], emptied event ≠ some owner) →
      PrincipalTold owner [] Journal.empty := fun _ => rfl
  have told := balanced.sound.invariant
    (P := fun log books => (∀ event ∈ log, emptied event ≠ some owner) →
      PrincipalTold owner log books) opening fun hi valid stays =>
        principalTold_next (hi fun x mem => stays x (List.mem_append_left _ mem)) valid
          (stays _ (List.mem_append_right _ (List.mem_singleton.mpr rfl)))
  rw [balanced.books] at told
  exact told stays

/-- Of a list of later and later epochs, the entries of the last one are the last entry. -/
theorem sum_latest {entries : List (Nat × Nat)}
    (ordered : entries.Pairwise fun earlier later => earlier.1 < later.1) :
    ((entries.filter fun entry => entry.1 = entries.getLast?.elim 0 Prod.fst).map Prod.snd).sum =
      entries.getLast?.elim 0 Prod.snd := by
  cases entries using List.reverseRecOn with
  | nil => rfl
  | append_singleton front last =>
      rw [List.getLast?_concat, Option.elim_some, Option.elim_some, List.filter_append]
      have none : front.filter (fun entry => entry.1 = last.1) = [] := by
        refine List.filter_eq_nil_iff.mpr fun entry mem same => ?_
        have before := (List.pairwise_append.mp ordered).2.2 entry mem last
          (List.mem_singleton.mpr rfl)
        exact Nat.ne_of_lt before (of_decide_eq_true same)
      simp [none]

/-- What `/players/:owner` says of Base yield. `yieldLastEpoch` is the one credit of the epoch the
account names, and `yieldToDate`, with the deposits and the jackpots won and less what was asked
back, is the Principal. -/
theorem yieldStats_account (h : Reachable rt w) (hp : w.players.lookup owner = some p)
    (stored : Stored w.key rows w.log) :
    (playerYieldStats w.key owner p.yieldEpoch rows).yieldLastEpoch =
        ((credits owner w.log).getLast?.elim 0 Prod.snd : Nat) ∧
      ((credits owner w.log).map Prod.fst).Nodup ∧
      ((∀ event ∈ w.log, emptied event ≠ some owner) →
        (playerYieldStats w.key owner p.yieldEpoch rows).yieldToDate =
          p.principal + (w.log.map (requestedBy owner)).sum -
            (w.log.map (depositedBy owner)).sum - (w.log.map (wonBy owner)).sum) := by
  have told : CreditsTold owner w.log w.journal := reachable_credits h
  have named : w.journal.balances owner = p.balance w.pool.currentEpochId := journal_player hp
  have perm := @stored_credits owner _ _ _ stored
  refine ⟨?_, ?_, fun stays => ?_⟩
  · have latest : p.yieldEpoch = (credits owner w.log).getLast?.elim 0 Prod.fst := by
      rw [told.latest, named, Player.balance]
    have sums := sum_latest told.ordered
    rw [← latest] at sums
    rw [← sums, playerYieldStats]
    refine ((perm.filter _).map Prod.snd).sum_eq.trans ?_
    rw [List.filter_map, List.map_map, Nat.cast_list_sum, List.map_map]
    refine congrArg List.sum (congrArg (List.map _) (List.filter_congr fun entry _ => ?_))
    exact decide_eq_decide.mpr Nat.cast_inj
  · exact List.pairwise_map.mpr (told.ordered.imp fun lt => Nat.ne_of_lt lt)
  · have identity := reachable_principal h stays
    rw [PrincipalTold, named] at identity
    change _ = p.principal + _ at identity
    have sum : (playerYieldStats w.key owner p.yieldEpoch rows).yieldToDate =
        (((credits owner w.log).map Prod.snd).sum : Nat) := by
      rw [playerYieldStats]
      refine (perm.map Prod.snd).sum_eq.trans ?_
      rw [List.map_map, Nat.cast_list_sum, List.map_map]
      rfl
    rw [sum]
    omega

/-- A round's tale names the rounds an owner staked on as often as it staked. -/
theorem roundsBought_tale (tale : RoundTale) (id : Nat) : roundsBought owner (tale.events id) =
    (tale.stakes.filter fun stake => stake.owner = owner).map fun _ => id := by
  have finish : roundsBought owner (tale.finish.elim [] (RoundFinish.events id)) = [] := by
    refine List.filterMap_eq_nil_iff.mpr fun event mem => ?_
    cases ended : tale.finish with
    | none =>
        rw [ended] at mem
        exact absurd mem List.not_mem_nil
    | some finish =>
        rw [ended, Option.elim_some, RoundFinish.events] at mem
        rcases List.mem_cons.mp mem with rfl | mem
        · cases finish.how <;> rfl
        · rcases List.mem_append.mp mem with mem | mem
          · obtain ⟨paid, -, rfl⟩ := List.mem_map.mp mem
            rfl
          · split at mem
            · obtain rfl := List.mem_singleton.mp mem
              rfl
            · exact absurd mem List.not_mem_nil
  have stakes : roundsBought owner (tale.stakes.map (RoundStake.event id)) =
      (tale.stakes.filter fun stake => stake.owner = owner).map fun _ => id := by
    rw [roundsBought, List.filterMap_map, ← List.filterMap_eq_map, List.filterMap_filter]
    refine List.filterMap_congr fun stake _ => ?_
    change (if stake.owner = owner then some id else none) = if decide _ = true then _ else _
    simp only [decide_eq_true_eq]
    rfl
  rw [RoundTale.events, roundsBought, List.filterMap_cons_none rfl, List.filterMap_append]
  change roundsBought owner _ ++ roundsBought owner _ = _
  rw [stakes, finish, List.append_nil]

/-- Of the rounds bought, those with one id are in that round's events. -/
theorem count_roundsBought (log : List Event) (id : Nat) :
    (roundsBought owner log).count id =
      (roundsBought owner (log.filter (Event.ofRound id))).count id := by
  induction log with
  | nil => rfl
  | cons event rest ih =>
      cases entry : roundEntry owner event with
      | none =>
          rw [roundsBought, List.filterMap_cons_none entry, List.filter_cons]
          split
          · rw [roundsBought, List.filterMap_cons_none entry]
            exact ih
          · exact ih
      | some other =>
          have of : event.ofRound id = (other == id) := by
            cases event with
            | positionBought roundId named tiles stakePerTile total =>
                rw [roundEntry] at entry
                split at entry
                · rw [← Option.some.inj entry]
                  rfl
                · cases entry
            | _ => cases entry
          rw [roundsBought, List.filterMap_cons_some entry, List.filter_cons, of, List.count_cons]
          split
          · next same =>
              rw [roundsBought, List.filterMap_cons_some entry, List.count_cons, if_pos same]
              exact congrArg (· + 1) ih
          · rw [Nat.add_zero]
            exact ih

/-- No owner stakes twice on a round. -/
theorem roundsBought_nodup (h : Reachable rt w) : (roundsBought owner w.log).Nodup := by
  refine List.nodup_iff_count_le_one.mpr fun id => ?_
  have told := (reachable_balanced h).sound.invariant roundsTold_empty fun hi valid => hi.next valid
  rw [count_roundsBought]
  by_cases opened : 1 ≤ id ∧
      id < (journaling.replay Journal.empty (journaling.log w)).nextRoundId
  · obtain ⟨tale, fair, -, tells⟩ := told.told opened.1 opened.2
    have events : w.log.filter (Event.ofRound id) = tale.events id := tells.events
    rw [events, roundsBought_tale, List.map_const', List.count_replicate_self]
    have distinct := fair.distinct
    calc (tale.stakes.filter fun stake => stake.owner = owner).length
        = (tale.stakes.map RoundStake.owner).count owner := by
          rw [List.count, List.countP_map, List.countP_eq_length_filter]
          exact congrArg List.length (List.filter_congr fun _ _ => rfl)
      _ ≤ 1 := List.nodup_iff_count_le_one.mp distinct owner
  · have none : w.log.filter (Event.ofRound id) = [] := told.untold (by omega)
    rw [none]
    exact Nat.zero_le 1

/-- A wallet's rounds played are its purchases, each of another round: the distinct rounds the
answer counts are all of them. -/
theorem positionCount_purchases (h : Reachable rt w) (stored : Stored w.key rows w.log) :
    positionCount w.key owner rows = (roundsBought owner w.log).length := by
  have perm := @stored_rounds owner _ _ _ stored
  have distinct : ((roundsBought owner w.log).map (Nat.cast : Nat → Int)).Nodup :=
    (roundsBought_nodup h).map fun _ _ same => Int.ofNat.inj same
  rw [positionCount, (perm.nodup_iff.mpr distinct).dedup, perm.length_eq, List.length_map]

/-- What is reported as out of the pool is what the admin deployed and nobody has sent back. -/
theorem principalOut_deployed {history : History} (run : Run rt history w) :
    principalOut ⟨w.pool.totalPrincipal, w.pool.pendingWithdrawals, w.pool.yieldBudget,
        w.principalVault⟩ = deployed history - returned history := by
  have ledger := (run_ledger run).vault
  simp only [principalOut]
  split <;> omega

theorem boughtAmountAfter_error {boughtEpoch boughtAmount current principal amount : Nat}
    (h : boughtAmountAfter boughtEpoch boughtAmount current principal amount =
      .error (.vault .dailyBuyCapExceeded)) :
    principal < ifCurrentEpoch boughtEpoch current boughtAmount + amount := by
  simp only [boughtAmountAfter, countedAfter, bind_eq_error, addU64, checkedAdd_eq_error,
    checkedAdd_eq_ok, ensure_eq_error, pure_eq_error, and_false, exists_false, or_false] at h
  rcases h with ⟨-, bad⟩ | ⟨total, ⟨-, rfl⟩, spent, -⟩
  · cases bad
  · exact Nat.lt_of_not_le spent

theorem boughtAmountAfter_within {boughtEpoch boughtAmount current principal amount total : Nat}
    (h : boughtAmountAfter boughtEpoch boughtAmount current principal amount = .ok total) :
    ifCurrentEpoch boughtEpoch current boughtAmount + amount ≤ principal := by
  simp only [boughtAmountAfter, countedAfter, bind_eq_ok, addU64_eq_ok, ensure_eq_ok,
    pure_eq_ok, exists_const] at h
  obtain ⟨_, ⟨-, rfl⟩, within, -⟩ := h
  exact within

theorem buyAllowanceLeft_eq {current : Nat} : (playerTicketExtras p current).buyAllowanceLeft =
    p.principal - ifCurrentEpoch p.boughtEpoch current p.boughtAmount := by
  simp only [playerTicketExtras]
  split <;> omega

theorem buyTickets_capped {signer : Signer} {token : TokenAccount} {amount : Nat}
    (hp : w.players.lookup signer.key = some p)
    (h : buyTickets signer token amount w = .error (.vault .dailyBuyCapExceeded)) :
    0 < amount ∧
      p.principal < ifCurrentEpoch p.boughtEpoch w.pool.currentEpochId p.boughtAmount + amount := by
  simp only [buyTickets, checkSource, constraint, bind_eq_error, bind_eq_ok, require_eq_error,
    require_eq_ok, ensure_eq_error, ensure_eq_ok, World.player_eq_error, World.player_eq_ok,
    exists_const] at h
  rcases h with (⟨-, bad⟩ | ⟨-, -, bad⟩) | ⟨-, ⟨-, bad⟩ | ⟨account, ha, h⟩⟩
  · cases bad
  · cases bad
  · cases bad
  obtain rfl := Option.some.inj (hp.symm.trans ha)
  rcases h with ht | ⟨q, ht, ⟨-, bad⟩ | ⟨-, ⟨-, bad⟩ | ⟨-, ⟨-, bad⟩ | ⟨-, ⟨-, bad⟩ | ⟨-, ⟨-, bad⟩ |
    ⟨positive, ⟨-, bad⟩ | ⟨-, h⟩⟩⟩⟩⟩⟩⟩
  · cases touch_eq_error ht
  · cases bad
  · cases bad
  · cases bad
  · cases bad
  · cases bad
  · cases bad
  have same := touch_sameHoldings ht
  rcases h with capped | ⟨_, -, full | ⟨_, -, wide | ⟨_, -, wide | ⟨_, -, bad⟩⟩⟩⟩
  · have spent := boughtAmountAfter_error capped
    rw [same.boughtEpoch, same.boughtAmount, same.principal] at spent
    exact ⟨positive, spent⟩
  · simp only [transferIn, bind_eq_error, require_eq_error, checkedAdd_eq_error] at full
    rcases full with ⟨-, bad⟩ | ⟨_, -, -, bad⟩
    · cases bad
    · cases bad
  · simp only [mulU64, checkedMul_eq_error] at wide
    cases wide.2
  · simp only [addU64, checkedAdd_eq_error] at wide
    cases wide.2
  · cases bad

/-- The allowance `/players/:owner` serves is exactly what the program lets the owner spend. A
purchase that succeeds was within it and uses up as much of it, and one refused for the daily cap
was above it. -/
theorem buyAllowance_exact {signer : Signer} {token : TokenAccount} {amount : Nat}
    (hp : w.players.lookup signer.key = some p) :
    (∀ w', buyTickets signer token amount w = .ok w' → ∃ q,
      w'.players.lookup signer.key = some q ∧
        (playerTicketExtras q w'.pool.currentEpochId).buyAllowanceLeft + amount =
          (playerTicketExtras p w.pool.currentEpochId).buyAllowanceLeft) ∧
      (buyTickets signer token amount w = .error (.vault .dailyBuyCapExceeded) →
        (playerTicketExtras p w.pool.currentEpochId).buyAllowanceLeft < amount) := by
  refine ⟨fun w' bought => ?_, fun capped => ?_⟩
  · simp only [buyTickets, bind_eq_ok, World.player_eq_ok, ensure_eq_ok, transferIn_eq_ok,
      mulU64_eq_ok, addU64_eq_ok, pure_eq_ok, exists_const] at bought
    obtain ⟨_, -, account, ha, q, ht, -, -, -, -, -, -, total, hb, _, ⟨-, -, rfl⟩, _,
      ⟨-, rfl⟩, _, ⟨-, rfl⟩, rfl⟩ := bought
    obtain rfl := Option.some.inj (hp.symm.trans ha)
    have same := touch_sameHoldings ht
    have within := boughtAmountAfter_within hb
    obtain ⟨counted, -⟩ := countedAfter_add hb
    rw [same.boughtEpoch, same.boughtAmount, same.principal] at within
    refine ⟨_, Finmap.lookup_insert _, ?_⟩
    rw [buyAllowanceLeft_eq, buyAllowanceLeft_eq]
    have now : ifCurrentEpoch w.pool.currentEpochId w.pool.currentEpochId total =
        ifCurrentEpoch p.boughtEpoch w.pool.currentEpochId p.boughtAmount + amount := by
      rw [ifCurrentEpoch, if_pos rfl, counted, same.boughtEpoch, same.boughtAmount]
      rfl
    change q.principal - ifCurrentEpoch w.pool.currentEpochId w.pool.currentEpochId total +
      amount = _
    rw [now, same.principal]
    omega
  · obtain ⟨positive, spent⟩ := buyTickets_capped hp capped
    rw [buyAllowanceLeft_eq]
    omega

end Runs

/-- A table with one row for each event, newest first. -/
def tableOf (poolAddress : Pubkey) (log : List Event) : List EventRow :=
  (log.reverse.map (decodeEvent poolAddress)).map fun event =>
    { slot := 0, signature := "", index := 0, poolAddress
      name := event.name, data := event.data, blockTime := none }

theorem tableOf_stored (poolAddress : Pubkey) (log : List Event) :
    Stored poolAddress (tableOf poolAddress log) log := by
  have all : (tableOf poolAddress log).filter (fun row => row.poolAddress = poolAddress) =
      tableOf poolAddress log := by
    refine List.filter_eq_self.mpr fun row mem => ?_
    obtain ⟨event, -, rfl⟩ := List.mem_map.mp mem
    exact decide_eq_true rfl
  have events : (tableOf poolAddress log).map rowEvent =
      log.reverse.map (decodeEvent poolAddress) := by
    rw [tableOf, List.map_map]
    exact List.map_id' _
  rw [Stored, poolEvents, all, events]
  exact (List.reverse_perm log).map _

/-- A wallet with a deposit and a credit of Base yield. -/
theorem yieldStats_account_credited : ∃ (w : World) (p : Player), credits ⟨3⟩ w.log = [(1, 1)] ∧
    (playerYieldStats w.key ⟨3⟩ p.yieldEpoch (tableOf w.key w.log)).yieldLastEpoch =
        ((credits ⟨3⟩ w.log).getLast?.elim 0 Prod.snd : Nat) ∧
      ((credits ⟨3⟩ w.log).map Prod.fst).Nodup ∧
      (playerYieldStats w.key ⟨3⟩ p.yieldEpoch (tableOf w.key w.log)).yieldToDate =
        p.principal + (w.log.map (requestedBy ⟨3⟩)).sum -
          (w.log.map (depositedBy ⟨3⟩)).sum - (w.log.map (wonBy ⟨3⟩)).sum := by
  let player := HexVault.Demo.signer 3
  obtain ⟨⟨history, w⟩, hrun, hcheck⟩ := exists_of_any
    (x := HexVault.Demo.script [.setFeaturePause HexVault.Demo.admin .jackpot false,
      .setParams HexVault.Demo.admin { HexVault.Demo.setEpochSeconds 1000 with
        baseRateBps := some 10000 },
      .fundYield player (HexVault.Demo.wallet player) 7,
      .beginEpoch HexVault.Demo.operator, .deposit player (HexVault.Demo.wallet player) 50000,
      .wait 2000, .beginEpoch HexVault.Demo.operator, .register 1 ⟨3⟩])
    (p := fun r => (r.2.players.lookup ⟨3⟩).any fun _ => credits ⟨3⟩ r.2.log = [(1, 1)] &&
      r.2.log.all fun event => emptied event ≠ some ⟨3⟩)
    (by decide +kernel)
  simp only [Option.any_eq_true, Bool.and_eq_true, List.all_eq_true, decide_eq_true_eq] at hcheck
  obtain ⟨p, hp, logged, stays⟩ := hcheck
  have reachable := (HexVault.Demo.script_run hrun).reachable
  obtain ⟨latest, once, total⟩ := yieldStats_account reachable hp (tableOf_stored w.key w.log)
  exact ⟨w, p, logged, latest, once, total stays⟩

/-- Two rounds, one Position on each. -/
theorem positionCount_purchases_two : ∃ w, Reachable HexVault.Demo.runtime w ∧
    roundsBought ⟨3⟩ w.log = [1, 2] ∧
      positionCount w.key ⟨3⟩ (tableOf w.key w.log) = (roundsBought ⟨3⟩ w.log).length := by
  let player := HexVault.Demo.signer 3
  obtain ⟨⟨history, w⟩, hrun, hcheck⟩ := exists_of_any
    (x := HexVault.Demo.script [.setFeaturePause HexVault.Demo.admin .game false,
      .deposit player (HexVault.Demo.wallet player) 100,
      .createRound HexVault.Demo.operator 1000 1010, .buyPosition player 1 3 5,
      .wait 1008, .requestRoundRandomness 1 ⟨9⟩ (List.replicate 32 0),
      .settleRound 1 ⟨⟨9⟩, List.replicate 8 0 ++ [1] ++ List.replicate 128 0⟩,
      .createRound HexVault.Demo.operator 1010 1020, .buyPosition player 2 1 4])
    (p := fun r => decide (roundsBought ⟨3⟩ r.2.log = [1, 2])) (by decide +kernel)
  have reachable := (HexVault.Demo.script_run hrun).reachable
  exact ⟨w, reachable, of_decide_eq_true hcheck,
    positionCount_purchases reachable (tableOf_stored _ _)⟩

/-- A wallet that spent 60 of its 100: 30 more are bought, 50 more are refused. -/
theorem buyAllowance_exact_spent : ∃ (w w' : World) (p q : Player),
    (playerTicketExtras p w.pool.currentEpochId).buyAllowanceLeft < 50 ∧
      w'.players.lookup ⟨3⟩ = some q ∧
      (playerTicketExtras q w'.pool.currentEpochId).buyAllowanceLeft + 30 =
        (playerTicketExtras p w.pool.currentEpochId).buyAllowanceLeft := by
  let player := HexVault.Demo.signer 3
  let buy (amount : Nat) (w : World) := buyTickets player (HexVault.Demo.wallet player) amount w
  let capped (w : World) : Bool := match buy 50 w with
    | .error refusal => decide (refusal = .vault .dailyBuyCapExceeded)
    | .ok _ => false
  obtain ⟨⟨history, w⟩, hrun, hcheck⟩ := exists_of_any
    (x := HexVault.Demo.script [.setFeaturePause HexVault.Demo.admin .jackpot false,
      .deposit player (HexVault.Demo.wallet player) 100, .beginEpoch HexVault.Demo.operator,
      .buyTickets player (HexVault.Demo.wallet player) 60])
    (p := fun r => (r.2.players.lookup ⟨3⟩).any fun _ =>
      capped r.2 && (buy 30 r.2).toOption.isSome) (by decide +kernel)
  simp only [Option.any_eq_true, Bool.and_eq_true, Option.isSome_iff_exists] at hcheck
  obtain ⟨p, hp, refused, w', bought⟩ := hcheck
  have stopped : buy 50 w = .error (.vault .dailyBuyCapExceeded) := by
    cases answer : buy 50 w with
    | ok w' => rw [show capped w = false by simp only [capped, answer]] at refused; cases refused
    | error refusal =>
        simp only [capped, answer, decide_eq_true_eq] at refused
        rw [refused]
  obtain ⟨q, hq, spent⟩ := (buyAllowance_exact hp).1 w' (ok_of_toOption bought)
  exact ⟨w, w', p, q, (buyAllowance_exact hp).2 stopped, hq, spent⟩

end Api

end HexVault
