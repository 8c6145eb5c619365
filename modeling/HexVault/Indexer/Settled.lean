import HexVault.Indexer.Referrals
import HexVault.Invariants.Journaled

/-!
What a Referral row's Principal is tracked from. Each event the program emits moves the Principal
of its wallet as the tracker supposes, so following one wallet's events from nothing ends at the
Principal of its account, for as long as the wallet has not left through an emergency withdrawal:
that instruction's event is not among those the tracker follows.
-/

namespace HexVault

namespace Indexer

open Fallible Journals

section Shifts
variable {principal next last : Int} {events later : List ReferralPrincipalEvent}

theorem ShiftsBy.single {event : ReferralPrincipalEvent} (h : Shifts principal event next) :
    ShiftsBy principal [event] next :=
  .cons h .nil

theorem ShiftsBy.append (h : ShiftsBy principal events next) (rest : ShiftsBy next later last) :
    ShiftsBy principal (events ++ later) last := by
  induction h with
  | nil => exact rest
  | cons first _ ih => exact .cons first (ih rest)

end Shifts

section Wallet
variable {owner : Pubkey} {pool : Pubkey} {event : Event} {books : Journal} {log : List Event}

/-- What the tracker follows of one wallet in the program's log. -/
def principalLog (pool owner : Pubkey) (log : List Event) : List ReferralPrincipalEvent :=
  walletEvents owner (log.map (decodeEvent pool))

theorem principalLog_append {more : List Event} : principalLog pool owner (log ++ more) =
    principalLog pool owner log ++ principalLog pool owner more := by
  rw [principalLog, walletEvents, changesOf, referralPrincipalEvents, List.map_append,
    List.filterMap_append, List.filterMap_append]
  rfl

/-- The owner an emergency withdrawal emptied. -/
def emptied : Event → Option Pubkey
  | .emergencyWithdrawn owner .. => some owner
  | _ => none

/-- An event the tracker follows, of the wallet it names. -/
theorem principalLog_change {change : ReferralPrincipalEvent} {named : Pubkey}
    (read : referralPrincipalEvent (decodeEvent pool event) = some (named, change)) :
    principalLog pool owner [event] = if named = owner then [change] else [] := by
  rw [principalLog, walletEvents, changesOf, referralPrincipalEvents, List.map_singleton,
    List.filterMap_cons_some read, List.filterMap_nil, List.filterMap_cons, List.filterMap_nil]
  by_cases own : named = owner
  · simp only [if_pos own]
  · simp only [if_neg own]

theorem principalLog_none (read : referralPrincipalEvent (decodeEvent pool event) = none) :
    principalLog pool owner [event] = [] := by
  rw [principalLog, walletEvents, changesOf, referralPrincipalEvents, List.map_singleton,
    List.filterMap_cons_none read, List.filterMap_nil, List.filterMap_nil]

/-- A followed event moves the balance it names as the tracker supposes. -/
theorem shiftsBy_write {change : ReferralPrincipalEvent} {named : Pubkey}
    {write : Balance → Balance} {after : Journal}
    (read : referralPrincipalEvent (decodeEvent pool event) = some (named, change))
    (written : after.balances = (books.write named write).balances)
    (shifts : Shifts (books.balances named).principal change
      (write (books.balances named)).principal) :
    ShiftsBy (books.balances owner).principal (principalLog pool owner [event])
      (after.balances owner).principal := by
  rw [principalLog_change read, written]
  by_cases own : named = owner
  · subst own
    have same : (books.write named write).balances named = write (books.balances named) :=
      Function.update_self ..
    rw [if_pos rfl, same]
    exact .single shifts
  · have same : (books.write named write).balances owner = books.balances owner :=
      Function.update_of_ne (Ne.symm own) ..
    rw [if_neg own, same]
    exact .nil

/-- An event the tracker does not follow, that leaves every Principal alone. -/
theorem shiftsBy_silent {after : Journal}
    (read : referralPrincipalEvent (decodeEvent pool event) = none)
    (kept : (after.balances owner).principal = (books.balances owner).principal) :
    ShiftsBy (books.balances owner).principal (principalLog pool owner [event])
      (after.balances owner).principal := by
  rw [principalLog_none read, kept]
  exact .nil

theorem write_principal {named : Pubkey} {write : Balance → Balance}
    (kept : ∀ b, (write b).principal = b.principal) :
    ((books.write named write).balances owner).principal = (books.balances owner).principal := by
  by_cases own : owner = named
  · subst own
    have same : (books.write owner write).balances owner = write (books.balances owner) :=
      Function.update_self ..
    rw [same, kept]
  · have same : (books.write named write).balances owner = books.balances owner :=
      Function.update_of_ne own ..
    rw [same]

/-- Every valid event but an emergency withdrawal of the wallet moves its Principal as the tracker
supposes. -/
theorem shiftsBy_record (valid : books.Valid event) (stays : emptied event ≠ some owner) :
    ShiftsBy (books.balances owner).principal (principalLog pool owner [event])
      ((books.record event).balances owner).principal := by
  cases event with
  | deposited named amount principal entries =>
      obtain ⟨rfl, -⟩ := valid
      refine shiftsBy_write rfl rfl ?_
      simp only [Balance.credit, Nat.cast_add]
      exact .deposited
  | withdrawRequested named amount pending pendingEpoch =>
      obtain ⟨there, -, -⟩ := valid
      refine shiftsBy_write rfl rfl ?_
      simp only [Balance.request, Nat.cast_sub there]
      exact .withdrawRequested (Int.ofNat_le.mpr there)
  | yieldCredited epochId named amount shortfall =>
      refine shiftsBy_write rfl rfl ?_
      simp only [Balance.creditYield, Balance.credit, Nat.cast_add]
      exact .yieldCredited
  | jackpotPaid epochId winner amount isHouse compounded =>
      cases compounded with
      | true =>
          refine shiftsBy_write rfl rfl ?_
          simp only [Balance.credit, Nat.cast_add]
          exact .jackpotPaid
      | false => exact shiftsBy_silent rfl rfl
  | emergencyWithdrawn named principal pending total =>
      have other : owner ≠ named := fun same => stays (congrArg some same.symm)
      refine shiftsBy_silent rfl (congrArg Balance.principal ?_)
      exact Function.update_of_ne other ..
  | withdrawn named amount principal entries =>
      exact shiftsBy_silent rfl (write_principal fun _ => rfl)
  | ticketsBought named epochId usdc tickets =>
      exact shiftsBy_silent rfl (write_principal fun _ => rfl)
  | ticketsGranted named epochId amount byAdmin =>
      cases byAdmin with
      | true => exact shiftsBy_silent rfl (write_principal fun _ => rfl)
      | false => exact shiftsBy_silent rfl (write_principal fun _ => rfl)
  | positionBought roundId named tiles stakePerTile total =>
      exact shiftsBy_silent rfl (write_principal fun _ => rfl)
  | roundSettled roundId winningTile pot forfeited houseCut =>
      exact shiftsBy_silent rfl (write_principal fun _ => rfl)
  | positionSettled roundId named reward =>
      exact shiftsBy_silent rfl (write_principal fun _ => rfl)
  | registered epochId named weight regStart regEnd =>
      exact shiftsBy_silent rfl (write_principal fun _ => rfl)
  | featurePaused feature paused now =>
      cases feature with
      | game => exact shiftsBy_silent rfl rfl
      | jackpot => exact shiftsBy_silent rfl rfl
  | _ => exact shiftsBy_silent rfl rfl

/-- Following a sound log ends at the Principal in the books. -/
theorem sound_shiftsBy (sound : journaling.Sound Journal.empty log)
    (stays : ∀ event ∈ log, emptied event ≠ some owner) :
    ShiftsBy 0 (principalLog pool owner log)
      ((journaling.replay Journal.empty log).balances owner).principal := by
  refine sound.invariant (P := fun log books => (∀ event ∈ log, emptied event ≠ some owner) →
    ShiftsBy 0 (principalLog pool owner log) (books.balances owner).principal) ?_ ?_ stays
  · exact fun _ => .nil
  · intro log books event before valid stays
    rw [principalLog_append]
    refine (before fun x mem => stays x (List.mem_append_left _ mem)).append ?_
    exact shiftsBy_record valid (stays event (List.mem_append_right _ (List.mem_singleton.mpr rfl)))

end Wallet

/-- In every run, a wallet that has not left through an emergency withdrawal has the Principal its
events add up to, each of them moving it as the tracker supposes. -/
theorem principal_tracked {rt : Runtime} {w : World} (h : Reachable rt w) {owner : Pubkey}
    (stays : ∀ event ∈ w.log, emptied event ≠ some owner) :
    ShiftsBy 0 (principalLog w.key owner w.log) (w.held owner) ∧
      (principalLog w.key owner w.log).foldl nextPrincipal 0 = w.held owner := by
  have balanced := reachable_balanced h
  have held : ((journaling.replay Journal.empty w.log).balances owner).principal =
      w.held owner := by
    refine (congrArg (fun books => (books.balances owner).principal) balanced.books).trans ?_
    change (balanceOf w.pool.currentEpochId w.players owner).principal = _
    cases hp : w.players.lookup owner with
    | none => rw [balanceOf, hp, Option.elim_none, held_of_none hp, Balance.empty]
    | some p => rw [balanceOf_of_lookup hp, held_of_lookup hp, Player.balance]
  have shifts : ShiftsBy 0 (principalLog w.key owner w.log)
      ((journaling.replay Journal.empty w.log).balances owner).principal :=
    sound_shiftsBy balanced.sound stays
  rw [held] at shifts
  exact ⟨shifts, shifts.foldl_eq⟩

/-- A deposit, a request and a compounded jackpot of the same wallet. -/
theorem principal_tracked_winner : ∃ w, Reachable Demo.runtime w ∧ w.held ⟨3⟩ = 590 ∧
    ShiftsBy 0 (principalLog w.key ⟨3⟩ w.log) (w.held ⟨3⟩) ∧
      (principalLog w.key ⟨3⟩ w.log).foldl nextPrincipal 0 = w.held ⟨3⟩ := by
  let player := Demo.signer 3
  obtain ⟨⟨history, w⟩, hrun, hcheck⟩ := exists_of_any
    (x := Demo.script [.setFeaturePause Demo.admin .jackpot false,
      .deposit player (HexVault.Demo.wallet player) 100, .requestWithdraw player 10,
      .beginEpoch Demo.operator, .wait 1100, .beginEpoch Demo.operator, .register 1 ⟨3⟩,
      .fundJackpot player (HexVault.Demo.wallet player) 500,
      .closeRegistration Demo.operator 1 ⟨9⟩ (List.replicate 32 0),
      .draw 1 ⟨⟨9⟩, List.replicate 8 0 ++ [1] ++ List.replicate 128 0⟩, .payout 1 ⟨3⟩])
    (p := fun r => decide (r.2.held ⟨3⟩ = 590) &&
      r.2.log.all fun event => (emptied event).isNone) (by decide +kernel)
  simp only [Bool.and_eq_true, decide_eq_true_eq, List.all_eq_true,
    Option.isNone_iff_eq_none] at hcheck
  have reachable := (Demo.script_run hrun).reachable
  refine ⟨w, reachable, hcheck.1, principal_tracked reachable fun event mem left => ?_⟩
  rw [hcheck.2 event mem] at left
  cases left

end Indexer

end HexVault
