import HexVault.Indexer.Grants
import HexVault.Lib.Holding

/-!
The two fields a Referral row keeps of its wallet's history: the Principal, and since when it has
been at or above the qualifying amount.
-/

namespace HexVault

namespace Indexer

open Holding

/-- The state after a wallet's events, from the one a row starts with. -/
def qualificationAfter (events : List (ReferralPrincipalEvent × Int)) :
    ReferralQualificationState :=
  events.foldl (fun state event => applyReferralEvent state event.1 event.2) ⟨0, none⟩

/-- After these events the tracked Principal is at or above the qualifying amount. -/
def Qualifying (events : List (ReferralPrincipalEvent × Int)) : Prop :=
  REFERRAL_QUALIFY_PRINCIPAL ≤
    events.foldl (fun previous event => nextPrincipal previous event.1) 0

variable {events : List (ReferralPrincipalEvent × Int)} {state : ReferralQualificationState}
  {event : ReferralPrincipalEvent} {blockTime : Int}

theorem not_qualifying_nil : ¬ Qualifying [] := by
  rw [Qualifying, List.foldl_nil]
  decide

@[simp] theorem applyReferralEvent_principal :
    (applyReferralEvent state event blockTime).principal = nextPrincipal state.principal event := by
  simp only [applyReferralEvent]
  split
  · rfl
  · split
    · rfl
    · rfl

/-- A step of the clock: cleared below the amount, set where it is reached, else left alone. -/
theorem applyReferralEvent_aboveSince : (applyReferralEvent state event blockTime).aboveSince =
    if nextPrincipal state.principal event < REFERRAL_QUALIFY_PRINCIPAL then none
    else state.aboveSince.or (some blockTime) := by
  simp only [applyReferralEvent]
  by_cases below : nextPrincipal state.principal event < REFERRAL_QUALIFY_PRINCIPAL
  · rw [if_pos below, decide_eq_false (by omega)]
    cases state.aboveSince <;> rfl
  · rw [if_neg below, decide_eq_true (by omega)]
    cases state.aboveSince <;> rfl

theorem qualificationAfter_principal : (qualificationAfter events).principal =
    events.foldl (fun previous event => nextPrincipal previous event.1) 0 := by
  rw [qualificationAfter]
  induction events using List.reverseRecOn with
  | nil => rfl
  | append_singleton events event ih =>
      simp only [List.foldl_append, List.foldl_cons, List.foldl_nil, applyReferralEvent_principal,
        ih]

theorem qualificationAfter_append_singleton (event : ReferralPrincipalEvent × Int) :
    qualificationAfter (events ++ [event]) =
      applyReferralEvent (qualificationAfter events) event.1 event.2 := by
  rw [qualificationAfter, List.foldl_append]
  rfl

theorem qualifying_append_singleton (event : ReferralPrincipalEvent × Int) :
    Qualifying (events ++ [event]) ↔ REFERRAL_QUALIFY_PRINCIPAL ≤
      nextPrincipal (qualificationAfter events).principal event.1 := by
  rw [Qualifying, List.foldl_append, qualificationAfter_principal]
  rfl

/-- The clock runs just while the Principal is at or above the amount. -/
theorem aboveSince_eq_none : (qualificationAfter events).aboveSince = none ↔ ¬ Qualifying events := by
  induction events using List.reverseRecOn with
  | nil => exact iff_of_true rfl not_qualifying_nil
  | append_singleton events event _ =>
      rw [qualifying_append_singleton, qualificationAfter_append_singleton,
        applyReferralEvent_aboveSince, not_le]
      split
      · next below => exact iff_of_true rfl below
      · next reached =>
          refine iff_of_false ?_ reached
          cases (qualificationAfter events).aboveSince <;> nofun

/-- It shows the time of the last crossing from below. -/
theorem aboveSince_eq_some {since : Int} : (qualificationAfter events).aboveSince = some since ↔
    Since Qualifying Prod.snd events since := by
  induction events using List.reverseRecOn with
  | nil => exact iff_of_false nofun since_nil
  | append_singleton events event ih =>
      rw [since_append_singleton, ← ih, qualifying_append_singleton, ← aboveSince_eq_none,
        qualificationAfter_append_singleton, applyReferralEvent_aboveSince]
      by_cases below : nextPrincipal (qualificationAfter events).principal event.1 <
          REFERRAL_QUALIFY_PRINCIPAL
      · rw [if_pos below]
        exact iff_of_false nofun fun h => absurd h.1 (by omega)
      · rw [if_neg below, and_iff_right (by omega)]
        cases (qualificationAfter events).aboveSince with
        | none => simp
        | some since => simp

theorem isQualified_iff {aboveSince : Option Int} {now qualifySeconds : Int} :
    isQualified aboveSince now qualifySeconds = true ↔
      ∃ since, since ≤ now - qualifySeconds ∧ aboveSince = some since := by
  cases aboveSince with
  | none => simp [isQualified]
  | some since =>
      simp only [isQualified, Option.any_some, decide_eq_true_eq, Option.some.injEq,
        exists_eq_right']
      omega

/-- A referee is qualified just where the Principal has been at or above the qualifying amount,
without interruption, since a time at least the qualifying seconds ago; the row shows the last
crossing from below, and nothing while below. -/
theorem isQualified_iff_throughout
    (chronological : events.Pairwise fun earlier later => earlier.2 ≤ later.2)
    (now qualifySeconds : Int) :
    (isQualified (qualificationAfter events).aboveSince now qualifySeconds = true ↔
      ∃ start, start ≤ now - qualifySeconds ∧ Throughout Qualifying Prod.snd events start) ∧
    (∀ since, (qualificationAfter events).aboveSince = some since ↔
      Since Qualifying Prod.snd events since) ∧
    ((qualificationAfter events).aboveSince = none ↔ ¬ Qualifying events) := by
  refine ⟨?_, fun since => aboveSince_eq_some, aboveSince_eq_none⟩
  rw [isQualified_iff, exists_throughout_iff not_qualifying_nil chronological]
  simp only [aboveSince_eq_some]

/-- A dip and a restore within the second it is reached in: the clock starts with the restore. -/
theorem isQualified_iff_throughout_dip :
    isQualified (qualificationAfter [(.deposited 50000000, 100), (.withdrawRequested 1, 100),
      (.yieldCredited 1, 100), (.jackpotPaid 5, 200)]).aboveSince 604900 604800 = true ∧
    ∃ start, start ≤ (604900 : Int) - 604800 ∧ Throughout Qualifying Prod.snd
      [(.deposited 50000000, 100), (.withdrawRequested 1, 100), (.yieldCredited 1, 100),
        (.jackpotPaid 5, 200)] start := by
  have qualified : isQualified (qualificationAfter [(.deposited 50000000, 100),
      (.withdrawRequested 1, 100), (.yieldCredited 1, 100),
        (.jackpotPaid 5, 200)]).aboveSince 604900 604800 = true := by decide
  exact ⟨qualified, (isQualified_iff_throughout (by decide) _ _).1.mp qualified⟩

end Indexer

end HexVault
