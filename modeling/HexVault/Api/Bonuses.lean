import HexVault.Api.ReferralBonus
import HexVault.Program.Custody
import HexVault.Lib.Shares

/-!
What `computeBonuses` grants: each referrer at most its own headroom, all of them together at
most what the pool has left of its cap, and exactly the bonuses that are due where they fit.
-/

namespace HexVault

namespace Api

open Shares

universe u
variable {ρ : Type u}

/-- What a referrer's qualified referrals come to, whatever its own Principal. -/
def rawBonus (input : ReferrerBonusInput ρ) : Int :=
  (input.qualifiedReferralPrincipals.map basisOf).sum *
    rateBpsFor input.qualifiedReferralPrincipals.length / 10000

/-- A referrer's bonus, were there no other. -/
def dueBonus (input : ReferrerBonusInput ρ) : Int :=
  min (rawBonus input) (remainingGrantCap input.principal input.alreadyGrantedToday)

/-- What the pool may still grant in the epoch. -/
def bonusRoom (totalPrincipal capBps alreadyGrantedThisEpoch : Int) : Int :=
  max 0 (totalPrincipal * capBps / 10000 - alreadyGrantedThisEpoch)

/-- No referral counts for less than nothing. -/
def ReferrerBonusInput.NonNegative (input : ReferrerBonusInput ρ) : Prop :=
  ∀ principal ∈ input.qualifiedReferralPrincipals, 0 ≤ principal

instance (input : ReferrerBonusInput ρ) : Decidable input.NonNegative :=
  inferInstanceAs (Decidable (∀ principal ∈ input.qualifiedReferralPrincipals, 0 ≤ principal))

/-- A listed bonus and the referrer it is for. -/
structure Listed (input : ReferrerBonusInput ρ) (bonus : ReferrerBonus ρ) : Prop where
  referrer : bonus.referrer = input.referrer
  positive : 0 < bonus.amount
  headroom : bonus.amount ≤ remainingGrantCap input.principal input.alreadyGrantedToday
  uncapped : bonus.amount ≤ bonus.uncapped
  due : bonus.amount ≤ dueBonus input

theorem foldl_add_sum {α : Type u} (f : α → Int) (items : List α) :
    items.foldl (fun sum x => sum + f x) 0 = (items.map f).sum := by
  rw [List.sum_eq_foldl, List.foldl_map]

/-- What is not positive adds nothing. -/
theorem sum_filter_positive {α : Type u} (f : α → Int) {items : List α}
    (nonneg : ∀ x ∈ items, 0 ≤ f x) :
    ((items.filter fun x => 0 < f x).map f).sum = (items.map f).sum := by
  induction items with
  | nil => rfl
  | cons x rest ih =>
      have ih := ih fun other mem => nonneg other (List.mem_cons_of_mem _ mem)
      have first := nonneg x (List.mem_cons_self ..)
      rw [List.map_cons, List.sum_cons, ← ih, List.filter_cons]
      by_cases some : 0 < f x
      · rw [if_pos (decide_eq_true some), List.map_cons, List.sum_cons]
      · rw [if_neg fun h => some (of_decide_eq_true h)]
        omega

theorem rateBpsFor_nonneg (count : Nat) : 0 ≤ rateBpsFor count := by
  rw [rateBpsFor]
  cases found : RATE_TIERS.find? fun tier => tier.min ≤ count with
  | none => exact Int.le_refl 0
  | some tier =>
      have tiers : ∀ tier ∈ RATE_TIERS, 0 ≤ tier.rateBps := by decide
      exact tiers tier (List.mem_of_find?_eq_some found)

theorem basisOf_nonneg {principal : Int} (h : 0 ≤ principal) : 0 ≤ basisOf principal := by
  rw [basisOf]
  split
  · exact h
  · decide

section Input
variable {input : ReferrerBonusInput ρ}

theorem ReferrerBonusInput.NonNegative.basis (nonneg : input.NonNegative) :
    0 ≤ (input.qualifiedReferralPrincipals.map basisOf).sum := by
  refine List.sum_nonneg fun basis counted => ?_
  obtain ⟨principal, mem, rfl⟩ := List.mem_map.mp counted
  exact basisOf_nonneg (nonneg principal mem)

theorem rawBonus_nonneg (nonneg : input.NonNegative) : 0 ≤ rawBonus input :=
  Int.ediv_nonneg (Int.mul_nonneg nonneg.basis (rateBpsFor_nonneg _)) (by decide)

theorem remainingGrantCap_eq (principal alreadyGrantedToday : Int) :
    remainingGrantCap principal alreadyGrantedToday = max 0 (principal - alreadyGrantedToday) := by
  rw [remainingGrantCap]
  split <;> omega

theorem dueBonus_nonneg (nonneg : input.NonNegative) : 0 ≤ dueBonus input := by
  rw [dueBonus, remainingGrantCap_eq]
  exact le_min (rawBonus_nonneg nonneg) (Int.le_max_left _ _)

theorem preScaleBonus_eq (nonneg : input.NonNegative) : preScaleBonus input =
    { referrer := input.referrer
      amount := dueBonus input
      uncapped := rawBonus input
      qualifiedCount := input.qualifiedReferralPrincipals.length
      rateBps := rateBpsFor input.qualifiedReferralPrincipals.length } := by
  have none : rateBpsFor input.qualifiedReferralPrincipals.length = 0 → rawBonus input = 0 := by
    intro zero
    rw [rawBonus, zero, Int.mul_zero]
    rfl
  have cap : 0 ≤ remainingGrantCap input.principal input.alreadyGrantedToday := by
    rw [remainingGrantCap_eq]
    exact Int.le_max_left _ _
  simp only [preScaleBonus]
  by_cases zero : rateBpsFor input.qualifiedReferralPrincipals.length = 0
  · rw [if_pos zero, dueBonus, none zero, Int.min_eq_left cap]
  · have raw : (input.qualifiedReferralPrincipals.foldl
        (fun sum principal => sum + basisOf principal) 0 *
          rateBpsFor input.qualifiedReferralPrincipals.length).tdiv 10000 = rawBonus input := by
      rw [foldl_add_sum, Int.tdiv_eq_ediv_of_nonneg
        (Int.mul_nonneg nonneg.basis (rateBpsFor_nonneg _))]
      rfl
    rw [if_neg zero, raw, dueBonus]
    congr 1
    split <;> omega

end Input

/-- The pool's headroom as the source computes it. -/
theorem bonusRoom_eq {totalPrincipal capBps granted : Int} (nonneg : 0 ≤ granted) :
    (if 0 < (totalPrincipal * capBps).tdiv 10000 - granted then
      (totalPrincipal * capBps).tdiv 10000 - granted else 0) =
        bonusRoom totalPrincipal capBps granted := by
  rw [bonusRoom]
  by_cases negative : totalPrincipal * capBps < 0
  · have below : 0 ≤ (-(totalPrincipal * capBps)).tdiv 10000 :=
      Int.tdiv_nonneg (by omega) (by decide)
    rw [Int.neg_tdiv] at below
    rw [if_neg (by omega)]
    omega
  · rw [Int.tdiv_eq_ediv_of_nonneg (by omega)]
    split <;> omega

section Compute
variable {referrers : List (ReferrerBonusInput ρ)}

/-- A referrer's bonus as it is listed, of an amount. -/
def bonusOf (input : ReferrerBonusInput ρ) (amount uncapped : Int) : ReferrerBonus ρ where
  referrer := input.referrer
  amount
  uncapped
  qualifiedCount := input.qualifiedReferralPrincipals.length
  rateBps := rateBpsFor input.qualifiedReferralPrincipals.length

/-- The referrers that are due something. -/
def dueReferrers (referrers : List (ReferrerBonusInput ρ)) : List (ReferrerBonusInput ρ) :=
  referrers.filter fun input => 0 < dueBonus input

theorem preScaled_eq (nonneg : ∀ input ∈ referrers, input.NonNegative) :
    ((referrers.map preScaleBonus).filter fun bonus => 0 < bonus.amount) =
      (dueReferrers referrers).map fun input => bonusOf input (dueBonus input) (rawBonus input) := by
  have each : referrers.map preScaleBonus =
      referrers.map fun input => bonusOf input (dueBonus input) (rawBonus input) :=
    List.map_congr_left fun input mem => preScaleBonus_eq (nonneg input mem)
  rw [each, List.filter_map]
  rfl

/-- What is due to the others is nothing. -/
theorem sum_dueReferrers (nonneg : ∀ input ∈ referrers, input.NonNegative) :
    ((dueReferrers referrers).map dueBonus).sum = (referrers.map dueBonus).sum :=
  sum_filter_positive dueBonus fun input mem => dueBonus_nonneg (nonneg input mem)

/-- The list as it comes out: what is due where it fits into the room, its share of the room
where it does not. -/
theorem computeBonuses_eq {totalPrincipal capBps granted : Int}
    (nonneg : ∀ input ∈ referrers, input.NonNegative) (granted_ : 0 ≤ granted) :
    computeBonuses referrers totalPrincipal capBps granted =
      let room := bonusRoom totalPrincipal capBps granted
      let sum := (referrers.map dueBonus).sum
      if sum ≤ room then
        (dueReferrers referrers).map fun input => bonusOf input (dueBonus input) (rawBonus input)
      else
        ((dueReferrers referrers).map fun input =>
          bonusOf input ((dueBonus input * room).tdiv sum) ((rawBonus input * room).tdiv sum)).filter
            fun bonus => 0 < bonus.amount := by
  have sum : ((dueReferrers referrers).map fun input =>
      bonusOf input (dueBonus input) (rawBonus input)).foldl
        (fun total bonus => total + bonus.amount) 0 = (referrers.map dueBonus).sum := by
    rw [foldl_add_sum, List.map_map, ← sum_dueReferrers nonneg]
    rfl
  simp only [computeBonuses, preScaled_eq nonneg, sum, bonusRoom_eq granted_]
  by_cases none : dueReferrers referrers = []
  · simp only [none, List.map_nil, List.filter_nil, ite_self]
  · rw [if_neg fun empty => none (List.map_eq_nil_iff.mp empty)]
    split
    · rfl
    · rw [List.map_map]
      rfl

/-- Every listed bonus is a due one, or its share of the room. -/
theorem computeBonuses_listed {totalPrincipal capBps granted : Int}
    (nonneg : ∀ input ∈ referrers, input.NonNegative) (granted_ : 0 ≤ granted) :
    ∃ listed, listed.Sublist referrers ∧
      List.Forall₂ Listed listed (computeBonuses referrers totalPrincipal capBps granted) := by
  have room : 0 ≤ bonusRoom totalPrincipal capBps granted := Int.le_max_left _ _
  rw [computeBonuses_eq nonneg granted_]
  dsimp only
  split
  · refine ⟨dueReferrers referrers, List.filter_sublist, ?_⟩
    rw [List.forall₂_map_right_iff, List.forall₂_same]
    intro input mem
    exact {
      referrer := rfl
      positive := of_decide_eq_true (List.mem_filter.mp mem).2
      headroom := Int.min_le_right _ _
      uncapped := Int.min_le_left _ _
      due := Int.le_refl _ }
  · next exceeds =>
      generalize (referrers.map dueBonus).sum = sum at exceeds
      have sum_ : 0 < sum := by omega
      rw [List.filter_map]
      refine ⟨_, ?_, List.forall₂_map_right_iff.mpr (List.forall₂_same.mpr ?_)⟩
      · exact List.filter_sublist.trans List.filter_sublist
      intro input mem
      obtain ⟨due, some⟩ := List.mem_filter.mp mem
      have due := dueBonus_nonneg (nonneg input (List.mem_of_mem_filter due))
      have scaled : (dueBonus input * bonusRoom totalPrincipal capBps granted).tdiv sum ≤
          dueBonus input := tdiv_le_self due sum_ (by omega)
      exact {
        referrer := rfl
        positive := of_decide_eq_true some
        headroom := Int.le_trans scaled (Int.min_le_right _ _)
        uncapped := tdiv_le_tdiv room sum_ (Int.min_le_left _ _)
        due := scaled }

/-- Together the bonuses fit into the room. -/
theorem sum_computeBonuses {totalPrincipal capBps granted : Int}
    (nonneg : ∀ input ∈ referrers, input.NonNegative) (granted_ : 0 ≤ granted) :
    ((computeBonuses referrers totalPrincipal capBps granted).map ReferrerBonus.amount).sum ≤
      bonusRoom totalPrincipal capBps granted := by
  have room : 0 ≤ bonusRoom totalPrincipal capBps granted := Int.le_max_left _ _
  rw [computeBonuses_eq nonneg granted_]
  dsimp only
  split
  · next fits =>
      rw [List.map_map]
      exact Int.le_trans (Int.le_of_eq (sum_dueReferrers nonneg)) fits
  · next exceeds =>
      have due : ∀ input ∈ dueReferrers referrers, 0 ≤ dueBonus input := fun input mem =>
        dueBonus_nonneg (nonneg input (List.mem_of_mem_filter mem))
      have total := sum_dueReferrers nonneg
      generalize (referrers.map dueBonus).sum = sum at exceeds total
      have sum_ : 0 < sum := by omega
      rw [sum_filter_positive, List.map_map]
      · exact sum_tdiv_le room sum_ due (Int.le_of_eq total)
      · intro bonus listed
        obtain ⟨input, mem, rfl⟩ := List.mem_map.mp listed
        exact Int.tdiv_nonneg (Int.mul_nonneg (due input mem) room) (Int.le_of_lt sum_)

/-- The program's own cap has room for all of them, after what it has counted. -/
theorem computeBonuses_poolBonusCap {totalPrincipal capBps granted cap : Nat}
    (nonneg : ∀ input ∈ referrers, input.NonNegative)
    (h : poolBonusCap totalPrincipal capBps = .ok cap) (within : granted ≤ cap) :
    granted + ((computeBonuses referrers totalPrincipal capBps granted).map
      ReferrerBonus.amount).sum ≤ cap := by
  obtain ⟨scaled, hscaled, hcap⟩ := Fallible.bind_eq_ok.mp h
  obtain ⟨-, rfl⟩ := mulU128_eq_ok.mp hscaled
  obtain ⟨-, rfl⟩ := narrowU64_eq_ok.mp hcap
  have most := @sum_computeBonuses _ referrers totalPrincipal capBps granted nonneg
    (Int.natCast_nonneg granted)
  rw [bonusRoom] at most
  rw [BPS_DENOMINATOR] at within ⊢
  push_cast at *
  omega

end Compute

/-- The caps hold, and where the pool's does not bind nothing is left out or cut. -/
theorem computeBonuses_capped (referrers : List (ReferrerBonusInput ρ))
    (totalPrincipal capBps alreadyGrantedThisEpoch : Int)
    (nonneg : ∀ input ∈ referrers, input.NonNegative) (granted : 0 ≤ alreadyGrantedThisEpoch) :
    let bonuses := computeBonuses referrers totalPrincipal capBps alreadyGrantedThisEpoch
    let room := bonusRoom totalPrincipal capBps alreadyGrantedThisEpoch
    (bonuses.map ReferrerBonus.amount).sum ≤ room ∧
      (∃ listed, listed.Sublist referrers ∧ List.Forall₂ Listed listed bonuses) ∧
        ((referrers.map dueBonus).sum ≤ room →
          (bonuses.map fun bonus => (bonus.referrer, bonus.amount)) =
            (referrers.filter fun input => 0 < dueBonus input).map fun input =>
              (input.referrer, dueBonus input)) := by
  refine ⟨sum_computeBonuses nonneg granted, computeBonuses_listed nonneg granted, ?_⟩
  intro fits
  rw [computeBonuses_eq nonneg granted]
  dsimp only
  rw [if_pos fits, List.map_map]
  rfl

def BonusDemo.referrers : List (ReferrerBonusInput String) :=
  [⟨"A", 1000, 0, [60000000, 40000000]⟩, ⟨"B", 500, 500, [90000000]⟩, ⟨"C", 3000, 0, [50000000]⟩]

/-- Three referrers, one without headroom, and a cap that the other two exceed. -/
theorem computeBonuses_capped_scaled :
    ((computeBonuses BonusDemo.referrers 200000 100 500).map ReferrerBonus.amount).sum ≤ 1500 ∧
      ∃ listed, listed.Sublist BonusDemo.referrers ∧
        List.Forall₂ Listed listed (computeBonuses BonusDemo.referrers 200000 100 500) := by
  have nonneg : ∀ input ∈ BonusDemo.referrers, input.NonNegative := by decide
  obtain ⟨sum, listed, -⟩ :=
    computeBonuses_capped BonusDemo.referrers 200000 100 500 nonneg (by decide)
  exact ⟨sum, listed⟩

end Api

end HexVault
