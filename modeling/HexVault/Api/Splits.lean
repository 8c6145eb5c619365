import HexVault.Api.Bonuses
import HexVault.Lib.Ranking
import HexVault.Lib.Remainders

/-!
What `splitShares` makes of a grant: every referee its proportional share rounded down, and one
unit more for those that rounding took most from, so that nothing is left over.
-/

namespace HexVault

namespace Api

open Ranking Remainders

universe u
variable {ρ : Type u}

def totalOf (weights : List (ShareWeight ρ)) : Int := (weights.map ShareWeight.weight).sum

/-- Weights a grant can be divided by: each referee once, and none of them negative. -/
structure Divisible (weights : List (ShareWeight ρ)) : Prop where
  distinct : (weights.map ShareWeight.referee).Nodup
  nonneg : ∀ w ∈ weights, 0 ≤ w.weight

theorem Divisible.perm {weights weights' : List (ShareWeight ρ)} (divisible : Divisible weights)
    (perm : weights'.Perm weights) : Divisible weights' :=
  ⟨((perm.map _).nodup_iff).mpr divisible.distinct,
    fun w mem => divisible.nonneg w (perm.mem_iff.mp mem)⟩

theorem totalOf_perm {weights weights' : List (ShareWeight ρ)} (perm : weights'.Perm weights) :
    totalOf weights' = totalOf weights := (perm.map _).sum_eq

def floorsOf (grant : Int) (weights : List (ShareWeight ρ)) : List (FlooredShare ρ) :=
  weights.map (floorShare grant (totalOf weights))

/-- The units that rounding leaves over. -/
def leftoverOf (grant : Int) (weights : List (ShareWeight ρ)) : Int :=
  grant - ((floorsOf grant weights).map FlooredShare.amount).sum

theorem floorShare_eq {grant total : Int} {w : ShareWeight ρ} (grant_ : 0 ≤ grant)
    (nonneg : 0 ≤ w.weight) : floorShare grant total w =
      ⟨w.referee, grant * w.weight / total, grant * w.weight % total⟩ := by
  have numerator := Int.mul_nonneg grant_ nonneg
  rw [floorShare, Int.tdiv_eq_ediv_of_nonneg numerator, Int.tmod_eq_emod_of_nonneg numerator]

theorem floorsOf_referees {grant : Int} {weights : List (ShareWeight ρ)} :
    (floorsOf grant weights).map FlooredShare.referee = weights.map ShareWeight.referee := by
  rw [floorsOf, List.map_map]
  rfl

section Floors
variable [LinearOrder ρ] {grant total : Int} {weights : List (ShareWeight ρ)}

/-- The referees that get one of them. -/
def favoured (grant : Int) (weights : List (ShareWeight ρ)) : List ρ :=
  (((floorsOf grant weights).mergeSort byLargestRemainder).take
    (leftoverOf grant weights).toNat).map FlooredShare.referee

/-- A floored share in the table of amounts. -/
def writeFloor (amounts : ρ → Option Int) (f : FlooredShare ρ) : ρ → Option Int :=
  Function.update amounts f.referee (some f.amount)

theorem byLargestRemainder_eq :
    byLargestRemainder (ρ := ρ) = ranks FlooredShare.remainder FlooredShare.referee := rfl

theorem sorted_floors (floors : List (FlooredShare ρ)) :
    (floors.mergeSort byLargestRemainder).Pairwise fun a b => byLargestRemainder a b = true := by
  rw [byLargestRemainder_eq]
  exact Ranking.sorted floors

/-! The table of amounts, as the loops leave it. -/

theorem update_absent {floors : List (FlooredShare ρ)} {amounts : ρ → Option Int} {referee : ρ}
    (absent : referee ∉ floors.map FlooredShare.referee) :
    floors.foldl writeFloor amounts referee = amounts referee := by
  induction floors generalizing amounts with
  | nil => rfl
  | cons f rest ih =>
      rw [List.map_cons, List.mem_cons, not_or] at absent
      rw [List.foldl_cons, ih absent.2, writeFloor, Function.update_of_ne absent.1]

theorem update_each {floors : List (FlooredShare ρ)} {amounts : ρ → Option Int}
    (distinct : (floors.map FlooredShare.referee).Nodup) {f : FlooredShare ρ} (mem : f ∈ floors) :
    floors.foldl writeFloor amounts f.referee = some f.amount := by
  induction floors generalizing amounts with
  | nil => exact absurd mem List.not_mem_nil
  | cons g rest ih =>
      rw [List.map_cons, List.nodup_cons] at distinct
      rw [List.foldl_cons]
      rcases List.mem_cons.mp mem with rfl | later
      · rw [update_absent distinct.1, writeFloor, Function.update_self]
      · exact ih distinct.2 later

/-- A unit each for the first of the list. -/
theorem handOut_eq {floors : List (FlooredShare ρ)} {amounts : ρ → Option Int}
    (distinct : (floors.map FlooredShare.referee).Nodup) (left : Int) (referee : ρ) :
    (handOut floors left amounts referee).getD 0 = (amounts referee).getD 0 +
      if referee ∈ (floors.take left.toNat).map FlooredShare.referee then 1 else 0 := by
  induction floors generalizing left amounts with
  | nil =>
      rw [handOut, List.take_nil, List.map_nil, if_neg List.not_mem_nil, Int.add_zero]
  | cons f rest ih =>
      rw [List.map_cons, List.nodup_cons] at distinct
      rw [handOut]
      by_cases none : left ≤ 0
      · rw [if_pos none, Int.toNat_of_nonpos none, List.take_zero, List.map_nil,
          if_neg List.not_mem_nil, Int.add_zero]
      · have more : left.toNat = (left - 1).toNat + 1 := by omega
        rw [if_neg none, ih distinct.2, more, List.take_succ_cons, List.map_cons]
        by_cases mine : referee = f.referee
        · subst mine
          have once : f.referee ∉ (rest.take (left - 1).toNat).map FlooredShare.referee := by
            intro again
            exact distinct.1 (((List.take_sublist _ _).map _).subset again)
          rw [if_neg once, if_pos (List.mem_cons_self ..), Function.update_self,
            Option.getD_some, Int.add_zero]
        · rw [Function.update_of_ne mine]
          simp only [List.mem_cons, mine, false_or]

end Floors

section Split
variable [LinearOrder ρ] {grant : Int} {weights weights' : List (ShareWeight ρ)}

theorem floorsOf_distinct (divisible : Divisible weights) :
    (((floorsOf grant weights).mergeSort byLargestRemainder).map FlooredShare.referee).Nodup := by
  refine (((floorsOf grant weights).mergeSort_perm byLargestRemainder).map _).nodup_iff.mpr ?_
  rw [floorsOf_referees]
  exact divisible.distinct

/-- The shares, without the tables they go through. -/
theorem splitShares_eq (divisible : Divisible weights) (total : 0 < totalOf weights)
    (grant_ : 0 < grant) : splitShares grant weights = weights.map fun w =>
      ⟨w.referee, grant * w.weight / totalOf weights +
        if w.referee ∈ favoured grant weights then 1 else 0⟩ := by
  have sum : weights.foldl (fun sum w => sum + w.weight) 0 = totalOf weights := foldl_add_sum _ _
  simp only [splitShares, sum]
  rw [if_neg (by omega)]
  refine List.map_congr_left fun w mem => ?_
  have leftover : grant - (weights.map (floorShare grant (totalOf weights))).foldl
      (fun sum f => sum + f.amount) 0 = leftoverOf grant weights := by
    rw [foldl_add_sum]
    rfl
  have floor : floorShare grant (totalOf weights) w ∈ floorsOf grant weights :=
    List.mem_map_of_mem mem
  have referees : ((floorsOf grant weights).map FlooredShare.referee).Nodup := by
    rw [floorsOf_referees]
    exact divisible.distinct
  rw [leftover]
  change RefereeShare.mk w.referee ((handOut ((floorsOf grant weights).mergeSort byLargestRemainder)
    (leftoverOf grant weights)
      ((floorsOf grant weights).foldl writeFloor fun _ => none) w.referee).getD 0) = _
  rw [handOut_eq (floorsOf_distinct divisible)]
  have first : (floorsOf grant weights).foldl writeFloor (fun _ => none)
      (floorShare grant (totalOf weights) w).referee = _ := update_each referees floor
  rw [floorShare_eq (Int.le_of_lt grant_) (divisible.nonneg w mem)] at first
  rw [first, Option.getD_some]
  rfl

theorem mem_floorsOf (divisible : Divisible weights) (grant_ : 0 < grant) {f : FlooredShare ρ}
    (listed : f ∈ (floorsOf grant weights).mergeSort byLargestRemainder) : ∃ w ∈ weights,
      f = ⟨w.referee, grant * w.weight / totalOf weights, grant * w.weight % totalOf weights⟩ := by
  obtain ⟨w, mem, rfl⟩ := List.mem_map.mp (List.mem_mergeSort.mp listed)
  exact ⟨w, mem, floorShare_eq (Int.le_of_lt grant_) (divisible.nonneg w mem)⟩

/-- The units left over are what the floors lost. -/
theorem sum_remainders (divisible : Divisible weights) (grant_ : 0 < grant) :
    (((floorsOf grant weights).mergeSort byLargestRemainder).map FlooredShare.remainder).sum =
      leftoverOf grant weights * totalOf weights := by
  have floors : floorsOf grant weights = weights.map fun w =>
      ⟨w.referee, grant * w.weight / totalOf weights, grant * w.weight % totalOf weights⟩ :=
    List.map_congr_left fun w mem =>
      floorShare_eq (Int.le_of_lt grant_) (divisible.nonneg w mem)
  have amounts : (floorsOf grant weights).map FlooredShare.amount =
      weights.map fun w => grant * w.weight / totalOf weights := by
    rw [floors, List.map_map]
    rfl
  have remainders : (floorsOf grant weights).map FlooredShare.remainder =
      weights.map fun w => grant * w.weight % totalOf weights := by
    rw [floors, List.map_map]
    rfl
  have whole := sum_emod grant (totalOf weights) ShareWeight.weight weights
  rw [((List.mergeSort_perm _ _).map _).sum_eq, remainders, leftoverOf, amounts, Int.sub_mul]
  rw [← totalOf, Int.mul_comm (totalOf weights)] at whole
  omega

theorem remainder_bounds (divisible : Divisible weights) (total : 0 < totalOf weights)
    (grant_ : 0 < grant) {f : FlooredShare ρ}
    (mem : f ∈ (floorsOf grant weights).mergeSort byLargestRemainder) :
    0 ≤ f.remainder ∧ f.remainder < totalOf weights := by
  obtain ⟨w, -, rfl⟩ := mem_floorsOf divisible grant_ mem
  exact ⟨Int.emod_nonneg _ (Int.ne_of_gt total), Int.emod_lt_of_pos _ total⟩

theorem leftoverOf_bounds (divisible : Divisible weights) (total : 0 < totalOf weights)
    (grant_ : 0 < grant) :
    0 ≤ leftoverOf grant weights ∧ leftoverOf grant weights ≤ (floorsOf grant weights).length := by
  have sum := sum_remainders divisible grant_
  constructor
  · have nonneg : 0 ≤ leftoverOf grant weights * totalOf weights := by
      rw [← sum]
      refine List.sum_nonneg fun x listed => ?_
      obtain ⟨f, mem, rfl⟩ := List.mem_map.mp listed
      exact (remainder_bounds divisible total grant_ mem).1
    exact nonneg_of_mul_nonneg_left nonneg total
  · have length : ((floorsOf grant weights).mergeSort byLargestRemainder).length = _ :=
      List.length_mergeSort _
    rw [← length]
    exact le_length total (fun f mem => (remainder_bounds divisible total grant_ mem).2) sum

/-- Who gets a unit more has lost something to rounding. -/
theorem lost_of_favoured (divisible : Divisible weights) (total : 0 < totalOf weights)
    (grant_ : 0 < grant) {w : ShareWeight ρ} (mem : w ∈ weights)
    (favour : w.referee ∈ favoured grant weights) : 0 < grant * w.weight % totalOf weights := by
  obtain ⟨f, taken, same⟩ := List.mem_map.mp favour
  have order : ((floorsOf grant weights).mergeSort byLargestRemainder).Pairwise
      fun a b => b.remainder ≤ a.remainder := (sorted_floors _).imp ranks_number
  have lost := lost_pos_of_mem_take total
    (fun f mem => remainder_bounds divisible total grant_ mem) order
    (sum_remainders divisible grant_) taken
  obtain ⟨other, mem', rfl⟩ := mem_floorsOf divisible grant_ (List.mem_of_mem_take taken)
  obtain rfl := List.inj_on_of_nodup_map divisible.distinct mem' mem same
  exact lost

/-- The shares add up to the grant. -/
theorem sum_splitShares (divisible : Divisible weights) (total : 0 < totalOf weights)
    (grant_ : 0 < grant) :
    ((splitShares grant weights).map RefereeShare.amount).sum = grant := by
  obtain ⟨some_, few⟩ := leftoverOf_bounds divisible total grant_
  have shares : (splitShares grant weights).map RefereeShare.amount =
      (floorsOf grant weights).map fun f =>
        f.amount + if f.referee ∈ favoured grant weights then 1 else 0 := by
    rw [splitShares_eq divisible total grant_, floorsOf, List.map_map, List.map_map]
    refine List.map_congr_left fun w mem => ?_
    simp only [Function.comp_apply, floorShare_eq (Int.le_of_lt grant_) (divisible.nonneg w mem)]
  have sorted := (floorsOf grant weights).mergeSort_perm byLargestRemainder
  have enough : (leftoverOf grant weights).toNat ≤
      ((floorsOf grant weights).mergeSort byLargestRemainder).length := by
    rw [List.length_mergeSort]
    omega
  have units : (((floorsOf grant weights).mergeSort byLargestRemainder).map fun f =>
      f.amount + if f.referee ∈ favoured grant weights then 1 else 0).sum = _ :=
    sum_take FlooredShare.referee FlooredShare.amount (floorsOf_distinct divisible) enough
  rw [(sorted.map _).sum_eq, (sorted.map _).sum_eq] at units
  rw [shares, units, Int.toNat_of_nonneg some_, leftoverOf]
  omega

/-- A grant of nothing is shared out as nothing. -/
theorem splitShares_of_nonpos (none : grant ≤ 0) :
    splitShares grant weights = weights.map fun w => ⟨w.referee, 0⟩ := by
  simp only [splitShares]
  rw [if_pos (.inl none)]

/-- Everybody gets a share, in the order of the list. -/
theorem splitShares_referees :
    (splitShares grant weights).map RefereeShare.referee = weights.map ShareWeight.referee := by
  simp only [splitShares]
  split
  · rw [List.map_map]
    rfl
  · rw [List.map_map]
    rfl

theorem splitShares_nonneg (divisible : Divisible weights) (total : 0 < totalOf weights)
    {share : RefereeShare ρ} (mem : share ∈ splitShares grant weights) : 0 ≤ share.amount := by
  by_cases none : grant ≤ 0
  · rw [splitShares_of_nonpos none] at mem
    obtain ⟨w, -, rfl⟩ := List.mem_map.mp mem
    exact Int.le_refl 0
  · rw [splitShares_eq divisible total (by omega)] at mem
    obtain ⟨w, listed, rfl⟩ := List.mem_map.mp mem
    have floor : 0 ≤ grant * w.weight / totalOf weights :=
      Int.ediv_nonneg (Int.mul_nonneg (by omega) (divisible.nonneg w listed)) (Int.le_of_lt total)
    dsimp only
    split <;> omega

/-- A referee's share: its part of the grant rounded down, or that and one unit more, and nothing
for a weight of zero. -/
structure FairShare (grant total : Int) (w : ShareWeight ρ) (share : RefereeShare ρ) : Prop where
  referee : share.referee = w.referee
  rounded : share.amount = grant * w.weight / total ∨ share.amount = grant * w.weight / total + 1
  zero : w.weight = 0 → share.amount = 0

theorem splitShares_fair (divisible : Divisible weights) (total : 0 < totalOf weights)
    (grant_ : 0 < grant) :
    List.Forall₂ (FairShare grant (totalOf weights)) weights (splitShares grant weights) := by
  rw [splitShares_eq divisible total grant_, List.forall₂_map_right_iff, List.forall₂_same]
  intro w mem
  constructor
  case referee => rfl
  case rounded =>
    dsimp only
    split
    · exact .inr rfl
    · exact .inl (Int.add_zero _)
  case zero =>
    intro none
    dsimp only
    -- Rounding takes nothing from a weight of zero.
    have unfavoured : w.referee ∉ favoured grant weights := by
      intro favour
      have lost := lost_of_favoured divisible total grant_ mem favour
      rw [none, Int.mul_zero, Int.zero_emod] at lost
      exact absurd lost (Int.lt_irrefl 0)
    rw [if_neg unfavoured, none, Int.mul_zero, Int.zero_ediv, Int.add_zero]

theorem favoured_perm (divisible : Divisible weights) (perm : weights'.Perm weights) :
    favoured grant weights' = favoured grant weights := by
  have floors : (floorsOf grant weights').Perm (floorsOf grant weights) := by
    rw [floorsOf, floorsOf, totalOf_perm perm]
    exact perm.map _
  have leftover : leftoverOf grant weights' = leftoverOf grant weights := by
    rw [leftoverOf, leftoverOf, (floors.map _).sum_eq]
  have sorted : ((floorsOf grant weights').mergeSort byLargestRemainder).Perm
      ((floorsOf grant weights).mergeSort byLargestRemainder) :=
    (List.mergeSort_perm _ _).trans (floors.trans (List.mergeSort_perm _ _).symm)
  have same : (floorsOf grant weights').mergeSort byLargestRemainder =
      (floorsOf grant weights).mergeSort byLargestRemainder := by
    refine sorted.eq_of_pairwise ?_ (sorted_floors _) (sorted_floors _)
    intro a b ha hb hab hba
    have referee : a.referee = b.referee := ranks_antisymm hab hba
    exact List.inj_on_of_nodup_map (floorsOf_distinct divisible) (sorted.mem_iff.mp ha) hb referee
  rw [favoured, favoured, same, leftover]

/-- In whatever order the referees are listed, each gets the same. -/
theorem splitShares_perm (divisible : Divisible weights) (perm : weights'.Perm weights)
    (total : 0 < totalOf weights) (grant_ : 0 < grant) :
    (splitShares grant weights').Perm (splitShares grant weights) := by
  have total' : 0 < totalOf weights' := by
    rw [totalOf_perm perm]
    exact total
  rw [splitShares_eq (divisible.perm perm) total' grant_, splitShares_eq divisible total grant_,
    totalOf_perm perm, favoured_perm divisible perm]
  exact perm.map _

end Split

end Api

end HexVault
