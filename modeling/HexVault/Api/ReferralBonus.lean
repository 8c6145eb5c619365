import HexVault.Indexer.Persist
import Mathlib.Order.Defs.LinearOrder

/-!
The arithmetic of the daily referral bonus: what each referrer gets for an epoch, and how
a grant is divided among the referees it is for. Addresses are strings with an order of
their own; amounts are integers, divided towards zero.
-/

namespace HexVault

namespace Api

universe u

structure RateTier where
  tier : Nat
  min : Nat
  max : Option Nat
  rateBps : Int
  deriving DecidableEq, Repr

/-- Highest `min` first, so the first match is the tier. -/
def RATE_TIERS : List RateTier :=
  [⟨4, 11, none, 500⟩, ⟨3, 6, some 10, 400⟩, ⟨2, 3, some 5, 300⟩, ⟨1, 1, some 2, 200⟩]

def REFERRAL_BONUS_BASIS_CAP : Int := 2500000000

structure ReferrerBonusInput (ρ : Type u) where
  referrer : ρ
  principal : Int
  alreadyGrantedToday : Int
  qualifiedReferralPrincipals : List Int

structure ReferrerBonus (ρ : Type u) where
  referrer : ρ
  amount : Int
  uncapped : Int
  qualifiedCount : Nat
  rateBps : Int

def rateBpsFor (qualifiedCount : Nat) : Int :=
  ((RATE_TIERS.find? fun tier => tier.min ≤ qualifiedCount).map RateTier.rateBps).getD 0

def remainingGrantCap (principal alreadyGrantedToday : Int) : Int :=
  let headroom := principal - alreadyGrantedToday
  if 0 < headroom then headroom else 0

/-- What a referee's Principal counts for. -/
def basisOf (principal : Int) : Int :=
  if principal < REFERRAL_BONUS_BASIS_CAP then principal else REFERRAL_BONUS_BASIS_CAP

section Bonuses
variable {ρ : Type u}

def preScaleBonus (input : ReferrerBonusInput ρ) : ReferrerBonus ρ :=
  let qualifiedCount := input.qualifiedReferralPrincipals.length
  let rateBps := rateBpsFor qualifiedCount
  if rateBps = 0 then ⟨input.referrer, 0, 0, qualifiedCount, rateBps⟩
  else
    let cap := remainingGrantCap input.principal input.alreadyGrantedToday
    let basis := input.qualifiedReferralPrincipals.foldl
      (fun sum principal => sum + basisOf principal) 0
    let raw := (basis * rateBps).tdiv 10000
    let amount := if raw < cap then raw else cap
    ⟨input.referrer, amount, raw, qualifiedCount, rateBps⟩

/-- Every referrer's bonus, scaled down together where the pool's cap asks for it. -/
def computeBonuses (referrers : List (ReferrerBonusInput ρ))
    (totalPrincipal capBps alreadyGrantedThisEpoch : Int) : List (ReferrerBonus ρ) :=
  let preScaled := (referrers.map preScaleBonus).filter fun bonus => 0 < bonus.amount
  if preScaled = [] then []
  else
    let sum := preScaled.foldl (fun total bonus => total + bonus.amount) 0
    let poolCap := (totalPrincipal * capBps).tdiv 10000
    let headroom := poolCap - alreadyGrantedThisEpoch
    let cap := if 0 < headroom then headroom else 0
    if sum ≤ cap then preScaled
    else
      (preScaled.map fun bonus => { bonus with
        amount := (bonus.amount * cap).tdiv sum
        uncapped := (bonus.uncapped * cap).tdiv sum }).filter fun bonus => 0 < bonus.amount

end Bonuses

/-! Shares. -/

structure ShareWeight (ρ : Type u) where
  referee : ρ
  weight : Int

structure RefereeShare (ρ : Type u) where
  referee : ρ
  amount : Int

/-- A share rounded down, and what rounding left of it. -/
structure FlooredShare (ρ : Type u) where
  referee : ρ
  amount : Int
  remainder : Int

section Shares
variable {ρ : Type u} [LinearOrder ρ]

def floorShare (grantAmount totalWeight : Int) (w : ShareWeight ρ) : FlooredShare ρ :=
  let numerator := grantAmount * w.weight
  ⟨w.referee, numerator.tdiv totalWeight, numerator.tmod totalWeight⟩

/-- The largest remainder first, and then the smallest referee. -/
def byLargestRemainder (a b : FlooredShare ρ) : Bool :=
  if a.remainder ≠ b.remainder then b.remainder < a.remainder else a.referee ≤ b.referee

/-- One unit each, as long as some is left over. -/
def handOut : List (FlooredShare ρ) → Int → (ρ → Option Int) → ρ → Option Int
  | [], _, amounts => amounts
  | f :: rest, leftover, amounts =>
      if leftover ≤ 0 then amounts
      else handOut rest (leftover - 1)
        (Function.update amounts f.referee (some ((amounts f.referee).getD 0 + 1)))

def splitShares (grantAmount : Int) (weights : List (ShareWeight ρ)) :
    List (RefereeShare ρ) :=
  let totalWeight := weights.foldl (fun sum w => sum + w.weight) 0
  if grantAmount ≤ 0 ∨ totalWeight ≤ 0 then weights.map fun w => ⟨w.referee, 0⟩
  else
    let floors := weights.map (floorShare grantAmount totalWeight)
    let leftover := grantAmount - floors.foldl (fun sum f => sum + f.amount) 0
    let amounts := floors.foldl
      (fun (amounts : ρ → Option Int) f => Function.update amounts f.referee (some f.amount))
      fun _ => none
    let amounts := handOut (floors.mergeSort byLargestRemainder) leftover amounts
    weights.map fun w => ⟨w.referee, (amounts w.referee).getD 0⟩

end Shares

end Api

end HexVault
