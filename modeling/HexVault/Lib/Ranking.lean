import Mathlib.Data.List.Sort
import Mathlib.Order.Defs.LinearOrder

/-!
Ranking by a number, the greatest first, and by a key where numbers tie.
-/

namespace Ranking

universe u v
variable {α : Type u} {κ : Type v} [LinearOrder κ] {number : α → Int} {key : α → κ} {a b c : α}

def ranks (number : α → Int) (key : α → κ) (a b : α) : Bool :=
  if number a ≠ number b then number b < number a else key a ≤ key b

theorem ranks_iff : ranks number key a b = true ↔
    number b < number a ∨ number b = number a ∧ key a ≤ key b := by
  rw [ranks]
  by_cases same : number a = number b
  · simp [same]
  · rw [if_pos same, decide_eq_true_iff]
    exact ⟨.inl, fun h => h.elim id fun h => absurd h.1.symm same⟩

theorem ranks_trans (hab : ranks number key a b = true) (hbc : ranks number key b c = true) :
    ranks number key a c = true := by
  rw [ranks_iff] at *
  rcases hab with more | ⟨tied, first⟩
  · rcases hbc with more' | ⟨tied', -⟩
    · exact .inl (Int.lt_trans more' more)
    · exact .inl (tied'.symm ▸ more)
  · rcases hbc with more' | ⟨tied', first'⟩
    · exact .inl (tied ▸ more')
    · exact .inr ⟨tied'.trans tied, le_trans first first'⟩

theorem ranks_total : (ranks number key a b || ranks number key b a) = true := by
  rw [Bool.or_eq_true, ranks_iff, ranks_iff]
  rcases Int.lt_trichotomy (number a) (number b) with less | same | more
  · exact .inr (.inl less)
  · exact (le_total (key a) (key b)).imp (fun h => .inr ⟨same.symm, h⟩) fun h => .inr ⟨same, h⟩
  · exact .inl (.inl more)

theorem ranks_number (h : ranks number key a b = true) : number b ≤ number a :=
  (ranks_iff.mp h).elim Int.le_of_lt fun tied => Int.le_of_eq tied.1

/-- Neither comes first: they have one key. -/
theorem ranks_antisymm (hab : ranks number key a b = true) (hba : ranks number key b a = true) :
    key a = key b := by
  have same := Int.le_antisymm (ranks_number hba) (ranks_number hab)
  rcases ranks_iff.mp hab with more | ⟨-, first⟩
  · exact absurd same.symm (Int.ne_of_lt more)
  · rcases ranks_iff.mp hba with more | ⟨-, first'⟩
    · exact absurd same (Int.ne_of_lt more)
    · exact le_antisymm first first'

theorem sorted (items : List α) :
    (items.mergeSort (ranks number key)).Pairwise fun a b => ranks number key a b = true :=
  List.pairwise_mergeSort (fun _ _ _ => ranks_trans) (fun _ _ => ranks_total) items

end Ranking
