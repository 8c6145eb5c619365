import Mathlib.Tactic.Common
import Mathlib.Logic.Function.Basic

/-!
Intervals handed out along a line. Each holder has at most one half-open interval
`[a, b)`; a new one is always appended at the line's end. Handed out so, intervals
never overlap and cover the line; a holder that gives its interval up leaves a gap
and still no overlap.
-/

namespace Intervals

universe u
variable {κ : Type u} {holds holds' : κ → Option (Nat × Nat)} {width : Nat} {k : κ}

/-- The interval of `k` contains the point `t`. -/
def Contains (holds : κ → Option (Nat × Nat)) (k : κ) (t : Nat) : Prop :=
  ∃ a b, holds k = some (a, b) ∧ a ≤ t ∧ t < b

/-- Every interval is inside the line and no two overlap. -/
structure Apart (holds : κ → Option (Nat × Nat)) (width : Nat) : Prop where
  inside : ∀ {k a b}, holds k = some (a, b) → a < b ∧ b ≤ width
  disjoint : ∀ {k l a b c d}, k ≠ l → holds k = some (a, b) → holds l = some (c, d) →
    b ≤ c ∨ d ≤ a

/-- The intervals cover the line as well. -/
structure Tiled (holds : κ → Option (Nat × Nat)) (width : Nat) : Prop
    extends Apart holds width where
  covered : ∀ {t}, t < width → ∃ k, Contains holds k t

theorem Tiled.empty (h : ∀ k, holds k = none) : Tiled holds 0 where
  inside := fun hk => by rw [h] at hk; exact nomatch hk
  disjoint := fun _ hk => by rw [h] at hk; exact nomatch hk
  covered := fun ht => absurd ht (Nat.not_lt_zero _)

theorem Apart.of_empty (hi : Apart holds 0) (k : κ) : holds k = none := by
  cases h : holds k with
  | none => rfl
  | some interval =>
      have := hi.inside h
      omega

/-- Two holders of one point are the same. -/
theorem Apart.unique (hi : Apart holds width) {k l : κ} {t : Nat} (hk : Contains holds k t)
    (hl : Contains holds l t) : k = l := by
  obtain ⟨a, b, hk, ha, hb⟩ := hk
  obtain ⟨c, d, hl, hc, hd⟩ := hl
  by_contra hne
  have := hi.disjoint hne hk hl
  omega

section Writes
variable [DecidableEq κ]

/-- A holder without an interval takes the next stretch of the line. -/
theorem Apart.append (hi : Apart holds width) {w : Nat} (hw : 0 < w) :
    Apart (Function.update holds k (some (width, width + w))) (width + w) where
  inside := by
    intro l a b hl
    by_cases same : l = k
    · subst same
      rw [Function.update_self] at hl
      cases hl
      omega
    · rw [Function.update_of_ne same] at hl
      have := hi.inside hl
      omega
  disjoint := by
    intro l m a b c d hne hl hm
    by_cases hlk : l = k
    · subst hlk
      rw [Function.update_self] at hl
      rw [Function.update_of_ne hne.symm] at hm
      cases hl
      have := hi.inside hm
      omega
    · rw [Function.update_of_ne hlk] at hl
      by_cases hmk : m = k
      · subst hmk
        rw [Function.update_self] at hm
        cases hm
        have := hi.inside hl
        omega
      · rw [Function.update_of_ne hmk] at hm
        exact hi.disjoint hne hl hm

theorem Tiled.append (hi : Tiled holds width) (free : holds k = none) {w : Nat} (hw : 0 < w) :
    Tiled (Function.update holds k (some (width, width + w))) (width + w) where
  toApart := hi.toApart.append hw
  covered := by
    intro t ht
    by_cases old : t < width
    · obtain ⟨l, a, b, hl, hat, htb⟩ := hi.covered old
      have hne : l ≠ k := by
        intro same
        rw [same, free] at hl
        exact nomatch hl
      exact ⟨l, a, b, by rw [Function.update_of_ne hne]; exact hl, hat, htb⟩
    · exact ⟨k, width, width + w, Function.update_self .., by omega, ht⟩

/-- A holder gives its interval up. -/
theorem Apart.drop (hi : Apart holds width) : Apart (Function.update holds k none) width where
  inside := by
    intro l a b hl
    by_cases same : l = k
    · subst same
      rw [Function.update_self] at hl
      exact nomatch hl
    · rw [Function.update_of_ne same] at hl
      exact hi.inside hl
  disjoint := by
    intro l m a b c d hne hl hm
    by_cases hlk : l = k
    · subst hlk
      rw [Function.update_self] at hl
      exact nomatch hl
    · by_cases hmk : m = k
      · subst hmk
        rw [Function.update_self] at hm
        exact nomatch hm
      · rw [Function.update_of_ne hlk] at hl
        rw [Function.update_of_ne hmk] at hm
        exact hi.disjoint hne hl hm

end Writes

end Intervals
