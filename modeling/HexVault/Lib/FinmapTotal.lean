import Mathlib.Data.Finmap
import Mathlib.Algebra.BigOperators.Group.Multiset.Basic
import Mathlib.Algebra.Order.BigOperators.Group.Multiset
import Mathlib.Algebra.Order.Group.Nat
import Mathlib.Algebra.BigOperators.Ring.Multiset
import Mathlib.Algebra.Ring.Nat

/-!
Lookups after a write, and totals over a finite map. A total adds one figure for
each entry; the lemmas say how it moves when one entry is written or removed,
which is all a proof about sums over accounts needs.
-/

namespace Finmap

universe u v w
variable {κ : Type u} {α : Type v} [DecidableEq κ]

/-- What a map holds after a write: the new value at its key, the old one elsewhere. -/
theorem lookup_insert_cases {s : Finmap fun _ : κ => α} {k l : κ} {a b : α}
    (h : (s.insert k a).lookup l = some b) :
    (l = k ∧ b = a) ∨ (l ≠ k ∧ s.lookup l = some b) := by
  by_cases same : l = k
  · subst same
    rw [lookup_insert, Option.some.injEq] at h
    exact .inl ⟨rfl, h.symm⟩
  · rw [lookup_insert_of_ne _ same] at h
    exact .inr ⟨same, h⟩

/-- What a map holds after an entry is removed, it held before. -/
theorem lookup_of_erase {s : Finmap fun _ : κ => α} {k l : κ} {a : α}
    (h : (s.erase k).lookup l = some a) : s.lookup l = some a := by
  by_cases same : l = k
  · subst same
    rw [lookup_erase] at h
    exact nomatch h
  · rwa [lookup_erase_ne same] at h

/-- A map is built up from the empty one, key by key. -/
theorem insert_induction {P : (Finmap fun _ : κ => α) → Prop} (empty : P ∅)
    (insert : ∀ k a s, k ∉ s → P s → P (s.insert k a)) (s : Finmap fun _ : κ => α) : P s := by
  refine induction_on s fun entries => ?_
  induction entries using AList.insertRec with
  | H0 => exact empty
  | IH k a entries fresh ih =>
      rw [← insert_toFinmap]
      exact insert k a _ fresh ih

section Monoid
variable {M : Type w} [AddCommMonoid M]

/-- The sum of `f key value` over the entries of a map. -/
def total (f : κ → α → M) (s : Finmap fun _ : κ => α) : M :=
  (s.entries.map fun e => f e.1 e.2).sum

omit [DecidableEq κ] in
@[simp] theorem total_empty (f : κ → α → M) : total f ∅ = 0 := by
  simp [total, EmptyCollection.emptyCollection]

theorem total_insert_of_notMem (f : κ → α → M) {k : κ} {a : α}
    {s : Finmap fun _ : κ => α} (h : k ∉ s) :
    total f (s.insert k a) = f k a + total f s := by
  simp [total, entries_insert_of_notMem h]

theorem insert_erase_self (k : κ) (a : α) (s : Finmap fun _ : κ => α) :
    (s.erase k).insert k a = s.insert k a := by
  apply ext_lookup
  intro x
  by_cases h : x = k
  · subst h; simp
  · simp [lookup_insert_of_ne _ h, lookup_erase_ne h]

theorem insert_lookup_self {k : κ} {a : α} {s : Finmap fun _ : κ => α}
    (h : s.lookup k = some a) : s.insert k a = s := by
  apply ext_lookup
  intro x
  by_cases hx : x = k
  · subst hx; simp [h]
  · simp [lookup_insert_of_ne _ hx]

/-- Writing an entry: whatever was there leaves, the new value comes in. -/
theorem total_insert (f : κ → α → M) (k : κ) (a : α) (s : Finmap fun _ : κ => α) :
    total f (s.insert k a) = f k a + total f (s.erase k) := by
  rw [← insert_erase_self, total_insert_of_notMem f notMem_erase_self]

theorem total_erase (f : κ → α → M) {k : κ} {a : α} {s : Finmap fun _ : κ => α}
    (h : s.lookup k = some a) : total f s = f k a + total f (s.erase k) := by
  rw [← total_insert, insert_lookup_self h]

theorem total_erase_of_notMem (f : κ → α → M) {k : κ} {s : Finmap fun _ : κ => α}
    (h : s.lookup k = none) : total f (s.erase k) = total f s := by
  congr 1
  apply ext_lookup
  intro x
  by_cases hx : x = k
  · subst hx; simp [h]
  · rw [lookup_erase_ne hx]

theorem total_congr {f g : κ → α → M} {s : Finmap fun _ : κ => α}
    (h : ∀ k a, s.lookup k = some a → f k a = g k a) : total f s = total g s := by
  unfold total
  congr 1
  apply Multiset.map_congr rfl
  rintro ⟨k, a⟩ he
  exact h k a (lookup_eq_some_iff.mpr he)

theorem total_eq_zero {f : κ → α → M} {s : Finmap fun _ : κ => α}
    (h : ∀ k a, s.lookup k = some a → f k a = 0) : total f s = 0 := by
  rw [total_congr (g := fun _ _ => 0) h]
  simp [total]

/-- A figure that one key alone can have. -/
theorem total_single {f : κ → α → M} {k : κ} (s : Finmap fun _ : κ => α)
    (h : ∀ l ≠ k, ∀ a, f l a = 0) : total f s = (s.lookup k).elim 0 (f k) := by
  have others : total f (s.erase k) = 0 := by
    refine total_eq_zero fun l a held => h l ?_ a
    rintro rfl
    rw [lookup_erase] at held
    exact nomatch held
  cases held : s.lookup k with
  | none => rw [Option.elim_none, ← total_erase_of_notMem f held, others]
  | some a => rw [Option.elim_some, total_erase f held, others, add_zero]

omit [DecidableEq κ] in
theorem total_add (f g : κ → α → M) (s : Finmap fun _ : κ => α) :
    total (fun k a => f k a + g k a) s = total f s + total g s := by
  simp [total]

/-- Rewriting an entry swaps its old figure for its new one. -/
theorem total_insert_add (f : κ → α → M) {k : κ} {a : α} {s : Finmap fun _ : κ => α}
    (h : s.lookup k = some a) (b : α) :
    total f (s.insert k b) + f k a = total f s + f k b := by
  rw [total_insert, total_erase f h, add_comm (f k b), add_comm (f k a)]
  exact add_right_comm ..

/-- The same where an absent entry counts for nothing, as its default does. -/
theorem total_insert_getD (f : κ → α → M) {k : κ} {d : α} (h : f k d = 0)
    (s : Finmap fun _ : κ => α) (b : α) :
    total f (s.insert k b) + f k ((s.lookup k).getD d) = total f s + f k b := by
  cases hk : s.lookup k with
  | some a => exact total_insert_add f hk b
  | none =>
      rw [Option.getD_none, h, add_zero, total_insert, total_erase_of_notMem f hk, add_comm]

/-- Whatever was at the key leaves the total, and the new value comes in. -/
theorem total_insert_elim (f : κ → α → M) (k : κ) (s : Finmap fun _ : κ => α) (b : α) :
    total f (s.insert k b) + (s.lookup k).elim 0 (f k) = total f s + f k b := by
  cases hk : s.lookup k with
  | some a => exact total_insert_add f hk b
  | none => rw [Option.elim_none, add_zero, total_insert, total_erase_of_notMem f hk, add_comm]

/-- An entry rewritten without changing its figure leaves the total alone. -/
theorem total_insert_of_eq {f : κ → α → M} {k : κ} {a b : α} {s : Finmap fun _ : κ => α}
    (h : s.lookup k = some a) (he : f k b = f k a) : total f (s.insert k b) = total f s := by
  rw [total_insert, total_erase f h, he]

end Monoid

section Nat

theorem le_total (f : κ → α → ℕ) {k : κ} {a : α} {s : Finmap fun _ : κ => α}
    (h : s.lookup k = some a) : f k a ≤ total f s := by
  rw [total_erase f h]
  exact Nat.le_add_right _ _

theorem total_mono {f g : κ → α → ℕ} {s : Finmap fun _ : κ => α}
    (h : ∀ k a, s.lookup k = some a → f k a ≤ g k a) : total f s ≤ total g s := by
  unfold total
  apply Multiset.sum_map_le_sum_map
  rintro ⟨k, a⟩ he
  exact h k a (lookup_eq_some_iff.mpr he)

omit [DecidableEq κ] in
theorem total_mul (f : κ → α → ℕ) (c : ℕ) (s : Finmap fun _ : κ => α) :
    total (fun k a => f k a * c) s = total f s * c :=
  Multiset.sum_map_mul_right

/-- Shares of `c` in proportion to figures that sum to at most `d`, each rounded
down, never sum to more than `c`. -/
theorem total_share_le (f : κ → α → ℕ) (c : ℕ) {d : ℕ} {s : Finmap fun _ : κ => α}
    (h : total f s ≤ d) : total (fun k a => c * f k a / d) s ≤ c := by
  cases Nat.eq_zero_or_pos d with
  | inl zero =>
      have none : total (fun k a => c * f k a / d) s = 0 := by
        refine total_eq_zero ?_
        intro k a _
        rw [zero, Nat.div_zero]
      rw [none]
      exact Nat.zero_le _
  | inr positive =>
      have scaled : total (fun k a => c * f k a / d) s * d ≤ c * d := by
        calc total (fun k a => c * f k a / d) s * d
            = total (fun k a => c * f k a / d * d) s := (total_mul _ d s).symm
          _ ≤ total (fun k a => f k a * c) s := by
            refine total_mono ?_
            intro k a _
            rw [Nat.mul_comm (f k a)]
            exact Nat.div_mul_le_self _ _
          _ = total f s * c := total_mul f c s
          _ ≤ c * d := by
            rw [Nat.mul_comm c]
            exact Nat.mul_le_mul_right c h
      exact Nat.le_of_mul_le_mul_right scaled positive

end Nat

end Finmap
