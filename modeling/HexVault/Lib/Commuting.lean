import Mathlib.Data.Finmap
import Mathlib.Data.List.Perm.Basic

/-!
Steps that may be taken in either order. Steps may be refused, so two commute where taking one
after the other leaves both open the other way round, with the same result; then a list of
pairwise commuting steps that goes through in one order goes through in every order. Steps on
different cells of a map commute, and on one cell they do if what they do to its value does.
-/

namespace Commuting

universe u v w
variable {σ : Type u} {α : Type v}

def Commutes (R S : σ → σ → Prop) : Prop :=
  ∀ ⦃a b c⦄, R a b → S b c → ∃ b', S a b' ∧ R b' c

/-- The steps of a list, in its order. -/
inductive Path (step : α → σ → σ → Prop) : List α → σ → σ → Prop
  | nil {s : σ} : Path step [] s s
  | cons {x : α} {xs : List α} {s t u : σ} :
      step x s t → Path step xs t u → Path step (x :: xs) s u

theorem Path.perm {step : α → σ → σ → Prop} {xs ys : List α} {s t : σ}
    (commutes : ∀ x y, Commutes (step x) (step y)) (h : xs.Perm ys) (path : Path step xs s t) :
    Path step ys s t := by
  induction h generalizing s with
  | nil => exact path
  | cons x _ ih =>
      cases path with
      | cons first rest => exact .cons first (ih rest)
  | swap x y rest =>
      cases path with
      | cons first path =>
          cases path with
          | cons second path =>
              obtain ⟨middle, second, first⟩ := commutes _ _ first second
              exact .cons second (.cons first path)
  | trans _ _ ih ih' => exact ih' (ih path)

section Cells
variable {κ : Type u} [DecidableEq κ] {β : κ → Type v} {k k' : κ}

/-- The value of one cell changes. -/
def Cell (k : κ) (R : β k → β k → Prop) (m m' : Finmap β) : Prop :=
  ∃ a b, m.lookup k = some a ∧ R a b ∧ m' = m.insert k b

/-- One cell is emptied. -/
def Drop (k : κ) (m m' : Finmap β) : Prop := (∃ a, m.lookup k = some a) ∧ m' = m.erase k

variable {m m' : Finmap β} {R : β k → β k → Prop} {S : β k → β k → Prop}

theorem Cell.lookup_ne (h : Cell k R m m') (other : k' ≠ k) : m'.lookup k' = m.lookup k' := by
  obtain ⟨a, b, -, -, rfl⟩ := h
  exact Finmap.lookup_insert_of_ne m other

theorem Drop.lookup_ne (h : Drop k m m') (other : k' ≠ k) : m'.lookup k' = m.lookup k' := by
  obtain ⟨-, rfl⟩ := h
  exact Finmap.lookup_erase_ne other

/-- Steps on one cell commute as what they do to its value. -/
theorem cell_commutes (h : Commutes R S) : Commutes (Cell k R) (Cell k S) := by
  intro m m₁ m₂ first second
  obtain ⟨a, b, ha, hR, rfl⟩ := first
  obtain ⟨b', c, hb, hS, rfl⟩ := second
  rw [Finmap.lookup_insert] at hb
  obtain rfl := Option.some.inj hb
  obtain ⟨d, hS, hR⟩ := h hR hS
  refine ⟨m.insert k d, ⟨a, d, ha, hS, rfl⟩, d, c, Finmap.lookup_insert m, hR, ?_⟩
  rw [Finmap.insert_insert, Finmap.insert_insert]

/-- Steps on different cells commute. -/
theorem cell_commutes_ne {T : β k' → β k' → Prop} (other : k ≠ k') :
    Commutes (Cell k R) (Cell k' T) := by
  intro m m₁ m₂ first second
  have kept := first.lookup_ne other.symm
  obtain ⟨a, b, ha, hR, rfl⟩ := first
  obtain ⟨c, d, hc, hT, rfl⟩ := second
  refine ⟨m.insert k' d, ⟨c, d, kept.symm.trans hc, hT, rfl⟩, a, b, ?_, hR, ?_⟩
  · rw [Finmap.lookup_insert_of_ne m other, ha]
  · exact Finmap.insert_insert_of_ne m other

/-- Steps on any two cells, where the values are all of one type. -/
theorem cell_swap {γ : Type v} {R S : γ → γ → Prop} (h : Commutes R S) :
    Commutes (Cell k R : Finmap (fun _ : κ => γ) → Finmap (fun _ : κ => γ) → Prop)
      (Cell k' S) := by
  by_cases same : k = k'
  · subst same
    exact cell_commutes h
  · exact cell_commutes_ne same

theorem drop_commutes : Commutes (Drop k (β := β)) (Drop k') := by
  intro m m₁ m₂ first second
  by_cases same : k = k'
  · subst same
    obtain ⟨-, rfl⟩ := first
    obtain ⟨⟨a, ha⟩, -⟩ := second
    rw [Finmap.lookup_erase] at ha
    cases ha
  · have kept := first.lookup_ne (Ne.symm same)
    obtain ⟨⟨a, ha⟩, rfl⟩ := first
    obtain ⟨⟨c, hc⟩, rfl⟩ := second
    refine ⟨m.erase k', ⟨⟨c, kept.symm.trans hc⟩, rfl⟩, ⟨a, ?_⟩, Finmap.erase_erase⟩
    rw [Finmap.lookup_erase_ne same, ha]

end Cells

end Commuting
