import Mathlib.Logic.Function.Basic

/-!
A memory of keys, each with the time it was last told. Telling some keys first
forgets those told longer ago than a limit, so a key is forgotten only when some
key is told.
-/

universe u

/-- The time each key was last told. -/
abbrev Memo (κ : Type u) := κ → Option Int

namespace Memo
variable {κ : Type u} {m : Memo κ} {limit now : Int} {keys : List κ} {k : κ}

def empty : Memo κ := fun _ => none

def has (m : Memo κ) (k : κ) : Bool := (m k).isSome

/-- Forgets what was told longer ago than the limit. -/
def prune (limit now : Int) (m : Memo κ) : Memo κ :=
  fun k => (m k).filter fun told => ¬ limit < now - told

variable [DecidableEq κ]

def remember (limit now : Int) (m : Memo κ) (keys : List κ) : Memo κ :=
  fun k => if k ∈ keys then some now else prune limit now m k

/-- What is remembered was told now, or was remembered before. -/
theorem has_of_remember (h : (remember limit now m keys).has k = true) :
    k ∈ keys ∨ m.has k = true := by
  by_cases told : k ∈ keys
  · exact .inl told
  · rw [has, remember, if_neg told, prune] at h
    exact .inr (Option.isSome_of_isSome_filter _ _ h)

end Memo
