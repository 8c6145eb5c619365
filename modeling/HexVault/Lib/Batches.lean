import Mathlib.Data.List.Basic
import Mathlib.Tactic.Common

/-!
Work done in batches: the slices of a list, and a loop over items that stops at the
first one that fails.
-/

namespace Batches

universe u v w x
variable {α : Type u} {β : Type v} {σ : Type w} {ε : Type x}

/-- Where a loop ended: its state, the items that went through, and the failure that
stopped it. -/
structure Halt (σ : Type w) (β : Type v) (ε : Type x) where
  state : σ
  passed : List β
  failure : Option ε

end Batches
