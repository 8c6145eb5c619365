import Mathlib.Data.Int.Bitwise
import Mathlib.Data.List.ProdSigma
import Mathlib.Data.List.Nodup

/-!
Words cut from bigints, bit by bit, and loops that update each cell of an array once, from what
the cell held before.
-/

namespace Words

theorem testBit_natCast (n i : Nat) : Int.testBit n i = n.testBit i := rfl

/-- A stored word has the lowest bits of the bigint, whatever its sign. -/
theorem getLsbD_ofInt (width : Nat) (v : Int) (i : Nat) :
    (BitVec.ofInt width v).getLsbD i = (decide (i < width) && v.testBit i) := by
  cases v with
  | ofNat n =>
      rw [Int.ofNat_eq_natCast, BitVec.ofInt_natCast, BitVec.getLsbD_ofNat, testBit_natCast]
  | negSucc n =>
      rw [BitVec.ofInt_negSucc_eq_not_ofNat, BitVec.getLsbD_not, BitVec.getLsbD_ofNat]
      by_cases low : i < width
      · simp [Int.testBit, low]
      · simp [low]

theorem testBit_shiftLeft (n k i : Nat) :
    Int.testBit ((n : Int) <<< k) i = (decide (k ≤ i) && n.testBit (i - k)) := by
  rw [← Int.natCast_shiftLeft, testBit_natCast, Nat.testBit_shiftLeft]

theorem testBit_shiftRight (n k i : Nat) :
    Int.testBit ((n : Int) >>> k) i = n.testBit (k + i) := by
  rw [← Int.natCast_shiftRight, testBit_natCast, Nat.testBit_shiftRight]

section Loops
universe u v
variable {ι : Type u} {κ : Type v} {α β : Type} {n : Nat}

/-- A loop in a loop goes through the pairs. -/
theorem foldl_nested (f : β → ι → κ → β) (outer : List ι) (inner : List κ) (b : β) :
    outer.foldl (fun b i => inner.foldl (fun b k => f b i k) b) b =
      (outer ×ˢ inner).foldl (fun b p => f b p.1 p.2) b := by
  induction outer generalizing b with
  | nil => rfl
  | cons i outer ih => rw [List.product_cons, List.foldl_append, List.foldl_map, List.foldl_cons, ih]

section Cells
variable {f : Vector α n → ι → Vector α n} {cell : ι → Fin n} {g : ι → α → α}
  (step : ∀ array i (c : Fin n), (f array i).get c =
    if c = cell i then g i (array.get c) else array.get c)
include step

/-- A cell that no turn of the loop is about stays as it is. -/
theorem get_foldl_kept {turns : List ι} {c : Fin n} (other : ∀ i ∈ turns, cell i ≠ c)
    (array : Vector α n) : (turns.foldl f array).get c = array.get c := by
  induction turns generalizing array with
  | nil => rfl
  | cons first rest ih =>
      rw [List.foldl_cons, ih (fun i mem => other i (List.mem_cons_of_mem _ mem)), step,
        if_neg (Ne.symm (other first (List.mem_cons_self ..)))]

/-- Each turn updates its cell from what is in it, and no two turns the same one. -/
theorem get_foldl_update {turns : List ι} (nodup : turns.Nodup) {j : ι} (mem : j ∈ turns)
    (own : ∀ i ∈ turns, cell i = cell j → i = j) (array : Vector α n) :
    (turns.foldl f array).get (cell j) = g j (array.get (cell j)) := by
  induction turns generalizing array with
  | nil => exact absurd mem List.not_mem_nil
  | cons first rest ih =>
      rw [List.nodup_cons] at nodup
      rw [List.foldl_cons]
      have others := fun i mem => own i (List.mem_cons_of_mem first mem)
      rcases List.mem_cons.mp mem with rfl | later
      · rw [get_foldl_kept step ?_, step, if_pos rfl]
        intro i mem same
        exact nodup.1 (others i mem same ▸ mem)
      · rw [ih nodup.2 later others, step, if_neg]
        intro same
        have twice := own first (List.mem_cons_self ..) same.symm
        exact nodup.1 (twice ▸ later)

end Cells

end Loops

end Words
