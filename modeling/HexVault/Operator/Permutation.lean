import HexVault.Lib.Keccak
import HexVault.Lib.Words
import HexVault.Operator.Vrf

/-!
What a round of `permute` does to the bits of the lanes. Each loop writes every lane once, and
reads of the array it writes only the lane it is about to write.
-/

namespace HexVault

namespace Vrf

open Keccak Words

/-- The bits of the lanes, by their coordinates. -/
def bits (lanes : BigUint64Array 25) : State := fun x y z => (lanes.get (lane x y)).getLsbD z

section Words
variable {n : Nat} {array : BigUint64Array n} {index : Fin n} {value : Int} {z : Fin 64}

theorem get_store (c : Fin n) : (array.store index value).get c =
    if c = index then BitVec.ofInt 64 value else array.get c := by
  have get_eq (array : BigUint64Array n) : array.get c = array[c.val] := rfl
  rw [get_eq, get_eq, BigUint64Array.store, Vector.getElem_set]
  simp only [Fin.ext_iff, eq_comm]

theorem testBit_at : (array.at index).testBit z = (array.get index).getLsbD z := rfl

theorem getLsbD_word : (BitVec.ofInt 64 value).getLsbD z = value.testBit z := by
  rw [getLsbD_ofInt, decide_eq_true z.isLt, Bool.true_and]

/-- A store of a value computed from what the cell holds updates that cell. -/
theorem get_store_at {ι : Type} (cell : ι → Fin n) (f : ι → Int → Int) (array : BigUint64Array n)
    (i : ι) (c : Fin n) : (array.store (cell i) (f i (array.at (cell i)))).get c =
      if c = cell i then BitVec.ofInt 64 (f i (array.get c).toNat) else array.get c := by
  rw [get_store]
  split
  · next same =>
      rw [same]
      rfl
  · rfl

/-- A loop of such stores, where one turn is about the cell. -/
theorem get_foldl_store {ι : Type} {turns : List ι} {cell : ι → Fin n} {f : ι → Int → Int}
    (nodup : turns.Nodup) {j : ι} (mem : j ∈ turns) {c : Fin n} (mine : cell j = c)
    (own : ∀ i ∈ turns, cell i = c → i = j) (array : BigUint64Array n) :
    (turns.foldl (fun array i => array.store (cell i) (f i (array.at (cell i)))) array).get c =
      BitVec.ofInt 64 (f j (array.at c)) := by
  subst mine
  exact @get_foldl_update _ _ n _ cell (fun i word => BitVec.ofInt 64 (f i word.toNat))
    (get_store_at cell f) _ nodup _ mem own array

/-- And what it does not store stays. -/
theorem get_foldl_other {ι : Type} {turns : List ι} {cell : ι → Fin n} {f : ι → Int → Int}
    {c : Fin n} (other : ∀ i ∈ turns, cell i ≠ c) (array : BigUint64Array n) :
    (turns.foldl (fun array i => array.store (cell i) (f i (array.at (cell i)))) array).get c =
      array.get c :=
  @get_foldl_kept _ _ n _ cell (fun i word => BitVec.ofInt 64 (f i word.toNat))
    (get_store_at cell f) _ c other array

/-- A rotation of a word; what is shifted out at the top is cut off by the store. -/
theorem testBit_rotl (word : BitVec 64) {k : Nat} (small : k < 64) :
    (rotl word.toNat k).testBit z = word.getLsbD (z - Fin.ofNat 64 k).val := by
  have place : (z - Fin.ofNat 64 k).val = (64 - k + z.val) % 64 := by
    rw [Fin.sub_def, Fin.val_ofNat, Nat.mod_eq_of_lt small]
  have bit := z.isLt
  rw [place]
  by_cases zero : k = 0
  · subst zero
    have same : (64 - 0 + z.val) % 64 = z.val := by omega
    rw [same]
    rfl
  · have shift : ((64 : Int) - k).toNat = 64 - k := by omega
    rw [rotl, if_neg (by omega), Int.testBit_lor, Int.toNat_natCast, shift, testBit_shiftLeft,
      testBit_shiftRight]
    by_cases low : z.val < k
    · have wrapped : (64 - k + z.val) % 64 = 64 - k + z.val := Nat.mod_eq_of_lt (by omega)
      rw [decide_eq_false (by omega), Bool.false_and, Bool.false_or, wrapped]
      rfl
    · have moved : (64 - k + z.val) % 64 = z.val - k := by omega
      have high : word.toNat.testBit (64 - k + z.val) = false := by
        refine Nat.testBit_lt_two_pow (Nat.lt_of_lt_of_le word.isLt ?_)
        exact Nat.pow_le_pow_right (by decide) (by omega)
      rw [decide_eq_true (by omega), Bool.true_and, high, Bool.or_false, moved]
      rfl

end Words

theorem lane_injective {x y x' y' : Fin 5} (h : lane x y = lane x' y') : x = x' ∧ y = y' := by
  have val := congrArg Fin.val h
  dsimp only [lane] at val
  omega

/-- The pairs that two loops of five go through. -/
theorem nodup_pairs : (List.finRange 5 ×ˢ List.finRange 5).Nodup :=
  (List.nodup_finRange 5).product (List.nodup_finRange 5)

theorem mem_pairs (x y : Fin 5) : (x, y) ∈ List.finRange 5 ×ˢ List.finRange 5 :=
  List.mem_product.mpr ⟨List.mem_finRange x, List.mem_finRange y⟩

section Steps
variable (lanes b : BigUint64Array 25) (c : BigUint64Array 5)

theorem columns_bits (x : Fin 5) (z : Fin 64) :
    ((columns lanes c).get x).getLsbD z = column (bits lanes) x z := by
  have stored := @get_foldl_store 5 _ _ (fun x => x)
    (fun x _ => Int.xor (Int.xor (Int.xor (Int.xor (lanes.at (lane x 0)) (lanes.at (lane x 1)))
      (lanes.at (lane x 2))) (lanes.at (lane x 3))) (lanes.at (lane x 4)))
    (List.nodup_finRange 5) x (List.mem_finRange x) x rfl (fun _ _ same => same) c
  rw [columns, stored, getLsbD_word]
  simp only [Int.testBit_lxor, testBit_at]
  rfl

/-- The lanes are mixed in place: each is read once more only to be replaced. -/
theorem mixColumns_bits : bits (mixColumns (columns lanes c) lanes) = theta (bits lanes) := by
  funext x y z
  have before : x + 4 = x - 1 := by
    revert x
    decide
  have stored := @get_foldl_store 25 _ _ (fun p : Fin 5 × Fin 5 => lane p.1 p.2)
    (fun p old => Int.xor old (Int.xor ((columns lanes c).at (p.1 + 4))
      (rotl ((columns lanes c).at (p.1 + 1)) 1)))
    nodup_pairs (x, y) (mem_pairs x y) (lane x y) rfl
    (fun p _ same => Prod.ext (lane_injective same).1 (lane_injective same).2) lanes
  have rotated : (rotl ((columns lanes c).at (x + 1)) 1).testBit z =
      column (bits lanes) (x + 1) (z - 1) := by
    rw [← columns_bits lanes c]
    exact testBit_rotl ((columns lanes c).get (x + 1)) (by decide)
  rw [bits, mixColumns, foldl_nested, stored, getLsbD_word, Int.testBit_lxor, Int.testBit_lxor,
    testBit_at, testBit_at, columns_bits, before, rotated]
  rfl

theorem rotations_at (x y : Fin 5) : ROTATIONS.at (lane x y) = offset x y ∧ offset x y < 64 := by
  revert x y
  decide

theorem rotateLanes_bits : bits (rotateLanes lanes b) = pi (rho (bits lanes)) := by
  funext x y z
  have source : lane x (2 * (x + 3 * y) + 3 * x) = lane x y := by
    revert x y
    decide
  have stored := @get_foldl_store 25 _ _
    (fun p : Fin 5 × Fin 5 => lane p.2 (2 * p.1 + 3 * p.2))
    (fun p _ => rotl (lanes.at (lane p.1 p.2)) (ROTATIONS.at (lane p.1 p.2)))
    nodup_pairs (x + 3 * y, x) (mem_pairs ..) (lane x y) source ?_ b
  · obtain ⟨rotation, small⟩ := rotations_at (x + 3 * y) x
    rw [bits, rotateLanes, foldl_nested, stored, getLsbD_word, rotation]
    exact testBit_rotl (lanes.get (lane (x + 3 * y) x)) small
  · rintro ⟨x', y'⟩ - same
    obtain ⟨rfl, rfl⟩ := lane_injective same
    have unique : ∀ x' x : Fin 5, x' = x + 3 * (2 * x' + 3 * x) := by decide
    exact Prod.ext (unique x' y') rfl

theorem mixRows_bits : bits (mixRows b lanes) = chi (bits b) := by
  funext x y z
  have stored := @get_foldl_store 25 _ _ (fun p : Fin 5 × Fin 5 => lane p.2 p.1)
    (fun p _ => Int.xor (b.at (lane p.2 p.1))
      (Int.land (Int.lnot (b.at (lane (p.2 + 1) p.1))) (b.at (lane (p.2 + 2) p.1))))
    nodup_pairs (y, x) (mem_pairs y x) (lane x y) rfl
    (fun p _ same => Prod.ext (lane_injective same).2 (lane_injective same).1) lanes
  rw [bits, mixRows, foldl_nested, stored, getLsbD_word, Int.testBit_lxor, Int.testBit_land,
    Int.testBit_lnot, testBit_at, testBit_at, testBit_at]
  rfl

theorem roundConstants_bit (i : Fin ROUNDS) (z : Fin 64) :
    (ROUND_CONSTANTS.get i).getLsbD z = roundConstant i.val z := by
  revert i z
  decide +kernel

theorem constant_bits (i : Fin ROUNDS) :
    bits (lanes.store 0 (Int.xor (lanes.at 0) (ROUND_CONSTANTS.at i))) = iota i.val (bits lanes) := by
  funext x y z
  have first : lane x y = 0 ↔ x = 0 ∧ y = 0 := by
    revert x y
    decide
  rw [bits, get_store, iota]
  by_cases origin : x = 0 ∧ y = 0
  · rw [if_pos (first.mpr origin), getLsbD_word, Int.testBit_lxor, testBit_at, testBit_at,
      roundConstants_bit, decide_eq_true origin, Bool.true_and, bits]
    obtain ⟨rfl, rfl⟩ := origin
    rfl
  · rw [if_neg fun h => origin (first.mp h), decide_eq_false origin, Bool.false_and,
      Bool.xor_false, bits]

end Steps

/-- A round of the code is a round of Keccak, whatever is left in the arrays it reuses. -/
theorem permuteRound_bits (s : Permuting) (i : Fin ROUNDS) :
    bits (permuteRound s i).lanes = Keccak.round (bits s.lanes) i.val := by
  simp only [permuteRound]
  rw [constant_bits, mixRows_bits, rotateLanes_bits, mixColumns_bits, Keccak.round]

theorem permute_bits (lanes : BigUint64Array 25) : bits (permute lanes) = keccakF (bits lanes) := by
  have rounds : ∀ (turns : List (Fin ROUNDS)) (s : Permuting),
      bits (turns.foldl permuteRound s).lanes = (turns.map Fin.val).foldl Keccak.round (bits s.lanes) := by
    intro turns
    induction turns with
    | nil => exact fun _ => rfl
    | cons i rest ih =>
        intro s
        rw [List.foldl_cons, ih, List.map_cons, List.foldl_cons, permuteRound_bits]
  rw [permute, rounds, List.map_coe_finRange_eq_range]
  rfl

end Vrf

end HexVault
