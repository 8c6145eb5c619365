import Mathlib.Data.List.GetD
import Mathlib.Data.Nat.Bitwise
import Mathlib.Tactic.Ring

/-!
Keccak on bits: the permutation of 1600 of them, the padding and the sponge. The state is a five
by five sheet of lanes of 64 bits; coordinates wrap around, as the arithmetic of `Fin` does.
-/

namespace Keccak

abbrev State := Fin 5 → Fin 5 → Fin 64 → Bool

/-! The permutation. -/

/-- The parity of a column. -/
def column (A : State) (x : Fin 5) (z : Fin 64) : Bool :=
  A x 0 z ^^ A x 1 z ^^ A x 2 z ^^ A x 3 z ^^ A x 4 z

def theta (A : State) : State := fun x y z =>
  A x y z ^^ (column A (x - 1) z ^^ column A (x + 1) (z - 1))

/-- The lanes in the order in which their offsets are laid out. -/
def walk : Nat → Fin 5 × Fin 5
  | 0 => (1, 0)
  | t + 1 => ((walk t).2, 2 * (walk t).1 + 3 * (walk t).2)

/-- How far a lane is rotated: the triangular numbers along the walk. -/
def offset (x y : Fin 5) : Nat :=
  ((List.range 24).find? fun t => walk t = (x, y)).elim 0 fun t => (t + 1) * (t + 2) / 2 % 64

def rho (A : State) : State := fun x y z => A x y (z - Fin.ofNat 64 (offset x y))

def pi (A : State) : State := fun x y z => A (x + 3 * y) x z

def chi (A : State) : State := fun x y z => A x y z ^^ (!A (x + 1) y z && A (x + 2) y z)

/-- A step of the shift register, by `x ^ 8 + x ^ 6 + x ^ 5 + x ^ 4 + 1`. -/
def shiftRegister (R : Nat) : Nat :=
  let shifted := 2 * R
  if shifted.testBit 8 then (shifted ^^^ 0x71) % 256 else shifted

/-- The bit of the register at a time. -/
def rc (t : Nat) : Bool := (Nat.iterate shiftRegister (t % 255) 1).testBit 0

/-- A round's constant has bits at the powers of two less one only. -/
def roundConstant (round : Nat) (z : Fin 64) : Bool :=
  ((List.range 7).find? fun j => z.val = 2 ^ j - 1).any fun j => rc (j + 7 * round)

def iota (round : Nat) (A : State) : State := fun x y z =>
  A x y z ^^ (decide (x = 0 ∧ y = 0) && roundConstant round z)

def round (A : State) (i : Nat) : State := iota i (chi (pi (rho (theta A))))

/-- Keccak-f[1600]. -/
def keccakF (A : State) : State := (List.range 24).foldl round A

/-! The sponge. -/

/-- The bits of a byte string, the least significant bit of each byte first. -/
def bitsOf (bytes : List UInt8) : List Bool :=
  bytes.flatMap fun byte => (List.range 8).map fun i => byte.toNat.testBit i

/-- A one, zeros and a one, up to a multiple of the rate: `pad10*1`. -/
def pad (rate length : Nat) : List Bool :=
  true :: (List.replicate ((rate - (length + 2) % rate) % rate) false ++ [true])

/-- A block is added to the first bits of the state. -/
def addBlock (A : State) (block : List Bool) : State := fun x y z =>
  A x y z ^^ block.getD (64 * (5 * y.val + x.val) + z.val) false

def absorbBlock (A : State) (block : List Bool) : State := keccakF (addBlock A block)

/-- The blocks of a padded message, one after the other. -/
def absorb (rate : Nat) (A : State) (bits : List Bool) : State :=
  (List.range (bits.length / rate)).foldl
    (fun A i => absorbBlock A ((bits.drop (i * rate)).take rate)) A

/-- The state as one string of bits. -/
def stateBits (A : State) : List Bool :=
  (List.finRange 25).flatMap fun lane => (List.finRange 64).map fun z =>
    A (Fin.ofNat 5 lane.val) (Fin.ofNat 5 (lane.val / 5)) z

/-- The first `length` bits of the blocks that come out. -/
def squeeze (rate : Nat) : Nat → Nat → State → List Bool
  | 0, _, _ => []
  | blocks + 1, length, A =>
      ((stateBits A).take rate).take length ++ squeeze rate blocks (length - rate) (keccakF A)

def sponge (rate : Nat) (message : List Bool) (length : Nat) : List Bool :=
  squeeze rate (length / rate + 1) length
    (absorb rate (fun _ _ _ => false) (message ++ pad rate message.length))

/-- The byte string of bits, eight a byte. -/
def bytesOf (bits : List Bool) : List UInt8 :=
  (List.range (bits.length / 8)).map fun k =>
    UInt8.ofNat (Nat.ofBits fun i : Fin 8 => bits.getD (8 * k + i.val) false)

/-- Keccak-256: rate 1088, capacity 512, no suffix before the padding. -/
def keccak256 (bytes : List UInt8) : List UInt8 := bytesOf (sponge 1088 (bitsOf bytes) 256)

/-! Bytes and their bits. -/

section Bytes
variable {bytes rest : List UInt8}

theorem bitsOf_cons (byte : UInt8) : bitsOf (byte :: rest) =
    (List.range 8).map (fun i => byte.toNat.testBit i) ++ bitsOf rest := rfl

theorem bitsOf_append : bitsOf (bytes ++ rest) = bitsOf bytes ++ bitsOf rest := List.flatMap_append

@[simp] theorem length_bitsOf (bytes : List UInt8) : (bitsOf bytes).length = 8 * bytes.length := by
  induction bytes with
  | nil => rfl
  | cons byte bytes ih =>
      rw [bitsOf_cons, List.length_append, ih, List.length_map, List.length_range,
        List.length_cons]
      ring

theorem bitsOf_drop (bytes : List UInt8) (k : Nat) :
    bitsOf (bytes.drop k) = (bitsOf bytes).drop (8 * k) := by
  induction bytes generalizing k with
  | nil => simp [bitsOf]
  | cons byte bytes ih =>
      cases k with
      | zero => rfl
      | succ k =>
          rw [List.drop_succ_cons, ih, bitsOf_cons, Nat.mul_succ, Nat.add_comm,
            ← List.drop_drop, List.drop_left' (by simp)]

theorem bitsOf_take (bytes : List UInt8) (k : Nat) :
    bitsOf (bytes.take k) = (bitsOf bytes).take (8 * k) := by
  induction bytes generalizing k with
  | nil => simp [bitsOf]
  | cons byte bytes ih =>
      cases k with
      | zero => simp [bitsOf]
      | succ k =>
          have length : 8 * (k + 1) =
              ((List.range 8).map fun i => byte.toNat.testBit i).length + 8 * k := by
            rw [List.length_map, List.length_range]
            omega
          rw [List.take_succ_cons, bitsOf_cons, bitsOf_cons, ih, length,
            List.take_length_add_append]

/-- A bit of a byte, by the place it has in the string. -/
theorem bitsOf_getD (bytes : List UInt8) (k : Nat) {i : Nat} (small : i < 8) :
    (bitsOf bytes).getD (8 * k + i) false = (bytes.getD k 0).toNat.testBit i := by
  induction bytes generalizing k with
  | nil => simp [bitsOf]
  | cons byte bytes ih =>
      rw [bitsOf_cons]
      cases k with
      | zero =>
          rw [Nat.mul_zero, Nat.zero_add, List.getD_append _ _ _ _ (by simpa using small)]
          simp [small]
      | succ k =>
          rw [List.getD_append_right _ _ _ _ (by simp; omega), List.getD_cons_succ, ← ih k]
          congr 1
          simp
          omega

theorem bytesOf_bitsOf (bytes : List UInt8) : bytesOf (bitsOf bytes) = bytes := by
  have size : (bitsOf bytes).length / 8 = bytes.length := by
    rw [length_bitsOf, Nat.mul_div_cancel_left _ (by decide)]
  rw [bytesOf, size]
  refine List.ext_getElem (by simp) fun k _ inside => ?_
  have byte : bytes.getD k 0 = bytes[k] := List.getD_eq_getElem _ _ inside
  have bits : (fun i : Fin 8 => (bitsOf bytes).getD (8 * k + i.val) false) =
      fun i : Fin 8 => bytes[k].toNat.testBit i.val := by
    funext i
    rw [bitsOf_getD bytes k i.isLt, byte]
  rw [List.getElem_map, List.getElem_range, bits, Nat.ofBits_testBit,
    Nat.mod_eq_of_lt bytes[k].toNat_lt, UInt8.ofNat_toNat]

end Bytes

end Keccak
