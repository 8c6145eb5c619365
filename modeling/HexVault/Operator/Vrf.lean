import HexVault.Program.Randomness
import Mathlib.Data.Int.Bitwise

/-!
The operator's randomness seed and the Keccak it is hashed with: bigints without a bound, kept in
typed arrays whose stores cut them to 64 bits.
-/

namespace HexVault

namespace Vrf

def RATE : Nat := 136
def ROUNDS : Nat := 24

/-- A typed array of 64-bit numbers. -/
abbrev BigUint64Array (n : Nat) := Vector (BitVec 64) n

/-- What is read is a bigint. -/
def BigUint64Array.at {n : Nat} (array : BigUint64Array n) (index : Fin n) : Int :=
  (array.get index).toNat

/-- What is stored keeps its lowest 64 bits. -/
def BigUint64Array.store {n : Nat} (array : BigUint64Array n) (index : Fin n) (value : Int) :
    BigUint64Array n :=
  array.set index.val (BitVec.ofInt 64 value) index.isLt

def ROUND_CONSTANTS : BigUint64Array ROUNDS :=
  #v[0x0000000000000001, 0x0000000000008082, 0x800000000000808a, 0x8000000080008000,
    0x000000000000808b, 0x0000000080000001, 0x8000000080008081, 0x8000000000008009,
    0x000000000000008a, 0x0000000000000088, 0x0000000080008009, 0x000000008000000a,
    0x000000008000808b, 0x800000000000008b, 0x8000000000008089, 0x8000000000008003,
    0x8000000000008002, 0x8000000000000080, 0x000000000000800a, 0x800000008000000a,
    0x8000000080008081, 0x8000000000008080, 0x0000000080000001, 0x8000000080008008]

/-- Rotation offsets, flattened as `x + 5y`. -/
def ROTATIONS : BigUint64Array 25 :=
  #v[0, 1, 62, 28, 27, 36, 44, 6, 55, 20, 3, 10, 43, 25, 39, 41, 45, 15,
    21, 8, 18, 2, 61, 56, 14]

def rotl (x n : Int) : Int :=
  if n = 0 then x else Int.lor (x <<< n.toNat) (x >>> (64 - n).toNat)

/-- Lanes are counted in fives. -/
instance neZero_five : NeZero 5 := ⟨by decide⟩

/-- `x + 5 * y`. -/
def lane (x y : Fin 5) : Fin 25 := ⟨x.val + 5 * y.val, by omega⟩

section Permute

def columns (lanes : BigUint64Array 25) (c : BigUint64Array 5) : BigUint64Array 5 :=
  (List.finRange 5).foldl (fun c x => c.store x
    (Int.xor (Int.xor (Int.xor (Int.xor (lanes.at (lane x 0)) (lanes.at (lane x 1)))
      (lanes.at (lane x 2))) (lanes.at (lane x 3))) (lanes.at (lane x 4)))) c

def mixColumns (c : BigUint64Array 5) (lanes : BigUint64Array 25) : BigUint64Array 25 :=
  (List.finRange 5).foldl (fun lanes x =>
    let d := Int.xor (c.at (x + 4)) (rotl (c.at (x + 1)) 1)
    (List.finRange 5).foldl (fun lanes y =>
      lanes.store (lane x y) (Int.xor (lanes.at (lane x y)) d)) lanes) lanes

def rotateLanes (lanes b : BigUint64Array 25) : BigUint64Array 25 :=
  (List.finRange 5).foldl (fun b x => (List.finRange 5).foldl (fun b y =>
    b.store (lane y (2 * x + 3 * y)) (rotl (lanes.at (lane x y)) (ROTATIONS.at (lane x y)))) b) b

def mixRows (b lanes : BigUint64Array 25) : BigUint64Array 25 :=
  (List.finRange 5).foldl (fun lanes y => (List.finRange 5).foldl (fun lanes x =>
    lanes.store (lane x y) (Int.xor (b.at (lane x y))
      (Int.land (Int.lnot (b.at (lane (x + 1) y))) (b.at (lane (x + 2) y))))) lanes) lanes

/-- The lanes, and the two arrays that are reused from round to round. -/
structure Permuting where
  lanes : BigUint64Array 25
  c : BigUint64Array 5
  b : BigUint64Array 25

def permuteRound (s : Permuting) (round : Fin ROUNDS) : Permuting :=
  let c := columns s.lanes s.c
  let lanes := mixColumns c s.lanes
  let b := rotateLanes lanes s.b
  let lanes := mixRows b lanes
  { lanes := lanes.store 0 (Int.xor (lanes.at 0) (ROUND_CONSTANTS.at round)), c, b }

def permute (lanes : BigUint64Array 25) : BigUint64Array 25 :=
  ((List.finRange ROUNDS).foldl permuteRound
    ⟨lanes, Vector.replicate 5 0, Vector.replicate 25 0⟩).lanes

end Permute

/-- `getBigUint64`, little-endian. -/
def getBigUint64 (bytes : Bytes) (offset : Nat) : Int :=
  fromLeBytes ((bytes.drop offset).take 8)

/-- The input, a byte of one, zeros, and the last byte's highest bit. -/
def padded (input : Bytes) : Bytes :=
  let size := (input.length / RATE + 1) * RATE
  let zeroed := input ++ List.replicate (size - input.length) 0
  let marked := zeroed.set input.length 0x01
  marked.set (size - 1) (marked.getD (size - 1) 0 ||| 0x80)

/-- A lane that a block reaches. -/
def blockLane (i : Fin (RATE / 8)) : Fin 25 := i.castLE (by decide)

def absorbLanes (bytes : Bytes) (lanes : BigUint64Array 25) (offset : Nat) : BigUint64Array 25 :=
  (List.finRange (RATE / 8)).foldl (fun lanes i =>
    lanes.store (blockLane i)
      (Int.xor (lanes.at (blockLane i)) (getBigUint64 bytes (offset + i.val * 8)))) lanes

def keccak256 (input : Bytes) : Bytes :=
  let bytes := padded input
  let lanes := (List.range (bytes.length / RATE)).foldl
    (fun lanes i => permute (absorbLanes bytes lanes (i * RATE))) (Vector.replicate 25 0)
  (List.finRange 4).flatMap fun i => leBytes 8 (lanes.get (i.castLE (show 4 ≤ 25 by decide))).toNat

/-! The seed of a request and the address that answers it. -/

inductive VrfDomain where
  | round
  | epoch
  deriving DecidableEq, Repr

/-- `Buffer.from(domain)`. -/
def VrfDomain.bytes : VrfDomain → Bytes
  | .round => "round".toUTF8.toList
  | .epoch => "epoch".toUTF8.toList

/-- `writeBigUInt64LE` refuses what does not fit. -/
def writeBigUInt64LE (value : Nat) : Except String Bytes :=
  if value < 2 ^ 64 then .ok (leBytes 8 value) else .error "ERR_OUT_OF_RANGE"

def vrfSeed (domain : VrfDomain) (pool : Pubkey) (id : Nat) (nonce : Bytes) :
    Except String Bytes := do
  let idLe ← writeBigUInt64LE id
  return keccak256 (domain.bytes ++ pool.toBytes ++ idLe ++ nonce)

def SEED_TEST_VRF : Bytes := "test-vrf".toUTF8.toList
def SEED_ORAO_REQUEST : Bytes := "orao-vrf-randomness-request".toUTF8.toList

/-- Address the program will check the randomness account against. -/
def randomnessAddress (rt : Runtime) (programId : Pubkey) (seed : Bytes) (testVrf : Bool) : Pubkey :=
  if testVrf then rt.findProgramAddress [SEED_TEST_VRF, seed] programId
  else rt.findProgramAddress [SEED_ORAO_REQUEST, seed] ORAO_VRF_PROGRAM_ID

end Vrf

end HexVault
