import HexVault.Program.State

/-!
Tile masks, randomness seeds and the reading of ORAO's request account. Hash
functions and address derivation are parameters: no result depends on more than
their being functions.
-/

namespace HexVault

open Fallible

/-- What the runtime and the hash crates provide. -/
structure Runtime where
  keccak : Bytes → Bytes
  sha256 : Bytes → Bytes
  findProgramAddress : List Bytes → Pubkey → Pubkey

/-- Little-endian bytes of a number. -/
def leBytes (width value : Nat) : Bytes :=
  (List.range width).map fun i => UInt8.ofNat (value / 256 ^ i % 256)

/-- The number a little-endian byte string denotes. -/
def fromLeBytes (bytes : Bytes) : Nat :=
  bytes.foldr (fun byte rest => byte.toNat + 256 * rest) 0

def Pubkey.toBytes (key : Pubkey) : Bytes := leBytes 32 key.val

/-! Tile masks. -/

def countOnes (mask : BitVec 64) : Nat :=
  (List.range 64).countP fun bit => mask.getLsbD bit

def tileCount (mask : BitVec 64) : Result Nat := do
  require (mask ≠ 0 ∧ mask &&& ~~~TILE_MASK = 0) (.vault .invalidTileSelection)
  return countOnes mask

def tileIsCovered (mask : BitVec 64) (tile : Nat) : Bool :=
  decide (tile < TILE_COUNT) && mask.getLsbD tile

/-! Randomness accounts. -/

section Vrf
variable (rt : Runtime)

def vrfSeed (domain : Bytes) (pool : Pubkey) (id : Nat) (nonce : Bytes) : Bytes :=
  rt.keccak (domain ++ pool.toBytes ++ leBytes 8 id ++ nonce)

def ROUND_DOMAIN : Bytes := "round".toUTF8.toList
def EPOCH_DOMAIN : Bytes := "epoch".toUTF8.toList

/-- An account as a handler sees it; one that does not exist has no data. -/
structure AccountInfo where
  key : Pubkey
  data : Bytes

def ORAO_REQUEST_SEED : Bytes := "orao-vrf-randomness-request".toUTF8.toList

/-- `VRFzZoJdhFWL8rkvu87LpKM3RbcVezpMEc6X5GVDr7y`. -/
def ORAO_VRF_PROGRAM_ID : Pubkey :=
  ⟨0x78fccef5587ba4324ff3bea429213bb2dac1ba0e7bf222f9d1b491fa1ab14707⟩

def oraoRequestAddress (seed : Bytes) : Pubkey :=
  rt.findProgramAddress [ORAO_REQUEST_SEED, seed] ORAO_VRF_PROGRAM_ID

def randomnessAddress (seed : Bytes) : Pubkey := oraoRequestAddress rt seed

def randomnessDiscriminator : Bytes :=
  (rt.sha256 "account:RandomnessV2".toUTF8.toList).take 8

def FULFILLED_LEN : Nat := 8 + 1 + 32 + 32 + 64

def parseFulfilled (data : Bytes) : Result Bytes := do
  require (FULFILLED_LEN ≤ data.length) (.vault .invalidRandomnessAccount)
  require (data.take 8 = randomnessDiscriminator rt) (.vault .invalidRandomnessAccount)
  require (data[8]? = some 1) (.vault .randomnessNotFulfilled)
  -- `copy_from_slice` panics unless what is left is exactly 64 bytes.
  let rest := data.drop (FULFILLED_LEN - 64)
  require (rest.length = 64) .abort
  return rest

def readFulfilled (account : AccountInfo) (seed : Bytes) : Result Bytes := do
  require (account.key = randomnessAddress rt seed) (.vault .invalidRandomnessAccount)
  parseFulfilled rt account.data

/-- `read_fulfilled(..).is_ok()`: an error is a no, a panic is still a panic. -/
def isFulfilled (account : AccountInfo) (seed : Bytes) : Result Bool :=
  match readFulfilled rt account seed with
  | .ok _ => .ok true
  | .error .abort => .error .abort
  | .error _ => .ok false

/-! Mapping a randomness to a range without bias. -/

def rederive (randomness : Bytes) (counter : Nat) : Bytes :=
  rt.sha256 (randomness ++ [UInt8.ofNat counter])

/-- The sample of the given width that try number `counter` looks at. -/
def sample (width : Nat) (randomness : Bytes) (counter : Nat) : Nat :=
  if counter = 0 then fromLeBytes (randomness.take width)
  else fromLeBytes ((rederive rt randomness counter).take width)

/-- The loop of both mappings; `fuel` is how many values of the `u8` counter are left. -/
def unbiasedLoop (draw : Nat → Nat) (limit range : Nat) : Nat → Nat → Result Nat
  | 0, _ => .error (.vault .randomnessRejection)
  | fuel + 1, counter =>
      if draw counter < limit then .ok (draw counter % range)
      else unbiasedLoop draw limit range fuel (counter + 1)

def unbiased (width : Nat) (randomness : Bytes) (range : Nat) : Result Nat := do
  require (0 < range) (.vault .randomnessRejection)
  let top := 256 ^ width - 1
  unbiasedLoop (sample rt width randomness) (top - top % range) range 256 0

def unbiasedU64 (randomness : Bytes) (range : Nat) : Result Nat :=
  unbiased rt 8 randomness range

def unbiasedU128 (randomness : Bytes) (range : Nat) : Result Nat :=
  unbiased rt 16 randomness range

variable {rt}

theorem unbiasedLoop_lt {draw : Nat → Nat} {limit range : Nat} (positive : 0 < range)
    (fuel counter : Nat) {r : Nat}
    (h : unbiasedLoop draw limit range fuel counter = .ok r) : r < range := by
  induction fuel generalizing counter with
  | zero => exact nomatch h
  | succ fuel ih =>
      simp only [unbiasedLoop] at h
      split at h
      · cases h
        exact Nat.mod_lt _ positive
      · exact ih (counter + 1) h

theorem unbiased_lt {width : Nat} {randomness : Bytes} {range r : Nat}
    (h : unbiased rt width randomness range = .ok r) : r < range := by
  obtain ⟨_, hp, h⟩ := bind_eq_ok.mp h
  exact unbiasedLoop_lt (require_eq_ok.mp hp) 256 0 h

variable (rt) in
/-- One of the 256 values the mapping looks at is below its limit. -/
def acceptsSample (width : Nat) (randomness : Bytes) (range : Nat) : Prop :=
  ∃ counter < 256, sample rt width randomness counter <
    256 ^ width - 1 - (256 ^ width - 1) % range

theorem unbiasedLoop_returns {draw : Nat → Nat} {limit range fuel start counter : Nat}
    (hstart : start ≤ counter) (hfuel : counter < start + fuel) (h : draw counter < limit) :
    Returns (unbiasedLoop draw limit range fuel start) := by
  induction fuel generalizing start with
  | zero => omega
  | succ fuel ih =>
      simp only [unbiasedLoop]
      split
      · exact .pure _
      · rename_i rejected
        have later : start ≠ counter := fun same => rejected (same ▸ h)
        exact ih (by omega) (by omega)

theorem unbiased_returns {width : Nat} {randomness : Bytes} {range : Nat}
    (h : acceptsSample rt width randomness range) :
    Returns (unbiased rt width randomness range) := by
  obtain ⟨counter, few, accepted⟩ := h
  have positive : 0 < range := by
    refine Nat.pos_of_ne_zero ?_
    rintro rfl
    rw [Nat.mod_zero, Nat.sub_self] at accepted
    exact absurd accepted (Nat.not_lt_zero _)
  exact .guard positive (unbiasedLoop_returns (Nat.zero_le _) (by omega) accepted)

end Vrf

end HexVault
