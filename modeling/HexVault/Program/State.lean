import HexVault.Lib.Fallible
import HexVault.Lib.FinmapTotal
import HexVault.Program.Errors

/-!
Account layouts of one pool: the Pool, its Epochs, Rounds, Players and
Positions. Program addresses are represented by the seeds they are derived
from, so a Player account is named by its owner, an Epoch or a Round by its id
and a Position by its round and owner. Bumps, versions and reserved padding are
left out: no handler's result depends on them.

Unsigned fields are natural numbers and signed ones integers; every operation
the program checks for overflow is checked here against the width of its type.
-/

namespace HexVault

open Fallible

abbrev Bytes := List UInt8

/-- A 32-byte key, read as a little-endian number. -/
structure Pubkey where
  val : Nat
  deriving DecidableEq, Repr

theorem Pubkey.val_injective : Function.Injective Pubkey.val := by
  intro a b same
  cases a
  cases b
  cases same
  rfl

/-- The key nobody holds. -/
def Pubkey.default : Pubkey := ⟨0⟩

/-- A key whose holder signed the transaction. -/
structure Signer where
  key : Pubkey
  held : key ≠ Pubkey.default

def u32Limit : Nat := 2 ^ 32
def u64Limit : Nat := 2 ^ 64
def u128Limit : Nat := 2 ^ 128
def i64Limit : Int := 2 ^ 63

/-- A value of an `i64`. -/
def IsI64 (x : Int) : Prop := -i64Limit ≤ x ∧ x < i64Limit

instance (x : Int) : Decidable (IsI64 x) := inferInstanceAs (Decidable (_ ∧ _))

def addU32 (a b : Nat) : Result Nat :=
  checkedAdd u32Limit (.vault .arithmeticOverflow) a b
def addU64 (a b : Nat) : Result Nat :=
  checkedAdd u64Limit (.vault .arithmeticOverflow) a b
def addU128 (a b : Nat) : Result Nat :=
  checkedAdd u128Limit (.vault .arithmeticOverflow) a b
def subU (a b : Nat) : Result Nat :=
  checkedSub (.vault .arithmeticOverflow) a b
def mulU64 (a b : Nat) : Result Nat :=
  checkedMul u64Limit (.vault .arithmeticOverflow) a b
def mulU128 (a b : Nat) : Result Nat :=
  checkedMul u128Limit (.vault .arithmeticOverflow) a b
def narrowU64 (a : Nat) : Result Nat :=
  narrow u64Limit (.vault .arithmeticOverflow) a
def addI64 (a b : Int) : Result Int :=
  checkedSigned i64Limit (.vault .arithmeticOverflow) (a + b)
def subI64 (a b : Int) : Result Int :=
  checkedSigned i64Limit (.vault .arithmeticOverflow) (a - b)
def mulI64 (a b : Int) : Result Int :=
  checkedSigned i64Limit (.vault .arithmeticOverflow) (a * b)

theorem addU64_eq_ok {a b c : Nat} : addU64 a b = .ok c ↔ a + b < u64Limit ∧ c = a + b :=
  checkedAdd_eq_ok

theorem addU32_eq_ok {a b c : Nat} : addU32 a b = .ok c ↔ a + b < u32Limit ∧ c = a + b :=
  checkedAdd_eq_ok

theorem addU128_eq_ok {a b c : Nat} : addU128 a b = .ok c ↔ a + b < u128Limit ∧ c = a + b :=
  checkedAdd_eq_ok

theorem mulU64_eq_ok {a b c : Nat} : mulU64 a b = .ok c ↔ a * b < u64Limit ∧ c = a * b :=
  checkedMul_eq_ok

theorem mulU128_eq_ok {a b c : Nat} : mulU128 a b = .ok c ↔ a * b < u128Limit ∧ c = a * b :=
  checkedMul_eq_ok

theorem subU_eq_ok {a b c : Nat} : subU a b = .ok c ↔ b ≤ a ∧ c = a - b :=
  checkedSub_eq_ok

theorem narrowU64_eq_ok {a c : Nat} : narrowU64 a = .ok c ↔ a < u64Limit ∧ c = a :=
  narrow_eq_ok

theorem addI64_eq_ok {a b c : Int} :
    addI64 a b = .ok c ↔ (-i64Limit ≤ a + b ∧ a + b < i64Limit) ∧ c = a + b :=
  checkedSigned_eq_ok

theorem subI64_eq_ok {a b c : Int} :
    subI64 a b = .ok c ↔ (-i64Limit ≤ a - b ∧ a - b < i64Limit) ∧ c = a - b :=
  checkedSigned_eq_ok

theorem mulI64_eq_ok {a b c : Int} :
    mulI64 a b = .ok c ↔ (-i64Limit ≤ a * b ∧ a * b < i64Limit) ∧ c = a * b :=
  checkedSigned_eq_ok

/-- `saturating_sub` on `i64`. -/
def saturatingSub (a b : Int) : Int :=
  max (-i64Limit) (min (a - b) (i64Limit - 1))

def TILE_COUNT : Nat := 36
def TILE_MASK : BitVec 64 := BitVec.ofNat 64 (2 ^ TILE_COUNT - 1)
def BPS_DENOMINATOR : Nat := 10000
def SECONDS_PER_YEAR : Nat := 31536000
/-- The floor of a production build. -/
def MIN_VRF_TIMEOUT : Int := 60
/-- The floor of a production build. -/
def MIN_PAYOUT_TIMEOUT : Int := 600

inductive EpochStatus where
  | «open» | registering | drawing | drawn | paid | rolledOver
  deriving DecidableEq, Repr

inductive RoundStatus where
  | «open» | requested | settled | forfeited | voided
  deriving DecidableEq, Repr

structure Pool where
  poolId : Nat
  admin : Pubkey
  operator : Pubkey
  pendingAdmin : Pubkey
  acceptedMint : Pubkey
  treasury : Pubkey
  buybackReserve : Pubkey
  /-- The House `Player`, named by the owner in its seeds. -/
  house : Pubkey
  epochSeconds : Int
  epochAnchor : Int
  roundSeconds : Int
  closeBuffer : Int
  vrfTimeout : Int
  minDeposit : Nat
  houseCutBps : Nat
  paused : Bool
  currentEpochId : Nat
  currentEpochStart : Int
  currentEpochEndsAt : Int
  previousEpochStart : Int
  previousEpochEndsAt : Int
  nextRoundId : Nat
  openRoundId : Nat
  carryPot : Nat
  totalPrincipal : Nat
  pendingWithdrawals : Nat
  minJackpot : Nat
  registrationWindow : Int
  payoutTimeout : Int
  jackpotReserved : Nat
  baseRateBps : Nat
  yieldBudget : Nat
  ticketsPerUsdc : Nat
  bonusCapBps : Nat
  bonusEpoch : Nat
  bonusGranted : Nat
  shutdown : Bool
  gamePaused : Bool
  jackpotPaused : Bool
  deriving DecidableEq, Repr

structure Epoch where
  epochId : Nat
  startsAt : Int
  endsAt : Int
  status : EpochStatus
  registeredWeight : Nat
  registeredCount : Nat
  jackpotAmount : Nat
  vrfSeed : Bytes
  requestedAt : Int
  target : Nat
  winner : Pubkey
  drawnAt : Int
  registrationOpenedAt : Int
  deriving DecidableEq, Repr

structure Round where
  roundId : Nat
  epochId : Nat
  startsAt : Int
  endsAt : Int
  status : RoundStatus
  tileTotals : Fin TILE_COUNT → Nat
  pot : Nat
  houseCut : Nat
  vrfSeed : Bytes
  requestedAt : Int
  winningTile : Nat
  openPositions : Nat

structure Player where
  owner : Pubkey
  principal : Nat
  entries : Nat
  weightAcc : Nat
  lastUpdate : Int
  epochId : Nat
  frozenWeight : Nat
  frozenEpoch : Nat
  regEpoch : Nat
  regStart : Nat
  regEnd : Nat
  isHouse : Bool
  pendingWithdraw : Nat
  pendingEpoch : Nat
  requestedAt : Int
  principalAcc : Nat
  frozenPrincipalAcc : Nat
  yieldEpoch : Nat
  boughtEpoch : Nat
  boughtAmount : Nat
  bonusEpoch : Nat
  bonusGranted : Nat
  deriving DecidableEq, Repr

structure Position where
  owner : Pubkey
  /-- The round the Position is on, by id. -/
  round : Nat
  tiles : BitVec 64
  stakePerTile : Nat
  deriving DecidableEq, Repr

/-- A token account handed to an instruction, other than the pool's own vaults:
those are held by the pool's address, which signs for nobody. -/
structure TokenAccount where
  mint : Pubkey
  authority : Pubkey
  amount : Nat
  deriving DecidableEq, Repr

/-- A zeroed account, as `init_if_needed` hands it over. -/
def Player.zeroed : Player where
  owner := Pubkey.default
  principal := 0
  entries := 0
  weightAcc := 0
  lastUpdate := 0
  epochId := 0
  frozenWeight := 0
  frozenEpoch := 0
  regEpoch := 0
  regStart := 0
  regEnd := 0
  isHouse := false
  pendingWithdraw := 0
  pendingEpoch := 0
  requestedAt := 0
  principalAcc := 0
  frozenPrincipalAcc := 0
  yieldEpoch := 0
  boughtEpoch := 0
  boughtAmount := 0
  bonusEpoch := 0
  bonusGranted := 0

/-- Fills a freshly initialised account, and leaves an existing one alone. -/
def Player.initIfFresh (player : Player) (owner : Pubkey) (pool : Pool) (now : Int) : Player :=
  if player.owner ≠ Pubkey.default then player
  else { player with owner := owner, lastUpdate := now, epochId := pool.currentEpochId }

def Round.tileTotal (round : Round) (tile : Nat) : Result Nat :=
  if h : tile < TILE_COUNT then .ok (round.tileTotals ⟨tile, h⟩)
  else .error (.vault .invalidTileSelection)

def Round.addToTile (round : Round) (tile : Fin TILE_COUNT) (amount : Nat) : Result Round := do
  let slot ← addU64 (round.tileTotals tile) amount
  return { round with tileTotals := Function.update round.tileTotals tile slot }

end HexVault
