import HexVault.Program.Events
import HexVault.Program.Touch

/-!
Everything one pool owns on chain, and the account and token checks the
instructions share. Two token accounts belong to the pool, the principal and the
jackpot vault; any other one appears only as an argument of an instruction.
-/

namespace HexVault

open Fallible

structure World where
  /-- The Pool's own address. -/
  key : Pubkey
  pool : Pool
  players : Finmap fun _ : Pubkey => Player
  epochs : Finmap fun _ : Nat => Epoch
  rounds : Finmap fun _ : Nat => Round
  positions : Finmap fun _ : Nat × Pubkey => Position
  principalVault : Nat
  jackpotVault : Nat
  clock : Int
  /-- What the instructions emitted, oldest first. -/
  log : List Event

def ensure (p : Prop) [Decidable p] (e : HexVaultError) : Result Unit :=
  require p (.vault e)

def constraint (p : Prop) [Decidable p] (e : AnchorError) : Result Unit :=
  require p (.anchor e)

theorem ensure_eq_ok {p : Prop} [Decidable p] {e : HexVaultError} {u : Unit} :
    ensure p e = .ok u ↔ p := require_eq_ok

theorem constraint_eq_ok {p : Prop} [Decidable p] {e : AnchorError} {u : Unit} :
    constraint p e = .ok u ↔ p := require_eq_ok

theorem ensure_eq_error {p : Prop} [Decidable p] {e : HexVaultError} {e' : ProgramError} :
    ensure p e = .error e' ↔ ¬ p ∧ .vault e = e' := require_eq_error

namespace World
variable (w : World)

def player (owner : Pubkey) : Result Player :=
  load (w.players.lookup owner) (.anchor .accountNotInitialized)

def epoch (id : Nat) : Result Epoch :=
  load (w.epochs.lookup id) (.anchor .accountNotInitialized)

def round (id : Nat) : Result Round :=
  load (w.rounds.lookup id) (.anchor .accountNotInitialized)

def position (round : Nat) (owner : Pubkey) : Result Position :=
  load (w.positions.lookup (round, owner)) (.anchor .accountNotInitialized)

def emit (events : List Event) : World := { w with log := w.log ++ events }

section Emit
variable (es : List Event)

@[simp] theorem emit_key : (w.emit es).key = w.key := rfl
@[simp] theorem emit_pool : (w.emit es).pool = w.pool := rfl
@[simp] theorem emit_players : (w.emit es).players = w.players := rfl
@[simp] theorem emit_epochs : (w.emit es).epochs = w.epochs := rfl
@[simp] theorem emit_rounds : (w.emit es).rounds = w.rounds := rfl
@[simp] theorem emit_positions : (w.emit es).positions = w.positions := rfl
@[simp] theorem emit_principalVault : (w.emit es).principalVault = w.principalVault := rfl
@[simp] theorem emit_jackpotVault : (w.emit es).jackpotVault = w.jackpotVault := rfl
@[simp] theorem emit_clock : (w.emit es).clock = w.clock := rfl

end Emit

end World

theorem World.player_eq_ok {w : World} {owner : Pubkey} {p : Player} :
    w.player owner = .ok p ↔ w.players.lookup owner = some p := load_eq_ok

theorem World.player_eq_error {w : World} {owner : Pubkey} {e : ProgramError} :
    w.player owner = .error e ↔
      w.players.lookup owner = none ∧ .anchor .accountNotInitialized = e := load_eq_error

theorem World.epoch_eq_error {w : World} {id : Nat} {e : ProgramError} :
    w.epoch id = .error e ↔
      w.epochs.lookup id = none ∧ .anchor .accountNotInitialized = e := load_eq_error

theorem World.epoch_eq_ok {w : World} {id : Nat} {e : Epoch} :
    w.epoch id = .ok e ↔ w.epochs.lookup id = some e := load_eq_ok

theorem World.round_eq_ok {w : World} {id : Nat} {r : Round} :
    w.round id = .ok r ↔ w.rounds.lookup id = some r := load_eq_ok

theorem World.position_eq_ok {w : World} {round : Nat} {owner : Pubkey} {x : Position} :
    w.position round owner = .ok x ↔ w.positions.lookup (round, owner) = some x := load_eq_ok

/-- The constraints on a token account whose owner signs the transfer out of it. -/
def checkSource (pool : Pool) (owner : Signer) (source : TokenAccount) : Result Unit := do
  constraint (source.mint = pool.acceptedMint) .constraintTokenMint
  constraint (source.authority = owner.key) .constraintTokenOwner

/-- The constraints on a token account a Player is paid into. -/
def checkDestination (pool : Pool) (owner : Pubkey) (target : TokenAccount) : Result Unit := do
  constraint (target.mint = pool.acceptedMint) .constraintTokenMint
  constraint (target.authority = owner) .constraintTokenOwner

/-- `transfer_checked` from a wallet's account into a vault. -/
def transferIn (source : TokenAccount) (amount vault : Nat) : Result Nat := do
  require (amount ≤ source.amount) (.token .insufficientFunds)
  checkedAdd u64Limit (.token .overflow) vault amount

/-- `transfer_checked` out of a vault. -/
def transferOut (amount vault : Nat) : Result Nat :=
  checkedSub (.token .insufficientFunds) vault amount

theorem checkDestination_eq_ok {pool : Pool} {owner : Pubkey} {target : TokenAccount} {u : Unit} :
    checkDestination pool owner target = .ok u ↔
      target.mint = pool.acceptedMint ∧ target.authority = owner := by
  simp only [checkDestination, bind_eq_ok, constraint_eq_ok, exists_const]

theorem transferIn_eq_ok {source : TokenAccount} {amount vault vault' : Nat} :
    transferIn source amount vault = .ok vault' ↔
      amount ≤ source.amount ∧ vault + amount < u64Limit ∧ vault' = vault + amount := by
  simp only [transferIn, bind_eq_ok, require_eq_ok, checkedAdd_eq_ok]
  exact ⟨fun ⟨_, h, hv⟩ => ⟨h, hv⟩, fun ⟨h, hv⟩ => ⟨(), h, hv⟩⟩

theorem transferOut_eq_ok {amount vault vault' : Nat} :
    transferOut amount vault = .ok vault' ↔ amount ≤ vault ∧ vault' = vault - amount :=
  checkedSub_eq_ok

end HexVault
