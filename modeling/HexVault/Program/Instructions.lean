import HexVault.Lib.Runs
import HexVault.Program.Custody
import HexVault.Program.Epochs
import HexVault.Program.Rounds

/-!
One step of a pool's life: an instruction by whoever sends it, a plain token
transfer into one of the vaults, or the runtime's clock moving on. A failed
instruction is rolled back as a whole, so it is no step at all.
-/

namespace HexVault

open Fallible Runs

inductive Action where
  | wait (instant : Int)
  | transferToPrincipalVault (amount : Nat)
  | transferToJackpotVault (amount : Nat)
  | setParams (admin : Signer) (args : SetParamsArgs)
  | setPause (signer : Signer) (paused : Bool)
  | setFeaturePause (signer : Signer) (feature : PauseFeature) (paused : Bool)
  | shutdown (admin : Signer)
  | setOperator (admin : Signer) (newOperator : Pubkey)
  | proposeAdmin (admin : Signer) (newAdmin : Pubkey)
  | acceptAdmin (pendingAdmin : Signer)
  | deposit (owner : Signer) (ownerToken : TokenAccount) (amount : Nat)
  | requestWithdraw (owner : Signer) (amount : Nat)
  | processWithdraw (owner : Pubkey) (ownerToken : TokenAccount)
  | adminWithdraw (admin : Signer) (amount : Nat)
  | emergencyWithdraw (owner : Pubkey) (ownerToken : TokenAccount)
  | sweepHouse (admin : Signer)
  | buyTickets (owner : Signer) (ownerToken : TokenAccount) (amount : Nat)
  | grantTickets (signer : Signer) (owner : Pubkey) (amount : Nat)
  | createRound (operator : Signer) (startsAt endsAt : Int)
  | buyPosition (owner : Signer) (roundId : Nat) (tiles : BitVec 64) (stakePerTile : Nat)
  | requestRoundRandomness (roundId : Nat) (randomness : Pubkey) (nonce : Bytes)
  | settleRound (roundId : Nat) (randomness : AccountInfo)
  | settlePosition (roundId : Nat) (owner : Pubkey)
  | voidRound (roundId : Nat) (randomness : AccountInfo)
  | closeRound (operator : Pubkey) (roundId : Nat)
  | beginEpoch (operator : Signer)
  | register (epochId : Nat) (owner : Pubkey)
  | fundJackpot (authority : Signer) (source : TokenAccount) (amount : Nat)
  | fundYield (authority : Signer) (source : TokenAccount) (amount : Nat)
  | closeRegistration (operator : Signer) (epochId : Nat) (randomness : Pubkey)
      (nonce : Bytes)
  | draw (epochId : Nat) (randomness : AccountInfo)
  | payout (epochId : Nat) (owner : Pubkey)
  | rolloverEpoch (epochId : Nat) (randomness : AccountInfo)

/-- The clock never runs backwards and stays within its type. -/
def wait (instant : Int) (w : World) : Result World := do
  require (w.clock ≤ instant ∧ instant < i64Limit) .runtime
  return { w with clock := instant }

def transferToPrincipalVault (amount : Nat) (w : World) : Result World := do
  let principalVault ← checkedAdd u64Limit (.token .overflow) w.principalVault amount
  return { w with principalVault }

def transferToJackpotVault (amount : Nat) (w : World) : Result World := do
  let jackpotVault ← checkedAdd u64Limit (.token .overflow) w.jackpotVault amount
  return { w with jackpotVault }

section Runtime
variable (rt : Runtime)

def perform : Action → World → Result World
  | .wait instant => wait instant
  | .transferToPrincipalVault amount => transferToPrincipalVault amount
  | .transferToJackpotVault amount => transferToJackpotVault amount
  | .setParams admin args => setParams admin args
  | .setPause signer paused => setPause signer paused
  | .setFeaturePause signer feature paused => setFeaturePause signer feature paused
  | .shutdown admin => shutdown admin
  | .setOperator admin newOperator => setOperator admin newOperator
  | .proposeAdmin admin newAdmin => proposeAdmin admin newAdmin
  | .acceptAdmin pendingAdmin => acceptAdmin pendingAdmin
  | .deposit owner ownerToken amount => deposit owner ownerToken amount
  | .requestWithdraw owner amount => requestWithdraw owner amount
  | .processWithdraw owner ownerToken => processWithdraw owner ownerToken
  | .adminWithdraw admin amount => adminWithdraw admin amount
  | .emergencyWithdraw owner ownerToken => emergencyWithdraw owner ownerToken
  | .sweepHouse admin => sweepHouse admin
  | .buyTickets owner ownerToken amount => buyTickets owner ownerToken amount
  | .grantTickets signer owner amount => grantTickets signer owner amount
  | .createRound operator startsAt endsAt => fun w => do
      require (IsI64 startsAt ∧ IsI64 endsAt) .runtime
      createRound operator startsAt endsAt w
  | .buyPosition owner roundId tiles stakePerTile => buyPosition owner roundId tiles stakePerTile
  | .requestRoundRandomness roundId randomness nonce =>
      requestRoundRandomness rt roundId randomness nonce
  | .settleRound roundId randomness => settleRound rt roundId randomness
  | .settlePosition roundId owner => settlePosition roundId owner
  | .voidRound roundId randomness => voidRound rt roundId randomness
  | .closeRound operator roundId => closeRound operator roundId
  | .beginEpoch operator => beginEpoch operator
  | .register epochId owner => register epochId owner
  | .fundJackpot authority source amount => fundJackpot authority source amount
  | .fundYield authority source amount => fundYield authority source amount
  | .closeRegistration operator epochId randomness nonce =>
      closeRegistration rt operator epochId randomness nonce
  | .draw epochId randomness => draw rt epochId randomness
  | .payout epochId owner => payout epochId owner
  | .rolloverEpoch epochId randomness => rolloverEpoch rt epochId randomness

/-- A step: an action that succeeded. -/
def Step (w : World) (a : Action) (w' : World) : Prop := perform rt a w = .ok w'

/-- A pool as `create_pool` leaves it; the clock is a Unix time. -/
def Created (w : World) : Prop :=
  ∃ params accounts now, 0 ≤ now ∧ now < i64Limit ∧ createPool params accounts now = .ok w

abbrev History := List (World × Action)

/-- A run from `create_pool`: its history and the world it has reached. -/
def Run (history : History) (w : World) : Prop :=
  ∃ start, Created start ∧ Steps (Step rt) start history w

/-- The actions of a list taken in turn, with the history they make. -/
def replay : List Action → History × World → Result (History × World)
  | [], state => .ok state
  | a :: rest, (history, w) => do
      let w' ← perform rt a w
      replay rest ((w, a) :: history, w')

def Reachable (w : World) : Prop := ∃ history, Run rt history w

end Runtime

section Rules
variable {rt : Runtime} {history : History} {w : World}

theorem createRound_step {operator : Signer} {startsAt endsAt : Int} {w' : World} :
    Step rt w (.createRound operator startsAt endsAt) w' ↔
      (IsI64 startsAt ∧ IsI64 endsAt) ∧ createRound operator startsAt endsAt w = .ok w' := by
  simp only [Step, perform, bind_eq_ok, require_eq_ok, exists_const]

theorem Run.invariant {P : History → World → Prop}
    (base : ∀ {start}, Created start → P [] start)
    (kept : ∀ {history w a w'}, Run rt history w → P history w → Step rt w a w' →
      P ((w, a) :: history) w')
    (run : Run rt history w) : P history w := by
  obtain ⟨start, created, steps⟩ := run
  refine steps.invariant (base created) ?_
  intro history t a u before hp h
  exact kept ⟨start, created, before⟩ hp h

theorem Run.invariantWhile {C : World × Action → Prop} {P : History → World → Prop}
    (base : ∀ {start}, Created start → P [] start)
    (kept : ∀ {history w a w'}, Run rt history w → P history w → C (w, a) →
      Step rt w a w' → P ((w, a) :: history) w')
    (run : Run rt history w) (all : ∀ x ∈ history, C x) : P history w := by
  obtain ⟨start, created, steps⟩ := run
  refine steps.invariantWhile (base created) ?_ all
  intro history t a u before hp hc h
  exact kept ⟨start, created, before⟩ hp hc h

theorem Run.next {a : Action} {w' : World} (run : Run rt history w) (h : Step rt w a w') :
    Run rt ((w, a) :: history) w' := by
  obtain ⟨start, created, steps⟩ := run
  exact ⟨start, created, steps.next h⟩

theorem replay_steps {start w' : World} {actions : List Action} {history' : History}
    (steps : Steps (Step rt) start history w)
    (h : replay rt actions (history, w) = .ok (history', w')) :
    Steps (Step rt) start history' w' := by
  refine Steps.fold Except.ok Except.ok.inj ?_ steps h
  intro a rest history t final h
  obtain ⟨v, hv, h⟩ := bind_eq_ok.mp h
  exact ⟨a, v, hv, h⟩

theorem Run.reachable (run : Run rt history w) : Reachable rt w := ⟨history, run⟩

theorem Reachable.invariant {P : World → Prop} (base : ∀ {start}, Created start → P start)
    (kept : ∀ {w a w'}, Reachable rt w → P w → Step rt w a w' → P w')
    (h : Reachable rt w) : P w := by
  obtain ⟨history, run⟩ := h
  exact run.invariant (P := fun _ w => P w) base fun before hp hs =>
    kept before.reachable hp hs

theorem Reachable.next {a : Action} {w' : World} (h : Reachable rt w) (hs : Step rt w a w') :
    Reachable rt w' := by
  obtain ⟨history, run⟩ := h
  exact ⟨_, run.next hs⟩

end Rules

/-! A small pool to run statements on: 100-second epochs, 10-second rounds. -/

namespace Demo

def runtime : Runtime where
  keccak := fun _ => List.replicate 32 0
  sha256 := fun _ => List.replicate 32 0
  findProgramAddress := fun _ _ => ⟨9⟩

def signer (key : Nat) (h : (key != 0) = true := by exact Eq.refl true) : Signer where
  key := ⟨key⟩
  held := fun eq => bne_iff_ne.mp h (congrArg Pubkey.val eq)

def admin : Signer := signer 1
def operator : Signer := signer 2

def params : CreatePoolParams where
  poolId := 0
  admin := admin.key
  operator := operator.key
  epochSeconds := 100
  epochAnchor := 1000
  roundSeconds := 10
  closeBuffer := 2
  vrfTimeout := 60
  minDeposit := 1
  houseCutBps := 0
  minJackpot := 1
  registrationWindow := 0
  payoutTimeout := 600
  baseRateBps := 0
  ticketsPerUsdc := 1
  bonusCapBps := 0

def accounts : CreatePoolAccounts where
  pool := ⟨100⟩
  acceptedMint := ⟨50⟩
  mintIsClassic := true
  treasury := ⟨101⟩
  treasuryMint := ⟨50⟩
  buybackReserve := ⟨102⟩
  buybackReserveMint := ⟨50⟩

/-- A wallet's account of the accepted mint. -/
def wallet (owner : Signer) : TokenAccount where
  mint := ⟨50⟩
  authority := owner.key
  amount := 1000000

def setEpochSeconds (seconds : Int) : SetParamsArgs where
  epochSeconds := some seconds
  epochAnchor := none
  roundSeconds := none
  closeBuffer := none
  vrfTimeout := none
  minDeposit := none
  houseCutBps := none
  minJackpot := none
  registrationWindow := none
  payoutTimeout := none
  baseRateBps := none
  ticketsPerUsdc := none
  bonusCapBps := none

/-- The pool created at second 1000, then the actions of a list. -/
def script (actions : List Action) : Result (History × World) := do
  let start ← createPool params accounts 1000
  replay runtime actions ([], start)

theorem script_run {actions : List Action} {history : History} {w : World}
    (h : script actions = .ok (history, w)) : Run runtime history w := by
  obtain ⟨start, hs, h⟩ := bind_eq_ok.mp h
  have created : Created start := ⟨params, accounts, 1000, by decide, by decide, hs⟩
  exact ⟨start, created, replay_steps .start h⟩

end Demo

end HexVault
