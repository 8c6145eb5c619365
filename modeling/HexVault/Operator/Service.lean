import HexVault.Operator.Tick
import HexVault.Program.Instructions

/-!
The operator as it runs: a tick reads the pool's accounts and the mirror, decides,
and remembers. Between a tick's read and its transaction landing the chain goes on,
and so it does between ticks.
-/

namespace HexVault

open Fallible Runs

namespace Operator

structure Config where
  indexerFreshThresholdSeconds : Int
  launchAt : Option Int

/-- What the service keeps between ticks. -/
structure Memory where
  lastRegisterCheck : Option RegisterCheck
  lastWithdrawState : Option WithdrawState
  lastExpectedErrors : String → Option Nat
  settled : Memo Pubkey
  closingRounds : Memo Nat
  registeredRecently : Memo Pubkey

def Memory.fresh : Memory where
  lastRegisterCheck := none
  lastWithdrawState := none
  lastExpectedErrors := fun _ => none
  settled := .empty
  closingRounds := .empty
  registeredRecently := .empty

/-- What a tick reads besides the pool's own accounts: the rows of the mirror,
the oracle's answers, and how its transactions fare. -/
structure Reads where
  players : List Player
  unsettledPositions : List UnsettledPosition
  roundsToClose : List Nat
  referralGrantsDue : Nat → List Grant
  indexerCursor : IndexerCursor
  winnerOnChain : Nat → Nat → Option Pubkey
  houseAddress : Pubkey
  fulfilled : Bytes → Bool
  send : Send → Except String Unit
  wallNow : Send → Int

/-- The weight `register` would record, off a mirrored row. -/
def registrationWeight (player : Player) (epoch : Epoch) : Nat :=
  if player.epochId = epoch.epochId then
    player.weightAcc + player.entries * (epoch.endsAt - player.lastUpdate).toNat
  else if epoch.epochId < player.epochId then
    if player.frozenEpoch = epoch.epochId then player.frozenWeight else 0
  else player.principal * (epoch.endsAt - epoch.startsAt).toNat

/-- The indexer's answer: the owners still owed a `register` for an ended epoch. -/
def playersToRegister (players : List Player) (epochs : Finmap fun _ : Nat => Epoch)
    (epochId : Nat) : List Pubkey :=
  match epochs.lookup epochId with
  | none => []
  | some epoch => ((players.filter (·.regEpoch ≠ epochId)).filter
      fun player => 0 < registrationWeight player epoch).map (·.owner)

def duePendingWithdrawals (players : List Player) (currentEpochId : Nat) :
    List DueWithdrawal :=
  ((players.filter fun player =>
      0 < player.pendingWithdraw && player.pendingEpoch < currentEpochId).mergeSort
    fun p q => p.pendingEpoch ≤ q.pendingEpoch).map fun player =>
      { owner := player.owner, amount := player.pendingWithdraw }

def winner (players : List Player) (epochId target : Nat) : Option Pubkey :=
  (players.find? fun player => player.regEpoch = epochId && player.regStart ≤ target &&
    target < player.regEnd).map (·.owner)

def context (config : Config) (memory : Memory) (w : World) (reads : Reads) : TickContext where
  now := w.clock
  pool := w.pool
  currentEpoch :=
    if 0 < w.pool.currentEpochId then w.epochs.lookup w.pool.currentEpochId else none
  previousEpoch :=
    if 1 < w.pool.currentEpochId then w.epochs.lookup (w.pool.currentEpochId - 1) else none
  openRound := if 0 < w.pool.openRoundId then w.rounds.lookup w.pool.openRoundId else none
  lastRound := if 1 < w.pool.nextRoundId then w.rounds.lookup (w.pool.nextRoundId - 1) else none
  lastRegisterCheck := memory.lastRegisterCheck
  lastWithdrawState := memory.lastWithdrawState
  indexerCursor := reads.indexerCursor
  indexerFreshThresholdSeconds := config.indexerFreshThresholdSeconds
  lastExpectedErrors := memory.lastExpectedErrors
  launchAt := config.launchAt
  fulfilled := reads.fulfilled
  principalVaultBalance := w.principalVault
  duePendingWithdrawals := duePendingWithdrawals reads.players
  playersToRegister := fun epochId =>
    (playersToRegister reads.players w.epochs epochId).filter fun owner =>
      !memory.registeredRecently.has owner
  referralGrantsDue := reads.referralGrantsDue
  unsettledPositions := reads.unsettledPositions.filter fun position =>
    !memory.settled.has position.address
  roundsToClose := reads.roundsToClose.filter fun id => !memory.closingRounds.has id
  winner := winner reads.players
  winnerOnChain := reads.winnerOnChain
  houseAddress := reads.houseAddress
  send := reads.send
  wallNow := reads.wallNow

/-- A tick that has done nothing yet. -/
def Memory.tick (memory : Memory) : Tick where
  stepError := none
  expectedErrors := memory.lastExpectedErrors
  expectedErrorsChanged := false
  withdrawState := none
  withdrawShortfall := 0
  settled := memory.settled
  closingRounds := memory.closingRounds
  registeredRecently := memory.registeredRecently
  asked := []
  confirmed := []

/-- What the service makes of a decision; a tick that failed leaves only what
its steps told the three memories. -/
def Memory.after (memory : Memory) (outcome : Outcome) : Memory :=
  let told := { memory with
    settled := outcome.tick.settled
    closingRounds := outcome.tick.closingRounds
    registeredRecently := outcome.tick.registeredRecently }
  match outcome with
  | .finished decision _ => { told with
      lastRegisterCheck := decision.registerCheck.or memory.lastRegisterCheck
      lastWithdrawState := decision.withdrawState.or memory.lastWithdrawState
      lastExpectedErrors := decision.expectedErrors.getD memory.lastExpectedErrors }
  | _ => told

def decided (config : Config) (memory : Memory) (w : World) (reads : Reads) : Outcome :=
  (context config memory w reads).decide memory.tick

def runOnce (config : Config) (memory : Memory) (w : World) (reads : Reads) : Memory :=
  memory.after (decided config memory w reads)

/-- The instructions of a confirmed `register` batch, which land together. The
operator's other instructions are among the chain's own steps. -/
def Send.lands : Send → List Action
  | .register epochId owners => owners.map (.register epochId)
  | _ => []

/-- The chain and the operator's memory of it. -/
structure Service where
  chain : World
  memory : Memory

/-- Anybody's instruction, or a tick with what the chain does before it lands. -/
inductive Event where
  | chain (a : Action)
  | tick (reads : Reads) (during : List Action)

/-- The rows are the Player accounts, in any order. -/
def Mirrors (players : List Player) (w : World) : Prop :=
  (players.map fun p => (⟨p.owner, p⟩ : Sigma fun _ : Pubkey => Player) : Multiset _) =
    w.players.entries

instance (players : List Player) (w : World) : Decidable (Mirrors players w) :=
  inferInstanceAs (Decidable (_ = _))

section Runs
variable (rt : Runtime) (config : Config)

inductive Moves : Service → Event → Service → Prop
  | chain {w w' : World} {memory : Memory} {a : Action} :
      Step rt w a w' → Moves ⟨w, memory⟩ (.chain a) ⟨w', memory⟩
  | ticked {w u w' : World} {memory : Memory} {reads : Reads} {during : List Action}
      {before after : HexVault.History} :
      Mirrors reads.players w → replay rt during ([], w) = .ok (before, u) →
      replay rt ((decided config memory w reads).tick.confirmed.flatMap Send.lands) ([], u) =
        .ok (after, w') →
      Moves ⟨w, memory⟩ (.tick reads during) ⟨w', runOnce config memory w reads⟩

abbrev History := List (Service × Event)

/-- A run of the operator, from its start on any state of the chain. -/
def OperatorRun (history : History) (s : Service) : Prop :=
  ∃ start, Reachable rt start ∧ Steps (Moves rt config) ⟨start, .fresh⟩ history s

/-- A move taken: each event is read off the state it finds. -/
def operate (event : Event) (s : Service) : Result Service :=
  match event with
  | .chain a => do
      let chain ← perform rt a s.chain
      return { s with chain }
  | .tick reads during => do
      require (Mirrors reads.players s.chain) .abort
      let (_, u) ← replay rt during ([], s.chain)
      let sends := (decided config s.memory s.chain reads).tick.confirmed
      let (_, chain) ← replay rt (sends.flatMap Send.lands) ([], u)
      return { chain, memory := runOnce config s.memory s.chain reads }

def operateAll : List (Service → Event) → History × Service → Result (History × Service)
  | [], state => .ok state
  | event :: rest, (history, s) => do
      let s' ← operate rt config (event s) s
      operateAll rest ((s, event s) :: history, s')

variable {rt config}

theorem operate_moves {event : Event} {s s' : Service}
    (h : operate rt config event s = .ok s') : Moves rt config s event s' := by
  cases event with
  | chain a =>
      obtain ⟨w, hw, heq⟩ := bind_eq_ok.mp h
      cases pure_eq_ok.mp heq
      exact .chain hw
  | tick reads during =>
      obtain ⟨_, hmirrors, h⟩ := bind_eq_ok.mp h
      obtain ⟨⟨before, u⟩, hgap, h⟩ := bind_eq_ok.mp h
      obtain ⟨⟨after, w⟩, hlanded, heq⟩ := bind_eq_ok.mp h
      cases pure_eq_ok.mp heq
      exact .ticked (require_eq_ok.mp hmirrors) hgap hlanded

theorem operateAll_steps {start s s' : Service} {events : List (Service → Event)}
    {history history' : History} (steps : Steps (Moves rt config) start history s)
    (h : operateAll rt config events (history, s) = .ok (history', s')) :
    Steps (Moves rt config) start history' s' := by
  refine Steps.fold Except.ok Except.ok.inj ?_ steps h
  intro event rest history t final h
  obtain ⟨v, hv, h⟩ := bind_eq_ok.mp h
  exact ⟨event t, v, operate_moves hv, h⟩

end Runs

/-! The operator of the small pool, its mirror and its sends in order. -/

namespace Demo

def config : Config where
  indexerFreshThresholdSeconds := 60
  launchAt := none

/-- A tick's reads with the House and one Player mirrored, a minute of wall clock
for each second of the chain's. -/
def reads (w : World) : Reads where
  players := [w.pool.house, ⟨3⟩].filterMap fun owner => w.players.lookup owner
  unsettledPositions := []
  roundsToClose := []
  referralGrantsDue := fun _ => []
  indexerCursor := { ageSeconds := some 0, updatedAt := some w.clock }
  winnerOnChain := fun _ _ => none
  houseAddress := ⟨1000⟩
  fulfilled := fun _ => false
  send := fun _ => .ok ()
  wallNow := fun _ => w.clock * 60000

def tick (s : Service) : Event := .tick (reads s.chain) []

def chain (a : Action) : Service → Event := fun _ => .chain a

/-- A script of the chain, then the operator started on it. -/
def operated (setup : List Action) (events : List (Service → Event)) :
    Result (History × Service) := do
  let (_, start) ← HexVault.Demo.script setup
  operateAll HexVault.Demo.runtime config events ([], { chain := start, memory := .fresh })

theorem operated_run {setup : List Action} {events : List (Service → Event)}
    {history : History} {s : Service} (h : operated setup events = .ok (history, s)) :
    OperatorRun HexVault.Demo.runtime config history s := by
  obtain ⟨⟨earlier, start⟩, hsetup, h⟩ := bind_eq_ok.mp h
  exact ⟨start, (HexVault.Demo.script_run hsetup).reachable, operateAll_steps .start h⟩

end Demo

end Operator

end HexVault
