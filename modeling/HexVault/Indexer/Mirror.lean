import HexVault.Indexer.Decode
import HexVault.Lib.CommitLog
import HexVault.Lib.Runs
import HexVault.Program.World

/-!
The mirror of the active pool's accounts. A confirmed transaction makes the log path read
again the accounts it touched; a sweep walks all accounts, or those that changed, and
leaves out what the log path has written from a later slot. A read is of the chain at some
slot; what it found is committed later.
-/

namespace HexVault

namespace Indexer

open CommitLog Runs

/-- The active pool's accounts, each at its derived address. -/
inductive Address where
  | pool
  | epoch (id : Nat)
  | round (id : Nat)
  | player (owner : Pubkey)
  | position (roundId : Nat) (owner : Pubkey)
  deriving DecidableEq, Repr

inductive AccountKind where
  | pool | epoch | round | player | position
  deriving DecidableEq, Repr

inductive Account where
  | pool (pool : Pool)
  | epoch (epoch : Epoch)
  | round (round : Round)
  | player (player : Player)
  | position (position : Position)

def Address.kind : Address → AccountKind
  | .pool => .pool
  | .epoch _ => .epoch
  | .round _ => .round
  | .player _ => .player
  | .position .. => .position

def readAccount (w : World) : Address → Option Account
  | .pool => some (.pool w.pool)
  | .epoch id => (w.epochs.lookup id).map .epoch
  | .round id => (w.rounds.lookup id).map .round
  | .player owner => (w.players.lookup owner).map .player
  | .position roundId owner => (w.positions.lookup (roundId, owner)).map .position

/-- Who committed: a refresh, under the slot of its notification; a sweep; an event. -/
inductive Source where
  | refresh (notified : Nat)
  | sweep
  | event
  deriving DecidableEq, Repr

abbrev AccountCommit := Commit Address Account Source

/-- A log-triggered refresh: the slot it was notified of, the slot its read was answered
from, and the accounts still to apply. While it is recording, the first of them is written. -/
structure Refresh where
  notified : Nat
  read : Nat
  rest : List Address
  recording : Bool
  deriving DecidableEq, Repr

/-- The transactions of a sweep. -/
inductive Stage where
  | upsert (kind : AccountKind)
  | closeRounds
  | positions
  deriving DecidableEq, Repr

/-- A transaction of a sweep, filtered and not committed yet. -/
structure Batch where
  stores : Address → Option Account
  close : Address → Bool
  purge : Address → Bool

structure Sweep where
  slot : Nat
  full : Bool
  accounts : List Address
  stages : List Stage
  batch : Option Batch

/-- An entry as `freshWrites` got it, with the slot of the read it stands for. -/
structure FreshWrite where
  address : Address
  notified : Nat
  read : Nat
  deriving DecidableEq, Repr

structure Mirror where
  commits : List AccountCommit
  closed : Address → Bool
  freshWrites : Address → Option Nat
  lastSyncedSlot : Option Nat
  refresh : Option Refresh
  sweep : Option Sweep
  recorded : List FreshWrite
  swept : List Nat

/-- The rows as they stand. -/
def Mirror.rows (s : Mirror) : Address → Option Account := table s.commits

/-! The log path. -/

/-- The accounts an event names. -/
def namedAccounts (event : DecodedEvent) : List Address :=
  let epochId := (eventInteger event "epochId").map Int.toNat
  let roundId := (eventInteger event "roundId").map Int.toNat
  let owner := (eventKey event "owner").or (eventKey event "winner")
  epochId.toList.map .epoch ++ roundId.toList.map .round ++ owner.toList.map .player ++
    roundId.toList.flatMap fun id => owner.toList.map (.position id)

/-- What a refresh reads, in the order it applies it: the Pool, the two Epochs either side of
its cursor, the open Round, and what the transaction's events name. -/
def wantedAccounts (currentEpochId : Nat) (openRound : Option Nat)
    (events : List DecodedEvent) : List Address :=
  let epochs := ([currentEpochId, currentEpochId - 1].filter fun id => 0 < id).map Address.epoch
  ([Address.pool] ++ epochs ++ openRound.toList.map Address.round ++
    events.flatMap namedAccounts).eraseDups

def Mirror.currentEpochId (s : Mirror) : Nat :=
  match s.rows .pool with
  | some (.pool pool) => pool.currentEpochId
  | _ => 0

def only (address : Address) (content : Option Account) : Address → Option (Option Account) :=
  fun other => if other = address then some content else none

def Mirror.push (s : Mirror) (slot : Nat) (source : Source)
    (writes : Address → Option (Option Account)) : Mirror :=
  { s with commits := ⟨slot, source, writes⟩ :: s.commits }

/-- `applyAccount` up to its write. Only a Position's absence means that it is gone. -/
def applyAccount (chain : Nat → World) (refresh : Refresh) (address : Address)
    (rest : List Address) (s : Mirror) : Mirror :=
  let content := readAccount (chain refresh.read) address
  if content.isSome ∨ address.kind = .position then
    { s.push refresh.read (.refresh refresh.notified) (only address content) with
      refresh := some { refresh with recording := true } }
  else { s with refresh := some { refresh with rest } }

/-- The rest of it. -/
def recordFresh (refresh : Refresh) (address : Address) (rest : List Address) (s : Mirror) :
    Mirror :=
  { s with
    freshWrites := Function.update s.freshWrites address (some refresh.notified)
    recorded := ⟨address, refresh.notified, refresh.read⟩ :: s.recorded
    refresh := some { refresh with rest, recording := false } }

/-! The sweep. -/

def behindLogPath (freshWrites : Address → Option Nat) (address : Address) (sweepSlot : Nat) :
    Bool :=
  (freshWrites address).any fun written => sweepSlot < written

def stages (full : Bool) : List Stage :=
  [.upsert .pool, .upsert .epoch, .upsert .round] ++ (if full then [.closeRounds] else []) ++
    [.upsert .player, .positions]

/-- A Position is known by its Round, which the same walk has to have found. -/
def Sweep.live (sweep : Sweep) : Address → Bool
  | .position roundId owner =>
      .position roundId owner ∈ sweep.accounts && .round roundId ∈ sweep.accounts
  | _ => false

/-- The accounts a transaction of the sweep writes, unless the log path is ahead of it. -/
def Stage.writes (sweep : Sweep) : Stage → Address → Bool
  | .upsert kind, address => address ∈ sweep.accounts && address.kind = kind
  | .closeRounds, _ => false
  | .positions, address => sweep.live address

def Stage.batch (chain : Nat → World) (sweep : Sweep) (s : Mirror) (stage : Stage) : Batch where
  stores := fun address =>
    if stage.writes sweep address && !behindLogPath s.freshWrites address sweep.slot then
      readAccount (chain sweep.slot) address
    else none
  close := fun address => stage = .closeRounds && address.kind = .round &&
    address ∉ sweep.accounts && (s.rows address).isSome && !s.closed address &&
      !behindLogPath s.freshWrites address sweep.slot
  purge := fun address => stage = .positions && sweep.full && address.kind = .position &&
    !sweep.live address && (s.freshWrites address).isNone

/-- A transaction's writes, on the rows it finds. -/
def Batch.writes (batch : Batch) (rows : Address → Option Account) (address : Address) :
    Option (Option Account) :=
  match batch.stores address with
  | some account => some (some account)
  | none => if batch.purge address && (rows address).isSome then some none else none

def commitBatch (sweep : Sweep) (rest : List Stage) (batch : Batch) (s : Mirror) : Mirror :=
  { s.push sweep.slot .sweep (batch.writes s.rows) with
    closed := fun address => s.closed address || batch.close address
    sweep := some { sweep with stages := rest, batch := none } }

def synced (sweep : Sweep) (s : Mirror) : Mirror :=
  { s with
    lastSyncedSlot := some sweep.slot
    freshWrites := fun address => (s.freshWrites address).filter fun written => sweep.slot < written
    sweep := none }

/-! What `persist` does to the mirror. -/

def settledBy (events : List DecodedEvent) : Address → Bool
  | .position roundId owner =>
      (events.filterMap settledPosition).contains (owner, (roundId : Int))
  | _ => false

def closedBy (events : List DecodedEvent) : Address → Bool
  | .round id => (events.filterMap closedRound).contains (id : Int)
  | _ => false

def persistMirror (slot : Nat) (events : List DecodedEvent) (s : Mirror) : Mirror :=
  { s.push slot .event (fun address => if settledBy events address then some none else none) with
    closed := fun address =>
      s.closed address || (closedBy events address && (s.rows address).isSome) }

/-! Every interleaving. -/

/-- What can happen next: a notification is taken off the queue, and its read answered; the
refresh writes an account, records it, or ends or fails; a sweep has fetched, filters its
next transaction, commits it, has caught up, or fails; a finalized transaction is ingested;
the process restarts. -/
inductive MirrorEvent where
  | refresh (slot read : Nat) (openRound : Option Nat) (events : List DecodedEvent)
  | apply
  | record
  | refreshEnds
  | sweep (slot : Nat) (full : Bool) (accounts : List Address)
  | filter
  | commit
  | synced
  | sweepFails
  | persist (slot : Nat) (events : List DecodedEvent)
  | restart

def mirror (chain : Nat → World) : MirrorEvent → Mirror → Option Mirror
  | .refresh slot read openRound events, s =>
      match s.refresh with
      | none =>
          let wanted := wantedAccounts s.currentEpochId openRound events
          some { s with refresh := some ⟨slot, read, wanted, false⟩ }
      | some _ => none
  | .apply, s =>
      match s.refresh with
      | some ⟨notified, read, address :: rest, false⟩ =>
          some (applyAccount chain ⟨notified, read, address :: rest, false⟩ address rest s)
      | _ => none
  | .record, s =>
      match s.refresh with
      | some ⟨notified, read, address :: rest, true⟩ =>
          some (recordFresh ⟨notified, read, address :: rest, true⟩ address rest s)
      | _ => none
  | .refreshEnds, s =>
      match s.refresh with
      | some ⟨_, _, _, false⟩ => some { s with refresh := none }
      | _ => none
  | .sweep slot full accounts, s =>
      if s.sweep.isNone ∧ (s.lastSyncedSlot = none → full = true) ∧
          (full = true → .pool ∈ accounts) ∧
            ∀ address ∈ accounts, (readAccount (chain slot) address).isSome then
        some { s with
          sweep := some ⟨slot, full, accounts, stages full, none⟩
          swept := slot :: s.swept }
      else none
  | .filter, s =>
      match s.sweep with
      | some ⟨slot, full, accounts, stage :: rest, none⟩ =>
          let sweep : Sweep := ⟨slot, full, accounts, stage :: rest, none⟩
          some { s with sweep := some { sweep with batch := some (stage.batch chain sweep s) } }
      | _ => none
  | .commit, s =>
      match s.sweep with
      | some ⟨slot, full, accounts, stage :: rest, some batch⟩ =>
          some (commitBatch ⟨slot, full, accounts, stage :: rest, some batch⟩ rest batch s)
      | _ => none
  | .synced, s =>
      match s.sweep with
      | some ⟨slot, full, accounts, [], none⟩ => some (synced ⟨slot, full, accounts, [], none⟩ s)
      | _ => none
  | .sweepFails, s => some { s with sweep := none }
  | .persist slot events, s =>
      match s.refresh with
      | none => some (persistMirror slot events s)
      | some _ => none
  | .restart, s => some { s with
      freshWrites := fun _ => none
      lastSyncedSlot := none
      refresh := none
      sweep := none
      recorded := [] }

def Mirror.Step (chain : Nat → World) (s : Mirror) (event : MirrorEvent) (s' : Mirror) : Prop :=
  mirror chain event s = some s'

def Mirror.empty : Mirror where
  commits := []
  closed := fun _ => false
  freshWrites := fun _ => none
  lastSyncedSlot := none
  refresh := none
  sweep := none
  recorded := []
  swept := []

end Indexer

end HexVault
