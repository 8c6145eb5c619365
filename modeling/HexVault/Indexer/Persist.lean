import HexVault.Indexer.Decode

/-!
`persist`: the rows one transaction's events leave behind. Event, Position, Round
and Cursor rows carry the pool they belong to; a Referral and a ReferralCode are a
wallet's, whatever pool it plays in.
-/

namespace HexVault

namespace Indexer

/-! Referral qualification. -/

def REFERRAL_QUALIFY_PRINCIPAL : Int := 50000000

structure ReferralQualificationState where
  principal : Int
  aboveSince : Option Int
  deriving DecidableEq, Repr

inductive ReferralPrincipalEvent where
  | deposited (principal : Int)
  | withdrawRequested (amount : Int)
  | yieldCredited (amount : Int)
  | jackpotPaid (amount : Int)
  deriving DecidableEq, Repr

/-- A `Deposited` event carries the whole Principal, the others what it moved by. -/
def nextPrincipal (previous : Int) : ReferralPrincipalEvent → Int
  | .deposited principal => principal
  | .withdrawRequested amount => if 0 < previous - amount then previous - amount else 0
  | .yieldCredited amount => previous + amount
  | .jackpotPaid amount => previous + amount

def applyReferralEvent (state : ReferralQualificationState) (event : ReferralPrincipalEvent)
    (blockTime : Int) : ReferralQualificationState :=
  let principal := nextPrincipal state.principal event
  let above := decide (REFERRAL_QUALIFY_PRINCIPAL ≤ principal)
  if above && state.aboveSince.isNone then ⟨principal, some blockTime⟩
  else if !above && state.aboveSince.isSome then ⟨principal, none⟩
  else ⟨principal, state.aboveSince⟩

/-- The Principal change an event stands for, with the wallet it is about. -/
def referralPrincipalEvent (event : DecodedEvent) : Option (Pubkey × ReferralPrincipalEvent) :=
  if event.name = "Deposited" then do
    let owner ← eventKey event "owner"
    let principal ← eventInteger event "principal"
    return (owner, .deposited principal)
  else if event.name = "WithdrawRequested" then do
    let owner ← eventKey event "owner"
    let amount ← eventInteger event "amount"
    return (owner, .withdrawRequested amount)
  else if event.name = "YieldCredited" then do
    let owner ← eventKey event "owner"
    let amount ← eventInteger event "amount"
    return (owner, .yieldCredited amount)
  else if event.name = "JackpotPaid" ∧ eventBool event "compounded" = some true then do
    let owner ← eventKey event "winner"
    let amount ← eventInteger event "amount"
    return (owner, .jackpotPaid amount)
  else none

def referralPrincipalEvents (events : List DecodedEvent) :
    List (Pubkey × ReferralPrincipalEvent) :=
  events.filterMap referralPrincipalEvent

/-! The tables. -/

structure EventRow where
  slot : Nat
  signature : String
  index : Nat
  poolAddress : Pubkey
  name : String
  data : List (String × JsonValue)
  blockTime : Option Int
  deriving DecidableEq, Repr

structure PositionRow where
  address : Pubkey
  poolAddress : Pubkey
  owner : Pubkey
  roundId : Int
  deriving DecidableEq, Repr

structure RoundRow where
  poolAddress : Pubkey
  id : Int
  closed : Bool
  deriving DecidableEq, Repr

structure ReferralCodeRow where
  code : String
  owner : Pubkey
  createdAt : Int
  deriving DecidableEq, Repr

structure ReferralRow where
  referee : Pubkey
  referrer : Pubkey
  code : String
  boundAt : Int
  aboveSince : Option Int
  principal : Int
  deriving DecidableEq, Repr

structure CursorRow where
  poolAddress : Pubkey
  lastSignature : Option String
  lastSlot : Option Nat
  updatedAt : Option Int
  deriving DecidableEq, Repr

structure Database where
  events : List EventRow
  positions : List PositionRow
  rounds : List RoundRow
  referralCodes : List ReferralCodeRow
  inviteCodes : List String
  referrals : List ReferralRow
  cursors : List CursorRow
  deriving DecidableEq, Repr

/-- What the machine the indexer runs on provides: its wall clock, and a code that is
in neither table of codes. -/
structure Host where
  nowSeconds : Int
  generateReferralCode : List ReferralCodeRow → List String → String

structure LogBatch where
  signature : String
  slot : Nat
  blockTime : Option Int
  deriving DecidableEq, Repr

/-- The primary key of an Event row. -/
def EventRow.key (row : EventRow) : Nat × String × Nat := (row.slot, row.signature, row.index)

/-- `createMany` with `skipDuplicates`: the table after it, and how many rows are new. -/
def createMany : List EventRow → List EventRow → List EventRow × Nat
  | [], table => (table, 0)
  | row :: rest, table =>
      if row.key ∈ table.map EventRow.key then createMany rest table
      else
        let (table, created) := createMany rest (table ++ [row])
        (table, created + 1)

section Persist
variable (host : Host) (poolAddress : Pubkey) (batch : LogBatch)

def eventRows (events : List DecodedEvent) : List EventRow :=
  events.mapIdx fun index event => {
    slot := batch.slot
    signature := batch.signature
    index
    poolAddress
    name := event.name
    data := event.data
    blockTime := batch.blockTime }

def deletePosition (positions : List PositionRow) (closed : Pubkey × Int) : List PositionRow :=
  positions.filter fun row =>
    ¬(row.poolAddress = poolAddress ∧ row.owner = closed.1 ∧ row.roundId = closed.2)

def closeRound (rounds : List RoundRow) (id : Int) : List RoundRow :=
  rounds.map fun row =>
    if row.poolAddress = poolAddress ∧ row.id = id then { row with closed := true } else row

def ensureReferralCode (inviteCodes : List String) (codes : List ReferralCodeRow)
    (owner : Pubkey) : List ReferralCodeRow :=
  if owner ∈ codes.map ReferralCodeRow.owner then codes
  else codes ++ [{
    code := host.generateReferralCode codes inviteCodes
    owner
    createdAt := host.nowSeconds }]

/-- One Principal change against the states of the referees of a batch. -/
def advanceReferee (blockTime : Int) (state : List (Pubkey × ReferralQualificationState))
    (change : Pubkey × ReferralPrincipalEvent) : List (Pubkey × ReferralQualificationState) :=
  state.map fun entry =>
    if entry.1 = change.1 then (entry.1, applyReferralEvent entry.2 change.2 blockTime) else entry

/-- The Referral rows after a batch's Principal changes, applied one by one. -/
def applyReferralEvents (referralEvents : List (Pubkey × ReferralPrincipalEvent))
    (referrals : List ReferralRow) : List ReferralRow :=
  let referees := (referralEvents.map Prod.fst).eraseDups
  let existing := referrals.filter fun row => row.referee ∈ referees
  let seeded := existing.map fun row =>
    (row.referee, ReferralQualificationState.mk row.principal row.aboveSince)
  let state := referralEvents.foldl
    (advanceReferee (batch.blockTime.getD host.nowSeconds)) seeded
  referrals.map fun row =>
    match state.lookup row.referee with
    | some next => { row with principal := next.principal, aboveSince := next.aboveSince }
    | none => row

/-- Only the catch-up walks backwards, and it never drags the cursor with it. -/
def advance (cursors : List CursorRow) : List CursorRow :=
  let cursor := cursors.find? fun row => row.poolAddress = poolAddress
  let reached := cursor.bind CursorRow.lastSlot
  if reached.all (· ≤ batch.slot) then
    let row : CursorRow :=
      { poolAddress
        lastSignature := some batch.signature
        lastSlot := some batch.slot
        updatedAt := some host.nowSeconds }
    match cursor with
    | none => cursors ++ [row]
    | some _ => cursors.map fun other => if other.poolAddress = poolAddress then row else other
  else cursors

/-- A batch's events stored under the active pool, with what they say about its
Positions and Rounds and about the wallets' codes and Referrals. -/
def persist (advanceCursor : Bool) (events : List DecodedEvent) (db : Database) :
    Database × Nat :=
  let closed := events.filterMap settledPosition
  let closedRounds := events.filterMap closedRound
  let depositors :=
    ((events.filter fun event => event.name = "Deposited").filterMap
      fun event => eventKey event "owner").eraseDups
  let referralEvents := referralPrincipalEvents events
  let (rows, created) := createMany (eventRows poolAddress batch events) db.events
  ({ db with
      events := rows
      positions := closed.foldl (deletePosition poolAddress) db.positions
      rounds := closedRounds.foldl (closeRound poolAddress) db.rounds
      referralCodes := depositors.foldl (ensureReferralCode host db.inviteCodes) db.referralCodes
      referrals :=
        if referralEvents ≠ [] ∧ 0 < created then
          applyReferralEvents host batch referralEvents db.referrals
        else db.referrals
      cursors := if advanceCursor then advance host poolAddress batch db.cursors
        else db.cursors }, created)

end Persist

end Indexer

end HexVault
