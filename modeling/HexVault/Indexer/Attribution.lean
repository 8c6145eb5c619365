import HexVault.Indexer.Persist
import HexVault.Program.Instructions

/-!
Which pool an event is stored under. Several pools share the program; a transaction
runs instructions on any of them, and its logs hold the events of all in order. The
indexer takes every transaction whose account list names the active pool.
-/

namespace HexVault

namespace Indexer

open Fallible

/-- The pools of the program, by address. -/
abbrev Chain := Finmap fun _ : Pubkey => World

structure Instruction where
  pool : Pubkey
  action : Action

/-- What one instruction emitted, and on which pool. -/
structure Record where
  pool : Pubkey
  events : List Event
  deriving DecidableEq, Repr

structure Transaction where
  signature : String
  slot : Nat
  blockTime : Option Int
  instructions : List Instruction

/-- A transaction as it was finalized; one that failed left no events. -/
structure Landed where
  signature : String
  slot : Nat
  blockTime : Option Int
  err : Bool
  records : List Record
  deriving DecidableEq, Repr

section Execution
variable (rt : Runtime)

def executeOne (instruction : Instruction) (chain : Chain) : Result (Chain × Record) := do
  let w ← load (chain.lookup instruction.pool) (.anchor .accountNotInitialized)
  let w' ← perform rt instruction.action w
  return (chain.insert instruction.pool w',
    { pool := instruction.pool, events := w'.log.drop w.log.length })

def execute : List Instruction → Chain → Result (Chain × List Record)
  | [], chain => .ok (chain, [])
  | instruction :: rest, chain => do
      let (chain, record) ← executeOne rt instruction chain
      let (chain, records) ← execute rest chain
      return (chain, record :: records)

/-- How a transaction lands on a chain. -/
def land (chain : Chain) (tx : Transaction) : Landed :=
  { signature := tx.signature
    slot := tx.slot
    blockTime := tx.blockTime
    err := !(execute rt tx.instructions chain).toOption.isSome
    records := ((execute rt tx.instructions chain).toOption.map Prod.snd).getD [] }

end Execution

/-- The events of the logs, in the order they were emitted. -/
def decodeEventLogs (records : List Record) : List DecodedEvent :=
  records.flatMap fun record => record.events.map (decodeEvent record.pool)

/-- How a transaction reaches the indexer: by the catch-up walk, once its logs can be
read, or from the log subscription, which knows the slot and the chain's time as it
last saw it and is deaf until the first sweep. -/
inductive Arrival where
  | caughtUp (logsRead : Bool)
  | live (slot : Nat) (chainTime : Option Int) (synced : Bool)
  deriving DecidableEq, Repr

section Ingest
variable (host : Host) (active : Pubkey)

def ingestSignature (logsRead : Bool) (tx : Landed) (db : Database) : Database :=
  let batch : LogBatch := ⟨tx.signature, tx.slot, tx.blockTime⟩
  if tx.err then (persist host active batch true [] db).1
  else if logsRead then
    (persist host active batch true (decodeEventLogs tx.records) db).1
  else db

def subscribeToLogs (slot : Nat) (chainTime : Option Int) (synced : Bool) (tx : Landed)
    (db : Database) : Database :=
  if tx.err ∨ synced = false ∨ decodeEventLogs tx.records = [] then db
  else (persist host active ⟨tx.signature, slot, chainTime⟩ false
    (decodeEventLogs tx.records) db).1

def ingest (arrival : Arrival) (tx : Landed) (db : Database) : Database :=
  match arrival with
  | .caughtUp logsRead => ingestSignature host active logsRead tx db
  | .live slot chainTime synced => subscribeToLogs host active slot chainTime synced tx db

end Ingest

/-- The transaction with only what its instructions on one pool emitted. -/
def Landed.on (tx : Landed) (active : Pubkey) : Landed :=
  { tx with records := tx.records.filter fun record => record.pool = active }

/-- Its other instructions leave no trace in any row, however and whenever it arrives. -/
def Attributed (active : Pubkey) (tx : Landed) : Prop :=
  ∀ host arrival db, ingest host active arrival tx db =
    ingest host active arrival (tx.on active) db

/-- Nothing in the logs is another pool's. -/
def Landed.Unmixed (tx : Landed) (active : Pubkey) : Prop :=
  ∀ record ∈ tx.records, record.pool ≠ active → record.events = []

instance (tx : Landed) (active : Pubkey) : Decidable (tx.Unmixed active) :=
  inferInstanceAs (Decidable (∀ record ∈ tx.records, _))

/-- The same transaction but for what it does on other pools. -/
structure SameOn (active : Pubkey) (tx tx' : Transaction) : Prop where
  signature : tx'.signature = tx.signature
  slot : tx'.slot = tx.slot
  blockTime : tx'.blockTime = tx.blockTime
  instructions : (tx'.instructions.filter fun x => x.pool = active) =
    tx.instructions.filter fun x => x.pool = active

section Logs
variable {active : Pubkey} {records : List Record}

/-- The logs are those of the active pool and those of the others, shuffled. -/
theorem decodeEventLogs_length (active : Pubkey) (records : List Record) :
    (decodeEventLogs records).length =
      (decodeEventLogs (records.filter fun record => record.pool = active)).length +
      (decodeEventLogs (records.filter fun record => ¬ record.pool = active)).length := by
  induction records with
  | nil => rfl
  | cons record rest ih =>
      simp only [decodeEventLogs, List.flatMap_cons, List.length_append] at ih ⊢
      by_cases own : record.pool = active
      · rw [List.filter_cons_of_pos (by simpa using own),
          List.filter_cons_of_neg (by simpa using own), List.flatMap_cons, List.length_append]
        omega
      · rw [List.filter_cons_of_neg (by simpa using own),
          List.filter_cons_of_pos (by simpa using own), List.flatMap_cons, List.length_append]
        omega

theorem decodeEventLogs_nil (h : decodeEventLogs records = []) :
    ∀ record ∈ records, record.events = [] := by
  intro record hrecord
  have none := List.flatMap_eq_nil_iff.mp h record hrecord
  exact List.map_eq_nil_iff.mp none

/-- Without events of other pools the logs are the active pool's. -/
theorem decodeEventLogs_own (h : ∀ record ∈ records, record.pool ≠ active → record.events = []) :
    decodeEventLogs (records.filter fun record => record.pool = active) =
      decodeEventLogs records := by
  induction records with
  | nil => rfl
  | cons record rest ih =>
      have tail := ih fun x hx => h x (List.mem_cons_of_mem _ hx)
      by_cases own : record.pool = active
      · rw [List.filter_cons_of_pos (by simpa using own)]
        exact congrArg (record.events.map (decodeEvent record.pool) ++ ·) tail
      · rw [List.filter_cons_of_neg (by simpa using own), tail]
        have empty := h record (List.mem_cons_self ..) own
        simp only [decodeEventLogs, List.flatMap_cons, empty, List.map_nil, List.nil_append]

end Logs

section Rows
variable {host : Host} {poolAddress : Pubkey} {batch : LogBatch}

/-- Rows whose keys are new are all stored. -/
theorem createMany_new {rows table : List EventRow} (distinct : (rows.map EventRow.key).Nodup)
    (fresh : ∀ row ∈ rows, row.key ∉ table.map EventRow.key) :
    createMany rows table = (table ++ rows, rows.length) := by
  induction rows generalizing table with
  | nil => simp [createMany]
  | cons row rest ih =>
      obtain ⟨first, distinct⟩ := List.nodup_cons.mp distinct
      have later : ∀ x ∈ rest, x.key ∉ (table ++ [row]).map EventRow.key := by
        intro x hx
        rw [List.map_append, List.mem_append, not_or]
        refine ⟨fresh x (List.mem_cons_of_mem _ hx), ?_⟩
        intro same
        have heq : x.key = row.key := List.mem_singleton.mp same
        exact first (heq ▸ List.mem_map_of_mem hx)
      rw [createMany, if_neg (fresh row (List.mem_cons_self ..)), ih distinct later]
      simp

theorem eventRows_distinct (events : List DecodedEvent) :
    ((eventRows poolAddress batch events).map EventRow.key).Nodup := by
  have index : ((eventRows poolAddress batch events).map EventRow.key).map (fun key => key.2.2) =
      List.range events.length := by
    refine List.ext_getElem ?_ ?_
    · simp [eventRows]
    · intro i _ _
      simp [eventRows, EventRow.key]
  exact List.Nodup.of_map _ (index ▸ List.nodup_range)

/-- The first time a transaction is stored, each of its events gets a row. -/
theorem persist_events {advanceCursor : Bool} {events : List DecodedEvent} {db : Database}
    (fresh : ∀ row ∈ db.events, ¬(row.slot = batch.slot ∧ row.signature = batch.signature)) :
    (persist host poolAddress batch advanceCursor events db).1.events =
      db.events ++ eventRows poolAddress batch events := by
  have new : ∀ row ∈ eventRows poolAddress batch events,
      row.key ∉ db.events.map EventRow.key := by
    intro row hrow stored
    obtain ⟨old, hold, same⟩ := List.mem_map.mp stored
    obtain ⟨i, hi, rfl⟩ := List.mem_iff_getElem.mp hrow
    simp only [eventRows, List.getElem_mapIdx, EventRow.key, Prod.mk.injEq] at same
    exact fresh old hold ⟨same.1, same.2.1⟩
  simp only [persist, createMany_new (eventRows_distinct events) new]

end Rows

section Execution
variable {rt : Runtime}

/-- What a transaction does on one pool is what its instructions on that pool do. -/
theorem execute_on (active : Pubkey) {instructions : List Instruction} {chain chain' other : Chain}
    {records : List Record} (h : execute rt instructions chain = .ok (chain', records))
    (same : chain.lookup active = other.lookup active) :
    ∃ other', execute rt (instructions.filter fun x => x.pool = active) other =
      .ok (other', records.filter fun record => record.pool = active) := by
  induction instructions generalizing chain other records with
  | nil =>
      cases h
      exact ⟨other, rfl⟩
  | cons instruction rest ih =>
      simp only [execute, executeOne, bind_eq_ok, load_eq_ok, pure_eq_ok] at h
      obtain ⟨_, ⟨w, hw, w', hstep, rfl⟩, ⟨last, later⟩, hrest, heq⟩ := h
      cases heq
      by_cases own : instruction.pool = active
      · subst own
        have agree : (chain.insert instruction.pool w').lookup instruction.pool =
            (other.insert instruction.pool w').lookup instruction.pool := by
          rw [Finmap.lookup_insert, Finmap.lookup_insert]
        obtain ⟨other', hother⟩ := ih hrest agree
        refine ⟨other', ?_⟩
        rw [List.filter_cons_of_pos (by simp), List.filter_cons_of_pos (by simp)]
        simp only [execute, executeOne, bind_eq_ok, load_eq_ok, pure_eq_ok]
        exact ⟨_, ⟨w, same ▸ hw, w', hstep, rfl⟩, _, hother, rfl⟩
      · have agree : (chain.insert instruction.pool w').lookup active = other.lookup active := by
          rw [Finmap.lookup_insert_of_ne _ (Ne.symm own)]
          exact same
        obtain ⟨other', hother⟩ := ih hrest agree
        refine ⟨other', ?_⟩
        rw [List.filter_cons_of_neg (by simpa using own),
          List.filter_cons_of_neg (by simpa using own)]
        exact hother

end Execution

section Attribution
variable {rt : Runtime} {chain : Chain} {active : Pubkey} {tx tx' : Transaction}

theorem land_records (h : (land rt chain tx).err = false) :
    ∃ chain', execute rt tx.instructions chain = .ok (chain', (land rt chain tx).records) := by
  cases he : execute rt tx.instructions chain with
  | ok landed =>
      refine ⟨landed.1, ?_⟩
      simp [land, he, Except.toOption]
  | error e => simp [land, he, Except.toOption] at h

theorem land_err (h : (land rt chain tx).err = true) : (land rt chain tx).records = [] := by
  cases he : execute rt tx.instructions chain with
  | ok landed => simp [land, he, Except.toOption] at h
  | error e => simp [land, he, Except.toOption]

theorem unmixed_attributed {landed : Landed} (h : landed.Unmixed active) :
    Attributed active landed := by
  intro host arrival db
  have same : decodeEventLogs (landed.on active).records = decodeEventLogs landed.records :=
    decodeEventLogs_own h
  cases arrival with
  | caughtUp logsRead =>
      simp only [ingest, ingestSignature, same]
      rfl
  | live slot chainTime synced =>
      simp only [ingest, subscribeToLogs, same]
      rfl

/-- On a database that has not seen the transaction, every event of another pool
is a row too many. -/
theorem attributed_unmixed {landed : Landed} (err : landed.err = false) (host : Host)
    (db : Database)
    (fresh : ∀ row ∈ db.events, ¬(row.slot = landed.slot ∧ row.signature = landed.signature))
    (h : ingest host active (.caughtUp true) landed db =
      ingest host active (.caughtUp true) (landed.on active) db) : landed.Unmixed active := by
  have rows := congrArg (fun db => db.events.length) h
  simp only [ingest, ingestSignature, Landed.on, err, Bool.false_eq_true, if_false, if_true] at rows
  rw [persist_events fresh, persist_events fresh, List.length_append, List.length_append] at rows
  simp only [eventRows, List.length_mapIdx] at rows
  have split := decodeEventLogs_length active landed.records
  have none : decodeEventLogs (landed.records.filter fun record => ¬ record.pool = active) = [] :=
    List.eq_nil_of_length_eq_zero (by omega)
  intro record hrecord foreign
  exact decodeEventLogs_nil none record (List.mem_filter.mpr ⟨hrecord, by simpa using foreign⟩)

theorem land_on (same : SameOn active tx tx') (h : (land rt chain tx).err = false)
    (h' : (land rt chain tx').err = false) :
    (land rt chain tx').on active = (land rt chain tx).on active := by
  obtain ⟨_, run⟩ := land_records h
  obtain ⟨_, run'⟩ := land_records h'
  obtain ⟨_, own⟩ := execute_on active run rfl
  obtain ⟨_, own'⟩ := execute_on active run' rfl
  rw [same.instructions, own, Except.ok.injEq, Prod.mk.injEq] at own'
  have header := same.signature
  have slot := same.slot
  have blockTime := same.blockTime
  rw [Landed.on, Landed.on, ← own'.2]
  simp only [land, header, slot, blockTime, Landed.mk.injEq, true_and, and_true]
  simpa [land] using h'.trans h.symm

end Attribution

/-- A transaction's rows are those of its instructions on the active pool exactly
when the other pools emitted nothing in it; and beside such a transaction one that
differs from it on other pools only has the same effect exactly when it is such too. -/
theorem attribution (rt : Runtime) (chain : Chain) (active : Pubkey) (tx : Transaction) :
    (Attributed active (land rt chain tx) ↔ (land rt chain tx).Unmixed active) ∧
    ∀ tx', SameOn active tx tx' → (land rt chain tx).err = false →
      (land rt chain tx').err = false → (land rt chain tx).Unmixed active →
      ((∀ host arrival db, ingest host active arrival (land rt chain tx) db =
          ingest host active arrival (land rt chain tx') db) ↔
        (land rt chain tx').Unmixed active) := by
  have each : ∀ tx, Attributed active (land rt chain tx) ↔
      (land rt chain tx).Unmixed active := by
    intro tx
    refine ⟨?_, unmixed_attributed⟩
    intro h
    cases err : (land rt chain tx).err with
    | true =>
        intro record hrecord
        rw [land_err err] at hrecord
        exact absurd hrecord List.not_mem_nil
    | false =>
        let host : Host := ⟨0, fun _ _ => ""⟩
        let db : Database := ⟨[], [], [], [], [], [], []⟩
        exact attributed_unmixed err host db (fun row hrow => absurd hrow List.not_mem_nil)
          (h host _ db)
  refine ⟨each tx, ?_⟩
  intro tx' same err err' unmixed
  have own := land_on same err err'
  rw [← each tx']
  constructor
  · intro h host arrival db
    rw [← h host arrival db, own]
    exact unmixed_attributed unmixed host arrival db
  · intro h host arrival db
    rw [h host arrival db, own]
    exact unmixed_attributed unmixed host arrival db

/-! Two pools of the program: one an indexer mirrors, and one whoever wishes created on
a token of their own. -/

namespace Demo

def active : Pubkey := ⟨100⟩
def rival : Pubkey := ⟨200⟩

def rivalParams : CreatePoolParams :=
  { HexVault.Demo.params with poolId := 1, admin := ⟨6⟩, operator := ⟨7⟩ }

def rivalAccounts : CreatePoolAccounts :=
  { HexVault.Demo.accounts with
    pool := rival, acceptedMint := ⟨51⟩, treasuryMint := ⟨51⟩, buybackReserveMint := ⟨51⟩ }

def pools : Result (World × World) := do
  let mirrored ← createPool HexVault.Demo.params HexVault.Demo.accounts 1000
  let other ← createPool rivalParams rivalAccounts 1000
  return (mirrored, other)

def chainOf (pools : World × World) : Chain :=
  (Finmap.singleton active pools.1).insert rival pools.2

def wallet : Signer := HexVault.Demo.signer 3

/-- A wallet adds to the jackpot of the active pool. -/
def funding : Transaction where
  signature := "a"
  slot := 10
  blockTime := some 1700
  instructions := [⟨active, .fundJackpot wallet (HexVault.Demo.wallet wallet) 1⟩]

/-- In the same transaction it deposits 50 of the other pool's tokens there. -/
def mixed : Transaction :=
  { funding with
    instructions := funding.instructions ++ [⟨rival, .deposit wallet
      { mint := ⟨51⟩, authority := wallet.key, amount := 50000000 } 50000000⟩] }

def host : Host where
  nowSeconds := 1800
  generateReferralCode := fun _ _ => "code"

/-- The wallet is someone's referee, and has nothing in the active pool. -/
def database : Database where
  events := []
  positions := []
  rounds := []
  referralCodes := []
  inviteCodes := []
  referrals := [⟨wallet.key, ⟨4⟩, "other", 0, none, 0⟩]
  cursors := []

def ingested (chain : Chain) (tx : Transaction) : Database :=
  ingest host active (.caughtUp true) (land HexVault.Demo.runtime chain tx) database

theorem mixed_sameOn : SameOn active funding mixed := ⟨rfl, rfl, rfl, rfl⟩

theorem chainOf_reachable {created : World × World} (h : pools = .ok created) {key : Pubkey}
    {w : World} (hw : (chainOf created).lookup key = some w) :
    Reachable HexVault.Demo.runtime w := by
  simp only [pools, bind_eq_ok, pure_eq_ok] at h
  obtain ⟨mirrored, hm, other, ho, rfl⟩ := h
  have start : ∀ {params accounts w}, createPool params accounts 1000 = .ok w →
      Reachable HexVault.Demo.runtime w := fun hw =>
    ⟨[], _, ⟨_, _, 1000, by decide, by decide, hw⟩, .start⟩
  cases Finmap.lookup_insert_cases hw with
  | inl last =>
      obtain ⟨-, rfl⟩ := last
      exact start ho
  | inr first =>
      cases Finmap.lookup_insert_cases (s := ∅) first.2 with
      | inl only =>
          obtain ⟨-, rfl⟩ := only
          exact start hm
      | inr none => exact nomatch none.2

end Demo

theorem attribution_mixed : ∃ chain, (∀ key w, chain.lookup key = some w →
      Reachable HexVault.Demo.runtime w) ∧
    (land HexVault.Demo.runtime chain Demo.funding).Unmixed Demo.active ∧
    ¬ ∀ host arrival db,
      ingest host Demo.active arrival (land HexVault.Demo.runtime chain Demo.funding) db =
        ingest host Demo.active arrival (land HexVault.Demo.runtime chain Demo.mixed) db := by
  obtain ⟨created, hcreated, hcheck⟩ := exists_of_any (x := Demo.pools)
    (p := fun created =>
      !(land HexVault.Demo.runtime (Demo.chainOf created) Demo.funding).err &&
      !(land HexVault.Demo.runtime (Demo.chainOf created) Demo.mixed).err &&
      decide ((land HexVault.Demo.runtime (Demo.chainOf created) Demo.funding).Unmixed
        Demo.active) &&
      !decide ((land HexVault.Demo.runtime (Demo.chainOf created) Demo.mixed).Unmixed
        Demo.active)) (by decide +kernel)
  simp only [Bool.and_eq_true, Bool.not_eq_true', decide_eq_true_eq, decide_eq_false_iff_not]
    at hcheck
  obtain ⟨⟨⟨err, err'⟩, unmixed⟩, mixed⟩ := hcheck
  have beside := (attribution HexVault.Demo.runtime (Demo.chainOf created) Demo.active
    Demo.funding).2 Demo.mixed Demo.mixed_sameOn err err' unmixed
  exact ⟨Demo.chainOf created, fun _ _ => Demo.chainOf_reachable hcreated, unmixed,
    mt beside.mp mixed⟩

/-- A deposit of a worthless token into a pool of one's own qualifies a referee of the
active pool, and its event is stored there. -/
theorem deposit_misattributed : ∃ chain, (∀ key w, chain.lookup key = some w →
      Reachable HexVault.Demo.runtime w) ∧
    SameOn Demo.active Demo.funding Demo.mixed ∧
    (Demo.ingested chain Demo.funding).events.length = 1 ∧
    (Demo.ingested chain Demo.mixed).events.length = 2 ∧
    (Demo.ingested chain Demo.funding).referrals.map ReferralRow.aboveSince = [none] ∧
    (Demo.ingested chain Demo.mixed).referrals.map ReferralRow.aboveSince = [some 1700] ∧
    (Demo.ingested chain Demo.funding).referralCodes = [] ∧
    (Demo.ingested chain Demo.mixed).referralCodes.map ReferralCodeRow.owner =
      [Demo.wallet.key] ∧
    ¬ Attributed Demo.active (land HexVault.Demo.runtime chain Demo.mixed) := by
  obtain ⟨created, hcreated, hcheck⟩ := exists_of_any (x := Demo.pools)
    (p := fun created =>
      let chain := Demo.chainOf created
      let own := ingest Demo.host Demo.active (.caughtUp true)
        ((land HexVault.Demo.runtime chain Demo.mixed).on Demo.active) Demo.database
      decide ((Demo.ingested chain Demo.funding).events.length = 1) &&
      decide ((Demo.ingested chain Demo.mixed).events.length = 2) &&
      decide ((Demo.ingested chain Demo.funding).referrals.map ReferralRow.aboveSince =
        [none]) &&
      decide ((Demo.ingested chain Demo.mixed).referrals.map ReferralRow.aboveSince =
        [some 1700]) &&
      decide ((Demo.ingested chain Demo.funding).referralCodes = []) &&
      decide ((Demo.ingested chain Demo.mixed).referralCodes.map ReferralCodeRow.owner =
        [Demo.wallet.key]) &&
      decide (own.events.length = 1)) (by decide +kernel)
  simp only [Bool.and_eq_true, decide_eq_true_eq] at hcheck
  obtain ⟨⟨⟨⟨⟨⟨one, two⟩, before⟩, after⟩, without⟩, code⟩, own⟩ := hcheck
  refine ⟨Demo.chainOf created, fun _ _ => Demo.chainOf_reachable hcreated, Demo.mixed_sameOn,
    one, two, before, after, without, code, ?_⟩
  intro attributed
  rw [Demo.ingested, attributed Demo.host (.caughtUp true) Demo.database, own] at two
  exact nomatch two

end Indexer

end HexVault
