import HexVault.Indexer.Attribution
import HexVault.Lib.Pages
import HexVault.Lib.Runs

/-!
The catch-up walk beside everything that can happen around it: signatures are finalized
and listed, log notifications arrive, an RPC call fails, the process dies between two
writes. The walk reads the list newest first, a page at a time, back to the cursor's
signature, and consumes what it read oldest first.
-/

namespace HexVault

namespace Indexer

open Pages Runs

/-- A transaction that named the pool, with the host's second when it was finalized. -/
structure Finalized extends Landed where
  finalizedAt : Int
  deriving DecidableEq, Repr

def SIGNATURE_PAGE : Nat := 1000

/-- Where the catch-up stands. `since` is how many signatures the RPC listed when the
walk began; the program keeps no such figure. -/
inductive Phase where
  | idle
  | listing (mark : Option String) (since : Nat) (backlog : List Finalized)
      (before : Option String)
  | replaying (since : Nat) (rest : List Finalized) (stopped : Bool)
  deriving DecidableEq, Repr

/-- The history of the pool's finalized transactions, oldest first, how many of them the
RPC lists, the host's clock, the tables, and the catch-up. -/
structure Indexing where
  finalized : List Finalized
  listed : Nat
  now : Int
  db : Database
  phase : Phase
  deriving DecidableEq, Repr

inductive Happening where
  | finalize (tx : Finalized)
  | list (count : Nat)
  | wait (seconds : Nat)
  | deliver (tx : Finalized) (chainTime : Option Int) (synced : Bool)
  | start
  | page
  | ingest (logsRead : Bool)
  | stamp
  | abandon
  deriving DecidableEq, Repr

def cursorOf (active : Pubkey) (db : Database) : Option CursorRow :=
  db.cursors.find? fun row => row.poolAddress = active

def lastSignature (active : Pubkey) (db : Database) : Option String :=
  (cursorOf active db).bind CursorRow.lastSignature

def lastSlot (active : Pubkey) (db : Database) : Option Nat :=
  (cursorOf active db).bind CursorRow.lastSlot

/-- The stamp at the end of a tick. -/
def stampCursor (active : Pubkey) (now : Int) (db : Database) : Database :=
  { db with
    cursors := match cursorOf active db with
      | none => db.cursors ++ [⟨active, none, none, some now⟩]
      | some _ => db.cursors.map fun row =>
          if row.poolAddress = active then { row with updatedAt := some now } else row }

/-- The events a transaction's logs hold; one that failed committed none. -/
def Landed.decoded (tx : Landed) : List DecodedEvent :=
  if tx.err then [] else decodeEventLogs tx.records

/-- A row that holds one of the transaction's events. -/
structure Records (row : EventRow) (tx : Landed) : Prop where
  slot : row.slot = tx.slot
  event : tx.decoded[row.index]? = some ⟨row.name, row.data⟩

/-- The newest signatures the RPC lists before one of them, a page at most. -/
def getSignaturesForAddress (s : Indexing) (before : Option String) : List Finalized :=
  page (fun tx => tx.signature) SIGNATURE_PAGE before (s.finalized.take s.listed).reverse

/-- One turn of the paging loop. -/
def turnPage (mark : Option String) (since : Nat) (backlog page : List Finalized) : Phase :=
  let collected := backlog ++ newerThan (fun tx => tx.signature) mark page
  if (reached (fun tx => tx.signature) mark page).isSome ∨ page.length < SIGNATURE_PAGE then
    .replaying since collected.reverse false
  else .listing mark since collected (page.getLast?.map fun tx => tx.signature)

section Happens
variable (generate : List ReferralCodeRow → List String → String) (active : Pubkey)

/-- What one happening does. Finality keeps the order of slots, and the tables hold no row
of a transaction that is not one of its events; a notification can arrive at any time after
finality, whatever the queue makes of it. -/
inductive Happens (s : Indexing) : Happening → Indexing → Prop
  | finalized {tx : Finalized} (new : tx.signature ∉ s.finalized.map fun tx => tx.signature)
      (order : ∀ other ∈ s.finalized, other.slot ≤ tx.slot) (time : tx.finalizedAt = s.now)
      (known : ∀ row ∈ s.db.events, row.signature = tx.signature → Records row tx.toLanded) :
      Happens s (.finalize tx) { s with finalized := s.finalized ++ [tx] }
  | listed {count : Nat} (grows : s.listed ≤ count) (known : count ≤ s.finalized.length) :
      Happens s (.list count) { s with listed := count }
  | waited {seconds : Nat} : Happens s (.wait seconds) { s with now := s.now + seconds }
  | delivered {tx : Finalized} {chainTime : Option Int} {synced : Bool} (h : tx ∈ s.finalized) :
      Happens s (.deliver tx chainTime synced) { s with
        db := subscribeToLogs ⟨s.now, generate⟩ active tx.slot chainTime synced tx.toLanded s.db }
  | started (h : s.phase = .idle) : Happens s .start { s with
      phase := .listing (lastSignature active s.db) s.listed [] none }
  | paged {mark before : Option String} {since : Nat} {backlog : List Finalized}
      (h : s.phase = .listing mark since backlog before) : Happens s .page { s with
        phase := turnPage mark since backlog (getSignaturesForAddress s before) }
  | ingested {since : Nat} {tx : Finalized} {rest : List Finalized} {logsRead : Bool}
      (h : s.phase = .replaying since (tx :: rest) false) : Happens s (.ingest logsRead) { s with
        db := ingestSignature ⟨s.now, generate⟩ active logsRead tx.toLanded s.db
        phase := if tx.err ∨ logsRead then .replaying since rest false
          else .replaying since (tx :: rest) true }
  | stamped {since : Nat} {rest : List Finalized} {stopped : Bool}
      (h : s.phase = .replaying since rest stopped) (ended : rest = [] ∨ stopped = true) :
      Happens s .stamp { s with db := stampCursor active s.now s.db, phase := .idle }
  | abandoned : Happens s .abandon { s with phase := .idle }

end Happens

/-! What the tables hold. -/

/-- Every event of the transaction has a row under its place in the logs. -/
def Keyed (tx : Landed) (db : Database) : Prop :=
  ∀ index < tx.decoded.length, (tx.slot, tx.signature, index) ∈ db.events.map EventRow.key

/-- Each event of the transaction is stored in exactly one row. -/
def StoredOnce (tx : Landed) (db : Database) : Prop :=
  ∀ index event, tx.decoded[index]? = some event → ∃ row,
    (db.events.filter fun row => row.signature = tx.signature ∧ row.index = index) = [row] ∧
      row.name = event.name ∧ row.data = event.data

/-- What is done to the Event table for one transaction. -/
structure Stores (tx : Landed) (db db' : Database) : Prop where
  kept : db.events <+: db'.events
  added : ∀ row ∈ db'.events, row ∈ db.events ∨ row.signature = tx.signature ∧ Records row tx
  keys : (db.events.map EventRow.key).Nodup → (db'.events.map EventRow.key).Nodup

section Rows
variable {host : Host} {active : Pubkey} {batch : LogBatch} {tx : Landed} {db db' : Database}

theorem createMany_grows (rows table : List EventRow) : table <+: (createMany rows table).1 := by
  induction rows generalizing table with
  | nil => exact List.prefix_rfl
  | cons row rest ih =>
      rw [createMany]
      split
      · exact ih table
      · exact (List.prefix_append table [row]).trans (ih _)

theorem createMany_mem {rows table : List EventRow} {row : EventRow}
    (h : row ∈ (createMany rows table).1) : row ∈ table ∨ row ∈ rows := by
  induction rows generalizing table with
  | nil => exact .inl h
  | cons first rest ih =>
      rw [createMany] at h
      split at h
      · exact (ih h).imp_right (List.mem_cons_of_mem _)
      · rcases ih h with old | new
        · rcases List.mem_append.mp old with old | last
          · exact .inl old
          · exact .inr (List.mem_singleton.mp last ▸ List.mem_cons_self)
        · exact .inr (List.mem_cons_of_mem _ new)

theorem createMany_nodup {rows table : List EventRow} (h : (table.map EventRow.key).Nodup) :
    ((createMany rows table).1.map EventRow.key).Nodup := by
  induction rows generalizing table with
  | nil => exact h
  | cons row rest ih =>
      rw [createMany]
      split
      · exact ih h
      · next fresh =>
          refine ih ?_
          rw [List.map_append, List.map_singleton]
          exact List.nodup_append.mpr ⟨h, List.nodup_singleton _, fun key hkey other hother same =>
            fresh (List.mem_singleton.mp hother ▸ same ▸ hkey)⟩

theorem createMany_keyed {rows table : List EventRow} {row : EventRow} (h : row ∈ rows) :
    row.key ∈ (createMany rows table).1.map EventRow.key := by
  induction rows generalizing table with
  | nil => exact absurd h List.not_mem_nil
  | cons first rest ih =>
      rw [createMany]
      rcases List.mem_cons.mp h with rfl | tail
      · split
        · next stored => exact ((createMany_grows rest table).map _).subset stored
        · refine ((createMany_grows rest _).map _).subset ?_
          rw [List.map_append]
          exact List.mem_append_right _ (List.mem_singleton.mpr rfl)
      · split
        · exact ih tail
        · exact ih tail

theorem mem_eventRows {events : List DecodedEvent} {row : EventRow}
    (h : row ∈ eventRows active batch events) : row.signature = batch.signature ∧
      row.slot = batch.slot ∧ events[row.index]? = some ⟨row.name, row.data⟩ := by
  obtain ⟨i, hi, rfl⟩ := List.mem_iff_getElem.mp h
  rw [eventRows, List.length_mapIdx] at hi
  simp only [eventRows, List.getElem_mapIdx, List.getElem?_eq_getElem hi, and_self]

theorem eventRows_keyed (active : Pubkey) (batch : LogBatch) {events : List DecodedEvent}
    {index : Nat} (h : index < events.length) :
    ∃ row ∈ eventRows active batch events, row.key = (batch.slot, batch.signature, index) := by
  have hi : index < (eventRows active batch events).length := by
    rw [eventRows, List.length_mapIdx]
    exact h
  refine ⟨_, List.getElem_mem hi, ?_⟩
  simp only [eventRows, List.getElem_mapIdx, EventRow.key]

theorem Stores.refl (tx : Landed) (db : Database) : Stores tx db db :=
  ⟨List.prefix_rfl, fun _ mem => .inl mem, fun h => h⟩

theorem Keyed.mono (keyed : Keyed tx db) (kept : db.events <+: db'.events) : Keyed tx db' :=
  fun index h => (kept.map _).subset (keyed index h)

/-- The batch of a transaction, with the time its events are stored under. -/
def batchOf (tx : Landed) (blockTime : Option Int) : LogBatch := ⟨tx.signature, tx.slot, blockTime⟩

theorem persist_stores (host : Host) (active : Pubkey) (tx : Landed) (blockTime : Option Int)
    (advanceCursor : Bool) (db : Database) :
    Stores tx db (persist host active (batchOf tx blockTime) advanceCursor tx.decoded db).1 := by
  refine ⟨createMany_grows _ db.events, ?_, createMany_nodup⟩
  intro row mem
  refine (createMany_mem mem).imp_right fun new => ?_
  obtain ⟨signature, slot, event⟩ := mem_eventRows new
  exact ⟨signature, slot, event⟩

theorem persist_keyed (host : Host) (active : Pubkey) (tx : Landed) (blockTime : Option Int)
    (advanceCursor : Bool) (db : Database) :
    Keyed tx (persist host active (batchOf tx blockTime) advanceCursor tx.decoded db).1 := by
  intro index h
  obtain ⟨row, mem, key⟩ := eventRows_keyed active (batchOf tx blockTime) h
  exact key ▸ createMany_keyed mem

theorem ingestSignature_eq (host : Host) (active : Pubkey) (logsRead : Bool) (tx : Landed)
    (db : Database) : ingestSignature host active logsRead tx db =
      if tx.err ∨ logsRead then
        (persist host active (batchOf tx tx.blockTime) true tx.decoded db).1
      else db := by
  rw [ingestSignature, Landed.decoded]
  cases tx.err with
  | true => rfl
  | false => cases logsRead <;> rfl

/-- A notification is dropped, or its events are stored and the cursor stays. -/
theorem subscribeToLogs_cases (host : Host) (active : Pubkey) (chainTime : Option Int)
    (synced : Bool) (tx : Landed) (db : Database) :
    subscribeToLogs host active tx.slot chainTime synced tx db = db ∨
      subscribeToLogs host active tx.slot chainTime synced tx db =
        (persist host active (batchOf tx chainTime) false tx.decoded db).1 := by
  rw [subscribeToLogs]
  split
  · exact .inl rfl
  · next kept =>
      have ok : ¬ tx.err = true := fun err => kept (.inl err)
      rw [Landed.decoded, if_neg ok]
      exact .inr rfl

/-- Exactly one row holds an event whose key is there. -/
theorem Keyed.storedOnce (keyed : Keyed tx db) (keys : (db.events.map EventRow.key).Nodup)
    (records : ∀ row ∈ db.events, row.signature = tx.signature → Records row tx) :
    StoredOnce tx db := by
  intro index event hevent
  obtain ⟨hi, -⟩ := List.getElem?_eq_some_iff.mp hevent
  obtain ⟨row, mem, key⟩ := List.mem_map.mp (keyed index hi)
  rw [EventRow.key, Prod.mk.injEq, Prod.mk.injEq] at key
  obtain ⟨slot, signature, place⟩ := key
  have stored := (records row mem signature).event
  rw [place, hevent] at stored
  obtain rfl := Option.some.inj stored
  refine ⟨row, ?_, rfl, rfl⟩
  have distinct := (keys.of_map _).filter fun row : EventRow =>
    decide (row.signature = tx.signature ∧ row.index = index)
  by_contra several
  rcases (distinct.ne_singleton_iff row).mp several with none | ⟨other, hother, ne⟩
  · have here : row ∈ db.events.filter fun row =>
        decide (row.signature = tx.signature ∧ row.index = index) :=
      List.mem_filter.mpr ⟨mem, decide_eq_true ⟨signature, place⟩⟩
    rw [none] at here
    exact List.not_mem_nil here
  · obtain ⟨mem', same⟩ := List.mem_filter.mp hother
    obtain ⟨signature', place'⟩ := of_decide_eq_true same
    refine ne (List.inj_on_of_nodup_map keys mem' mem ?_)
    rw [EventRow.key, EventRow.key, (records other mem' signature').slot, slot, signature',
      signature, place', place]

end Rows

/-! The cursor. -/

section Cursor
variable {host : Host} {active : Pubkey} {batch : LogBatch} {now : Int} {db : Database}

theorem find?_replaced {row : CursorRow} {f : CursorRow → CursorRow} (cursors : List CursorRow)
    (own : ∀ other : CursorRow, (f other).poolAddress = active ↔ other.poolAddress = active)
    (found : cursors.find? (fun other => other.poolAddress = active) = some row) :
    (cursors.map f).find? (fun other => other.poolAddress = active) = some (f row) := by
  have test : (fun other : CursorRow => decide (other.poolAddress = active)) ∘ f =
      fun other => decide (other.poolAddress = active) := by
    funext other
    exact decide_eq_decide.mpr (own other)
  rw [List.find?_map, test, found, Option.map_some]

/-- A batch no older than the cursor becomes it. -/
theorem advance_cursor (h : ∀ slot, lastSlot active db = some slot → slot ≤ batch.slot) :
    (advance host active batch db.cursors).find? (fun row => row.poolAddress = active) =
      some ⟨active, some batch.signature, some batch.slot, some host.nowSeconds⟩ := by
  have forward : (((db.cursors.find? fun row => row.poolAddress = active).bind
      CursorRow.lastSlot).all (· ≤ batch.slot)) = true := by
    rw [Option.all_eq_true]
    intro slot reached
    exact decide_eq_true (h slot reached)
  simp only [advance]
  rw [if_pos forward]
  split
  · next none => rw [List.find?_append, none, Option.none_or, List.find?_singleton, if_pos (by simp)]
  · next row found =>
      have own := List.find?_some found
      rw [find?_replaced db.cursors ?_ found, if_pos (of_decide_eq_true own)]
      intro other
      split
      · next same => exact ⟨fun _ => same, fun _ => rfl⟩
      · rfl

/-- The stamp leaves the cursor where it is. -/
theorem stampCursor_cursor : cursorOf active (stampCursor active now db) =
    some ⟨active, lastSignature active db, lastSlot active db, some now⟩ := by
  rw [cursorOf, stampCursor, lastSignature, lastSlot]
  cases found : cursorOf active db with
  | none =>
      rw [cursorOf] at found
      dsimp only
      rw [List.find?_append, found, Option.none_or, List.find?_singleton, if_pos (by simp)]
      rfl
  | some row =>
      rw [cursorOf] at found
      have kept := List.find?_some found
      have own : row.poolAddress = active := of_decide_eq_true kept
      dsimp only
      rw [find?_replaced db.cursors ?_ found, if_pos own, Option.bind_some, Option.bind_some, ← own]
      intro other
      split <;> rfl

end Cursor

/-! Where the cursor stands in the history. -/

/-- The cursor's signature is that of the last of the consumed transactions. -/
structure CursorAt (active : Pubkey) (s : Indexing) (consumed pending : List Finalized) :
    Prop where
  split : s.finalized = consumed ++ pending
  signature : lastSignature active s.db = consumed.getLast?.map fun tx => tx.signature

/-- The cursor stands, or it moves to the very next transaction. -/
def Advances (consumed pending consumed' pending' : List Finalized) : Prop :=
  (consumed' = consumed ∧ pending <+: pending') ∨
    ∃ tx, consumed' = consumed ++ [tx] ∧ pending = tx :: pending'

/-- Behind the cursor all events are stored, and its slot is known. -/
structure Position (active : Pubkey) (s : Indexing) (consumed pending : List Finalized) : Prop
    extends CursorAt active s consumed pending where
  listed : consumed.length ≤ s.listed
  slot : lastSlot active s.db = consumed.getLast?.map fun tx => tx.slot
  keyed : ∀ tx ∈ consumed, Keyed tx.toLanded s.db

/-- What the catch-up holds: the part of the list it has read, or what is left of the
signatures next to the cursor. -/
def Tracks (s : Indexing) (consumed pending : List Finalized) : Prop :=
  match s.phase with
  | .idle => True
  | .listing mark since backlog before =>
      mark = (consumed.getLast?.map fun tx => tx.signature) ∧
        Walking (fun tx : Finalized => tx.signature) mark since
          (s.finalized.take s.listed).reverse backlog before
  | .replaying since rest _ => rest <+: pending ∧ since ≤ consumed.length + rest.length ∧
      consumed.length + rest.length ≤ s.listed

/-- What a happening leaves: the position again, reached as the cursor moves. -/
def Leaves (active : Pubkey) (consumed pending : List Finalized) (s' : Indexing) : Prop :=
  ∃ consumed' pending', Position active s' consumed' pending' ∧ Tracks s' consumed' pending' ∧
    Advances consumed pending consumed' pending'

/-- The history is in order, and the Event table holds nothing else of it. -/
structure Consistent (s : Indexing) : Prop where
  signatures : (s.finalized.map fun tx => tx.signature).Nodup
  slots : s.finalized.Pairwise fun older newer => older.slot ≤ newer.slot
  listed : s.listed ≤ s.finalized.length
  keys : (s.db.events.map EventRow.key).Nodup
  records : ∀ row ∈ s.db.events, ∀ tx ∈ s.finalized, row.signature = tx.signature →
    Records row tx.toLanded

/-- A pool without a cursor and a history to come, on tables that may hold other pools' rows. -/
structure Begins (active : Pubkey) (s : Indexing) : Prop where
  finalized : s.finalized = []
  listed : s.listed = 0
  cursor : cursorOf active s.db = none
  keys : (s.db.events.map EventRow.key).Nodup
  phase : s.phase = .idle

section Steps
variable {generate : List ReferralCodeRow → List String → String} {active : Pubkey}
  {s s' : Indexing} {consumed pending : List Finalized}

theorem Position.served (position : Position active s consumed pending) :
    s.finalized.take s.listed = consumed ++ pending.take (s.listed - consumed.length) := by
  rw [position.split, List.take_append, List.take_of_length_le position.listed]

/-- A transaction of the history that was not consumed yet is no older than the cursor. -/
theorem Position.forward (position : Position active s consumed pending)
    (consistent : Consistent s) {tx : Finalized} (h : tx ∈ pending) :
    ∀ slot, lastSlot active s.db = some slot → slot ≤ tx.slot := by
  intro slot reached
  rw [position.slot] at reached
  obtain ⟨last, hlast, rfl⟩ := Option.map_eq_some_iff.mp reached
  have ordered := consistent.slots
  rw [position.split, List.pairwise_append] at ordered
  exact ordered.2.2 last (List.mem_of_getLast? hlast) tx h

theorem records_same (consistent : Consistent s) {tx other : Finalized} {row : EventRow}
    (hother : other ∈ s.finalized) (htx : tx ∈ s.finalized) (signature : row.signature = tx.signature)
    (same : row.signature = other.signature) (records : Records row tx.toLanded) :
    Records row other.toLanded := by
  obtain rfl := List.inj_on_of_nodup_map consistent.signatures hother htx (same.symm.trans signature)
  exact records

/-- Storing a transaction of the history keeps the tables consistent with it. -/
theorem Consistent.stores (consistent : Consistent s) {tx : Finalized} (htx : tx ∈ s.finalized)
    {db : Database} {phase : Phase} (stores : Stores tx.toLanded s.db db) :
    Consistent { s with db, phase } := by
  refine ⟨consistent.signatures, consistent.slots, consistent.listed,
    stores.keys consistent.keys, ?_⟩
  intro row hrow other hother same
  rcases stores.added row hrow with old | ⟨signature, records⟩
  · exact consistent.records row old other hother same
  · exact records_same consistent hother htx signature same records

theorem Consistent.finalize (consistent : Consistent s) {tx : Finalized}
    (new : tx.signature ∉ s.finalized.map fun tx => tx.signature)
    (order : ∀ other ∈ s.finalized, other.slot ≤ tx.slot)
    (known : ∀ row ∈ s.db.events, row.signature = tx.signature → Records row tx.toLanded) :
    Consistent { s with finalized := s.finalized ++ [tx] } := by
  refine ⟨?_, ?_, ?_, consistent.keys, ?_⟩
  · rw [List.map_append, List.map_singleton]
    refine List.nodup_append.mpr ⟨consistent.signatures, List.nodup_singleton _, ?_⟩
    intro signature old other last same
    obtain rfl := List.mem_singleton.mp last
    exact new (same ▸ old)
  · refine List.pairwise_append.mpr ⟨consistent.slots, List.pairwise_singleton _ _, ?_⟩
    intro other old last hlast
    obtain rfl := List.mem_singleton.mp hlast
    exact order other old
  · change s.listed ≤ (s.finalized ++ [tx]).length
    rw [List.length_append]
    exact Nat.le_trans consistent.listed (Nat.le_add_right _ _)
  · intro row hrow other hother same
    cases List.mem_append.mp hother with
    | inl old => exact consistent.records row hrow other old same
    | inr last =>
        obtain rfl := List.mem_singleton.mp last
        exact known row hrow same

/-- Reading on keeps the walk on track. -/
theorem turnPage_tracks {mark before : Option String} {since : Nat} {backlog : List Finalized}
    (consistent : Consistent s) (position : Position active s consumed pending)
    (phase : s.phase = .listing mark since backlog before) (tracks : Tracks s consumed pending) :
    Tracks { s with phase := turnPage mark since backlog (getSignaturesForAddress s before) }
      consumed pending := by
  simp only [Tracks, phase] at tracks
  obtain ⟨hmark, walking⟩ := tracks
  have served := position.served
  have inside : ((s.finalized.take s.listed).map fun tx => tx.signature).Nodup :=
    consistent.signatures.sublist ((List.take_sublist _ _).map _)
  have distinct : ((s.finalized.take s.listed).reverse.map fun tx => tx.signature).Nodup := by
    rw [List.map_reverse]
    exact List.nodup_reverse.mpr inside
  have unread : newerThan (fun tx : Finalized => tx.signature) mark
      (s.finalized.take s.listed).reverse =
        (pending.take (s.listed - consumed.length)).reverse := by
    rw [hmark, served]
    exact newerThan_reverse (served ▸ inside)
  rw [turnPage, getSignaturesForAddress]
  by_cases last : (reached (fun tx => tx.signature) mark (page (fun tx => tx.signature)
      SIGNATURE_PAGE before (s.finalized.take s.listed).reverse)).isSome = true ∨
    (page (fun tx : Finalized => tx.signature) SIGNATURE_PAGE before
      (s.finalized.take s.listed).reverse).length < SIGNATURE_PAGE
  · rw [if_pos last]
    have walked := walking.finish distinct (last.imp_left Option.isSome_iff_ne_none.mp)
    obtain ⟨fresh, whole, length⟩ := walked
    rw [unread] at whole
    generalize backlog ++ _ = collected at whole ⊢
    have split : pending.take (s.listed - consumed.length) = collected.reverse ++ fresh.reverse := by
      rw [← List.reverse_append, ← whole, List.reverse_reverse]
    refine ⟨?_, ?_⟩
    · refine List.IsPrefix.trans ?_ (List.take_prefix (s.listed - consumed.length) pending)
      rw [split]
      exact List.prefix_append _ _
    · have total := congrArg List.length served
      rw [split] at total
      have most := List.length_take_le s.listed s.finalized
      simp only [List.length_append, List.length_reverse] at total length ⊢
      omega
  · rw [if_neg last]
    obtain ⟨unmarked, full⟩ := not_or.mp last
    have none := Option.not_isSome_iff_eq_none.mp unmarked
    rw [newerThan, none]
    exact ⟨hmark, walking.next distinct (by decide) (Nat.not_lt.mp full) none⟩

/-- Tables with the cursor unmoved and no row gone leave the position as it was. -/
theorem Position.kept (position : Position active s consumed pending) {db : Database}
    {phase : Phase} (signature : lastSignature active db = lastSignature active s.db)
    (slot : lastSlot active db = lastSlot active s.db) (rows : s.db.events <+: db.events) :
    Position active { s with db, phase } consumed pending :=
  { split := position.split
    signature := signature.trans position.signature
    listed := position.listed
    slot := slot.trans position.slot
    keyed := fun tx h => (position.keyed tx h).mono rows }

theorem finalize_leaves {tx : Finalized} (consistent : Consistent s)
    (position : Position active s consumed pending) (tracks : Tracks s consumed pending) :
    Leaves active consumed pending { s with finalized := s.finalized ++ [tx] } := by
  refine ⟨consumed, pending ++ [tx], ?_, ?_, .inl ⟨rfl, List.prefix_append _ _⟩⟩
  · refine { position with split := ?_ }
    change s.finalized ++ [tx] = _
    rw [position.split, List.append_assoc]
  · rw [Tracks] at tracks ⊢
    dsimp only
    rw [List.take_append_of_le_length consistent.listed]
    cases hphase : s.phase with
    | idle => trivial
    | listing mark since backlog before =>
        rw [hphase] at tracks
        exact tracks
    | replaying since rest stopped =>
        rw [hphase] at tracks
        exact ⟨tracks.1.trans (List.prefix_append _ _), tracks.2⟩

theorem list_leaves {count : Nat} (consistent : Consistent s) (grows : s.listed ≤ count)
    (position : Position active s consumed pending) (tracks : Tracks s consumed pending) :
    Leaves active consumed pending { s with listed := count } := by
  refine ⟨consumed, pending, ?_, ?_, .inl ⟨rfl, List.prefix_rfl⟩⟩
  · exact { position with listed := Nat.le_trans position.listed grows }
  · rw [Tracks] at tracks ⊢
    dsimp only
    cases hphase : s.phase with
    | idle => trivial
    | replaying since rest stopped =>
        rw [hphase] at tracks
        exact ⟨tracks.1, tracks.2.1, Nat.le_trans tracks.2.2 grows⟩
    | listing mark since backlog before =>
        rw [hphase] at tracks
        obtain ⟨hmark, walking⟩ := tracks
        refine ⟨hmark, ?_⟩
        have more : s.finalized.take count = s.finalized.take s.listed ++
            (s.finalized.drop s.listed).take (count - s.listed) := by
          rw [← List.take_add, Nat.add_sub_cancel' grows]
        rw [more, List.reverse_append]
        refine walking.grow fun x hx same => ?_
        rw [hmark] at same
        obtain ⟨last, hlast, signature⟩ := Option.map_eq_some_iff.mp same
        have distinct := consistent.signatures
        rw [← List.take_append_drop s.listed s.finalized, List.map_append, List.nodup_append]
          at distinct
        have old : last ∈ s.finalized.take s.listed := by
          rw [position.served]
          exact List.mem_append_left _ (List.mem_of_getLast? hlast)
        have new := List.mem_of_mem_take (List.mem_reverse.mp hx)
        exact distinct.2.2 _ (List.mem_map_of_mem old) _ (List.mem_map_of_mem new) signature

/-- A notification stores what it brings and leaves the cursor. -/
theorem deliver_leaves {host : Host} {tx : Finalized} {chainTime : Option Int} {synced : Bool}
    (position : Position active s consumed pending) (tracks : Tracks s consumed pending) :
    Leaves active consumed pending
      { s with db := subscribeToLogs host active tx.slot chainTime synced tx.toLanded s.db } := by
  refine ⟨consumed, pending, ?_, tracks, .inl ⟨rfl, List.prefix_rfl⟩⟩
  rcases subscribeToLogs_cases host active chainTime synced tx.toLanded s.db with same | stored
  · rw [same]
    exact position
  · rw [stored]
    exact position.kept rfl rfl (persist_stores host active tx.toLanded chainTime false s.db).kept

theorem persist_cursor {tx : Finalized} (host : Host) (blockTime : Option Int)
    (consistent : Consistent s) (position : Position active s consumed (tx :: pending)) :
    cursorOf active
      (persist host active (batchOf tx.toLanded blockTime) true tx.decoded s.db).1 =
        some ⟨active, some tx.signature, some tx.slot, some host.nowSeconds⟩ :=
  advance_cursor (position.forward consistent List.mem_cons_self)

/-- The next transaction, once its events are stored, becomes the cursor. -/
theorem persist_position {host : Host} {tx : Finalized} {blockTime : Option Int} {phase : Phase}
    (consistent : Consistent s) (position : Position active s consumed (tx :: pending))
    (listed : consumed.length < s.listed) :
    Position active { s with
      db := (persist host active (batchOf tx.toLanded blockTime) true tx.decoded s.db).1
      phase } (consumed ++ [tx]) pending := by
  have moved := persist_cursor host blockTime consistent position
  have stores := persist_stores host active tx.toLanded blockTime true s.db
  have keyed := persist_keyed host active tx.toLanded blockTime true s.db
  generalize (persist host active (batchOf tx.toLanded blockTime) true tx.decoded s.db).1 = db
    at moved stores keyed ⊢
  refine ⟨⟨?_, ?_⟩, ?_, ?_, ?_⟩
  · change s.finalized = _
    rw [position.split, List.append_assoc, List.singleton_append]
  · rw [lastSignature, moved, List.getLast?_concat]
    rfl
  · change (consumed ++ [tx]).length ≤ s.listed
    rw [List.length_append]
    exact listed
  · rw [lastSlot, moved, List.getLast?_concat]
    rfl
  · intro other hother
    cases List.mem_append.mp hother with
    | inl old => exact (position.keyed other old).mono stores.kept
    | inr last =>
        obtain rfl := List.mem_singleton.mp last
        exact keyed

theorem ingest_leaves {host : Host} {tx : Finalized} {rest : List Finalized} {since : Nat}
    {logsRead : Bool} (consistent : Consistent s)
    (phase : s.phase = .replaying since (tx :: rest) false)
    (position : Position active s consumed pending) (tracks : Tracks s consumed pending) :
    Leaves active consumed pending { s with
      db := ingestSignature host active logsRead tx.toLanded s.db
      phase := if tx.err ∨ logsRead then .replaying since rest false
        else .replaying since (tx :: rest) true } := by
  simp only [Tracks, phase] at tracks
  obtain ⟨⟨newer, rfl⟩, since_le, listed⟩ := tracks
  rw [ingestSignature_eq]
  rw [List.length_cons] at since_le listed
  by_cases consumes : tx.err = true ∨ logsRead = true
  · rw [if_pos consumes, if_pos consumes]
    refine ⟨consumed ++ [tx], rest ++ newer, ?_, ?_, .inr ⟨tx, rfl, rfl⟩⟩
    · exact persist_position consistent position (by omega)
    · refine ⟨List.prefix_append _ _, ?_⟩
      simp only [List.length_append, List.length_cons, List.length_nil]
      omega
  · rw [if_neg consumes, if_neg consumes]
    refine ⟨consumed, tx :: rest ++ newer, ?_, ?_, .inl ⟨rfl, List.prefix_rfl⟩⟩
    · exact position.kept rfl rfl List.prefix_rfl
    · exact ⟨List.prefix_append _ _, since_le, listed⟩

/-- Whatever happens, the position is kept or moves to the next transaction. -/
theorem happens_leaves {a : Happening} (consistent : Consistent s)
    (position : Position active s consumed pending) (tracks : Tracks s consumed pending)
    (h : Happens generate active s a s') :
    Consistent s' ∧ Leaves active consumed pending s' := by
  cases h with
  | finalized new order _ known =>
      exact ⟨consistent.finalize new order known, finalize_leaves consistent position tracks⟩
  | listed grows known =>
      exact ⟨{ consistent with listed := known }, list_leaves consistent grows position tracks⟩
  | waited =>
      exact ⟨{ consistent with }, consumed, pending, { position with }, tracks,
        .inl ⟨rfl, List.prefix_rfl⟩⟩
  | @delivered tx chainTime synced member =>
      refine ⟨consistent.stores member ?_, deliver_leaves position tracks⟩
      rcases subscribeToLogs_cases ⟨s.now, generate⟩ active chainTime synced tx.toLanded s.db
        with same | stored
      · rw [same]
        exact .refl _ _
      · rw [stored]
        exact persist_stores ..
  | started phase =>
      refine ⟨{ consistent with }, consumed, pending, { position with }, ?_,
        .inl ⟨rfl, List.prefix_rfl⟩⟩
      have length : (s.finalized.take s.listed).reverse.length = s.listed := by
        rw [List.length_reverse, List.length_take]
        exact Nat.min_eq_left consistent.listed
      refine ⟨position.signature, ?_⟩
      conv => arg 3; rw [← length]
      exact Walking.start _ _
  | paged phase =>
      exact ⟨{ consistent with }, consumed, pending, { position with },
        turnPage_tracks consistent position phase tracks, .inl ⟨rfl, List.prefix_rfl⟩⟩
  | @ingested since tx rest logsRead phase =>
      have known : tx ∈ s.finalized := by
        simp only [Tracks, phase] at tracks
        rw [position.split]
        exact List.mem_append_right _ (tracks.1.subset List.mem_cons_self)
      refine ⟨consistent.stores known ?_, ingest_leaves consistent phase position tracks⟩
      rw [ingestSignature_eq]
      split
      · exact persist_stores ..
      · exact .refl _ _
  | stamped phase ended =>
      refine ⟨⟨consistent.signatures, consistent.slots, consistent.listed, consistent.keys,
        consistent.records⟩, consumed, pending, ?_, trivial, .inl ⟨rfl, List.prefix_rfl⟩⟩
      refine position.kept ?_ ?_ List.prefix_rfl
      · rw [lastSignature, stampCursor_cursor]
        rfl
      · rw [lastSlot, stampCursor_cursor]
        rfl
  | abandoned =>
      exact ⟨{ consistent with }, consumed, pending, { position with }, trivial,
        .inl ⟨rfl, List.prefix_rfl⟩⟩

theorem begins_position (h : Begins active s) : Position active s [] [] := by
  refine ⟨⟨h.finalized, ?_⟩, Nat.zero_le _, ?_, fun _ none => absurd none List.not_mem_nil⟩
  · rw [lastSignature, h.cursor]
    rfl
  · rw [lastSlot, h.cursor]
    rfl

theorem begins_consistent (h : Begins active s) : Consistent s := by
  refine ⟨?_, ?_, ?_, h.keys, ?_⟩
  · rw [h.finalized]
    exact List.nodup_nil
  · rw [h.finalized]
    exact List.Pairwise.nil
  · rw [h.listed]
    exact Nat.zero_le _
  · intro row _ tx htx
    rw [h.finalized] at htx
    exact absurd htx List.not_mem_nil

/-- In every run the tables stay consistent with the history and the cursor has a position. -/
theorem run_position {start : Indexing} {history : List (Indexing × Happening)}
    (h : Begins active start) (run : Steps (Happens generate active) start history s) :
    Consistent s ∧ ∃ consumed pending, Position active s consumed pending ∧
      Tracks s consumed pending := by
  refine run.invariant (P := fun _ s => Consistent s ∧ ∃ consumed pending,
    Position active s consumed pending ∧ Tracks s consumed pending) ?_ ?_
  · refine ⟨begins_consistent h, [], [], begins_position h, ?_⟩
    rw [Tracks, h.phase]
    trivial
  · intro _ _ _ _ _ holds step
    obtain ⟨consistent, consumed, pending, position, tracks⟩ := holds
    obtain ⟨consistent', consumed', pending', position', tracks', -⟩ :=
      happens_leaves consistent position tracks step
    exact ⟨consistent', consumed', pending', position', tracks'⟩

end Steps

/-- Behind the cursor every event is stored in one row; the cursor moves, if at all, to the
very next transaction; and a replay holds what follows the cursor, all of it that was
listed when its walk began. -/
theorem catchUp_exact {generate : List ReferralCodeRow → List String → String} {active : Pubkey}
    {start s : Indexing} {history : List (Indexing × Happening)} (h : Begins active start)
    (run : Steps (Happens generate active) start history s) :
    ∃ consumed pending, CursorAt active s consumed pending ∧
      (∀ tx ∈ consumed, StoredOnce tx.toLanded s.db) ∧
      (∀ since rest stopped, s.phase = .replaying since rest stopped →
        rest <+: pending ∧ since ≤ consumed.length + rest.length) ∧
      ∀ a s', Happens generate active s a s' → ∃ consumed' pending',
        CursorAt active s' consumed' pending' ∧
          Advances consumed pending consumed' pending' := by
  obtain ⟨consistent, consumed, pending, position, tracks⟩ := run_position h run
  refine ⟨consumed, pending, position.toCursorAt, ?_, ?_, ?_⟩
  · intro tx mem
    have known : tx ∈ s.finalized := by
      rw [position.split]
      exact List.mem_append_left _ mem
    exact (position.keyed tx mem).storedOnce consistent.keys fun row hrow same =>
      consistent.records row hrow tx known same
  · intro since rest stopped phase
    simp only [Tracks, phase] at tracks
    exact ⟨tracks.1, tracks.2.1⟩
  · intro a s' step
    obtain ⟨-, consumed', pending', position', -, advances⟩ :=
      happens_leaves consistent position tracks step
    exact ⟨consumed', pending', position'.toCursorAt, advances⟩

/-! A history of two signatures, listed, read and consumed. -/

namespace Demo

def funded : Finalized where
  signature := "a"
  slot := 10
  blockTime := some 1700
  err := false
  records := [⟨active, [.jackpotFunded 1]⟩]
  finalizedAt := 1800

def untouched : Indexing where
  finalized := []
  listed := 0
  now := 1800
  db := database
  phase := .idle

theorem untouched_begins : Begins active untouched :=
  ⟨rfl, rfl, rfl, List.nodup_nil, rfl⟩

def bought : Finalized where
  signature := "b"
  slot := 12
  blockTime := some 1701
  err := false
  records := [⟨active, [.jackpotFunded 2]⟩]
  finalizedAt := 1800

/-- The walk has listed both, and the second is stored as its logs were delivered. -/
def walked : Indexing where
  finalized := [funded, bought]
  listed := 2
  now := 1820
  db := subscribeToLogs ⟨1820, host.generateReferralCode⟩ active bought.slot (some 1701) true
    bought.toLanded database
  phase := .replaying 2 [funded, bought] false

/-- The first one's transaction could not be read, so the tick stopped; the next walks again. -/
def again : Indexing := { walked with db := stampCursor active 1820 walked.db }

def first : Indexing :=
  { again with
    db := ingestSignature ⟨1820, host.generateReferralCode⟩ active true funded.toLanded again.db
    phase := .replaying 2 [bought] false }

def both : Indexing :=
  { first with
    db := ingestSignature ⟨1820, host.generateReferralCode⟩ active true bought.toLanded first.db
    phase := .replaying 2 [] false }

theorem walked_run : ∃ history,
    Steps (Happens host.generateReferralCode active) untouched history walked := by
  refine ⟨_, Steps.next (Steps.next (Steps.next (Steps.next (Steps.next (Steps.next (Steps.next
    .start (a := .finalize funded) (.finalized ?_ ?_ rfl ?_))
    (a := .finalize bought) (.finalized ?_ ?_ rfl ?_)) (a := .list 2) (.listed ?_ ?_))
    (a := .wait 20) .waited)
    (a := .deliver bought (some 1701) true) (.delivered (List.mem_cons_of_mem _ ?_)))
    (a := .start) (.started rfl)) (@Happens.paged _ _ _ none none 2 [] rfl)⟩
  · exact List.not_mem_nil
  · exact fun _ none => absurd none List.not_mem_nil
  · exact fun _ none => absurd none List.not_mem_nil
  · decide
  · decide
  · exact fun _ none => absurd none List.not_mem_nil
  · decide
  · decide
  · exact List.mem_singleton.mpr rfl

theorem both_run : ∃ history,
    Steps (Happens host.generateReferralCode active) untouched history both := by
  obtain ⟨history, run⟩ := walked_run
  have stopped := (run.next (a := .ingest false) (.ingested rfl)).next (a := .stamp)
    (.stamped rfl (.inr rfl))
  have replayed : Steps (Happens host.generateReferralCode active) untouched _ again :=
    (stopped.next (a := .start) (.started rfl)).next (@Happens.paged _ _ _ none none 2 [] rfl)
  have one : Happens host.generateReferralCode active again (.ingest true) first := .ingested rfl
  have two : Happens host.generateReferralCode active first (.ingest true) both := .ingested rfl
  exact ⟨_, (replayed.next one).next two⟩

end Demo

/-- Two signatures, the first unavailable once and the second stored live before it is replayed. -/
theorem catchUp_exact_consumed : ∃ consumed pending,
    CursorAt Demo.active Demo.both consumed pending ∧ consumed = [Demo.funded, Demo.bought] ∧
      ∀ tx ∈ consumed, StoredOnce tx.toLanded Demo.both.db := by
  obtain ⟨history, run⟩ := Demo.both_run
  obtain ⟨consumed, pending, position, stored, -⟩ := catchUp_exact Demo.untouched_begins run
  have all : consumed = [Demo.funded, Demo.bought] := by
    have split : [Demo.funded, Demo.bought] = consumed ++ pending := position.split
    have last : some "b" = consumed.getLast?.map fun tx => tx.signature := position.signature
    rcases consumed with _ | ⟨tx, _ | ⟨tx', rest⟩⟩
    · exact nomatch last
    · obtain ⟨rfl, -⟩ := List.cons.inj split
      exact absurd last (by decide)
    · obtain ⟨rfl, tail⟩ := List.cons.inj split
      obtain ⟨rfl, none⟩ := List.cons.inj tail
      rw [(List.append_eq_nil_iff.mp none.symm).1]
  exact ⟨consumed, pending, position, all, stored⟩

end Indexer

end HexVault
