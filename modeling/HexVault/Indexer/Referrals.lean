import HexVault.Api.Redeem
import HexVault.Indexer.CatchUp
import HexVault.Indexer.Qualification
import HexVault.Lib.Replicas

/-!
What writes a Referral row's Principal: the events a transaction is stored with, live or from
the catch-up, the binding that creates the row, and the hourly walk that sets it to the
mirrored Player's. The last two read a mirror that follows the accounts and not the events.
-/

namespace HexVault

namespace Indexer

open Api Replicas Runs

/-- The changes that are one wallet's, in order. -/
def changesOf (owner : Pubkey) (changes : List (Pubkey × ReferralPrincipalEvent)) :
    List ReferralPrincipalEvent :=
  changes.filterMap fun change => if change.1 = owner then some change.2 else none

def walletEvents (owner : Pubkey) (events : List DecodedEvent) : List ReferralPrincipalEvent :=
  changesOf owner (referralPrincipalEvents events)

/-! The Principal on chain. -/

/-- What an event says happened to the Principal of its wallet: a deposit and a credit add to
it, and what is requested was there. -/
inductive Shifts : Int → ReferralPrincipalEvent → Int → Prop
  | deposited {principal amount : Int} :
      Shifts principal (.deposited (principal + amount)) (principal + amount)
  | withdrawRequested {principal amount : Int} (there : amount ≤ principal) :
      Shifts principal (.withdrawRequested amount) (principal - amount)
  | yieldCredited {principal amount : Int} :
      Shifts principal (.yieldCredited amount) (principal + amount)
  | jackpotPaid {principal amount : Int} :
      Shifts principal (.jackpotPaid amount) (principal + amount)

/-- The same of events one after the other. -/
inductive ShiftsBy : Int → List ReferralPrincipalEvent → Int → Prop
  | nil {principal : Int} : ShiftsBy principal [] principal
  | cons {principal next last : Int} {event : ReferralPrincipalEvent}
      {events : List ReferralPrincipalEvent} (first : Shifts principal event next)
      (rest : ShiftsBy next events last) : ShiftsBy principal (event :: events) last

theorem Shifts.nextPrincipal_eq {principal next : Int} {event : ReferralPrincipalEvent}
    (h : Shifts principal event next) : nextPrincipal principal event = next := by
  cases h with
  | deposited => rfl
  | withdrawRequested there =>
      rw [nextPrincipal]
      split <;> omega
  | yieldCredited => rfl
  | jackpotPaid => rfl

theorem ShiftsBy.foldl_eq {principal last : Int} {events : List ReferralPrincipalEvent}
    (h : ShiftsBy principal events last) : events.foldl nextPrincipal principal = last := by
  induction h with
  | nil => rfl
  | cons first _ ih => rw [List.foldl_cons, first.nextPrincipal_eq, ih]

/-! What the hourly walk writes. -/

/-- The new fields of one Referral. -/
structure ReferralUpdate where
  referee : Pubkey
  principal : Int
  aboveSince : Option Int
  deriving DecidableEq, Repr

/-- A Referral whose Principal is not the mirrored Player's is set to it. -/
def driftedReferral (principalByOwner : Pubkey → Option Int) (now : Int)
    (referral : ReferralRow) : Option ReferralUpdate :=
  match principalByOwner referral.referee with
  | none => none
  | some actual =>
      if actual = referral.principal then none
      else
        let next := applyReferralEvent ⟨referral.principal, referral.aboveSince⟩
          (.deposited actual) now
        some ⟨referral.referee, next.principal, next.aboveSince⟩

def updateReferral (referrals : List ReferralRow) (update : ReferralUpdate) : List ReferralRow :=
  referrals.map fun row =>
    if row.referee = update.referee then
      { row with principal := update.principal, aboveSince := update.aboveSince }
    else row

/-- The walk writes what it found with the rows it had read, whatever they are by then. -/
def reconcileReferrals (principalByOwner : Pubkey → Option Int) (now : Int)
    (read referrals : List ReferralRow) : List ReferralRow :=
  (read.filterMap (driftedReferral principalByOwner now)).foldl updateReferral referrals

/-! The whole of it, step by step. -/

/-- Where the walk stands. -/
inductive Reconciliation where
  | idle
  | referralsRead (read : List ReferralRow)
  | playersRead (read : List ReferralRow) (principalByOwner : Pubkey → Option Int) (now : Int)

/-- The indexer, the Principals on chain and in the mirror, the Principals that bindings have
read, and the walk. -/
structure Tracker where
  indexing : Indexing
  chain : Pubkey → Int
  players : Pubkey → Option Int
  bindings : List (Pubkey × Int)
  reconciliation : Reconciliation

inductive Occurrence where
  | index (happening : Happening)
  | mirror (owner : Pubkey) (principal : Int)
  | findPlayer (wallet : Pubkey)
  | bind (r : Redeem) (referrer : Pubkey) (code : String) (principal : Int)
  | readReferrals
  | readPlayers
  | reconcile
  | fail

namespace Tracker

def referrals (s : Tracker) : List ReferralRow := s.indexing.db.referrals

def setReferrals (s : Tracker) (referrals : List ReferralRow) : Tracker :=
  { s with indexing := { s.indexing with db := { s.indexing.db with referrals } } }

end Tracker

/-- A transaction moves the Principals on chain as its events say, and nothing else does. -/
def Settles (chain : Pubkey → Int) (a : Happening) (chain' : Pubkey → Int) : Prop :=
  match a with
  | .finalize tx => ∀ owner, ShiftsBy (chain owner) (walletEvents owner tx.decoded) (chain' owner)
  | _ => chain' = chain

section Occurs
variable (generate : List ReferralCodeRow → List String → String) (active : Pubkey)

/-- What one occurrence does. The mirror of a Player is whatever read of its account was
written last, and a binding creates its row some time after it read the Player. -/
inductive Occurs (s : Tracker) : Occurrence → Tracker → Prop
  | indexed {a : Happening} {indexing : Indexing} {chain : Pubkey → Int}
      (h : Happens generate active s.indexing a indexing) (settles : Settles s.chain a chain) :
      Occurs s (.index a) { s with indexing, chain }
  | mirrored {owner : Pubkey} {principal : Int} : Occurs s (.mirror owner principal) { s with
      players := Function.update s.players owner (some principal) }
  | playerFound {wallet : Pubkey} : Occurs s (.findPlayer wallet) { s with
      bindings := (wallet, (s.players wallet).getD 0) :: s.bindings }
  | bound {r : Redeem} {referrer : Pubkey} {code : String} {principal : Int}
      (read : (r.wallet, principal) ∈ s.bindings)
      (first : r.wallet ∉ s.referrals.map fun row => row.referee) :
      Occurs s (.bind r referrer code principal)
        (s.setReferrals (s.referrals ++ [bindReferral r referrer code principal]))
  | referralsRead (h : s.reconciliation = .idle) : Occurs s .readReferrals { s with
      reconciliation := .referralsRead s.referrals }
  | playersRead {read : List ReferralRow} (h : s.reconciliation = .referralsRead read) :
      Occurs s .readPlayers { s with
        reconciliation := .playersRead read s.players s.indexing.now }
  | reconciled {read : List ReferralRow} {principalByOwner : Pubkey → Option Int} {now : Int}
      (h : s.reconciliation = .playersRead read principalByOwner now) :
      Occurs s .reconcile { s.setReferrals
        (reconcileReferrals principalByOwner now read s.referrals) with reconciliation := .idle }
  | failed : Occurs s .fail { s with reconciliation := .idle }

end Occurs

/-! What has reached a row. -/

instance (tx : Landed) (db : Database) : Decidable (Keyed tx db) :=
  inferInstanceAs (Decidable (∀ index < tx.decoded.length, _))

section Delivered
variable (owner : Pubkey) (s : Indexing)

/-- The wallet's events whose transactions are stored, oldest first. -/
def delivered : List ReferralPrincipalEvent :=
  collected (fun tx : Finalized => walletEvents owner tx.decoded)
    (fun tx => decide (Keyed tx.toLanded s.db)) s.finalized

/-- The Principal on chain after them, where they are the first of the wallet's events. -/
def deliveredPrincipal : Int := (delivered owner s).foldl nextPrincipal 0

/-- Every event of the wallet was delivered. -/
def AllDelivered : Prop :=
  ∀ tx ∈ s.finalized, walletEvents owner tx.decoded ≠ [] → Keyed tx.toLanded s.db

/-- Storing a transaction's events now keeps the order of the wallet's: they are stored
already, or with those of every older transaction. -/
def InOrder (tx : Finalized) : Prop :=
  walletEvents owner tx.decoded = [] ∨ Keyed tx.toLanded s.db ∨
    ∀ older ∈ s.finalized.takeWhile fun other => other.signature ≠ tx.signature,
      walletEvents owner older.decoded ≠ [] → Keyed older.toLanded s.db

instance : Decidable (AllDelivered owner s) :=
  inferInstanceAs (Decidable (∀ tx ∈ s.finalized, _))

instance (tx : Finalized) : Decidable (InOrder owner s tx) :=
  inferInstanceAs (Decidable (_ ∨ _ ∨ ∀ older ∈ s.finalized.takeWhile _, _))

end Delivered

/-- What a happening stores it stores in order. -/
def Keeps (owner : Pubkey) (s : Indexing) : Happening → Prop
  | .deliver tx _ synced => synced = true → InOrder owner s tx
  | .ingest logsRead => logsRead = true → ∀ since tx rest,
      s.phase = .replaying since (tx :: rest) false → InOrder owner s tx
  | _ => True

/-- The wallet's row is written with the Principal that the delivered events have left: events
are stored in their order, and neither the binding nor the walk brings a mirrored Principal
that is ahead of them or behind them. -/
def InStep (owner : Pubkey) (s : Tracker) : Occurrence → Prop
  | .index a => Keeps owner s.indexing a
  | .bind r _ _ principal => r.wallet = owner → principal = deliveredPrincipal owner s.indexing
  | .reconcile => ∀ read principalByOwner now,
      s.reconciliation = .playersRead read principalByOwner now → ∀ row ∈ read,
        row.referee = owner → ∀ actual, principalByOwner owner = some actual →
          actual = row.principal ∨ actual = deliveredPrincipal owner s.indexing
  | _ => True

/-- The row shows the Principal on chain, and the clock runs just where that qualifies. -/
def Agrees (owner : Pubkey) (s : Tracker) : Prop :=
  ∀ row ∈ s.referrals, row.referee = owner → row.principal = s.chain owner ∧
    (row.aboveSince ≠ none ↔ REFERRAL_QUALIFY_PRINCIPAL ≤ s.chain owner)

/-- An indexer with empty tables, before the wallet's first event. -/
structure StartsFor (active owner : Pubkey) (s : Tracker) : Prop where
  begins : Begins active s.indexing
  events : s.indexing.db.events = []
  unbound : ∀ row ∈ s.referrals, row.referee ≠ owner
  chain : s.chain owner = 0

/-! What applying a batch does to the rows. -/

section Rows
variable {host : Host} {active : Pubkey} {batch : LogBatch} {blockTime : Int}
  {changes : List (Pubkey × ReferralPrincipalEvent)} {events : List DecodedEvent}
  {rows table : List EventRow} {tx : Landed} {db : Database}

/-- The clock of a row agrees with its Principal. -/
def ReferralQualificationState.Clocked (state : ReferralQualificationState) : Prop :=
  state.aboveSince ≠ none ↔ REFERRAL_QUALIFY_PRINCIPAL ≤ state.principal

def ReferralRow.state (row : ReferralRow) : ReferralQualificationState :=
  ⟨row.principal, row.aboveSince⟩

/-- A wallet's state after its events, all of one batch. -/
def advanceBy (blockTime : Int) (state : ReferralQualificationState)
    (events : List ReferralPrincipalEvent) : ReferralQualificationState :=
  events.foldl (fun state event => applyReferralEvent state event blockTime) state

theorem advanceBy_principal (state : ReferralQualificationState)
    (events : List ReferralPrincipalEvent) : (advanceBy blockTime state events).principal =
      events.foldl nextPrincipal state.principal := by
  rw [advanceBy]
  induction events generalizing state with
  | nil => rfl
  | cons event events ih =>
      rw [List.foldl_cons, List.foldl_cons, ih, applyReferralEvent_principal]

/-- Whatever the clock showed before an event, it agrees with the Principal after it. -/
theorem applyReferralEvent_clocked (state : ReferralQualificationState)
    (event : ReferralPrincipalEvent) (blockTime : Int) :
    (applyReferralEvent state event blockTime).Clocked := by
  rw [ReferralQualificationState.Clocked, applyReferralEvent_principal,
    applyReferralEvent_aboveSince]
  split
  · next below => exact iff_of_false (fun running => running rfl) (not_le.mpr below)
  · next reached =>
      refine iff_of_true ?_ (not_lt.mp reached)
      cases state.aboveSince <;> nofun

theorem advanceBy_clocked {state : ReferralQualificationState} (clocked : state.Clocked)
    (events : List ReferralPrincipalEvent) : (advanceBy blockTime state events).Clocked := by
  rw [advanceBy]
  induction events generalizing state with
  | nil => exact clocked
  | cons event events ih => exact ih (applyReferralEvent_clocked state event blockTime)

theorem changesOf_cons (owner : Pubkey) (change : Pubkey × ReferralPrincipalEvent) :
    changesOf owner (change :: changes) =
      if change.1 = owner then change.2 :: changesOf owner changes
      else changesOf owner changes := by
  rw [changesOf, List.filterMap_cons]
  split <;> simp_all [changesOf]

theorem changesOf_eq_nil {owner : Pubkey} (h : owner ∉ (changes.map Prod.fst).eraseDups) :
    changesOf owner changes = [] := by
  rw [List.mem_eraseDups] at h
  rw [changesOf, List.filterMap_eq_nil_iff]
  intro change mem
  refine if_neg fun own => h ?_
  rw [← own]
  exact List.mem_map_of_mem mem

/-- Each referee of a batch is advanced by its own events. -/
theorem foldl_advanceReferee (states : List (Pubkey × ReferralQualificationState)) :
    changes.foldl (advanceReferee blockTime) states =
      states.map fun entry => (entry.1, advanceBy blockTime entry.2 (changesOf entry.1 changes)) := by
  induction changes generalizing states with
  | nil => exact (List.map_id states).symm
  | cons change changes ih =>
      rw [List.foldl_cons, ih, advanceReferee, List.map_map]
      refine List.map_congr_left fun entry _ => ?_
      rw [Function.comp_apply, changesOf_cons]
      by_cases own : entry.1 = change.1
      · rw [if_pos own, if_pos own.symm]
        rfl
      · rw [if_neg own, if_neg (Ne.symm own)]

/-- A row after a batch is one from before, advanced by the events of its referee. -/
theorem applyReferralEvents_row {referrals : List ReferralRow} {row : ReferralRow}
    (h : row ∈ applyReferralEvents host batch changes referrals) : ∃ old ∈ referrals,
      old.referee = row.referee ∧ row.state =
        advanceBy (batch.blockTime.getD host.nowSeconds) old.state
          (changesOf row.referee changes) := by
  simp only [applyReferralEvents, foldl_advanceReferee, List.map_map] at h
  obtain ⟨old, mem, same⟩ := List.mem_map.mp h
  split at same
  · next next found =>
      obtain ⟨front, rest, entries, -⟩ := List.lookup_eq_some_iff.mp found
      have member : (old.referee, next) ∈ front ++ (old.referee, next) :: rest :=
        List.mem_append_right _ (List.mem_cons_self ..)
      rw [← entries] at member
      obtain ⟨source, hsource, entry⟩ := List.mem_map.mp member
      obtain ⟨owner, advanced⟩ := Prod.mk.inj entry
      refine ⟨source, (List.mem_filter.mp hsource).1, ?_, ?_⟩
      · rw [← same]
        exact owner
      · rw [← same]
        change next = advanceBy _ source.state (changesOf old.referee changes)
        rw [← advanced, ← show source.referee = old.referee from owner]
        rfl
  · next missing =>
      refine ⟨old, mem, same ▸ rfl, ?_⟩
      rw [← same, changesOf_eq_nil]
      · rfl
      · intro referee
        have seeded : old ∈ referrals.filter fun row =>
            decide (row.referee ∈ (changes.map Prod.fst).eraseDups) :=
          List.mem_filter.mpr ⟨mem, decide_eq_true referee⟩
        have other := List.lookup_eq_none_iff.mp missing _ (List.mem_map_of_mem seeded)
        exact absurd other (by simp)

/-- What the walk writes to a Referral: the Principal it read, with the clock beside it. -/
theorem driftedReferral_eq_some {principalByOwner : Pubkey → Option Int} {now : Int}
    {referral : ReferralRow} {update : ReferralUpdate}
    (h : driftedReferral principalByOwner now referral = some update) :
    update.referee = referral.referee ∧ principalByOwner referral.referee = some update.principal ∧
      update.principal ≠ referral.principal ∧
        ReferralQualificationState.Clocked ⟨update.principal, update.aboveSince⟩ := by
  rw [driftedReferral] at h
  split at h
  · exact nomatch h
  · next actual found =>
      split at h
      · exact nomatch h
      · next drifted =>
          obtain rfl := Option.some.inj h
          have principal : (applyReferralEvent ⟨referral.principal, referral.aboveSince⟩
              (.deposited actual) now).principal = actual := applyReferralEvent_principal
          refine ⟨rfl, ?_, ?_, applyReferralEvent_clocked _ _ now⟩
          · rw [principal]
            exact found
          · rw [principal]
            exact drifted

theorem foldl_updateReferral_row {updates : List ReferralUpdate} {referrals : List ReferralRow}
    {row : ReferralRow} (h : row ∈ updates.foldl updateReferral referrals) :
    row ∈ referrals ∨ ∃ update ∈ updates, row.referee = update.referee ∧
      row.state = ⟨update.principal, update.aboveSince⟩ := by
  induction updates generalizing referrals with
  | nil => exact .inl h
  | cons update updates ih =>
      rcases ih h with before | ⟨later, mem, written⟩
      · obtain ⟨old, hold, rfl⟩ := List.mem_map.mp before
        split
        · next own => exact .inr ⟨update, List.mem_cons_self .., own, rfl⟩
        · exact .inl hold
      · exact .inr ⟨later, List.mem_cons_of_mem _ mem, written⟩

/-- Nothing is created where every row is there. -/
theorem createMany_stored (stored : ∀ row ∈ rows, row.key ∈ table.map EventRow.key) :
    (createMany rows table).2 = 0 := by
  induction rows with
  | nil => rfl
  | cons row rows ih =>
      rw [createMany, if_pos (stored row (List.mem_cons_self ..))]
      exact ih fun other mem => stored other (List.mem_cons_of_mem _ mem)

theorem createMany_fresh {row : EventRow} (fresh : row.key ∉ table.map EventRow.key) :
    0 < (createMany (row :: rows) table).2 := by
  rw [createMany, if_neg fresh]
  exact Nat.succ_pos _

/-- A transaction stored before leaves the Referrals alone. -/
theorem persist_referrals_stored {blockTime : Option Int} {advanceCursor : Bool}
    (keyed : Keyed tx db) : (persist host active (batchOf tx blockTime) advanceCursor tx.decoded
      db).1.referrals = db.referrals := by
  have created : (createMany (eventRows active (batchOf tx blockTime) tx.decoded) db.events).2 = 0 := by
    refine createMany_stored fun row mem => ?_
    obtain ⟨signature, slot, event⟩ := mem_eventRows mem
    rw [EventRow.key, signature, slot]
    exact keyed row.index (List.getElem?_eq_some_iff.mp event).1
  rw [persist]
  exact if_neg fun both => Nat.ne_of_gt both.2 created

/-- A row after a transaction is stored that was not before. -/
theorem persist_row {blockTime : Option Int} {advanceCursor : Bool} {row : ReferralRow}
    (fresh : ∀ row ∈ db.events, row.signature ≠ tx.signature)
    (h : row ∈ (persist host active (batchOf tx blockTime) advanceCursor tx.decoded
      db).1.referrals) : ∃ old ∈ db.referrals, old.referee = row.referee ∧ row.state =
        advanceBy (blockTime.getD host.nowSeconds) old.state
          (walletEvents row.referee tx.decoded) := by
  rw [persist] at h
  dsimp only at h
  split at h
  · exact applyReferralEvents_row h
  · next idle =>
      refine ⟨row, h, rfl, ?_⟩
      have none : referralPrincipalEvents tx.decoded = [] := by
        by_contra relevant
        refine idle ⟨relevant, ?_⟩
        cases events : tx.decoded with
        | nil => exact absurd (events ▸ rfl) relevant
        | cons event rest =>
            rw [eventRows, List.mapIdx_cons]
            refine createMany_fresh fun stored => ?_
            obtain ⟨other, mem, key⟩ := List.mem_map.mp stored
            exact fresh other mem (Prod.mk.inj (Prod.mk.inj key).2).1
      rw [walletEvents, none]
      rfl

end Rows

end Indexer

end HexVault
