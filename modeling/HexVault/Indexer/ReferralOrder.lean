import HexVault.Indexer.Referrals

/-!
The Principal of a Referral row as the events are delivered: while they come in the order of
the chain, the row follows it.
-/

namespace HexVault

namespace Indexer

open Api Replicas Runs

/-- The stored transactions are whole, are of the history, and are the oldest of those that
change the wallet's Principal. -/
structure Ordered (owner : Pubkey) (s : Indexing) : Prop where
  known : ∀ row ∈ s.db.events, row.signature ∈ s.finalized.map fun tx => tx.signature
  whole : ∀ tx ∈ s.finalized, Keyed tx.toLanded s.db ∨
    ∀ row ∈ s.db.events, row.signature ≠ tx.signature
  downward : Downward (fun tx : Finalized => walletEvents owner tx.decoded)
    (fun tx => decide (Keyed tx.toLanded s.db)) s.finalized

/-- Some of the wallet's events were delivered, and its rows are advanced by these. -/
def Extends (owner : Pubkey) (s s' : Indexing) : Prop :=
  ∃ news blockTime, delivered owner s' = delivered owner s ++ news ∧
    ∀ row ∈ s'.db.referrals, row.referee = owner → ∃ old ∈ s.db.referrals,
      old.referee = owner ∧ row.state = advanceBy blockTime old.state news

section Stored
variable {owner : Pubkey} {s s' : Indexing} {tx other : Finalized} {db : Database} {phase : Phase}
  {host : Host} {active : Pubkey} {blockTime : Option Int} {advanceCursor : Bool}

theorem decoded_ne_nil (relevant : walletEvents owner tx.decoded ≠ []) :
    0 < tx.decoded.length := by
  refine List.length_pos_iff.mpr fun none => relevant ?_
  rw [none]
  rfl

/-- A transaction with no row is not stored, where it has an event to store. -/
theorem not_keyed (fresh : ∀ row ∈ db.events, row.signature ≠ tx.signature)
    (relevant : walletEvents owner tx.decoded ≠ []) : ¬ Keyed tx.toLanded db := by
  intro keyed
  obtain ⟨row, mem, key⟩ := List.mem_map.mp (keyed 0 (decoded_ne_nil relevant))
  exact fresh row mem (Prod.mk.inj (Prod.mk.inj key).2).1

/-- Storing one transaction's events stores no other's. -/
theorem keyed_iff_of_stores (stores : Stores tx.toLanded s.db db) (different :
    other.signature ≠ tx.signature) : Keyed other.toLanded db ↔ Keyed other.toLanded s.db := by
  constructor
  · intro keyed index h
    obtain ⟨row, mem, key⟩ := List.mem_map.mp (keyed index h)
    rcases stores.added row mem with old | ⟨signature, -⟩
    · exact key ▸ List.mem_map_of_mem old
    · exact absurd ((Prod.mk.inj (Prod.mk.inj key).2).1.symm.trans signature) different
  · exact fun keyed => keyed.mono stores.kept

/-- The history around one of its transactions: no other has its signature. -/
theorem Consistent.around (consistent : Consistent s) {before after : List Finalized}
    (split : s.finalized = before ++ tx :: after) :
    ∀ other ∈ before ++ after, other.signature ≠ tx.signature := by
  have distinct := consistent.signatures
  rw [split, List.map_append, List.map_cons, List.nodup_middle, ← List.map_append] at distinct
  intro other mem same
  exact (List.nodup_cons.mp distinct).1 (same ▸ List.mem_map_of_mem mem)

theorem Consistent.older (consistent : Consistent s) {before after : List Finalized}
    (split : s.finalized = before ++ tx :: after) :
    (s.finalized.takeWhile fun other => other.signature ≠ tx.signature) = before := by
  have different := consistent.around split
  rw [split, List.takeWhile_append_of_pos, List.takeWhile_cons_of_neg, List.append_nil]
  · simp
  · exact fun other mem => decide_eq_true (different other (List.mem_append_left _ mem))

/-- Storing one transaction leaves those around it as they were. -/
theorem applied_around (consistent : Consistent s) {before after : List Finalized}
    (split : s.finalized = before ++ tx :: after) (stores : Stores tx.toLanded s.db db) :
    ∀ other ∈ before ++ after, decide (Keyed other.toLanded db) =
      decide (Keyed other.toLanded s.db) := by
  intro other mem
  exact decide_eq_decide.mpr (keyed_iff_of_stores stores (consistent.around split other mem))

theorem applied_same (consistent : Consistent s) (mem : tx ∈ s.finalized)
    (stores : Stores tx.toLanded s.db db)
    (stored : walletEvents owner tx.decoded ≠ [] → Keyed tx.toLanded s.db) :
    ∀ other ∈ s.finalized, walletEvents owner other.decoded ≠ [] →
      decide (Keyed other.toLanded db) = decide (Keyed other.toLanded s.db) := by
  obtain ⟨before, after, split⟩ := List.append_of_mem mem
  intro other hother relevant
  rw [split] at hother
  rcases List.mem_append.mp hother with older | rest
  · exact applied_around consistent split stores other (List.mem_append_left _ older)
  · rcases List.mem_cons.mp rest with rfl | newer
    · exact decide_eq_decide.mpr (iff_of_true ((stored relevant).mono stores.kept) (stored relevant))
    · exact applied_around consistent split stores other (List.mem_append_right _ newer)

theorem stores_known (known : ∀ row ∈ s.db.events, row.signature ∈
      s.finalized.map fun tx => tx.signature) (mem : tx ∈ s.finalized)
    (stores : Stores tx.toLanded s.db db) :
    ∀ row ∈ db.events, row.signature ∈ s.finalized.map fun tx => tx.signature := by
  intro row hrow
  rcases stores.added row hrow with old | ⟨signature, -⟩
  · exact known row old
  · exact signature ▸ List.mem_map_of_mem mem

theorem stores_whole (consistent : Consistent s) (ordered : Ordered owner s)
    (mem : tx ∈ s.finalized) (stores : Stores tx.toLanded s.db db) (keyed : Keyed tx.toLanded db) :
    ∀ other ∈ s.finalized, Keyed other.toLanded db ∨
      ∀ row ∈ db.events, row.signature ≠ other.signature := by
  intro other hother
  by_cases same : other.signature = tx.signature
  · obtain rfl := List.inj_on_of_nodup_map consistent.signatures hother mem same
    exact .inl keyed
  · refine (ordered.whole other hother).imp (fun old => old.mono stores.kept) ?_
    intro fresh row hrow
    rcases stores.added row hrow with old | ⟨signature, -⟩
    · exact fresh row old
    · exact fun own => same (own.symm.trans signature)

/-- A transaction that is stored already, or changes nothing of the wallet's, is stored. -/
theorem store_same (consistent : Consistent s) (ordered : Ordered owner s) (mem : tx ∈ s.finalized)
    (stored : walletEvents owner tx.decoded ≠ [] → Keyed tx.toLanded s.db)
    (hdb : (persist host active (batchOf tx.toLanded blockTime) advanceCursor tx.decoded s.db).1 =
      db) : Ordered owner { s with db, phase } ∧ Extends owner s { s with db, phase } := by
  have stores := hdb ▸ persist_stores host active tx.toLanded blockTime advanceCursor s.db
  have keyed := hdb ▸ persist_keyed host active tx.toLanded blockTime advanceCursor s.db
  have known := stores_known ordered.known mem stores
  have whole := stores_whole consistent ordered mem stores keyed
  have same := applied_same consistent mem stores stored
  refine ⟨⟨known, whole, ordered.downward.congr same⟩, ?_⟩
  refine ⟨[], blockTime.getD host.nowSeconds, ?_, ?_⟩
  · rw [List.append_nil]
    exact collected_congr same
  · intro row hrow own
    rcases ordered.whole tx mem with before | fresh
    · have kept : db.referrals = s.db.referrals := hdb ▸ persist_referrals_stored before
      exact ⟨row, kept ▸ hrow, own, rfl⟩
    · have none : walletEvents owner tx.decoded = [] :=
        not_not.mp fun relevant => not_keyed fresh relevant (stored relevant)
      obtain ⟨old, hold, referee, state⟩ := persist_row fresh (hdb.symm ▸ hrow)
      rw [own, none] at state
      exact ⟨old, hold, referee.trans own, state⟩

/-- The next transaction that changes the wallet's Principal is stored. -/
theorem store_next (consistent : Consistent s) (ordered : Ordered owner s) (mem : tx ∈ s.finalized)
    (relevant : walletEvents owner tx.decoded ≠ []) (unstored : ¬ Keyed tx.toLanded s.db)
    (next : ∀ older ∈ s.finalized.takeWhile fun other => other.signature ≠ tx.signature,
      walletEvents owner older.decoded ≠ [] → Keyed older.toLanded s.db)
    (hdb : (persist host active (batchOf tx.toLanded blockTime) advanceCursor tx.decoded s.db).1 =
      db) : Ordered owner { s with db, phase } ∧ Extends owner s { s with db, phase } := by
  have stores := hdb ▸ persist_stores host active tx.toLanded blockTime advanceCursor s.db
  have keyed := hdb ▸ persist_keyed host active tx.toLanded blockTime advanceCursor s.db
  obtain ⟨before, after, split⟩ := List.append_of_mem mem
  have others := applied_around consistent split stores
  rw [consistent.older split] at next
  have downward := ordered.downward
  rw [split] at downward
  have fresh := (ordered.whole tx mem).resolve_left unstored
  have known := stores_known ordered.known mem stores
  have whole := stores_whole consistent ordered mem stores keyed
  refine ⟨⟨known, whole, ?_⟩, ?_⟩
  · change Downward _ _ s.finalized
    rw [split]
    exact downward.next relevant (decide_eq_false unstored)
      (fun older hOlder earlier => decide_eq_true (next older hOlder earlier))
      others (decide_eq_true keyed)
  · refine ⟨walletEvents owner tx.decoded, blockTime.getD host.nowSeconds, ?_, ?_⟩
    · change collected _ _ s.finalized = collected _ _ s.finalized ++ _
      rw [split]
      exact collected_next downward relevant (decide_eq_false unstored) (decide_eq_true keyed)
        others
    · intro row hrow own
      obtain ⟨old, hold, referee, state⟩ := persist_row fresh (hdb.symm ▸ hrow)
      rw [own] at state
      exact ⟨old, hold, referee.trans own, state⟩

theorem store_extends (consistent : Consistent s) (ordered : Ordered owner s)
    (mem : tx ∈ s.finalized) (inOrder : InOrder owner s tx)
    (hdb : (persist host active (batchOf tx.toLanded blockTime) advanceCursor tx.decoded s.db).1 =
      db) : Ordered owner { s with db, phase } ∧ Extends owner s { s with db, phase } := by
  by_cases stored : walletEvents owner tx.decoded ≠ [] → Keyed tx.toLanded s.db
  · exact store_same consistent ordered mem stored hdb
  · obtain ⟨relevant, unstored⟩ := Classical.not_imp.mp stored
    refine store_next consistent ordered mem relevant unstored ?_ hdb
    exact (inOrder.resolve_left relevant).resolve_left unstored

end Stored

section Happenings
variable {generate : List ReferralCodeRow → List String → String} {active owner : Pubkey}
  {s s' : Indexing} {tx : Finalized} {consumed pending : List Finalized}

theorem Extends.refl (owner : Pubkey) (s : Indexing) : Extends owner s s :=
  ⟨[], 0, (List.append_nil _).symm, fun row mem own => ⟨row, mem, own, rfl⟩⟩

/-- A transaction that was just finalized has delivered nothing. -/
theorem finalize_extends (ordered : Ordered owner s)
    (new : tx.signature ∉ s.finalized.map fun tx => tx.signature) :
    Ordered owner { s with finalized := s.finalized ++ [tx] } ∧
      Extends owner s { s with finalized := s.finalized ++ [tx] } := by
  have fresh : ∀ row ∈ s.db.events, row.signature ≠ tx.signature :=
    fun row mem same => new (same ▸ ordered.known row mem)
  have unapplied : walletEvents owner tx.decoded ≠ [] →
      decide (Keyed tx.toLanded s.db) = false :=
    fun relevant => decide_eq_false (not_keyed fresh relevant)
  refine ⟨⟨?_, ?_, ?_⟩, [], 0, ?_, fun row mem own => ⟨row, mem, own, rfl⟩⟩
  · intro row mem
    rw [List.map_append]
    exact List.mem_append_left _ (ordered.known row mem)
  · intro other mem
    rcases List.mem_append.mp mem with old | last
    · exact ordered.whole other old
    · exact .inr (List.mem_singleton.mp last ▸ fresh)
  · refine List.pairwise_append.mpr ⟨ordered.downward, List.pairwise_singleton _ _, ?_⟩
    intro older _ newest last relevant reached
    obtain rfl := List.mem_singleton.mp last
    exact absurd (reached.symm.trans (unapplied relevant)) nofun
  · rw [List.append_nil, delivered, delivered, collected_append]
    refine (congrArg _ (collected_none ?_)).trans (List.append_nil _)
    intro other last relevant
    obtain rfl := List.mem_singleton.mp last
    exact unapplied relevant

theorem inOrder_err {s : Indexing} (err : tx.err = true) : InOrder owner s tx := by
  refine .inl ?_
  rw [Landed.decoded, if_pos err]
  rfl

/-- The wallet's events go on being delivered oldest first, each to its rows. -/
theorem happens_extends {a : Happening} (consistent : Consistent s) (ordered : Ordered owner s)
    (position : Position active s consumed pending) (tracks : Tracks s consumed pending)
    (keeps : Keeps owner s a) (h : Happens generate active s a s') :
    Ordered owner s' ∧ Extends owner s s' := by
  cases h with
  | finalized new => exact finalize_extends ordered new
  | listed | waited | started _ | paged _ | abandoned =>
      exact ⟨⟨ordered.known, ordered.whole, ordered.downward⟩, .refl owner s⟩
  | stamped =>
      exact ⟨⟨ordered.known, ordered.whole, ordered.downward⟩, .refl owner s⟩
  | @delivered tx chainTime synced member =>
      rw [subscribeToLogs]
      split
      · exact ⟨ordered, .refl owner s⟩
      · next kept =>
          obtain ⟨ok, heard, -⟩ := not_or.mp kept |>.imp_right not_or.mp
          have decoded : decodeEventLogs tx.records = tx.decoded := by rw [Landed.decoded, if_neg ok]
          rw [decoded]
          exact store_extends consistent ordered member (keeps (Bool.not_eq_false _ ▸ heard)) rfl
  | @ingested since tx rest logsRead phase =>
      have member : tx ∈ s.finalized := by
        simp only [Tracks, phase] at tracks
        rw [position.split]
        exact List.mem_append_right _ (tracks.1.subset List.mem_cons_self)
      rw [ingestSignature_eq]
      split
      · next consumes =>
          refine store_extends consistent ordered member ?_ rfl
          rcases consumes with err | read
          · exact inOrder_err err
          · exact keeps read since tx rest phase
      · exact ⟨⟨ordered.known, ordered.whole, ordered.downward⟩, .refl owner s⟩

end Happenings

/-! The wallet's row. -/

/-- The row shows the Principal the delivered events leave, with the clock beside it, and the
chain the Principal that all events leave. -/
structure Followed (active owner : Pubkey) (s : Tracker) : Prop where
  consistent : Consistent s.indexing
  placed : ∃ consumed pending, Position active s.indexing consumed pending ∧
    Tracks s.indexing consumed pending
  ordered : Ordered owner s.indexing
  rows : ∀ row ∈ s.referrals, row.referee = owner →
    row.principal = deliveredPrincipal owner s.indexing ∧ row.state.Clocked
  chain : s.chain owner = (s.indexing.finalized.flatMap fun tx =>
    walletEvents owner tx.decoded).foldl nextPrincipal 0

section Occurrences
variable {generate : List ReferralCodeRow → List String → String} {active owner : Pubkey}
  {s s' : Tracker}

theorem Extends.rows {t t' : Indexing} (h : Extends owner t t')
    (rows : ∀ row ∈ t.db.referrals, row.referee = owner →
      row.principal = deliveredPrincipal owner t ∧ row.state.Clocked) :
    ∀ row ∈ t'.db.referrals, row.referee = owner →
      row.principal = deliveredPrincipal owner t' ∧ row.state.Clocked := by
  obtain ⟨news, blockTime, more, advanced⟩ := h
  intro row mem own
  obtain ⟨old, hold, referee, state⟩ := advanced row mem own
  obtain ⟨principal, clocked⟩ := rows old hold referee
  refine ⟨?_, state ▸ advanceBy_clocked clocked news⟩
  calc row.principal = (advanceBy blockTime old.state news).principal :=
        congrArg ReferralQualificationState.principal state
    _ = news.foldl nextPrincipal old.principal := advanceBy_principal old.state news
    _ = (delivered owner t ++ news).foldl nextPrincipal 0 := by
        rw [List.foldl_append, principal, deliveredPrincipal]
    _ = deliveredPrincipal owner t' := by rw [deliveredPrincipal, more]

theorem settles_chain {a : Happening} {t t' : Indexing} {chain chain' : Pubkey → Int}
    (h : Happens generate active t a t') (settles : Settles chain a chain')
    (before : chain owner = (t.finalized.flatMap fun tx =>
      walletEvents owner tx.decoded).foldl nextPrincipal 0) :
    chain' owner = (t'.finalized.flatMap fun tx =>
      walletEvents owner tx.decoded).foldl nextPrincipal 0 := by
  cases h with
  | @finalized tx =>
      have moved : ShiftsBy (chain owner) (walletEvents owner tx.decoded) (chain' owner) :=
        settles owner
      rw [← moved.foldl_eq, before, List.flatMap_append, List.foldl_append, List.flatMap_singleton]
  | listed | waited | delivered _ | started _ | paged _ | ingested _ | stamped _ _ | abandoned =>
      exact (congrFun settles owner).trans before

theorem Followed.setReferrals (followed : Followed active owner s) {referrals : List ReferralRow}
    (rows : ∀ row ∈ referrals, row.referee = owner →
      row.principal = deliveredPrincipal owner s.indexing ∧ row.state.Clocked) :
    Followed active owner (s.setReferrals referrals) := by
  obtain ⟨consumed, pending, position, tracks⟩ := followed.placed
  have consistent := followed.consistent
  have ordered := followed.ordered
  refine ⟨⟨consistent.signatures, consistent.slots, consistent.listed, consistent.keys,
    consistent.records⟩, ⟨consumed, pending, ?_, tracks⟩,
    ⟨ordered.known, ordered.whole, ordered.downward⟩, rows, followed.chain⟩
  exact ⟨⟨position.split, position.signature⟩, position.listed, position.slot, position.keyed⟩

/-- A row of the wallet's that the walk writes shows the Principal it read. -/
theorem reconcileReferrals_row {principalByOwner : Pubkey → Option Int} {now : Int}
    {read referrals : List ReferralRow} {row : ReferralRow}
    (h : row ∈ reconcileReferrals principalByOwner now read referrals) :
    row ∈ referrals ∨ row.state.Clocked ∧ ∃ old ∈ read, old.referee = row.referee ∧
      principalByOwner row.referee = some row.principal ∧ row.principal ≠ old.principal := by
  rcases foldl_updateReferral_row h with kept | ⟨update, mem, referee, state⟩
  · exact .inl kept
  · obtain ⟨old, hold, drifted⟩ := List.mem_filterMap.mp mem
    obtain ⟨own, found, different, clocked⟩ := driftedReferral_eq_some drifted
    have principal : row.principal = update.principal :=
      congrArg ReferralQualificationState.principal state
    rw [← state] at clocked
    refine .inr ⟨clocked, old, hold, own.symm.trans referee.symm, ?_, ?_⟩
    · rw [referee, own, principal]
      exact found
    · rw [principal]
      exact different

/-- What is in step keeps the row on the delivered events. -/
theorem occurs_followed {a : Occurrence} (followed : Followed active owner s)
    (inStep : InStep owner s a) (h : Occurs generate active s a s') :
    Followed active owner s' := by
  cases h with
  | indexed happens settles =>
      obtain ⟨consumed, pending, position, tracks⟩ := followed.placed
      obtain ⟨consistent, consumed', pending', position', tracks', -⟩ :=
        happens_leaves followed.consistent position tracks happens
      obtain ⟨ordered, extended⟩ :=
        happens_extends followed.consistent followed.ordered position tracks inStep happens
      exact ⟨consistent, ⟨consumed', pending', position', tracks'⟩, ordered,
        extended.rows followed.rows, settles_chain happens settles followed.chain⟩
  | mirrored | playerFound | referralsRead _ | playersRead _ | failed => exact { followed with }
  | @bound r referrer code principal read first =>
      refine followed.setReferrals fun row mem own => ?_
      rcases List.mem_append.mp mem with old | new
      · exact followed.rows row old own
      · obtain rfl := List.mem_singleton.mp new
        refine ⟨?_, applyReferralEvent_clocked _ _ r.boundAt⟩
        exact applyReferralEvent_principal.trans (inStep own)
  | @reconciled read principalByOwner now found =>
      have written : Followed active owner (s.setReferrals
          (reconcileReferrals principalByOwner now read s.referrals)) := by
        refine followed.setReferrals fun row mem own => ?_
        rcases reconcileReferrals_row mem with kept | ⟨clocked, old, hold, referee, actual, drifted⟩
        · exact followed.rows row kept own
        · refine ⟨?_, clocked⟩
          rw [own] at referee actual
          exact (inStep read principalByOwner now found old hold referee _ actual).resolve_left
            drifted
      exact { written with }

theorem starts_followed (h : StartsFor active owner s) : Followed active owner s := by
  have begins := h.begins
  refine ⟨begins_consistent begins, ⟨[], [], begins_position begins, ?_⟩, ⟨?_, ?_, ?_⟩, ?_, ?_⟩
  · rw [Tracks, begins.phase]
    trivial
  · intro row mem
    rw [h.events] at mem
    exact absurd mem List.not_mem_nil
  · intro tx mem
    rw [begins.finalized] at mem
    exact absurd mem List.not_mem_nil
  · rw [begins.finalized]
    exact List.Pairwise.nil
  · exact fun row mem own => absurd own (h.unbound row mem)
  · rw [begins.finalized]
    exact h.chain

/-- Once all is delivered the row shows the Principal on chain. -/
theorem Followed.agrees (followed : Followed active owner s)
    (all : AllDelivered owner s.indexing) : Agrees owner s := by
  have whole : deliveredPrincipal owner s.indexing = s.chain owner := by
    rw [followed.chain, deliveredPrincipal, delivered, collected_all]
    exact fun tx mem relevant => decide_eq_true (all tx mem relevant)
  intro row mem own
  obtain ⟨principal, clocked⟩ := followed.rows row mem own
  rw [whole] at principal
  refine ⟨principal, ?_⟩
  rw [← principal]
  exact clocked

theorem run_followed {start : Tracker} {history : List (Tracker × Occurrence)}
    (h : StartsFor active owner start) (run : Steps (Occurs generate active) start history s)
    (inStep : ∀ x ∈ history, InStep owner x.1 x.2) : Followed active owner s :=
  run.invariantWhile (C := fun x => InStep owner x.1 x.2) (P := fun _ s => Followed active owner s)
    (starts_followed h)
    (fun _ followed held occurs => occurs_followed followed held occurs) inStep

end Occurrences

/-- While the events are stored in the order of the chain, and no mirrored Principal that is
ahead of them or behind them is written, the row shows the Principal the chain had after the
events delivered so far, which are the wallet's first; after all of them, the one it has. -/
theorem referral_follows {generate : List ReferralCodeRow → List String → String}
    {active owner : Pubkey} {start s : Tracker} {history : List (Tracker × Occurrence)}
    (h : StartsFor active owner start) (run : Steps (Occurs generate active) start history s)
    (inStep : ∀ x ∈ history, InStep owner x.1 x.2) :
    delivered owner s.indexing <+: (s.indexing.finalized.flatMap fun tx =>
      walletEvents owner tx.decoded) ∧
    (∀ row ∈ s.referrals, row.referee = owner → row.principal = deliveredPrincipal owner s.indexing ∧
      (row.aboveSince ≠ none ↔ REFERRAL_QUALIFY_PRINCIPAL ≤ row.principal)) ∧
    (AllDelivered owner s.indexing → Agrees owner s) := by
  have followed := run_followed h run inStep
  exact ⟨followed.ordered.downward.collected_prefix, followed.rows, followed.agrees⟩

/-- A transaction with one event moves the Principal of its wallet alone. -/
theorem settles_one {chain : Pubkey → Int} {tx : Finalized} {owner : Pubkey}
    {event : ReferralPrincipalEvent} {principal : Int}
    (only : referralPrincipalEvents tx.decoded = [(owner, event)])
    (shift : Shifts (chain owner) event principal) :
    Settles chain (.finalize tx) (Function.update chain owner principal) := by
  intro other
  rw [walletEvents, only, changesOf_cons]
  by_cases own : owner = other
  · subst own
    rw [if_pos rfl, Function.update_self]
    exact .cons shift .nil
  · rw [if_neg own, Function.update_of_ne (Ne.symm own)]
    exact .nil

/-! A referee who deposits 100, asks for 40 back and deposits 20 more. -/

namespace Demo

def unbound : Tracker where
  indexing := { untouched with db := { database with referrals := [] } }
  chain := fun _ => 0
  players := fun _ => none
  bindings := []
  reconciliation := .idle

theorem unbound_startsFor : StartsFor active wallet.key unbound :=
  ⟨⟨rfl, rfl, rfl, List.nodup_nil, rfl⟩, rfl, nofun, rfl⟩

def redeeming : Redeem where
  wallet := wallet.key
  code := "code"
  referralCode := none
  redeemedAt := 1600
  boundAt := 1600
  grantedAt := 1600
  generateInviteCode := fun _ => ""

def emitted (signature : String) (slot : Nat) (event : Event) : Finalized where
  signature
  slot
  blockTime := some 1700
  err := false
  records := [⟨active, [event]⟩]
  finalizedAt := 1800

def deposit : Finalized := emitted "a" 10 (.deposited wallet.key 100000000 100000000 1)
def withdrawal : Finalized := emitted "b" 11 (.withdrawRequested wallet.key 40000000 40000000 1)
def topUp : Finalized := emitted "c" 12 (.deposited wallet.key 20000000 80000000 1)

abbrev Demonstrates : Tracker → Occurrence → Tracker → Prop :=
  Occurs host.generateReferralCode active

def landed (s : Tracker) (tx : Finalized) (principal : Int) : Tracker :=
  { s with
    indexing := { s.indexing with finalized := s.indexing.finalized ++ [tx] }
    chain := Function.update s.chain wallet.key principal }

def heard (s : Tracker) (tx : Finalized) : Tracker :=
  { s with indexing := { s.indexing with
      db := subscribeToLogs ⟨s.indexing.now, host.generateReferralCode⟩ active tx.slot (some 1700)
        true tx.toLanded s.indexing.db } }

/-- The catch-up has listed and read what was finalized. -/
def reread (s : Tracker) : Tracker :=
  { s with indexing := { s.indexing with
      listed := s.indexing.finalized.length
      phase := .replaying s.indexing.finalized.length s.indexing.finalized false } }

def replayed (s : Tracker) (since : Nat) (tx : Finalized) (rest : List Finalized) : Tracker :=
  { s with indexing := { s.indexing with
      db := ingestSignature ⟨s.indexing.now, host.generateReferralCode⟩ active true tx.toLanded
        s.indexing.db
      phase := .replaying since rest false } }

theorem landed_occurs {s : Tracker} {tx : Finalized} {event : ReferralPrincipalEvent}
    {principal : Int} (new : tx.signature ∉ s.indexing.finalized.map fun tx => tx.signature)
    (order : ∀ other ∈ s.indexing.finalized, other.slot ≤ tx.slot)
    (time : tx.finalizedAt = s.indexing.now)
    (fresh : ∀ row ∈ s.indexing.db.events, row.signature ≠ tx.signature)
    (only : referralPrincipalEvents tx.decoded = [(wallet.key, event)])
    (shift : Shifts (s.chain wallet.key) event principal) :
    Demonstrates s (.index (.finalize tx)) (landed s tx principal) :=
  .indexed (.finalized new order time fun row mem own => absurd own (fresh row mem))
    (settles_one only shift)

theorem heard_occurs {s : Tracker} {tx : Finalized} (mem : tx ∈ s.indexing.finalized) :
    Demonstrates s (.index (.deliver tx (some 1700) true)) (heard s tx) :=
  .indexed (.delivered mem) rfl

theorem replayed_occurs {s : Tracker} {since : Nat} {tx : Finalized} {rest : List Finalized}
    (phase : s.indexing.phase = .replaying since (tx :: rest) false) :
    Demonstrates s (.index (.ingest true)) (replayed s since tx rest) := by
  have step := @Happens.ingested host.generateReferralCode active _ _ _ _ true phase
  rw [if_pos (.inr rfl)] at step
  exact .indexed step rfl

/-- Steps that keep the referee's row in step. -/
abbrev LeadsInStep (s t : Tracker) : Prop :=
  Leads Demonstrates (fun x => InStep wallet.key x.1 x.2) s t

/-- The referee is bound, and its deposit is heard of. -/
def bound : Tracker :=
  { unbound with
    bindings := [(wallet.key, 0)]
    indexing := { unbound.indexing with db := { database with
      referrals := [bindReferral redeeming ⟨4⟩ "code" 0] } } }

def deposited : Tracker := heard (landed bound deposit 100000000) deposit

theorem bound_leads : LeadsInStep unbound bound := by
  refine (Leads.single (a := .findPlayer wallet.key) .playerFound trivial).trans
    (Leads.single (a := .bind redeeming ⟨4⟩ "code" 0) (.bound ?_ ?_) fun _ => rfl)
  · decide
  · exact List.not_mem_nil

theorem deposited_leads : LeadsInStep bound deposited := by
  refine (Leads.single (landed_occurs ?_ ?_ rfl ?_ ?_ (@Shifts.deposited 0 100000000))
    trivial).trans (Leads.single (heard_occurs ?_) fun _ => ?_)
  all_goals decide +kernel

/-- The withdrawal is missed. -/
def missed : Tracker := landed deposited withdrawal 60000000

theorem missed_leads : LeadsInStep deposited missed := by
  refine Leads.single (landed_occurs ?_ ?_ rfl ?_ ?_
    (@Shifts.withdrawRequested 100000000 40000000 ?_)) trivial
  all_goals decide +kernel

def walking (s : Tracker) : Indexing :=
  { s.indexing with
    listed := s.indexing.finalized.length
    phase := .listing (lastSignature active s.indexing.db) s.indexing.finalized.length [] none }

theorem reread_leads {s : Tracker} (listed : s.indexing.listed ≤ s.indexing.finalized.length)
    (idle : s.indexing.phase = .idle)
    (read : turnPage (lastSignature active s.indexing.db) s.indexing.finalized.length []
      (getSignaturesForAddress (walking s) none) =
        .replaying s.indexing.finalized.length s.indexing.finalized false) :
    LeadsInStep s (reread s) := by
  have list : LeadsInStep s { s with indexing := { s.indexing with
      listed := s.indexing.finalized.length } } :=
    Leads.single (a := .index (.list _)) (.indexed (.listed listed le_rfl) rfl) trivial
  have start : LeadsInStep { s with indexing := { s.indexing with
      listed := s.indexing.finalized.length } } { s with indexing := walking s } :=
    Leads.single (a := .index .start) (.indexed (.started idle) rfl) trivial
  have page : LeadsInStep { s with indexing := walking s } (reread s) := by
    have step := @Happens.paged host.generateReferralCode active (walking s) _ _ _ _ rfl
    rw [read] at step
    exact Leads.single (a := .index .page) (.indexed step rfl) trivial
  exact (list.trans start).trans page

/-- The catch-up replays it while it is the newest. -/
def recovered : Tracker :=
  replayed (replayed (reread missed) 2 deposit [withdrawal]) 2 withdrawal []

theorem recovered_leads : LeadsInStep missed recovered := by
  refine (reread_leads ?_ rfl ?_).trans ((Leads.single (replayed_occurs rfl) ?_).trans
    (Leads.single (replayed_occurs rfl) ?_))
  · decide +kernel
  · decide +kernel
  · intro _ _ _ _ phase
    cases phase
    decide +kernel
  · intro _ _ _ _ phase
    cases phase
    decide +kernel

/-- The second deposit is heard of before that. -/
def toppedUp : Tracker := heard (landed missed topUp 80000000) topUp

def caughtUp : Tracker :=
  replayed (replayed (replayed (reread toppedUp) 3 deposit [withdrawal, topUp]) 3 withdrawal
    [topUp]) 3 topUp []

theorem caughtUp_leads : Leads Demonstrates (fun _ => True) missed caughtUp := by
  refine (Leads.single (landed_occurs ?_ ?_ rfl ?_ ?_ (@Shifts.deposited 60000000 20000000))
    trivial).trans ((Leads.single (heard_occurs ?_) trivial).trans (((reread_leads ?_ rfl ?_).mono
      fun _ _ => trivial).trans ((Leads.single (replayed_occurs rfl) trivial).trans
        ((Leads.single (replayed_occurs rfl) trivial).trans
          (Leads.single (replayed_occurs rfl) trivial)))))
  all_goals decide +kernel

end Demo

theorem referral_follows_recovered : ∃ history,
    Steps Demo.Demonstrates Demo.unbound history Demo.recovered ∧
      Demo.recovered.referrals.map ReferralRow.state = [⟨60000000, some 1700⟩] ∧
        Agrees Demo.wallet.key Demo.recovered := by
  obtain ⟨history, run, inStep⟩ := ((Demo.bound_leads.trans Demo.deposited_leads).trans
    Demo.missed_leads).trans Demo.recovered_leads
  exact ⟨history, run, by decide +kernel,
    (referral_follows Demo.unbound_startsFor run inStep).2.2 (by decide +kernel)⟩

/-- A withdrawal the subscription missed is replayed after a deposit it did not: the deposit had
set the Principal to what the withdrawal left, and it is taken off again. -/
theorem referral_replayed_late : ∃ history,
    Steps Demo.Demonstrates Demo.unbound history Demo.caughtUp ∧
      AllDelivered Demo.wallet.key Demo.caughtUp.indexing ∧
      Demo.caughtUp.chain Demo.wallet.key = 80000000 ∧
      Demo.caughtUp.referrals.map ReferralRow.state = [⟨40000000, none⟩] ∧
      ¬ Agrees Demo.wallet.key Demo.caughtUp := by
  obtain ⟨history, run, -⟩ := (((Demo.bound_leads.trans Demo.deposited_leads).trans
    Demo.missed_leads).mono fun _ _ => trivial).trans Demo.caughtUp_leads
  refine ⟨history, run, by decide +kernel, by decide +kernel, by decide +kernel, ?_⟩
  intro agrees
  have shown : ∃ row ∈ Demo.caughtUp.referrals, row.referee = Demo.wallet.key ∧
      row.principal ≠ Demo.caughtUp.chain Demo.wallet.key := by decide +kernel
  obtain ⟨row, mem, own, different⟩ := shown
  exact different (agrees row mem own).1

end Indexer

end HexVault
