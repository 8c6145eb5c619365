import HexVault.Indexer.CatchUp
import HexVault.Operator.Service

/-!
The cursor's stamp as the operator reads it before it closes registration: the catch-up
writes it at every signature it consumes and at the end of a tick, and from its age alone
the operator infers that nothing of the ended epoch is missing.
-/

namespace HexVault

namespace Indexer

open Pages Runs Operator

/-- When the indexer last got anywhere, by the host's clock. -/
def stampOf (active : Pubkey) (db : Database) : Option Int :=
  (cursorOf active db).bind CursorRow.updatedAt

def indexerCursorInfo (active : Pubkey) (nowSeconds : Int) (db : Database) : IndexerCursor :=
  match stampOf active db with
  | none => { ageSeconds := none, updatedAt := none }
  | some updatedAt => { ageSeconds := some (nowSeconds - updatedAt), updatedAt := some updatedAt }

/-- The transactions of the history after the cursor, oldest first. -/
def unread (active : Pubkey) (s : Indexing) : List Finalized :=
  (newerThan (fun tx => tx.signature) (lastSignature active s.db) s.finalized.reverse).reverse

/-- A step that writes the stamp is the last of its listing: it leaves nothing of what was
listed, and nothing finalized in an earlier second was missing from it. -/
def Thorough (active : Pubkey) (x : Indexing × Happening) : Prop :=
  ∀ since rest stopped, x.1.phase = .replaying since rest stopped →
    match x.2 with
    | .ingest logsRead => ∀ tx later, rest = tx :: later → tx.err = true ∨ logsRead = true →
        later = [] ∧ ∀ other ∈ (unread active x.1).drop 1, x.1.now ≤ other.finalizedAt
    | .stamp => rest = [] ∧ ∀ other ∈ unread active x.1, x.1.now ≤ other.finalizedAt
    | _ => True

/-- All that the catch-up had listed before a step is consumed after it. -/
def ListingConsumed (active : Pubkey) (s s' : Indexing) : Prop :=
  ∀ since rest stopped, s.phase = .replaying since rest stopped → ∃ consumed pending,
    CursorAt active s' consumed pending ∧ (∀ tx ∈ rest, tx ∈ consumed) ∧
      since ≤ consumed.length

/-- The stamp is not in the future, and nothing unread was finalized before it. -/
def Truthful (active : Pubkey) (s : Indexing) : Prop :=
  ∀ updatedAt, stampOf active s.db = some updatedAt → updatedAt ≤ s.now ∧
    ∀ tx ∈ unread active s, updatedAt ≤ tx.finalizedAt

section Steps
variable {generate : List ReferralCodeRow → List String → String} {active : Pubkey}
  {s s' : Indexing} {a : Happening} {consumed pending : List Finalized}

theorem CursorAt.unread_eq (position : CursorAt active s consumed pending)
    (consistent : Consistent s) : unread active s = pending := by
  have distinct := consistent.signatures
  rw [position.split] at distinct
  rw [unread, position.signature, position.split, newerThan_reverse distinct, List.reverse_reverse]

/-- The history only grows, by what is finalized at the time. -/
theorem happens_finalized (h : Happens generate active s a s') : s.now ≤ s'.now ∧
    ∃ more, s'.finalized = s.finalized ++ more ∧ ∀ tx ∈ more, tx.finalizedAt = s.now := by
  cases h with
  | @finalized tx _ _ time =>
      refine ⟨Int.le_refl _, [tx], rfl, fun other mem => ?_⟩
      rw [List.mem_singleton.mp mem]
      exact time
  | @waited seconds =>
      refine ⟨?_, [], (List.append_nil _).symm, fun _ none => absurd none List.not_mem_nil⟩
      change s.now ≤ s.now + seconds
      omega
  | listed | delivered | started | paged | ingested | stamped | abandoned =>
      exact ⟨Int.le_refl _, [], (List.append_nil _).symm,
        fun _ none => absurd none List.not_mem_nil⟩

/-- Nothing becomes unread that was not finalized just now. -/
theorem happens_unread (consistent : Consistent s) (position : Position active s consumed pending)
    (tracks : Tracks s consumed pending) (h : Happens generate active s a s') :
    ∀ tx ∈ unread active s', tx ∈ unread active s ∨ tx.finalizedAt = s.now := by
  obtain ⟨consistent', consumed', pending', position', -, advances⟩ :=
    happens_leaves consistent position tracks h
  obtain ⟨-, more, grown, recent⟩ := happens_finalized h
  rw [position.unread_eq consistent, position'.unread_eq consistent']
  intro tx mem
  rcases advances with ⟨rfl, -⟩ | ⟨next, -, rfl⟩
  · rw [position'.split, position.split, List.append_assoc] at grown
    rw [List.append_cancel_left grown] at mem
    exact (List.mem_append.mp mem).imp_right (recent tx)
  · exact .inl (List.mem_cons_of_mem _ mem)

/-- The stamp moves at a signature that is consumed and at the end of a tick only. -/
theorem happens_stamp (consistent : Consistent s) (position : Position active s consumed pending)
    (tracks : Tracks s consumed pending) (h : Happens generate active s a s') :
    stampOf active s'.db = stampOf active s.db ∨ stampOf active s'.db = some s.now ∧
      ∃ since rest stopped, s.phase = .replaying since rest stopped ∧
        (a = .stamp ∨ ∃ logsRead tx later, a = .ingest logsRead ∧ rest = tx :: later ∧
          (tx.err = true ∨ logsRead = true) ∧ ∃ pending', pending = tx :: pending' ∧
            CursorAt active s' (consumed ++ [tx]) pending') := by
  cases h with
  | finalized | listed | waited | started | paged | abandoned => exact .inl rfl
  | @delivered tx chainTime synced =>
      rcases subscribeToLogs_cases ⟨s.now, generate⟩ active chainTime synced tx.toLanded s.db
        with same | stored
      · rw [same]
        exact .inl rfl
      · rw [stored]
        exact .inl rfl
  | stamped phase _ =>
      refine .inr ⟨?_, _, _, _, phase, .inl rfl⟩
      rw [stampOf, stampCursor_cursor]
      rfl
  | @ingested since tx rest logsRead phase =>
      rw [ingestSignature_eq]
      by_cases consumes : tx.err = true ∨ logsRead = true
      · simp only [Tracks, phase] at tracks
        obtain ⟨⟨newer, rfl⟩, -, listed⟩ := tracks
        rw [List.length_cons] at listed
        rw [if_pos consumes, if_pos consumes]
        refine .inr ⟨?_, since, tx :: rest, false, phase, .inr ⟨logsRead, tx, rest, rfl, rfl,
          consumes, rest ++ newer, rfl, ?_⟩⟩
        · rw [stampOf, persist_cursor _ _ consistent position]
          rfl
        · exact (persist_position consistent position (by omega)).toCursorAt
      · rw [if_neg consumes, if_neg consumes]
        exact .inl rfl

/-- A thorough step keeps the stamp true, and moves it only past a whole listing. -/
theorem happens_truthful (consistent : Consistent s) (position : Position active s consumed pending)
    (tracks : Tracks s consumed pending) (h : Happens generate active s a s')
    (thorough : Thorough active (s, a)) (truthful : Truthful active s) : Truthful active s' := by
  obtain ⟨later, -⟩ := happens_finalized h
  have known := happens_unread consistent position tracks h
  intro updatedAt stamped
  rcases happens_stamp consistent position tracks h with same | moved
  · rw [same] at stamped
    obtain ⟨past, unread⟩ := truthful updatedAt stamped
    refine ⟨Int.le_trans past later, fun tx mem => ?_⟩
    rcases known tx mem with old | new
    · exact unread tx old
    · exact new ▸ past
  · obtain ⟨now, since, rest, stopped, phase, stamps⟩ := moved
    obtain rfl := Option.some.inj (now.symm.trans stamped)
    refine ⟨later, fun tx mem => ?_⟩
    have whole := thorough since rest stopped phase
    rcases stamps with rfl | ⟨logsRead, next, tail, rfl, rfl, consumes, pending', rfl, position'⟩
    · rcases known tx mem with old | new
      · exact whole.2 tx old
      · exact Int.le_of_eq new.symm
    · obtain ⟨consistent', -⟩ := happens_leaves consistent position tracks h
      have unlisted := (whole next tail rfl consumes).2
      rw [position.unread_eq consistent] at unlisted
      rw [position'.unread_eq consistent'] at mem
      exact unlisted tx mem

theorem happens_listing (consistent : Consistent s) (position : Position active s consumed pending)
    (tracks : Tracks s consumed pending) (h : Happens generate active s a s')
    (thorough : Thorough active (s, a))
    (moves : stampOf active s'.db ≠ stampOf active s.db) : ListingConsumed active s s' := by
  intro since rest stopped phase
  obtain ⟨-, since', rest', stopped', phase', stamps⟩ :=
    (happens_stamp consistent position tracks h).resolve_left moves
  cases phase.symm.trans phase'
  simp only [Tracks, phase] at tracks
  have whole := thorough since rest stopped phase
  rcases stamps with rfl | ⟨logsRead, next, tail, rfl, rfl, consumes, pending', rfl, position'⟩
  · obtain ⟨-, consumed', pending', position', -, advances⟩ :=
      happens_leaves consistent position (by simpa only [Tracks, phase] using tracks) h
    refine ⟨consumed', pending', position'.toCursorAt, ?_, ?_⟩
    · rw [whole.1]
      exact fun _ none => absurd none List.not_mem_nil
    · have listed := tracks.2.1
      rw [whole.1, List.length_nil] at listed
      rcases advances with ⟨rfl, -⟩ | ⟨next, rfl, -⟩
      · exact listed
      · rw [List.length_append]
        omega
  · obtain rfl := (whole next tail rfl consumes).1
    refine ⟨consumed ++ [next], pending', position', ?_, ?_⟩
    · intro tx mem
      obtain rfl := List.mem_singleton.mp mem
      exact List.mem_append_right _ List.mem_cons_self
    · rw [List.length_append]
      exact tracks.2.1

theorem run_truthful {start : Indexing} {history : List (Indexing × Happening)}
    (h : Begins active start) (run : Steps (Happens generate active) start history s)
    (thorough : ∀ x ∈ history, Thorough active x) : Truthful active s := by
  refine run.invariantWhile (C := Thorough active) (P := fun _ s => Truthful active s) ?_ ?_
    thorough
  · intro updatedAt stamped
    rw [stampOf, h.cursor] at stamped
    exact nomatch stamped
  · intro _ _ _ _ before truthful thorough step
    obtain ⟨consistent, consumed, pending, position, tracks⟩ := run_position h before
    exact happens_truthful consistent position tracks step thorough truthful

end Steps

/-- Where every stamp is the last of its listing, a stamp that moves leaves the listing
consumed, and what the operator takes for fresh holds every event of the ended epoch. -/
theorem stamp_honest {generate : List ReferralCodeRow → List String → String} {active : Pubkey}
    {start s : Indexing} {history : List (Indexing × Happening)} (h : Begins active start)
    (run : Steps (Happens generate active) start history s)
    (thorough : ∀ x ∈ history, Thorough active x) :
    (∀ x ∈ history, ∀ s', Happens generate active x.1 x.2 s' →
      stampOf active s'.db ≠ stampOf active x.1.db → ListingConsumed active x.1 s') ∧
    ∀ nowSeconds thresholdSeconds epoch,
      indexerFreshForClose (indexerCursorInfo active nowSeconds s.db) thresholdSeconds epoch =
        true →
      ∀ tx ∈ s.finalized, tx.finalizedAt < epoch.endsAt → StoredOnce tx.toLanded s.db := by
  refine ⟨?_, ?_⟩
  · intro x mem s' step moves
    obtain ⟨later, earlier, u, rfl, before, -⟩ := run.split mem
    obtain ⟨consistent, consumed, pending, position, tracks⟩ := run_position h before
    exact happens_listing consistent position tracks step (thorough x mem) moves
  · intro nowSeconds thresholdSeconds epoch fresh tx mem ended
    obtain ⟨consistent, consumed, pending, position, -⟩ := run_position h run
    have truthful := run_truthful h run thorough
    rw [indexerCursorInfo] at fresh
    cases stamped : stampOf active s.db with
    | none =>
        rw [stamped] at fresh
        exact nomatch fresh
    | some updatedAt =>
        rw [stamped] at fresh
        have after := of_decide_eq_true (Bool.and_eq_true_iff.mp fresh).2
        obtain ⟨-, unread⟩ := truthful updatedAt stamped
        rw [position.unread_eq consistent] at unread
        rw [position.split] at mem
        have read : tx ∈ consumed := by
          refine (List.mem_append.mp mem).resolve_right fun left => ?_
          have late := unread tx left
          omega
        refine (position.keyed tx read).storedOnce consistent.keys fun row hrow same => ?_
        refine consistent.records row hrow tx ?_ same
        rw [position.split]
        exact mem

/-! One signature, listed twenty seconds after it was finalized: read in one tick, its
logs missing in the other. -/

namespace Demo

/-- The walk has listed the one signature twenty seconds after it was finalized. -/
def reading : Indexing where
  finalized := [funded]
  listed := 1
  now := 1820
  db := database
  phase := .replaying 1 [funded] false

/-- Before its one page. -/
def listing : Indexing := { reading with phase := .listing none 1 [] none }

theorem listing_page : Happens host.generateReferralCode active listing .page reading :=
  @Happens.paged _ _ listing none none 1 [] rfl

theorem reading_run : ∃ history, Steps (Happens host.generateReferralCode active) untouched
    history reading ∧ ∀ x ∈ history, ∀ since rest stopped,
      x.1.phase ≠ .replaying since rest stopped := by
  refine ⟨_, Steps.next (Steps.next (Steps.next (Steps.next (Steps.next .start
    (a := .finalize funded) (.finalized ?_ ?_ rfl ?_)) (a := .list 1) (.listed ?_ ?_))
    (a := .wait 20) .waited) (a := .start) (.started rfl)) listing_page, ?_⟩
  · exact List.not_mem_nil
  · exact fun _ none => absurd none List.not_mem_nil
  · exact fun _ none => absurd none List.not_mem_nil
  · decide
  · decide
  · intro x mem since rest stopped phase
    simp only [List.mem_cons, List.not_mem_nil, or_false] at mem
    rcases mem with rfl | rfl | rfl | rfl | rfl <;> exact nomatch phase

def consumed : Indexing :=
  { reading with
    db := ingestSignature ⟨1820, host.generateReferralCode⟩ active true funded.toLanded database
    phase := .replaying 1 [] false }

theorem reading_consumed : Happens host.generateReferralCode active reading (.ingest true)
    consumed :=
  .ingested rfl

/-- An epoch that ended after the signature was finalized, and before the tick. -/
def ended : Epoch where
  epochId := 1
  startsAt := 1710
  endsAt := 1810
  status := .registering
  registeredWeight := 0
  registeredCount := 0
  jackpotAmount := 0
  vrfSeed := []
  requestedAt := 0
  target := 0
  winner := ⟨0⟩
  drawnAt := 0
  registrationOpenedAt := 0

/-- The tick's end, on whatever tables its replay left. -/
def stamped (db : Database) : Indexing :=
  { reading with db := stampCursor active 1820 db, phase := .idle }

def stalled : Indexing := { reading with phase := .replaying 1 [funded] true }

theorem reading_stalled : Happens host.generateReferralCode active reading (.ingest false)
    stalled :=
  @Happens.ingested _ _ reading 1 funded [] false rfl

theorem consumed_stamped : Happens host.generateReferralCode active consumed .stamp
    (stamped consumed.db) :=
  .stamped rfl (.inl rfl)

theorem stalled_stamped : Happens host.generateReferralCode active stalled .stamp
    (stamped database) :=
  .stamped rfl (.inr rfl)

theorem consumed_unread : unread active consumed = [] := by decide +kernel

end Demo

theorem stamp_honest_consumed : ∃ history,
    Steps (Happens Demo.host.generateReferralCode Demo.active) Demo.untouched history
      (Demo.stamped Demo.consumed.db) ∧
    indexerFreshForClose (indexerCursorInfo Demo.active 1850 (Demo.stamped Demo.consumed.db).db)
      120 Demo.ended = true ∧
    StoredOnce Demo.funded.toLanded (Demo.stamped Demo.consumed.db).db := by
  obtain ⟨history, run, outside⟩ := Demo.reading_run
  have whole := (run.next Demo.reading_consumed).next Demo.consumed_stamped
  have fresh : indexerFreshForClose (indexerCursorInfo Demo.active 1850
      (Demo.stamped Demo.consumed.db).db) 120 Demo.ended = true := by decide +kernel
  refine ⟨_, whole, fresh, ?_⟩
  refine (stamp_honest Demo.untouched_begins whole ?_).2 1850 120 Demo.ended fresh Demo.funded
    List.mem_cons_self (by decide)
  refine List.forall_mem_cons.mpr ⟨?_, List.forall_mem_cons.mpr ⟨?_, ?_⟩⟩
  · intro since rest stopped phase
    cases phase
    refine ⟨rfl, fun tx mem => ?_⟩
    rw [Demo.consumed_unread] at mem
    exact absurd mem List.not_mem_nil
  · intro since rest stopped phase
    cases phase
    intro tx later split _
    obtain ⟨rfl, rfl⟩ := List.cons.inj split
    exact ⟨rfl, fun _ none => absurd none List.not_mem_nil⟩
  · intro x mem since rest stopped phase
    exact absurd phase (outside x mem since rest stopped)

/-- The logs of the one signature listed cannot be read, the tick stamps the cursor all the
same, and the operator finds the indexer fresh. -/
theorem stamp_lies : ∃ history,
    Steps (Happens Demo.host.generateReferralCode Demo.active) Demo.untouched history
      Demo.stalled ∧
    Happens Demo.host.generateReferralCode Demo.active Demo.stalled .stamp
      (Demo.stamped Demo.database) ∧
    stampOf Demo.active Demo.stalled.db = none ∧
    stampOf Demo.active (Demo.stamped Demo.database).db = some 1820 ∧
    ¬ ListingConsumed Demo.active Demo.stalled (Demo.stamped Demo.database) ∧
    indexerFreshForClose (indexerCursorInfo Demo.active 1850 (Demo.stamped Demo.database).db)
      120 Demo.ended = true ∧
    Demo.funded ∈ (Demo.stamped Demo.database).finalized ∧
    Demo.funded.finalizedAt < Demo.ended.endsAt ∧
    ¬ StoredOnce Demo.funded.toLanded (Demo.stamped Demo.database).db := by
  obtain ⟨history, run, -⟩ := Demo.reading_run
  refine ⟨_, run.next Demo.reading_stalled, Demo.stalled_stamped, rfl, by decide +kernel, ?_,
    by decide +kernel, List.mem_cons_self, by decide, ?_⟩
  · intro consumed
    obtain ⟨read, pending, position, all, -⟩ := consumed 1 [Demo.funded] true rfl
    have last : none = read.getLast?.map fun tx => tx.signature := position.signature
    cases hread : read.getLast? with
    | none =>
        rw [List.getLast?_eq_none_iff.mp hread] at all
        exact absurd (all _ List.mem_cons_self) List.not_mem_nil
    | some tx =>
        rw [hread] at last
        exact nomatch last
  · intro stored
    obtain ⟨row, only, -⟩ := stored 0 _ rfl
    exact nomatch only

end Indexer

end HexVault
