import HexVault.Indexer.Mirror
import HexVault.Program.Instructions
import HexVault.Lib.Fallible

/-!
When the mirror only goes forward. `freshWrites` holds the slot a refresh was notified of,
not the one its read was answered from; a sweep asks it when it filters and commits later;
a Position deleted for an event leaves no entry, and a refresh asks nothing. `Orderly` says
of each step what keeps these apart, and a run of such steps never writes an account from a
slot older than one it was written from before.
-/

namespace HexVault

namespace Indexer

open CommitLog Fallible Runs

/-- The accounts a refresh has read and not written yet. -/
def Refresh.unapplied (refresh : Refresh) : List Address :=
  if refresh.recording then refresh.rest.tail else refresh.rest

/-- All that was written of an account was there at the sweep's slot, or comes from a refresh
whose entry holds a later one. -/
def Judged (s : Mirror) (slot : Nat) (address : Address) : Prop :=
  ∀ c ∈ s.commits, c.touches address = true →
    match c.source with
    | .sweep => True
    | .event => c.slot ≤ slot
    | .refresh notified => c.slot ≤ slot ∨
        slot < notified ∧ ⟨address, notified, c.slot⟩ ∈ s.recorded

/-- Reads are answered in order, a refresh's entry and its read are on one side of a sweep's
slot, and neither a sweep nor the log path commits a later read of an account between the
other's read of it and its write. -/
def Orderly (x : Mirror × MirrorEvent) : Prop :=
  match x.2 with
  | .refresh _ read openRound events =>
      ∀ address ∈ wantedAccounts x.1.currentEpochId openRound events,
        UpTo x.1.commits address read
  | .apply => ∀ refresh ∈ x.1.refresh, ∀ sweep ∈ x.1.sweep, ∀ batch ∈ sweep.batch,
      ∀ address ∈ refresh.rest.head?, (batch.stores address).isSome → refresh.read ≤ sweep.slot
  | .sweep slot _ _ => ∀ older ∈ x.1.swept, older ≤ slot
  | .filter => ∀ sweep ∈ x.1.sweep, ∀ stage ∈ sweep.stages.head?, ∀ address ∈ sweep.accounts,
      stage.writes sweep address = true → Judged x.1 sweep.slot address
  | .commit => ∀ refresh ∈ x.1.refresh, ∀ sweep ∈ x.1.sweep, ∀ batch ∈ sweep.batch,
      ∀ address ∈ refresh.unapplied, (batch.writes x.1.rows address).isSome →
        sweep.slot ≤ refresh.read
  | .persist slot events => ∀ sweep ∈ x.1.sweep, ∀ batch ∈ sweep.batch,
      ∀ settled ∈ events.filterMap settledPosition,
        (batch.stores (.position settled.2.toNat settled.1)).isSome → slot ≤ sweep.slot
  | _ => True

/-! What a step is. -/

inductive MirrorMove (chain : Nat → World) (s : Mirror) : MirrorEvent → Mirror → Prop
  | notified {slot read : Nat} {openRound : Option Nat} {events : List DecodedEvent} :
      MirrorMove chain s (.refresh slot read openRound events) { s with
        refresh := some ⟨slot, read, wantedAccounts s.currentEpochId openRound events, false⟩ }
  | applied {refresh : Refresh} {address : Address} {rest : List Address}
      (reading : s.refresh = some refresh) (first : refresh.rest = address :: rest)
      (unwritten : refresh.recording = false) :
      MirrorMove chain s .apply
        { s.push refresh.read (.refresh refresh.notified)
            (only address (readAccount (chain refresh.read) address)) with
          refresh := some { refresh with recording := true } }
  | skipped {refresh : Refresh} {address : Address} {rest : List Address}
      (reading : s.refresh = some refresh) (first : refresh.rest = address :: rest)
      (unwritten : refresh.recording = false) :
      MirrorMove chain s .apply { s with refresh := some { refresh with rest } }
  | recorded {refresh : Refresh} {address : Address} {rest : List Address}
      (reading : s.refresh = some refresh) (first : refresh.rest = address :: rest)
      (written : refresh.recording = true) :
      MirrorMove chain s .record (recordFresh refresh address rest s)
  | ended : MirrorMove chain s .refreshEnds { s with refresh := none }
  | fetched {slot : Nat} {full : Bool} {accounts : List Address} :
      MirrorMove chain s (.sweep slot full accounts) { s with
        sweep := some ⟨slot, full, accounts, stages full, none⟩
        swept := slot :: s.swept }
  | filtered {sweep : Sweep} {stage : Stage} {rest : List Stage} (walked : s.sweep = some sweep)
      (first : sweep.stages = stage :: rest) :
      MirrorMove chain s .filter { s with
        sweep := some { sweep with batch := some (stage.batch chain sweep s) } }
  | committed {sweep : Sweep} {rest : List Stage} {batch : Batch}
      (walked : s.sweep = some sweep) (ready : sweep.batch = some batch) :
      MirrorMove chain s .commit (commitBatch sweep rest batch s)
  | synced {sweep : Sweep} (walked : s.sweep = some sweep) :
      MirrorMove chain s .synced (synced sweep s)
  | failed : MirrorMove chain s .sweepFails { s with sweep := none }
  | persisted {slot : Nat} {events : List DecodedEvent} (idle : s.refresh = none) :
      MirrorMove chain s (.persist slot events) (persistMirror slot events s)
  | restarted : MirrorMove chain s .restart { s with
      freshWrites := fun _ => none
      lastSyncedSlot := none
      refresh := none
      sweep := none
      recorded := [] }

section Moves
variable {chain : Nat → World} {s s' : Mirror} {event : MirrorEvent}

theorem mirror_move (h : Mirror.Step chain s event s') : MirrorMove chain s event s' := by
  rw [Mirror.Step] at h
  cases event with
  | refresh slot read openRound events =>
      rw [mirror] at h
      split at h
      · obtain rfl := Option.some.inj h
        exact .notified
      · exact nomatch h
  | apply =>
      rw [mirror] at h
      split at h
      · next notified read address rest reading =>
          obtain rfl := Option.some.inj h
          rw [applyAccount]
          split
          · exact .applied reading rfl rfl
          · exact .skipped reading rfl rfl
      · exact nomatch h
  | record =>
      rw [mirror] at h
      split at h
      · next reading =>
          obtain rfl := Option.some.inj h
          exact .recorded reading rfl rfl
      · exact nomatch h
  | refreshEnds =>
      rw [mirror] at h
      split at h
      · obtain rfl := Option.some.inj h
        exact .ended
      · exact nomatch h
  | sweep slot full accounts =>
      obtain ⟨-, same⟩ := Option.ite_none_right_eq_some.mp h
      obtain rfl := Option.some.inj same
      exact .fetched
  | filter =>
      rw [mirror] at h
      split at h
      · next walked =>
          obtain rfl := Option.some.inj h
          exact .filtered walked rfl
      · exact nomatch h
  | commit =>
      rw [mirror] at h
      split at h
      · next walked =>
          obtain rfl := Option.some.inj h
          exact .committed walked rfl
      · exact nomatch h
  | synced =>
      rw [mirror] at h
      split at h
      · next walked =>
          obtain rfl := Option.some.inj h
          exact .synced walked
      · exact nomatch h
  | sweepFails =>
      obtain rfl := Option.some.inj h
      exact .failed
  | persist slot events =>
      rw [mirror] at h
      split at h
      · next idle =>
          obtain rfl := Option.some.inj h
          exact .persisted idle
      · exact nomatch h
  | restart =>
      obtain rfl := Option.some.inj h
      exact .restarted

@[simp] theorem push_commits (slot : Nat) (source : Source)
    (writes : Address → Option (Option Account)) :
    (s.push slot source writes).commits = ⟨slot, source, writes⟩ :: s.commits := rfl

theorem recordFresh_recorded {refresh : Refresh} {address : Address} {rest : List Address} :
    (recordFresh refresh address rest s).recorded =
      ⟨address, refresh.notified, refresh.read⟩ :: s.recorded := rfl

theorem recordFresh_freshWrites {refresh : Refresh} {address : Address} {rest : List Address} :
    (recordFresh refresh address rest s).freshWrites =
      Function.update s.freshWrites address (some refresh.notified) := rfl

theorem synced_freshWrites {sweep : Sweep} {address : Address} :
    (synced sweep s).freshWrites address =
      (s.freshWrites address).filter fun written => sweep.slot < written := rfl

theorem only_touches {address other : Address} {content : Option Account} {slot : Nat}
    {source : Source} :
    (⟨slot, source, only address content⟩ : AccountCommit).touches other = true ↔
      other = address := by
  change (only address content other).isSome = true ↔ other = address
  rw [only]
  by_cases same : other = address
  · rw [if_pos same]
    exact ⟨fun _ => same, fun _ => rfl⟩
  · rw [if_neg same]
    exact ⟨nofun, fun h => absurd h same⟩

theorem stored_of_writes {batch : Batch} {rows : Address → Option Account} {address : Address}
    {account : Account} (h : batch.writes rows address = some (some account)) :
    batch.stores address = some account := by
  rw [Batch.writes] at h
  cases stored : batch.stores address with
  | some other =>
      rw [stored] at h
      exact Option.some.inj h
  | none =>
      rw [stored] at h
      dsimp only at h
      split at h
      · exact nomatch h
      · exact nomatch h

theorem mem_of_writes {sweep : Sweep} {stage : Stage} {address : Address}
    (h : stage.writes sweep address = true) : address ∈ sweep.accounts := by
  cases stage with
  | upsert kind => exact of_decide_eq_true (Bool.and_eq_true_iff.mp h).1
  | closeRounds => exact nomatch h
  | positions =>
      cases address with
      | position id owner => exact of_decide_eq_true (Bool.and_eq_true_iff.mp h).1
      | pool | epoch | round | player => exact nomatch h

/-- Where a commit comes from: a sweep that has started, a refresh that has recorded it or is
about to; and what it stores was on the chain at its slot. -/
structure MirrorSourced (chain : Nat → World) (s : Mirror) : Prop where
  swept : ∀ c ∈ s.commits, c.source = .sweep → c.slot ∈ s.swept
  current : ∀ sweep, s.sweep = some sweep → sweep.slot ∈ s.swept
  recorded : ∀ f ∈ s.recorded, ∃ c ∈ s.commits, c.touches f.address = true ∧
    c.slot = f.read ∧ c.source = .refresh f.notified
  recording : ∀ refresh address rest, s.refresh = some refresh → refresh.recording = true →
    refresh.rest = address :: rest → ∃ c ∈ s.commits, c.touches address = true ∧
      c.slot = refresh.read ∧ c.source = .refresh refresh.notified
  contents : ∀ c ∈ s.commits, ∀ address account, c.writes address = some (some account) →
    readAccount (chain c.slot) address = some account
  batch : ∀ sweep batch, s.sweep = some sweep → sweep.batch = some batch →
    ∀ address account, batch.stores address = some account →
      readAccount (chain sweep.slot) address = some account

/-- A commit more leaves the earlier ones where they are. -/
theorem exists_committed {c : AccountCommit} {address : Address} {slot : Nat} {source : Source}
    (found : ∃ d ∈ s.commits, d.touches address = true ∧ d.slot = slot ∧ d.source = source) :
    ∃ d ∈ c :: s.commits, d.touches address = true ∧ d.slot = slot ∧ d.source = source := by
  obtain ⟨d, mem, rest⟩ := found
  exact ⟨d, List.mem_cons_of_mem _ mem, rest⟩

theorem MirrorSourced.applied {refresh : Refresh} {address : Address} {rest : List Address}
    (sourced : MirrorSourced chain s) (first : refresh.rest = address :: rest) :
    MirrorSourced chain { s.push refresh.read (.refresh refresh.notified)
      (only address (readAccount (chain refresh.read) address)) with
        refresh := some { refresh with recording := true } } := by
  refine ⟨?_, sourced.current, ?_, ?_, ?_, sourced.batch⟩
  · rw [push_commits, List.forall_mem_cons]
    exact ⟨nofun, sourced.swept⟩
  · intro f mem
    exact exists_committed (sourced.recorded f mem)
  · intro refresh' address' rest' same _ shape
    obtain rfl := Option.some.inj same
    obtain ⟨rfl, -⟩ := List.cons.inj (first.symm.trans shape)
    exact ⟨_, List.mem_cons_self .., only_touches.mpr rfl, rfl, rfl⟩
  · rw [push_commits, List.forall_mem_cons]
    refine ⟨fun other account write => ?_, sourced.contents⟩
    change only address _ other = _ at write
    rw [only] at write
    split at write
    · next same =>
        rw [same]
        exact Option.some.inj write
    · exact nomatch write

theorem MirrorSourced.committed {sweep : Sweep} {rest : List Stage} {batch : Batch}
    (sourced : MirrorSourced chain s) (walked : s.sweep = some sweep)
    (ready : sweep.batch = some batch) : MirrorSourced chain (commitBatch sweep rest batch s) := by
  refine ⟨?_, ?_, ?_, ?_, ?_, ?_⟩
  · intro c mem source
    rcases List.mem_cons.mp mem with rfl | old
    · exact sourced.current sweep walked
    · exact sourced.swept c old source
  · intro sweep' same
    obtain rfl := Option.some.inj same
    exact sourced.current sweep walked
  · intro f mem
    exact exists_committed (sourced.recorded f mem)
  · intro refresh address rest' same written shape
    exact exists_committed (sourced.recording refresh address rest' same written shape)
  · intro c mem address account write
    rcases List.mem_cons.mp mem with rfl | old
    · exact sourced.batch sweep batch walked ready address account (stored_of_writes write)
    · exact sourced.contents c old address account write
  · intro sweep' batch' same none
    obtain rfl := Option.some.inj same
    exact nomatch none

theorem MirrorSourced.persisted {slot : Nat} {events : List DecodedEvent}
    (sourced : MirrorSourced chain s) (idle : s.refresh = none) :
    MirrorSourced chain (persistMirror slot events s) := by
  refine ⟨?_, sourced.current, ?_, ?_, ?_, sourced.batch⟩
  · intro c mem source
    rcases List.mem_cons.mp mem with rfl | old
    · exact nomatch source
    · exact sourced.swept c old source
  · intro f mem
    exact exists_committed (sourced.recorded f mem)
  · intro refresh address rest same
    exact nomatch idle.symm.trans same
  · intro c mem address account write
    rcases List.mem_cons.mp mem with rfl | old
    · dsimp only at write
      split at write
      · exact nomatch write
      · exact nomatch write
    · exact sourced.contents c old address account write

theorem MirrorSourced.next (sourced : MirrorSourced chain s) (h : Mirror.Step chain s event s') :
    MirrorSourced chain s' := by
  have old := sourced
  obtain ⟨swept, current, recorded, recording, contents, batches⟩ := sourced
  cases mirror_move h with
  | notified =>
      refine ⟨swept, current, recorded, ?_, contents, batches⟩
      intro refresh address rest same written
      obtain rfl := Option.some.inj same
      exact nomatch written
  | applied _ first => exact old.applied first
  | @skipped refresh address rest reading first unwritten =>
      refine ⟨swept, current, recorded, ?_, contents, batches⟩
      intro refresh' address' rest' same written
      obtain rfl := Option.some.inj same
      exact nomatch unwritten.symm.trans written
  | @recorded refresh address rest reading first written =>
      refine ⟨swept, current, ?_, ?_, contents, batches⟩
      · rw [recordFresh, List.forall_mem_cons]
        exact ⟨recording refresh address rest reading written first, recorded⟩
      · intro refresh' address' rest' same written
        obtain rfl := Option.some.inj same
        exact nomatch written
  | ended => exact ⟨swept, current, recorded, nofun, contents, batches⟩
  | fetched =>
      refine ⟨?_, ?_, recorded, recording, contents, ?_⟩
      · intro c mem source
        exact List.mem_cons_of_mem _ (swept c mem source)
      · intro sweep same
        obtain rfl := Option.some.inj same
        exact List.mem_cons_self ..
      · intro sweep batch same ready
        obtain rfl := Option.some.inj same
        exact nomatch ready
  | @filtered sweep stage rest walked first =>
      refine ⟨swept, ?_, recorded, recording, contents, ?_⟩
      · intro sweep' same
        obtain rfl := Option.some.inj same
        exact current sweep walked
      · intro sweep' batch same ready address account stored
        obtain rfl := Option.some.inj same
        obtain rfl := Option.some.inj ready
        exact (Option.ite_none_right_eq_some.mp stored).2
  | committed walked ready => exact old.committed walked ready
  | synced => exact ⟨swept, nofun, recorded, recording, contents, nofun⟩
  | failed => exact ⟨swept, nofun, recorded, recording, contents, nofun⟩
  | persisted idle => exact old.persisted idle
  | restarted =>
      exact ⟨swept, nofun, fun _ none => absurd none List.not_mem_nil, nofun, contents, nofun⟩

def FreshWrite.isOf (address : Address) (f : FreshWrite) : Bool := f.address = address

theorem FreshWrite.isOf_iff {address : Address} {f : FreshWrite} :
    FreshWrite.isOf address f = true ↔ f.address = address := decide_eq_true_iff

/-- What `freshWrites` knows: of each account the newest refresh, unless a sweep has caught up
with its notification. -/
structure MirrorFresh (s : Mirror) : Prop where
  latest : ∀ sweep, s.sweep = some sweep → ∀ older ∈ s.swept, older ≤ sweep.slot
  entry : ∀ address f, s.recorded.find? (FreshWrite.isOf address) = some f →
    s.freshWrites address = some f.notified ∨
      s.freshWrites address = none ∧ ∃ slot ∈ s.swept, f.notified ≤ slot
  newest : s.recorded.Pairwise fun newer older =>
    newer.address = older.address → older.read ≤ newer.read
  reads : ∀ refresh, s.refresh = some refresh → ∀ f ∈ s.recorded, f.address ∈ refresh.rest →
    f.read ≤ refresh.read

theorem MirrorFresh.recorded {refresh : Refresh} {address : Address} {rest : List Address}
    (fresh : MirrorFresh s) (reading : s.refresh = some refresh)
    (first : refresh.rest = address :: rest) : MirrorFresh (recordFresh refresh address rest s) := by
  have mine : address ∈ refresh.rest := by
    rw [first]
    exact List.mem_cons_self ..
  refine ⟨fresh.latest, ?_, ?_, ?_⟩
  · intro other f found
    rw [recordFresh_recorded] at found
    rw [recordFresh_freshWrites]
    by_cases same : address = other
    · have hit : FreshWrite.isOf other ⟨address, refresh.notified, refresh.read⟩ = true :=
        decide_eq_true same
      rw [List.find?_cons_of_pos hit] at found
      obtain rfl := Option.some.inj found
      subst same
      exact .inl (Function.update_self ..)
    · have miss : ¬ FreshWrite.isOf other ⟨address, refresh.notified, refresh.read⟩ = true :=
        fun hit => same (of_decide_eq_true hit)
      rw [List.find?_cons_of_neg miss] at found
      rw [Function.update_of_ne (Ne.symm same)]
      exact fresh.entry other f found
  · refine List.pairwise_cons.mpr ⟨fun f mem same => ?_, fresh.newest⟩
    exact fresh.reads refresh reading f mem (by rw [← same]; exact mine)
  · intro refresh' same f mem wanted
    obtain rfl := Option.some.inj same
    rcases List.mem_cons.mp mem with rfl | old
    · exact Nat.le_refl _
    · refine fresh.reads refresh reading f old ?_
      rw [first]
      exact List.mem_cons_of_mem _ wanted

theorem MirrorFresh.next (sourced : MirrorSourced chain s) (fresh : MirrorFresh s)
    (orderly : Orderly (s, event)) (h : Mirror.Step chain s event s') : MirrorFresh s' := by
  have old := fresh
  obtain ⟨latest, entry, newest, reads⟩ := fresh
  cases mirror_move h with
  | @notified slot read openRound events =>
      refine ⟨latest, entry, newest, ?_⟩
      intro refresh same f mem wanted
      obtain rfl := Option.some.inj same
      obtain ⟨c, committed, touched, slot_, -⟩ := sourced.recorded f mem
      rw [← slot_]
      exact orderly f.address wanted c committed touched
  | @applied refresh address rest reading first unwritten =>
      refine ⟨latest, entry, newest, ?_⟩
      intro refresh' same f mem wanted
      obtain rfl := Option.some.inj same
      exact reads refresh reading f mem wanted
  | @skipped refresh address rest reading first unwritten =>
      refine ⟨latest, entry, newest, ?_⟩
      intro refresh' same f mem wanted
      obtain rfl := Option.some.inj same
      refine reads refresh reading f mem ?_
      rw [first]
      exact List.mem_cons_of_mem _ wanted
  | recorded reading first => exact old.recorded reading first
  | ended => exact ⟨latest, entry, newest, nofun⟩
  | @fetched slot full accounts =>
      refine ⟨?_, ?_, newest, reads⟩
      · intro sweep same
        obtain rfl := Option.some.inj same
        exact List.forall_mem_cons.mpr ⟨Nat.le_refl _, orderly⟩
      · intro address f found
        refine (entry address f found).imp_right fun dropped => ?_
        obtain ⟨none, older, mem, le⟩ := dropped
        exact ⟨none, older, List.mem_cons_of_mem _ mem, le⟩
  | @filtered sweep stage rest walked first =>
      refine ⟨?_, entry, newest, reads⟩
      intro sweep' same
      obtain rfl := Option.some.inj same
      exact latest sweep walked
  | @committed sweep rest batch walked ready =>
      refine ⟨?_, entry, newest, reads⟩
      intro sweep' same
      obtain rfl := Option.some.inj same
      exact latest sweep walked
  | @synced sweep walked =>
      refine ⟨nofun, ?_, newest, reads⟩
      intro address f found
      rw [synced_freshWrites]
      rcases entry address f found with held | dropped
      · rw [held]
        by_cases ahead : sweep.slot < f.notified
        · exact .inl (Option.filter_some_pos (decide_eq_true ahead))
        · refine .inr ⟨Option.filter_some_neg (decide_eq_false ahead), sweep.slot,
            sourced.current sweep walked, ?_⟩
          omega
      · rw [dropped.1]
        exact .inr ⟨rfl, dropped.2⟩
  | failed => exact ⟨nofun, entry, newest, reads⟩
  | persisted => exact ⟨latest, entry, newest, reads⟩
  | restarted =>
      exact ⟨nofun, nofun, List.Pairwise.nil, nofun⟩

/-- An account that is not behind the log path, and judged by what the log path records, has
been written from no later slot than the sweep's. -/
theorem upTo_of_judged {sweep : Sweep} {address : Address} (sourced : MirrorSourced chain s)
    (fresh : MirrorFresh s) (walked : s.sweep = some sweep) (judged : Judged s sweep.slot address)
    (ahead : behindLogPath s.freshWrites address sweep.slot = false) :
    UpTo s.commits address sweep.slot := by
  -- The newest refresh's entry is not above the sweep's slot, so its read is not either.
  have newest : ∀ f, s.recorded.find? (FreshWrite.isOf address) = some f →
      f.read ≤ sweep.slot := by
    intro f found
    have mine : f.address = address := FreshWrite.isOf_iff.mp (List.find?_some found)
    obtain ⟨c, mem, touched, slot, source⟩ := sourced.recorded f (List.mem_of_find?_eq_some found)
    have noticed : f.notified ≤ sweep.slot := by
      rcases fresh.entry address f found with held | ⟨-, older, mem, le⟩
      · rw [behindLogPath, held, Option.any_some, decide_eq_false_iff_not] at ahead
        omega
      · exact Nat.le_trans le (fresh.latest sweep walked older mem)
    have judged := judged c mem (mine ▸ touched)
    rw [source] at judged
    dsimp only at judged
    rcases judged with le | ⟨lt, -⟩
    · omega
    · omega
  intro c mem touched
  have judged := judged c mem touched
  cases source : c.source with
  | sweep => exact fresh.latest sweep walked c.slot (sourced.swept c mem source)
  | event =>
      rw [source] at judged
      exact judged
  | refresh notified =>
      rw [source] at judged
      rcases judged with le | ⟨-, recorded⟩
      · exact le
      · have hit : FreshWrite.isOf address ⟨address, notified, c.slot⟩ = true :=
          FreshWrite.isOf_iff.mpr rfl
        cases found : s.recorded.find? (FreshWrite.isOf address) with
        | none =>
            have absent := List.find?_eq_none.mp found _ recorded
            exact absurd hit absent
        | some f =>
            obtain ⟨-, before, after, split, others⟩ := List.find?_eq_some_iff_append.mp found
            have mine : f.address = address := FreshWrite.isOf_iff.mp (List.find?_some found)
            refine Nat.le_trans ?_ (newest f found)
            rw [split] at recorded
            rcases List.mem_append.mp recorded with earlier | later
            · have passed := others _ earlier
              rw [hit] at passed
              exact nomatch passed
            · rcases List.mem_cons.mp later with same | older
              · rw [← same]
              · have ordered := fresh.newest
                rw [split] at ordered
                exact (List.pairwise_cons.mp (List.pairwise_append.mp ordered).2.1).1 _ older mine

/-- The commits so far go forward, and so will what has been read and is still to be written. -/
structure MirrorForward (s : Mirror) : Prop where
  forward : Forward s.commits
  refresh : ∀ refresh, s.refresh = some refresh → ∀ address ∈ refresh.unapplied,
    UpTo s.commits address refresh.read
  batch : ∀ sweep batch, s.sweep = some sweep → sweep.batch = some batch →
    ∀ address, (batch.stores address).isSome → UpTo s.commits address sweep.slot

/-- A commit that reaches no later than a slot where it writes an account at all. -/
theorem upTo_push {c : AccountCommit} {address : Address} {slot : Nat}
    (h : UpTo s.commits address slot) (le : c.touches address = true → c.slot ≤ slot) :
    UpTo (c :: s.commits) address slot :=
  upTo_cons.mpr ⟨le, h⟩

theorem settledBy_iff {events : List DecodedEvent} {address : Address} :
    settledBy events address = true ↔ ∃ settled ∈ events.filterMap settledPosition,
      ∃ id : Nat, address = .position id settled.1 ∧ settled.2 = id := by
  cases address with
  | position id owner =>
      rw [settledBy, List.contains_iff_mem]
      constructor
      · intro mem
        exact ⟨(owner, (id : Int)), mem, id, rfl, rfl⟩
      · intro h
        obtain ⟨settled, mem, id', same, closed⟩ := h
        obtain ⟨rfl, rfl⟩ := Address.position.inj same
        rw [← closed]
        exact mem
  | pool | epoch | round | player =>
      refine ⟨nofun, fun h => ?_⟩
      obtain ⟨settled, -, id, same, -⟩ := h
      exact nomatch same

theorem MirrorForward.applied {refresh : Refresh} {address : Address} {rest : List Address}
    (forward : MirrorForward s) (orderly : Orderly (s, .apply)) (reading : s.refresh = some refresh)
    (first : refresh.rest = address :: rest) (unwritten : refresh.recording = false) :
    MirrorForward { s.push refresh.read (.refresh refresh.notified)
      (only address (readAccount (chain refresh.read) address)) with
        refresh := some { refresh with recording := true } } := by
  have mine : address ∈ refresh.unapplied := by
    rw [Refresh.unapplied, unwritten, if_neg Bool.false_ne_true, first]
    exact List.mem_cons_self ..
  refine ⟨forward.forward.cons ?_, ?_, ?_⟩
  · intro other stored
    obtain rfl := only_touches.mp (touches_of_stores stored)
    exact forward.refresh refresh reading other mine
  · intro refresh' same other pending
    obtain rfl := Option.some.inj same
    refine upTo_push (forward.refresh refresh reading other ?_) fun _ => Nat.le_refl _
    rw [Refresh.unapplied, if_pos rfl] at pending
    rw [Refresh.unapplied, unwritten, if_neg Bool.false_ne_true]
    exact List.mem_of_mem_tail pending
  · intro sweep batch walked ready other stored
    refine upTo_push (forward.batch sweep batch walked ready other stored) fun touched => ?_
    obtain rfl := only_touches.mp touched
    refine orderly refresh reading sweep walked batch ready other ?_ stored
    rw [first]
    rfl

theorem MirrorForward.committed {sweep : Sweep} {rest : List Stage} {batch : Batch}
    (forward : MirrorForward s) (orderly : Orderly (s, .commit)) (walked : s.sweep = some sweep)
    (ready : sweep.batch = some batch) : MirrorForward (commitBatch sweep rest batch s) := by
  refine ⟨forward.forward.cons ?_, ?_, ?_⟩
  · intro address stored
    obtain ⟨account, write⟩ := stores_iff.mp stored
    refine forward.batch sweep batch walked ready address ?_
    rw [stored_of_writes write]
    rfl
  · intro refresh reading address pending
    exact upTo_push (forward.refresh refresh reading address pending) fun touched =>
      orderly refresh reading sweep walked batch ready address pending touched
  · intro sweep' batch' same none
    obtain rfl := Option.some.inj same
    cases none

theorem MirrorForward.persisted {slot : Nat} {events : List DecodedEvent} (forward : MirrorForward s)
    (orderly : Orderly (s, .persist slot events)) (idle : s.refresh = none) :
    MirrorForward (persistMirror slot events s) := by
  have settled : ∀ {address : Address},
      (⟨slot, .event, fun address => if settledBy events address then some none else none⟩ :
        AccountCommit).touches address = true → settledBy events address = true := by
    intro address touched
    rw [Commit.touches] at touched
    by_contra unsettled
    dsimp only at touched
    rw [if_neg unsettled] at touched
    cases touched
  refine ⟨forward.forward.cons ?_, ?_, ?_⟩
  · intro address stored
    obtain ⟨account, write⟩ := stores_iff.mp stored
    dsimp only at write
    split at write
    · cases write
    · cases write
  · intro refresh reading
    cases idle.symm.trans reading
  · intro sweep batch walked ready address stored
    refine upTo_push (forward.batch sweep batch walked ready address stored) fun touched => ?_
    obtain ⟨closed, mem, id, rfl, same⟩ := settledBy_iff.mp (settled touched)
    refine orderly sweep walked batch ready closed mem ?_
    rw [same, Int.toNat_natCast]
    exact stored

theorem MirrorForward.next (sourced : MirrorSourced chain s) (fresh : MirrorFresh s)
    (forward : MirrorForward s) (orderly : Orderly (s, event))
    (h : Mirror.Step chain s event s') : MirrorForward s' := by
  have old := forward
  obtain ⟨forward, refreshes, batches⟩ := forward
  cases mirror_move h with
  | notified =>
      refine ⟨forward, ?_, batches⟩
      intro refresh same address wanted
      obtain rfl := Option.some.inj same
      exact orderly address wanted
  | applied reading first unwritten => exact old.applied orderly reading first unwritten
  | @skipped refresh address rest reading first unwritten =>
      refine ⟨forward, ?_, batches⟩
      intro refresh' same other pending
      obtain rfl := Option.some.inj same
      refine refreshes refresh reading other ?_
      rw [Refresh.unapplied, unwritten, if_neg Bool.false_ne_true] at pending ⊢
      rw [first]
      exact List.mem_cons_of_mem _ pending
  | @recorded refresh address rest reading first written =>
      refine ⟨forward, ?_, batches⟩
      intro refresh' same other pending
      obtain rfl := Option.some.inj same
      refine refreshes refresh reading other ?_
      rw [Refresh.unapplied, if_neg Bool.false_ne_true] at pending
      rw [Refresh.unapplied, written, if_pos rfl, first]
      exact pending
  | ended => exact ⟨forward, by simp, batches⟩
  | fetched =>
      refine ⟨forward, refreshes, ?_⟩
      intro sweep batch same ready
      obtain rfl := Option.some.inj same
      cases ready
  | @filtered sweep stage rest walked first =>
      refine ⟨forward, refreshes, ?_⟩
      intro sweep' batch same ready address stored
      obtain rfl := Option.some.inj same
      obtain rfl := Option.some.inj ready
      obtain ⟨account, kept⟩ := Option.isSome_iff_exists.mp stored
      obtain ⟨passed, -⟩ := Option.ite_none_right_eq_some.mp kept
      obtain ⟨writes, ahead⟩ := Bool.and_eq_true_iff.mp passed
      have listed : address ∈ sweep.accounts := mem_of_writes writes
      have judged : Judged s sweep.slot address :=
        orderly sweep walked stage (by rw [first]; rfl) address listed writes
      have upTo := upTo_of_judged sourced fresh walked judged ((Bool.not_eq_true' _).mp ahead)
      exact upTo
  | committed walked ready => exact old.committed orderly walked ready
  | synced =>
      refine ⟨forward, refreshes, ?_⟩
      intro sweep batch same
      cases same
  | failed => exact ⟨forward, refreshes, by simp⟩
  | persisted idle => exact old.persisted orderly idle
  | restarted => exact ⟨forward, by simp, by simp⟩

end Moves

theorem MirrorSourced.empty (chain : Nat → World) : MirrorSourced chain .empty :=
  ⟨fun _ none => absurd none List.not_mem_nil, nofun, fun _ none => absurd none List.not_mem_nil,
    nofun, fun _ none => absurd none List.not_mem_nil, nofun⟩

theorem MirrorFresh.empty : MirrorFresh .empty := ⟨nofun, nofun, List.Pairwise.nil, nofun⟩

theorem MirrorForward.empty : MirrorForward .empty := ⟨List.Pairwise.nil, nofun, nofun⟩

/-- Every row holds what the chain held at the slot it was read at; and in a run of orderly
steps no commit stores an account from a slot older than an earlier write or deletion of it,
so that no row's slot ever goes down. -/
theorem mirror_forward (chain : Nat → World) (history : List (Mirror × MirrorEvent)) (s : Mirror)
    (run : Steps (Mirror.Step chain) .empty history s) :
    (∀ address account, s.rows address = some account →
      ∃ slot, readAt s.commits address = some slot ∧
        readAccount (chain slot) address = some account) ∧
      ((∀ x ∈ history, Orderly x) → Forward s.commits ∧
        ∀ later c earlier, s.commits = later ++ c :: earlier → ∀ address slot slot',
          readAt earlier address = some slot → readAt (c :: earlier) address = some slot' →
            slot ≤ slot') := by
  have sourced : ∀ {history s}, Steps (Mirror.Step chain) .empty history s →
      MirrorSourced chain s := by
    intro history s run
    exact run.invariant (P := fun _ s => MirrorSourced chain s) (.empty chain)
      fun _ sourced step => sourced.next step
  refine ⟨fun address account => table_read
    (fun slot address account => readAccount (chain slot) address = some account)
    (sourced run).contents, fun orderly => ?_⟩
  have kept := run.invariantWhile (P := fun _ s => MirrorFresh s ∧ MirrorForward s)
    ⟨.empty, .empty⟩
    (fun earlier kept orderly step =>
      ⟨kept.1.next (sourced earlier) orderly step,
        kept.2.next (sourced earlier) kept.1 orderly step⟩) orderly
  refine ⟨kept.2.forward, ?_⟩
  intro later c earlier split address slot slot' before after
  have forward := kept.2.forward
  rw [split] at forward
  exact Forward.readAt_le (List.pairwise_append.mp forward).2.1 before after

/-! A wallet that deposits three times: before any read, at slot 10 and at slot 12. -/

namespace MirrorDemo

instance {log : List AccountCommit} {address : Address} {slot : Nat} :
    Decidable (UpTo log address slot) :=
  inferInstanceAs (Decidable (∀ c ∈ log, c.touches address = true → c.slot ≤ slot))

instance {s : Mirror} {slot : Nat} {address : Address} : Decidable (Judged s slot address) :=
  @List.decidableBAll _ _ (fun c => @instDecidableForall _ _ _
    (match c.source with
    | .sweep => .isTrue trivial
    | .event => Nat.decLe c.slot slot
    | .refresh notified => inferInstanceAs (Decidable (c.slot ≤ slot ∨
        slot < notified ∧ ⟨address, notified, c.slot⟩ ∈ s.recorded)))) s.commits

instance : DecidablePred Orderly
  | (s, .refresh _ read openRound events) => inferInstanceAs (Decidable
      (∀ address ∈ wantedAccounts s.currentEpochId openRound events,
        UpTo s.commits address read))
  | (s, .apply) => inferInstanceAs (Decidable (∀ refresh ∈ s.refresh, ∀ sweep ∈ s.sweep,
      ∀ batch ∈ sweep.batch, ∀ address ∈ refresh.rest.head?,
        (batch.stores address).isSome → refresh.read ≤ sweep.slot))
  | (s, .sweep slot _ _) => inferInstanceAs (Decidable (∀ older ∈ s.swept, older ≤ slot))
  | (s, .filter) => inferInstanceAs (Decidable (∀ sweep ∈ s.sweep, ∀ stage ∈ sweep.stages.head?,
      ∀ address ∈ sweep.accounts, stage.writes sweep address = true →
        Judged s sweep.slot address))
  | (s, .commit) => inferInstanceAs (Decidable (∀ refresh ∈ s.refresh, ∀ sweep ∈ s.sweep,
      ∀ batch ∈ sweep.batch, ∀ address ∈ refresh.unapplied,
        (batch.writes s.rows address).isSome → sweep.slot ≤ refresh.read))
  | (s, .persist slot events) => inferInstanceAs (Decidable (∀ sweep ∈ s.sweep,
      ∀ batch ∈ sweep.batch, ∀ settled ∈ events.filterMap settledPosition,
        (batch.stores (.position settled.2.toNat settled.1)).isSome → slot ≤ sweep.slot))
  | (_, .record) | (_, .refreshEnds) | (_, .synced) | (_, .sweepFails) | (_, .restart) =>
      .isTrue trivial

def world (amounts : List Nat) : Result World := do
  let player := HexVault.Demo.signer 3
  let (_, w) ← HexVault.Demo.script
    ([.setFeaturePause HexVault.Demo.admin .jackpot false, .beginEpoch HexVault.Demo.operator] ++
      amounts.map (.deposit player (HexVault.Demo.wallet player)))
  return w

def chainOf (first second third : World) (slot : Nat) : World :=
  if slot < 10 then first else if slot < 12 then second else third

def mirroring (chain : Nat → World) :
    List MirrorEvent → List (Mirror × MirrorEvent) × Mirror →
      Option (List (Mirror × MirrorEvent) × Mirror)
  | [], state => some state
  | event :: rest, (history, s) => do
      let s' ← mirror chain event s
      mirroring chain rest ((s, event) :: history, s')

theorem mirroring_steps {chain : Nat → World} {start s s' : Mirror}
    {history history' : List (Mirror × MirrorEvent)} {events : List MirrorEvent}
    (steps : Steps (Mirror.Step chain) start history s)
    (h : mirroring chain events (history, s) = some (history', s')) :
    Steps (Mirror.Step chain) start history' s' := by
  refine Steps.fold some Option.some.inj ?_ steps h
  intro event rest history t final h
  obtain ⟨u, hu, h⟩ := Option.bind_eq_some_iff.mp h
  exact ⟨event, u, hu, h⟩

def deposited (amount principal : Nat) : DecodedEvent :=
  decodeEvent ⟨100⟩ (.deposited ⟨3⟩ amount principal 0)

/-- A sweep of the wallet's accounts, to its end. -/
def sweep (slot : Nat) (full : Bool) : List MirrorEvent :=
  [.sweep slot full [.pool, .epoch 1, .player ⟨3⟩]] ++
    (stages full).flatMap (fun _ => [.filter, .commit]) ++ [.synced]

/-- The refresh for a deposit: the Pool, its Epoch and the Player. -/
def refresh (slot read : Nat) (event : DecodedEvent) : List MirrorEvent :=
  [.refresh slot read none [event]] ++
    (List.replicate 3 [.apply, .record]).flatten ++ [.refreshEnds]

def mirrored (events : List MirrorEvent) :
    Result ((Nat → World) × List (Mirror × MirrorEvent) × Mirror) := do
  let first ← world [100]
  let second ← world [100, 50]
  let third ← world [100, 50, 30]
  let chain := chainOf first second third
  let (history, s) ← load (mirroring chain events ([], .empty)) .runtime
  return (chain, history, s)

theorem world_run {amounts : List Nat} {w : World} (h : world amounts = .ok w) :
    Reachable HexVault.Demo.runtime w := by
  obtain ⟨⟨history, w'⟩, hscript, heq⟩ := bind_eq_ok.mp h
  obtain rfl := pure_eq_ok.mp heq
  exact ⟨history, HexVault.Demo.script_run hscript⟩

theorem mirrored_run {events : List MirrorEvent} {chain : Nat → World}
    {history : List (Mirror × MirrorEvent)} {s : Mirror}
    (h : mirrored events = .ok (chain, history, s)) :
    (∀ slot, Reachable HexVault.Demo.runtime (chain slot)) ∧
      Steps (Mirror.Step chain) .empty history s := by
  obtain ⟨first, hfirst, h⟩ := bind_eq_ok.mp h
  obtain ⟨second, hsecond, h⟩ := bind_eq_ok.mp h
  obtain ⟨third, hthird, h⟩ := bind_eq_ok.mp h
  obtain ⟨⟨history', s'⟩, hall, heq⟩ := bind_eq_ok.mp h
  obtain ⟨rfl, same⟩ := Prod.mk.inj (pure_eq_ok.mp heq)
  obtain ⟨rfl, rfl⟩ := Prod.mk.inj same
  refine ⟨fun slot => ?_, mirroring_steps .start (load_eq_ok.mp hall)⟩
  rw [chainOf]
  split
  · exact world_run hfirst
  · split
    · exact world_run hsecond
    · exact world_run hthird

def principal : Option Account → Option Nat
  | some (.player player) => some player.principal
  | _ => none

end MirrorDemo

/-- Two sweeps with a refresh between them, each commit of a later read than the one before. -/
theorem mirror_forward_orderly : ∃ chain history s,
    (∀ slot, Reachable HexVault.Demo.runtime (chain slot)) ∧
      Steps (Mirror.Step chain) .empty history s ∧ (∀ x ∈ history, Orderly x) ∧
        readAt s.commits (.player ⟨3⟩) = some 12 ∧ Forward s.commits := by
  obtain ⟨⟨chain, history, s⟩, hrun, hcheck⟩ := exists_of_any
    (x := MirrorDemo.mirrored (MirrorDemo.sweep 5 true ++
      MirrorDemo.refresh 10 11 (MirrorDemo.deposited 50 150) ++ MirrorDemo.sweep 12 false))
    (p := fun r => decide (∀ x ∈ r.2.1, Orderly x) &&
      decide (readAt r.2.2.commits (.player ⟨3⟩) = some 12))
    (by decide +kernel)
  obtain ⟨orderly, read⟩ := Bool.and_eq_true_iff.mp hcheck
  obtain ⟨reachable, run⟩ := MirrorDemo.mirrored_run hrun
  obtain ⟨-, forward⟩ := mirror_forward chain history s run
  exact ⟨chain, history, s, reachable, run, of_decide_eq_true orderly, of_decide_eq_true read,
    (forward (of_decide_eq_true orderly)).1⟩

/-- A refresh notified of slot 10 reads at slot 12 and is recorded under slot 10, so that a
sweep at slot 11 writes the Player of the deposit before. -/
theorem mirror_goes_back : ∃ chain history s earlier c,
    (∀ slot, Reachable HexVault.Demo.runtime (chain slot)) ∧
      Steps (Mirror.Step chain) .empty history s ∧
        s.commits = c :: earlier ∧ readAt earlier (.player ⟨3⟩) = some 12 ∧
          MirrorDemo.principal (table earlier (.player ⟨3⟩)) = some 180 ∧
            readAt s.commits (.player ⟨3⟩) = some 11 ∧
              MirrorDemo.principal (s.rows (.player ⟨3⟩)) = some 150 := by
  obtain ⟨⟨chain, history, s⟩, hrun, hcheck⟩ := exists_of_any
    (x := MirrorDemo.mirrored (MirrorDemo.sweep 5 true ++
      MirrorDemo.refresh 10 12 (MirrorDemo.deposited 50 150) ++ (MirrorDemo.sweep 11 false).take 9))
    (p := fun r => match r.2.2.commits with
      | [] => false
      | c :: earlier =>
          decide (readAt earlier (.player ⟨3⟩) = some 12) &&
          decide (MirrorDemo.principal (table earlier (.player ⟨3⟩)) = some 180) &&
          decide (readAt (c :: earlier) (.player ⟨3⟩) = some 11) &&
          decide (MirrorDemo.principal (table (c :: earlier) (.player ⟨3⟩)) = some 150))
    (by decide +kernel)
  obtain ⟨reachable, run⟩ := MirrorDemo.mirrored_run hrun
  cases split : s.commits with
  | nil =>
      rw [split] at hcheck
      exact nomatch hcheck
  | cons c earlier =>
      rw [split] at hcheck
      obtain ⟨hcheck, now⟩ := Bool.and_eq_true_iff.mp hcheck
      obtain ⟨hcheck, read⟩ := Bool.and_eq_true_iff.mp hcheck
      obtain ⟨before, held⟩ := Bool.and_eq_true_iff.mp hcheck
      refine ⟨chain, history, s, earlier, c, reachable, run, split, of_decide_eq_true before,
        of_decide_eq_true held, ?_, ?_⟩
      · rw [split]
        exact of_decide_eq_true read
      · rw [Mirror.rows, split]
        exact of_decide_eq_true now

end Indexer

end HexVault
