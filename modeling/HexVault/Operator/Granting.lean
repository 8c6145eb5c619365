import HexVault.Indexer.Grants
import HexVault.Lib.Outbox
import HexVault.Lib.FinmapTotal

/-!
The referral grants of an epoch from the job to the chain: the operator hands a batch to
`grant_tickets`, records it as sent once it is confirmed, and on an error or after a crash
asks the indexer again. A transaction that was sent lands whenever it lands; what the
indexer knows of the chain is as old as its last read of each account.
-/

namespace HexVault

namespace Operator

open Fallible Indexer Outbox Runs

structure GrantTransaction where
  epochId : Nat
  grants : List Grant
  signature : String
  deriving DecidableEq, Repr

/-- Where a tick is with the grants of an epoch. -/
inductive GrantPhase where
  | idle
  | reading (epochId : Nat) (players : Pubkey → Option PlayerRow)
  | due (epochId : Nat) (batch : List Grant)
  | sending (tx : GrantTransaction)
  | confirmed (tx : GrantTransaction)

structure Granting where
  chain : World
  earlier : List World
  db : GrantTables
  sent : List (Sent GrantTransaction)
  phase : GrantPhase

/-- What can happen: an instruction of anybody, a read of an account in some state the chain
has been in, other writers of the Referral table, the tick's own steps, an error of a send
whether or not it went out, and a crash. -/
inductive GrantEvent where
  | chain (a : Action)
  | mirrorPool (back : Nat)
  | mirrorPlayer (back : Nat) (owner : Pubkey)
  | refer (referrals : List ReferralRow)
  | record (epochId : Nat) (now : Int)
  | handBack
  | send (signature : String)
  | fail
  | land (signature : String)
  | drop (signature : String)
  | confirm
  | mark
  | crash

def poolRow (pool : Pool) : PoolRow := ⟨pool.totalPrincipal, pool.bonusCapBps⟩

def playerRow (player : Player) : PlayerRow :=
  ⟨player.principal, player.bonusEpoch, player.bonusGranted⟩

/-- The instructions of a batch, which land together. -/
def GrantTransaction.lands (operator : Signer) (tx : GrantTransaction) : List Action :=
  tx.grants.map fun grant => .grantTickets operator grant.referrer grant.amount

namespace Granting

def advance (s : Granting) (chain : World) : Granting :=
  { s with chain, earlier := s.chain :: s.earlier }

/-- The chain as it was so many states ago. -/
def asOf (s : Granting) (back : Nat) : Result World := load ((s.chain :: s.earlier)[back]?) .abort

/-- The batch a tick takes of the grants it is handed. -/
def take (epochId : Nat) : List Grant → GrantPhase
  | [] => .idle
  | grants => .due epochId (grants.take BATCH_SIZE)

def answered (epochId : Nat) (s : Granting) (answer : List Grant × GrantTables) : Granting :=
  { s with db := answer.2, phase := take epochId answer.1 }

section Tick
variable (settings : GrantSettings)

/-- `referralGrantsDue` up to its first transaction. -/
def record (epochId : Nat) (now : Int) (s : Granting) : Result Granting :=
  match s.phase, s.db.pool with
  | .idle, some pool =>
      if s.db.referrals = [] then .ok s
      else .ok { s with
        db := recordBonuses settings epochId now pool s.db
        phase := .reading epochId (playerByOwner s.db) }
  | .idle, none => .ok s
  | _, _ => .error .abort

/-- The rest of it. -/
def handBack (s : Granting) : Result Granting :=
  match s.phase with
  | .reading epochId players =>
      .ok (s.answered epochId (Indexer.handBack settings epochId players s.db))
  | _ => .error .abort

def send (signature : String) (s : Granting) : Result Granting :=
  match s.phase with
  | .due epochId batch => do
      require (∀ x ∈ s.sent, x.item.signature ≠ signature) .abort
      let tx : GrantTransaction := ⟨epochId, batch, signature⟩
      return { s with sent := Outbox.send tx s.sent, phase := .sending tx }
  | _ => .error .abort

def fail (s : Granting) : Result Granting :=
  match s.phase with
  | .due .. | .sending _ => .ok { s with phase := .idle }
  | _ => .error .abort

def confirm (s : Granting) : Result Granting :=
  match s.phase with
  | .sending tx => do
      require (⟨tx, .landed⟩ ∈ s.sent) .abort
      return { s with phase := .confirmed tx }
  | _ => .error .abort

def mark (s : Granting) : Result Granting :=
  match s.phase with
  | .confirmed tx => .ok { s with
      db := markReferralGrantsSent tx.epochId (tx.grants.map fun grant => grant.referrer)
        tx.signature s.db
      phase := .idle }
  | _ => .error .abort

end Tick

def settle (signature : String) (fate : Fate) (s : Granting) : Granting :=
  { s with sent := Outbox.settle (fun tx => tx.signature = signature) fate s.sent }

theorem settle_sent (s : Granting) (signature : String) (fate : Fate) :
    (s.settle signature fate).sent =
      Outbox.settle (fun tx => tx.signature = signature) fate s.sent := rfl

/-- A transaction in flight takes effect, all of its grants or none. -/
def land (rt : Runtime) (operator : Signer) (signature : String) (s : Granting) :
    Result Granting := do
  let x ← load (s.sent.find? fun x => x.item.signature = signature ∧ x.fate = .inFlight) .abort
  let (_, chain) ← replay rt (x.item.lands operator) ([], s.chain)
  return (s.settle signature .landed).advance chain

end Granting

def granting (rt : Runtime) (settings : GrantSettings) (operator : Signer) :
    GrantEvent → Granting → Result Granting
  | .chain a, s => do
      let chain ← perform rt a s.chain
      return s.advance chain
  | .mirrorPool back, s => do
      let w ← s.asOf back
      return { s with db := { s.db with pool := some (poolRow w.pool) } }
  | .mirrorPlayer back owner, s => do
      let w ← s.asOf back
      let player ← w.player owner
      return { s with db := { s.db with players := s.db.players.insert owner (playerRow player) } }
  | .refer referrals, s => .ok { s with db := { s.db with referrals } }
  | .record epochId now, s => s.record settings epochId now
  | .handBack, s => s.handBack settings
  | .send signature, s => s.send signature
  | .fail, s => s.fail
  | .land signature, s => s.land rt operator signature
  | .drop signature, s => .ok (s.settle signature .dropped)
  | .confirm, s => s.confirm
  | .mark, s => s.mark
  | .crash, s => .ok { s with phase := .idle }

/-- Without anything in between, the tick's two steps are the indexer's answer. -/
theorem record_handBack {settings : GrantSettings} {epochId : Nat} {now : Int} {s u : Granting}
    (idle : s.phase = .idle) (h : s.record settings epochId now = .ok u) :
    (u = s ∧ referralGrantsDue settings epochId now s.db = ([], s.db)) ∨
      u.handBack settings =
        .ok (s.answered epochId (referralGrantsDue settings epochId now s.db)) := by
  rw [Granting.record, idle] at h
  rw [referralGrantsDue]
  cases pool : s.db.pool with
  | none =>
      rw [pool] at h
      exact .inl ⟨(Except.ok.inj h).symm, rfl⟩
  | some pool_ =>
      rw [pool] at h
      dsimp only at h ⊢
      split at h
      · next none =>
          rw [if_pos none]
          exact .inl ⟨(Except.ok.inj h).symm, rfl⟩
      · next some_ =>
          rw [if_neg some_]
          obtain rfl := Except.ok.inj h
          exact .inr rfl

/-! At most one grant. -/

def Granting.Step (rt : Runtime) (settings : GrantSettings) (operator : Signer) (s : Granting)
    (event : GrantEvent) (s' : Granting) : Prop :=
  granting rt settings operator event s = .ok s'

/-- The transaction grants a referrer the bonus of an epoch. -/
def grantsFor (epochId : Nat) (referrer : Pubkey) (tx : GrantTransaction) : Bool :=
  tx.epochId = epochId && tx.grants.any fun grant => grant.referrer = referrer

/-- No transaction for a grant has landed or still may. -/
def Clear (sent : List (Sent GrantTransaction)) (epochId : Nat) (referrer : Pubkey) : Prop :=
  ∀ x ∈ sent, grantsFor epochId referrer x.item = true → x.fate = .dropped

def recordedAsSent (db : GrantTables) (epochId : Nat) (referrer : Pubkey) : Bool :=
  db.stamps.any fun stamp => stamp.1 = (epochId, referrer) && stamp.2.isSome

/-- Each transaction sent for an epoch, and not recorded as sent, can no longer land, or the
mirror shows the epoch's grant already. -/
def Accounted (epochId : Nat) (s : Granting) : Prop :=
  ∀ x ∈ s.sent, x.item.epochId = epochId → ∀ grant ∈ x.item.grants,
    recordedAsSent s.db epochId grant.referrer = false →
      x.fate = .dropped ∨
        alreadyGranted epochId (fun owner => s.db.players.lookup owner) grant.referrer = true

instance (epochId : Nat) (s : Granting) : Decidable (Accounted epochId s) :=
  inferInstanceAs (Decidable (∀ x ∈ s.sent, _ → ∀ grant ∈ x.item.grants, _ → _))

/-- The epoch whose grants a step asks for. -/
def GrantEvent.asks : GrantEvent → Option Nat
  | .record epochId _ => some epochId
  | _ => none

/-- The grants of an epoch are asked for only when its earlier transactions are accounted for. -/
def AsksAccounted (x : Granting × GrantEvent) : Prop :=
  ∀ epochId ∈ x.2.asks, Accounted epochId x.1

instance (x : Granting × GrantEvent) : Decidable (AsksAccounted x) :=
  inferInstanceAs (Decidable (∀ epochId ∈ x.2.asks, _))

/-- What is recorded as sent has landed. -/
structure GrantsRecorded (s : Granting) : Prop where
  unique : UniqueGrants s.db
  landed : ∀ epochId referrer txSig, ((epochId, referrer), some txSig) ∈ s.db.stamps →
    ∃ x ∈ s.sent, x.fate = .landed ∧ x.item.signature = txSig ∧
      grantsFor epochId referrer x.item = true
  confirmed : ∀ tx, s.phase = .confirmed tx → ⟨tx, .landed⟩ ∈ s.sent
  batch : ∀ epochId batch, s.phase = .due epochId batch →
    (batch.map fun grant => grant.referrer).Nodup
  batches : ∀ x ∈ s.sent, (x.item.grants.map fun grant => grant.referrer).Nodup

/-- What a tick is about to send is sent for the first time. -/
structure GrantsOnce (s : Granting) : Prop where
  once : ∀ epochId referrer, live (grantsFor epochId referrer) s.sent ≤ 1
  reading : ∀ epochId players, s.phase = .reading epochId players → ∀ referrer player,
    players referrer = some player → player.bonusEpoch ≠ epochId →
      ((epochId, referrer), none) ∈ s.db.stamps → Clear s.sent epochId referrer
  due : ∀ epochId batch, s.phase = .due epochId batch → ∀ grant ∈ batch,
    Clear s.sent epochId grant.referrer

/-- What one step does to the grants' signatures, the transactions and the tick. -/
inductive GrantMove (settings : GrantSettings) (s : Granting) : GrantEvent → Granting → Prop
  | aside {event : GrantEvent} {s' : Granting} (stamps : s'.db.stamps = s.db.stamps)
      (sent : s'.sent = s.sent) (phase : s'.phase = s.phase ∨ s'.phase = .idle) :
      GrantMove settings s event s'
  | recorded {epochId : Nat} {now : Int} {pool : PoolRow} (idle : s.phase = .idle) :
      GrantMove settings s (.record epochId now) { s with
        db := recordBonuses settings epochId now pool s.db
        phase := .reading epochId (playerByOwner s.db) }
  | handed {epochId : Nat} {players : Pubkey → Option PlayerRow}
      (phase : s.phase = .reading epochId players) :
      GrantMove settings s .handBack
        (s.answered epochId (Indexer.handBack settings epochId players s.db))
  | sent {epochId : Nat} {batch : List Grant} {signature : String}
      (phase : s.phase = .due epochId batch) :
      GrantMove settings s (.send signature) { s with
        sent := Outbox.send ⟨epochId, batch, signature⟩ s.sent
        phase := .sending ⟨epochId, batch, signature⟩ }
  | settled {event : GrantEvent} {which : GrantTransaction → Bool} {fate : Fate} {s' : Granting}
      (stamps : s'.db.stamps = s.db.stamps) (sent : s'.sent = Outbox.settle which fate s.sent)
      (phase : s'.phase = s.phase) : GrantMove settings s event s'
  | confirmed {tx : GrantTransaction} (landed : ⟨tx, .landed⟩ ∈ s.sent) :
      GrantMove settings s .confirm { s with phase := .confirmed tx }
  | marked {tx : GrantTransaction} (phase : s.phase = .confirmed tx) :
      GrantMove settings s .mark { s with
        db := markReferralGrantsSent tx.epochId (tx.grants.map fun grant => grant.referrer)
          tx.signature s.db
        phase := .idle }

section Steps
variable {rt : Runtime} {settings : GrantSettings} {operator : Signer} {s s' : Granting}
  {event : GrantEvent}

theorem granting_move (h : granting rt settings operator event s = .ok s') :
    GrantMove settings s event s' := by
  cases event with
  | chain a =>
      obtain ⟨chain, -, heq⟩ := bind_eq_ok.mp h
      obtain rfl := pure_eq_ok.mp heq
      exact .aside rfl rfl (.inl rfl)
  | mirrorPool back =>
      obtain ⟨w, -, heq⟩ := bind_eq_ok.mp h
      obtain rfl := pure_eq_ok.mp heq
      exact .aside rfl rfl (.inl rfl)
  | mirrorPlayer back owner =>
      obtain ⟨w, -, h⟩ := bind_eq_ok.mp h
      obtain ⟨player, -, heq⟩ := bind_eq_ok.mp h
      obtain rfl := pure_eq_ok.mp heq
      exact .aside rfl rfl (.inl rfl)
  | refer referrals =>
      obtain rfl := Except.ok.inj h
      exact .aside rfl rfl (.inl rfl)
  | record epochId now =>
      rw [granting, Granting.record] at h
      split at h
      · next pool idle _ =>
          split at h
          · obtain rfl := Except.ok.inj h
            exact .aside rfl rfl (.inl rfl)
          · obtain rfl := Except.ok.inj h
            exact .recorded idle
      · obtain rfl := Except.ok.inj h
        exact .aside rfl rfl (.inl rfl)
      · exact nomatch h
  | handBack =>
      rw [granting, Granting.handBack] at h
      split at h
      · next epochId players phase =>
          obtain rfl := Except.ok.inj h
          exact .handed phase
      · exact nomatch h
  | send signature =>
      rw [granting, Granting.send] at h
      split at h
      · next epochId batch phase =>
          obtain ⟨_, -, heq⟩ := bind_eq_ok.mp h
          obtain rfl := pure_eq_ok.mp heq
          exact .sent phase
      · exact nomatch h
  | fail =>
      rw [granting, Granting.fail] at h
      split at h
      · obtain rfl := Except.ok.inj h
        exact .aside rfl rfl (.inr rfl)
      · obtain rfl := Except.ok.inj h
        exact .aside rfl rfl (.inr rfl)
      · exact nomatch h
  | land signature =>
      obtain ⟨x, -, h⟩ := bind_eq_ok.mp h
      obtain ⟨⟨history, chain⟩, -, heq⟩ := bind_eq_ok.mp h
      obtain rfl := pure_eq_ok.mp heq
      exact .settled rfl (s.settle_sent signature .landed) rfl
  | drop signature =>
      obtain rfl := Except.ok.inj h
      exact .settled rfl (s.settle_sent signature .dropped) rfl
  | confirm =>
      rw [granting, Granting.confirm] at h
      split at h
      · obtain ⟨_, landed, heq⟩ := bind_eq_ok.mp h
        obtain rfl := pure_eq_ok.mp heq
        exact .confirmed (require_eq_ok.mp landed)
      · exact nomatch h
  | mark =>
      rw [granting, Granting.mark] at h
      split at h
      · next tx phase =>
          obtain rfl := Except.ok.inj h
          exact .marked phase
      · exact nomatch h
  | crash =>
      obtain rfl := Except.ok.inj h
      exact .aside rfl rfl (.inr rfl)

theorem take_eq_due {epochId id : Nat} {grants batch : List Grant}
    (h : Granting.take epochId grants = .due id batch) : id = epochId ∧
      batch = grants.take BATCH_SIZE := by
  cases grants with
  | nil => exact nomatch h
  | cons => 
      obtain ⟨rfl, rfl⟩ := GrantPhase.due.inj h
      exact ⟨rfl, rfl⟩

theorem grantsFor_iff {epochId : Nat} {referrer : Pubkey} {tx : GrantTransaction} :
    grantsFor epochId referrer tx = true ↔
      tx.epochId = epochId ∧ ∃ grant ∈ tx.grants, grant.referrer = referrer := by
  rw [grantsFor, Bool.and_eq_true_iff, List.any_eq_true, decide_eq_true_eq]
  simp only [decide_eq_true_eq]

theorem Clear.settle {sent : List (Sent GrantTransaction)} {epochId : Nat} {referrer : Pubkey}
    {which : GrantTransaction → Bool} {fate : Fate} (clear : Clear sent epochId referrer) :
    Clear (Outbox.settle which fate sent) epochId referrer := by
  intro x mem mine
  rcases of_mem_settle mem with old | ⟨-, -, flying⟩
  · exact clear x old mine
  · exact nomatch clear _ flying mine

theorem GrantsRecorded.next (recorded : GrantsRecorded s)
    (h : Granting.Step rt settings operator s event s') : GrantsRecorded s' := by
  cases granting_move h with
  | aside stamps sent phase =>
      refine ⟨?_, ?_, ?_, ?_, ?_⟩
      · rw [UniqueGrants, stamps]
        exact recorded.unique
      · rw [stamps, sent]
        exact recorded.landed
      · intro tx confirmed
        rw [sent]
        rcases phase with same | idle
        · exact recorded.confirmed tx (same ▸ confirmed)
        · cases idle.symm.trans confirmed
      · intro epochId batch due
        rcases phase with same | idle
        · exact recorded.batch epochId batch (same ▸ due)
        · cases idle.symm.trans due
      · rw [sent]
        exact recorded.batches
  | recorded idle =>
      refine ⟨recordBonuses_unique recorded.unique, ?_, by simp, by simp, recorded.batches⟩
      intro epochId referrer txSig mem
      exact recorded.landed epochId referrer txSig (recordBonuses_sent.mp mem)
  | @handed epochId players phase =>
      refine ⟨?_, ?_, ?_, ?_, recorded.batches⟩
      · rw [UniqueGrants, Granting.answered, handBack_stamps]
        exact recorded.unique
      · rw [Granting.answered, handBack_stamps]
        exact recorded.landed
      · intro tx confirmed
        rw [Granting.answered] at confirmed
        cases grants : (Indexer.handBack settings epochId players s.db).1 with
        | nil =>
            rw [grants] at confirmed
            cases confirmed
        | cons =>
            rw [grants] at confirmed
            cases confirmed
      · intro id batch due
        obtain ⟨-, rfl⟩ := take_eq_due due
        rw [List.map_take]
        exact (handBack_nodup recorded.unique).sublist (List.take_sublist _ _)
  | @sent epochId batch signature phase =>
      refine ⟨recorded.unique, ?_, by simp, by simp, ?_⟩
      · intro id referrer txSig mem
        obtain ⟨x, old, landed⟩ := recorded.landed id referrer txSig mem
        exact ⟨x, mem_send.mpr (.inl old), landed⟩
      · intro x mem
        rcases mem_send.mp mem with old | rfl
        · exact recorded.batches x old
        · exact recorded.batch epochId batch phase
  | settled stamps sent phase =>
      refine ⟨?_, ?_, ?_, ?_, ?_⟩
      · rw [UniqueGrants, stamps]
        exact recorded.unique
      · intro epochId referrer txSig mem
        rw [stamps] at mem
        obtain ⟨x, old, landed, mine⟩ := recorded.landed epochId referrer txSig mem
        rw [sent]
        exact ⟨x, mem_settle old (by simp [landed]), landed, mine⟩
      · intro tx confirmed
        rw [sent]
        exact mem_settle (recorded.confirmed tx (phase ▸ confirmed)) (by simp)
      · intro epochId batch due
        exact recorded.batch epochId batch (phase ▸ due)
      · intro x mem
        rw [sent] at mem
        rcases of_mem_settle mem with old | ⟨-, -, flying⟩
        · exact recorded.batches x old
        · exact recorded.batches ⟨x.item, .inFlight⟩ flying
  | confirmed landed =>
      refine ⟨recorded.unique, recorded.landed, ?_, by simp, recorded.batches⟩
      intro tx same
      obtain rfl := GrantPhase.confirmed.inj same
      exact landed
  | @marked tx phase =>
      refine ⟨markReferralGrantsSent_unique recorded.unique, ?_, by simp, by simp, recorded.batches⟩
      intro epochId referrer txSig mem
      rcases mem_markReferralGrantsSent mem with old | ⟨rfl, granted, rfl⟩
      · exact recorded.landed epochId referrer txSig old
      · obtain ⟨grant, mem, same⟩ := List.mem_map.mp granted
        exact ⟨_, recorded.confirmed tx phase, rfl, rfl, grantsFor_iff.mpr ⟨rfl, grant, mem, same⟩⟩

/-- A referrer whose grant is recorded but not as sent is cleared by an accounted epoch. -/
theorem Accounted.clear {epochId : Nat} {referrer : Pubkey} {player : PlayerRow}
    (accounted : Accounted epochId s) (found : playerByOwner s.db referrer = some player)
    (fresh : player.bonusEpoch ≠ epochId)
    (unsent : ∀ txSig, ((epochId, referrer), some txSig) ∉ s.db.stamps) :
    Clear s.sent epochId referrer := by
  intro x mem mine
  obtain ⟨sameEpoch, grant, granted, rfl⟩ := grantsFor_iff.mp mine
  have unrecorded : recordedAsSent s.db epochId grant.referrer = false := by
    refine List.any_eq_false.mpr fun stamp mem sent => ?_
    obtain ⟨same, some_⟩ := Bool.and_eq_true_iff.mp sent
    obtain ⟨txSig, signed⟩ := Option.isSome_iff_exists.mp some_
    refine unsent txSig ?_
    rw [← of_decide_eq_true same, ← signed]
    exact mem
  rcases accounted x mem sameEpoch grant granted unrecorded with dropped | shown
  · exact dropped
  · rw [playerByOwner] at found
    split at found
    · rw [alreadyGranted, found] at shown
      exact absurd (of_decide_eq_true shown) fresh
    · cases found

theorem GrantsOnce.next (recorded : GrantsRecorded s) (once : GrantsOnce s)
    (asks : AsksAccounted (s, event)) (h : Granting.Step rt settings operator s event s') :
    GrantsOnce s' := by
  cases granting_move h with
  | aside stamps sent phase =>
      refine ⟨?_, ?_, ?_⟩
      · rw [sent]
        exact once.once
      · intro epochId players reading
        rw [stamps, sent]
        rcases phase with same | idle
        · exact once.reading epochId players (same ▸ reading)
        · exact nomatch idle.symm.trans reading
      · intro epochId batch due
        rw [sent]
        rcases phase with same | idle
        · exact once.due epochId batch (same ▸ due)
        · exact nomatch idle.symm.trans due
  | @recorded epochId now pool idle =>
      refine ⟨once.once, ?_, nofun⟩
      intro id players reading referrer player found fresh unsent
      obtain ⟨rfl, rfl⟩ := GrantPhase.reading.inj reading
      refine (asks epochId rfl).clear found fresh fun txSig mem => ?_
      have unique : UniqueGrants (recordBonuses settings epochId now pool s.db) :=
        recordBonuses_unique recorded.unique
      exact nomatch List.inj_on_of_nodup_map unique unsent (recordBonuses_sent.mpr mem) rfl
  | @handed epochId players phase =>
      refine ⟨once.once, ?_, ?_⟩
      · intro id shown reading
        rw [Granting.answered] at reading
        cases grants : (Indexer.handBack settings epochId players s.db).1 with
        | nil =>
            rw [grants] at reading
            exact nomatch reading
        | cons =>
            rw [grants] at reading
            exact nomatch reading
      · intro id batch due grant mem
        obtain ⟨rfl, rfl⟩ := take_eq_due due
        obtain ⟨unsent, player, found, fresh⟩ := mem_handBack (List.mem_of_mem_take mem)
        exact once.reading _ players phase grant.referrer player found fresh unsent
  | @sent epochId batch signature phase =>
      refine ⟨?_, nofun, nofun⟩
      intro id referrer
      refine sent_once (once.once id referrer) fun mine => ?_
      obtain ⟨rfl, grant, mem, rfl⟩ := grantsFor_iff.mp mine
      exact once.due _ batch phase grant mem
  | settled stamps sent phase =>
      refine ⟨?_, ?_, ?_⟩
      · intro epochId referrer
        rw [sent]
        exact Nat.le_trans live_settle_le (once.once epochId referrer)
      · intro epochId players reading referrer player found fresh unsent
        rw [sent]
        rw [stamps] at unsent
        exact (once.reading epochId players (phase ▸ reading) referrer player found fresh
          unsent).settle
      · intro epochId batch due grant mem
        rw [sent]
        exact (once.due epochId batch (phase ▸ due) grant mem).settle
  | confirmed => exact ⟨once.once, nofun, nofun⟩
  | marked => exact ⟨once.once, nofun, nofun⟩

theorem granting_recorded {start : Granting} {history : List (Granting × GrantEvent)}
    (fresh : GrantsRecorded start) (run : Steps (Granting.Step rt settings operator) start history s) :
    GrantsRecorded s :=
  run.invariant (P := fun _ s => GrantsRecorded s) fresh fun _ recorded step => recorded.next step

/-- Before anything has been sent. -/
theorem GrantsRecorded.fresh (idle : s.phase = .idle) (nothing : s.sent = [])
    (unique : UniqueGrants s.db) (unsent : ∀ row ∈ s.db.referralGrants, row.txSig = none) :
    GrantsRecorded s := by
  refine ⟨unique, ?_, ?_, ?_, ?_⟩
  · intro epochId referrer txSig mem
    obtain ⟨row, mem, stamp⟩ := List.mem_map.mp mem
    exact nomatch (unsent row mem).symm.trans (Prod.mk.inj stamp).2
  · intro tx confirmed
    exact nomatch idle.symm.trans confirmed
  · intro epochId batch due
    exact nomatch idle.symm.trans due
  · rw [nothing]
    exact fun _ none => absurd none List.not_mem_nil

theorem GrantsOnce.fresh (idle : s.phase = .idle) (nothing : s.sent = []) : GrantsOnce s := by
  refine ⟨?_, ?_, ?_⟩
  · intro epochId referrer
    rw [nothing]
    exact Nat.zero_le 1
  · intro epochId players reading
    exact nomatch idle.symm.trans reading
  · intro epochId batch due
    exact nomatch idle.symm.trans due

end Steps

/-- Whatever fails, crashes or lags, a grant recorded as sent has landed; and at most one
transaction lands for each referrer and epoch in a run that asks for an epoch's grants only
when it can tell what became of those it sent. -/
theorem grants_once (rt : Runtime) (settings : GrantSettings) (operator : Signer)
    (start s : Granting) (history : List (Granting × GrantEvent))
    (idle : start.phase = .idle) (nothing : start.sent = [])
    (unique : UniqueGrants start.db)
    (unsent : ∀ row ∈ start.db.referralGrants, row.txSig = none)
    (run : Steps (Granting.Step rt settings operator) start history s) :
    (∀ row ∈ s.db.referralGrants, ∀ txSig, row.txSig = some txSig →
      ∃ x ∈ s.sent, x.fate = .landed ∧ x.item.signature = txSig ∧
        grantsFor row.epochId row.referrer x.item = true) ∧
      (∀ x ∈ s.sent, (x.item.grants.map fun grant => grant.referrer).Nodup) ∧
        ((∀ x ∈ history, AsksAccounted x) → ∀ epochId referrer,
          landed (grantsFor epochId referrer) s.sent ≤ 1) := by
  have opens := GrantsRecorded.fresh idle nothing unique unsent
  have recorded := granting_recorded opens run
  refine ⟨?_, recorded.batches, ?_⟩
  · intro row mem txSig signed
    refine recorded.landed row.epochId row.referrer txSig (List.mem_map.mpr ⟨row, mem, ?_⟩)
    rw [ReferralGrantRow.stamp, signed]
    rfl
  · intro accounted epochId referrer
    have once := run.invariantWhile (P := fun _ s => GrantsOnce s)
      (GrantsOnce.fresh idle nothing)
      (fun earlier once asks step => once.next (granting_recorded opens earlier) asks step) accounted
    exact Nat.le_trans landed_le_live (once.once epochId referrer)

/-! A small pool, with one referrer. -/

namespace GrantDemo

open Indexer.GrantDemo

def tables : GrantTables where
  pool := none
  players := ∅
  referrals := []
  referralGrants := []
  referralGrantShares := []

/-- The first epoch of a pool in which the referrer holds 100. -/
def opened : Result (History × World) :=
  let player := HexVault.Demo.signer 3
  HexVault.Demo.script [.setFeaturePause HexVault.Demo.admin .jackpot false,
    .setParams HexVault.Demo.admin
      { HexVault.Demo.setEpochSeconds 1000 with bonusCapBps := some 10000 },
    .beginEpoch HexVault.Demo.operator, .deposit player (HexVault.Demo.wallet player) 100]

def grantingAll : List GrantEvent → List (Granting × GrantEvent) × Granting →
    Result (List (Granting × GrantEvent) × Granting)
  | [], state => .ok state
  | event :: rest, (history, s) => do
      let s' ← granting HexVault.Demo.runtime settings HexVault.Demo.operator event s
      grantingAll rest ((s, event) :: history, s')

theorem grantingAll_steps {start s s' : Granting} {history history' : List (Granting × GrantEvent)}
    {events : List GrantEvent}
    (steps : Steps (Granting.Step HexVault.Demo.runtime settings HexVault.Demo.operator) start
      history s) (h : grantingAll events (history, s) = .ok (history', s')) :
    Steps (Granting.Step HexVault.Demo.runtime settings HexVault.Demo.operator) start
      history' s' := by
  refine Steps.fold Except.ok Except.ok.inj ?_ steps h
  intro event rest history t final h
  obtain ⟨u, hu, h⟩ := bind_eq_ok.mp h
  exact ⟨event, u, hu, h⟩

/-- A tick that sends the referrer's grant. -/
def grant (signature : String) : List GrantEvent :=
  [.record 1 700000, .handBack, .send signature]

def mirrored : List GrantEvent :=
  [.mirrorPool 0, .mirrorPlayer 0 ⟨3⟩, .refer [referral 5 500]]

def granted (events : List GrantEvent) :
    Result (Granting × List (Granting × GrantEvent) × Granting) := do
  let (_, chain) ← opened
  let start : Granting := ⟨chain, [], tables, [], .idle⟩
  let (history, s) ← grantingAll events ([], start)
  return (start, history, s)

theorem granted_run {events : List GrantEvent} {start s : Granting}
    {history : List (Granting × GrantEvent)} (h : granted events = .ok (start, history, s)) :
    (∃ earlier, Run HexVault.Demo.runtime earlier start.chain) ∧
      (start.phase = .idle ∧ start.sent = [] ∧ start.db = tables) ∧
        Steps (Granting.Step HexVault.Demo.runtime settings HexVault.Demo.operator) start
          history s := by
  obtain ⟨⟨earlier, chain⟩, hopened, h⟩ := bind_eq_ok.mp h
  obtain ⟨⟨history', s'⟩, hall, heq⟩ := bind_eq_ok.mp h
  obtain ⟨rfl, same⟩ := Prod.mk.inj (pure_eq_ok.mp heq)
  obtain ⟨rfl, rfl⟩ := Prod.mk.inj same
  exact ⟨⟨earlier, HexVault.Demo.script_run hopened⟩, ⟨rfl, rfl, rfl⟩,
    grantingAll_steps .start hall⟩

end GrantDemo

/-- A grant that is confirmed, recorded and not handed out again. -/
theorem grants_once_confirmed : ∃ start s history,
    Steps (Granting.Step HexVault.Demo.runtime GrantDemo.settings HexVault.Demo.operator) start
      history s ∧ (∀ x ∈ history, AsksAccounted x) ∧
        landed (grantsFor 1 ⟨3⟩) s.sent = 1 ∧
          ∀ epochId referrer, landed (grantsFor epochId referrer) s.sent ≤ 1 := by
  obtain ⟨⟨start, history, s⟩, hrun, hcheck⟩ := exists_of_any
    (x := GrantDemo.granted (GrantDemo.mirrored ++ GrantDemo.grant "a" ++
      [.land "a", .confirm, .mark, .record 1 700000, .handBack]))
    (p := fun r => decide (∀ x ∈ r.2.1, AsksAccounted x) &&
      decide (landed (grantsFor 1 ⟨3⟩) r.2.2.sent = 1))
    (by decide +kernel)
  obtain ⟨accounted, one⟩ := Bool.and_eq_true_iff.mp hcheck
  obtain ⟨-, ⟨idle, nothing, db⟩, run⟩ := GrantDemo.granted_run hrun
  have unsent : ∀ row ∈ start.db.referralGrants, row.txSig = none := by
    rw [db]
    exact fun _ none => absurd none List.not_mem_nil
  have unique : UniqueGrants start.db := by
    rw [db]
    exact List.nodup_nil
  obtain ⟨-, -, once⟩ := grants_once _ _ _ start s history idle nothing unique unsent run
  exact ⟨start, s, history, run, of_decide_eq_true accounted, of_decide_eq_true one,
    once (of_decide_eq_true accounted)⟩

/-- The first grant is given up on while it is pending, and lands; the mirror has not read the
Player since, so the next tick sends the same grant again, and the cap has room for it. -/
theorem grants_twice : ∃ start s history,
    (∃ earlier, Run HexVault.Demo.runtime earlier start.chain) ∧
      (start.phase = .idle ∧ start.sent = [] ∧ start.db.referralGrants = []) ∧
        Steps (Granting.Step HexVault.Demo.runtime GrantDemo.settings HexVault.Demo.operator) start
          history s ∧ landed (grantsFor 1 ⟨3⟩) s.sent = 2 ∧
            (s.chain.players.lookup ⟨3⟩).map (fun player => player.bonusGranted) = some 20 := by
  obtain ⟨⟨start, history, s⟩, hrun, hcheck⟩ := exists_of_any
    (x := GrantDemo.granted (GrantDemo.mirrored ++ GrantDemo.grant "a" ++
      [.fail, .land "a"] ++ GrantDemo.grant "b" ++ [.land "b"]))
    (p := fun r => decide (landed (grantsFor 1 ⟨3⟩) r.2.2.sent = 2) &&
      decide ((r.2.2.chain.players.lookup ⟨3⟩).map (fun player => player.bonusGranted) = some 20))
    (by decide +kernel)
  obtain ⟨two, counted⟩ := Bool.and_eq_true_iff.mp hcheck
  obtain ⟨chain, ⟨idle, nothing, db⟩, run⟩ := GrantDemo.granted_run hrun
  refine ⟨start, s, history, chain, ⟨idle, nothing, ?_⟩, run, of_decide_eq_true two,
    of_decide_eq_true counted⟩
  rw [db]
  rfl

end Operator

end HexVault
