import HexVault.Api.ReferralBonus
import HexVault.Operator.Tick
import HexVault.Program.Instructions

/-!
The daily referral job: the grants of an epoch are computed and recorded once each, and
those not recorded as sent are handed to the operator, clamped to what the mirror says a
referrer can still receive.
-/

namespace HexVault

namespace Indexer

open Api Operator

/-! The tables, of the active pool. -/

structure PoolRow where
  totalPrincipal : Int
  bonusCapBps : Int
  deriving DecidableEq, Repr

structure PlayerRow where
  principal : Int
  bonusEpoch : Nat
  bonusGranted : Int
  deriving DecidableEq, Repr

structure ReferralGrantRow where
  epochId : Nat
  referrer : Pubkey
  amount : Int
  uncapped : Int
  qualifiedCount : Nat
  rateBps : Int
  txSig : Option String
  deriving DecidableEq, Repr

structure ReferralGrantShareRow where
  epochId : Nat
  referrer : Pubkey
  referee : Pubkey
  amount : Int
  deriving DecidableEq, Repr

structure GrantTables where
  pool : Option PoolRow
  players : Finmap fun _ : Pubkey => PlayerRow
  referrals : List ReferralRow
  referralGrants : List ReferralGrantRow
  referralGrantShares : List ReferralGrantShareRow

/-- What the job is configured with: the order of addresses as strings, and the order the
database sorts them in. -/
structure GrantSettings where
  referralQualifySeconds : Int
  addresses : LinearOrder Pubkey
  collation : Pubkey → Pubkey → Bool

def ReferralGrantRow.key (row : ReferralGrantRow) : Nat × Pubkey := (row.epochId, row.referrer)

def ReferralGrantShareRow.key (row : ReferralGrantShareRow) : Nat × Pubkey × Pubkey :=
  (row.epochId, row.referrer, row.referee)

section CreateMany
variable {α κ : Type} [DecidableEq κ] (key : α → κ)

def insertUnique (table : List α) (row : α) : List α :=
  if key row ∈ table.map key then table else table ++ [row]

/-- `createMany` with `skipDuplicates`, on a table with a unique key. -/
def createUnique (rows table : List α) : List α := rows.foldl (insertUnique key) table

end CreateMany

section Job
variable (settings : GrantSettings) (epochId : Nat)

def isQualified (aboveSince : Option Int) (now qualifySeconds : Int) : Bool :=
  aboveSince.any fun since => qualifySeconds ≤ now - since

/-- Each referrer with its referees, in the order they are first met. -/
def byReferrer (referrals : List ReferralRow) : List (Pubkey × List ReferralRow) :=
  (referrals.map fun row => row.referrer).eraseDups.map fun referrer =>
    (referrer, referrals.filter fun row => row.referrer = referrer)

/-- The Players of the referrers, as they are read once for the whole job. -/
def playerByOwner (db : GrantTables) (owner : Pubkey) : Option PlayerRow :=
  if owner ∈ db.referrals.map fun row => row.referrer then db.players.lookup owner else none

def qualifiedReferees (now : Int) (refs : List ReferralRow) : List ReferralRow :=
  refs.filter fun ref => isQualified ref.aboveSince now settings.referralQualifySeconds

def qualifiedWeights (now : Int) (entries : List (Pubkey × List ReferralRow))
    (referrer : Pubkey) : List (ShareWeight Pubkey) :=
  (qualifiedReferees settings now ((entries.lookup referrer).getD [])).map fun ref =>
    ⟨ref.referee, basisOf ref.principal⟩

def bonusInput (now : Int) (players : Pubkey → Option PlayerRow)
    (entry : Pubkey × List ReferralRow) : ReferrerBonusInput Pubkey :=
  let player := players entry.1
  { referrer := entry.1
    principal := player.elim 0 fun player => player.principal
    alreadyGrantedToday := player.elim 0 fun player =>
      if player.bonusEpoch = epochId then player.bonusGranted else 0
    qualifiedReferralPrincipals :=
      (qualifiedReferees settings now entry.2).map fun ref => ref.principal }

def grantRow (bonus : ReferrerBonus Pubkey) : ReferralGrantRow where
  epochId := epochId
  referrer := bonus.referrer
  amount := bonus.amount
  uncapped := bonus.uncapped
  qualifiedCount := bonus.qualifiedCount
  rateBps := bonus.rateBps
  txSig := none

def shareRow (referrer : Pubkey) (share : RefereeShare Pubkey) : ReferralGrantShareRow :=
  ⟨epochId, referrer, share.referee, share.amount⟩

def splitAmong (amount : Int) (weights : List (ShareWeight Pubkey)) :
    List (RefereeShare Pubkey) :=
  letI := settings.addresses
  splitShares amount weights

/-- The epoch's bonuses that are not recorded yet, written with their shares. -/
def recordBonuses (now : Int) (pool : PoolRow) (db : GrantTables) : GrantTables :=
  let entries := byReferrer db.referrals
  let inputs := entries.map (bonusInput settings epochId now (playerByOwner db))
  let recordedThisEpoch := db.referralGrants.filter fun row => row.epochId = epochId
  let alreadyGrantedThisEpoch := recordedThisEpoch.foldl (fun sum row => sum + row.amount) 0
  let recordedReferrers := recordedThisEpoch.map fun row => row.referrer
  let newInputs := inputs.filter fun input => input.referrer ∉ recordedReferrers
  let bonuses := computeBonuses newInputs pool.totalPrincipal pool.bonusCapBps
    alreadyGrantedThisEpoch
  let alreadyWritten := (db.referralGrants.filter fun row => row.epochId = epochId ∧
    row.referrer ∈ bonuses.map fun bonus => bonus.referrer).map fun row => row.referrer
  let shareRows := (bonuses.filter fun bonus => bonus.referrer ∉ alreadyWritten).flatMap
    fun bonus => (splitAmong settings bonus.amount
      (qualifiedWeights settings now entries bonus.referrer)).map
        (shareRow epochId bonus.referrer)
  { db with
    referralGrants :=
      createUnique ReferralGrantRow.key (bonuses.map (grantRow epochId)) db.referralGrants
    referralGrantShares :=
      createUnique ReferralGrantShareRow.key shareRows db.referralGrantShares }

def pendingGrants (db : GrantTables) : List ReferralGrantRow :=
  (db.referralGrants.filter fun row => row.epochId = epochId ∧ row.txSig = none).mergeSort
    fun a b => settings.collation a.referrer b.referrer

section Clamp
variable (players : Pubkey → Option PlayerRow)

/-- The mirror shows a grant of this epoch. -/
def alreadyGranted (referrer : Pubkey) : Bool :=
  (players referrer).any fun player => player.bonusEpoch = epochId

def clampedAmount (grant : ReferralGrantRow) : Int :=
  let cap := remainingGrantCap ((players grant.referrer).elim 0 fun player => player.principal) 0
  if grant.amount < cap then grant.amount else cap

def dueGrant (grant : ReferralGrantRow) : Option Grant :=
  if alreadyGranted epochId players grant.referrer then none
  else if clampedAmount players grant ≤ 0 then none
  else some ⟨grant.referrer, (clampedAmount players grant).toNat⟩

def changedGrant (grant : ReferralGrantRow) : Option (Pubkey × Int) :=
  if alreadyGranted epochId players grant.referrer then none
  else if clampedAmount players grant ≠ grant.amount then
    some (grant.referrer, clampedAmount players grant)
  else none

end Clamp

def updateShare (referrer : Pubkey) (shares : List ReferralGrantShareRow)
    (share : RefereeShare Pubkey) : List ReferralGrantShareRow :=
  shares.map fun row =>
    if row.key = (epochId, referrer, share.referee) then { row with amount := share.amount }
    else row

/-- A recorded amount changed, and its shares with it in proportion to what they were. -/
def updateGrant (db : GrantTables) (changed : Pubkey × Int) : GrantTables :=
  let shares := db.referralGrantShares.filter fun row =>
    row.epochId = epochId ∧ row.referrer = changed.1
  { db with
    referralGrants := db.referralGrants.map fun row =>
      if row.key = (epochId, changed.1) then { row with amount := changed.2 } else row
    referralGrantShares :=
      if shares = [] then db.referralGrantShares
      else (splitAmong settings changed.2
        (shares.map fun share => ⟨share.referee, share.amount⟩)).foldl
          (updateShare epochId changed.1) db.referralGrantShares }

/-- What is still unsent, clamped to the Players as they were read. -/
def handBack (players : Pubkey → Option PlayerRow) (db : GrantTables) :
    List Grant × GrantTables :=
  let pending := pendingGrants settings epochId db
  (pending.filterMap (dueGrant epochId players),
    (pending.filterMap (changedGrant epochId players)).foldl (updateGrant settings epochId) db)

def referralGrantsDue (now : Int) (db : GrantTables) : List Grant × GrantTables :=
  match db.pool with
  | none => ([], db)
  | some pool =>
      if db.referrals = [] then ([], db)
      else handBack settings epochId (playerByOwner db) (recordBonuses settings epochId now pool db)

def markReferralGrantsSent (referrers : List Pubkey) (txSig : String) (db : GrantTables) :
    GrantTables :=
  { db with
    referralGrants := db.referralGrants.map fun row =>
      if row.epochId = epochId ∧ row.referrer ∈ referrers then { row with txSig := some txSig }
      else row }

end Job

/-! What the job leaves of the grants' keys and signatures. -/

/-- A grant's key and the transaction it is recorded as sent in. -/
def ReferralGrantRow.stamp (row : ReferralGrantRow) : (Nat × Pubkey) × Option String :=
  (row.key, row.txSig)

def GrantTables.stamps (db : GrantTables) : List ((Nat × Pubkey) × Option String) :=
  db.referralGrants.map ReferralGrantRow.stamp

/-- The table's unique index. -/
def UniqueGrants (db : GrantTables) : Prop := (db.stamps.map Prod.fst).Nodup

section Specs
variable {settings : GrantSettings} {epochId : Nat} {now : Int} {pool : PoolRow}
  {db : GrantTables} {players : Pubkey → Option PlayerRow}

section CreateMany
variable {α κ : Type} [DecidableEq κ] {key : α → κ} {rows table : List α} {row : α}

theorem createUnique_nodup (unique : (table.map key).Nodup) :
    ((createUnique key rows table).map key).Nodup := by
  induction rows generalizing table with
  | nil => exact unique
  | cons row rest ih =>
      refine ih ?_
      rw [insertUnique]
      split
      · exact unique
      · next fresh =>
          rw [List.map_append, List.nodup_append]
          refine ⟨unique, List.nodup_singleton _, ?_⟩
          intro a old b new
          rw [List.mem_singleton.mp new]
          rintro rfl
          exact fresh old

theorem mem_createUnique (h : row ∈ createUnique key rows table) : row ∈ table ∨ row ∈ rows := by
  induction rows generalizing table with
  | nil => exact .inl h
  | cons new rest ih =>
      rcases ih h with old | later
      · rw [insertUnique] at old
        split at old
        · exact .inl old
        · rcases List.mem_append.mp old with old | same
          · exact .inl old
          · exact .inr (List.mem_singleton.mp same ▸ List.mem_cons_self ..)
      · exact .inr (List.mem_cons_of_mem _ later)

theorem subset_createUnique (h : row ∈ table) : row ∈ createUnique key rows table := by
  induction rows generalizing table with
  | nil => exact h
  | cons new rest ih =>
      refine ih ?_
      rw [insertUnique]
      split
      · exact h
      · exact List.mem_append_left _ h

/-- Rows of new keys are all added. -/
theorem createUnique_fresh (fresh : ∀ row ∈ rows, key row ∉ table.map key)
    (distinct : (rows.map key).Nodup) : createUnique key rows table = table ++ rows := by
  induction rows generalizing table with
  | nil => exact (List.append_nil table).symm
  | cons row rest ih =>
      rw [List.map_cons, List.nodup_cons] at distinct
      have added : insertUnique key table row = table ++ [row] :=
        if_neg (fresh row (List.mem_cons_self ..))
      rw [createUnique, List.foldl_cons, added, ← createUnique, ih ?_ distinct.2,
        List.append_assoc, List.singleton_append]
      intro other later
      rw [List.map_append, List.map_singleton, List.mem_append, List.mem_singleton, not_or]
      exact ⟨fresh other (List.mem_cons_of_mem _ later),
        fun same => distinct.1 (same ▸ List.mem_map_of_mem later)⟩

end CreateMany

theorem keys_eq (db : GrantTables) :
    db.stamps.map Prod.fst = db.referralGrants.map ReferralGrantRow.key := by
  rw [GrantTables.stamps, List.map_map]
  rfl

theorem recordBonuses_unique (unique : UniqueGrants db) :
    UniqueGrants (recordBonuses settings epochId now pool db) := by
  rw [UniqueGrants, keys_eq] at unique ⊢
  exact createUnique_nodup unique

/-- Recording bonuses records nothing as sent, and forgets nothing sent. -/
theorem recordBonuses_sent {key : Nat × Pubkey} {txSig : String} :
    (key, some txSig) ∈ (recordBonuses settings epochId now pool db).stamps ↔
      (key, some txSig) ∈ db.stamps := by
  rw [GrantTables.stamps, GrantTables.stamps, List.mem_map, List.mem_map]
  constructor
  · intro h
    obtain ⟨row, mem, stamp⟩ := h
    rcases mem_createUnique mem with old | new
    · exact ⟨row, old, stamp⟩
    · obtain ⟨bonus, -, rfl⟩ := List.mem_map.mp new
      exact nomatch (Prod.mk.inj stamp).2
  · intro h
    obtain ⟨row, mem, stamp⟩ := h
    exact ⟨row, subset_createUnique mem, stamp⟩

theorem updateGrant_stamps (changed : Pubkey × Int) :
    (updateGrant settings epochId db changed).stamps = db.stamps := by
  rw [GrantTables.stamps, updateGrant, List.map_map]
  refine List.map_congr_left fun row _ => ?_
  rw [Function.comp_apply]
  split
  · rfl
  · rfl

/-- Handing grants back changes amounts only. -/
theorem handBack_stamps : (handBack settings epochId players db).2.stamps = db.stamps := by
  rw [handBack]
  generalize (pendingGrants settings epochId db).filterMap (changedGrant epochId players) = changed
  induction changed generalizing db with
  | nil => rfl
  | cons first rest ih =>
      rw [List.foldl_cons, ih]
      exact updateGrant_stamps first

theorem dueGrant_eq_some {grant : ReferralGrantRow} {due : Grant}
    (h : dueGrant epochId players grant = some due) : due.referrer = grant.referrer ∧
      alreadyGranted epochId players grant.referrer = false ∧
        0 < clampedAmount players grant := by
  rw [dueGrant] at h
  split at h
  · exact nomatch h
  · next fresh =>
      split at h
      · exact nomatch h
      · next positive =>
          obtain rfl := Option.some.inj h
          exact ⟨rfl, Bool.eq_false_iff.mpr fresh, by omega⟩

/-- A referrer that nothing is read of can receive nothing. -/
theorem player_of_clampedAmount {grant : ReferralGrantRow} (h : 0 < clampedAmount players grant) :
    ∃ player, players grant.referrer = some player := by
  cases found : players grant.referrer with
  | some player => exact ⟨player, rfl⟩
  | none =>
      rw [clampedAmount, found, Option.elim_none] at h
      have none : remainingGrantCap 0 0 = 0 := rfl
      rw [none] at h
      split at h <;> omega

/-- A grant handed back is recorded, unsent, and not granted by what was read. -/
theorem mem_handBack {due : Grant} (h : due ∈ (handBack settings epochId players db).1) :
    ((epochId, due.referrer), none) ∈ db.stamps ∧
      ∃ player, players due.referrer = some player ∧ player.bonusEpoch ≠ epochId := by
  obtain ⟨row, mem, some_⟩ := List.mem_filterMap.mp h
  have listed := (List.mem_filter.mp (List.mem_mergeSort.mp mem))
  obtain ⟨sameEpoch, unsent⟩ := of_decide_eq_true listed.2
  obtain ⟨same, fresh, positive⟩ := dueGrant_eq_some some_
  obtain ⟨player, found⟩ := player_of_clampedAmount positive
  rw [same]
  refine ⟨List.mem_map.mpr ⟨row, listed.1, ?_⟩, player, found, ?_⟩
  · rw [ReferralGrantRow.stamp, ReferralGrantRow.key, sameEpoch, unsent]
  · rw [alreadyGranted, found] at fresh
    exact of_decide_eq_false fresh

/-- A referrer has one pending grant at most. -/
theorem pendingGrants_referrers (unique : UniqueGrants db) :
    ((pendingGrants settings epochId db).map fun row => row.referrer).Nodup := by
  rw [UniqueGrants, keys_eq] at unique
  refine ((List.mergeSort_perm _ _).map _).nodup_iff.mpr ?_
  refine (List.nodup_map_iff_inj_on (List.Nodup.filter _ (List.Nodup.of_map _ unique))).mpr ?_
  intro a ha b hb same
  have sameEpoch := (of_decide_eq_true (List.mem_filter.mp ha).2).1.trans
    (of_decide_eq_true (List.mem_filter.mp hb).2).1.symm
  exact List.inj_on_of_nodup_map unique (List.mem_filter.mp ha).1 (List.mem_filter.mp hb).1
    (Prod.ext sameEpoch same)

/-- What is made of some rows of a list is about their referrers. -/
theorem filterMap_referrers {β : Type} {f : ReferralGrantRow → Option β} {about : β → Pubkey}
    (same : ∀ row b, f row = some b → about b = row.referrer) (rows : List ReferralGrantRow) :
    ((rows.filterMap f).map about).Sublist (rows.map fun row => row.referrer) := by
  induction rows with
  | nil => exact List.Sublist.slnil
  | cons row rest ih =>
      cases h : f row with
      | none =>
          rw [List.filterMap_cons_none h]
          exact ih.cons _
      | some b =>
          rw [List.filterMap_cons_some h, List.map_cons, List.map_cons, same row b h]
          exact ih.cons_cons _

/-- No referrer is handed back twice. -/
theorem handBack_nodup (unique : UniqueGrants db) :
    ((handBack settings epochId players db).1.map fun due => due.referrer).Nodup :=
  (filterMap_referrers (fun _ _ due => (dueGrant_eq_some due).1) _).nodup
    (pendingGrants_referrers unique)

/-- What is recorded as sent afterwards was so before, or has just been. -/
theorem mem_markReferralGrantsSent {referrers : List Pubkey} {sig txSig : String}
    {key : Nat × Pubkey}
    (h : (key, some txSig) ∈ (markReferralGrantsSent epochId referrers sig db).stamps) :
    (key, some txSig) ∈ db.stamps ∨
      (key.1 = epochId ∧ key.2 ∈ referrers ∧ txSig = sig) := by
  obtain ⟨marked, mem, stamp⟩ := List.mem_map.mp h
  obtain ⟨row, old, rfl⟩ := List.mem_map.mp mem
  split at stamp
  · next marked =>
      obtain ⟨rfl, same⟩ := Prod.mk.inj stamp
      exact .inr ⟨marked.1, marked.2, (Option.some.inj same).symm⟩
  · exact .inl (List.mem_map.mpr ⟨row, old, stamp⟩)

theorem markReferralGrantsSent_unique {referrers : List Pubkey} {sig : String}
    (unique : UniqueGrants db) : UniqueGrants (markReferralGrantsSent epochId referrers sig db) := by
  rw [UniqueGrants, keys_eq] at unique ⊢
  rw [markReferralGrantsSent, List.map_map]
  have same : ReferralGrantRow.key ∘ (fun row : ReferralGrantRow =>
      if row.epochId = epochId ∧ row.referrer ∈ referrers then { row with txSig := some sig }
      else row) = ReferralGrantRow.key := by
    funext row
    rw [Function.comp_apply]
    split
    · rfl
    · rfl
  rw [same]
  exact unique

end Specs

/-! What the small cases of the grants share. -/

namespace GrantDemo

@[reducible] def byKey : LinearOrder Pubkey :=
  LinearOrder.lift' Pubkey.val Pubkey.val_injective

def settings : GrantSettings where
  referralQualifySeconds := 604800
  addresses := byKey
  collation := fun a b => a.val ≤ b.val

def referral (referee : Nat) (principal : Int) : ReferralRow where
  referee := ⟨referee⟩
  referrer := ⟨3⟩
  code := "HX4Q7M2W"
  boundAt := 0
  aboveSince := some 0
  principal := principal

end GrantDemo

end Indexer

end HexVault
