import HexVault.Api.Splits
import HexVault.Indexer.Grants
import HexVault.Lib.Runs

/-!
The shares of a grant add up to it: they are written with it, and whenever the amount is
clamped to less they are divided anew in proportion to what they were.
-/

namespace HexVault

namespace Indexer

open Api Runs

universe u

/-- The grant a share is part of. -/
def ReferralGrantShareRow.grant (row : ReferralGrantShareRow) : Nat × Pubkey :=
  (row.epochId, row.referrer)

def GrantTables.sharesOf (db : GrantTables) (key : Nat × Pubkey) : List ReferralGrantShareRow :=
  db.referralGrantShares.filter fun row => row.grant = key

def GrantTables.shared (db : GrantTables) (key : Nat × Pubkey) : Int :=
  ((db.sharesOf key).map ReferralGrantShareRow.amount).sum

/-- The Referral rows are one for each referee, of a Principal that is not negative. -/
structure SoundReferrals (referrals : List ReferralRow) : Prop where
  referees : (referrals.map ReferralRow.referee).Nodup
  principals : ∀ row ∈ referrals, 0 ≤ row.principal

/-- Every grant is the sum of its shares, and no share is of another grant. -/
structure SharesAddUp (db : GrantTables) : Prop where
  unique : UniqueGrants db
  keys : (db.referralGrantShares.map ReferralGrantShareRow.key).Nodup
  nonneg : ∀ row ∈ db.referralGrantShares, 0 ≤ row.amount
  owned : ∀ row ∈ db.referralGrantShares, row.grant ∈ db.referralGrants.map ReferralGrantRow.key
  sums : ∀ row ∈ db.referralGrants, db.shared row.key = row.amount

/-- What can happen to the tables: the two transactions of the job, the mark of a sent batch,
and the other writers of Pool, Player and Referral rows. -/
inductive ShareEvent where
  | record (epochId : Nat) (now : Int) (pool : PoolRow)
  | handBack (epochId : Nat) (players : Pubkey → Option PlayerRow)
  | mark (epochId : Nat) (referrers : List Pubkey) (txSig : String)
  | write (pool : Option PoolRow) (players : Finmap fun _ : Pubkey => PlayerRow)
      (referrals : List ReferralRow)

def sharing (settings : GrantSettings) : ShareEvent → GrantTables → GrantTables
  | .record epochId now pool, db => recordBonuses settings epochId now pool db
  | .handBack epochId players, db => (handBack settings epochId players db).2
  | .mark epochId referrers txSig, db => markReferralGrantsSent epochId referrers txSig db
  | .write pool players referrals, db => { db with pool, players, referrals }

inductive SharesStep (settings : GrantSettings) (db : GrantTables) :
    ShareEvent → GrantTables → Prop
  | next {event : ShareEvent} (sound : SoundReferrals (sharing settings event db).referrals) :
      SharesStep settings db event (sharing settings event db)

section Update
variable {settings : GrantSettings} {epochId : Nat} {referrer : Pubkey} {db : GrantTables}
  {shares : List ReferralGrantShareRow} {news : List (RefereeShare Pubkey)}

/-- What updates, one after the other, leave a referee with. -/
def newAmount : List (RefereeShare Pubkey) → Pubkey → Int → Int
  | [], _, old => old
  | share :: rest, referee, old =>
      newAmount rest referee (if referee = share.referee then share.amount else old)

theorem newAmount_of_not_mem {referee : Pubkey}
    (absent : referee ∉ news.map RefereeShare.referee) (old : Int) :
    newAmount news referee old = old := by
  induction news generalizing old with
  | nil => rfl
  | cons first rest ih =>
      rw [List.map_cons, List.mem_cons, not_or] at absent
      rw [newAmount, if_neg absent.1]
      exact ih absent.2 old

theorem newAmount_of_mem (distinct : (news.map RefereeShare.referee).Nodup)
    {share : RefereeShare Pubkey} (mem : share ∈ news) (old : Int) :
    newAmount news share.referee old = share.amount := by
  induction news generalizing old with
  | nil => exact absurd mem List.not_mem_nil
  | cons first rest ih =>
      rw [List.map_cons, List.nodup_cons] at distinct
      rcases List.mem_cons.mp mem with rfl | later
      · rw [newAmount, if_pos rfl]
        exact newAmount_of_not_mem distinct.1 _
      · exact ih distinct.2 later _

theorem updateShare_row (share : RefereeShare Pubkey) (row : ReferralGrantShareRow) :
    (if row.key = (epochId, referrer, share.referee) then { row with amount := share.amount }
      else row) = if row.grant = (epochId, referrer) then
        { row with amount := if row.referee = share.referee then share.amount else row.amount }
      else row := by
  rw [ReferralGrantShareRow.key, ReferralGrantShareRow.grant]
  simp only [Prod.mk.injEq]
  by_cases mine : row.epochId = epochId ∧ row.referrer = referrer
  · rw [if_pos mine]
    by_cases same : row.referee = share.referee
    · rw [if_pos ⟨mine.1, mine.2, same⟩, if_pos same]
    · rw [if_neg fun h => same h.2.2, if_neg same]
  · rw [if_neg mine, if_neg fun h => mine ⟨h.1, h.2.1⟩]

/-- The shares of one grant with their new amounts, and the others as they are. -/
def respread (key : Nat × Pubkey) (news : List (RefereeShare Pubkey))
    (row : ReferralGrantShareRow) : ReferralGrantShareRow :=
  if row.grant = key then { row with amount := newAmount news row.referee row.amount } else row

@[simp] theorem respread_grant (key : Nat × Pubkey) (row : ReferralGrantShareRow) :
    (respread key news row).grant = row.grant := by
  rw [respread]
  split
  · rfl
  · rfl

@[simp] theorem respread_key (key : Nat × Pubkey) (row : ReferralGrantShareRow) :
    (respread key news row).key = row.key := by
  rw [respread]
  split
  · rfl
  · rfl

/-- Updates one by one are one pass over the table. -/
theorem updateShares_eq : news.foldl (updateShare epochId referrer) shares =
    shares.map (respread (epochId, referrer) news) := by
  induction news generalizing shares with
  | nil =>
      conv_lhs => rw [List.foldl_nil, ← List.map_id shares]
      refine List.map_congr_left fun row _ => ?_
      rw [respread]
      split
      · rfl
      · rfl
  | cons first rest ih =>
      rw [List.foldl_cons, ih, updateShare, List.map_map]
      refine List.map_congr_left fun row _ => ?_
      rw [Function.comp_apply, updateShare_row, respread, respread]
      by_cases mine : row.grant = (epochId, referrer)
      · rw [if_pos mine, if_pos mine]
        exact if_pos mine
      · rw [if_neg mine, if_neg mine, if_neg mine]

/-- With everybody's share given anew, they add up to what was given. -/
theorem sum_newAmount (distinct : (news.map RefereeShare.referee).Nodup)
    (same : news.map RefereeShare.referee = shares.map ReferralGrantShareRow.referee) :
    (shares.map fun row => newAmount news row.referee row.amount).sum =
      (news.map RefereeShare.amount).sum := by
  have found : shares.map (fun row => newAmount news row.referee row.amount) =
      (shares.map ReferralGrantShareRow.referee).map fun referee => newAmount news referee 0 := by
    rw [List.map_map]
    refine List.map_congr_left fun row mem => ?_
    have listed : row.referee ∈ news.map RefereeShare.referee :=
      same ▸ List.mem_map_of_mem mem
    obtain ⟨share, mem, referee⟩ := List.mem_map.mp listed
    rw [Function.comp_apply, ← referee, newAmount_of_mem distinct mem, newAmount_of_mem distinct mem]
  rw [found, ← same, List.map_map]
  refine congrArg List.sum (List.map_congr_left fun share mem => ?_)
  exact newAmount_of_mem distinct mem 0

end Update

section Group
variable {settings : GrantSettings} {epochId : Nat} {db : GrantTables} {key : Nat × Pubkey}
  {amount : Int}

theorem SharesAddUp.referees (adds : SharesAddUp db) (key : Nat × Pubkey) :
    ((db.sharesOf key).map ReferralGrantShareRow.referee).Nodup := by
  refine (List.nodup_map_iff_inj_on (List.Nodup.filter _ (List.Nodup.of_map _ adds.keys))).mpr ?_
  intro a ha b hb same
  have grants := (of_decide_eq_true (List.mem_filter.mp ha).2).trans
    (of_decide_eq_true (List.mem_filter.mp hb).2).symm
  obtain ⟨epoch, referrer⟩ := Prod.mk.inj grants
  refine List.inj_on_of_nodup_map adds.keys (List.mem_filter.mp ha).1 (List.mem_filter.mp hb).1 ?_
  rw [ReferralGrantShareRow.key, ReferralGrantShareRow.key, epoch, referrer, same]

/-- The weights of a rescale: the shares as they stand. -/
def weightsOf (shares : List ReferralGrantShareRow) : List (ShareWeight Pubkey) :=
  shares.map fun share => ⟨share.referee, share.amount⟩

theorem totalOf_weightsOf (shares : List ReferralGrantShareRow) :
    totalOf (weightsOf shares) = (shares.map ReferralGrantShareRow.amount).sum := by
  rw [totalOf, weightsOf, List.map_map]
  rfl

theorem SharesAddUp.divisible (adds : SharesAddUp db) (key : Nat × Pubkey) :
    Divisible (weightsOf (db.sharesOf key)) := by
  constructor
  · rw [weightsOf, List.map_map]
    exact adds.referees key
  · intro w mem
    obtain ⟨row, listed, rfl⟩ := List.mem_map.mp mem
    exact adds.nonneg row (List.mem_filter.mp listed).1

/-- A rescale divides the new amount, all of it. -/
theorem sum_rescaled (adds : SharesAddUp db) (amount_ : 0 ≤ amount)
    (less : amount ≤ db.shared key) :
    ((splitAmong settings amount (weightsOf (db.sharesOf key))).map RefereeShare.amount).sum =
      amount := by
  let _ := settings.addresses
  rw [splitAmong]
  by_cases none : amount ≤ 0
  · rw [splitShares_of_nonpos none, List.map_map]
    have zero : (weightsOf (db.sharesOf key)).map
        (RefereeShare.amount ∘ fun w => ⟨w.referee, 0⟩) =
          (weightsOf (db.sharesOf key)).map fun _ => 0 := rfl
    rw [zero, List.map_const', List.sum_replicate, nsmul_zero]
    omega
  · refine sum_splitShares (adds.divisible key) ?_ (by omega)
    rw [totalOf_weightsOf]
    exact Int.lt_of_lt_of_le (by omega) less

theorem rescaled_nonneg (adds : SharesAddUp db) (less : amount ≤ db.shared key)
    {share : RefereeShare Pubkey}
    (mem : share ∈ splitAmong settings amount (weightsOf (db.sharesOf key))) :
    0 ≤ share.amount := by
  let _ := settings.addresses
  by_cases none : amount ≤ 0
  · rw [splitAmong, splitShares_of_nonpos none] at mem
    obtain ⟨w, -, rfl⟩ := List.mem_map.mp mem
    exact Int.le_refl 0
  · refine splitShares_nonneg (adds.divisible key) ?_ mem
    rw [totalOf_weightsOf]
    exact Int.lt_of_lt_of_le (by omega) less

/-- The tables after an amount was changed. -/
theorem updateGrant_eq (changed : Pubkey × Int) : updateGrant settings epochId db changed =
    { db with
      referralGrants := db.referralGrants.map fun row =>
        if row.key = (epochId, changed.1) then { row with amount := changed.2 } else row
      referralGrantShares := db.referralGrantShares.map (respread (epochId, changed.1)
        (splitAmong settings changed.2 (weightsOf (db.sharesOf (epochId, changed.1))))) } := by
  have group : (db.referralGrantShares.filter fun row =>
      row.epochId = epochId ∧ row.referrer = changed.1) = db.sharesOf (epochId, changed.1) := by
    refine List.filter_congr fun row _ => decide_eq_decide.mpr ?_
    rw [ReferralGrantShareRow.grant, Prod.mk.injEq]
  simp only [updateGrant, group]
  congr 1
  split
  · next none =>
      conv_lhs => rw [← List.map_id db.referralGrantShares]
      refine List.map_congr_left fun row mem => ?_
      have other : row.grant ≠ (epochId, changed.1) := by
        intro mine
        have listed : row ∈ db.sharesOf (epochId, changed.1) :=
          List.mem_filter.mpr ⟨mem, decide_eq_true mine⟩
        rw [none] at listed
        exact List.not_mem_nil listed
      rw [respread, if_neg other]
      rfl
  · exact updateShares_eq

/-- New amounts leave the groups: every share is still of the grant it was of. -/
theorem sharesOf_respread (key' : Nat × Pubkey) (news : List (RefereeShare Pubkey))
    (shares : List ReferralGrantShareRow) :
    ((shares.map (respread key news)).filter fun row => row.grant = key') =
      (shares.filter fun row => row.grant = key').map (respread key news) := by
  rw [List.filter_map]
  refine congrArg _ (List.filter_congr fun row _ => ?_)
  rw [Function.comp_apply, respread_grant]

theorem rescaled_referees (amount : Int) (shares : List ReferralGrantShareRow) :
    (splitAmong settings amount (weightsOf shares)).map RefereeShare.referee =
      shares.map ReferralGrantShareRow.referee := by
  let _ := settings.addresses
  rw [splitAmong, splitShares_referees, weightsOf, List.map_map]
  rfl

/-- The new shares of a grant add up to what was divided anew. -/
theorem sum_respread_own {news : List (RefereeShare Pubkey)}
    (distinct : (news.map RefereeShare.referee).Nodup)
    (same : news.map RefereeShare.referee =
      (db.sharesOf key).map ReferralGrantShareRow.referee) :
    (((db.sharesOf key).map (respread key news)).map ReferralGrantShareRow.amount).sum =
      (news.map RefereeShare.amount).sum := by
  rw [← sum_newAmount distinct same, List.map_map]
  refine congrArg List.sum (List.map_congr_left fun share known => ?_)
  rw [Function.comp_apply, respread, if_pos (of_decide_eq_true (List.mem_filter.mp known).2)]

/-- Those of another grant to what they did. -/
theorem sum_respread_other {key' : Nat × Pubkey} {news : List (RefereeShare Pubkey)}
    (other : key' ≠ key) :
    (((db.sharesOf key').map (respread key news)).map ReferralGrantShareRow.amount).sum =
      db.shared key' := by
  rw [GrantTables.shared, List.map_map]
  refine congrArg List.sum (List.map_congr_left fun share known => ?_)
  have mine := of_decide_eq_true (List.mem_filter.mp known).2
  rw [Function.comp_apply, respread, if_neg fun also => other (mine.symm.trans also)]

theorem respread_nonneg (adds : SharesAddUp db) (less : amount ≤ db.shared key)
    {row : ReferralGrantShareRow} (mem : row ∈ db.referralGrantShares) :
    0 ≤ (respread key (splitAmong settings amount (weightsOf (db.sharesOf key))) row).amount := by
  rw [respread]
  split
  · next mine =>
      have same := @rescaled_referees settings amount (db.sharesOf key)
      have given : row.referee ∈ (splitAmong settings amount
          (weightsOf (db.sharesOf key))).map RefereeShare.referee := by
        rw [same]
        exact List.mem_map_of_mem (List.mem_filter.mpr ⟨mem, decide_eq_true mine⟩)
      obtain ⟨share, known, referee⟩ := List.mem_map.mp given
      rw [← referee]
      change 0 ≤ newAmount _ share.referee row.amount
      rw [newAmount_of_mem (same ▸ adds.referees key) known]
      exact rescaled_nonneg adds less known
  · exact adds.nonneg row mem

/-- Where the change is to no more than the recorded amount, the shares add up again. -/
theorem SharesAddUp.updateGrant (adds : SharesAddUp db) {changed : Pubkey × Int}
    (shrinks : ∀ row ∈ db.referralGrants, row.key = (epochId, changed.1) →
      0 ≤ changed.2 ∧ changed.2 ≤ row.amount) :
    SharesAddUp (updateGrant settings epochId db changed) := by
  have within : ∀ row ∈ db.referralGrants, row.key = (epochId, changed.1) →
      0 ≤ changed.2 ∧ changed.2 ≤ db.shared (epochId, changed.1) := by
    intro row mem mine
    rw [← mine, adds.sums row mem]
    exact shrinks row mem mine
  have unique : UniqueGrants (Indexer.updateGrant settings epochId db changed) := by
    rw [UniqueGrants, updateGrant_stamps]
    exact adds.unique
  rw [updateGrant_eq] at unique ⊢
  refine ⟨unique, ?_, ?_, ?_, ?_⟩
  · rw [List.map_map]
    have keys : ReferralGrantShareRow.key ∘ respread (epochId, changed.1) (splitAmong settings
        changed.2 (weightsOf (db.sharesOf (epochId, changed.1)))) = ReferralGrantShareRow.key :=
      funext fun row => respread_key _ row
    rw [keys]
    exact adds.keys
  · intro updated listed
    obtain ⟨row, mem, rfl⟩ := List.mem_map.mp listed
    by_cases mine : row.grant = (epochId, changed.1)
    · obtain ⟨grant, owner, key⟩ := List.mem_map.mp (adds.owned row mem)
      exact respread_nonneg adds (within grant owner (key.trans mine)).2 mem
    · rw [respread, if_neg mine]
      exact adds.nonneg row mem
  · intro updated listed
    obtain ⟨row, mem, rfl⟩ := List.mem_map.mp listed
    obtain ⟨grant, owner, key⟩ := List.mem_map.mp (adds.owned row mem)
    rw [respread_grant, List.map_map]
    refine List.mem_map.mpr ⟨grant, owner, ?_⟩
    rw [← key, Function.comp_apply]
    split
    · rfl
    · rfl
  · intro updated listed
    obtain ⟨row, mem, rfl⟩ := List.mem_map.mp listed
    rw [GrantTables.shared, GrantTables.sharesOf, sharesOf_respread]
    by_cases mine : row.key = (epochId, changed.1)
    · rw [if_pos mine]
      obtain ⟨nonneg, less⟩ := within row mem mine
      change ((List.map _ (db.sharesOf row.key)).map _).sum = changed.2
      have same := @rescaled_referees settings changed.2 (db.sharesOf (epochId, changed.1))
      rw [mine, sum_respread_own (same ▸ adds.referees _) same]
      exact sum_rescaled adds nonneg less
    · rw [if_neg mine, ← adds.sums row mem]
      exact sum_respread_other mine

theorem SharesAddUp.amount_nonneg (adds : SharesAddUp db) {row : ReferralGrantRow}
    (mem : row ∈ db.referralGrants) : 0 ≤ row.amount := by
  rw [← adds.sums row mem]
  refine List.sum_nonneg fun amount listed => ?_
  obtain ⟨share, known, rfl⟩ := List.mem_map.mp listed
  exact adds.nonneg share (List.mem_filter.mp known).1

theorem SharesAddUp.row_unique (adds : SharesAddUp db) {a b : ReferralGrantRow}
    (ha : a ∈ db.referralGrants) (hb : b ∈ db.referralGrants) (same : a.key = b.key) : a = b := by
  have unique := adds.unique
  rw [UniqueGrants, keys_eq] at unique
  exact List.inj_on_of_nodup_map unique ha hb same

/-- Changes of different grants, each to no more than what is recorded. -/
theorem SharesAddUp.updateGrants {changes : List (Pubkey × Int)} (adds : SharesAddUp db)
    (distinct : (changes.map Prod.fst).Nodup)
    (shrink : ∀ changed ∈ changes, ∀ row ∈ db.referralGrants, row.key = (epochId, changed.1) →
      0 ≤ changed.2 ∧ changed.2 ≤ row.amount) :
    SharesAddUp (changes.foldl (Indexer.updateGrant settings epochId) db) := by
  induction changes generalizing db with
  | nil => exact adds
  | cons first rest ih =>
      rw [List.map_cons, List.nodup_cons] at distinct
      rw [List.foldl_cons]
      refine ih (adds.updateGrant (shrink first (List.mem_cons_self ..))) distinct.2 ?_
      intro changed later updated listed mine
      obtain ⟨row, mem, rfl⟩ := List.mem_map.mp listed
      split at mine
      · next other =>
          -- The first change is not of this grant.
          have again : changed.1 = first.1 := (Prod.mk.inj (mine.symm.trans other)).2
          exact absurd (again ▸ List.mem_map_of_mem later) distinct.1
      · next other =>
          rw [if_neg other]
          exact shrink changed (List.mem_cons_of_mem _ later) row mem mine

theorem changedGrant_eq_some {players : Pubkey → Option PlayerRow} {grant : ReferralGrantRow}
    {changed : Pubkey × Int} (h : changedGrant epochId players grant = some changed) :
    changed = (grant.referrer, clampedAmount players grant) := by
  rw [changedGrant] at h
  split at h
  · exact nomatch h
  · exact (Option.some.inj (Option.ite_none_right_eq_some.mp h).2).symm

theorem clampedAmount_bounds {players : Pubkey → Option PlayerRow} {grant : ReferralGrantRow}
    (nonneg : 0 ≤ grant.amount) :
    0 ≤ clampedAmount players grant ∧ clampedAmount players grant ≤ grant.amount := by
  simp only [clampedAmount, remainingGrantCap_eq]
  split <;> omega

theorem SharesAddUp.handBack {players : Pubkey → Option PlayerRow} (adds : SharesAddUp db) :
    SharesAddUp (handBack settings epochId players db).2 := by
  refine adds.updateGrants ?_ ?_
  · refine (filterMap_referrers (fun row changed h => ?_) _).nodup
      (pendingGrants_referrers adds.unique)
    rw [changedGrant_eq_some h]
  · intro changed listed row mem mine
    obtain ⟨grant, pending, h⟩ := List.mem_filterMap.mp listed
    obtain rfl := changedGrant_eq_some h
    obtain ⟨known, due⟩ := List.mem_filter.mp (List.mem_mergeSort.mp pending)
    have same : row = grant := by
      refine adds.row_unique mem known (mine.trans ?_)
      rw [ReferralGrantRow.key, (of_decide_eq_true due).1]
    rw [same]
    exact clampedAmount_bounds (adds.amount_nonneg known)

theorem SharesAddUp.mark {referrers : List Pubkey} {txSig : String} (adds : SharesAddUp db) :
    SharesAddUp (markReferralGrantsSent epochId referrers txSig db) := by
  have keys : ∀ row : ReferralGrantRow, (if row.epochId = epochId ∧ row.referrer ∈ referrers then
      { row with txSig := some txSig } else row).key = row.key ∧
        (if row.epochId = epochId ∧ row.referrer ∈ referrers then
          { row with txSig := some txSig } else row).amount = row.amount := by
    intro row
    split
    · exact ⟨rfl, rfl⟩
    · exact ⟨rfl, rfl⟩
  refine ⟨markReferralGrantsSent_unique adds.unique, adds.keys, adds.nonneg, ?_, ?_⟩
  · intro row mem
    obtain ⟨grant, owner, key⟩ := List.mem_map.mp (adds.owned row mem)
    rw [markReferralGrantsSent, List.map_map]
    exact List.mem_map.mpr ⟨grant, owner, (keys grant).1.trans key⟩
  · intro marked listed
    obtain ⟨row, mem, rfl⟩ := List.mem_map.mp listed
    rw [(keys row).1, (keys row).2]
    exact adds.sums row mem

end Group

/-! The recording of new grants. -/

theorem nodup_eraseDups {α : Type} [DecidableEq α] (items : List α) : items.eraseDups.Nodup := by
  induction length : items.length using Nat.strong_induction_on generalizing items with
  | _ n ih =>
      cases items with
      | nil => exact List.nodup_nil
      | cons a rest =>
          rw [List.eraseDups_cons, List.nodup_cons, List.mem_eraseDups]
          refine ⟨fun mem => ?_, ih _ ?_ _ rfl⟩
          · have other := (List.mem_filter.mp mem).2
            simp at other
          · rw [← length, List.length_cons]
            exact Nat.lt_succ_of_le (List.length_filter_le _ _)

theorem lookup_map_mk {α β : Type} [DecidableEq α] (f : α → β) {keys : List α} {a : α}
    (mem : a ∈ keys) : (keys.map fun key => (key, f key)).lookup a = some (f a) := by
  induction keys with
  | nil => exact absurd mem List.not_mem_nil
  | cons key rest ih =>
      rw [List.map_cons, List.lookup_cons]
      by_cases same : a = key
      · rw [same, beq_self_eq_true]
      · rw [beq_eq_false_iff_ne.mpr same]
        exact ih ((List.mem_cons.mp mem).resolve_left same)

/-- Of lists under different keys, the one under a key. -/
theorem flatMap_only {α β κ : Type} {key : α → κ} {g : α → List β} {items : List α} {b : α}
    (distinct : (items.map key).Nodup) (mem : b ∈ items)
    (others : ∀ a ∈ items, key a ≠ key b → g a = []) : items.flatMap g = g b := by
  induction items with
  | nil => exact absurd mem List.not_mem_nil
  | cons a rest ih =>
      rw [List.map_cons, List.nodup_cons] at distinct
      rw [List.flatMap_cons]
      rcases List.mem_cons.mp mem with rfl | later
      · have none : rest.flatMap g = [] := by
          rw [List.flatMap_eq_nil_iff]
          intro a mem
          refine others a (List.mem_cons_of_mem _ mem) fun same => distinct.1 ?_
          exact same ▸ List.mem_map_of_mem mem
        rw [none, List.append_nil]
      · have other : key a ≠ key b := fun same => distinct.1 (same ▸ List.mem_map_of_mem later)
        rw [others a (List.mem_cons_self ..) other, List.nil_append]
        exact ih distinct.2 later fun c mem => others c (List.mem_cons_of_mem _ mem)

section Record
variable (settings : GrantSettings) (epochId : Nat) (now : Int) (pool : PoolRow)
  (db : GrantTables)

def recordedReferrers : List Pubkey :=
  (db.referralGrants.filter fun row => row.epochId = epochId).map fun row => row.referrer

/-- The inputs of the referrers without a grant yet. -/
def newInputs : List (ReferrerBonusInput Pubkey) :=
  ((byReferrer db.referrals).map (bonusInput settings epochId now (playerByOwner db))).filter
    fun input => input.referrer ∉ recordedReferrers epochId db

def newBonuses : List (ReferrerBonus Pubkey) :=
  computeBonuses (newInputs settings epochId now db) pool.totalPrincipal pool.bonusCapBps
    ((db.referralGrants.filter fun row => row.epochId = epochId).foldl
      (fun sum row => sum + row.amount) 0)

/-- The shares a new grant is recorded with. -/
def newShares (bonus : ReferrerBonus Pubkey) : List ReferralGrantShareRow :=
  (splitAmong settings bonus.amount
    (qualifiedWeights settings now (byReferrer db.referrals) bonus.referrer)).map
      (shareRow epochId bonus.referrer)

variable {settings epochId now pool db}

theorem mem_recordedReferrers {referrer : Pubkey} : referrer ∈ recordedReferrers epochId db ↔
    (epochId, referrer) ∈ db.referralGrants.map ReferralGrantRow.key := by
  rw [recordedReferrers, List.mem_map, List.mem_map]
  constructor
  · intro h
    obtain ⟨row, mem, rfl⟩ := h
    obtain ⟨known, same⟩ := List.mem_filter.mp mem
    exact ⟨row, known, Prod.ext (of_decide_eq_true same) rfl⟩
  · intro h
    obtain ⟨row, known, key⟩ := h
    obtain ⟨same, rfl⟩ := Prod.mk.inj key
    exact ⟨row, List.mem_filter.mpr ⟨known, decide_eq_true same⟩, rfl⟩

theorem newInputs_referrers :
    ((newInputs settings epochId now db).map fun input => input.referrer).Nodup := by
  refine (List.filter_sublist.map _).nodup ?_
  rw [List.map_map, byReferrer, List.map_map]
  change (((db.referrals.map fun row => row.referrer).eraseDups).map fun referrer => referrer).Nodup
  rw [List.map_id']
  exact nodup_eraseDups _

/-- What goes into the bonus of a referrer: the qualified among its Referral rows. -/
theorem mem_newInputs {input : ReferrerBonusInput Pubkey}
    (mem : input ∈ newInputs settings epochId now db) :
    input.referrer ∉ recordedReferrers epochId db ∧
      ∃ refs : List ReferralRow, refs.Sublist db.referrals ∧
        input.qualifiedReferralPrincipals = refs.map (fun ref => ref.principal) ∧
          qualifiedWeights settings now (byReferrer db.referrals) input.referrer =
            refs.map fun ref => ⟨ref.referee, basisOf ref.principal⟩ := by
  obtain ⟨listed, fresh⟩ := List.mem_filter.mp mem
  refine ⟨of_decide_eq_true fresh, ?_⟩
  obtain ⟨entry, known, rfl⟩ := List.mem_map.mp listed
  obtain ⟨referrer, first, rfl⟩ := List.mem_map.mp known
  refine ⟨qualifiedReferees settings now (db.referrals.filter fun row => row.referrer = referrer),
    List.filter_sublist.trans List.filter_sublist, rfl, ?_⟩
  have found : (byReferrer db.referrals).lookup referrer =
      some (db.referrals.filter fun row => row.referrer = referrer) := lookup_map_mk _ first
  change (qualifiedReferees settings now
    (((byReferrer db.referrals).lookup referrer).getD [])).map _ = _
  rw [found, Option.getD_some]

/-- Each item of the second list has its partner in the first. -/
theorem exists_of_forall₂ {α β : Type} {R : α → β → Prop} {left : List α} {right : List β}
    (h : List.Forall₂ R left right) {b : β} (mem : b ∈ right) : ∃ a ∈ left, R a b := by
  induction h with
  | nil => exact absurd mem List.not_mem_nil
  | @cons a b' left right first rest ih =>
      rcases List.mem_cons.mp mem with rfl | later
      · exact ⟨a, List.mem_cons_self .., first⟩
      · obtain ⟨other, known, related⟩ := ih later
        exact ⟨other, List.mem_cons_of_mem _ known, related⟩

theorem referrers_of_listed {inputs : List (ReferrerBonusInput Pubkey)}
    {bonuses : List (ReferrerBonus Pubkey)} (listed : List.Forall₂ Listed inputs bonuses) :
    bonuses.map (fun bonus => bonus.referrer) = inputs.map fun input => input.referrer := by
  induction listed with
  | nil => rfl
  | cons first rest ih => rw [List.map_cons, List.map_cons, first.referrer, ih]

theorem newInputs_nonneg (sound : SoundReferrals db.referrals) :
    ∀ input ∈ newInputs settings epochId now db, input.NonNegative := by
  intro input mem principal counted
  obtain ⟨-, refs, some_, principals, -⟩ := mem_newInputs mem
  rw [principals] at counted
  obtain ⟨ref, known, rfl⟩ := List.mem_map.mp counted
  exact sound.principals ref (some_.subset known)

theorem newBonuses_listed (adds : SharesAddUp db) (sound : SoundReferrals db.referrals) :
    ∃ listed, listed.Sublist (newInputs settings epochId now db) ∧
      List.Forall₂ Listed listed (newBonuses settings epochId now pool db) := by
  refine computeBonuses_listed (newInputs_nonneg sound) ?_
  rw [foldl_add_sum]
  refine List.sum_nonneg fun amount counted => ?_
  obtain ⟨row, mem, rfl⟩ := List.mem_map.mp counted
  exact adds.amount_nonneg (List.mem_of_mem_filter mem)

theorem newBonuses_referrers (adds : SharesAddUp db) (sound : SoundReferrals db.referrals) :
    ((newBonuses settings epochId now pool db).map fun bonus => bonus.referrer).Nodup := by
  obtain ⟨listed, some_, bonuses⟩ := newBonuses_listed adds sound
  rw [referrers_of_listed bonuses]
  exact (some_.map _).nodup newInputs_referrers

/-- A new grant is of a referrer without one, and there is something to divide it by. -/
theorem mem_newBonuses (adds : SharesAddUp db) (sound : SoundReferrals db.referrals)
    {bonus : ReferrerBonus Pubkey} (mem : bonus ∈ newBonuses settings epochId now pool db) :
    bonus.referrer ∉ recordedReferrers epochId db ∧ 0 < bonus.amount ∧
      Divisible (qualifiedWeights settings now (byReferrer db.referrals) bonus.referrer) ∧
        0 < totalOf (qualifiedWeights settings now (byReferrer db.referrals) bonus.referrer) := by
  obtain ⟨inputs, some_, listed⟩ := newBonuses_listed adds sound
  obtain ⟨input, known, granted⟩ := exists_of_forall₂ listed mem
  have known := some_.subset known
  obtain ⟨fresh, refs, few, principals, weights⟩ := mem_newInputs known
  have basis := (newInputs_nonneg sound input known).basis
  rw [granted.referrer, weights]
  refine ⟨fresh, granted.positive, ⟨?_, ?_⟩, ?_⟩
  · rw [List.map_map]
    exact (few.map _).nodup sound.referees
  · intro w weighed
    obtain ⟨ref, mem, rfl⟩ := List.mem_map.mp weighed
    exact basisOf_nonneg (sound.principals ref (few.subset mem))
  · have total : totalOf (refs.map fun ref => (⟨ref.referee, basisOf ref.principal⟩ :
        ShareWeight Pubkey)) = (input.qualifiedReferralPrincipals.map basisOf).sum := by
      rw [totalOf, principals, List.map_map, List.map_map]
      rfl
    rw [total]
    refine lt_of_le_of_ne basis fun zero => ?_
    have raw : bonus.amount ≤ rawBonus input :=
      Int.le_trans granted.due (Int.min_le_left _ _)
    rw [rawBonus, ← zero, Int.zero_mul] at raw
    exact absurd (Int.lt_of_lt_of_le granted.positive raw) (Int.lt_irrefl 0)

/-- The shares of a new grant are of its key, and one for each referee. -/
theorem newShares_grant {bonus : ReferrerBonus Pubkey} {row : ReferralGrantShareRow}
    (mem : row ∈ newShares settings epochId now db bonus) : row.grant = (epochId, bonus.referrer) := by
  obtain ⟨share, -, rfl⟩ := List.mem_map.mp mem
  rfl

theorem newShares_keys {bonus : ReferrerBonus Pubkey}
    (divisible : Divisible (qualifiedWeights settings now (byReferrer db.referrals) bonus.referrer)) :
    ((newShares settings epochId now db bonus).map ReferralGrantShareRow.key).Nodup := by
  let _ := settings.addresses
  have keys : (newShares settings epochId now db bonus).map ReferralGrantShareRow.key =
      ((splitAmong settings bonus.amount (qualifiedWeights settings now (byReferrer db.referrals)
        bonus.referrer)).map RefereeShare.referee).map fun referee =>
          (epochId, bonus.referrer, referee) := by
    rw [newShares, List.map_map, List.map_map]
    rfl
  rw [keys, splitAmong, splitShares_referees]
  refine divisible.distinct.map fun a b same => ?_
  exact (Prod.mk.inj (Prod.mk.inj same).2).2

theorem newBonuses_fresh (adds : SharesAddUp db) (sound : SoundReferrals db.referrals)
    {bonus : ReferrerBonus Pubkey} (mem : bonus ∈ newBonuses settings epochId now pool db) :
    (epochId, bonus.referrer) ∉ db.referralGrants.map ReferralGrantRow.key := by
  rw [← mem_recordedReferrers]
  exact (mem_newBonuses adds sound mem).1

/-- Every new grant is written. -/
theorem createGrants_eq (adds : SharesAddUp db) (sound : SoundReferrals db.referrals) :
    createUnique ReferralGrantRow.key
      ((newBonuses settings epochId now pool db).map (grantRow epochId)) db.referralGrants =
        db.referralGrants ++
          (newBonuses settings epochId now pool db).map (grantRow epochId) := by
  refine createUnique_fresh ?_ ?_
  · intro row mem
    obtain ⟨bonus, listed, rfl⟩ := List.mem_map.mp mem
    exact newBonuses_fresh adds sound listed
  · have keys : ((newBonuses settings epochId now pool db).map (grantRow epochId)).map
        ReferralGrantRow.key = ((newBonuses settings epochId now pool db).map
          fun bonus => bonus.referrer).map fun referrer => (epochId, referrer) := by
      rw [List.map_map, List.map_map]
      rfl
    rw [keys]
    exact (newBonuses_referrers adds sound).map fun a b same => (Prod.mk.inj same).2

/-- And every share of it. -/
theorem createShares_eq (adds : SharesAddUp db) (sound : SoundReferrals db.referrals) :
    createUnique ReferralGrantShareRow.key
      ((newBonuses settings epochId now pool db).flatMap (newShares settings epochId now db))
        db.referralGrantShares = db.referralGrantShares ++
          (newBonuses settings epochId now pool db).flatMap
            (newShares settings epochId now db) := by
  refine createUnique_fresh ?_ ?_
  · intro row mem known
    obtain ⟨bonus, listed, group⟩ := List.mem_flatMap.mp mem
    obtain ⟨old, there, key⟩ := List.mem_map.mp known
    refine newBonuses_fresh adds sound listed ?_
    rw [← newShares_grant group]
    have grant : old.grant = row.grant := by
      obtain ⟨epoch, rest⟩ := Prod.mk.inj key
      exact Prod.ext epoch (Prod.mk.inj rest).1
    exact grant ▸ adds.owned old there
  · rw [List.map_flatMap]
    refine List.nodup_flatMap.mpr ⟨fun bonus listed => ?_, ?_⟩
    · exact newShares_keys (mem_newBonuses adds sound listed).2.2.1
    · refine (List.pairwise_map.mp (newBonuses_referrers adds sound)).imp fun {a b} differ => ?_
      intro key ofA ofB
      obtain ⟨rowA, memA, keyA⟩ := List.mem_map.mp ofA
      obtain ⟨rowB, memB, keyB⟩ := List.mem_map.mp ofB
      have grantA := newShares_grant memA
      have grantB := newShares_grant memB
      have same := (Prod.mk.inj (Prod.mk.inj (keyA.trans keyB.symm)).2).1
      exact differ ((Prod.mk.inj grantA).2.symm.trans (same.trans (Prod.mk.inj grantB).2))

/-- No referrer of a new grant has a row of this epoch, so that no share is left out. -/
theorem unwritten_eq (adds : SharesAddUp db) (sound : SoundReferrals db.referrals) :
    (newBonuses settings epochId now pool db).filter (fun bonus => bonus.referrer ∉
      (db.referralGrants.filter fun row => row.epochId = epochId ∧ row.referrer ∈
        (newBonuses settings epochId now pool db).map fun bonus => bonus.referrer).map
          fun row => row.referrer) = newBonuses settings epochId now pool db := by
  have none : (db.referralGrants.filter fun row => row.epochId = epochId ∧ row.referrer ∈
      (newBonuses settings epochId now pool db).map fun bonus => bonus.referrer) = [] := by
    refine List.filter_eq_nil_iff.mpr fun row mem also => ?_
    obtain ⟨epoch, granted⟩ := of_decide_eq_true also
    obtain ⟨bonus, listed, referrer⟩ := List.mem_map.mp granted
    refine newBonuses_fresh adds sound listed (List.mem_map.mpr ⟨row, mem, ?_⟩)
    rw [ReferralGrantRow.key, epoch, referrer]
  rw [none]
  exact List.filter_eq_self.mpr fun bonus _ => decide_eq_true List.not_mem_nil

/-- What is recorded is new: it is added behind what is there. -/
theorem recordBonuses_eq (adds : SharesAddUp db) (sound : SoundReferrals db.referrals) :
    recordBonuses settings epochId now pool db = { db with
      referralGrants :=
        db.referralGrants ++ (newBonuses settings epochId now pool db).map (grantRow epochId)
      referralGrantShares := db.referralGrantShares ++
        (newBonuses settings epochId now pool db).flatMap (newShares settings epochId now db) } := by
  rw [← createGrants_eq adds sound, ← createShares_eq adds sound]
  conv_rhs => arg 5; rw [← unwritten_eq adds sound]
  rfl

/-- The shares of a new grant are those recorded with it, and add up to it. -/
theorem shared_new (adds : SharesAddUp db) (sound : SoundReferrals db.referrals)
    {bonus : ReferrerBonus Pubkey} (mem : bonus ∈ newBonuses settings epochId now pool db) :
    (recordBonuses settings epochId now pool db).shared (epochId, bonus.referrer) =
      bonus.amount := by
  let _ := settings.addresses
  obtain ⟨-, positive, divisible, total⟩ := mem_newBonuses adds sound mem
  have old : db.sharesOf (epochId, bonus.referrer) = [] := by
    refine List.filter_eq_nil_iff.mpr fun row listed mine => newBonuses_fresh adds sound mem ?_
    exact of_decide_eq_true mine ▸ adds.owned row listed
  have own : (newShares settings epochId now db bonus).filter (fun row =>
      row.grant = (epochId, bonus.referrer)) = newShares settings epochId now db bonus :=
    List.filter_eq_self.mpr fun row listed => decide_eq_true (newShares_grant listed)
  have group : (recordBonuses settings epochId now pool db).sharesOf (epochId, bonus.referrer) =
      newShares settings epochId now db bonus := by
    rw [recordBonuses_eq adds sound, GrantTables.sharesOf, List.filter_append, ← GrantTables.sharesOf,
      old, List.nil_append, List.filter_flatMap,
      flatMap_only (newBonuses_referrers adds sound) mem ?_, own]
    intro other listed differs
    refine List.filter_eq_nil_iff.mpr fun row shares mine => differs ?_
    have grant := (newShares_grant shares).symm.trans (of_decide_eq_true mine)
    exact (Prod.mk.inj grant).2
  rw [GrantTables.shared, group, newShares, List.map_map, splitAmong]
  exact sum_splitShares divisible total positive

/-- Those of an older grant stay. -/
theorem shared_old (adds : SharesAddUp db) (sound : SoundReferrals db.referrals)
    {row : ReferralGrantRow} (mem : row ∈ db.referralGrants) :
    (recordBonuses settings epochId now pool db).shared row.key = db.shared row.key := by
  have others : ((newBonuses settings epochId now pool db).flatMap
      (newShares settings epochId now db)).filter (fun share => share.grant = row.key) = [] := by
    refine List.filter_eq_nil_iff.mpr fun share listed mine => ?_
    obtain ⟨bonus, new, shares⟩ := List.mem_flatMap.mp listed
    refine newBonuses_fresh adds sound new ?_
    rw [← newShares_grant shares, of_decide_eq_true mine]
    exact List.mem_map_of_mem mem
  rw [GrantTables.shared, recordBonuses_eq adds sound, GrantTables.sharesOf, List.filter_append,
    others, List.append_nil]
  rfl

theorem SharesAddUp.record (adds : SharesAddUp db) (sound : SoundReferrals db.referrals) :
    SharesAddUp (recordBonuses settings epochId now pool db) := by
  let _ := settings.addresses
  have old := @shared_old settings epochId now pool db adds sound
  have new := @shared_new settings epochId now pool db adds sound
  have keys := @createShares_eq settings epochId now pool db adds sound
  constructor
  case unique => exact recordBonuses_unique adds.unique
  all_goals rw [recordBonuses_eq adds sound] at *
  case keys =>
    rw [← keys]
    exact createUnique_nodup adds.keys
  case nonneg =>
    intro row mem
    rcases List.mem_append.mp mem with known | added
    · exact adds.nonneg row known
    · obtain ⟨bonus, listed, shares⟩ := List.mem_flatMap.mp added
      obtain ⟨share, given, rfl⟩ := List.mem_map.mp shares
      obtain ⟨-, -, divisible, total⟩ := mem_newBonuses adds sound listed
      exact splitShares_nonneg divisible total given
  case owned =>
    intro row mem
    rw [List.map_append, List.mem_append]
    rcases List.mem_append.mp mem with known | added
    · exact .inl (adds.owned row known)
    · obtain ⟨bonus, listed, shares⟩ := List.mem_flatMap.mp added
      rw [newShares_grant shares]
      exact .inr (List.mem_map.mpr ⟨_, List.mem_map_of_mem listed, rfl⟩)
  case sums =>
    intro row mem
    rcases List.mem_append.mp mem with known | added
    · rw [old known]
      exact adds.sums row known
    · obtain ⟨bonus, listed, rfl⟩ := List.mem_map.mp added
      exact new listed

end Record

section Runs
variable {settings : GrantSettings} {start s : GrantTables}
  {history : List (GrantTables × ShareEvent)}

theorem SharesStep.kept {db : GrantTables} {event : ShareEvent} {db' : GrantTables}
    (step : SharesStep settings db event db')
    (adds : SharesAddUp db ∧ SoundReferrals db.referrals) :
    SharesAddUp db' ∧ SoundReferrals db'.referrals := by
  obtain ⟨sound⟩ := step
  refine ⟨?_, sound⟩
  cases event with
  | record epochId now pool => exact adds.1.record adds.2
  | handBack epochId players => exact adds.1.handBack
  | mark epochId referrers txSig => exact adds.1.mark
  | write pool players referrals =>
      exact ⟨adds.1.unique, adds.1.keys, adds.1.nonneg, adds.1.owned, adds.1.sums⟩

theorem sharesAddUp_of_run (adds : SharesAddUp start ∧ SoundReferrals start.referrals)
    (run : Steps (SharesStep settings) start history s) :
    SharesAddUp s ∧ SoundReferrals s.referrals :=
  run.invariant adds fun _ adds step => step.kept adds

/-- Before any grant there is nothing to add up. -/
theorem SharesAddUp.empty (grants : start.referralGrants = [])
    (shares : start.referralGrantShares = []) : SharesAddUp start := by
  constructor
  case unique => simp [UniqueGrants, GrantTables.stamps, grants]
  case keys => simp [shares]
  case nonneg => simp [shares]
  case owned => simp [shares]
  case sums => simp [grants]

/-- A grant is divided among its referees without a remainder, each getting its part rounded down
or one unit more, in whatever order they come; and however often the amount is clamped to less
afterwards, the shares in the tables are those of the amount in the tables. -/
theorem shares_add_up {ρ : Type u} [LinearOrder ρ] (grants : start.referralGrants = [])
    (shares : start.referralGrantShares = []) (sound : SoundReferrals start.referrals)
    (run : Steps (SharesStep settings) start history s) :
    (∀ (grant : Int) (weights : List (ShareWeight ρ)), Divisible weights →
      0 < totalOf weights → 0 < grant →
        ((splitShares grant weights).map RefereeShare.amount).sum = grant ∧
        List.Forall₂ (FairShare grant (totalOf weights)) weights (splitShares grant weights) ∧
        ∀ weights', List.Perm weights' weights →
          (splitShares grant weights').Perm (splitShares grant weights)) ∧
    ∀ row ∈ s.referralGrants, s.shared row.key = row.amount := by
  constructor
  · intro grant weights divisible total grant_
    refine ⟨sum_splitShares divisible total grant_, splitShares_fair divisible total grant_, ?_⟩
    intro weights' perm
    exact splitShares_perm divisible perm total grant_
  · exact (sharesAddUp_of_run ⟨.empty grants shares, sound⟩ run).1.sums

end Runs

namespace SharesDemo

open GrantDemo

def start : GrantTables where
  pool := none
  players := Finmap.singleton ⟨3⟩ ⟨60000000, 0, 0⟩
  referrals := [referral 5 70000000, referral 6 70000000, referral 7 50000000]
  referralGrants := []
  referralGrantShares := []

/-- A referrer that holds less, and ends with a single unit. -/
def shrunken (principal : Int) (_ : Pubkey) : Option PlayerRow := some ⟨principal, 0, 0⟩

def recorded : GrantTables :=
  sharing settings (.record 1 700000 ⟨1000000000000, 10000⟩) start

def clamped : GrantTables := sharing settings (.handBack 1 (shrunken 1000001)) recorded

def clampedAgain : GrantTables := sharing settings (.handBack 1 (shrunken 1)) clamped

theorem start_sound : SoundReferrals start.referrals := ⟨by decide, by decide⟩

theorem clamped_run : ∃ history, Steps (SharesStep settings) start history clampedAgain := by
  refine ⟨_, ((Steps.start.next (.next ?_)).next (.next ?_)).next (.next ?_)⟩
  all_goals exact ⟨by decide +kernel, by decide +kernel⟩

end SharesDemo

/-- A bonus that is clamped twice, to the single unit that one of three referees gets. -/
theorem shares_add_up_clamped :
    ((splitShares 100 [⟨1, 1⟩, ⟨2, 1⟩, (⟨3, 1⟩ : ShareWeight Nat)]).map
      RefereeShare.amount).sum = 100 ∧
    ∃ row ∈ SharesDemo.clampedAgain.referralGrants,
      row.amount = 1 ∧ SharesDemo.clampedAgain.shared row.key = row.amount := by
  obtain ⟨history, run⟩ := SharesDemo.clamped_run
  obtain ⟨divided, sums⟩ := shares_add_up (ρ := Nat) rfl rfl SharesDemo.start_sound run
  have one : ∃ row ∈ SharesDemo.clampedAgain.referralGrants, row.amount = 1 := by
    decide +kernel
  obtain ⟨row, mem, amount⟩ := one
  exact ⟨(divided 100 _ ⟨by decide, by decide⟩ (by decide) (by decide)).1, row, mem, amount,
    sums row mem⟩

end Indexer

end HexVault
