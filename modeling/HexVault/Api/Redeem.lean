import HexVault.Indexer.Persist
import HexVault.Lib.ReadCommitted

/-!
`POST /access/redeem`: one use of an invite code spent on a wallet, the wallet bound to a
referrer, and codes of its own granted to it, statement by statement in one transaction.
-/

namespace HexVault

namespace Api

open Finmap Indexer ReadCommitted Runs

/-! The rows. -/

structure InviteCode where
  ownerWallet : Option Pubkey
  maxUses : Int
  uses : Int
  createdAt : Int
  deriving DecidableEq, Repr

structure InviteRedemption where
  code : String
  redeemedAt : Int
  deriving DecidableEq, Repr

/-- Tables and primary keys. A Player is one of the active pool. -/
inductive Key where
  | inviteCode (code : String)
  | inviteRedemption (wallet : Pubkey)
  | referralCode (code : String)
  | player (owner : Pubkey)
  | referral (referee : Pubkey)
  deriving DecidableEq, Repr

inductive Row where
  | inviteCode (row : InviteCode)
  | inviteRedemption (row : InviteRedemption)
  | referralCode (owner : Pubkey)
  | player (principal : Int)
  | referral (row : ReferralRow)
  deriving DecidableEq, Repr

abbrev Rows := Table Key Row

def findInviteCode (rows : Rows) (code : String) : Option InviteCode :=
  match rows.lookup (.inviteCode code) with
  | some (.inviteCode row) => some row
  | _ => none

def findReferralCode (rows : Rows) (code : String) : Option Pubkey :=
  match rows.lookup (.referralCode code) with
  | some (.referralCode owner) => some owner
  | _ => none

def findPlayer (rows : Rows) (owner : Pubkey) : Option Int :=
  match rows.lookup (.player owner) with
  | some (.player principal) => some principal
  | _ => none

/-! The request. -/

def INVITE_CODE_MAX_USES : Int := 1

structure Settings where
  circulationCap : Int
  redeemGrantCount : Int

/-- What a request asks, with what the clock and the generator of codes give it. -/
structure Redeem where
  wallet : Pubkey
  code : String
  referralCode : Option String
  redeemedAt : Int
  boundAt : Int
  grantedAt : Int
  generateInviteCode : Nat → String

/-- The statement a request is at. -/
inductive Redeeming where
  | checkWallet
  | findInvite
  | consume (invite : InviteCode)
  | record (invite : InviteCode)
  | findReferral (invite : InviteCode)
  | findReferrer (invite : InviteCode) (referralCode : String)
  | findPlayer (referrer : Pubkey) (code : String)
  | bind (referrer : Pubkey) (code : String) (principal : Int)
  | lock
  | aggregate
  | grant (codes : List String)

def maxUsesOf : Key → Row → Int
  | .inviteCode _, .inviteCode row => row.maxUses
  | _, _ => 0

def usesOf : Key → Row → Int
  | .inviteCode _, .inviteCode row => row.uses
  | _, _ => 0

/-- The remaining uses of all codes. -/
def circulation (rows : Rows) : Int := total maxUsesOf rows - total usesOf rows

def inviteGrantCount (circulation cap grantCount : Int) : Int :=
  max 0 (min grantCount (cap - circulation))

/-- The invite code's owner, when that is somebody else. -/
def ownerBinding (r : Redeem) (invite : InviteCode) : Redeeming :=
  match invite.ownerWallet with
  | some owner => if owner ≠ r.wallet then .findPlayer owner r.code else .lock
  | none => .lock

def bindReferral (r : Redeem) (referrer : Pubkey) (code : String) (principal : Int) :
    ReferralRow :=
  let seeded := applyReferralEvent ⟨0, none⟩ (.deposited principal) r.boundAt
  { referee := r.wallet
    referrer
    code
    boundAt := r.boundAt
    aboveSince := seeded.aboveSince
    principal := seeded.principal }

def redeem (settings : Settings) : Redeem × Redeeming → Command Key Row (Redeem × Redeeming)
  | (r, .checkWallet) => .query fun rows =>
      if (rows.lookup (.inviteRedemption r.wallet)).isSome then none else some (r, .findInvite)
  | (r, .findInvite) => .query fun rows =>
      (findInviteCode rows r.code).map fun invite => (r, .consume invite)
  | (r, .consume invite) => .write (.inviteCode r.code) fun
      | some (.inviteCode row) =>
          if row.uses < invite.maxUses then
            some (.inviteCode { row with uses := row.uses + 1 }, (r, .record invite))
          else none
      | _ => none
  | (r, .record invite) => .write (.inviteRedemption r.wallet) fun
      | none => some (.inviteRedemption ⟨r.code, r.redeemedAt⟩, (r, .findReferral invite))
      | some _ => none
  | (r, .findReferral invite) => .query fun rows =>
      if (rows.lookup (.referral r.wallet)).isSome then some (r, .lock)
      else match r.referralCode with
      | some code => some (r, .findReferrer invite code)
      | none => some (r, ownerBinding r invite)
  | (r, .findReferrer invite code) => .query fun rows =>
      match findReferralCode rows code with
      | some owner =>
          if owner ≠ r.wallet then some (r, .findPlayer owner code)
          else some (r, ownerBinding r invite)
      | none => some (r, ownerBinding r invite)
  | (r, .findPlayer referrer code) => .query fun rows =>
      some (r, .bind referrer code ((findPlayer rows r.wallet).getD 0))
  | (r, .bind referrer code principal) => .write (.referral r.wallet) fun
      | none => some (.referral (bindReferral r referrer code principal), (r, .lock))
      | some _ => none
  | (r, .lock) => .lock (r, .aggregate)
  | (r, .aggregate) => .query fun rows =>
      let grantCount := inviteGrantCount (circulation rows) settings.circulationCap
        settings.redeemGrantCount
      some (r, .grant ((List.range grantCount.toNat).map r.generateInviteCode))
  | (r, .grant (code :: rest)) => .write (.inviteCode code) fun
      | none => some (.inviteCode ⟨some r.wallet, INVITE_CODE_MAX_USES, 0, r.grantedAt⟩,
          (r, .grant rest))
      | some _ => none
  | (_, .grant []) => .commit

def Starts (state : Redeem × Redeeming) : Prop := state.2 = .checkWallet

/-! What a request has written. -/

/-- The uses of one code. -/
def usesAt (code : String) : Key → Row → Int
  | .inviteCode other, .inviteCode row => if other = code then row.uses else 0
  | _, _ => 0

/-- The redemptions of one code. -/
def recordedFor (code : String) : Key → Row → Int
  | .inviteRedemption _, .inviteRedemption row => if row.code = code then 1 else 0
  | _, _ => 0

def remainingOf (key : Key) (row : Row) : Int := maxUsesOf key row - usesOf key row

/-- A request's writes: a use of its code and the redemption of its wallet, once each has been
written, and new codes with some uses between them. -/
structure Wrote (r : Redeem) (c writes : Rows) (used recorded : Bool) (granted : Int) :
    Prop where
  uses : ∀ code, change (usesAt code) c writes = if used = true ∧ code = r.code then 1 else 0
  records : ∀ code, change (recordedFor code) c writes =
    if recorded = true ∧ code = r.code then 1 else 0
  remaining : change remainingOf c writes = granted - if used = true then 1 else 0
  codes : ∀ code row, writes.lookup (.inviteCode code) = some row → ∃ new,
    row = .inviteCode new ∧ new.uses ≤ new.maxUses ∧
      ∀ old, c.lookup (.inviteCode code) = some (.inviteCode old) → new.maxUses = old.maxUses
  wallets : ∀ wallet, .inviteRedemption wallet ∈ writes → recorded = true ∧ wallet = r.wallet
  wallet : recorded = true → .inviteRedemption r.wallet ∈ writes ∧
    c.lookup (.inviteRedemption r.wallet) = none

/-- No code is used more often than it may be. -/
def WithinMax (rows : Rows) : Prop :=
  ∀ code row, rows.lookup (.inviteCode code) = some (.inviteCode row) → row.uses ≤ row.maxUses

theorem withinMax_iff {rows : Rows} : WithinMax rows ↔
    ∀ code row, findInviteCode rows code = some row → row.uses ≤ row.maxUses := by
  have same : ∀ code row, findInviteCode rows code = some row ↔
      rows.lookup (.inviteCode code) = some (.inviteCode row) := by
    intro code row
    rw [findInviteCode]
    cases rows.lookup (.inviteCode code) with
    | none => exact ⟨nofun, nofun⟩
    | some held =>
        cases held with
        | inviteCode held => simp only [Option.some.injEq, Row.inviteCode.injEq]
        | inviteRedemption | referralCode | player | referral => exact ⟨nofun, nofun⟩
  simp only [same]
  rfl

/-- What holds of a request at each statement. From the lock on nobody else commits, and the
codes it is about to insert fit under the cap. -/
def Asserts (settings : Settings) (c : Rows) (session : Session Key Row (Redeem × Redeeming)) :
    Prop :=
  let r := session.state.1
  match session.state.2 with
  | .checkWallet | .findInvite => session.writes = ∅
  | .consume invite => session.writes = ∅ ∧ ∃ row,
      c.lookup (.inviteCode r.code) = some (.inviteCode row) ∧ row.maxUses = invite.maxUses
  | .record _ => Wrote r c session.writes true false 0
  | .findReferral _ | .findReferrer .. | .findPlayer .. | .bind .. | .lock =>
      Wrote r c session.writes true true 0
  | .aggregate => session.locked = true ∧ Wrote r c session.writes true true 0
  | .grant codes => session.locked = true ∧ ∃ granted,
      Wrote r c session.writes true true granted ∧ (codes = [] ∧ granted = 0 ∨
        circulation c - 1 + granted + codes.length ≤ settings.circulationCap)

section Writes
variable {r : Redeem} {c c' writes : Rows} {key : Key} {used recorded : Bool} {granted : Int}

/-- A key that a session finds free is neither its own nor committed. -/
theorem fresh_of_view {row : Option Row} (h : (writes ∪ c).lookup key = row) (none : row = none) :
    key ∉ writes ∧ c.lookup key = Option.none := by
  rw [none] at h
  have away : key ∉ writes := fun mem =>
    Finmap.lookup_eq_none.mp h (Finmap.mem_union.mpr (.inl mem))
  refine ⟨away, ?_⟩
  rwa [Finmap.lookup_union_right away] at h

theorem change_fresh (f : Key → Row → Int) {row : Row} (fresh : key ∉ writes)
    (none : c.lookup key = none) :
    change f c (writes.insert key row) = change f c writes + f key row := by
  rw [change_insert f fresh, none, Option.elim_none, Int.sub_zero]

/-- What others commit elsewhere leaves a request's writes what they are. -/
theorem Wrote.stable (wrote : Wrote r c writes used recorded granted)
    (same : ∀ key ∈ writes, c'.lookup key = c.lookup key) :
    Wrote r c' writes used recorded granted := by
  refine ⟨?_, ?_, ?_, ?_, wrote.wallets, ?_⟩
  · intro code
    rw [change_stable _ same]
    exact wrote.uses code
  · intro code
    rw [change_stable _ same]
    exact wrote.records code
  · rw [change_stable _ same]
    exact wrote.remaining
  · intro code row hrow
    obtain ⟨new, rfl, le, kept⟩ := wrote.codes code row hrow
    refine ⟨new, rfl, le, fun old hold => kept old ?_⟩
    rw [← same _ (Finmap.mem_of_lookup_eq_some hrow)]
    exact hold
  · intro written
    obtain ⟨mem, none⟩ := wrote.wallet written
    exact ⟨mem, (same _ mem).trans none⟩

/-- The conditional update: one use of a code that had one left. -/
theorem wrote_consume {row : InviteCode}
    (h : c.lookup (.inviteCode r.code) = some (.inviteCode row)) (left : row.uses < row.maxUses) :
    Wrote r c ((∅ : Rows).insert (.inviteCode r.code)
      (.inviteCode { row with uses := row.uses + 1 })) true false 0 := by
  have only : ∀ f : Key → Row → Int, change f c ((∅ : Rows).insert (.inviteCode r.code)
      (.inviteCode { row with uses := row.uses + 1 })) =
        f (.inviteCode r.code) (.inviteCode { row with uses := row.uses + 1 }) -
          f (.inviteCode r.code) (.inviteCode row) := by
    intro f
    rw [change_insert f Finmap.notMem_empty, h, change_empty, Option.elim_some, Int.zero_add]
  refine ⟨?_, ?_, ?_, ?_, ?_, nofun⟩
  · intro code
    rw [only]
    simp only [usesAt, true_and]
    by_cases same : r.code = code
    · rw [if_pos same, if_pos same, if_pos same.symm]
      omega
    · rw [if_neg same, if_neg same, if_neg (Ne.symm same)]
      rfl
  · intro code
    rw [only, if_neg (by simp)]
    rfl
  · rw [only]
    simp only [remainingOf, maxUsesOf, usesOf, if_true]
    omega
  · intro code other hother
    rcases Finmap.lookup_insert_cases hother with ⟨same, rfl⟩ | ⟨-, none⟩
    · obtain rfl := Key.inviteCode.inj same
      refine ⟨_, rfl, left, fun old hold => ?_⟩
      rw [h] at hold
      obtain rfl := Row.inviteCode.inj (Option.some.inj hold)
      rfl
    · exact nomatch none
  · intro wallet mem
    rcases Finmap.mem_insert.mp mem with same | none
    · exact nomatch same
    · exact absurd none Finmap.notMem_empty

/-- An insert that is neither a code nor a redemption counts for nothing. -/
theorem Wrote.referral {row : ReferralRow} (wrote : Wrote r c writes used recorded granted)
    (fresh : .referral r.wallet ∉ writes) (none : c.lookup (.referral r.wallet) = none) :
    Wrote r c (writes.insert (.referral r.wallet) (.referral row)) used recorded granted := by
  refine ⟨?_, ?_, ?_, ?_, ?_, ?_⟩
  · intro code
    rw [change_fresh _ fresh none, wrote.uses code]
    exact Int.add_zero _
  · intro code
    rw [change_fresh _ fresh none, wrote.records code]
    exact Int.add_zero _
  · rw [change_fresh _ fresh none, wrote.remaining]
    exact Int.add_zero _
  · intro code other hother
    rcases Finmap.lookup_insert_cases hother with ⟨same, -⟩ | ⟨-, old⟩
    · exact nomatch same
    · exact wrote.codes code other old
  · intro wallet mem
    rcases Finmap.mem_insert.mp mem with same | old
    · exact nomatch same
    · exact wrote.wallets wallet old
  · intro written
    obtain ⟨mem, free⟩ := wrote.wallet written
    exact ⟨Finmap.mem_insert.mpr (.inr mem), free⟩

theorem Wrote.record {row : InviteRedemption} (wrote : Wrote r c writes true false granted)
    (code : row.code = r.code) (fresh : .inviteRedemption r.wallet ∉ writes)
    (none : c.lookup (.inviteRedemption r.wallet) = none) :
    Wrote r c (writes.insert (.inviteRedemption r.wallet) (.inviteRedemption row)) true true
      granted := by
  refine ⟨?_, ?_, ?_, ?_, ?_, ?_⟩
  · intro code
    rw [change_fresh _ fresh none, wrote.uses code]
    exact Int.add_zero _
  · intro other
    rw [change_fresh _ fresh none, wrote.records other, if_neg (by simp), Int.zero_add]
    simp only [recordedFor, code, true_and, eq_comm]
  · rw [change_fresh _ fresh none, wrote.remaining]
    exact Int.add_zero _
  · intro code other hother
    rcases Finmap.lookup_insert_cases hother with ⟨same, -⟩ | ⟨-, old⟩
    · exact nomatch same
    · exact wrote.codes code other old
  · intro wallet mem
    rcases Finmap.mem_insert.mp mem with same | old
    · exact ⟨rfl, Key.inviteRedemption.inj same⟩
    · exact absurd (wrote.wallets wallet old).1 (by decide)
  · intro _
    exact ⟨Finmap.mem_insert.mpr (.inl rfl), none⟩

/-- A granted code adds its uses to the circulation. -/
theorem Wrote.grant {code : String} (owner : Option Pubkey) (createdAt : Int)
    (wrote : Wrote r c writes used recorded granted) (fresh : .inviteCode code ∉ writes)
    (none : c.lookup (.inviteCode code) = none) :
    Wrote r c (writes.insert (.inviteCode code)
      (.inviteCode ⟨owner, INVITE_CODE_MAX_USES, 0, createdAt⟩)) used recorded (granted + 1) := by
  refine ⟨?_, ?_, ?_, ?_, ?_, ?_⟩
  · intro other
    rw [change_fresh _ fresh none, wrote.uses other]
    simp only [usesAt, ite_self, Int.add_zero]
  · intro other
    rw [change_fresh _ fresh none, wrote.records other]
    exact Int.add_zero _
  · rw [change_fresh _ fresh none, wrote.remaining]
    simp only [remainingOf, maxUsesOf, usesOf, INVITE_CODE_MAX_USES]
    omega
  · intro other row hrow
    rcases Finmap.lookup_insert_cases hrow with ⟨same, rfl⟩ | ⟨-, old⟩
    · refine ⟨_, rfl, Int.one_nonneg, fun old hold => ?_⟩
      rw [same, none] at hold
      exact nomatch hold
    · exact wrote.codes other row old
  · intro wallet mem
    rcases Finmap.mem_insert.mp mem with same | old
    · exact nomatch same
    · exact wrote.wallets wallet old
  · intro written
    obtain ⟨mem, free⟩ := wrote.wallet written
    exact ⟨Finmap.mem_insert.mpr (.inr mem), free⟩

theorem remaining_total (rows : Rows) : total remainingOf rows = circulation rows := by
  have split := total_add remainingOf usesOf rows
  have sum : (fun key row => remainingOf key row + usesOf key row) = maxUsesOf := by
    funext key row
    exact Int.sub_add_cancel _ _
  rw [sum] at split
  rw [circulation, split]
  omega

end Writes

section Outline
variable {settings : Settings} {c : Rows} {session other : Session Key Row (Redeem × Redeeming)}

theorem circulation_view {r : Redeem} {writes : Rows} {granted : Int}
    (wrote : Wrote r c writes true true granted) :
    circulation (writes ∪ c) = circulation c - 1 + granted := by
  rw [← remaining_total, ← remaining_total, total_union, wrote.remaining, if_pos rfl]
  omega

theorem asserts_ownerBinding {r : Redeem} {writes : Rows} {locked : Bool} (invite : InviteCode)
    (wrote : Wrote r c writes true true 0) :
    Asserts settings c ⟨writes, locked, (r, ownerBinding r invite)⟩ := by
  rw [ownerBinding]
  split
  · split
    · exact wrote
    · exact wrote
  · exact wrote

theorem asserts_query {run : Rows → Option (Redeem × Redeeming)} {next : Redeem × Redeeming}
    (h : Asserts settings c session) (command : redeem settings session.state = .query run)
    (answer : run (session.view c) = some next) :
    Asserts settings c { session with state := next } := by
  obtain ⟨writes, locked, r, at_⟩ := session
  cases at_ with
  | checkWallet =>
      cases command
      obtain rfl := Option.some.inj (Option.ite_none_left_eq_some.mp answer).2
      exact h
  | findInvite =>
      cases command
      obtain ⟨invite, found, rfl⟩ := Option.map_eq_some_iff.mp answer
      have untouched : writes = ∅ := h
      subst untouched
      rw [Session.view, Finmap.empty_union, findInviteCode] at found
      refine ⟨rfl, invite, ?_, rfl⟩
      split at found
      · next row hrow =>
          obtain rfl := Option.some.inj found
          exact hrow
      · exact nomatch found
  | findReferral invite =>
      cases command
      dsimp only at answer
      split at answer
      · obtain rfl := Option.some.inj answer
        exact h
      · split at answer
        · obtain rfl := Option.some.inj answer
          exact h
        · obtain rfl := Option.some.inj answer
          exact asserts_ownerBinding invite h
  | findReferrer invite code =>
      cases command
      dsimp only at answer
      split at answer
      · split at answer
        · obtain rfl := Option.some.inj answer
          exact h
        · obtain rfl := Option.some.inj answer
          exact asserts_ownerBinding invite h
      · obtain rfl := Option.some.inj answer
        exact asserts_ownerBinding invite h
  | findPlayer referrer code =>
      cases command
      obtain rfl := Option.some.inj answer
      exact h
  | aggregate =>
      cases command
      obtain rfl := Option.some.inj answer
      obtain ⟨held, wrote⟩ := h
      refine ⟨held, 0, wrote, ?_⟩
      have seen := circulation_view wrote
      rw [Session.view, seen, List.length_map, List.length_range, inviteGrantCount]
      by_cases none : min settings.redeemGrantCount
          (settings.circulationCap - (circulation c - 1 + 0)) ≤ 0
      · rw [Int.max_eq_left none]
        exact .inl ⟨rfl, rfl⟩
      · have room := Int.min_le_right settings.redeemGrantCount
          (settings.circulationCap - (circulation c - 1 + 0))
        right
        omega
  | consume | record | bind | lock => cases command
  | grant codes => cases codes <;> cases command

theorem asserts_write {key : Key} {run : Option Row → Option (Row × (Redeem × Redeeming))}
    {row : Row} {next : Redeem × Redeeming} (h : Asserts settings c session)
    (command : redeem settings session.state = .write key run)
    (answer : run ((session.view c).lookup key) = some (row, next)) :
    Asserts settings c { session with
      writes := session.writes.insert key row, state := next } := by
  obtain ⟨writes, locked, r, at_⟩ := session
  rw [Session.view] at answer
  cases at_ with
  | consume invite =>
      cases command
      obtain ⟨untouched, old, hold, same⟩ := h
      have empty : writes = ∅ := untouched
      subst empty
      rw [Finmap.empty_union, hold] at answer
      obtain ⟨left, stored⟩ := Option.ite_none_right_eq_some.mp answer
      obtain ⟨rfl, rfl⟩ := Prod.mk.inj (Option.some.inj stored)
      exact wrote_consume hold (by rw [same]; exact left)
  | record invite =>
      cases command
      cases hrow : (writes ∪ c).lookup (.inviteRedemption r.wallet) with
      | some _ =>
          rw [hrow] at answer
          exact nomatch answer
      | none =>
          rw [hrow] at answer
          obtain ⟨rfl, rfl⟩ := Prod.mk.inj (Option.some.inj answer)
          obtain ⟨fresh, free⟩ := fresh_of_view hrow rfl
          exact Wrote.record h rfl fresh free
  | bind referrer code principal =>
      cases command
      cases hrow : (writes ∪ c).lookup (.referral r.wallet) with
      | some _ =>
          rw [hrow] at answer
          exact nomatch answer
      | none =>
          rw [hrow] at answer
          obtain ⟨rfl, rfl⟩ := Prod.mk.inj (Option.some.inj answer)
          obtain ⟨fresh, free⟩ := fresh_of_view hrow rfl
          exact Wrote.referral h fresh free
  | grant codes =>
      cases codes with
      | nil => cases command
      | cons code rest =>
          cases command
          cases hrow : (writes ∪ c).lookup (.inviteCode code) with
          | some _ =>
              rw [hrow] at answer
              exact nomatch answer
          | none =>
              rw [hrow] at answer
              obtain ⟨rfl, rfl⟩ := Prod.mk.inj (Option.some.inj answer)
              obtain ⟨fresh, free⟩ := fresh_of_view hrow rfl
              obtain ⟨held, granted, wrote, room⟩ := h
              refine ⟨held, granted + 1, wrote.grant _ _ fresh free, .inr ?_⟩
              rcases room with ⟨none, -⟩ | room
              · exact nomatch none
              · rw [List.length_cons] at room
                omega
  | checkWallet | findInvite | findReferral | findReferrer | findPlayer | lock | aggregate =>
      cases command

/-- A request about to commit holds the lock and has written all it writes. -/
theorem asserts_commit (h : Asserts settings c session)
    (command : redeem settings session.state = .commit) : session.locked = true ∧
      ∃ granted, Wrote session.state.1 c session.writes true true granted ∧ (granted = 0 ∨
        circulation c - 1 + granted ≤ settings.circulationCap) := by
  obtain ⟨writes, locked, r, at_⟩ := session
  cases at_ with
  | grant codes =>
      cases codes with
      | cons => cases command
      | nil =>
          obtain ⟨held, granted, wrote, room⟩ := h
          refine ⟨held, granted, wrote, room.imp And.right fun room => ?_⟩
          rw [List.length_nil] at room
          omega
  | checkWallet | findInvite | consume | record | findReferral | findReferrer | findPlayer | bind
    | lock | aggregate => cases command

theorem asserts_stable (h : Asserts settings c session) (commits : Asserts settings c other)
    (command : redeem settings other.state = .commit)
    (apart : ∀ key ∈ session.writes, key ∉ other.writes)
    (lock : session.locked = true → other.locked = false) :
    Asserts settings (other.view c) session := by
  obtain ⟨held, granted, wrote, -⟩ := asserts_commit commits command
  have free : ¬ session.locked = true := fun mine =>
    absurd (held.symm.trans (lock mine)) (by decide)
  have same : ∀ key ∈ session.writes, (other.view c).lookup key = c.lookup key := fun key mem =>
    Finmap.lookup_union_right (apart key mem)
  obtain ⟨writes, locked, r, at_⟩ := session
  cases at_ with
  | checkWallet | findInvite => exact h
  | consume invite =>
      obtain ⟨untouched, old, hold, maxUses⟩ := h
      refine ⟨untouched, ?_⟩
      rw [Session.view]
      by_cases mem : .inviteCode r.code ∈ other.writes
      · obtain ⟨row, hrow⟩ := Finmap.mem_iff.mp mem
        obtain ⟨new, rfl, -, kept⟩ := wrote.codes r.code row hrow
        refine ⟨new, ?_, (kept old hold).trans maxUses⟩
        rw [Finmap.lookup_union_left mem]
        exact hrow
      · refine ⟨old, ?_, maxUses⟩
        rw [Finmap.lookup_union_right mem]
        exact hold
  | record | findReferral | findReferrer | findPlayer | bind | lock => exact Wrote.stable h same
  | aggregate => exact absurd h.1 free
  | grant codes => exact absurd h.1 free

theorem commit_withinMax (h : Asserts settings c session) (within : WithinMax c)
    (command : redeem settings session.state = .commit) : WithinMax (session.view c) := by
  obtain ⟨-, granted, wrote, -⟩ := asserts_commit h command
  intro code row hrow
  rw [Session.view] at hrow
  by_cases mem : .inviteCode code ∈ session.writes
  · rw [Finmap.lookup_union_left mem] at hrow
    obtain ⟨new, same, le, -⟩ := wrote.codes code _ hrow
    obtain rfl := Row.inviteCode.inj same
    exact le
  · rw [Finmap.lookup_union_right mem] at hrow
    exact within code row hrow

theorem redeem_outline (settings : Settings) :
    Outline (redeem settings) Starts WithinMax (Asserts settings) where
  start := by
    intro c state _ starts
    obtain ⟨r, at_⟩ := state
    obtain rfl : at_ = .checkWallet := starts
    rfl
  query := fun _ h command answer => asserts_query h command answer
  write := fun _ h command answer => asserts_write h command answer
  lock := by
    intro c session next _ h command
    obtain ⟨writes, locked, r, at_⟩ := session
    cases at_ with
    | lock =>
        cases command
        exact ⟨rfl, h⟩
    | grant codes => cases codes <;> cases command
    | checkWallet | findInvite | consume | record | findReferral | findReferrer | findPlayer | bind
      | aggregate => cases command
  commit := fun within h command => commit_withinMax h within command
  stable := fun _ h commits command apart lock => asserts_stable h commits command apart lock

end Outline

/-! What whole runs keep. -/

def codeUses (rows : Rows) (code : String) : Int :=
  (findInviteCode rows code).elim 0 fun row => row.uses

def redemptions (rows : Rows) (code : String) : Int := total (recordedFor code) rows

def redeemed (rows : Rows) (wallet : Pubkey) : Bool :=
  (rows.lookup (.inviteRedemption wallet)).isSome

section Runs
variable {τ : Type} [DecidableEq τ]

/-- The step is a commit, by a request that meets a condition. -/
def commits (p : Redeem → Bool)
    (x : Store Key Row (Redeem × Redeeming) τ × τ × Turn (Redeem × Redeeming)) : Bool :=
  match x.2.2 with
  | .commit => (x.1.sessions x.2.1).any fun session => p session.state.1
  | _ => false

/-- What the commits of a history have done to the rows. -/
structure Counted (start : Rows)
    (history : List (Store Key Row (Redeem × Redeeming) τ × τ × Turn (Redeem × Redeeming)))
    (rows : Rows) : Prop where
  uses : ∀ code, codeUses rows code =
    codeUses start code + history.countP (commits fun r => r.code = code)
  records : ∀ code, redemptions rows code =
    redemptions start code + history.countP (commits fun r => r.code = code)
  wallets : ∀ wallet, history.countP (commits fun r => r.wallet = wallet) +
    (redeemed start wallet).toNat = (redeemed rows wallet).toNat

variable {settings : Settings} {c : Rows} {start s s' : Store Key Row (Redeem × Redeeming) τ}
  {history : List (Store Key Row (Redeem × Redeeming) τ × τ × Turn (Redeem × Redeeming))}
  {t : τ} {e : τ × Turn (Redeem × Redeeming)} {session : Session Key Row (Redeem × Redeeming)}

theorem total_usesAt (rows : Rows) (code : String) :
    total (usesAt code) rows = codeUses rows code := by
  have others : ∀ key ≠ Key.inviteCode code, ∀ row, usesAt code key row = 0 := by
    intro key ne row
    cases key with
    | inviteCode other =>
        cases row with
        | inviteCode row => exact if_neg fun same => ne (congrArg Key.inviteCode same)
        | inviteRedemption | referralCode | player | referral => rfl
    | inviteRedemption | referralCode | player | referral => rfl
  rw [total_single rows others, codeUses, findInviteCode]
  cases rows.lookup (.inviteCode code) with
  | none => rfl
  | some row =>
      cases row with
      | inviteCode row => exact if_pos rfl
      | inviteRedemption | referralCode | player | referral => rfl

theorem codeUses_view {r : Redeem} {writes : Rows} {granted : Int}
    (wrote : Wrote r c writes true true granted) (code : String) :
    codeUses (writes ∪ c) code = codeUses c code + if r.code = code then 1 else 0 := by
  rw [← total_usesAt, ← total_usesAt, total_union, wrote.uses]
  simp only [true_and, eq_comm]

theorem redemptions_view {r : Redeem} {writes : Rows} {granted : Int}
    (wrote : Wrote r c writes true true granted) (code : String) :
    redemptions (writes ∪ c) code = redemptions c code + if r.code = code then 1 else 0 := by
  rw [redemptions, redemptions, total_union, wrote.records]
  simp only [true_and, eq_comm]

theorem redeemed_view {r : Redeem} {writes : Rows} {granted : Int}
    (wrote : Wrote r c writes true true granted) (wallet : Pubkey) :
    (redeemed (writes ∪ c) wallet).toNat =
      (redeemed c wallet).toNat + if r.wallet = wallet then 1 else 0 := by
  rw [redeemed, redeemed]
  obtain ⟨mine, free⟩ := wrote.wallet rfl
  by_cases same : r.wallet = wallet
  · subst same
    obtain ⟨row, hrow⟩ := Finmap.mem_iff.mp mine
    rw [Finmap.lookup_union_left mine, hrow, free, if_pos rfl]
    rfl
  · have away : .inviteRedemption wallet ∉ writes := fun mem =>
      same (wrote.wallets wallet mem).2.symm
    rw [Finmap.lookup_union_right away, if_neg same, Nat.add_zero]

/-- One step: only a commit changes the rows, by one redemption. -/
theorem Counted.next (counted : Counted start.committed history s.committed)
    (each : ∀ t session, s.sessions t = some session → Asserts settings s.committed session)
    (h : ReadCommitted.Step (redeem settings) Starts s e s') :
    Counted start.committed ((s, e) :: history) s'.committed := by
  have quiet : ∀ {p : Redeem → Bool} {t turn}, turn ≠ .commit →
      ((s, t, turn) :: history).countP (commits p) = history.countP (commits p) := by
    intro p t turn ne
    refine List.countP_cons_of_neg ?_
    cases turn with
    | commit => exact absurd rfl ne
    | start | run | abort => exact Bool.false_ne_true
  have same : ∀ {t turn}, turn ≠ .commit →
      Counted start.committed ((s, t, turn) :: history) s.committed := by
    intro t turn ne
    refine ⟨fun code => ?_, fun code => ?_, fun wallet => ?_⟩
    · rw [quiet ne]
      exact counted.uses code
    · rw [quiet ne]
      exact counted.records code
    · rw [quiet ne]
      exact counted.wallets wallet
  cases h with
  | started | queried | written | locked | aborted => exact same nofun
  | @committed t session ht command =>
      obtain ⟨-, granted, wrote, -⟩ := asserts_commit (each t session ht) command
      have one : ∀ p : Redeem → Bool, ((s, t, .commit) :: history).countP (commits p) =
          history.countP (commits p) + if p session.state.1 then 1 else 0 := by
        intro p
        rw [List.countP_cons, commits, ht]
        rfl
      refine ⟨fun code => ?_, fun code => ?_, fun wallet => ?_⟩
      · have before := counted.uses code
        rw [one, Session.view, codeUses_view wrote]
        simp only [decide_eq_true_eq]
        split <;> omega
      · have before := counted.records code
        rw [one, Session.view, redemptions_view wrote]
        simp only [decide_eq_true_eq]
        split <;> omega
      · have before := counted.wallets wallet
        rw [one, Session.view, redeemed_view wrote]
        simp only [decide_eq_true_eq]
        split <;> omega

theorem run_counted (idle : ∀ t, start.sessions t = none) (within : WithinMax start.committed)
    (run : Steps (ReadCommitted.Step (redeem settings) Starts) start history s) :
    Counted start.committed history s.committed := by
  have unchanged : Counted start.committed ([] : List (Store Key Row (Redeem × Redeeming) τ × _))
      start.committed :=
    ⟨fun _ => (Int.add_zero _).symm, fun _ => (Int.add_zero _).symm, fun _ => Nat.zero_add _⟩
  refine run.invariant (P := fun history s => Counted start.committed history s.committed)
    unchanged ?_
  intro history t e u before counted step
  obtain ⟨-, -, each⟩ := (redeem_outline settings).holds idle within before
  exact counted.next each step

/-- One step: a commit leaves the circulation under the cap, or lower than it was. -/
theorem step_circulation
    (each : ∀ t session, s.sessions t = some session → Asserts settings s.committed session)
    (h : ReadCommitted.Step (redeem settings) Starts s e s') :
    circulation s'.committed ≤ max settings.circulationCap (circulation s.committed) := by
  cases h with
  | started | queried | written | locked | aborted => exact Int.le_max_right ..
  | @committed t session ht command =>
      obtain ⟨-, granted, wrote, room⟩ := asserts_commit (each t session ht) command
      have after := circulation_view wrote
      rw [Session.view, after]
      omega

/-- Any number of requests at once: no code is used beyond its uses, each use is a redemption
recorded, no wallet redeems twice, no commit takes the circulation above the cap, and whatever
does not commit changes nothing. -/
theorem redeem_concurrent (settings : Settings)
    (start s : Store Key Row (Redeem × Redeeming) τ)
    (history : List (Store Key Row (Redeem × Redeeming) τ × τ × Turn (Redeem × Redeeming)))
    (idle : ∀ t, start.sessions t = none)
    (within : ∀ code row, findInviteCode start.committed code = some row →
      row.uses ≤ row.maxUses)
    (run : Steps (ReadCommitted.Step (redeem settings) Starts) start history s) :
    (∀ code row, findInviteCode s.committed code = some row → row.uses ≤ row.maxUses) ∧
      (∀ code, codeUses s.committed code - codeUses start.committed code =
        redemptions s.committed code - redemptions start.committed code) ∧
      (∀ code, codeUses s.committed code - codeUses start.committed code =
        history.countP (commits fun r => r.code = code)) ∧
      (∀ wallet, history.countP (commits fun r => r.wallet = wallet) +
        (redeemed start.committed wallet).toNat = (redeemed s.committed wallet).toNat) ∧
      (∀ e s', ReadCommitted.Step (redeem settings) Starts s e s' →
        circulation s'.committed ≤ max settings.circulationCap (circulation s.committed) ∧
          (e.2 ≠ .commit → s'.committed = s.committed)) := by
  have allowed : WithinMax start.committed := withinMax_iff.mpr within
  obtain ⟨-, used, each⟩ := (redeem_outline settings).holds idle allowed run
  have counted := run_counted idle allowed run
  refine ⟨withinMax_iff.mp used, fun code => ?_, fun code => ?_, counted.wallets, ?_⟩
  · have uses := counted.uses code
    have records := counted.records code
    omega
  · have uses := counted.uses code
    omega
  · intro e s' step
    refine ⟨step_circulation each step, fun ne => ?_⟩
    cases step with
    | committed => exact absurd rfl ne
    | started | queried | written | locked | aborted => rfl

end Runs

namespace Demo

def settings : Settings := ⟨50, 0⟩

def request (wallet : Pubkey) : Redeem :=
  { wallet
    code := "K7PWQ2ZN"
    referralCode := none
    redeemedAt := 1000
    boundAt := 1000
    grantedAt := 1000
    generateInviteCode := fun _ => "" }

def issued : InviteCode := ⟨none, INVITE_CODE_MAX_USES, 0, 900⟩

/-- One code with one use left. -/
def opening : Store Key Row (Redeem × Redeeming) Bool :=
  ⟨(∅ : Rows).insert (.inviteCode "K7PWQ2ZN") (.inviteCode issued), fun _ => none⟩

/-- A request that has written nothing stands in no other's way. -/
theorem unhindered {s : Store Key Row (Redeem × Redeeming) Bool} {state : Redeem × Redeeming}
    (h : s.sessions false = some ⟨∅, false, state⟩) (u : Bool) (ne : u ≠ true)
    (other : Session Key Row (Redeem × Redeeming)) (hu : s.sessions u = some other) :
    other = ⟨∅, false, state⟩ := by
  cases u with
  | true => exact absurd rfl ne
  | false => exact Option.some.inj (hu.symm.trans h)

/-- Two requests see the code; one of them spends it, the other is turned away. -/
theorem contended : ∃ history s,
    Steps (ReadCommitted.Step (redeem settings) Starts) opening history s ∧
      codeUses s.committed "K7PWQ2ZN" = 1 ∧
        history.countP (commits fun r => r.wallet = ⟨7⟩) = 0 ∧
          history.countP (commits fun r => r.wallet = ⟨8⟩) = 1 := by
  have before : Steps (ReadCommitted.Step (redeem settings) Starts) opening [] opening := .start
  have first := ((before.next
    (.started (t := false) rfl (show Starts (request ⟨7⟩, .checkWallet) from rfl))).next
    (.queried (t := false) rfl rfl rfl)).next
    (.queried (t := false) rfl rfl rfl)
  have second := ((first.next
    (.started (t := true) rfl (show Starts (request ⟨8⟩, .checkWallet) from rfl))).next
    (.queried (t := true) rfl rfl rfl)).next
    (.queried (t := true) rfl rfl rfl)
  have spent := (second.next
    (.written (t := true) rfl rfl
      (fun u ne other hu => unhindered rfl u ne other hu ▸ Finmap.notMem_empty) rfl)).next
    (.written (t := true) rfl rfl
      (fun u ne other hu => unhindered rfl u ne other hu ▸ Finmap.notMem_empty) rfl)
  have granted := ((spent.next
    (.queried (t := true) rfl rfl rfl)).next
    (.locked (t := true) rfl rfl (fun u ne other hu => unhindered rfl u ne other hu ▸ rfl))).next
    (.queried (t := true) rfl rfl rfl)
  have finished := (granted.next
    (.committed (t := true) rfl rfl)).next
    (.aborted (t := false) rfl)
  exact ⟨_, _, finished, rfl, rfl, rfl⟩

end Demo

theorem redeem_concurrent_contended : ∃ s : Store Key Row (Redeem × Redeeming) Bool,
    redemptions s.committed "K7PWQ2ZN" = 1 ∧ redeemed s.committed ⟨8⟩ = true ∧
      redeemed s.committed ⟨7⟩ = false ∧
        ∀ row, findInviteCode s.committed "K7PWQ2ZN" = some row → row.uses ≤ row.maxUses := by
  obtain ⟨history, s, run, uses, none, one⟩ := Demo.contended
  have start : ∀ code row, findInviteCode Demo.opening.committed code = some row →
      row.uses ≤ row.maxUses := by
    refine withinMax_iff.mp fun code row h => ?_
    rcases Finmap.lookup_insert_cases h with ⟨-, same⟩ | ⟨-, none⟩
    · obtain rfl := Row.inviteCode.inj same
      decide
    · exact nomatch none
  obtain ⟨within, recorded, -, wallets, -⟩ :=
    redeem_concurrent Demo.settings Demo.opening s history (fun _ => rfl) start run
  refine ⟨s, ?_, ?_, ?_, within "K7PWQ2ZN"⟩
  · have records := recorded "K7PWQ2ZN"
    have unused : codeUses Demo.opening.committed "K7PWQ2ZN" = 0 := rfl
    have unspent : redemptions Demo.opening.committed "K7PWQ2ZN" = 0 := rfl
    omega
  · have count := wallets ⟨8⟩
    rw [one] at count
    cases h : redeemed s.committed ⟨8⟩ with
    | true => rfl
    | false =>
        rw [h] at count
        exact absurd count (by decide)
  · have count := wallets ⟨7⟩
    rw [none] at count
    cases h : redeemed s.committed ⟨7⟩ with
    | false => rfl
    | true =>
        rw [h] at count
        exact absurd count (by decide)

end Api

end HexVault
