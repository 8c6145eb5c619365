import HexVault.Invariants.Shutdown
import HexVault.Lib.Batches
import HexVault.Operator.Queries

/-!
The admin's way out for everybody at once after a shutdown: the Players still owed a
balance are read off the chain and paid in batches, each a transaction of its own.
-/

namespace HexVault

open Batches Fallible Finmap Operator

namespace Admin

/-- Why a transaction fails: an error of the program's, or of a program beside it. -/
inductive Refusal where
  | program (e : ProgramError)
  | other (message : String)
  deriving DecidableEq

/-- The failure the crank stops at: the vault does not hold what it owes. -/
def Refusal.isShort : Refusal → Bool
  | .program (.vault .insufficientVault) => true
  | _ => false

def balance (player : Player) : Nat := player.principal + player.pendingWithdraw

/-- Every Player of the pool with a balance, the House apart, in the order listed. -/
def playersOwedABalance (pool : Pubkey) (accounts : List PlayerAccount) : List Player :=
  (ofPool pool accounts).filter fun player => !player.isHouse && 0 < balance player

/-- A batch of the crank, and its place among them. -/
abbrev Batch := List Player × Nat

section Crank
-- An owner's associated account once created, or what its creation fails with.
variable (associated : Pubkey → Except Refusal TokenAccount)

end Crank

/-- The owners of the batches that landed. -/
def paidOwners (crank : Halt World Batch Refusal) : List Pubkey :=
  crank.passed.flatMap fun batch => batch.1.map (·.owner)

structure Report where
  paid : Nat
  skipped : Nat
  deriving DecidableEq

/-- What the crank says at its end: the failure again, unless the vault was short. -/
def report (players : List Player) (crank : Halt World Batch Refusal) :
    Except Refusal Report :=
  let paid := (paidOwners crank).length
  match crank.failure with
  | none => .ok { paid, skipped := 0 }
  | some refusal =>
      if refusal.isShort then .ok { paid, skipped := players.length - paid } else .error refusal

/-- The two instructions for an owner fail whenever they land, and not for want of funds
in the vault: its account cannot be made or is not its own, or its Weight overflows. -/
def Refused (associated : Pubkey → Except Refusal TokenAccount) (landsAt : Nat → Int)
    (w : World) (player : Player) : Prop :=
  (∃ refusal, associated player.owner = .error refusal ∧ refusal.isShort = false) ∨
    ∃ token, associated player.owner = .ok token ∧
      (¬ (token.mint = w.pool.acceptedMint ∧ token.authority = player.owner) ∨
        ∀ i, ¬ Returns (touch player w.pool (landsAt i)))

/-- Only the vault can keep an owner from being paid, whenever its batch lands. -/
structure Served (associated : Pubkey → Except Refusal TokenAccount) (landsAt : Nat → Int)
    (w : World) (player : Player) : Prop where
  account : ∃ token, associated player.owner = .ok token ∧
    token.mint = w.pool.acceptedMint ∧ token.authority = player.owner
  touched : ∀ i, Returns (touch player w.pool (landsAt i))

/-- Nothing is left to pay an owner. -/
def Cleared (u : World) (owner : Pubkey) : Prop :=
  ∃ player, u.players.lookup owner = some player ∧ balance player = 0

/-- The chain between two batches, with the Players still to be paid: their accounts as
they were listed, the pool as it was but for its books, and a vault that covers them. -/
structure Owed (w : World) (remaining : List Player) (u : World) : Prop where
  pool : u.pool = { w.pool with
    totalPrincipal := u.pool.totalPrincipal, pendingWithdrawals := u.pool.pendingWithdrawals }
  ledger : ∃ history, u.Ledger history
  fits : u.principalVault < u64Limit
  accounts : ∀ player ∈ remaining, u.players.lookup player.owner = some player ∧
    player.isHouse = false ∧ 0 < balance player
  distinct : (remaining.map (·.owner)).Nodup
  covered : (remaining.map balance).sum ≤ u.principalVault

/-- What one payment does to the chain. -/
structure PaidOne (u : World) (player : Player) (u' : World) : Prop where
  vault : u'.principalVault + balance player = u.principalVault
  cleared : Cleared u' player.owner
  others : ∀ owner ≠ player.owner, u'.players.lookup owner = u.players.lookup owner
  clock : u'.clock = u.clock

section Payments
variable {associated : Pubkey → Except Refusal TokenAccount} {landsAt : Nat → Int}
  {w u : World} {player : Player} {rest : List Player} {i : Nat}

theorem Owed.touch_eq (owed : Owed w rest u) (p : Player) (now : Int) :
    touch p u.pool now = touch p w.pool now := by
  rw [owed.pool]
  rfl

theorem Owed.clocked (owed : Owed w rest u) (now : Int) : Owed w rest { u with clock := now } :=
  ⟨owed.pool, owed.ledger, owed.fits, owed.accounts, owed.distinct, owed.covered⟩

end Payments

/-- What has been paid by the time the Players of `remaining` are left: the vault has lost
the balances of the others, whose accounts are cleared. -/
structure PaidSince (w : World) (paid : List Player) (u : World) : Prop where
  vault : u.principalVault + (paid.map balance).sum = w.principalVault
  cleared : ∀ player ∈ paid, Cleared u player.owner

section Batches
variable {associated : Pubkey → Except Refusal TokenAccount} {landsAt : Nat → Int}
  {v w u : World} {player : Player} {batch rest paid : List Player} {i : Nat}

theorem PaidSince.next {u' : World} (since : PaidSince w paid u) (one : PaidOne u player u')
    (apart : ∀ other ∈ paid, other.owner ≠ player.owner) :
    PaidSince w (paid ++ [player]) u' := by
  refine ⟨?_, ?_⟩
  · have before := since.vault
    have now := one.vault
    rw [List.map_append, List.sum_append, List.map_singleton, List.sum_singleton]
    omega
  · intro other mem
    cases List.mem_append.mp mem with
    | inl old =>
        obtain ⟨q, hq, empty⟩ := since.cleared other old
        exact ⟨q, (one.others other.owner (apart other old)).trans hq, empty⟩
    | inr new =>
        obtain rfl := List.mem_singleton.mp new
        exact one.cleared

end Batches

section Run
variable {rt : Runtime} {associated : Pubkey → Except Refusal TokenAccount}
  {landsAt : Nat → Int} {batchSize : Nat} {accounts : List PlayerAccount} {w : World}

end Run

/-! Two owners owed a balance after a shutdown, one of whom gave its associated account
away. -/

namespace Demo

def invalidOwner : Refusal := .other "InvalidOwner"

def associated (bad owner : Pubkey) : Except Refusal TokenAccount :=
  if owner = bad then .error invalidOwner
  else .ok { mint := ⟨50⟩, authority := owner, amount := 0 }

def landsAt (_ : Nat) : Int := 2000

def listing (w : World) : List PlayerAccount := Operator.Demo.playersOf [⟨2⟩, ⟨3⟩, ⟨4⟩] w

def listed (w : World) : List Player := playersOwedABalance w.key (listing w)

/-- What the crank finds: a shut pool that covers its Players, each of whom can be touched. -/
structure Ready (w : World) : Prop where
  shut : w.pool.shutdown = true
  scans : Scans (listing w) w
  covers : ((listed w).map balance).sum ≤ w.principalVault
  mint : w.pool.acceptedMint = ⟨50⟩
  owners : (listed w).map (·.owner) = [⟨3⟩, ⟨4⟩]
  touched : ∀ p ∈ listed w, (touch p w.pool 2000).toOption.isSome = true

instance (w : World) : Decidable (Ready w) :=
  decidable_of_iff (w.pool.shutdown = true ∧ Scans (listing w) w ∧
      ((listed w).map balance).sum ≤ w.principalVault ∧ w.pool.acceptedMint = ⟨50⟩ ∧
      (listed w).map (·.owner) = [⟨3⟩, ⟨4⟩] ∧
      ∀ p ∈ listed w, (touch p w.pool 2000).toOption.isSome = true)
    ⟨fun ⟨a, b, c, d, e, f⟩ => ⟨a, b, c, d, e, f⟩, fun ⟨a, b, c, d, e, f⟩ => ⟨a, b, c, d, e, f⟩⟩

theorem Ready.served {w : World} {p : Player} {bad : Pubkey} (ready : Ready w)
    (mem : p ∈ listed w) (good : p.owner ≠ bad) : Served (associated bad) landsAt w p := by
  refine ⟨⟨_, if_neg good, ready.mint.symm, rfl⟩, fun _ => ?_⟩
  obtain ⟨q, touched⟩ := Option.isSome_iff_exists.mp (ready.touched p mem)
  exact ⟨q, ok_of_toOption touched⟩

theorem Ready.each {w : World} (ready : Ready w) (bad : Pubkey) (p : Player)
    (mem : p ∈ listed w) :
    Refused (associated bad) landsAt w p ∨ Served (associated bad) landsAt w p := by
  by_cases same : p.owner = bad
  · exact .inl (.inl ⟨invalidOwner, if_pos same, rfl⟩)
  · exact .inr (ready.served mem same)

end Demo

end Admin

end HexVault
