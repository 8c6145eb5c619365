import HexVault.Invariants.Accounts

/-!
The per-epoch counters of a Player: the last epoch it was credited Base yield for,
the USDC it bought Tickets with and the Tickets the operator granted it. Three
instructions move them, each for one Player; every other step leaves them alone.
-/

namespace HexVault

open Fallible Finmap

structure Counters where
  yieldEpoch : Nat
  boughtEpoch : Nat
  boughtAmount : Nat
  bonusEpoch : Nat
  bonusGranted : Nat
  deriving DecidableEq, Repr

def Player.counters (player : Player) : Counters where
  yieldEpoch := player.yieldEpoch
  boughtEpoch := player.boughtEpoch
  boughtAmount := player.boughtAmount
  bonusEpoch := player.bonusEpoch
  bonusGranted := player.bonusGranted

/-- The counters an owner's account holds, zeroed without one. -/
def countersOf (players : Finmap fun _ : Pubkey => Player) (owner : Pubkey) : Counters :=
  (players.lookup owner).elim Player.zeroed.counters Player.counters

def World.counters (w : World) (owner : Pubkey) : Counters := countersOf w.players owner

/-- Whose counters an action may move. -/
def Action.counts : Action → Option Pubkey
  | .register _ owner | .grantTickets _ owner _ => some owner
  | .buyTickets owner _ _ => some owner.key
  | _ => none

/-- What a per-epoch counter stands at in the current epoch. -/
def counted (countedEpoch amount currentEpochId : Nat) : Nat :=
  if countedEpoch = currentEpochId then amount else 0

theorem counted_self (id amount : Nat) : counted id amount id = amount := if_pos rfl

theorem counted_past {countedEpoch amount id : Nat} (h : countedEpoch ≠ id) :
    counted countedEpoch amount id = 0 := if_neg h

/-- A cap check where `sofar` has been counted in the epoch. -/
def capCheck (sofar cap amount : Nat) (err : HexVaultError) : Result Nat := do
  let total ← addU64 sofar amount
  ensure (total ≤ cap) err
  return total

theorem countedAfter_eq (countedEpoch amount id cap more : Nat) (err : HexVaultError) :
    countedAfter countedEpoch amount id cap more err =
      capCheck (counted countedEpoch amount id) cap more err := rfl

theorem countedAfter_eq_ok {countedEpoch amount id cap more total : Nat} {err : HexVaultError} :
    countedAfter countedEpoch amount id cap more err = .ok total ↔
      counted countedEpoch amount id + more < u64Limit ∧
        counted countedEpoch amount id + more ≤ cap ∧
        total = counted countedEpoch amount id + more := by
  simp only [countedAfter, counted, bind_eq_ok, addU64_eq_ok, ensure_eq_ok, pure_eq_ok,
    exists_const]
  constructor
  · intro h
    obtain ⟨_, ⟨hlt, rfl⟩, hcap, rfl⟩ := h
    exact ⟨hlt, hcap, rfl⟩
  · intro h
    obtain ⟨hlt, hcap, rfl⟩ := h
    exact ⟨_, ⟨hlt, rfl⟩, hcap, rfl⟩

section Accounts
variable {players : Finmap fun _ : Pubkey => Player} {owner other : Pubkey} {p q r : Player}

theorem countersOf_lookup (h : players.lookup owner = some p) :
    countersOf players owner = p.counters := by
  rw [countersOf, h, Option.elim_some]

theorem countersOf_insert_self (players : Finmap fun _ : Pubkey => Player) (owner : Pubkey)
    (r : Player) : countersOf (players.insert owner r) owner = r.counters :=
  countersOf_lookup (lookup_insert _)

theorem countersOf_insert_ne (r : Player) (h : other ≠ owner) :
    countersOf (players.insert owner r) other = countersOf players other := by
  rw [countersOf, countersOf, lookup_insert_of_ne _ h]

theorem countersOf_insert_same (same : r.counters = countersOf players owner)
    (other : Pubkey) :
    countersOf (players.insert owner r) other = countersOf players other := by
  by_cases h : other = owner
  · subst h
    rw [countersOf_insert_self, same]
  · exact countersOf_insert_ne r h

theorem Player.SameHoldings.counters (h : p.SameHoldings q) : q.counters = p.counters := by
  simp only [Player.counters, h.yieldEpoch, h.boughtEpoch, h.boughtAmount, h.bonusEpoch,
    h.bonusGranted]

theorem initIfFresh_counters (account : Player) (owner : Pubkey) (pool : Pool) (now : Int) :
    (account.initIfFresh owner pool now).counters = account.counters := by
  unfold Player.initIfFresh
  split <;> rfl

end Accounts

section Steps
variable {rt : Runtime} {w w' : World} {a : Action} {owner other : Pubkey}

/-- An account rewritten after a touch, with its counters as they were. -/
theorem counters_touched {p q r : Player} (hp : w.players.lookup owner = some p)
    (written : w'.players = w.players.insert owner r) (same : p.SameHoldings q)
    (hr : r.counters = q.counters) (other : Pubkey) : w'.counters other = w.counters other := by
  rw [World.counters, written]
  refine countersOf_insert_same ?_ other
  rw [countersOf_lookup hp, hr, same.counters]

/-- A step moves the counters of the Player it is about, or nobody's. -/
theorem effect_counters (h : Effect rt w a w') (other : Pubkey)
    (quiet : a.counts ≠ some other) : w'.counters other = w.counters other := by
  cases h with
  | @deposited owner token amount player es ht =>
      refine countersOf_insert_same ?_ other
      rw [countersOf]
      have same := (touch_sameHoldings ht).counters
      rw [initIfFresh_counters] at same
      cases hp : w.players.lookup owner.key with
      | none => rw [hp] at same; exact same
      | some p => rw [hp] at same; exact same
  | withdrawRequested ha ht =>
      refine counters_touched ha rfl (touch_sameHoldings ht) ?_ other
      rfl
  | withdrawn ha =>
      refine counters_touched ha rfl (.refl _) ?_ other
      rfl
  | emergencyWithdrawn ha ht =>
      refine counters_touched ha rfl (touch_sameHoldings ht) ?_ other
      rfl
  | positionBought ha _ _ ht =>
      refine counters_touched ha rfl (touch_sameHoldings ht) ?_ other
      rfl
  | roundSettled _ ha _ _ hh =>
      refine counters_touched ha rfl hh.sameHoldings ?_ other
      rfl
  | positionSettled _ ha _ ht =>
      refine counters_touched ha rfl (touch_sameHoldings ht) ?_ other
      rfl
  | paidPlayer _ ha _ _ _ _ _ ht =>
      refine counters_touched ha rfl (touch_sameHoldings ht) ?_ other
      rfl
  | ticketsBought => exact countersOf_insert_ne _ fun h => quiet (congrArg some h.symm)
  | ticketsGranted => exact countersOf_insert_ne _ fun h => quiet (congrArg some h.symm)
  | registeredNothing => exact countersOf_insert_ne _ fun h => quiet (congrArg some h.symm)
  | registered => exact countersOf_insert_ne _ fun h => quiet (congrArg some h.symm)
  | _ => rfl

/-- A purchase moves the buyer's counter, within its cap. -/
structure Bought (w : World) (owner : Pubkey) (amount : Nat) (w' : World) : Prop where
  current : 0 < w.pool.currentEpochId
  cap : counted (w.counters owner).boughtEpoch (w.counters owner).boughtAmount
    w.pool.currentEpochId + amount ≤ w.held owner
  counters : w'.counters owner = { w.counters owner with
    boughtEpoch := w.pool.currentEpochId
    boughtAmount := counted (w.counters owner).boughtEpoch (w.counters owner).boughtAmount
      w.pool.currentEpochId + amount }

theorem buyTickets_counters {buyer : Signer} {token : TokenAccount} {amount : Nat}
    (h : buyTickets buyer token amount w = .ok w') : Bought w buyer.key amount w' := by
  simp only [buyTickets, boughtAmountAfter, bind_eq_ok, World.player_eq_ok, ensure_eq_ok,
    countedAfter_eq_ok, pure_eq_ok, exists_const] at h
  obtain ⟨_, -, account, ha, player, ht, -, -, hcur, -, -, -, _, ⟨-, hcap, rfl⟩, _, -, _, -, _, -,
    rfl⟩ := h
  have same := touch_sameHoldings ht
  have before : w.counters buyer.key = account.counters := countersOf_lookup ha
  rw [same.boughtEpoch, same.boughtAmount, same.principal] at hcap
  refine ⟨hcur, ?_, ?_⟩
  · rw [before, held_of_lookup ha]
    exact hcap
  · rw [World.counters, World.emit_players, countersOf_insert_self, before]
    simp only [Player.counters, same.yieldEpoch, same.bonusEpoch, same.bonusGranted,
      same.boughtEpoch, same.boughtAmount]

theorem poolBonusCap_eq_ok {totalPrincipal bps cap : Nat}
    (h : poolBonusCap totalPrincipal bps = .ok cap) :
    cap = totalPrincipal * bps / BPS_DENOMINATOR := by
  simp only [poolBonusCap, bind_eq_ok, mulU128_eq_ok, narrowU64_eq_ok] at h
  obtain ⟨_, ⟨-, rfl⟩, -, rfl⟩ := h
  rfl

/-- An operator's grant moves both counters, each within its cap. -/
structure Granted (w : World) (owner : Pubkey) (amount : Nat) (w' : World) : Prop where
  playerCap : counted (w.counters owner).bonusEpoch (w.counters owner).bonusGranted
    w.pool.currentEpochId + amount ≤ w.held owner
  poolCap : counted w.pool.bonusEpoch w.pool.bonusGranted w.pool.currentEpochId + amount ≤
    w.pool.totalPrincipal * w.pool.bonusCapBps / BPS_DENOMINATOR
  counters : w'.counters owner = { w.counters owner with
    bonusEpoch := w.pool.currentEpochId
    bonusGranted := counted (w.counters owner).bonusEpoch (w.counters owner).bonusGranted
      w.pool.currentEpochId + amount }
  pool : w'.pool = { w.pool with
    bonusEpoch := w.pool.currentEpochId
    bonusGranted := counted w.pool.bonusEpoch w.pool.bonusGranted w.pool.currentEpochId +
      amount }
  held : w'.held owner = w.held owner

/-- A grant by the admin moves no counter, one by the operator moves both. -/
theorem grantTickets_counters {signer : Signer} {amount : Nat}
    (h : grantTickets signer owner amount w = .ok w') :
    (signer.key = w.pool.admin → w'.pool = w.pool ∧ w'.counters owner = w.counters owner) ∧
    (signer.key ≠ w.pool.admin → Granted w owner amount w') := by
  simp only [grantTickets, bind_eq_ok, World.player_eq_ok, ensure_eq_ok, pure_eq_ok,
    exists_const] at h
  obtain ⟨account, ha, -, player, ht, -, -, -, -, pair, hc, _, -, rfl⟩ := h
  have same := touch_sameHoldings ht
  have after : ∀ r : Player, countersOf (w.players.insert owner r) owner = r.counters :=
    fun r => countersOf_insert_self _ _ r
  rw [countGrant] at hc
  constructor
  · intro admin
    rw [decide_eq_true admin, if_pos rfl] at hc
    cases hc
    refine ⟨rfl, ?_⟩
    rw [World.counters, World.emit_players, after, World.counters, countersOf_lookup ha,
      ← same.counters]
    rfl
  · intro operator
    rw [decide_eq_false operator, if_neg Bool.false_ne_true] at hc
    simp only [operatorGrant, bonusAfter, bind_eq_ok, ensure_eq_ok, countedAfter_eq_ok,
      pure_eq_ok, exists_const] at hc
    obtain ⟨-, _, ⟨-, hplayer, rfl⟩, _, hcap, _, ⟨-, hpool, rfl⟩, rfl⟩ := hc
    rw [poolBonusCap_eq_ok hcap] at hpool
    rw [same.bonusEpoch, same.bonusGranted, same.principal] at hplayer
    have before : w.counters owner = account.counters := countersOf_lookup ha
    refine ⟨?_, hpool, ?_, rfl, ?_⟩
    · rw [before, held_of_lookup ha]
      exact hplayer
    · rw [World.counters, World.emit_players, after, before]
      simp only [Player.counters, same.yieldEpoch, same.boughtEpoch, same.boughtAmount,
        same.bonusEpoch, same.bonusGranted]
    · rw [held_of_lookup ha, held_of_lookup (lookup_insert _)]
      exact same.principal

theorem created_counters (created : Created w) (owner : Pubkey) :
    w.counters owner = Player.zeroed.counters := by
  obtain ⟨params, accounts, now, -, -, h⟩ := created
  obtain ⟨-, es, rfl⟩ := createPool_eq_ok h
  have none : (newHouse params.operator now).counters = countersOf ∅ params.operator := rfl
  exact (countersOf_insert_same none owner).trans rfl

/-- A registration marks the Player for the epoch just before the current one. -/
theorem register_counters {id : Nat} (calendar : w.Calendar)
    (h : Effect rt w (.register id owner) w') :
    id + 1 = w.pool.currentEpochId ∧
      w'.counters owner = { w.counters owner with yieldEpoch := id } := by
  have marked : ∀ {account player r : Player} {credited : Nat},
      w.players.lookup owner = some account → YieldTouch w account credited player →
      r.counters = { player.counters with yieldEpoch := id } →
      countersOf (w.players.insert owner r) owner =
        { w.counters owner with yieldEpoch := id } := by
    intro account player r credited ha hq hr
    rw [countersOf_insert_self, hr, hq.sameHoldings.counters, World.counters,
      countersOf_lookup ha]
  cases h with
  | reconfigured ha => exact nomatch ha
  | registeredNothing he ha _ hcur hprev _ _ hq =>
      have keyed := (calendar.keyed he).1
      refine ⟨by omega, marked ha hq ?_⟩
      rw [← keyed]
      rfl
  | registered he ha _ hcur hprev _ _ _ hq =>
      have keyed := (calendar.keyed he).1
      refine ⟨by omega, marked ha hq ?_⟩
      rw [← keyed]
      rfl

/-- What a step does to one Player's counters, whatever the action. -/
inductive CountersStep (w : World) (owner : Pubkey) (w' : World) : Action → Prop
  | quiet {a : Action} : a.counts ≠ some owner → w'.counters owner = w.counters owner →
      CountersStep w owner w' a
  | credited {id : Nat} : id + 1 = w.pool.currentEpochId →
      w'.counters owner = { w.counters owner with yieldEpoch := id } →
      CountersStep w owner w' (.register id owner)
  | bought {buyer : Signer} {token : TokenAccount} {amount : Nat} : buyer.key = owner →
      Bought w owner amount w' → CountersStep w owner w' (.buyTickets buyer token amount)
  | granted {signer : Signer} {amount : Nat} : signer.key ≠ w.pool.admin →
      Granted w owner amount w' → CountersStep w owner w' (.grantTickets signer owner amount)
  | byAdmin {signer : Signer} {amount : Nat} : signer.key = w.pool.admin →
      w'.counters owner = w.counters owner →
      CountersStep w owner w' (.grantTickets signer owner amount)

theorem step_counters (calendar : w.Calendar) (h : Step rt w a w') (owner : Pubkey) :
    CountersStep w owner w' a := by
  by_cases counts : a.counts = some owner
  · cases a with
    | register id player =>
        cases counts
        obtain ⟨previous, marked⟩ := register_counters calendar (step_effect h)
        exact .credited previous marked
    | buyTickets buyer token amount =>
        cases counts
        exact .bought rfl (buyTickets_counters h)
    | grantTickets signer player amount =>
        cases counts
        obtain ⟨byAdmin, byOperator⟩ := grantTickets_counters h
        by_cases admin : signer.key = w.pool.admin
        · exact .byAdmin admin (byAdmin admin).2
        · exact .granted admin (byOperator admin)
    | _ => exact nomatch counts
  · exact .quiet counts (effect_counters (step_effect h) owner counts)

end Steps

end HexVault
