import HexVault.Invariants.Tickets

/-!
Stakes and the epochs they are made in. A pot is followed stake by stake, through the
void that carries it and the round it seeds. A purchase is held to its round's epoch
by the clock alone, and a round opened before the first epoch has no end to be held to.
-/

namespace HexVault

open Fallible Finmap

/-- Tickets put on a round, and the epoch current when they were. -/
structure Stake where
  epoch : Nat
  amount : Nat
  deriving DecidableEq

/-- The stakes each pot is made of, and those of the pot carried to the next round. -/
structure Pots where
  inRound : Nat → List Stake
  carried : List Stake

def Pots.after (pots : Pots) (w : World) : Action → Pots
  | .createRound _ _ _ => {
      inRound := Function.update pots.inRound w.pool.nextRoundId pots.carried
      carried := [] }
  | .buyPosition _ id tiles stakePerTile => { pots with
      inRound := Function.update pots.inRound id
        (⟨w.pool.currentEpochId, stakePerTile * countOnes tiles⟩ :: pots.inRound id) }
  | .voidRound id _ =>
      if (w.rounds.lookup id).any fun (r : Round) => r.epochId = w.pool.currentEpochId then
        { pots with carried := pots.inRound id ++ pots.carried }
      else pots
  | _ => pots

/-- The pots after a run. -/
def pots : History → Pots
  | [] => { inRound := fun _ => [], carried := [] }
  | (w, a) :: history => (pots history).after w a

def amounts (stakes : List Stake) : Nat := (stakes.map (·.amount)).sum

/-- The pots add up to what the accounts say. -/
structure PotsBacked (pots : Pots) (w : World) : Prop where
  round : ∀ id r, w.rounds.lookup id = some r → amounts (pots.inRound id) = r.pot
  carried : amounts pots.carried = w.pool.carryPot
  positive : ∀ id, ∀ s ∈ pots.inRound id, 0 < s.amount
  carriedPositive : ∀ s ∈ pots.carried, 0 < s.amount

/-- No pot holds a Ticket of another epoch. -/
structure Unmixed (pots : Pots) (w : World) : Prop where
  round : ∀ id r, w.rounds.lookup id = some r → ∀ s ∈ pots.inRound id, s.epoch = r.epochId
  carried : ∀ s ∈ pots.carried, s.epoch = w.pool.currentEpochId

/-- What a step does to the pots: most leave them alone. -/
inductive PotStep (w : World) : Action → World → Prop
  | kept {a : Action} {w' : World} : (∀ pots : Pots, pots.after w a = pots) →
      w'.pool.carryPot = w.pool.carryPot → w'.pool.currentEpochId = w.pool.currentEpochId →
      (∀ id r', w'.rounds.lookup id = some r' → ∃ r, w.rounds.lookup id = some r ∧
        r'.pot = r.pot ∧ r'.epochId = r.epochId) → PotStep w a w'
  | created {operator : Signer} {startsAt endsAt : Int} {r : Round} {w' : World} :
      w'.rounds = w.rounds.insert w.pool.nextRoundId r → r.pot = w.pool.carryPot →
      r.epochId = w.pool.currentEpochId → w'.pool.carryPot = 0 →
      w'.pool.currentEpochId = w.pool.currentEpochId →
      PotStep w (.createRound operator startsAt endsAt) w'
  | bought {owner : Signer} {id : Nat} {tiles : BitVec 64} {stakePerTile : Nat}
      {r r' : Round} {w' : World} : w.rounds.lookup id = some r →
      w'.rounds = w.rounds.insert id r' → 0 < stakePerTile * countOnes tiles →
      r'.pot = r.pot + stakePerTile * countOnes tiles → r'.epochId = r.epochId →
      w'.pool.carryPot = w.pool.carryPot → w'.pool.currentEpochId = w.pool.currentEpochId →
      PotStep w (.buyPosition owner id tiles stakePerTile) w'
  | voided {id : Nat} {randomness : AccountInfo} {r r' : Round} {w' : World} :
      w.rounds.lookup id = some r → w'.rounds = w.rounds.insert id r' →
      r'.pot = r.pot → r'.epochId = r.epochId →
      w'.pool.carryPot = w.pool.carryPot +
        (if r.epochId = w.pool.currentEpochId then r.pot else 0) →
      w'.pool.currentEpochId = w.pool.currentEpochId →
      PotStep w (.voidRound id randomness) w'
  | began {operator : Signer} {w' : World} : w'.pool.carryPot = w.pool.carryPot →
      w'.rounds = w.rounds → PotStep w (.beginEpoch operator) w'

section Steps
variable {rt : Runtime} {w w' : World} {a : Action}

theorem countOnes_pos {tiles : BitVec 64} (h : tiles ≠ 0) : 0 < countOnes tiles := by
  by_contra none
  refine h (BitVec.eq_of_getLsbD_eq fun i hi => ?_)
  rw [countOnes, Nat.not_lt, Nat.le_zero, List.countP_eq_zero] at none
  change _ = (0#64).getLsbD i
  rw [BitVec.getLsbD_zero]
  exact Bool.eq_false_iff.mpr (none i (List.mem_range.mpr hi))

/-- A round rewritten with its pot and its epoch as they were. -/
theorem kept_write {rounds : Finmap fun _ : Nat => Round} {id : Nat} {x x' : Round}
    (h : rounds.lookup id = some x) (pot : x'.pot = x.pot) (epochId : x'.epochId = x.epochId) :
    ∀ other r', (rounds.insert id x').lookup other = some r' →
      ∃ r, rounds.lookup other = some r ∧ r'.pot = r.pot ∧ r'.epochId = r.epochId := by
  intro other r' hr'
  cases lookup_insert_cases hr' with
  | inl same =>
      obtain ⟨rfl, rfl⟩ := same
      exact ⟨x, h, pot, epochId⟩
  | inr rest => exact ⟨r', rest.2, rfl, rfl⟩

theorem effect_pots (h : Effect rt w a w') : PotStep w a w' := by
  have same : ∀ id r', w.rounds.lookup id = some r' → ∃ r, w.rounds.lookup id = some r ∧
      r'.pot = r.pot ∧ r'.epochId = r.epochId := fun _ r hr => ⟨r, hr, rfl, rfl⟩
  cases h with
  | reconfigured ha hr =>
      refine .kept ?_ hr.carryPot hr.currentEpochId same
      intro pots
      cases a with
      | createRound | buyPosition | voidRound => exact nomatch ha
      | _ => rfl
  | roundCreated => exact .created rfl rfl rfl rfl rfl
  | positionBought _ hr _ _ _ _ _ _ stake tiles =>
      exact .bought hr rfl (Nat.mul_pos stake (countOnes_pos tiles)) rfl rfl rfl rfl
  | roundVoided hr => exact .voided hr rfl rfl rfl rfl rfl
  | epochBegan => exact .began rfl rfl
  | roundRequested hr => exact .kept (fun _ => rfl) rfl rfl (kept_write hr rfl rfl)
  | roundSettled hr => exact .kept (fun _ => rfl) rfl rfl (kept_write hr rfl rfl)
  | positionSettled hr => exact .kept (fun _ => rfl) rfl rfl (kept_write hr rfl rfl)
  | roundClosed =>
      exact .kept (fun _ => rfl) rfl rfl fun _ r hr => ⟨r, lookup_of_erase hr, rfl, rfl⟩
  | _ => exact .kept (fun _ => rfl) rfl rfl same

section Accounts
variable {pots : Pots}

/-- A fact about the stakes of each round, over one round written. -/
theorem inRound_insert {stakes : Nat → List Stake} {id : Nat} {l : List Stake} {r' : Round}
    {Q : List Stake → Round → Prop} {rounds : Finmap fun _ : Nat => Round}
    (hi : ∀ other x, rounds.lookup other = some x → Q (stakes other) x) (h : Q l r') :
    ∀ other x, (rounds.insert id r').lookup other = some x →
      Q (Function.update stakes id l other) x := by
  intro other x hx
  cases lookup_insert_cases hx with
  | inl same =>
      obtain ⟨rfl, rfl⟩ := same
      rw [Function.update_self]
      exact h
  | inr rest =>
      rw [Function.update_of_ne rest.1]
      exact hi other x rest.2

theorem inRound_write {stakes : Nat → List Stake} {id : Nat} {r' : Round}
    {Q : List Stake → Round → Prop} {rounds : Finmap fun _ : Nat => Round}
    (hi : ∀ other x, rounds.lookup other = some x → Q (stakes other) x) (h : Q (stakes id) r') :
    ∀ other x, (rounds.insert id r').lookup other = some x → Q (stakes other) x := by
  have written : ∀ other x, (rounds.insert id r').lookup other = some x →
      Q (Function.update stakes id (stakes id) other) x := inRound_insert hi h
  rw [Function.update_eq_self] at written
  exact written

/-- A voided pot is carried while its epoch is the current one. -/
theorem after_void {id : Nat} {randomness : AccountInfo} {r : Round}
    (h : w.rounds.lookup id = some r) : pots.after w (.voidRound id randomness) =
      { pots with carried :=
          (if r.epochId = w.pool.currentEpochId then pots.inRound id else []) ++ pots.carried } := by
  simp only [Pots.after, h, Option.any_some, decide_eq_true_eq]
  split <;> rfl

theorem amounts_append (l m : List Stake) : amounts (l ++ m) = amounts l + amounts m := by
  rw [amounts, List.map_append, List.sum_append]
  rfl

theorem PotStep.potsBacked (h : PotStep w a w') (hi : PotsBacked pots w) :
    PotsBacked (pots.after w a) w' := by
  cases h with
  | kept same carryPot _ rounds =>
      rw [same]
      refine ⟨?_, hi.carried.trans carryPot.symm, hi.positive, hi.carriedPositive⟩
      intro id r' hr'
      obtain ⟨r, hr, pot, -⟩ := rounds id r' hr'
      exact (hi.round id r hr).trans pot.symm
  | created rounds pot _ carryPot =>
      refine ⟨?_, carryPot.symm, ?_, fun _ hs => nomatch hs⟩
      · rw [rounds]
        exact inRound_insert (Q := fun l r => amounts l = r.pot) hi.round
          (hi.carried.trans pot.symm)
      · intro id
        simp only [Pots.after, Function.update_apply]
        split
        · exact hi.carriedPositive
        · exact hi.positive id
  | bought hr rounds positive pot _ carryPot =>
      refine ⟨?_, hi.carried.trans carryPot.symm, ?_, hi.carriedPositive⟩
      · rw [rounds]
        refine inRound_insert (Q := fun l r => amounts l = r.pot) hi.round ?_
        rw [pot, ← hi.round _ _ hr, Nat.add_comm]
        rfl
      · intro id
        simp only [Pots.after, Function.update_apply]
        split
        · rename_i same
          subst same
          exact List.forall_mem_cons.mpr ⟨positive, hi.positive _⟩
        · exact hi.positive id
  | @voided id _ r _ _ hr rounds pot _ carryPot =>
      rw [after_void hr]
      have whole := hi.round id r hr
      refine ⟨?_, ?_, hi.positive, ?_⟩
      · rw [rounds]
        exact inRound_write (Q := fun l r => amounts l = r.pot) hi.round (whole.trans pot.symm)
      · rw [amounts_append, carryPot, hi.carried, Nat.add_comm]
        split
        · rw [whole]
        · rfl
      · intro s hs
        cases List.mem_append.mp hs with
        | inl voided =>
            split at voided
            · exact hi.positive id s voided
            · exact absurd voided List.not_mem_nil
        | inr before => exact hi.carriedPositive s before
  | began carryPot rounds =>
      refine ⟨?_, hi.carried.trans carryPot.symm, hi.positive, hi.carriedPositive⟩
      rw [rounds]
      exact hi.round

/-- A step that begins no epoch on a carried pot, and buys on no round of another
one, mixes no pot. -/
theorem PotStep.unmixed (h : PotStep w a w') (backed : PotsBacked pots w)
    (begins : ∀ operator, a = .beginEpoch operator → w.pool.carryPot = 0)
    (buys : ∀ owner id tiles stakePerTile r, a = .buyPosition owner id tiles stakePerTile →
      w.rounds.lookup id = some r → r.epochId = w.pool.currentEpochId)
    (hi : Unmixed pots w) : Unmixed (pots.after w a) w' := by
  cases h with
  | kept same _ current rounds =>
      rw [same]
      refine ⟨?_, ?_⟩
      · intro id r' hr' s hs
        obtain ⟨r, hr, -, epochId⟩ := rounds id r' hr'
        exact (hi.round id r hr s hs).trans epochId.symm
      · rw [current]
        exact hi.carried
  | created rounds _ epochId _ current =>
      refine ⟨?_, fun _ hs => nomatch hs⟩
      rw [rounds]
      refine inRound_insert (Q := fun l r => ∀ s ∈ l, s.epoch = r.epochId) hi.round ?_
      rw [epochId]
      exact hi.carried
  | @bought owner id tiles stakePerTile r _ _ hr rounds _ _ epochId _ current =>
      have own := buys owner id tiles stakePerTile r rfl hr
      refine ⟨?_, ?_⟩
      · rw [rounds]
        refine inRound_insert (Q := fun l r => ∀ s ∈ l, s.epoch = r.epochId) hi.round ?_
        rw [epochId]
        exact List.forall_mem_cons.mpr ⟨own.symm, hi.round id r hr⟩
      · rw [current]
        exact hi.carried
  | @voided id _ r _ _ hr rounds _ epochId _ current =>
      have whole := hi.round id r hr
      rw [after_void hr]
      refine ⟨?_, ?_⟩
      · rw [rounds]
        refine inRound_write (Q := fun l r => ∀ s ∈ l, s.epoch = r.epochId) hi.round ?_
        rw [epochId]
        exact whole
      · rw [current]
        intro s hs
        cases List.mem_append.mp hs with
        | inl voided =>
            split at voided
            · rename_i own
              exact (whole s voided).trans own
            · exact absurd voided List.not_mem_nil
        | inr before => exact hi.carried s before
  | @began operator _ carryPot rounds =>
      refine ⟨?_, ?_⟩
      · rw [rounds]
        exact hi.round
      · have none := backed.carried.trans (begins operator rfl)
        rw [amounts, List.sum_eq_zero_iff] at none
        intro s hs
        have positive := backed.carriedPositive s hs
        have zero := none s.amount (List.mem_map_of_mem hs)
        omega

theorem run_potsBacked {history : History} (run : Run rt history w) :
    PotsBacked (HexVault.pots history) w := by
  refine run.invariant (P := fun history w => PotsBacked (HexVault.pots history) w) ?_ ?_
  · intro start created
    obtain ⟨params, accounts, now, -, -, h⟩ := created
    obtain ⟨-, es, rfl⟩ := createPool_eq_ok h
    exact ⟨nofun, rfl, nofun, nofun⟩
  · intro history v b u _ hi hs
    exact (effect_pots (step_effect hs)).potsBacked hi

end Accounts

/-- A round of an earlier epoch was over when the current one began. -/
def RoundsPast (cur : Nat) (currentStart : Int) (rounds : Finmap fun _ : Nat => Round) : Prop :=
  ∀ id r, rounds.lookup id = some r → 1 ≤ r.epochId → r.epochId < cur →
    r.endsAt ≤ currentStart

def World.RoundsPast (w : World) : Prop :=
  HexVault.RoundsPast w.pool.currentEpochId w.pool.currentEpochStart w.rounds

theorem effect_roundsPast (range : w.pool.InRange) (calendar : w.Calendar)
    (within : w.RoundsWithin) (h : Effect rt w a w') (hi : w.RoundsPast) : w'.RoundsPast := by
  intro id r' hr' h1 past
  cases effect_round h hr' with
  | inl kept =>
      obtain ⟨r, hr, epochId, endsAt⟩ := kept
      rw [epochId] at h1 past
      rw [endsAt]
      cases h with
      | epochBegan _ _ hend hfloor =>
          have started := (epochBegan_bounds range calendar hend hfloor).2.2.2
          have old := within id r hr
          exact Int.le_trans (old.2 h1) (started (Nat.le_trans h1 old.1))
      | reconfigured _ same =>
          rw [World.emit_pool, same.currentEpochId] at past
          rw [World.emit_pool, same.currentEpochStart]
          exact hi id r hr h1 past
      | _ => exact hi id r hr h1 past
  | inr opened =>
      rw [opened.epochId, opened.currentEpochId] at past
      exact absurd past (Nat.lt_irrefl _)

theorem reachable_roundsPast (h : Reachable rt w) : w.RoundsPast := by
  refine h.invariant (P := fun w => w.RoundsPast) ?_ fun before hi hs =>
    effect_roundsPast (reachable_inRange before) (reachable_calendar before)
      (reachable_roundsWithin before) (step_effect hs) hi
  intro start created id r hr
  exact absurd hr (created_no_round created)

end Steps

/-- A purchase of the current epoch: its round is of that epoch and ends within it,
and the Weight paid for the rest of the round goes to the buyer's account of it. -/
structure BoughtWithin (rt : Runtime) (w : World) (owner : Signer) (id : Nat)
    (tiles : BitVec 64) (stakePerTile : Nat) : Prop where
  round : ∃ r, w.rounds.lookup id = some r ∧ r.epochId = w.pool.currentEpochId ∧
    (1 ≤ w.pool.currentEpochId →
      ∃ e, w.epochs.lookup w.pool.currentEpochId = some e ∧ r.endsAt ≤ e.endsAt)
  weight : ∀ w', Step rt w (.buyPosition owner id tiles stakePerTile) w' →
    ∃ r p q p', w.rounds.lookup id = some r ∧ w.players.lookup owner.key = some p ∧
      touch p w.pool w.clock = .ok q ∧ w'.players.lookup owner.key = some p' ∧
      p'.epochId = w.pool.currentEpochId ∧ p'.weightAcc = q.weightAcc +
        stakePerTile * countOnes tiles * (r.endsAt - w.clock).toNat

section Purchases
variable {rt : Runtime} {w w' : World} {owner : Signer} {id : Nat} {tiles : BitVec 64}
  {stakePerTile : Nat} {r : Round}

/-- The clock alone keeps a purchase off the rounds of earlier epochs, but for those
opened before the first. -/
theorem bought_epoch (reachable : Reachable rt w)
    (h : Step rt w (.buyPosition owner id tiles stakePerTile) w')
    (hr : w.rounds.lookup id = some r) :
    r.epochId = w.pool.currentEpochId ∨ r.epochId = 0 := by
  have calendar := reachable_calendar reachable
  have within := reachable_roundsWithin reachable id r hr
  have past := reachable_roundsPast reachable id r hr
  have buffer := (reachable_inRange reachable).closeBuffer
  cases step_effect h with
  | reconfigured config => exact nomatch config
  | positionBought _ hx _ _ _ _ inTime =>
      obtain rfl := Option.some.inj (hr.symm.trans hx)
      by_contra other
      have started := (calendar.currentOrder (by omega)).2.2.1
      have ended := past (by omega) (by omega)
      omega

theorem bought_weight (reachable : Reachable rt w)
    (h : Step rt w (.buyPosition owner id tiles stakePerTile) w') :
    ∃ r p q p', w.rounds.lookup id = some r ∧ w.players.lookup owner.key = some p ∧
      touch p w.pool w.clock = .ok q ∧ w'.players.lookup owner.key = some p' ∧
      p'.epochId = w.pool.currentEpochId ∧ p'.weightAcc = q.weightAcc +
        stakePerTile * countOnes tiles * (r.endsAt - w.clock).toNat := by
  cases step_effect h with
  | reconfigured config => exact nomatch config
  | positionBought ha hr _ ht =>
      have current := touch_epochId ((reachable_accounts reachable).behind ha) ht
      exact ⟨_, _, _, _, hr, ha, ht, lookup_insert _, current, rfl⟩

/-- A purchase is within its epoch exactly when its round was not opened before the
first epoch and bought after. -/
theorem bought_within (reachable : Reachable rt w)
    (h : Step rt w (.buyPosition owner id tiles stakePerTile) w')
    (hr : w.rounds.lookup id = some r) : BoughtWithin rt w owner id tiles stakePerTile ↔
      ¬ (r.epochId = 0 ∧ 1 ≤ w.pool.currentEpochId) := by
  constructor
  · intro within early
    obtain ⟨x, hx, current, -⟩ := within.round
    obtain rfl := Option.some.inj (hr.symm.trans hx)
    omega
  · intro late
    have current : r.epochId = w.pool.currentEpochId := by
      have := bought_epoch reachable h hr
      omega
    refine ⟨⟨r, hr, current, ?_⟩, ?_⟩
    · intro started
      obtain ⟨e, he, -, hend⟩ := (reachable_calendar reachable).current started
      refine ⟨e, he, ?_⟩
      rw [hend]
      exact (reachable_roundsWithin reachable id r hr).2 (current ▸ started)
    · intro u hu
      exact bought_weight reachable hu

end Purchases

/-- The round a settlement pays from. -/
def Action.paysFrom : Action → Option Nat
  | .settleRound id _ => some id
  | .settlePosition id _ => some id
  | _ => none

/-- A settlement credits Entries of the round's own epoch only. -/
theorem settled_own {rt : Runtime} {w w' : World} {a : Action} {id : Nat} {r : Round}
    (reachable : Reachable rt w) (h : Step rt w a w') (ha : a.paysFrom = some id)
    (hr : w.rounds.lookup id = some r) (paid : w'.entries ≠ w.entries) :
    r.epochId = w.pool.currentEpochId := by
  have accounts := reachable_accounts reachable
  by_contra other
  refine paid ?_
  cases step_effect h with
  | reconfigured config =>
      cases a with
      | settleRound | settlePosition => exact nomatch config
      | _ => exact nomatch ha
  | roundSettled hx hp _ _ hh =>
      cases Option.some.inj ha
      obtain rfl := Option.some.inj (hr.symm.trans hx)
      cases hh with
      | credited hcur => exact absurd (of_decide_eq_true hcur) other
      | evaporated => exact total_insert_of_eq hp rfl
  | positionSettled hx hp _ ht _ hreward =>
      cases Option.some.inj ha
      obtain rfl := Option.some.inj (hr.symm.trans hx)
      have nothing := rewardOf_zero (x := ‹Position›) fun both => other both.1
      rw [rewardOf_of_ok hreward] at nothing
      subst nothing
      exact Nat.add_right_cancel (entries_moved hp (accounts.behind hp) ht rfl)
  | _ => exact nomatch ha

/-- Stakes stay in their epoch: where they are put, what their pot seeds, and whom it
pays. -/
structure StakesApart (rt : Runtime) (history : History) (w : World) : Prop where
  backed : PotsBacked (pots history) w
  bought : ∀ v owner id tiles stakePerTile,
    (v, Action.buyPosition owner id tiles stakePerTile) ∈ history →
      BoughtWithin rt v owner id tiles stakePerTile
  unmixed : Unmixed (pots history) w
  settled : ∀ a w' id r, Step rt w a w' → a.paysFrom = some id → w.rounds.lookup id = some r →
    w'.entries ≠ w.entries → ∀ s ∈ (pots history).inRound id, s.epoch = w.pool.currentEpochId

/-- No epoch is begun on a carried pot, and none is open when a position is bought
on a round opened before the first. -/
def keepsEpoch (x : World × Action) : Bool :=
  match x.2 with
  | .beginEpoch _ => x.1.pool.carryPot = 0
  | .buyPosition _ id _ _ => (x.1.rounds.lookup id).all fun (r : Round) =>
      r.epochId ≠ 0 || x.1.pool.currentEpochId = 0
  | _ => true

section Runs
variable {rt : Runtime} {w w' : World} {a : Action} {history : History}

theorem kept_bought (reachable : Reachable rt w) (h : Step rt w a w')
    (keeps : keepsEpoch (w, a) = true) {owner : Signer} {id : Nat} {tiles : BitVec 64}
    {stakePerTile : Nat} (ha : a = .buyPosition owner id tiles stakePerTile) :
    BoughtWithin rt w owner id tiles stakePerTile := by
  subst ha
  obtain ⟨r, _, _, _, hr, -⟩ := bought_weight reachable h
  simp only [keepsEpoch, hr, Option.all_some, Bool.or_eq_true, decide_eq_true_eq] at keeps
  exact (bought_within reachable h hr).mpr (by omega)

theorem run_bought (run : Run rt history w) (keeps : ∀ x ∈ history, keepsEpoch x = true)
    {v : World} {owner : Signer} {id : Nat} {tiles : BitVec 64} {stakePerTile : Nat}
    (hx : (v, Action.buyPosition owner id tiles stakePerTile) ∈ history) :
    BoughtWithin rt v owner id tiles stakePerTile := by
  obtain ⟨start, created, steps⟩ := run
  obtain ⟨later, earlier, v', -, before, step, -⟩ := steps.split hx
  exact kept_bought (Run.reachable ⟨start, created, before⟩) step (keeps _ hx) rfl

theorem run_unmixed (run : Run rt history w) (keeps : ∀ x ∈ history, keepsEpoch x = true) :
    Unmixed (pots history) w := by
  refine run.invariantWhile (P := fun history w => Unmixed (pots history) w)
    (C := fun x => keepsEpoch x = true) ?_ ?_ keeps
  · intro start created
    refine ⟨?_, ?_⟩
    · intro id r hr
      exact absurd hr (created_no_round created)
    · intro s hs
      exact nomatch hs
  · intro history v a u before hv hc hs
    refine (effect_pots (step_effect hs)).unmixed (run_potsBacked before) ?_ ?_ hv
    · intro operator ha
      subst ha
      exact of_decide_eq_true hc
    · intro owner id tiles stakePerTile r ha hr
      obtain ⟨x, hx, current, -⟩ := (kept_bought before.reachable hs hc ha).round
      obtain rfl := Option.some.inj (hr.symm.trans hx)
      exact current

/-- In every run that keeps to it no Ticket is staked, paid or weighed outside the
epoch it was staked in. -/
theorem stakes_apart (run : Run rt history w) (keeps : ∀ x ∈ history, keepsEpoch x = true) :
    StakesApart rt history w := by
  have unmixed := run_unmixed run keeps
  refine ⟨run_potsBacked run, ?_, unmixed, ?_⟩
  · intro v owner id tiles stakePerTile hx
    exact run_bought run keeps hx
  · intro a w' id r hs ha hr paid s hmem
    rw [unmixed.round id r hr s hmem]
    exact settled_own run.reachable hs ha hr paid

end Runs

/-- A voided pot carried into the next round of its epoch, beside a new stake. -/
theorem stakes_apart_carried : ∃ history w, Run Demo.runtime history w ∧
    (pots history).inRound 2 = [⟨1, 40⟩, ⟨1, 60⟩] ∧
    (∃ r, w.rounds.lookup 2 = some r ∧ r.epochId = 1 ∧ r.pot = 100) ∧
    StakesApart Demo.runtime history w := by
  let player := Demo.signer 3
  obtain ⟨⟨history, w⟩, hrun, hcheck⟩ := exists_of_any
    (x := Demo.script [.setFeaturePause Demo.admin .jackpot false,
      .setFeaturePause Demo.admin .game false, .deposit player (Demo.wallet player) 100,
      .beginEpoch Demo.operator, .createRound Demo.operator 1000 1010,
      .buyPosition player 1 1 60, .wait 1071, .voidRound 1 ⟨⟨9⟩, []⟩,
      .createRound Demo.operator 1071 1081, .buyPosition player 2 1 40])
    (p := fun r => r.1.all keepsEpoch &&
      decide ((pots r.1).inRound 2 = [⟨1, 40⟩, ⟨1, 60⟩]) &&
      (r.2.rounds.lookup 2).any fun (r : Round) => r.epochId = 1 && r.pot = 100)
    (by decide +kernel)
  simp only [Bool.and_eq_true, List.all_eq_true, Option.any_eq_true, decide_eq_true_eq] at hcheck
  obtain ⟨⟨keeps, stakes⟩, round⟩ := hcheck
  have run := Demo.script_run hrun
  exact ⟨history, w, run, stakes, round, stakes_apart run keeps⟩

/-- A stake of the first epoch on a round opened before it, four thousand seconds
ahead: its hundred Tickets weigh 401000, and over the whole epoch they would 10000. -/
theorem stakes_early : ∃ history w, Run Demo.runtime history w ∧
    (pots history).inRound 1 = [⟨1, 100⟩] ∧
    (∃ r, w.rounds.lookup 1 = some r ∧ r.epochId = 0 ∧ r.endsAt = 5010) ∧
    (∃ p, w.players.lookup ⟨3⟩ = some p ∧ p.epochId = 1 ∧ p.weightAcc = 401000) ∧
    (∃ e, w.epochs.lookup 1 = some e ∧ e.startsAt = 1000 ∧ e.endsAt = 1100) ∧
    ¬ StakesApart Demo.runtime history w := by
  let player := Demo.signer 3
  obtain ⟨⟨history, w⟩, hrun, hcheck⟩ := exists_of_any
    (x := Demo.script [.setFeaturePause Demo.admin .jackpot false,
      .setFeaturePause Demo.admin .game false, .deposit player (Demo.wallet player) 100,
      .createRound Demo.operator 5000 5010, .beginEpoch Demo.operator,
      .buyPosition player 1 1 100])
    (p := fun r => decide ((pots r.1).inRound 1 = [⟨1, 100⟩]) &&
      (r.2.rounds.lookup 1).any (fun (r : Round) => r.epochId = 0 && r.endsAt = 5010) &&
      (r.2.players.lookup ⟨3⟩).any (fun (p : Player) => p.epochId = 1 && p.weightAcc = 401000) &&
      (r.2.epochs.lookup 1).any fun (e : Epoch) => e.startsAt = 1000 && e.endsAt = 1100)
    (by decide +kernel)
  simp only [Bool.and_eq_true, Option.any_eq_true, decide_eq_true_eq] at hcheck
  obtain ⟨⟨⟨stakes, r, hr, early, ends⟩, buyer⟩, epoch⟩ := hcheck
  refine ⟨history, w, Demo.script_run hrun, stakes, ⟨r, hr, early, ends⟩, buyer, epoch, ?_⟩
  intro apart
  have own := apart.unmixed.round 1 r hr ⟨1, 100⟩ (by rw [stakes]; exact List.mem_cons_self ..)
  rw [early] at own
  exact absurd own Nat.one_ne_zero

/-- A pot voided in the first epoch seeds a round of the second. -/
theorem stakes_carried_over : ∃ history w, Run Demo.runtime history w ∧
    (pots history).inRound 2 = [⟨1, 100⟩] ∧
    (∃ r, w.rounds.lookup 2 = some r ∧ r.epochId = 2 ∧ r.pot = 100) ∧
    ¬ StakesApart Demo.runtime history w := by
  let player := Demo.signer 3
  obtain ⟨⟨history, w⟩, hrun, hcheck⟩ := exists_of_any
    (x := Demo.script [.setFeaturePause Demo.admin .jackpot false,
      .setFeaturePause Demo.admin .game false, .deposit player (Demo.wallet player) 100,
      .beginEpoch Demo.operator, .createRound Demo.operator 1000 1010,
      .buyPosition player 1 1 100, .wait 1071, .voidRound 1 ⟨⟨9⟩, []⟩, .wait 1100,
      .beginEpoch Demo.operator, .createRound Demo.operator 1100 1110])
    (p := fun r => decide ((pots r.1).inRound 2 = [⟨1, 100⟩]) &&
      (r.2.rounds.lookup 2).any fun (r : Round) => r.epochId = 2 && r.pot = 100)
    (by decide +kernel)
  simp only [Bool.and_eq_true, Option.any_eq_true, decide_eq_true_eq] at hcheck
  obtain ⟨stakes, r, hr, late, pot⟩ := hcheck
  refine ⟨history, w, Demo.script_run hrun, stakes, ⟨r, hr, late, pot⟩, ?_⟩
  intro apart
  have own := apart.unmixed.round 2 r hr ⟨1, 100⟩ (by rw [stakes]; exact List.mem_cons_self ..)
  rw [late] at own
  exact absurd own (by decide)

end HexVault
