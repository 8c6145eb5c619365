import HexVault.Invariants.Neutrality

/-!
One Player's Weight against the Weight it would have ended with had it never
played: the same steps on its account, less its purchases and the settlements of
its Positions.
-/

namespace HexVault

open Fallible Finmap Runs Timeline

def Action.playedBy (owner : Pubkey) : Action → Bool
  | .buyPosition buyer _ _ _ => buyer.key = owner
  | .settlePosition _ player => player = owner
  | _ => false

/-- The Entries an owner's own withdrawal leaves of `entries`. -/
def Action.withdrawn (owner : Pubkey) (entries : Nat) : Action → Option Nat
  | .requestWithdraw player amount => if player.key = owner then some (entries - amount) else none
  | .emergencyWithdraw player _ => if player = owner then some 0 else none
  | _ => none

/-- What a step would have made of `entries` of an owner who does not play. -/
def withoutPlay (owner : Pubkey) (before after : World) (a : Action) (entries : Nat) : Nat :=
  if a.playedBy owner then entries
  else (a.withdrawn owner entries).getD
    (entries + (after.entriesOf owner - before.entriesOf owner))

/-- The Entries an owner would have, had it not played since the run began. -/
def unplayed (owner : Pubkey) : History → World → Nat
  | [], w => w.entriesOf owner
  | (before, a) :: history, w => withoutPlay owner before w a (unplayed owner history before)

def unplayedAt (owner : Pubkey) (history : History) (w : World) : Int → Nat :=
  trajectory World.clock (unplayed owner) history w

/-- A settlement pays the owner no more than the Position's own stake. -/
def paidBack (owner : Pubkey) (x : World × Action) : Bool :=
  match x.2 with
  | .settlePosition id player => player ≠ owner || (x.1.rounds.lookup id).all fun r =>
      (x.1.positions.lookup (id, player)).all fun position =>
        rewardOf x.1.pool r position ≤ position.stake
  | _ => true

/-- The owner takes no Principal out beyond the Entries it still has. -/
def keepsEntries (owner : Pubkey) (x : World × Action) : Bool :=
  match x.2 with
  | .requestWithdraw player amount => player.key ≠ owner || amount ≤ x.1.entriesOf owner
  | .emergencyWithdraw player _ => player ≠ owner
  | _ => true

def ownStake (owner : Pubkey) (current : Nat) (r : Round) (x : Position) : Nat :=
  if x.owner = owner ∧ r.epochId = current then x.stake else 0

def ownAhead (owner : Pubkey) (current : Nat) (endsAt now : Int) (r : Round) (x : Position) :
    Nat :=
  if x.owner = owner ∧ r.epochId = current then
    x.stake * ((endsAt - now).toNat - (r.endsAt - now).toNat) else 0

/-- What an owner's Positions of the current epoch have staked, settled or not. -/
def World.stakedBy (w : World) (owner : Pubkey) : Nat :=
  total (onRound (ownStake owner w.pool.currentEpochId) w.rounds) w.positions

def World.aheadOf (w : World) (owner : Pubkey) : Nat :=
  total (onRound (ownAhead owner w.pool.currentEpochId w.pool.currentEpochEndsAt w.clock)
    w.rounds) w.positions

section Entries
variable {rt : Runtime} {w w' : World} {a : Action} {owner other : Pubkey} {p q r : Player}

theorem entriesOf_of_lookup (h : w.players.lookup owner = some p) :
    w.entriesOf owner = entriesNow w.pool.currentEpochId owner p := by
  rw [World.entriesOf, h, Option.elim_some]

/-- A touched account has its Entries brought up to now. -/
theorem entriesOf_touched (accounts : w.Accounts) (ha : w.players.lookup owner = some p)
    (ht : touch p w.pool w.clock = .ok q) :
    q.entries = w.entriesOf owner ∧ q.epochId = w.pool.currentEpochId := by
  have behind := accounts.behind ha
  rw [entriesOf_of_lookup ha]
  exact ⟨touch_entries _ behind ht, touch_epochId behind ht⟩

theorem entriesOf_written (span : SameSpan w.pool w'.pool)
    (players : w'.players = w.players.insert owner r) :
    w'.entriesOf owner = entriesNow w.pool.currentEpochId owner r := by
  rw [entriesOf_span span, players, lookup_insert, Option.elim_some]

theorem entriesOf_other (span : SameSpan w.pool w'.pool)
    (players : w'.players = w.players.insert other r) (hne : owner ≠ other) :
    w'.entriesOf owner = w.entriesOf owner := by
  rw [entriesOf_span span, players, lookup_insert_of_ne _ hne, World.entriesOf]

theorem entriesOf_kept (span : SameSpan w.pool w'.pool) (players : w'.players = w.players) :
    w'.entriesOf owner = w.entriesOf owner := by
  rw [entriesOf_span span, players, World.entriesOf]

/-- An account written with at least its Entries. -/
theorem entriesOf_le (span : SameSpan w.pool w'.pool)
    (players : w'.players = w.players.insert other r)
    (le : other = owner → w.entriesOf other ≤ entriesNow w.pool.currentEpochId other r) :
    w.entriesOf owner ≤ w'.entriesOf owner := by
  by_cases same : other = owner
  · subst same
    rw [entriesOf_written span players]
    exact le rfl
  · exact Nat.le_of_eq (entriesOf_other span players (Ne.symm same)).symm

theorem entriesOf_moved (accounts : w.Accounts) (span : SameSpan w.pool w'.pool)
    (ha : w.players.lookup other = some p) (ht : touch p w.pool w.clock = .ok q)
    (players : w'.players = w.players.insert other r) (epochId : r.epochId = q.epochId)
    (grown : other = owner → q.entries ≤ r.entries) : w.entriesOf owner ≤ w'.entriesOf owner := by
  refine entriesOf_le span players ?_
  intro same
  have touched := entriesOf_touched accounts ha ht
  rw [entriesNow, if_pos (epochId.trans touched.2), ← touched.1]
  exact grown same

theorem entriesOf_credited (accounts : w.Accounts) (span : SameSpan w.pool w'.pool)
    (ha : w.players.lookup other = some p) {credited : Nat} (hq : YieldTouch w p credited q)
    (players : w'.players = w.players.insert other r) (epochId : r.epochId = q.epochId)
    (principal : r.principal = q.principal + credited)
    (entries : r.entries = q.entries + credited) : w.entriesOf owner ≤ w'.entriesOf owner := by
  cases hq with
  | inl nothing =>
      obtain ⟨rfl, rfl⟩ := nothing
      refine entriesOf_le span players ?_
      intro _
      rw [entriesOf_of_lookup ha, entriesNow, entriesNow, epochId, principal, entries]
      exact Nat.le_refl _
  | inr touched =>
      exact entriesOf_moved accounts span ha touched players epochId fun _ =>
        entries ▸ Nat.le_add_right _ _

theorem entriesOf_deposited (accounts : w.Accounts) (span : SameSpan w.pool w'.pool)
    (ht : touch (((w.players.lookup other).getD Player.zeroed).initIfFresh other w.pool w.clock)
      w.pool w.clock = .ok q)
    (players : w'.players = w.players.insert other r) (epochId : r.epochId = q.epochId)
    (entries : q.entries ≤ r.entries) : w.entriesOf owner ≤ w'.entriesOf owner := by
  have behind := initIfFresh_behind accounts other
  have before := touch_entries other behind ht
  rw [initIfFresh_entries accounts.owned] at before
  refine entriesOf_le span players ?_
  intro _
  rw [entriesNow, if_pos (epochId.trans (touch_epochId behind ht))]
  refine Nat.le_trans (Nat.le_of_eq ?_) entries
  rw [before, World.entriesOf]
  cases w.players.lookup other with
  | none => exact (ite_self 0).symm
  | some p => rfl

/-- A step that is neither the owner's play nor its own withdrawal takes none of
its Entries. -/
theorem effect_entriesOf (accounts : w.Accounts) (h : Effect rt w a w')
    (span : SameSpan w.pool w'.pool) (unplayed : a.playedBy owner = false) {entries : Nat}
    (kept : a.withdrawn owner entries = none) :
    w.entriesOf owner ≤ w'.entriesOf owner := by
  cases h with
  | deposited ht => exact entriesOf_deposited accounts span ht rfl rfl (Nat.le_add_right _ _)
  | withdrawRequested ha ht =>
      refine entriesOf_moved accounts span ha ht rfl rfl fun same => ?_
      rw [Action.withdrawn, if_pos same] at kept
      exact nomatch kept
  | withdrawn ha =>
      refine entriesOf_le span rfl ?_
      intro _
      rw [entriesOf_of_lookup ha]
      rfl
  | emergencyWithdrawn ha ht =>
      refine entriesOf_moved accounts span ha ht rfl rfl fun same => ?_
      rw [Action.withdrawn, if_pos same] at kept
      exact nomatch kept
  | ticketsBought ha ht _ _ _ hc =>
      refine entriesOf_moved accounts span ha ht rfl (by rw [hc.player]) ?_
      intro _
      rw [hc.player]
      exact Nat.le_add_right _ _
  | ticketsGranted ha ht hc =>
      refine entriesOf_moved accounts span ha ht rfl (by rw [hc.player]) ?_
      intro _
      rw [hc.player]
      exact Nat.le_add_right _ _
  | positionBought ha _ _ ht =>
      exact entriesOf_moved accounts span ha ht rfl rfl fun same =>
        absurd same (of_decide_eq_false unplayed)
  | roundSettled _ ha _ _ hh =>
      cases hh with
      | credited _ _ ht =>
          exact entriesOf_moved accounts span ha ht rfl rfl fun _ => Nat.le_add_right _ _
      | evaporated _ =>
          refine entriesOf_le span rfl ?_
          intro _
          rw [entriesOf_of_lookup ha]
  | positionSettled _ ha _ ht =>
      exact entriesOf_moved accounts span ha ht rfl rfl fun _ => Nat.le_add_right _ _
  | registeredNothing _ ha _ _ _ _ _ hq =>
      exact entriesOf_credited accounts span ha hq rfl rfl rfl rfl
  | registered _ ha _ _ _ _ _ _ hq => exact entriesOf_credited accounts span ha hq rfl rfl rfl rfl
  | paidPlayer _ ha _ _ _ _ _ ht =>
      exact entriesOf_moved accounts span ha ht rfl rfl fun _ => Nat.le_add_right _ _
  | _ => exact Nat.le_of_eq (entriesOf_kept span rfl).symm

end Entries

/-- A round of the current epoch that is over with Positions left has ended. -/
def Ended (current : Nat) (clock : Int) (rounds : Finmap fun _ : Nat => Round)
    (positions : Finmap fun _ : Nat × Pubkey => Position) : Prop :=
  ∀ key x r, positions.lookup key = some x → rounds.lookup key.1 = some r →
    r.epochId = current → ¬ isLive current r → r.endsAt ≤ clock

def World.Ended (w : World) : Prop :=
  HexVault.Ended w.pool.currentEpochId w.clock w.rounds w.positions

section Rounds
variable {current id : Nat} {clock : Int} {rounds : Finmap fun _ : Nat => Round}
  {positions positions' : Finmap fun _ : Nat × Pubkey => Position} {r r' : Round}

theorem Ended.later (hi : Ended current clock rounds positions) {clock' : Int}
    (later : clock ≤ clock') : Ended current clock' rounds positions :=
  fun key x r hx hr hid passed => Int.le_trans (hi key x r hx hr hid passed) later

/-- One round written: its own Positions are to be looked at. -/
theorem Ended.write (hi : Ended current clock rounds positions)
    (others : ∀ key x, key.1 ≠ id → positions'.lookup key = some x →
      positions.lookup key = some x)
    (own : ∀ key x, key.1 = id → positions'.lookup key = some x → r'.epochId = current →
      ¬ isLive current r' → r'.endsAt ≤ clock) :
    Ended current clock (rounds.insert id r') positions' := by
  intro key x y hx hy hid passed
  cases lookup_insert_cases hy with
  | inl same =>
      obtain ⟨hkey, rfl⟩ := same
      exact own key x hkey hx hid passed
  | inr rest => exact hi key x y (others key x rest.1 hx) rest.2 hid passed

/-- A round with Positions on it that is settled in time has ended. -/
theorem ended_inTime (books : Books rounds positions) (h : rounds.lookup id = some r)
    (inTime : r.epochId ≠ current ∨ r.openPositions = 0 ∨ r.endsAt ≤ clock)
    {key : Nat × Pubkey} {x : Position} (same : key.1 = id)
    (hx : positions.lookup key = some x) (hid : r.epochId = current) : r.endsAt ≤ clock := by
  obtain old | empty | ended := inTime
  · exact absurd hid old
  · exact absurd same (books.off_of_zero h empty hx)
  · exact ended

end Rounds

section Steps
variable {rt : Runtime} {w w' : World} {a : Action} {owner : Pubkey} {preCredit : Nat}

theorem effect_ended (books : w.Books) (h : Effect rt w a w') (span : SameSpan w.pool w'.pool)
    (inTime : settlesInTime (w, a) = true) (hi : w.Ended) : w'.Ended := by
  have later := effect_clock h
  unfold World.Ended
  rw [span.currentEpochId]
  refine Ended.later ?_ later
  cases h with
  | roundCreated hnew =>
      refine Ended.write hi (fun _ _ _ hx => hx) ?_
      intro key x same hx
      exact absurd same (books.off_of_none hnew hx)
  | positionBought _ _ _ _ _ ho =>
      refine Ended.write hi ?_ ?_
      · intro key x other hx
        rwa [World.emit_positions, lookup_insert_of_ne _ fun same => other (by rw [same])] at hx
      · intro key x _ _ hid passed
        exact absurd ⟨hid, .inl ho⟩ passed
  | roundRequested =>
      refine Ended.write hi (fun _ _ _ hx => hx) ?_
      intro key x _ _ hid passed
      exact absurd ⟨hid, .inr rfl⟩ passed
  | roundSettled hr =>
      refine Ended.write hi (fun _ _ _ hx => hx) ?_
      intro key x same hx hid _
      have ended := ended_inTime books hr (settlesInTime_cases inTime hr) same hx hid
      exact ended
  | positionSettled hr _ _ _ hf =>
      refine Ended.write hi (fun key x _ hx => lookup_of_erase hx) ?_
      intro key x same hx hid passed
      rw [← same] at hr
      have ended := hi key x _ (lookup_of_erase hx) hr hid passed
      exact ended
  | roundVoided hr =>
      refine Ended.write hi (fun _ _ _ hx => hx) ?_
      intro key x same hx hid _
      have ended := ended_inTime books hr (settlesInTime_cases inTime hr) same hx hid
      exact ended
  | roundClosed =>
      intro key x r hx hr hid passed
      exact hi key x r hx (lookup_of_erase hr) hid passed
  | epochBegan => exact absurd span.currentEpochId (Nat.succ_ne_self _)
  | _ => exact hi

theorem stakedBy_span (span : SameSpan w.pool w'.pool) (owner : Pubkey) : w'.stakedBy owner =
    total (onRound (ownStake owner w.pool.currentEpochId) w'.rounds) w'.positions := by
  rw [World.stakedBy, span.currentEpochId]

theorem aheadOf_span (span : SameSpan w.pool w'.pool) (clock : w'.clock = w.clock)
    (owner : Pubkey) : w'.aheadOf owner =
      total (onRound (ownAhead owner w.pool.currentEpochId w.pool.currentEpochEndsAt w.clock)
        w'.rounds) w'.positions := by
  rw [World.aheadOf, span.currentEpochId, span.currentEpochEndsAt, clock]

theorem ownStake_other {current : Nat} {r : Round} {x : Position} (h : x.owner ≠ owner) :
    ownStake owner current r x = 0 := if_neg fun own => h own.1

theorem ownAhead_other {current : Nat} {endsAt now : Int} {r : Round} {x : Position}
    (h : x.owner ≠ owner) : ownAhead owner current endsAt now r x = 0 := if_neg fun own => h own.1

/-- A step of somebody else leaves what the owner has staked as it is. -/
theorem own_kept (books : w.Books) (h : Effect rt w a w') (span : SameSpan w.pool w'.pool)
    (clock : w'.clock = w.clock) (unplayed : a.playedBy owner = false) :
    w'.stakedBy owner = w.stakedBy owner ∧ w'.aheadOf owner = w.aheadOf owner := by
  rw [stakedBy_span span, aheadOf_span span clock, World.stakedBy, World.aheadOf]
  cases h with
  | roundCreated hnew => exact ⟨onRound_create _ books hnew, onRound_create _ books hnew⟩
  | @positionBought buyer _ _ _ _ _ _ _ _ hr hx =>
      have other : buyer.key ≠ owner := of_decide_eq_false unplayed
      refine ⟨?_, ?_⟩
      · refine Eq.trans (onRound_buy _ hr hx fun _ => rfl) ?_
        rw [ownStake_other other, Nat.zero_add]
      · refine Eq.trans (onRound_buy _ hr hx fun _ => rfl) ?_
        rw [ownAhead_other other, Nat.zero_add]
  | roundRequested hr =>
      exact ⟨onRound_same _ hr fun _ => rfl, onRound_same _ hr fun _ => rfl⟩
  | roundSettled hr =>
      exact ⟨onRound_same _ hr fun _ => rfl, onRound_same _ hr fun _ => rfl⟩
  | @positionSettled _ player _ _ _ _ _ _ hr _ hx =>
      have other : player ≠ owner := of_decide_eq_false unplayed
      have hne := fun heq => other ((books.keyed hx).symm.trans heq)
      exact ⟨onRound_settle_zero _ hr hx (fun _ => rfl) (ownStake_other hne),
        onRound_settle_zero _ hr hx (fun _ => rfl) (ownAhead_other hne)⟩
  | roundVoided hr =>
      exact ⟨onRound_same _ hr fun _ => rfl, onRound_same _ hr fun _ => rfl⟩
  | roundClosed hr _ zero => exact ⟨onRound_close _ books hr zero, onRound_close _ books hr zero⟩
  | epochBegan => exact absurd span.currentEpochId (Nat.succ_ne_self _)
  | _ => exact ⟨rfl, rfl⟩

/-- The owner's purchase: its stake leaves its Entries, and is ahead by what was not
credited up front. -/
theorem own_bought {buyer : Signer} {id stakePerTile : Nat} {tiles : BitVec 64}
    (accounts : w.Accounts) (roundsWithin : w.RoundsWithin) (positive : 1 ≤ w.pool.currentEpochId)
    (h : Effect rt w (.buyPosition buyer id tiles stakePerTile) w')
    (span : SameSpan w.pool w'.pool) (clock : w'.clock = w.clock)
    (within : staysInEpoch (w, .buyPosition buyer id tiles stakePerTile) = true)
    (hc : PreCredited w (.buyPosition buyer id tiles stakePerTile) buyer.key preCredit) :
    ∃ stake ahead, w'.entriesOf buyer.key + stake = w.entriesOf buyer.key ∧
      w'.stakedBy buyer.key = stake + w.stakedBy buyer.key ∧
      w'.aheadOf buyer.key = ahead + w.aheadOf buyer.key ∧
      preCredit + ahead ≤ stake * w.left := by
  rw [stakedBy_span span, aheadOf_span span clock, World.stakedBy, World.aheadOf]
  cases h with
  | reconfigured ha => exact nomatch ha
  | @positionBought _ _ _ _ _ player round _ ha hr hx ht _ ho _ _ _ _ _ afford =>
      have current := within
      simp only [staysInEpoch, hr, Option.all_some, decide_eq_true_eq] at current
      have ends := (roundsWithin _ _ hr).2 (by omega)
      have touched := entriesOf_touched accounts ha ht
      have after := entriesOf_written span rfl
      rw [entriesNow, if_pos touched.2] at after
      have credited := preCredit_le hc hr
      have seconds : (round.endsAt - w.clock).toNat +
          (w.left - (round.endsAt - w.clock).toNat) = w.left := by
        rw [World.left]
        omega
      have whole := Nat.mul_add (stakePerTile * countOnes tiles) (round.endsAt - w.clock).toNat
        (w.left - (round.endsAt - w.clock).toNat)
      rw [seconds] at whole
      refine ⟨stakePerTile * countOnes tiles, stakePerTile * countOnes tiles *
        (w.left - (round.endsAt - w.clock).toNat), ?_, ?_, ?_, ?_⟩
      · rw [after, ← touched.1]
        exact Nat.sub_add_cancel afford
      · refine Eq.trans (onRound_buy _ hr hx fun _ => rfl) ?_
        rw [ownStake, if_pos ⟨rfl, current⟩]
        rfl
      · refine Eq.trans (onRound_buy _ hr hx fun _ => rfl) ?_
        rw [ownAhead, if_pos ⟨rfl, current⟩]
        rfl
      · rw [whole]
        exact Nat.add_le_add_right credited _

/-- The owner's settlement: a reward of at most the stake, on a round that has
ended and so is ahead by all the seconds left. -/
theorem own_collected {id : Nat} (accounts : w.Accounts) (books : w.Books) (ended : w.Ended)
    (h : Effect rt w (.settlePosition id owner) w') (span : SameSpan w.pool w'.pool)
    (clock : w'.clock = w.clock) (paid : paidBack owner (w, .settlePosition id owner) = true) :
    ∃ stake reward, reward ≤ stake ∧ w'.entriesOf owner = w.entriesOf owner + reward ∧
      stake + w'.stakedBy owner = w.stakedBy owner ∧
      stake * w.left + w'.aheadOf owner = w.aheadOf owner := by
  rw [stakedBy_span span, aheadOf_span span clock, World.stakedBy, World.aheadOf]
  cases h with
  | reconfigured ha => exact nomatch ha
  | @positionSettled _ _ round _ player position reward _ hr ha hx ht hf hreward =>
      have touched := entriesOf_touched accounts ha ht
      have after := entriesOf_written span rfl
      rw [entriesNow, if_pos touched.2] at after
      have own : position.owner = owner := books.keyed hx
      have worth := rewardOf_of_ok hreward
      refine ⟨ownStake owner w.pool.currentEpochId round position, reward, ?_, ?_, ?_, ?_⟩
      · by_cases current : round.epochId = w.pool.currentEpochId
        · rw [ownStake, if_pos ⟨own, current⟩, ← worth]
          simpa only [paidBack, hr, hx, Option.all_some, ne_eq, not_true_eq_false, decide_false,
            Bool.false_or, decide_eq_true_eq] using paid
        · rw [← worth, rewardOf_zero fun both => current both.1]
          exact Nat.zero_le _
      · rw [after, ← touched.1]
      · exact onRound_settle _ hr hx fun _ => rfl
      · have whole : ownStake owner w.pool.currentEpochId round position * w.left =
            ownAhead owner w.pool.currentEpochId w.pool.currentEpochEndsAt w.clock round
              position := by
          rw [ownStake, ownAhead]
          by_cases both : position.owner = owner ∧ round.epochId = w.pool.currentEpochId
          · have passed := ended (id, owner) position round hx hr both.2 (over_of_finished hf)
            have gone : (round.endsAt - w.clock).toNat = 0 := by omega
            rw [if_pos both, if_pos both, gone, Nat.sub_zero, World.left]
          · rw [if_neg both, if_neg both, Nat.zero_mul]
        rw [whole]
        exact onRound_settle _ hr hx fun _ => rfl

/-- What a step credits an owner up front comes out of what its stakes are ahead. -/
theorem own_stakes (reachable : Reachable rt w) (positive : 1 ≤ w.pool.currentEpochId)
    (ended : w.Ended) (h : Effect rt w a w') (span : SameSpan w.pool w'.pool)
    (clock : w'.clock = w.clock) (within : staysInEpoch (w, a) = true)
    (paid : paidBack owner (w, a) = true) (hc : PreCredited w a owner preCredit) :
    preCredit + w'.aheadOf owner + w.stakedBy owner * w.left ≤
      w.aheadOf owner + w'.stakedBy owner * w.left := by
  have accounts := reachable_accounts reachable
  have books := reachable_books reachable
  cases played : a.playedBy owner with
  | false =>
      have kept := own_kept books h span clock played
      have zero : preCredit = 0 := by
        cases hc with
        | inl zero => exact zero
        | inr bought =>
            obtain ⟨buyer, _, _, _, _, rfl, same, -⟩ := bought
            exact absurd same (of_decide_eq_false played)
      rw [zero]
      exact stakes_equal kept.2 kept.1
  | true =>
      cases a with
      | buyPosition buyer id tiles stakePerTile =>
          obtain rfl : buyer.key = owner := of_decide_eq_true played
          obtain ⟨stake, ahead, -, staked, aheadOf, credited⟩ := own_bought accounts
            (reachable_roundsWithin reachable) positive h span clock within hc
          rw [staked, aheadOf, Nat.add_mul]
          omega
      | settlePosition id player =>
          obtain rfl : player = owner := of_decide_eq_true played
          obtain rfl := preCredit_zero hc nofun
          obtain ⟨stake, reward, -, -, staked, aheadOf⟩ :=
            own_collected accounts books ended h span clock paid
          rw [← staked, ← aheadOf, Nat.add_mul]
          omega
      | _ => exact nomatch played

/-- An owner's withdrawal of what it has in Entries. -/
theorem own_withdrawn (accounts : w.Accounts) (h : Effect rt w a w')
    (span : SameSpan w.pool w'.pool) (keeps : keepsEntries owner (w, a) = true)
    {entries left : Nat} (withdrawn : a.withdrawn owner entries = some left) :
    ∃ amount, amount ≤ w.entriesOf owner ∧ w'.entriesOf owner = w.entriesOf owner - amount ∧
      left = entries - amount := by
  cases a with
  | requestWithdraw player amount =>
      simp only [Action.withdrawn, Option.ite_none_right_eq_some, Option.some.injEq] at withdrawn
      obtain ⟨rfl, rfl⟩ := withdrawn
      simp only [keepsEntries, ne_eq, not_true_eq_false, decide_false, Bool.false_or,
        decide_eq_true_eq] at keeps
      refine ⟨amount, keeps, ?_, rfl⟩
      cases h with
      | reconfigured ha => cases ha
      | withdrawRequested ha ht =>
          have touched := entriesOf_touched accounts ha ht
          refine (entriesOf_written span rfl).trans ?_
          rw [entriesNow, if_pos touched.2, ← touched.1]
  | emergencyWithdraw player token =>
      simp only [Action.withdrawn, Option.ite_none_right_eq_some] at withdrawn
      exact absurd withdrawn.1 (of_decide_eq_true keeps)
  | _ => cases withdrawn

/-- An owner's Tickets, in Entries and staked, stay within those it would have
without its play. -/
theorem own_tickets (reachable : Reachable rt w) (positive : 1 ≤ w.pool.currentEpochId)
    (ended : w.Ended) (h : Effect rt w a w') (span : SameSpan w.pool w'.pool)
    (clock : w'.clock = w.clock) (within : staysInEpoch (w, a) = true)
    (paid : paidBack owner (w, a) = true) (keeps : keepsEntries owner (w, a) = true)
    {tickets : Nat} (hi : w.entriesOf owner + w.stakedBy owner ≤ tickets) :
    w'.entriesOf owner + w'.stakedBy owner ≤ withoutPlay owner w w' a tickets := by
  have accounts := reachable_accounts reachable
  have books := reachable_books reachable
  rw [withoutPlay]
  cases played : a.playedBy owner with
  | false =>
      rw [(own_kept books h span clock played).1, if_neg Bool.false_ne_true]
      cases withdrawn : a.withdrawn owner tickets with
      | none =>
          have grown := effect_entriesOf accounts h span played withdrawn
          rw [Option.getD_none]
          omega
      | some left =>
          obtain ⟨amount, within, entries, rfl⟩ := own_withdrawn accounts h span keeps withdrawn
          rw [entries, Option.getD_some]
          omega
  | true =>
      rw [if_pos rfl]
      cases a with
      | buyPosition buyer id tiles stakePerTile =>
          obtain rfl : buyer.key = owner := of_decide_eq_true played
          obtain ⟨stake, ahead, entries, staked, -⟩ := own_bought accounts
            (reachable_roundsWithin reachable) positive h span clock within (.inl rfl)
          omega
      | settlePosition id player =>
          obtain rfl : player = owner := of_decide_eq_true played
          obtain ⟨stake, reward, le, entries, staked, -⟩ :=
            own_collected accounts books ended h span clock paid
          omega
      | _ => exact nomatch played

theorem began_weightOf (accounts : w.Accounts) (roundsWithin : w.RoundsWithin)
    (began : Began w w') (owner : Pubkey) : w'.weightOf owner = w'.entriesOf owner *
      (w'.pool.currentEpochEndsAt - w'.pool.currentEpochStart).toNat ∧
    w'.stakedBy owner = 0 ∧ w'.aheadOf owner = 0 := by
  refine ⟨?_, ?_, ?_⟩
  · rw [World.weightOf, World.entriesOf, began.players]
    cases hp : w.players.lookup owner with
    | none => exact (Nat.zero_mul _).symm
    | some p => exact began_finalWeight accounts began hp
  · exact began_nothing roundsWithin began fun r x old => if_neg fun own => old own.2
  · exact began_nothing roundsWithin began fun r x old => if_neg fun own => old own.2

theorem began_ended (roundsWithin : w.RoundsWithin) (began : Began w w') : w'.Ended := by
  intro key x r _ hr hid
  rw [began.rounds] at hr
  have before := (roundsWithin key.1 r hr).1
  have current := began.currentEpochId
  omega

theorem aheadOf_waited {t : Int} (later : w.clock ≤ t) (owner : Pubkey) :
    ({ w with clock := t }).aheadOf owner ≤ w.aheadOf owner := by
  refine onRound_mono _ ?_
  intro r x
  simp only [ownAhead]
  split
  · refine Nat.mul_le_mul_left _ ?_
    omega
  · exact Nat.le_refl _

end Steps

section Runs
variable {rt : Runtime} {history : History} {w : World}

theorem unplayedAt_next (owner : Pubkey) (history : History) (a : Action) {w' : World}
    {start : Int} (stop : Int) (h : start ≤ w'.clock) (later : w.clock ≤ w'.clock) :
    integral (unplayedAt owner ((w, a) :: history) w') start stop +
        unplayed owner history w * (stop - w'.clock).toNat =
      integral (unplayedAt owner history w) start stop +
        unplayed owner ((w, a) :: history) w' * (stop - w'.clock).toNat :=
  trajectory_next (unplayed owner) history a stop h later

/-- An owner's Tickets and Weight against those without its play. -/
structure Covered (owner : Pubkey) (history : History) (w : World) : Prop where
  ended : w.Ended
  tickets : w.entriesOf owner + w.stakedBy owner ≤ unplayed owner history w
  weight : w.weightOf owner + w.aheadOf owner + unplayed owner history w * w.left ≤
    integral (unplayedAt owner history w) w.pool.currentEpochStart w.pool.currentEpochEndsAt +
      (w.entriesOf owner + w.stakedBy owner) * w.left

theorem covered_waited {weight ahead ahead' tickets most left left' area : Nat}
    (h : weight + ahead + most * left ≤ area + tickets * left) (le : tickets ≤ most)
    (ha : ahead' ≤ ahead) (hl : left' ≤ left) :
    weight + ahead' + most * left' ≤ area + tickets * left' := by
  obtain ⟨unstaked, rfl⟩ := Nat.le.dest le
  have less := Nat.mul_le_mul_left unstaked hl
  rw [Nat.add_mul] at h ⊢
  omega

def neutralStep (owner : Pubkey) (x : World × Action) : Prop :=
  staysInEpoch x = true ∧ settlesInTime x = true ∧ paidBack owner x = true ∧
    keepsEntries owner x = true

theorem run_covered (owner : Pubkey) (run : EpochRun rt history w)
    (steps : ∀ x ∈ history, neutralStep owner x) : Covered owner history w := by
  refine run.invariantWhile (P := Covered owner) ?_ ?_ steps
  · intro w w' reachable began
    have accounts := reachable_accounts reachable
    have roundsWithin := reachable_roundsWithin reachable
    have fresh := began_weightOf accounts roundsWithin began owner
    have settled : ∀ t, unplayedAt owner [] w' t = w'.entriesOf owner := fun t => rfl
    refine ⟨began_ended roundsWithin began, ?_, ?_⟩
    · rw [fresh.2.1]
      exact Nat.le_refl _
    · rw [integral_const fun t _ _ => settled t, fresh.1, fresh.2.1, fresh.2.2]
      exact Nat.le_refl _
  · intro history w a w' reachable positive hi hc hs
    have effect := step_effect hs
    have span := span_of_stays reachable hs hc.1
    have accounts := reachable_accounts reachable
    have calendar := reachable_calendar reachable
    have order := calendar.currentOrder positive
    have later := effect_clock effect
    have next := unplayedAt_next owner history a w.pool.currentEpochEndsAt
      (Int.le_trans order.2.2.1 later) later
    have weight := hi.weight
    cases effect_moment effect with
    | inl clock =>
        obtain ⟨preCredit, credited, moved⟩ :=
          effect_weightOf calendar accounts positive effect span owner
        have stakes := own_stakes reachable positive hi.ended effect span clock hc.1 hc.2.2.1
          credited
        have tickets := own_tickets reachable positive hi.ended effect span clock hc.1 hc.2.2.1
          hc.2.2.2 hi.tickets
        have left : w'.left = w.left := by
          rw [World.left, span.currentEpochEndsAt, clock, World.left]
        refine ⟨effect_ended (reachable_books reachable) effect span hc.2.1 hi.ended, tickets, ?_⟩
        rw [span.currentEpochStart, span.currentEpochEndsAt, left]
        rw [clock] at next
        simp only [World.left, Nat.add_mul] at weight moved stakes ⊢
        omega
    | inr waited =>
        obtain ⟨t, later, rfl, rfl⟩ := waited
        have ahead := aheadOf_waited later owner
        have shorter : ({ w with clock := t }).left ≤ w.left :=
          Int.toNat_le_toNat (Int.sub_le_sub_left later _)
        have still : unplayed owner ((w, .wait t) :: history) { w with clock := t } =
            unplayed owner history w :=
          congrArg (unplayed owner history w + ·) (Nat.sub_self _)
        rw [still] at next
        refine ⟨hi.ended.later later, still ▸ hi.tickets, ?_⟩
        rw [still, Nat.add_right_cancel next]
        exact covered_waited weight hi.tickets ahead shorter

/-- The Weight of an epoch against its Tickets, and each Player's against not
having played, where no reward of its own exceeds the stake. -/
structure WeightNeutral (history : History) (w : World) : Prop where
  total : w.weight ≤ integral (ticketsAt history w) w.pool.currentEpochStart
    w.pool.currentEpochEndsAt
  player : ∀ owner, (∀ x ∈ history, paidBack owner x = true) →
    (∀ x ∈ history, keepsEntries owner x = true) →
    w.weightOf owner ≤ integral (unplayedAt owner history w) w.pool.currentEpochStart
      w.pool.currentEpochEndsAt

/-- Playing in an epoch is neutral to Weight as long as every round with
Positions on it settles, or is voided, no earlier than it ends. -/
theorem weight_neutral (run : EpochRun rt history w)
    (within : ∀ x ∈ history, staysInEpoch x = true)
    (inTime : ∀ x ∈ history, settlesInTime x = true) : WeightNeutral history w := by
  refine ⟨?_, ?_⟩
  · have earned := run_weight run fun x hx => ⟨within x hx, inTime x hx⟩
    have existing : ∀ t, inPlayAt history w t ≤ ticketsAt history w t :=
      trajectory_mono fun _ v => Nat.add_le_add_left (Nat.le_add_right _ _) v.entries
    exact Nat.le_trans (Nat.le_of_add_right_le earned) (integral_mono existing)
  · intro owner paid keeps
    have covered := run_covered owner run fun x hx =>
      ⟨within x hx, inTime x hx, paid x hx, keeps x hx⟩
    have tickets := Nat.mul_le_mul_right w.left covered.tickets
    have weight := covered.weight
    omega

end Runs

namespace Demo

/-- The actions of a list from the instant the epoch after a script is begun. -/
def epoch (setup actions : List Action) : Result (History × World) := do
  let (_, before) ← script setup
  let start ← perform runtime (.beginEpoch operator) before
  replay runtime actions ([], start)

theorem epoch_run {setup actions : List Action} {history : History} {w : World}
    (h : epoch setup actions = .ok (history, w)) : EpochRun runtime history w := by
  obtain ⟨⟨earlier, before⟩, hsetup, h⟩ := bind_eq_ok.mp h
  obtain ⟨start, hbegin, h⟩ := bind_eq_ok.mp h
  exact ⟨before, operator, start, (script_run hsetup).reachable, hbegin,
    replay_steps .start h⟩

end Demo

/-- A Player that stakes all it has and is paid its stake back at the round's end. -/
theorem weight_neutral_settled : ∃ history w, EpochRun Demo.runtime history w ∧
    w.weight = 10000 ∧ w.clock = 1010 ∧ WeightNeutral history w := by
  let player := Demo.signer 3
  obtain ⟨⟨history, w⟩, hrun, hcheck⟩ := exists_of_any
    (x := Demo.epoch [.setFeaturePause Demo.admin .jackpot false,
        .setFeaturePause Demo.admin .game false, .deposit player (Demo.wallet player) 100]
      [.createRound Demo.operator 1000 1010, .buyPosition player 1 1 100, .wait 1008,
        .requestRoundRandomness 1 ⟨9⟩ (List.replicate 32 0), .wait 1010,
        .settleRound 1 ⟨⟨9⟩, List.replicate 8 0 ++ [1] ++ List.replicate 128 0⟩,
        .settlePosition 1 ⟨3⟩])
    (p := fun r => r.1.all staysInEpoch && r.1.all settlesInTime && r.2.weight = 10000 &&
      r.2.clock = 1010) (by decide +kernel)
  simp only [Bool.and_eq_true, List.all_eq_true, decide_eq_true_eq] at hcheck
  obtain ⟨⟨⟨within, inTime⟩, weight⟩, clock⟩ := hcheck
  have run := Demo.epoch_run hrun
  exact ⟨history, w, run, weight, clock, weight_neutral run within inTime⟩

/-- The same round settled two seconds before it ends: the stake is back in
Entries, and both earn. -/
theorem weight_counted_twice : ∃ history w, EpochRun Demo.runtime history w ∧
    (∀ x ∈ history, staysInEpoch x = true) ∧ w.clock = 1008 ∧ ¬ WeightNeutral history w := by
  let player := Demo.signer 3
  obtain ⟨⟨history, w⟩, hrun, hcheck⟩ := exists_of_any
    (x := Demo.epoch [.setFeaturePause Demo.admin .jackpot false,
        .setFeaturePause Demo.admin .game false, .deposit player (Demo.wallet player) 100]
      [.createRound Demo.operator 1000 1010, .buyPosition player 1 1 100, .wait 1008,
        .requestRoundRandomness 1 ⟨9⟩ (List.replicate 32 0),
        .settleRound 1 ⟨⟨9⟩, List.replicate 8 0 ++ [1] ++ List.replicate 128 0⟩,
        .settlePosition 1 ⟨3⟩])
    (p := fun r => r.1.all staysInEpoch && r.1.all (fun x => x.1.ticketsInPlay = 100) &&
      r.2.ticketsInPlay = 100 && r.2.weight = 10200 && r.2.clock = 1008 &&
      r.2.pool.currentEpochStart = 1000 && r.2.pool.currentEpochEndsAt = 1100)
    (by decide +kernel)
  simp only [Bool.and_eq_true, List.all_eq_true, decide_eq_true_eq] at hcheck
  obtain ⟨⟨⟨⟨⟨⟨within, before⟩, now⟩, weight⟩, clock⟩, startsAt⟩, endsAt⟩ := hcheck
  refine ⟨history, w, Demo.epoch_run hrun, within, clock, ?_⟩
  intro neutral
  have constant : ∀ t, ticketsAt history w t = 100 := trajectory_const now before
  have earned := neutral.total
  rw [integral_const fun t _ _ => constant t, weight, startsAt, endsAt] at earned
  exact absurd earned (by decide)

end HexVault
