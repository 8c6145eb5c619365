import HexVault.Invariants.Exit
import HexVault.Lib.Commuting

/-!
The errands the operator and the admin's crank run for Players, several at a time: settling a
Position and paying a matured withdrawal. Neither takes a signer, so anyone may run any of them in
between. In what order a batch lands makes no difference to the books.
-/

namespace HexVault

open Fallible Commuting

inductive Errand where
  | settle (roundId : Nat) (owner : Pubkey)
  | pay (owner : Pubkey) (ownerToken : TokenAccount)

def Errand.run : Errand → World → Result World
  | .settle roundId owner, w => settlePosition roundId owner w
  | .pay owner ownerToken, w => processWithdraw owner ownerToken w

/-- A batch, in the order in which it lands. -/
def runErrands (errands : List Errand) (w : World) : Result World :=
  errands.foldlM (fun w errand => errand.run w) w

/-- The same accounts, vaults and clock; the log may differ. -/
def World.SameBooks (w v : World) : Prop := { v with log := w.log } = w

/-! What an errand does to the accounts. -/

section Cells
variable (pool : Pool) (now : Int)

def Credits (reward : Nat) (p q : Player) : Prop :=
  ∃ player, touch p pool now = .ok player ∧
    ∃ entries, addReward player.entries reward = .ok entries ∧ q = { player with entries }

def Releases (r s : Round) : Prop :=
  1 ≤ r.openPositions ∧ s = { r with openPositions := r.openPositions - 1 }

/-- The withdrawal is due, and the token account is the owner's. -/
def PayoutDue (ownerToken : TokenAccount) (p : Player) : Prop :=
  checkDestination pool p.owner ownerToken = .ok () ∧ 0 < p.pendingWithdraw ∧
    ∃ deadline, addI64 p.requestedAt pool.epochSeconds = .ok deadline ∧
      (pool.shutdown = true ∨ p.pendingEpoch < pool.currentEpochId ∨ deadline < now)

def Clears (ownerToken : TokenAccount) (amount : Nat) (p q : Player) : Prop :=
  p.pendingWithdraw = amount ∧ PayoutDue pool now ownerToken p ∧ q = { p with pendingWithdraw := 0 }

end Cells

structure Settled (roundId : Nat) (owner : Pubkey) (w w' : World) : Prop where
  reads : ∃ round position reward, w.rounds.lookup roundId = some round ∧
    isFinished round.status ∧ w.positions.lookup (roundId, owner) = some position ∧
    positionReward w.pool round position = .ok reward ∧
    Cell owner (Credits w.pool w.clock reward) w.players w'.players
  round : Cell roundId Releases w.rounds w'.rounds
  position : Drop (roundId, owner) w.positions w'.positions
  rest : w' = { w with
    players := w'.players, rounds := w'.rounds, positions := w'.positions }

structure Paid (owner : Pubkey) (ownerToken : TokenAccount) (w w' : World) : Prop where
  amount : ∃ amount, amount ≤ w.principalVault ∧ amount ≤ w.pool.pendingWithdrawals ∧
    Cell owner (Clears w.pool w.clock ownerToken amount) w.players w'.players ∧
    w' = { w with
      pool := { w.pool with pendingWithdrawals := w.pool.pendingWithdrawals - amount }
      players := w'.players
      principalVault := w.principalVault - amount }

def Errand.Done : Errand → World → World → Prop
  | .settle roundId owner => Settled roundId owner
  | .pay owner ownerToken => Paid owner ownerToken

section Link
variable {w w' v : World} {roundId : Nat} {owner : Pubkey} {ownerToken : TokenAccount}
  {errand : Errand}

theorem settled_iff : Settled roundId owner w w' ↔
    ∃ v, settlePosition roundId owner w = .ok v ∧ w' = { v with log := w.log } := by
  simp only [settlePosition, bind_eq_ok, World.player_eq_ok, World.round_eq_ok,
    World.position_eq_ok, ensure_eq_ok, subU_eq_ok, pure_eq_ok, exists_const]
  constructor
  · intro h
    obtain ⟨round, position, reward, hr, finished, hx, hreward, cell⟩ := h.reads
    obtain ⟨account, after, ha, ⟨player, ht, entries, he, rfl⟩, players⟩ := cell
    obtain ⟨round', released, hr', ⟨some_, rfl⟩, rounds⟩ := h.round
    obtain rfl := Option.some.inj (hr.symm.trans hr')
    refine ⟨_, ⟨round, hr, account, ha, position, hx, player, ht, finished, reward, hreward,
      entries, he, _, ⟨some_, rfl⟩, rfl⟩, ?_⟩
    rw [h.rest, players, rounds, h.position.2]
    rfl
  · intro h
    obtain ⟨_, ⟨round, hr, account, ha, position, hx, player, ht, finished, reward, hreward,
      entries, he, _, ⟨some_, rfl⟩, rfl⟩, rfl⟩ := h
    exact ⟨⟨round, position, reward, hr, finished, hx, hreward, account, _, ha,
      ⟨player, ht, entries, he, rfl⟩, rfl⟩, ⟨round, _, hr, ⟨some_, rfl⟩, rfl⟩,
      ⟨⟨position, hx⟩, rfl⟩, rfl⟩

theorem paid_iff : Paid owner ownerToken w w' ↔
    ∃ v, processWithdraw owner ownerToken w = .ok v ∧ w' = { v with log := w.log } := by
  simp only [processWithdraw, bind_eq_ok, World.player_eq_ok, ensure_eq_ok, subU_eq_ok,
    transferOut, checkedSub_eq_ok, pure_eq_ok, exists_const]
  constructor
  · intro h
    obtain ⟨amount, vault, pending, cell, rest⟩ := h.amount
    obtain ⟨account, after, ha, ⟨rfl, ⟨target, some_, deadline, hd, due⟩, rfl⟩, players⟩ := cell
    refine ⟨_, ⟨account, ha, (), target, some_, deadline, hd, due, vault, _, ⟨vault, rfl⟩, _,
      ⟨pending, rfl⟩, rfl⟩, ?_⟩
    rw [rest, players]
    rfl
  · intro h
    obtain ⟨_, ⟨account, ha, _, target, some_, deadline, hd, due, vault, _, ⟨-, rfl⟩, _,
      ⟨pending, rfl⟩, rfl⟩, rfl⟩ := h
    exact ⟨account.pendingWithdraw, vault, pending,
      ⟨account, _, ha, ⟨rfl, ⟨target, some_, deadline, hd, due⟩, rfl⟩, rfl⟩, rfl⟩

theorem Errand.done_iff :
    errand.Done w w' ↔ ∃ v, errand.run w = .ok v ∧ w' = { v with log := w.log } := by
  cases errand with
  | settle => exact settled_iff
  | pay => exact paid_iff

end Link

section Players
variable {p q : Player} {pool : Pool} {now : Int} {reward other amount amount' : Nat}
  {token token' : TokenAccount}

theorem addReward_iff {entries total : Nat} : addReward entries reward = .ok total ↔
    (0 < reward → entries + reward < u64Limit) ∧ total = entries + reward := by
  rw [addReward]
  split
  · next some_ =>
      rw [addU64_eq_ok]
      exact and_congr_left fun _ => ⟨fun fits _ => fits, fun fits => fits some_⟩
  · next none =>
      rw [Except.ok.injEq]
      constructor
      · intro same
        exact ⟨fun some_ => absurd some_ none, by omega⟩
      · intro h
        omega

/-- The accumulators a touch leaves fit their type. -/
theorem touch_fits (h : touch p pool now = .ok q) :
    q.weightAcc < u128Limit ∧ q.principalAcc < u128Limit := by
  rcases touch_cases h with same | new
  · obtain ⟨weight, left⟩ := accrue_eq_ok.mp same.weight
    obtain ⟨seconds, right⟩ := accrue_eq_ok.mp same.principalSeconds
    exact ⟨left ▸ weight, right ▸ seconds⟩
  · obtain ⟨weight, left⟩ := weightOf_eq_ok.mp new.weight
    rw [new.principalSeconds, left]
    exact ⟨weight, weight⟩

theorem touch_stamps (h : touch p pool now = .ok q) :
    pool.currentEpochId ≤ q.epochId ∧ q.lastUpdate = now := by
  rcases touch_cases h with same | new
  · exact ⟨same.epochId ▸ same.current, same.lastUpdate⟩
  · exact ⟨Nat.le_of_eq new.epochId.symm, new.lastUpdate⟩

/-- Touching again in the same instant changes nothing, whatever was credited in between. -/
theorem touch_credited (h : touch p pool now = .ok q) (entries : Nat) :
    touch { q with entries } pool now = .ok { q with entries } :=
  touch_again (touch_stamps h).1 (touch_stamps h).2 (touch_fits h).1 (touch_fits h).2

theorem credits_commute : Commutes (Credits pool now reward) (Credits pool now other) := by
  intro p q r first second
  obtain ⟨player, ht, entries, he, rfl⟩ := first
  obtain ⟨again, ht', total, hs, rfl⟩ := second
  obtain rfl := Except.ok.inj ((touch_credited ht entries).symm.trans ht')
  obtain ⟨room, rfl⟩ := addReward_iff.mp he
  change addReward (player.entries + reward) other = .ok total at hs
  obtain ⟨room', rfl⟩ := addReward_iff.mp hs
  have fits : addReward player.entries other = .ok (player.entries + other) :=
    addReward_iff.mpr ⟨fun some_ => Nat.lt_of_le_of_lt (by omega) (room' some_), rfl⟩
  have fits' : addReward (player.entries + other) reward =
      .ok (player.entries + reward + other) := by
    refine addReward_iff.mpr ⟨fun some_ => ?_, by omega⟩
    rcases Nat.eq_zero_or_pos other with none | more
    · rw [none]
      exact room some_
    · rw [Nat.add_right_comm]
      exact room' more
  exact ⟨_, ⟨player, ht, _, fits, rfl⟩, _, touch_credited ht _, _, fits', rfl⟩

/-- A touch neither reads nor writes what a Player is owed. -/
theorem touch_cleared (h : touch p pool now = .ok q) (pendingWithdraw : Nat) :
    touch { p with pendingWithdraw } pool now = .ok { q with pendingWithdraw } := by
  simp only [touch, touchSameEpoch, touchNewEpoch] at h ⊢
  split at h
  · next current =>
      rw [if_pos current]
      simp only [bind_eq_ok, pure_eq_ok] at h ⊢
      obtain ⟨weight, hw, seconds, hs, rfl⟩ := h
      exact ⟨weight, hw, seconds, hs, rfl⟩
  · next behind =>
      rw [if_neg behind]
      simp only [bind_eq_ok, pure_eq_ok] at h ⊢
      obtain ⟨frozen, hf, head, hh, rfl⟩ := h
      exact ⟨frozen, hf, head, hh, rfl⟩

theorem due_congr (holdings : p.SameHoldings q) :
    PayoutDue pool now token q ↔ PayoutDue pool now token p := by
  rw [PayoutDue, PayoutDue, holdings.owner, holdings.pendingWithdraw, holdings.requestedAt,
    holdings.pendingEpoch]

theorem credits_clears : Commutes (Credits pool now reward) (Clears pool now token amount) := by
  intro p q r first second
  obtain ⟨player, ht, entries, he, rfl⟩ := first
  obtain ⟨rfl, due, rfl⟩ := second
  have holdings := touch_sameHoldings ht
  refine ⟨_, ⟨holdings.pendingWithdraw.symm, (due_congr holdings).mp due, rfl⟩, _,
    touch_cleared ht 0, entries, he, rfl⟩

theorem clears_credits : Commutes (Clears pool now token amount) (Credits pool now reward) := by
  intro p q r first second
  obtain ⟨rfl, due, rfl⟩ := first
  obtain ⟨player, ht, entries, he, rfl⟩ := second
  have touched : touch p pool now = .ok { player with pendingWithdraw := p.pendingWithdraw } :=
    touch_cleared ht p.pendingWithdraw
  have holdings := touch_sameHoldings touched
  have none : player.pendingWithdraw = 0 := (touch_sameHoldings ht).pendingWithdraw
  refine ⟨_, ⟨_, touched, entries, he, rfl⟩, rfl, (due_congr holdings).mpr due, ?_⟩
  rw [← none]

end Players

/-! What an errand reads of the Pool, of a Round and of a Position no errand writes. -/

section Frames
variable {w w' : World} {roundId other : Nat} {owner holder : Pubkey} {pool : Pool} {now : Int}
  {reward amount pending : Nat} {token : TokenAccount} {round released : Round}
  {position : Position}

/-- A round as another settlement reads it. -/
def SameRound (r s : Round) : Prop := s.status = r.status ∧
  ∀ (pool : Pool) (position : Position),
    positionReward pool s position = positionReward pool r position

theorem sameRound_refl (r : Round) : SameRound r r := ⟨rfl, fun _ _ => rfl⟩

theorem Releases.sameRound (h : Releases round released) : SameRound round released := by
  obtain ⟨-, rfl⟩ := h
  exact ⟨rfl, fun _ _ => rfl⟩

variable {rounds rounds' : Finmap fun _ : Nat => Round}

theorem round_before (h : Cell roundId Releases rounds rounds')
    (hr : rounds'.lookup other = some released) :
    ∃ round, rounds.lookup other = some round ∧ SameRound round released := by
  by_cases same : other = roundId
  · subst same
    obtain ⟨before, after, hb, release, rfl⟩ := h
    rw [Finmap.lookup_insert] at hr
    obtain rfl := Option.some.inj hr
    exact ⟨before, hb, release.sameRound⟩
  · exact ⟨released, (h.lookup_ne same).symm.trans hr, sameRound_refl _⟩

theorem round_after (h : Cell roundId Releases rounds rounds')
    (hr : rounds.lookup other = some round) :
    ∃ released, rounds'.lookup other = some released ∧ SameRound round released := by
  by_cases same : other = roundId
  · subst same
    obtain ⟨before, after, hb, release, rfl⟩ := h
    obtain rfl := Option.some.inj (hb.symm.trans hr)
    exact ⟨after, Finmap.lookup_insert _, release.sameRound⟩
  · exact ⟨round, (h.lookup_ne same).trans hr, sameRound_refl _⟩

theorem drop_apart {positions positions' : Finmap fun _ : Nat × Pubkey => Position}
    {key key' : Nat × Pubkey} (h : Drop key positions positions')
    (hx : positions'.lookup key' = some position) : key' ≠ key := by
  intro same
  subst same
  obtain ⟨-, rfl⟩ := h
  rw [Finmap.lookup_erase] at hx
  cases hx

theorem releases_commute : Commutes Releases Releases := fun _ b _ first second =>
  ⟨b, first, second⟩

end Frames

section Commute
variable {roundId other : Nat} {owner holder : Pubkey} {token token' : TokenAccount}

theorem settled_settled : Commutes (Settled roundId owner) (Settled other holder) := by
  intro w w₁ w₂ first second
  obtain ⟨players₁, rounds₁, positions₁, hw⟩ : ∃ players rounds positions,
      w₁ = { w with players, rounds, positions } := ⟨_, _, _, first.rest⟩
  obtain ⟨players₂, rounds₂, positions₂, hw'⟩ : ∃ players rounds positions,
      w₂ = { w₁ with players, rounds, positions } := ⟨_, _, _, second.rest⟩
  subst hw hw'
  obtain ⟨round, position, reward, hr, finished, hx, hreward, credit⟩ := first.reads
  obtain ⟨round', position', reward', hr', finished', hx', hreward', credit'⟩ := second.reads
  obtain ⟨rounds, release', release⟩ := cell_swap releases_commute first.round second.round
  obtain ⟨positions, drop', drop⟩ := drop_commutes first.position second.position
  obtain ⟨players, credited', credited⟩ := cell_swap credits_commute credit credit'
  obtain ⟨before, hb, same⟩ := round_before first.round hr'
  obtain ⟨after, ha, same'⟩ := round_after release' hr
  have apart := drop_apart first.position hx'
  refine ⟨{ w with players, rounds, positions },
    ⟨⟨before, position', reward', hb, same.1 ▸ finished', ?_, ?_, credited'⟩, release', drop', rfl⟩,
    ⟨after, position, reward, ha, same'.1.symm ▸ finished, ?_, ?_, credited⟩, release, drop, rfl⟩
  · exact (first.position.lookup_ne apart).symm.trans hx'
  · exact (same.2 _ _).symm.trans hreward'
  · exact (drop'.lookup_ne apart.symm).trans hx
  · exact (same'.2 _ _).trans hreward

theorem settled_paid : Commutes (Settled roundId owner) (Paid holder token) := by
  intro w w₁ w₂ first second
  obtain ⟨players₁, rounds, positions, hw⟩ : ∃ players rounds positions,
      w₁ = { w with players, rounds, positions } := ⟨_, _, _, first.rest⟩
  subst hw
  obtain ⟨round, position, reward, hr, finished, hx, hreward, credit⟩ := first.reads
  obtain ⟨amount, vault, pending, clear, rest⟩ := second.amount
  obtain ⟨players, cleared, credited⟩ := cell_swap credits_clears credit clear
  refine ⟨{ w with
      pool := { w.pool with pendingWithdrawals := w.pool.pendingWithdrawals - amount }
      players
      principalVault := w.principalVault - amount },
    ⟨amount, vault, pending, cleared, rfl⟩, ?_⟩
  rw [rest]
  exact ⟨⟨round, position, reward, hr, finished, hx, hreward, credited⟩, first.round,
    first.position, rfl⟩

theorem paid_settled : Commutes (Paid holder token) (Settled roundId owner) := by
  intro w w₁ w₂ first second
  obtain ⟨amount, vault, pending, clear, rest⟩ := first.amount
  obtain ⟨players₁, hw⟩ : ∃ players, w₁ = { w with
      pool := { w.pool with pendingWithdrawals := w.pool.pendingWithdrawals - amount }
      players
      principalVault := w.principalVault - amount } := ⟨_, rest⟩
  subst hw
  obtain ⟨players₂, rounds, positions, hw⟩ : ∃ players rounds positions, w₂ = { w with
      pool := { w.pool with pendingWithdrawals := w.pool.pendingWithdrawals - amount }
      players, rounds, positions
      principalVault := w.principalVault - amount } := ⟨_, _, _, second.rest⟩
  subst hw
  obtain ⟨round, position, reward, hr, finished, hx, hreward, credit⟩ := second.reads
  obtain ⟨players, credited, cleared⟩ := cell_swap clears_credits clear credit
  exact ⟨{ w with players, rounds, positions },
    ⟨⟨round, position, reward, hr, finished, hx, hreward, credited⟩, second.round,
      second.position, rfl⟩, amount, vault, pending, cleared, rfl⟩

theorem paid_paid : Commutes (Paid owner token) (Paid holder token') := by
  intro w w₁ w₂ first second
  obtain ⟨amount, vault, pending, clear, rest⟩ := first.amount
  obtain ⟨amount', vault', pending', clear', rest'⟩ := second.amount
  obtain ⟨players₁, hw⟩ : ∃ players, w₁ = { w with
      pool := { w.pool with pendingWithdrawals := w.pool.pendingWithdrawals - amount }
      players
      principalVault := w.principalVault - amount } := ⟨_, rest⟩
  subst hw
  by_cases same : owner = holder
  · subst same
    obtain ⟨account, cleared, ha, ⟨-, -, rfl⟩, rfl⟩ := clear
    obtain ⟨account', cleared', ha', ⟨-, ⟨-, some_, -⟩, -⟩, -⟩ := clear'
    rw [Finmap.lookup_insert] at ha'
    obtain rfl := Option.some.inj ha'
    cases some_
  · obtain ⟨players, cleared', cleared⟩ := cell_commutes_ne same clear clear'
    change amount' ≤ w.principalVault - amount at vault'
    change amount' ≤ w.pool.pendingWithdrawals - amount at pending'
    have left : w.principalVault - amount - amount' = w.principalVault - amount' - amount := by
      omega
    have owed : w.pool.pendingWithdrawals - amount - amount' =
        w.pool.pendingWithdrawals - amount' - amount := by omega
    refine ⟨{ w with
        pool := { w.pool with pendingWithdrawals := w.pool.pendingWithdrawals - amount' }
        players
        principalVault := w.principalVault - amount' },
      ⟨amount', by omega, by omega, cleared', rfl⟩, amount, ?_, ?_, ?_, ?_⟩
    · change amount ≤ w.principalVault - amount'
      omega
    · change amount ≤ w.pool.pendingWithdrawals - amount'
      omega
    · exact cleared
    · rw [rest', left, owed]

theorem errands_commute (first second : Errand) : Commutes first.Done second.Done := by
  cases first with
  | settle =>
      cases second with
      | settle => exact settled_settled
      | pay => exact settled_paid
  | pay =>
      cases second with
      | settle => exact paid_settled
      | pay => exact paid_paid

end Commute

section Orders
variable {w w' v : World} {errand : Errand} {errands errands' : List Errand}

/-- No errand reads the log. -/
theorem Errand.Done.withLog (h : errand.Done w v) (log : List Event) :
    errand.Done { w with log } { v with log } := by
  cases errand with
  | settle roundId owner =>
      have settled : Settled roundId owner w v := h
      obtain ⟨players, rounds, positions, hv⟩ : ∃ players rounds positions,
          v = { w with players, rounds, positions } := ⟨_, _, _, settled.rest⟩
      subst hv
      exact ⟨settled.reads, settled.round, settled.position, rfl⟩
  | pay owner token =>
      have paid : Paid owner token w v := h
      obtain ⟨amount, vault, pending, clear, rest⟩ := paid.amount
      obtain ⟨players, hv⟩ : ∃ players, v = { w with
          pool := { w.pool with pendingWithdrawals := w.pool.pendingWithdrawals - amount }
          players
          principalVault := w.principalVault - amount } := ⟨_, rest⟩
      subst hv
      exact ⟨amount, vault, pending, clear, rfl⟩

theorem path_withLog (path : Path Errand.Done errands w v) (log : List Event) :
    Path Errand.Done errands { w with log } { v with log } := by
  induction path with
  | nil => exact .nil
  | cons done _ ih => exact .cons (Errand.Done.withLog done log) ih

theorem path_log (path : Path Errand.Done errands w v) : v.log = w.log := by
  induction path with
  | nil => rfl
  | cons done _ ih =>
      obtain ⟨_, -, rfl⟩ := Errand.done_iff.mp done
      exact ih

theorem runErrands_cons : runErrands (errand :: errands) w = .ok w' ↔
    ∃ v, errand.run w = .ok v ∧ runErrands errands v = .ok w' := by
  rw [runErrands, List.foldlM_cons, bind_eq_ok]
  rfl

theorem path_of_run (h : runErrands errands w = .ok w') :
    Path Errand.Done errands w { w' with log := w.log } := by
  induction errands generalizing w with
  | nil =>
      obtain rfl := Except.ok.inj h
      exact .nil
  | cons errand errands ih =>
      obtain ⟨v, first, rest⟩ := runErrands_cons.mp h
      exact .cons (Errand.done_iff.mpr ⟨v, first, rfl⟩) (path_withLog (ih rest) w.log)

theorem run_of_path (path : Path Errand.Done errands w v) :
    ∃ w', runErrands errands w = .ok w' ∧ v = { w' with log := w.log } := by
  induction errands generalizing w v with
  | nil =>
      cases path with
      | nil => exact ⟨w, rfl, rfl⟩
  | cons errand errands ih =>
      cases path with
      | cons done rest =>
          obtain ⟨t, first, rfl⟩ := Errand.done_iff.mp done
          obtain ⟨w', later, same⟩ := ih (path_withLog rest t.log)
          refine ⟨w', runErrands_cons.mpr ⟨t, first, later⟩, ?_⟩
          have books := congrArg (fun x : World => { x with log := w.log }) same
          have kept : { v with log := w.log } = v := (path_log rest) ▸ rfl
          exact kept.symm.trans books

/-- A batch of settlements and payouts that goes through in one order goes through in every order,
and leaves the same books. -/
theorem errands_any_order (order : errands.Perm errands') (h : runErrands errands w = .ok w') :
    ∃ v, runErrands errands' w = .ok v ∧ w'.SameBooks v := by
  obtain ⟨v, run, same⟩ := run_of_path ((path_of_run h).perm errands_commute order)
  have books : w' = { v with log := w'.log } :=
    congrArg (fun x : World => { x with log := w'.log }) same
  exact ⟨v, run, books.symm⟩

end Orders

/-- Two settlements of a round and a payout to one of the two Players, backwards. -/
theorem errands_any_order_backwards : ∃ w w' v : World,
    runErrands [.settle 1 ⟨3⟩, .settle 1 ⟨4⟩, .pay ⟨3⟩ (Demo.wallet (Demo.signer 3))] w = .ok w' ∧
      runErrands [.pay ⟨3⟩ (Demo.wallet (Demo.signer 3)), .settle 1 ⟨4⟩, .settle 1 ⟨3⟩] w = .ok v ∧
        w'.SameBooks v := by
  let player := Demo.signer 3
  let rival := Demo.signer 4
  let errands : List Errand := [.settle 1 ⟨3⟩, .settle 1 ⟨4⟩, .pay ⟨3⟩ (Demo.wallet player)]
  obtain ⟨⟨history, w⟩, hrun, hcheck⟩ := exists_of_any
    (x := Demo.script [.setFeaturePause Demo.admin .game false,
      .deposit player (Demo.wallet player) 100, .deposit rival (Demo.wallet rival) 100,
      .createRound Demo.operator 1000 1010, .buyPosition player 1 3 5, .buyPosition rival 1 1 4,
      .requestWithdraw player 20, .wait 1008, .requestRoundRandomness 1 ⟨9⟩ (List.replicate 32 0),
      .settleRound 1 ⟨⟨9⟩, List.replicate 8 0 ++ [1] ++ List.replicate 128 0⟩, .wait 900000])
    (p := fun r => (runErrands errands r.2).toOption.isSome) (by decide +kernel)
  obtain ⟨w', done⟩ := Option.isSome_iff_exists.mp hcheck
  have forwards := ok_of_toOption done
  have order : errands.Perm [.pay ⟨3⟩ (Demo.wallet player), .settle 1 ⟨4⟩, .settle 1 ⟨3⟩] :=
    (List.reverse_perm errands).symm
  obtain ⟨v, backwards, same⟩ := errands_any_order order forwards
  exact ⟨w, w', v, forwards, backwards, same⟩

end HexVault
