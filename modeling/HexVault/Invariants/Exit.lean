import HexVault.Invariants.Books
import HexVault.Invariants.Gates
import HexVault.Invariants.Lifetime
import HexVault.Invariants.Shutdown
import HexVault.Invariants.Stamps
import HexVault.Invariants.Widths
import HexVault.Program.Accepts

/-!
The two steps of a withdrawal, in any state of the pool. With its balances within
their bounds a touch cannot fail, and then nothing refuses a request for Principal
a Player holds, nor the payment of a matured one the vault can cover.
-/

namespace HexVault

open Fallible Finmap

/-- Every Player's last request was made at or before now. -/
def RequestsStamped (now : Int) (players : Finmap fun _ : Pubkey => Player) : Prop :=
  ∀ owner p, players.lookup owner = some p → Stamp now p.requestedAt

section Stamped
variable {rt : Runtime} {w w' : World} {a : Action} {owner : Pubkey} {now : Int}
  {players : Finmap fun _ : Pubkey => Player} {p q r : Player}

theorem RequestsStamped.insert (hi : RequestsStamped now players)
    (h : Stamp now r.requestedAt) : RequestsStamped now (players.insert owner r) := by
  intro other q hq
  cases lookup_insert_cases hq with
  | inl same => exact same.2 ▸ h
  | inr rest => exact hi other q rest.2

theorem RequestsStamped.rewrite (hi : RequestsStamped now players)
    (h : players.lookup owner = some p) (touched : SameRequest p q) (written : SameRequest q r) :
    RequestsStamped now (players.insert owner r) :=
  hi.insert (written.requestedAt.trans touched.requestedAt ▸ hi _ _ h)

theorem effect_requestsStamped (started : 0 ≤ w.clock) (h : Effect rt w a w')
    (hi : RequestsStamped w.clock w.players) : RequestsStamped w'.clock w'.players := by
  cases h with
  | waited hle => exact fun owner p hp => (hi owner p hp).later hle
  | @deposited signer token amount q es ht =>
      have touched := (touch_sameHoldings ht).sameRequest
      have fresh := initIfFresh_sameRequest ((w.players.lookup signer.key).getD Player.zeroed)
        signer.key w.pool w.clock
      have old : Stamp w.clock ((w.players.lookup signer.key).getD Player.zeroed).requestedAt := by
        cases hp : w.players.lookup signer.key with
        | none => exact ⟨Int.le_refl _, started⟩
        | some p => exact hi _ _ hp
      refine RequestsStamped.insert hi ?_
      rw [← fresh.requestedAt, ← touched.requestedAt] at old
      exact old
  | withdrawRequested => exact hi.insert ⟨started, Int.le_refl _⟩
  | withdrawn ha => exact hi.rewrite ha ⟨rfl, rfl⟩ ⟨rfl, rfl⟩
  | emergencyWithdrawn ha ht =>
      exact hi.rewrite ha (touch_sameHoldings ht).sameRequest ⟨rfl, rfl⟩
  | ticketsBought ha ht _ _ _ hc =>
      exact hi.rewrite ha (touch_sameHoldings ht).sameRequest hc.sameRequest
  | ticketsGranted ha ht hc =>
      exact hi.rewrite ha (touch_sameHoldings ht).sameRequest hc.sameRequest
  | positionBought ha _ _ ht =>
      exact hi.rewrite ha (touch_sameHoldings ht).sameRequest ⟨rfl, rfl⟩
  | roundSettled _ ha _ _ hs => exact hi.rewrite ha hs.sameHoldings.sameRequest ⟨rfl, rfl⟩
  | positionSettled _ ha _ ht =>
      exact hi.rewrite ha (touch_sameHoldings ht).sameRequest ⟨rfl, rfl⟩
  | registeredNothing _ ha _ _ _ _ _ hy =>
      exact hi.rewrite ha hy.sameHoldings.sameRequest ⟨rfl, rfl⟩
  | registered _ ha _ _ _ _ _ _ hy =>
      exact hi.rewrite ha hy.sameHoldings.sameRequest ⟨rfl, rfl⟩
  | paidPlayer _ ha _ _ _ _ _ ht =>
      exact hi.rewrite ha (touch_sameHoldings ht).sameRequest ⟨rfl, rfl⟩
  | _ => exact hi

theorem reachable_requestsStamped (h : Reachable rt w) : RequestsStamped w.clock w.players := by
  refine h.invariant (P := fun w => RequestsStamped w.clock w.players) ?_ ?_
  · intro start created owner p hp
    have started := (created_calendar created).clockRange.1
    obtain ⟨-, rfl⟩ := created_player created hp
    exact ⟨Int.le_refl _, started⟩
  · intro w a w' before hi h
    exact effect_requestsStamped (reachable_calendar before).clockRange.1 (step_effect h) hi

end Stamped

/-- A request may be paid: the pool was shut down, its epoch is over, or its
deadline has passed. -/
def Matured (w : World) (p : Player) : Prop :=
  w.pool.shutdown = true ∨ p.pendingEpoch < w.pool.currentEpochId ∨
    p.requestedAt + w.pool.epochSeconds < w.clock

/-- Both steps of a withdrawal are refused for the balance alone. -/
structure ExitOpen (rt : Runtime) (w : World) : Prop where
  request : ∀ owner amount p, w.players.lookup owner.key = some p →
    ((∃ w', Step rt w (.requestWithdraw owner amount) w') ↔ 0 < amount ∧ amount ≤ p.principal)
  payment : ∀ owner token p, w.players.lookup owner = some p → 0 < p.pendingWithdraw →
    Matured w p → token.mint = w.pool.acceptedMint ∧ token.authority = p.owner →
    ((∃ w', Step rt w (.processWithdraw owner token) w') ↔ p.pendingWithdraw ≤ w.principalVault)

section Exit
variable {rt : Runtime} {history : History} {w : World} {owner : Pubkey} {p : Player}

theorem touch_bounded (run : Run rt history w) (bounded : Bounded rt history w)
    (few : ∀ owner id, buysIn owner id history < 2 ^ 32) (hp : w.players.lookup owner = some p) :
    Returns (touch p w.pool w.clock) := by
  have sized := run_sized run bounded
  have updated := (reachable_accounts run.reachable).updated hp
  have clock := bounded.now.clock
  exact touch_returns (sized.fits owner p hp) (sized.entries owner p hp)
    (bounded_small run bounded owner p hp) ⟨updated.1, Int.lt_of_le_of_lt updated.2 clock.2⟩
    (few owner p.epochId) (reachable_spans run.reachable bounded.now) clock.2

theorem requestWithdraw_returns {signer : Signer} {amount : Nat}
    (owed : p.principal + p.pendingWithdraw ≤ w.pool.totalPrincipal + w.pool.pendingWithdrawals)
    (fits : w.pool.totalPrincipal + w.pool.pendingWithdrawals < u64Limit)
    (principal : p.principal ≤ w.pool.totalPrincipal)
    (hp : w.players.lookup signer.key = some p) (touched : Returns (touch p w.pool w.clock))
    (positive : 0 < amount) (held : amount ≤ p.principal) :
    Returns (requestWithdraw signer amount w) := by
  obtain ⟨q, ht⟩ := touched
  have same := touch_sameHoldings ht
  have pending : q.pendingWithdraw + amount < u64Limit := by
    rw [same.pendingWithdraw]
    omega
  rw [← same.principal] at held
  refine .bind (World.player_eq_ok.mpr hp) (.bind ht (.guard positive (.guard held ?_)))
  refine .bind (subU_eq_ok.mpr ⟨held, rfl⟩) ?_
  rw [same.principal] at held
  refine .bind (subU_eq_ok.mpr ⟨Nat.le_trans held principal, rfl⟩) ?_
  refine .bind (addU64_eq_ok.mpr ⟨pending, rfl⟩) ?_
  exact .bind (addU64_eq_ok.mpr ⟨by omega, rfl⟩) (.pure _)

theorem processWithdraw_returns {token : TokenAccount} (hp : w.players.lookup owner = some p)
    (target : token.mint = w.pool.acceptedMint ∧ token.authority = p.owner)
    (pending : 0 < p.pendingWithdraw) (matured : Matured w p)
    (deadline : p.requestedAt + w.pool.epochSeconds < i64Limit) (stamped : 0 ≤ p.requestedAt)
    (period : 0 ≤ w.pool.epochSeconds) (total : p.pendingWithdraw ≤ w.pool.pendingWithdrawals)
    (covered : p.pendingWithdraw ≤ w.principalVault) :
    Returns (processWithdraw owner token w) := by
  have hpos : (0 : Int) < i64Limit := by decide
  refine .bind (World.player_eq_ok.mpr hp) (.check (checkDestination_eq_ok.mpr target) ?_)
  refine .guard pending (.bind (addI64_eq_ok.mpr ⟨⟨by omega, deadline⟩, rfl⟩) ?_)
  refine .guard matured (.guard covered ?_)
  refine .bind (transferOut_eq_ok.mpr ⟨covered, rfl⟩) ?_
  exact .bind (subU_eq_ok.mpr ⟨total, rfl⟩) (.pure _)

theorem exit_open (run : Run rt history w) (bounded : Bounded rt history w)
    (few : ∀ owner id, buysIn owner id history < 2 ^ 32) : ExitOpen rt w := by
  have ledger := run_ledger run
  refine ⟨?_, ?_⟩
  · intro signer amount p hp
    have within := bounded_principal run bounded _ _ hp
    constructor
    · intro done
      obtain ⟨w', h⟩ := done
      have h : requestWithdraw signer amount w = .ok w' := h
      simp only [requestWithdraw, bind_eq_ok, World.player_eq_ok, ensure_eq_ok,
        exists_const] at h
      obtain ⟨account, ha, q, ht, positive, held, -⟩ := h
      obtain rfl := Option.some.inj (hp.symm.trans ha)
      rw [(touch_sameHoldings ht).principal] at held
      exact ⟨positive, held⟩
    · intro asked
      exact requestWithdraw_returns within.1 within.2 (ledger.le hp).1 hp
        (touch_bounded run bounded few hp) asked.1 asked.2
  · intro owner token p hp pending matured target
    constructor
    · intro done
      obtain ⟨w', h⟩ := done
      cases step_effect h with
      | reconfigured ha => cases ha
      | withdrawn ha covered =>
          obtain rfl := Option.some.inj (hp.symm.trans ha)
          exact covered
    · intro covered
      have stamped := reachable_requestsStamped run.reachable owner p hp
      have clock := bounded.now.clock
      have period := bounded.now.durations.epochSeconds
      have wide : horizon + horizon ≤ i64Limit := by decide
      have deadline : p.requestedAt + w.pool.epochSeconds < i64Limit := by
        obtain ⟨-, late⟩ := stamped
        obtain ⟨-, now⟩ := clock
        obtain ⟨-, long⟩ := period
        omega
      exact processWithdraw_returns hp target pending matured deadline stamped.1 period.1
        (ledger.le hp).2 covered

end Exit

/-- A request of 40 out of 100, and the same Player on a round in the meantime. -/
theorem exit_open_staked : ∃ history w p, Run Demo.runtime history w ∧
    w.players.lookup ⟨3⟩ = some p ∧ p.principal = 60 ∧ p.pendingWithdraw = 40 ∧
    p.entries = 50 ∧ ExitOpen Demo.runtime w := by
  let player := Demo.signer 3
  obtain ⟨⟨history, w⟩, hrun, hcheck⟩ := exists_of_any
    (x := Demo.script [.setFeaturePause Demo.admin .game false,
      .deposit player (Demo.wallet player) 100, .createRound Demo.operator 1000 1010,
      .buyPosition player 1 1 10, .requestWithdraw player 40])
    (p := fun s => s.1.all (fun x => decide x.1.InTime) && decide s.2.InTime &&
      income Demo.runtime s.1 = 100 && s.1.length = 5 &&
      (s.2.players.lookup ⟨3⟩).any fun p =>
        p.principal = 60 && p.pendingWithdraw = 40 && p.entries = 50) (by decide +kernel)
  simp only [Bool.and_eq_true, List.all_eq_true, decide_eq_true_eq, Option.any_eq_true] at hcheck
  obtain ⟨⟨⟨⟨states, now⟩, total⟩, length⟩, p, hp, ⟨principal, pending⟩, entries⟩ := hcheck
  have run := Demo.script_run hrun
  have bounded : Bounded Demo.runtime history w := ⟨by rw [total]; decide, states, now⟩
  refine ⟨history, w, p, run, hp, principal, pending, entries, exit_open run bounded ?_⟩
  intro owner id
  have most : buysIn owner id history ≤ history.length := List.countP_le_length
  exact Nat.lt_of_le_of_lt most (by rw [length]; decide)

/-- A second touch in the same instant changes nothing. -/
theorem touch_again {p : Player} {pool : Pool} {now : Int} (current : pool.currentEpochId ≤ p.epochId)
    (updated : p.lastUpdate = now) (weight : p.weightAcc < u128Limit)
    (seconds : p.principalAcc < u128Limit) : touch p pool now = .ok p := by
  subst updated
  have still : elapsed p.lastUpdate (accrueUntil pool p.lastUpdate) = 0 :=
    elapsed_eq_zero accrueUntil_le
  rw [touch, if_pos current, touchSameEpoch, still, accrue_eq_ok.mpr ⟨weight, rfl⟩, ok_bind,
    accrue_eq_ok.mpr ⟨seconds, rfl⟩, ok_bind, Nat.mul_zero, Nat.mul_zero]
  rfl

/-! A whole balance staked again and again in one second: the admin moves
`close_buffer` so that each round closes in the second it was bought in, and every
round pays the Weight up to its end two billion seconds later. -/

namespace Demo

def farEnd : Int := 2 ^ 31 - 1

def wholeStake : Nat := 2 ^ 64 - 1

def farBuffer : Int := farEnd - 1000

/-- What one round adds to the buyer's Weight. -/
@[irreducible] def farCredit : Nat := wholeStake * (farEnd - 1000).toNat

theorem farCredit_eq : farCredit = wholeStake * (farEnd - 1000).toNat := by
  rw [farCredit]

def farPool (next : Nat) (buffer : Int) (opened : Nat) : Pool :=
  { newPool params accounts with
    epochSeconds := 2000
    roundSeconds := farEnd
    closeBuffer := buffer
    gamePaused := false
    totalPrincipal := wholeStake
    nextRoundId := next
    openRoundId := opened }

def farPlayer (weight held : Nat) : Player :=
  { Player.zeroed with
    owner := ⟨3⟩
    principal := wholeStake
    entries := held
    weightAcc := weight
    lastUpdate := 1000 }

structure Far (history : History) (next weight held : Nat) (buffer : Int) (opened : Nat)
    (w : World) : Prop where
  run : Run runtime history w
  states : ∀ x ∈ history, x.1.InTime
  income : income runtime history = wholeStake
  pool : w.pool = farPool next buffer opened
  player : w.players.lookup ⟨3⟩ = some (farPlayer weight held)
  house : ∃ house, w.players.lookup ⟨2⟩ = some house
  clock : w.clock = 1000
  ends : ∀ id r, w.rounds.lookup id = some r → r.endsAt = farEnd

/-- A round with the whole balance on its first tile. -/
structure AllIn (id : Nat) (status : RoundStatus) (w : World) : Prop where
  round : ∃ r, w.rounds.lookup id = some r ∧ r.status = status ∧ r.epochId = 0 ∧
    r.tileTotals ⟨0, by decide⟩ = wholeStake ∧ r.pot = wholeStake ∧ r.openPositions = 1 ∧
    (status = .settled → r.houseCut = 0 ∧ r.winningTile = 0)
  position : ∃ x, w.positions.lookup (id, ⟨3⟩) = some x ∧ x.tiles = 1 ∧
    x.stakePerTile = wholeStake

section Far
variable {history : History} {w w' : World} {next weight held opened : Nat} {buffer : Int}
  {a : Action}

theorem touch_far (fits : weight < u128Limit) :
    touch (farPlayer weight held) (farPool next buffer opened) 1000 =
      .ok (farPlayer weight held) :=
  touch_again (Nat.le_refl 0) rfl fits (show 0 < u128Limit by decide)

theorem Far.inTime (far : Far history next weight held buffer opened w)
    (within : Within buffer) : w.InTime where
  clock := by
    rw [far.clock]
    decide
  durations := by
    rw [far.pool]
    exact ⟨show Within 2000 by decide, show Within farEnd by decide, within,
      show Within 60 by decide, show Within 0 by decide, show Within 600 by decide⟩
  rounds := by
    intro id r hr
    rw [far.ends id r hr]
    decide
  epochs := by
    intro id e he
    have keyed := (reachable_calendar far.run.reachable).keyed he
    rw [far.pool] at keyed
    exact absurd (Nat.le_trans keyed.2.1 keyed.2.2) (Nat.not_succ_le_zero 0)

theorem Far.step {next' weight' held' opened' : Nat} {buffer' : Int}
    (far : Far history next weight held buffer opened w) (within : Within buffer)
    (h : Step runtime w a w') (nothing : gained runtime (w, a) = 0)
    (pool : w'.pool = farPool next' buffer' opened')
    (player : w'.players.lookup ⟨3⟩ = some (farPlayer weight' held'))
    (house : ∃ house, w'.players.lookup ⟨2⟩ = some house) (clock : w'.clock = w.clock)
    (ends : ∀ id r, w'.rounds.lookup id = some r → r.endsAt = farEnd) :
    Far ((w, a) :: history) next' weight' held' buffer' opened' w' where
  run := far.run.next h
  states := by
    intro x hx
    cases List.mem_cons.mp hx with
    | inl new => exact new ▸ far.inTime within
    | inr old => exact far.states x old
  income := by
    rw [income_next, nothing]
    exact far.income
  pool := pool
  player := player
  house := house
  clock := clock.trans far.clock
  ends := ends

/-- A step that leaves the two Players as they are. -/
theorem Far.keep {next' opened' : Nat} {buffer' : Int}
    (far : Far history next weight held buffer opened w) (within : Within buffer)
    (h : Step runtime w a w') (nothing : gained runtime (w, a) = 0)
    (pool : w'.pool = farPool next' buffer' opened') (players : w'.players = w.players)
    (clock : w'.clock = w.clock)
    (ends : ∀ id r, w'.rounds.lookup id = some r → r.endsAt = farEnd) :
    Far ((w, a) :: history) next' weight held buffer' opened' w' :=
  far.step within h nothing pool (players ▸ far.player) (players ▸ far.house) clock ends

theorem Far.written {id : Nat} {r : Round} (far : Far history next weight held buffer opened w)
    (h : r.endsAt = farEnd) :
    ∀ other x, (w.rounds.insert id r).lookup other = some x → x.endsAt = farEnd := by
  intro other x hx
  cases lookup_insert_cases hx with
  | inl same => exact same.2 ▸ h
  | inr rest => exact far.ends other x rest.2

theorem far_create (far : Far history next weight wholeStake 2 0 w)
    (room : next + 1 < u64Limit) : ∃ history' w',
      Far history' (next + 1) weight wholeStake 2 next w' ∧
        w'.rounds.lookup next = some (newRound next 0 0 farEnd 0) := by
  have pool := far.pool
  have accepted : Returns (createRound operator 0 farEnd w) := by
    refine createRound_returns.mpr ⟨?_, nextRound_free far.run.reachable, ?_⟩
    · rw [pool]
      rfl
    · rw [pool]
      exact ⟨rfl, rfl, rfl, rfl, rfl, checkRoundEnd_returns.mpr (.inl (by rw [pool]; rfl)), room⟩
  obtain ⟨w', h⟩ := accepted
  have step : Step runtime w (.createRound operator 0 farEnd) w' :=
    createRound_step.mpr ⟨by decide, h⟩
  cases step_effect step with
  | reconfigured ha => exact nomatch ha
  | roundCreated =>
      refine ⟨_, _, far.keep (by decide) step rfl ?_ rfl rfl (far.written rfl), ?_⟩
      · simp only [World.emit_pool, pool]
        rfl
      · rw [World.emit_rounds, pool]
        exact lookup_insert _

theorem preCredit_far (fits : weight + farCredit < u128Limit) :
    preCredit (farPlayer weight held) wholeStake farEnd 1000 =
      .ok (farPlayer (weight + farCredit) held) := by
  have remaining : subI64 farEnd 1000 = .ok (farEnd - 1000) :=
    subI64_eq_ok.mpr ⟨by decide, rfl⟩
  have ahead : ensure (0 ≤ farEnd - 1000) .arithmeticOverflow = .ok () :=
    ensure_eq_ok.mpr (by decide)
  have credited : mulU128 wholeStake (farEnd - 1000).toNat = .ok farCredit :=
    mulU128_eq_ok.mpr ⟨by decide, farCredit_eq⟩
  have summed : addU128 (farPlayer weight held).weightAcc farCredit = .ok (weight + farCredit) :=
    addU128_eq_ok.mpr ⟨fits, rfl⟩
  rw [preCredit, remaining, ok_bind, ahead, ok_bind, credited, ok_bind, summed]
  rfl

theorem far_buy (far : Far history next weight wholeStake 2 opened w)
    (hr : w.rounds.lookup opened = some (newRound opened 0 0 farEnd 0))
    (fits : weight + farCredit < u128Limit) : ∃ history' w',
      Far history' next (weight + farCredit) 0 2 opened w' ∧ AllIn opened .open w' := by
  have pool := far.pool
  have clock := far.clock
  have absent : w.positions.lookup (opened, ⟨3⟩) = none :=
    (reachable_books far.run.reachable).none_of_zero hr rfl ⟨3⟩
  have ht : touch (farPlayer weight wholeStake) w.pool w.clock =
      .ok (farPlayer weight wholeStake) := by
    rw [pool, clock]
    exact touch_far (Nat.lt_of_le_of_lt (Nat.le_add_right _ _) fits)
  have accepted : Returns (buyPosition (signer 3) opened 1 wholeStake w) := by
    refine .bind (World.player_eq_ok.mpr far.player) (.bind (World.round_eq_ok.mpr hr) ?_)
    refine .guard absent (.bind ht ?_)
    rw [pool, clock]
    refine .guard rfl (.guard rfl (.guard rfl (.guard rfl (.guard rfl ?_))))
    refine .bind (a := farEnd - 2) rfl (.guard (by decide) ?_)
    refine .bind (a := 1) (by decide) (.guard (by decide) ?_)
    refine .bind (a := wholeStake) (by decide) (.guard (Nat.le_refl _) ?_)
    refine .bind (preCredit_far fits) ?_
    refine .bind (subU_eq_ok.mpr ⟨Nat.le_refl _, rfl⟩) ?_
    have added : Returns (addStakes 1 wholeStake (List.finRange TILE_COUNT)
        (newRound opened 0 0 farEnd 0)) :=
      addStakes_returns (List.nodup_finRange _)
        fun _ _ => show 0 + wholeStake < u64Limit by decide
    obtain ⟨staked, hadd⟩ := added
    have same := addStakes_eq_ok (List.nodup_finRange _) hadd
    refine .bind hadd ?_
    rw [same]
    refine .bind (addU64_eq_ok.mpr ⟨show 0 + wholeStake < u64Limit by decide, rfl⟩) ?_
    exact .bind (addU32_eq_ok.mpr ⟨show 0 + 1 < u32Limit by decide, rfl⟩) (.pure _)
  obtain ⟨w', h⟩ := accepted
  have step : Step runtime w (.buyPosition (signer 3) opened 1 wholeStake) w' := h
  cases step_effect step with
  | reconfigured ha => exact nomatch ha
  | positionBought ha hr' _ ht' =>
      obtain rfl := Option.some.inj (far.player.symm.trans ha)
      obtain rfl := Option.some.inj (hr.symm.trans hr')
      obtain rfl := Except.ok.inj (ht.symm.trans ht')
      have house := far.house
      have one : countOnes 1 = 1 := by decide
      have covered : tileIsCovered 1 (⟨0, by decide⟩ : Fin TILE_COUNT) = true := by decide
      refine ⟨_, _, far.step (by decide) step rfl pool ?_ ?_ rfl (far.written rfl),
        ⟨_, lookup_insert _, rfl, rfl, ?_, ?_, rfl, nofun⟩, _, lookup_insert _, rfl, rfl⟩
      · rw [World.emit_players, clock, one, Nat.mul_one]
        refine (lookup_insert _).trans (congrArg some ?_)
        show { farPlayer weight wholeStake with
          weightAcc := weight + wholeStake * (farEnd - 1000).toNat
          entries := wholeStake - wholeStake } = _
        rw [← farCredit_eq, Nat.sub_self]
        rfl
      · rw [World.emit_players]
        have hne : (⟨2⟩ : Pubkey) ≠ ⟨3⟩ := by decide
        exact (lookup_insert_of_ne _ hne).symm ▸ house
      · show 0 + (if tileIsCovered 1 (⟨0, by decide⟩ : Fin TILE_COUNT) then wholeStake else 0) = _
        rw [if_pos covered, Nat.zero_add]
      · show 0 + wholeStake * countOnes 1 = wholeStake
        rw [one, Nat.mul_one, Nat.zero_add]

theorem far_setBuffer {buffer' : Int} (far : Far history next weight held buffer opened w)
    (within : Within buffer) (either : buffer' = 2 ∨ buffer' = farBuffer) : ∃ history' w',
      Far history' next weight held buffer' opened w' ∧ w'.rounds = w.rounds ∧
        w'.positions = w.positions := by
  have pool := far.pool
  have accepted : setParams admin (setCloseBuffer buffer') w =
      .ok ({ w with pool := farPool next buffer' opened }.emit
        [.paramsSet (farPool next buffer' opened)]) := by
    rw [setParams, pool]
    cases either with
    | inl low =>
        subst low
        rfl
    | inr high =>
        subst high
        rfl
  have step : Step runtime w (.setParams admin (setCloseBuffer buffer')) _ := accepted
  exact ⟨_, _, far.keep within step rfl rfl rfl rfl far.ends, rfl, rfl⟩

theorem far_request (far : Far history next weight held farBuffer opened w)
    (all : AllIn opened .open w) : ∃ history' w',
      Far history' next weight held farBuffer opened w' ∧ AllIn opened .requested w' := by
  obtain ⟨r, hr, hopen, hid, htile, hpot, hone, -⟩ := all.round
  have ends := far.ends _ _ hr
  have accepted : Returns (requestRoundRandomness runtime opened ⟨9⟩ [] w) := by
    refine requestRoundRandomness_returns.mpr ⟨r, hr, hopen, 1000, ?_, ?_, rfl⟩
    · rw [ends, far.pool]
      rfl
    · rw [far.clock]
  obtain ⟨w', h⟩ := accepted
  have step : Step runtime w (.requestRoundRandomness opened ⟨9⟩ []) w' := h
  cases step_effect step with
  | reconfigured ha => exact nomatch ha
  | roundRequested hr' =>
      obtain rfl := Option.some.inj (hr.symm.trans hr')
      refine ⟨_, _, far.keep (by decide) step rfl far.pool rfl rfl (far.written ends), ?_⟩
      exact ⟨⟨_, lookup_insert _, rfl, hid, htile, hpot, hone, nofun⟩, all.position⟩

/-- Randomness that picks the first tile. -/
def firstTile : AccountInfo where
  key := ⟨9⟩
  data := List.replicate 8 0 ++ [1] ++ List.replicate 128 0

theorem firstTile_read (seed : Bytes) :
    readFulfilled runtime firstTile seed = .ok (List.replicate 64 0) := by
  have bound : firstTile.key = randomnessAddress runtime seed := rfl
  rw [readFulfilled_bound bound]
  decide +kernel

theorem far_settle (far : Far history next weight held farBuffer opened w)
    (all : AllIn opened .requested w) : ∃ history' w',
      Far history' next weight held farBuffer 0 w' ∧ AllIn opened .settled w' := by
  obtain ⟨r, hr, hs, hid, htile, hpot, hone, -⟩ := all.round
  obtain ⟨house, hhouse⟩ := far.house
  have ends := far.ends _ _ hr
  have pool := far.pool
  have first : unbiasedU64 runtime (List.replicate 64 0) TILE_COUNT = .ok 0 := by decide
  have total : r.tileTotal 0 = .ok wholeStake := htile ▸ rfl
  have whole : decide (wholeStake = 0) = false := by decide
  have hhouse' : w.players.lookup w.pool.house = some house := by
    rw [pool]
    exact hhouse
  have cut : houseCutOf false r.pot w.pool.houseCutBps = .ok 0 := by
    rw [hpot, pool]
    show houseCutOf false wholeStake 0 = .ok 0
    decide
  have credit : creditHouse w (decide (r.epochId = w.pool.currentEpochId)) false 0 house =
      .ok house := if_neg (by simp)
  have accepted : settleRound runtime opened firstTile w = .ok ({ w with
      pool := { w.pool with openRoundId := 0 }
      players := w.players.insert w.pool.house house
      rounds := w.rounds.insert opened { r with
        status := .settled, houseCut := 0, winningTile := 0 } }.emit
          [.roundSettled r.roundId 0 r.pot false 0]) := by
    simp only [settleRound, World.round_eq_ok.mpr hr, World.player_eq_ok.mpr hhouse',
      firstTile_read, first, total, whole, cut, credit, ok_bind, Bool.false_eq_true, if_false]
    rw [ensure_eq_ok (u := ()) |>.mpr hs]
    rfl
  have step : Step runtime w (.settleRound opened firstTile) _ := accepted
  have self : w.players.insert w.pool.house house = w.players := insert_lookup_self hhouse'
  refine ⟨_, _, far.keep (by decide) step rfl ?_ self rfl (far.written ends), ?_⟩
  · rw [World.emit_pool, pool]
    rfl
  · exact ⟨⟨_, lookup_insert _, rfl, hid, htile, hpot, hone, fun _ => ⟨rfl, rfl⟩⟩, all.position⟩

theorem far_collect (far : Far history next weight 0 farBuffer 0 w)
    (fits : weight < u128Limit) {id : Nat} (all : AllIn id .settled w) : ∃ history' w',
      Far history' next weight wholeStake farBuffer 0 w' := by
  obtain ⟨r, hr, hs, hid, htile, hpot, hone, hdone⟩ := all.round
  obtain ⟨hcut, hwin⟩ := hdone rfl
  obtain ⟨x, hx, htiles, hstake⟩ := all.position
  have ends := far.ends _ _ hr
  have pool := far.pool
  have ht : touch (farPlayer weight 0) w.pool w.clock = .ok (farPlayer weight 0) := by
    rw [pool, far.clock]
    exact touch_far fits
  have reward : positionReward w.pool r x = .ok wholeStake := by
    have current : r.epochId = w.pool.currentEpochId := by
      rw [hid, pool]
      rfl
    have covered : tileIsCovered x.tiles r.winningTile = true := by
      rw [htiles, hwin]
      decide
    have total : r.tileTotal r.winningTile = .ok wholeStake := by
      rw [hwin]
      exact htile ▸ rfl
    rw [positionReward, if_pos ⟨current, hs, covered⟩, total, ok_bind, hpot, hcut, hstake]
    decide
  have accepted : Returns (settlePosition id ⟨3⟩ w) :=
    settlePosition_returns.mpr ⟨r, hr, _, far.player, x, hx, _, ht, .inl hs, wholeStake, reward,
      ⟨wholeStake, show addReward 0 wholeStake = .ok wholeStake by decide⟩, Nat.le_of_eq hone.symm⟩
  obtain ⟨w', h⟩ := accepted
  have step : Step runtime w (.settlePosition id ⟨3⟩) w' := h
  cases step_effect step with
  | reconfigured ha => exact nomatch ha
  | positionSettled hr' ha hx' ht' _ hreward =>
      obtain rfl := Option.some.inj (hr.symm.trans hr')
      obtain rfl := Option.some.inj (hx.symm.trans hx')
      obtain rfl := Option.some.inj (far.player.symm.trans ha)
      obtain rfl := Except.ok.inj (ht.symm.trans ht')
      obtain rfl := Except.ok.inj (reward.symm.trans hreward)
      have house := far.house
      refine ⟨_, _, far.step (by decide) step rfl pool ?_ ?_ rfl (far.written ends)⟩
      · rw [World.emit_players]
        refine (lookup_insert _).trans (congrArg some ?_)
        show { farPlayer weight 0 with entries := 0 + wholeStake } = _
        rw [Nat.zero_add]
        rfl
      · rw [World.emit_players]
        have hne : (⟨2⟩ : Pubkey) ≠ ⟨3⟩ := by decide
        exact (lookup_insert_of_ne _ hne).symm ▸ house

/-- One round of the second. -/
theorem far_cycle (far : Far history next weight wholeStake 2 0 w)
    (room : next + 1 < u64Limit) (fits : weight + farCredit < u128Limit) :
    ∃ history' w', Far history' (next + 1) (weight + farCredit) wholeStake 2 0 w' := by
  obtain ⟨_, _, far, hr⟩ := far_create far room
  obtain ⟨_, _, far, all⟩ := far_buy far hr fits
  obtain ⟨_, u, far, rounds, positions⟩ := far_setBuffer far (by decide) (.inr rfl)
  have all : AllIn next .open u := ⟨rounds ▸ all.round, positions ▸ all.position⟩
  obtain ⟨_, _, far, all⟩ := far_request far all
  obtain ⟨_, _, far, all⟩ := far_settle far all
  obtain ⟨_, _, far⟩ := far_collect far fits all
  obtain ⟨_, _, far, -⟩ := far_setBuffer far (by decide) (.inl rfl)
  exact ⟨_, _, far⟩

theorem far_cycles (far : Far history 1 0 wholeStake 2 0 w) (n : Nat)
    (room : n + 1 < u64Limit) (fits : n * farCredit < u128Limit) :
    ∃ history' w', Far history' (n + 1) (n * farCredit) wholeStake 2 0 w' := by
  induction n with
  | zero => exact ⟨history, w, by rw [Nat.zero_mul]; exact far⟩
  | succ n ih =>
      rw [Nat.succ_mul] at fits ⊢
      obtain ⟨_, _, far⟩ := ih (by omega) (Nat.lt_of_le_of_lt (Nat.le_add_right _ _) fits)
      exact far_cycle far room fits

theorem far_start : ∃ history w, Far history 1 0 wholeStake 2 0 w := by
  let token := { wallet (signer 3) with amount := wholeStake }
  obtain ⟨⟨history, w⟩, hrun, hcheck⟩ := exists_of_any
    (x := script [.setParams admin { setEpochSeconds 2000 with roundSeconds := some farEnd },
      .setFeaturePause admin .game false, .deposit (signer 3) token wholeStake])
    (p := fun s => s.1.all (fun x => decide x.1.InTime) && income runtime s.1 = wholeStake &&
      s.2.pool = farPool 1 2 0 && s.2.players.lookup ⟨3⟩ = some (farPlayer 0 wholeStake) &&
      (s.2.players.lookup ⟨2⟩).isSome && s.2.clock = 1000 &&
      decide (∀ x ∈ s.2.rounds.entries, x.2.endsAt = farEnd)) (by decide +kernel)
  simp only [Bool.and_eq_true, List.all_eq_true, decide_eq_true_eq,
    Option.isSome_iff_exists] at hcheck
  obtain ⟨⟨⟨⟨⟨⟨states, income⟩, pool⟩, player⟩, house⟩, clock⟩, ends⟩ := hcheck
  exact ⟨history, w, script_run hrun, states, income, pool, player, house, clock,
    fun id r hr => ends _ (lookup_eq_some_iff.mp hr)⟩

/-- As many rounds as its Weight has room for. -/
def farRounds : Nat := (u128Limit - 1) / farCredit

theorem far_full : ∃ history w, Far history (farRounds + 1) (farRounds * farCredit) wholeStake 2 0 w := by
  obtain ⟨_, _, far⟩ := far_start
  have room : farRounds + 1 < u64Limit := by
    rw [farRounds, farCredit_eq]
    decide
  have fits : farRounds * farCredit < u128Limit :=
    Nat.lt_of_le_of_lt (Nat.div_mul_le_self _ _) (by decide)
  exact far_cycles far farRounds room fits

/-- One more round's worth of waiting is too much. -/
theorem far_overflows :
    ¬ Returns (touch (farPlayer (farRounds * farCredit) wholeStake) (farPool next buffer opened)
      farEnd) := by
  intro touched
  obtain ⟨q, ht⟩ := touched
  have exceeds : u128Limit ≤ farRounds * farCredit + wholeStake * (farEnd - 1000).toNat := by
    rw [← farCredit_eq, ← Nat.succ_mul, Nat.mul_comm]
    have positive : 0 < farCredit := by
      rw [farCredit_eq]
      decide
    have last := Nat.lt_mul_div_succ (u128Limit - 1) positive
    exact Nat.le_of_pred_lt last
  cases touch_cases ht with
  | inl same =>
      have fits := (accrue_eq_ok.mp same.weight).1
      exact absurd exceeds (Nat.not_le_of_lt fits)
  | inr new => exact absurd new.behind (Nat.not_lt_zero _)

end Far

end Demo

/-- 2^33 rounds in one second, and the wait to the last second of the horizon: the
Player's own touch overflows, and a request for any part of its Principal fails. -/
theorem exit_blocked : ∃ history w, Run Demo.runtime history w ∧
    Bounded Demo.runtime history w ∧ ¬ ExitOpen Demo.runtime w := by
  obtain ⟨history, w, far⟩ := Demo.far_full
  have later : Step Demo.runtime w (.wait Demo.farEnd) { w with clock := Demo.farEnd } := by
    have clock : w.clock ≤ Demo.farEnd ∧ Demo.farEnd < i64Limit := by
      rw [far.clock]
      decide
    show wait Demo.farEnd w = _
    rw [wait, require_eq_ok (u := ()) |>.mpr clock]
    rfl
  have now := far.inTime (by decide)
  refine ⟨_, _, far.run.next later, ⟨?_, ?_, ?_⟩, ?_⟩
  · rw [income_next, far.income]
    show Demo.wholeStake + 0 < u64Limit
    decide
  · intro x hx
    cases List.mem_cons.mp hx with
    | inl new => exact new ▸ now
    | inr old => exact far.states x old
  · exact { now with clock := show Within Demo.farEnd by decide }
  · intro exit
    have asked := (exit.request (Demo.signer 3) 1 _ far.player).mpr ⟨by decide, by decide⟩
    obtain ⟨w', h⟩ := asked
    cases step_effect h with
    | reconfigured ha => cases ha
    | withdrawRequested ha ht =>
        obtain rfl := Option.some.inj (far.player.symm.trans ha)
        have pool := far.pool
        exact Demo.far_overflows ⟨_, pool ▸ ht⟩

end HexVault
