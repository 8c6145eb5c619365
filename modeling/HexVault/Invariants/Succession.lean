import HexVault.Invariants.Gates
import HexVault.Invariants.Lifetime
import HexVault.Invariants.Live
import Mathlib.Logic.Relation

/-!
One round after another. A round is opened under an id no earlier one had, its
status only moves on, and the seed its request bound is the one every later
instruction on it checks.
-/

namespace HexVault

open Fallible Finmap Runs

/-- The moves of a round's status. -/
inductive RoundStatus.Next : RoundStatus → RoundStatus → Prop
  | requested : Next .open .requested
  | settled : Next .requested .settled
  | forfeited : Next .requested .forfeited
  | voided : Next .requested .voided
  | abandoned : Next .open .voided

theorem RoundStatus.not_next_open {s : RoundStatus} : ¬ RoundStatus.Next s .open := nofun

/-- The id a step opens a round under. -/
def openedId : World × Action → Option Nat
  | (w, .createRound ..) => some w.pool.nextRoundId
  | _ => none

/-- The ids of the rounds a run opened, newest first. -/
def openedIds (history : History) : List Nat := history.filterMap openedId

def Action.requests (id : Nat) : Action → Bool
  | .requestRoundRandomness round _ _ => decide (round = id)
  | _ => false

/-- How often randomness was requested for a round. -/
def timesRequested (id : Nat) (history : History) : Nat :=
  history.countP fun x => x.2.requests id

/-- The seed a request for a round bound. -/
def BoundSeed (rt : Runtime) (history : History) (id : Nat) (seed : Bytes) : Prop :=
  ∃ v randomness nonce, (v, .requestRoundRandomness id randomness nonce) ∈ history ∧
    seed = vrfSeed rt ROUND_DOMAIN v.key id nonce

/-- Where a round comes from: the step opened it, requested its randomness, moved
it on otherwise or left its status and its seed alone. -/
inductive RoundStep (rt : Runtime) (w : World) (a : Action) (id : Nat) (r' : Round) : Prop
  | opened : (∃ operator startsAt endsAt, a = .createRound operator startsAt endsAt) →
      id = w.pool.nextRoundId → r'.status = .open → RoundStep rt w a id r'
  | requested {r : Round} {randomness : Pubkey} {nonce : Bytes} :
      a = .requestRoundRandomness id randomness nonce → w.rounds.lookup id = some r →
      r.status = .open → r'.status = .requested →
      r'.vrfSeed = vrfSeed rt ROUND_DOMAIN w.key id nonce → RoundStep rt w a id r'
  | ended {r : Round} : a.requests id = false → w.rounds.lookup id = some r →
      RoundStatus.Next r.status r'.status → r'.status ≠ .requested → r'.vrfSeed = r.vrfSeed →
      RoundStep rt w a id r'
  | kept {r : Round} : a.requests id = false → w.rounds.lookup id = some r →
      r'.status = r.status → r'.vrfSeed = r.vrfSeed → RoundStep rt w a id r'

section Steps
variable {rt : Runtime} {history : History} {w w' : World} {a : Action} {id : Nat} {r r' : Round}

/-- The account of every request is the one its seed names. -/
theorem requestRoundRandomness_seed {randomness : Pubkey} {nonce : Bytes} (live : w.Live)
    (h : requestRoundRandomness rt id randomness nonce w = .ok w')
    (hr : w'.rounds.lookup id = some r') :
    r'.vrfSeed = vrfSeed rt ROUND_DOMAIN w.key id nonce := by
  simp only [requestRoundRandomness, bind_eq_ok, World.round_eq_ok, ensure_eq_ok, pure_eq_ok,
    exists_const] at h
  obtain ⟨r, hold, -, _, -, -, -, rfl⟩ := h
  rw [lookup_insert, Option.some.injEq] at hr
  rw [← hr, ← (live.keyed hold).1]

theorem RoundStep.write (quiet : ∀ other, a.requests other = false)
    (h : w.rounds.lookup id = some r) (seed : r'.vrfSeed = r.vrfSeed)
    (moved : (RoundStatus.Next r.status r'.status ∧ r'.status ≠ .requested) ∨
      r'.status = r.status)
    {other : Nat} {x : Round} (hx : (w.rounds.insert id r').lookup other = some x) :
    RoundStep rt w a other x := by
  cases lookup_insert_cases hx with
  | inl this =>
      obtain ⟨rfl, rfl⟩ := this
      cases moved with
      | inl next => exact .ended (quiet _) h next.1 next.2 seed
      | inr same => exact .kept (quiet _) h same seed
  | inr rest => exact .kept (quiet _) rest.2 rfl rfl

theorem step_round (live : w.Live) (h : Step rt w a w') (hr : w'.rounds.lookup id = some r') :
    RoundStep rt w a id r' := by
  cases step_effect h with
  | reconfigured ha =>
      refine .kept ?_ hr rfl rfl
      cases a <;> first | rfl | exact nomatch ha
  | roundCreated =>
      cases lookup_insert_cases hr with
      | inl new =>
          obtain ⟨rfl, rfl⟩ := new
          exact .opened ⟨_, _, _, rfl⟩ rfl rfl
      | inr rest => exact .kept rfl rest.2 rfl rfl
  | positionBought _ hold =>
      refine .write (fun _ => rfl) hold ?_ ?_ hr
      · rfl
      · exact .inr rfl
  | @roundRequested round randomness nonce _ _ hold hs =>
      by_cases this : id = round
      · subst this
        refine .requested rfl hold hs ?_ (requestRoundRandomness_seed live h hr)
        rw [lookup_insert, Option.some.injEq] at hr
        rw [← hr]
      · rw [lookup_insert_of_ne _ this] at hr
        exact .kept (decide_eq_false (Ne.symm this)) hr rfl rfl
  | @roundSettled _ _ round _ _ tile _ _ hold _ hs =>
      refine .write (fun _ => rfl) hold ?_ (.inl ?_) hr
      · rfl
      · rw [hs]
        dsimp only
        split
        · exact ⟨.forfeited, nofun⟩
        · exact ⟨.settled, nofun⟩
  | positionSettled hold =>
      refine .write (fun _ => rfl) hold ?_ ?_ hr
      · rfl
      · exact .inr rfl
  | roundVoided hold hs =>
      refine .write (fun _ => rfl) hold ?_ (.inl ⟨?_, ?_⟩) hr
      · rfl
      · cases hs with
        | inl requested =>
            rw [requested]
            exact .voided
        | inr still =>
            rw [still]
            exact .abandoned
      · exact nofun
  | roundClosed => exact .kept rfl (lookup_of_erase hr) rfl rfl
  | _ => exact .kept rfl hr rfl rfl

/-- A round that a step leaves and that was there before. -/
theorem RoundStep.moved (h : RoundStep rt w a id r') (life : Lifetime history w)
    (hr : w.rounds.lookup id = some r) :
    r'.status = r.status ∨ RoundStatus.Next r.status r'.status := by
  cases h with
  | opened _ new => exact absurd (life.created hr) (by omega)
  | requested _ hold hopen hs =>
      obtain rfl := Option.some.inj (hr.symm.trans hold)
      rw [hopen, hs]
      exact .inr .requested
  | ended _ hold next =>
      obtain rfl := Option.some.inj (hr.symm.trans hold)
      exact .inr next
  | kept _ hold same =>
      obtain rfl := Option.some.inj (hr.symm.trans hold)
      exact .inl same

theorem openedIds_quiet (h : openedId (w, a) = none) :
    openedIds ((w, a) :: history) = openedIds history :=
  List.filterMap_cons_none h

theorem openedIds_new (h : openedId (w, a) = some id) :
    openedIds ((w, a) :: history) = id :: openedIds history :=
  List.filterMap_cons_some h

theorem timesRequested_again (h : a.requests id = true) :
    timesRequested id ((w, a) :: history) = timesRequested id history + 1 :=
  List.countP_cons_of_pos h

theorem timesRequested_quiet (h : a.requests id = false) :
    timesRequested id ((w, a) :: history) = timesRequested id history :=
  List.countP_cons_of_neg (by rw [h]; exact Bool.false_ne_true)

theorem BoundSeed.later {x : World × Action} {seed : Bytes} (h : BoundSeed rt history id seed) :
    BoundSeed rt (x :: history) id seed := by
  obtain ⟨v, randomness, nonce, hx, heq⟩ := h
  exact ⟨v, randomness, nonce, List.mem_cons_of_mem _ hx, heq⟩

end Steps

/-- The ids given out and the seeds bound so far. -/
structure Succession (rt : Runtime) (history : History) (w : World) : Prop where
  below : ∀ id ∈ openedIds history, id < w.pool.nextRoundId
  increasing : (openedIds history).Pairwise (· > ·)
  opened : ∀ id r, w.rounds.lookup id = some r → id ∈ openedIds history
  fresh : ∀ id, w.pool.nextRoundId ≤ id → timesRequested id history = 0
  once : ∀ id, timesRequested id history ≤ 1
  unrequested : ∀ id r, w.rounds.lookup id = some r → r.status = .open →
    timesRequested id history = 0
  bound : ∀ id r, w.rounds.lookup id = some r → timesRequested id history = 0 ∨
    BoundSeed rt history id r.vrfSeed
  waiting : ∀ id r, w.rounds.lookup id = some r → r.status = .requested →
    BoundSeed rt history id r.vrfSeed

section Runs
variable {rt : Runtime} {history : History} {w w' : World} {a : Action} {id : Nat} {r r' : Round}

theorem effect_nextRoundId (h : Effect rt w a w') :
    (openedId (w, a) = none ∧ w'.pool.nextRoundId = w.pool.nextRoundId) ∨
      (openedId (w, a) = some w.pool.nextRoundId ∧
        w'.pool.nextRoundId = w.pool.nextRoundId + 1) := by
  cases h with
  | reconfigured ha hr =>
      refine .inl ⟨?_, hr.nextRoundId⟩
      cases a <;> first | rfl | exact nomatch ha
  | roundCreated => exact .inr ⟨rfl, rfl⟩
  | _ => exact .inl ⟨rfl, rfl⟩

/-- Randomness is requested for a round that is open. -/
theorem effect_requests (h : Effect rt w a w') (ha : a.requests id = true) :
    ∃ r, w.rounds.lookup id = some r ∧ r.status = .open := by
  cases h with
  | reconfigured config =>
      cases a with
      | requestRoundRandomness => exact nomatch config
      | _ => exact nomatch ha
  | roundRequested hr hs =>
      obtain rfl := of_decide_eq_true ha
      exact ⟨_, hr, hs⟩
  | _ => exact nomatch ha

/-- Ids are given out one above the other. -/
theorem Succession.ids (hi : Succession rt history w) (h : Step rt w a w') :
    (∀ id ∈ openedIds ((w, a) :: history), id < w'.pool.nextRoundId) ∧
      (openedIds ((w, a) :: history)).Pairwise (· > ·) := by
  rcases effect_nextRoundId (step_effect h) with ⟨none, same⟩ | ⟨some, more⟩
  · rw [openedIds_quiet none, same]
    exact ⟨hi.below, hi.increasing⟩
  · rw [openedIds_new some, more]
    refine ⟨List.forall_mem_cons.mpr ⟨Nat.lt_succ_self _, fun id old => ?_⟩, ?_⟩
    · exact Nat.lt_succ_of_lt (hi.below id old)
    · exact List.pairwise_cons.mpr ⟨hi.below, hi.increasing⟩

theorem openedIds_grow (h : id ∈ openedIds history) : id ∈ openedIds ((w, a) :: history) := by
  cases opened : openedId (w, a) with
  | none => rwa [openedIds_quiet opened]
  | some other =>
      rw [openedIds_new opened]
      exact List.mem_cons_of_mem _ h

theorem Succession.opened_next (hi : Succession rt history w) (live : w.Live) (h : Step rt w a w')
    (hr : w'.rounds.lookup id = some r') : id ∈ openedIds ((w, a) :: history) := by
  cases step_round live h hr with
  | opened create new =>
      obtain ⟨operator, startsAt, endsAt, rfl⟩ := create
      rw [openedIds_new rfl, new]
      exact List.mem_cons_self ..
  | requested _ hold | ended _ hold | kept _ hold => exact openedIds_grow (hi.opened id _ hold)

theorem Succession.fresh_next (hi : Succession rt history w) (life : Lifetime history w)
    (h : Step rt w a w') (hid : w'.pool.nextRoundId ≤ id) :
    timesRequested id ((w, a) :: history) = 0 := by
  have grows : w.pool.nextRoundId ≤ w'.pool.nextRoundId := by
    rcases effect_nextRoundId (step_effect h) with ⟨-, same⟩ | ⟨-, more⟩ <;> omega
  cases ha : a.requests id with
  | false =>
      rw [timesRequested_quiet ha]
      exact hi.fresh id (Nat.le_trans grows hid)
  | true =>
      obtain ⟨r, hr, -⟩ := effect_requests (step_effect h) ha
      exact absurd (life.created hr) (by omega)

theorem Succession.once_next (hi : Succession rt history w) (h : Step rt w a w') :
    timesRequested id ((w, a) :: history) ≤ 1 := by
  cases ha : a.requests id with
  | false =>
      rw [timesRequested_quiet ha]
      exact hi.once id
  | true =>
      obtain ⟨r, hr, hs⟩ := effect_requests (step_effect h) ha
      rw [timesRequested_again ha, hi.unrequested id r hr hs]

theorem Succession.unrequested_next (hi : Succession rt history w) (live : w.Live)
    (h : Step rt w a w') (hr : w'.rounds.lookup id = some r') (hopen : r'.status = .open) :
    timesRequested id ((w, a) :: history) = 0 := by
  cases step_round live h hr with
  | opened create new =>
      obtain ⟨operator, startsAt, endsAt, rfl⟩ := create
      rw [timesRequested_quiet rfl]
      exact hi.fresh id (Nat.le_of_eq new.symm)
  | requested _ _ _ hs =>
      rw [hs] at hopen
      exact nomatch hopen
  | ended _ _ moved =>
      rw [hopen] at moved
      exact absurd moved RoundStatus.not_next_open
  | kept quiet hold same =>
      rw [timesRequested_quiet quiet]
      exact hi.unrequested id _ hold (same.symm.trans hopen)

theorem Succession.bound_next (hi : Succession rt history w) (live : w.Live)
    (h : Step rt w a w') (hr : w'.rounds.lookup id = some r') :
    timesRequested id ((w, a) :: history) = 0 ∨
      BoundSeed rt ((w, a) :: history) id r'.vrfSeed := by
  have old : ∀ r, a.requests id = false → w.rounds.lookup id = some r →
      r'.vrfSeed = r.vrfSeed → timesRequested id ((w, a) :: history) = 0 ∨
        BoundSeed rt ((w, a) :: history) id r'.vrfSeed := by
    intro r quiet hold seed
    rw [timesRequested_quiet quiet, seed]
    exact (hi.bound id r hold).imp_right .later
  cases step_round live h hr with
  | opened create new =>
      obtain ⟨operator, startsAt, endsAt, rfl⟩ := create
      rw [timesRequested_quiet rfl]
      exact .inl (hi.fresh id (Nat.le_of_eq new.symm))
  | @requested r randomness nonce ha _ _ _ seed =>
      exact .inr ⟨w, randomness, nonce, ha ▸ List.mem_cons_self .., seed⟩
  | ended quiet hold _ _ seed => exact old _ quiet hold seed
  | kept quiet hold _ seed => exact old _ quiet hold seed

theorem Succession.waiting_next (hi : Succession rt history w) (live : w.Live)
    (h : Step rt w a w') (hr : w'.rounds.lookup id = some r') (hs : r'.status = .requested) :
    BoundSeed rt ((w, a) :: history) id r'.vrfSeed := by
  cases step_round live h hr with
  | opened _ _ hopen =>
      rw [hopen] at hs
      exact nomatch hs
  | @requested r randomness nonce ha _ _ _ seed =>
      exact ⟨w, randomness, nonce, ha ▸ List.mem_cons_self .., seed⟩
  | ended _ _ _ other => exact absurd hs other
  | kept _ hold same seed =>
      rw [seed]
      exact (hi.waiting id _ hold (same.symm.trans hs)).later

theorem step_succession (life : Lifetime history w) (live : w.Live) (h : Step rt w a w')
    (hi : Succession rt history w) : Succession rt ((w, a) :: history) w' where
  below := (hi.ids h).1
  increasing := (hi.ids h).2
  opened _ _ hr := hi.opened_next live h hr
  fresh _ hid := hi.fresh_next life h hid
  once _ := hi.once_next h
  unrequested _ _ hr hopen := hi.unrequested_next live h hr hopen
  bound _ _ hr := hi.bound_next live h hr
  waiting _ _ hr hs := hi.waiting_next live h hr hs

theorem run_succession (run : Run rt history w) : Succession rt history w := by
  refine run.invariant (P := Succession rt) ?_ ?_
  · intro start created
    obtain ⟨params, accounts, now, -, -, h⟩ := created
    obtain ⟨-, es, rfl⟩ := createPool_eq_ok h
    refine ⟨?_, List.Pairwise.nil, ?_, fun _ _ => rfl, fun _ => Nat.zero_le _, ?_, ?_, ?_⟩
    · intro id hid
      exact nomatch hid
    · intro id r hr
      exact nomatch hr
    · intro id r hr
      exact nomatch hr
    · intro id r hr
      exact nomatch hr
    · intro id r hr
      exact nomatch hr
  · intro history w a w' before hi h
    exact step_succession (run_lifetime before) (reachable_live before.reachable) h hi

/-- Over any later run a round that is still there has only moved on. -/
theorem status_onward {span : History} (run : Run rt history w)
    (hr : w.rounds.lookup id = some r) (steps : Steps (Step rt) w span w')
    (hr' : w'.rounds.lookup id = some r') :
    Relation.ReflTransGen RoundStatus.Next r.status r'.status := by
  have known := (run_lifetime run).created hr
  have kept := steps.invariant (P := fun past v => Run rt (past ++ history) v ∧
    id < v.pool.nextRoundId ∧ ∀ x, v.rounds.lookup id = some x →
      Relation.ReflTransGen RoundStatus.Next r.status x.status) ?_ ?_
  · exact kept.2.2 r' hr'
  · refine ⟨run, known, ?_⟩
    intro x hx
    obtain rfl := Option.some.inj (hr.symm.trans hx)
    exact .refl
  · intro past v b u _ hv hstep
    obtain ⟨before, old, onward⟩ := hv
    have live := reachable_live before.reachable
    refine ⟨before.next hstep, ?_, ?_⟩
    · cases effect_nextRoundId (step_effect hstep) with
      | inl same => exact same.2 ▸ old
      | inr more => omega
    · intro x hx
      cases step_round live hstep hx with
      | opened _ new => exact absurd old (by omega)
      | @requested y _ _ _ hy hopen hs =>
          rw [hs]
          exact (hopen ▸ onward y hy).tail .requested
      | ended _ hy next => exact (onward _ hy).tail next
      | kept _ hy same => exact same ▸ onward _ hy

/-- One request, one seed. -/
theorem BoundSeed.unique {seed seed' : Bytes} (once : timesRequested id history ≤ 1)
    (h : BoundSeed rt history id seed) (k : BoundSeed rt history id seed') : seed = seed' := by
  obtain ⟨v, randomness, nonce, hv, rfl⟩ := h
  obtain ⟨u, randomness', nonce', hu, rfl⟩ := k
  rw [timesRequested, List.countP_eq_length_filter] at once
  have first : (v, .requestRoundRandomness id randomness nonce) ∈
      history.filter fun x => x.2.requests id := List.mem_filter.mpr ⟨hv, decide_eq_true rfl⟩
  have second : (u, .requestRoundRandomness id randomness' nonce') ∈
      history.filter fun x => x.2.requests id := List.mem_filter.mpr ⟨hu, decide_eq_true rfl⟩
  generalize history.filter (fun x => x.2.requests id) = asked at once first second
  cases asked with
  | nil => exact absurd first List.not_mem_nil
  | cons x rest =>
      obtain rfl := List.eq_nil_of_length_eq_zero (Nat.le_zero.mp (Nat.le_of_succ_le_succ once))
      have same := (List.mem_singleton.mp first).trans (List.mem_singleton.mp second).symm
      obtain ⟨rfl, -, rfl⟩ : v = u ∧ randomness = randomness' ∧ nonce = nonce' := by
        simpa using same
      rfl

/-- What `settle_round` read: a fulfilled request for the round's own seed. -/
theorem settleRound_reads {account : AccountInfo} (h : settleRound rt id account w = .ok w') :
    ∃ r, w.rounds.lookup id = some r ∧ r.status = .requested ∧
      ∃ bytes, readFulfilled rt account r.vrfSeed = .ok bytes := by
  obtain ⟨r, hr, _, -, hs, bytes, hread, -⟩ := settleRound_returns.mp ⟨_, h⟩
  exact ⟨r, hr, hs, bytes, hread⟩

/-- What `void_round` checked: no request, or the one for the round's own seed. -/
theorem voidRound_reads {account : AccountInfo} (h : voidRound rt id account w = .ok w') :
    ∃ r, w.rounds.lookup id = some r ∧ (r.status = .open ∨
      (r.status = .requested ∧ account.key = randomnessAddress rt r.vrfSeed ∧
        isFulfilled rt account r.vrfSeed = .ok false)) := by
  simp only [voidRound, bind_eq_ok, World.round_eq_ok] at h
  obtain ⟨r, hr, _, gate, -⟩ := h
  refine ⟨r, hr, ?_⟩
  cases checkVoidable_eq_ok gate with
  | inr still => exact .inl still
  | inl requested =>
      simp only [checkVoidable, requested, bind_eq_ok, ensure_eq_ok, exists_const] at gate
      obtain ⟨address, fulfilled, hf, rfl, -⟩ := gate
      exact .inr ⟨requested, address, hf⟩

/-- One round at a time, moved on only, under an id and a seed of its own. -/
structure OneRound (rt : Runtime) (history : History) (w : World) : Prop where
  single : ∀ id r id' r', w.rounds.lookup id = some r → w.rounds.lookup id' = some r' →
    ¬ isFinished r.status → ¬ isFinished r'.status → id = id'
  named : ∀ id r, w.rounds.lookup id = some r → ¬ isFinished r.status →
    r.roundId = id ∧ w.pool.openRoundId = id
  idle : w.pool.openRoundId = 0 ↔
    ∀ id r, w.rounds.lookup id = some r → isFinished r.status
  moves : ∀ a w' id r r', Step rt w a w' → w.rounds.lookup id = some r →
    w'.rounds.lookup id = some r' → r'.status = r.status ∨ RoundStatus.Next r.status r'.status
  onward : ∀ span w' id r r', Steps (Step rt) w span w' → w.rounds.lookup id = some r →
    w'.rounds.lookup id = some r' → Relation.ReflTransGen RoundStatus.Next r.status r'.status
  increasing : (openedIds history).Pairwise (· > ·)
  opened : ∀ id r, w.rounds.lookup id = some r → id ∈ openedIds history
  opens : ∀ a w' id, Step rt w a w' → openedId (w, a) = some id →
    w.rounds.lookup id = none ∧ ∃ r, w'.rounds.lookup id = some r ∧ r.roundId = id
  fresh : ∀ a w' id r, Step rt w a w' → w.rounds.lookup id = none →
    w'.rounds.lookup id = some r →
    openedId (w, a) = some id ∧ ∀ other ∈ openedIds history, other < id
  asked : ∀ id, timesRequested id history ≤ 1
  seeds : ∀ id seed seed', BoundSeed rt history id seed → BoundSeed rt history id seed' →
    seed = seed'
  settles : ∀ id account w', Step rt w (.settleRound id account) w' →
    ∃ r, w.rounds.lookup id = some r ∧ BoundSeed rt history id r.vrfSeed ∧
      ∃ bytes, readFulfilled rt account r.vrfSeed = .ok bytes
  voids : ∀ id account w', Step rt w (.voidRound id account) w' →
    ∃ r, w.rounds.lookup id = some r ∧
      ((r.status = .open ∧ timesRequested id history = 0) ∨
        (r.status = .requested ∧ BoundSeed rt history id r.vrfSeed ∧
          account.key = randomnessAddress rt r.vrfSeed ∧
          isFulfilled rt account r.vrfSeed = .ok false))

theorem World.Live.idle_iff (live : w.Live) : w.pool.openRoundId = 0 ↔
    ∀ id r, w.rounds.lookup id = some r → isFinished r.status := by
  constructor
  · intro none id r hr
    by_contra unfinished
    have named := live.only hr unfinished
    have positive := (live.keyed hr).2
    omega
  · intro all
    by_contra running
    obtain ⟨-, r, hr, unfinished⟩ := live.running running
    exact unfinished (all _ _ hr)

theorem rounds_one (run : Run rt history w) : OneRound rt history w := by
  have reachable := run.reachable
  have live := reachable_live reachable
  have life := run_lifetime run
  have ids := run_succession run
  refine ⟨?_, ?_, live.idle_iff, ?_, ?_, ids.increasing, ids.opened, ?_, ?_, ids.once, ?_, ?_, ?_⟩
  · intro id r id' r' hr hr' unfinished unfinished'
    exact (live.only hr unfinished).symm.trans (live.only hr' unfinished')
  · intro id r hr unfinished
    exact ⟨(live.keyed hr).1, live.only hr unfinished⟩
  · intro a w' id r r' h hr hr'
    exact (step_round live h hr').moved life hr
  · intro span w' id r r' steps hr hr'
    exact status_onward run hr steps hr'
  · intro a w' id h hid
    cases a with
    | createRound =>
        obtain rfl := Option.some.inj hid
        cases step_effect h with
        | roundCreated none => exact ⟨none, _, lookup_insert _, rfl⟩
        | reconfigured ha => exact nomatch ha
    | _ => exact nomatch hid
  · intro a w' id r h none hr
    cases step_round live h hr with
    | opened create new =>
        obtain ⟨operator, startsAt, endsAt, rfl⟩ := create
        exact ⟨congrArg some new.symm, new ▸ ids.below⟩
    | requested _ hold => exact nomatch none.symm.trans hold
    | ended _ hold => exact nomatch none.symm.trans hold
    | kept _ hold => exact nomatch none.symm.trans hold
  · intro id seed seed' h k
    exact h.unique (ids.once id) k
  · intro id account w' h
    obtain ⟨r, hr, hs, hread⟩ := settleRound_reads h
    exact ⟨r, hr, ids.waiting id r hr hs, hread⟩
  · intro id account w' h
    obtain ⟨r, hr, gate⟩ := voidRound_reads h
    refine ⟨r, hr, gate.imp ?_ ?_⟩
    · intro still
      exact ⟨still, ids.unrequested id r hr still⟩
    · intro requested
      exact ⟨requested.1, ids.waiting id r hr requested.1, requested.2⟩

end Runs

/-- A round settled and closed, one given up unrequested, and a third one open. -/
theorem rounds_one_third : ∃ history w, Run Demo.runtime history w ∧
    openedIds history = [3, 2, 1] ∧ w.rounds.lookup 1 = none ∧ w.pool.openRoundId = 3 ∧
    OneRound Demo.runtime history w := by
  obtain ⟨⟨history, w⟩, hrun, hcheck⟩ := exists_of_any
    (x := Demo.script [.setFeaturePause Demo.admin .game false,
      .createRound Demo.operator 1000 1010, .wait 1008,
      .requestRoundRandomness 1 ⟨9⟩ (List.replicate 32 0),
      .settleRound 1 ⟨⟨9⟩, List.replicate 8 0 ++ [1] ++ List.replicate 128 0⟩,
      .closeRound Demo.operator.key 1, .createRound Demo.operator 1010 1020, .wait 1081,
      .voidRound 2 ⟨⟨9⟩, []⟩, .createRound Demo.operator 1081 1091])
    (p := fun s => openedIds s.1 = [3, 2, 1] && (s.2.rounds.lookup 1).isNone &&
      s.2.pool.openRoundId = 3) (by decide +kernel)
  simp only [Bool.and_eq_true, decide_eq_true_eq, Option.isNone_iff_eq_none] at hcheck
  have run := Demo.script_run hrun
  exact ⟨history, w, run, hcheck.1.1, hcheck.1.2, hcheck.2, rounds_one run⟩

end HexVault
