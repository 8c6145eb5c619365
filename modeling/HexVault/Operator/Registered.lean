import HexVault.Invariants.Stability
import HexVault.Invariants.Registration
import HexVault.Operator.Cranked

/-!
Closing registration on nobody. The list a tick cranks leaves out the owners it
remembers a `register` for; those of the epoch being closed hold their interval,
so a close is complete exactly when none of the others is still owed one.
-/

namespace HexVault

open Fallible Finmap Runs

section Chain
variable {rt : Runtime} {w w' : World} {a : Action} {history : History} {id : Nat}
  {owner : Pubkey} {e : Epoch} {p : Player}

/-- A Player registered for the previous epoch keeps its interval while it is the
previous one: nobody registers twice for it. -/
theorem effect_keeps_slot (owned : Owned w.players) (h : Effect rt w a w')
    (h1 : 1 ≤ id) (current : w.pool.currentEpochId = id + 1)
    (hp : w.players.lookup owner = some p) (reg : p.regEpoch = id) :
    ∃ p', w'.players.lookup owner = some p' ∧ SameSlot p p' := by
  have kept : ∀ {other : Pubkey} {q r : Player}, w.players.lookup other = some q →
      q.regEpoch ≠ id →
      ∃ p', (w.players.insert other r).lookup owner = some p' ∧ SameSlot p p' := by
    intro other q r hq free
    have hne : owner ≠ other := by
      intro same
      subst same
      obtain rfl := Option.some.inj (hp.symm.trans hq)
      exact free reg
    exact ⟨p, (lookup_insert_of_ne _ hne).trans hp, rfl, rfl, rfl⟩
  cases hreg : a.registers with
  | false =>
      have same := congrFun ((effect_slots owned h hreg).slots h1) owner
      rw [slots_of_lookup hp, Player.slotIn, if_pos reg, slots, Option.bind_eq_some_iff] at same
      obtain ⟨p', hp', hslot⟩ := same
      rw [Player.slotIn, Option.ite_none_right_eq_some, Option.some.injEq, Prod.mk.injEq] at hslot
      obtain ⟨reg', start, stop⟩ := hslot
      exact ⟨p', hp', reg'.trans reg.symm, start, stop⟩
  | true =>
      cases h with
      | reconfigured config =>
          cases a with
          | register => cases config
          | _ => cases hreg
      | registeredNothing _ ha _ _ hprev hfree =>
          refine kept ha ?_
          omega
      | registered _ ha _ _ hprev hfree =>
          refine kept ha ?_
          omega
      | _ => cases hreg

/-- The two figures of the previous epoch over a run that stays in the current one. -/
theorem previous_stable (reachable : Reachable rt w) (h1 : 1 ≤ id)
    (current : w.pool.currentEpochId = id + 1) (he : w.epochs.lookup id = some e)
    (hp : w.players.lookup owner = some p) (steps : Steps (Step rt) w history w')
    (still : w'.pool.currentEpochId ≤ id + 1) :
    ∃ e' p', w'.epochs.lookup id = some e' ∧ w'.players.lookup owner = some p' ∧
      weightAndPrincipalSeconds e' p' = weightAndPrincipalSeconds e p := by
  have kept := steps.invariant (P := fun _ v => Reachable rt v ∧ id + 1 ≤ v.pool.currentEpochId ∧
    (v.pool.currentEpochId ≤ id + 1 → ∃ e' p', v.epochs.lookup id = some e' ∧
      v.players.lookup owner = some p' ∧
      weightAndPrincipalSeconds e' p' = weightAndPrincipalSeconds e p)) ?_ ?_
  · exact kept.2.2 still
  · exact ⟨reachable, Nat.le_of_eq current.symm, fun _ => ⟨e, p, he, hp, rfl⟩⟩
  · intro _ v b u _ hv hstep
    obtain ⟨reached, lo, pair⟩ := hv
    have effect := step_effect hstep
    have grows := effect_currentEpochId effect
    refine ⟨reached.next hstep, Nat.le_trans lo grows, ?_⟩
    intro hu
    obtain ⟨x, y, hx, hy, heq⟩ := pair (Nat.le_trans grows hu)
    obtain ⟨x', hx', hid, hstart, hends⟩ := effect_epoch effect hx
    have place : IsPrevious x v.pool := by
      cases place_of_calendar (reachable_calendar reached) h1 hx (by omega) (by omega) with
      | inl here =>
          have := here.epochId
          have := ((reachable_calendar reached).keyed hx).1
          omega
      | inr there => exact there
    obtain ⟨y', hy', hsame⟩ := step_previous reached place hy hstep
    exact ⟨x', y', hx', hy', (weightAndPrincipalSeconds_epoch hid hstart hends y').trans
      (hsame.trans heq)⟩

/-- The same over a run that stays in the current epoch. -/
theorem keeps_slot (reachable : Reachable rt w) (h1 : 1 ≤ id)
    (current : w.pool.currentEpochId = id + 1) (hp : w.players.lookup owner = some p)
    (reg : p.regEpoch = id) (steps : Steps (Step rt) w history w')
    (still : w'.pool.currentEpochId ≤ id + 1) :
    ∃ p', w'.players.lookup owner = some p' ∧ SameSlot p p' := by
  have kept := steps.invariant (P := fun _ v => Reachable rt v ∧ id + 1 ≤ v.pool.currentEpochId ∧
    (v.pool.currentEpochId ≤ id + 1 →
      ∃ p', v.players.lookup owner = some p' ∧ SameSlot p p')) ?_ ?_
  · exact kept.2.2 still
  · exact ⟨reachable, Nat.le_of_eq current.symm, fun _ => ⟨p, hp, rfl, rfl, rfl⟩⟩
  · intro _ v b u _ hv hstep
    obtain ⟨reached, lo, registered⟩ := hv
    have effect := step_effect hstep
    have grows := effect_currentEpochId effect
    refine ⟨reached.next hstep, Nat.le_trans lo grows, ?_⟩
    intro hu
    obtain ⟨q, hq, same⟩ := registered (Nat.le_trans grows hu)
    obtain ⟨r, hr, again⟩ := effect_keeps_slot (reachable_accounts reached).owned effect h1
      (by omega) hq (same.regEpoch.trans reg)
    exact ⟨r, hr, again.regEpoch.trans same.regEpoch, again.regStart.trans same.regStart,
      again.regEnd.trans same.regEnd⟩

theorem stays_registered (reachable : Reachable rt w) (h1 : 1 ≤ id)
    (current : w.pool.currentEpochId = id + 1) (hp : w.players.lookup owner = some p)
    (reg : p.regEpoch = id) (steps : Steps (Step rt) w history w')
    (still : w'.pool.currentEpochId ≤ id + 1) :
    ∃ p', w'.players.lookup owner = some p' ∧ p'.regEpoch = id := by
  obtain ⟨p', hp', same⟩ := keeps_slot reachable h1 current hp reg steps still
  exact ⟨p', hp', same.regEpoch.trans reg⟩

theorem steps_currentEpochId (steps : Steps (Step rt) w history w') :
    w.pool.currentEpochId ≤ w'.pool.currentEpochId :=
  steps.invariant (P := fun _ v => w.pool.currentEpochId ≤ v.pool.currentEpochId)
    (Nat.le_refl _) fun _ hv hs => Nat.le_trans hv (effect_currentEpochId (step_effect hs))

theorem steps_reachable (reachable : Reachable rt w) (steps : Steps (Step rt) w history w') :
    Reachable rt w' :=
  steps.invariant (P := fun _ v => Reachable rt v) reachable fun _ hv hs => hv.next hs

/-- Every action of a list is taken in its replay. -/
theorem replay_mem {actions : List Action} {before history : History}
    (h : replay rt actions (before, w) = .ok (history, w')) :
    (∀ x ∈ before, x ∈ history) ∧ ∀ b ∈ actions, ∃ x ∈ history, x.2 = b := by
  induction actions generalizing before w with
  | nil =>
      cases h
      exact ⟨fun x hx => hx, fun b hb => absurd hb List.not_mem_nil⟩
  | cons b rest ih =>
      obtain ⟨v, -, h⟩ := bind_eq_ok.mp h
      obtain ⟨older, taken⟩ := ih h
      refine ⟨fun x hx => older x (List.mem_cons_of_mem _ hx), ?_⟩
      intro c hc
      cases List.mem_cons.mp hc with
      | inl same => exact ⟨(w, b), older _ (List.mem_cons_self ..), same.symm⟩
      | inr later => exact taken c later

/-- A batch of registrations that landed: each of its owners that had weight in
the epoch when the batch was put together holds its interval. -/
theorem batch_registered {u : World} {owners : List Pubkey} {during landed : History}
    (reachable : Reachable rt w) (h1 : 1 ≤ id)
    (current : w.pool.currentEpochId = id + 1) (he : w.epochs.lookup id = some e)
    (hp : w.players.lookup owner = some p) (steps : Steps (Step rt) w during u)
    (batch : replay rt (owners.map (.register id)) ([], u) = .ok (landed, w'))
    (mem : owner ∈ owners)
    (positive : ∀ weight ps, weightAndPrincipalSeconds e p = .ok (weight, ps) → 0 < weight)
    (still : w'.pool.currentEpochId ≤ id + 1) :
    ∃ p', w'.players.lookup owner = some p' ∧ p'.regEpoch = id := by
  obtain ⟨⟨v, b⟩, hx, hb⟩ := (replay_mem batch).2 _ (List.mem_map_of_mem mem)
  obtain ⟨later, earlier, v', -, before, step, rest⟩ :=
    (replay_steps .start batch).split hx
  obtain rfl : b = .register id owner := hb
  have toward := steps.append before
  have reached := steps_reachable reachable toward
  have effect := step_effect step
  have grows := effect_currentEpochId effect
  have ends := steps_currentEpochId rest
  have starts := steps_currentEpochId toward
  obtain ⟨e', q, he', hq, hsame⟩ :=
    previous_stable reachable h1 current he hp toward (by omega)
  obtain ⟨x, y, weight, ps, hx, hy, -, -, hpair, registered⟩ := effect_register effect
  obtain rfl := Option.some.inj (he'.symm.trans hx)
  obtain rfl := Option.some.inj (hq.symm.trans hy)
  have keyed := ((reachable_calendar reached).keyed he').1
  obtain ⟨q', hq', hreg⟩ := registered (positive weight ps (hsame.symm.trans hpair))
  exact stays_registered (reached.next step) h1 (by omega) hq' (hreg.trans keyed) rest still

end Chain

namespace Operator

/-- The weight computed off a mirrored row is the one `register` reads. -/
theorem registrationWeight_eq {e : Epoch} {p : Player} {weight ps : Nat}
    (start : 0 ≤ e.startsAt) (updated : 0 ≤ p.lastUpdate) (stop : e.endsAt < i64Limit)
    (h : weightAndPrincipalSeconds e p = .ok (weight, ps)) : registrationWeight p e = weight := by
  rw [weightAndPrincipalSeconds] at h
  rw [registrationWeight]
  split at h
  · rename_i same
    simp only [bind_eq_ok, accrue_eq_ok, pure_eq_ok, elapsed_eq updated stop] at h
    obtain ⟨_, ⟨-, rfl⟩, _, -, heq⟩ := h
    rw [if_pos same]
    exact (Prod.mk.inj heq).1
  · rename_i other
    rw [if_neg other]
    split at h
    · rename_i ahead
      obtain ⟨_, hframe, heq⟩ := bind_eq_ok.mp h
      have frozen := ensure_eq_ok.mp hframe
      rw [if_pos ahead, if_pos frozen]
      exact (Prod.mk.inj (pure_eq_ok.mp heq)).1
    · rename_i idle
      simp only [bind_eq_ok, weightOf_eq_ok, pure_eq_ok, elapsed_eq start stop] at h
      obtain ⟨_, ⟨-, rfl⟩, heq⟩ := h
      rw [if_neg idle]
      exact (Prod.mk.inj heq).1

section Mirror
variable {players : List Player} {w : World} {owner : Pubkey} {p : Player} {id : Nat}

theorem Mirrors.lookup (mirrors : Mirrors players w) (h : p ∈ players) :
    w.players.lookup p.owner = some p := by
  refine Finmap.lookup_eq_some_iff.mpr ?_
  rw [← mirrors]
  exact Multiset.mem_coe.mpr (List.mem_map_of_mem h)

theorem Mirrors.mem (mirrors : Mirrors players w) (h : w.players.lookup owner = some p) :
    p ∈ players := by
  have entry := Finmap.lookup_eq_some_iff.mp h
  rw [← mirrors, Multiset.mem_coe, List.mem_map] at entry
  obtain ⟨q, hq, heq⟩ := entry
  cases heq
  exact hq

/-- Each owner has one row. -/
theorem Mirrors.distinct (mirrors : Mirrors players w) : (players.map (·.owner)).Nodup := by
  have keys := w.players.nodupKeys
  rw [← mirrors, Multiset.coe_nodupKeys, List.NodupKeys, List.keys, List.map_map] at keys
  exact keys

/-- Who is on the indexer's list: the owners still owed a registration. -/
theorem mem_playersToRegister (mirrors : Mirrors players w) (owned : Owned w.players) :
    owner ∈ playersToRegister players w.epochs id ↔ ∃ p e, w.players.lookup owner = some p ∧
      w.epochs.lookup id = some e ∧ p.regEpoch ≠ id ∧ 0 < registrationWeight p e := by
  rw [playersToRegister]
  cases he : w.epochs.lookup id with
  | none =>
      refine ⟨fun h => absurd h List.not_mem_nil, ?_⟩
      intro h
      obtain ⟨_, _, -, heq, -⟩ := h
      exact nomatch heq
  | some e =>
      simp only [List.mem_map, List.mem_filter, decide_eq_true_eq]
      constructor
      · intro h
        obtain ⟨p, ⟨⟨hp, free⟩, positive⟩, rfl⟩ := h
        exact ⟨p, e, mirrors.lookup hp, rfl, free, positive⟩
      · intro h
        obtain ⟨p, _, hp, heq, free, positive⟩ := h
        cases heq
        exact ⟨p, ⟨⟨mirrors.mem hp, free⟩, positive⟩, (owned hp).1⟩

end Mirror

/-- The epoch a confirmed batch registered an owner for. -/
def Send.registers (owner : Pubkey) : Send → Option Nat
  | .register epochId owners => if owner ∈ owners then some epochId else none
  | _ => none

/-- The epoch an owner was last sent a `register` for. -/
def registeredFor (config : Config) (owner : Pubkey) : History → Option Nat
  | [] => none
  | (s, .tick reads _) :: history =>
      ((decided config s.memory s.chain reads).tick.confirmed.findSome?
        (Send.registers owner)).or (registeredFor config owner history)
  | (_, .chain _) :: history => registeredFor config owner history

section Ticks
variable {config : Config} {memory : Memory} {w : World} {reads : Reads} {sends : List Send}

theorem lands_filter (sends : List Send) :
    sends.flatMap Send.lands = (sends.filter Send.registration).flatMap Send.lands := by
  induction sends with
  | nil => rfl
  | cons s rest ih =>
      rw [List.flatMap_cons, ih]
      cases s <;> rfl

theorem registers_filter (owner : Pubkey) (sends : List Send) :
    sends.findSome? (Send.registers owner) =
      (sends.filter Send.registration).findSome? (Send.registers owner) := by
  induction sends with
  | nil => rfl
  | cons s rest ih =>
      rw [List.findSome?_cons, ih]
      cases s <;> rfl

/-- A tick that closes registration found nobody on its list. -/
theorem closing_tick {id : Nat}
    (h : .closeRegistration id ∈ (decided config memory w reads).tick.asked) :
    1 < w.pool.currentEpochId ∧ (∃ e, w.epochs.lookup (w.pool.currentEpochId - 1) = some e ∧
      e.epochId = id) ∧ (context config memory w reads).playersToRegister id = [] := by
  have cranked := decide_cranked (context config memory w reads) memory.tick
  have mem : .closeRegistration id ∈
      (decided config memory w reads).tick.asked.filter Send.registration :=
    List.mem_filter.mpr ⟨h, rfl⟩
  have batch : ∀ {epochId owners}, (.closeRegistration id : Send) ∉
      memory.tick.asked.filter Send.registration ++ [.register epochId owners] := by
    intro epochId owners hmem
    exact nomatch List.mem_singleton.mp hmem
  cases cranked with
  | aside h =>
      rw [decided, h.asked] at mem
      exact absurd mem List.not_mem_nil
  | refused _ _ asked =>
      rw [decided, asked] at mem
      exact absurd mem batch
  | registered _ _ _ asked =>
      rw [decided, asked] at mem
      exact absurd mem batch
  | @closed epoch _ hprev empty _ asked =>
      rw [decided, asked] at mem
      cases List.mem_singleton.mp mem
      obtain ⟨many, he⟩ := Option.ite_none_right_eq_some.mp hprev
      exact ⟨many, ⟨epoch, he, rfl⟩, empty⟩

/-- What a tick got confirmed of registrations, and remembers: nothing new, or one
batch for the previous epoch. -/
theorem confirmed_cases (config : Config) (memory : Memory) (w : World) (reads : Reads) :
    ((decided config memory w reads).tick.registeredRecently = memory.registeredRecently ∧
      (decided config memory w reads).tick.confirmed.flatMap Send.lands = [] ∧
      ∀ owner, (decided config memory w reads).tick.confirmed.findSome?
        (Send.registers owner) = none) ∨
    ∃ e owners now, 1 < w.pool.currentEpochId ∧
      w.epochs.lookup (w.pool.currentEpochId - 1) = some e ∧
      (∀ owner ∈ owners, owner ∈ playersToRegister reads.players w.epochs e.epochId) ∧
      (decided config memory w reads).tick.registeredRecently =
        memory.registeredRecently.remember REGISTERED_MEMORY_MS now owners ∧
      (decided config memory w reads).tick.confirmed.flatMap Send.lands =
        owners.map (.register e.epochId) ∧
      ∀ owner, (decided config memory w reads).tick.confirmed.findSome?
        (Send.registers owner) = if owner ∈ owners then some e.epochId else none := by
  have cranked := decide_cranked (context config memory w reads) memory.tick
  simp only [lands_filter (decided _ _ _ _).tick.confirmed,
    registers_filter _ (decided _ _ _ _).tick.confirmed]
  cases cranked with
  | aside h =>
      refine .inl ⟨h.registeredRecently, ?_, fun owner => ?_⟩
      · rw [decided, h.confirmed]
        rfl
      · rw [decided, h.confirmed]
        rfl
  | refused _ same _ confirmed =>
      refine .inl ⟨same, ?_, fun owner => ?_⟩
      · rw [decided, confirmed]
        rfl
      · rw [decided, confirmed]
        rfl
  | @registered epoch now hprev told _ confirmed =>
      obtain ⟨many, he⟩ := Option.ite_none_right_eq_some.mp hprev
      refine .inr ⟨epoch, _, now, many, he, ?_, told, ?_, fun owner => ?_⟩
      · intro owner mem
        exact (List.mem_filter.mp (List.mem_of_mem_take mem)).1
      · rw [decided, confirmed]
        exact List.append_nil _
      · rw [decided, confirmed]
        simp only [Memory.tick, List.filter_nil, List.nil_append, List.findSome?_cons,
          List.findSome?_nil, Send.registers]
        split <;> simp only [*]
  | closed landed _ _ same _ confirmed only =>
      have none : ∀ s ∈ landed, s.lands = [] ∧ ∀ owner, s.registers owner = none := by
        intro s hs
        rw [only s hs]
        exact ⟨rfl, fun owner => rfl⟩
      refine .inl ⟨same, ?_, fun owner => ?_⟩
      · rw [decided, confirmed]
        exact List.flatMap_eq_nil_iff.mpr fun s hs => (none s hs).1
      · rw [decided, confirmed]
        exact List.findSome?_eq_none_iff.mpr fun s hs => (none s hs).2 owner

end Ticks

/-- A Player sent a `register` for the previous epoch holds its interval. -/
def Sent (w : World) (owner : Pubkey) (id : Nat) : Prop :=
  id < w.pool.currentEpochId ∧ (id + 1 = w.pool.currentEpochId →
    ∃ p, w.players.lookup owner = some p ∧ p.regEpoch = id)

section Runs
variable {rt : Runtime} {config : Config} {history : History} {s : Service} {w w' : World}
  {owner : Pubkey} {id : Nat}

theorem Sent.kept (reachable : Reachable rt w) (h1 : 1 ≤ id) (sent : Sent w owner id)
    {steps : HexVault.History} (run : Steps (Step rt) w steps w') : Sent w' owner id := by
  have grows := steps_currentEpochId run
  have past := sent.1
  refine ⟨by omega, ?_⟩
  intro previous
  obtain ⟨p, hp, reg⟩ := sent.2 (by omega)
  exact stays_registered reachable h1 (by omega) hp reg run (by omega)

/-- What the operator remembers along a run: each owner for the epoch it was last
sent a registration for. -/
structure Remembering (rt : Runtime) (config : Config) (history : History) (s : Service) :
    Prop where
  reachable : Reachable rt s.chain
  told : ∀ owner, s.memory.registeredRecently.has owner = true →
    ∃ id, registeredFor config owner history = some id
  past : ∀ owner id, registeredFor config owner history = some id →
    1 ≤ id ∧ Sent s.chain owner id

theorem after_registeredRecently (memory : Memory) (outcome : Outcome) :
    (memory.after outcome).registeredRecently = outcome.tick.registeredRecently := by
  cases outcome with
  | finished => rfl
  | next => rfl
  | threw => rfl

theorem ticked_remembering {memory : Memory} {reads : Reads} {during : List Action} {u : World}
    {before after : HexVault.History} (hi : Remembering rt config history ⟨w, memory⟩)
    (mirrors : Mirrors reads.players w) (gap : replay rt during ([], w) = .ok (before, u))
    (landed : replay rt ((decided config memory w reads).tick.confirmed.flatMap Send.lands)
      ([], u) = .ok (after, w')) :
    Remembering rt config ((⟨w, memory⟩, .tick reads during) :: history)
      ⟨w', runOnce config memory w reads⟩ := by
  have reachable : Reachable rt w := hi.reachable
  have waited := replay_steps .start gap
  have whole := waited.append (replay_steps .start landed)
  refine ⟨steps_reachable reachable whole, ?_, ?_⟩
  · intro owner has
    rw [runOnce, after_registeredRecently] at has
    rw [registeredFor]
    cases confirmed_cases config memory w reads with
    | inl nothing =>
        rw [nothing.1] at has
        rw [nothing.2.2 owner, Option.none_or]
        exact hi.told owner has
    | inr batch =>
        obtain ⟨e, owners, now, -, -, -, told, -, sends⟩ := batch
        rw [told] at has
        rw [sends owner]
        cases Memo.has_of_remember has with
        | inl mem => exact ⟨e.epochId, by rw [if_pos mem, Option.some_or]⟩
        | inr old =>
            obtain ⟨id, hid⟩ := hi.told owner old
            by_cases mem : owner ∈ owners
            · exact ⟨e.epochId, by rw [if_pos mem, Option.some_or]⟩
            · exact ⟨id, by rw [if_neg mem, Option.none_or, hid]⟩
  · intro owner id hid
    rw [registeredFor] at hid
    have older : registeredFor config owner history = some id → 1 ≤ id ∧ Sent w' owner id := by
      intro h
      obtain ⟨h1, sent⟩ := hi.past owner id h
      exact ⟨h1, sent.kept reachable h1 whole⟩
    cases confirmed_cases config memory w reads with
    | inl nothing =>
        rw [nothing.2.2 owner, Option.none_or] at hid
        exact older hid
    | inr batch =>
        obtain ⟨e, owners, now, many, he, listed, -, lands, sends⟩ := batch
        rw [sends owner] at hid
        by_cases mem : owner ∈ owners
        · rw [if_pos mem, Option.some_or, Option.some.injEq] at hid
          subst hid
          have calendar := reachable_calendar reachable
          have accounts := reachable_accounts reachable
          have keyed := calendar.keyed he
          obtain ⟨p, e', hp, he', -, weight⟩ :=
            (mem_playersToRegister mirrors accounts.owned).mp (listed owner mem)
          rw [keyed.1] at he'
          obtain rfl := Option.some.inj (he.symm.trans he')
          have grows := steps_currentEpochId whole
          obtain ⟨x, hx, hstart, hends⟩ := calendar.previous many
          obtain rfl := Option.some.inj (he.symm.trans hx)
          have order := calendar.previousOrder many
          have now := calendar.currentOrder (by omega)
          rw [keyed.1]
          rw [lands, keyed.1] at landed
          have sent : Sent w' owner (w.pool.currentEpochId - 1) := by
            refine ⟨by omega, ?_⟩
            intro previous
            refine batch_registered reachable keyed.2.1 (by omega) he hp waited landed mem ?_
              (by omega)
            intro weight ps hpair
            have same := registrationWeight_eq (by omega) (accounts.updated hp).1 (by omega) hpair
            omega
          exact ⟨keyed.2.1, sent⟩
        · rw [if_neg mem, Option.none_or] at hid
          exact older hid

theorem run_remembering (run : OperatorRun rt config history s) :
    Remembering rt config history s := by
  obtain ⟨start, reachable, steps⟩ := run
  refine steps.invariant (P := Remembering rt config) ?_ ?_
  · exact ⟨reachable, fun _ has => absurd has Bool.false_ne_true, fun _ _ h => nomatch h⟩
  · intro history s event s' _ hi moves
    cases moves with
    | chain hs =>
        refine ⟨hi.reachable.next hs, hi.told, ?_⟩
        intro owner id hid
        obtain ⟨h1, sent⟩ := hi.past owner id hid
        exact ⟨h1, sent.kept hi.reachable h1 (.next .start hs)⟩
    | ticked mirrors gap landed => exact ticked_remembering hi mirrors gap landed

/-- Every eligible Player of an epoch holds its interval. -/
def Complete (w : World) (id : Nat) : Prop :=
  ∀ owner p e, w.players.lookup owner = some p → w.epochs.lookup id = some e →
    0 < registrationWeight p e → p.regEpoch = id

/-- An owner remembered for an earlier epoch is left out of the list, and still owed. -/
def LeftOut (config : Config) (history : History) (s : Service) (id : Nat) (owner : Pubkey) :
    Prop :=
  s.memory.registeredRecently.has owner = true ∧
    (∃ earlier, registeredFor config owner history = some earlier ∧ earlier < id) ∧
    ∃ p e, s.chain.players.lookup owner = some p ∧ s.chain.epochs.lookup id = some e ∧
      p.regEpoch ≠ id ∧ 0 < registrationWeight p e

/-- A tick that closes registration leaves an eligible Player out exactly when it
still remembers one from an earlier epoch. -/
theorem closing_complete (run : OperatorRun rt config history s) {reads : Reads}
    (mirrors : Mirrors reads.players s.chain)
    (closes : .closeRegistration id ∈ (decided config s.memory s.chain reads).tick.asked) :
    Complete s.chain id ↔ ∀ owner, ¬ LeftOut config history s id owner := by
  have hi := run_remembering run
  obtain ⟨many, ⟨e, he, hid⟩, nobody⟩ := closing_tick closes
  have keyed := (reachable_calendar hi.reachable).keyed he
  constructor
  · intro complete owner out
    obtain ⟨-, -, p, e, hp, he, free, weight⟩ := out
    exact free (complete owner p e hp he weight)
  · intro none owner p e' hp he' weight
    by_contra free
    have listed := (mem_playersToRegister mirrors (reachable_accounts hi.reachable).owned).mpr
      ⟨p, e', hp, he', free, weight⟩
    have filtered := List.filter_eq_nil_iff.mp nobody owner listed
    have remembered : s.memory.registeredRecently.has owner = true := by
      simpa only [Bool.not_eq_true', Bool.not_eq_false] using filtered
    obtain ⟨earlier, hearlier⟩ := hi.told owner remembered
    obtain ⟨-, past, registered⟩ := hi.past owner earlier hearlier
    refine none owner ⟨remembered, ⟨earlier, hearlier, ?_⟩, p, e', hp, he', free, weight⟩
    by_contra late
    obtain ⟨q, hq, reg⟩ := registered (by omega)
    obtain rfl := Option.some.inj (hp.symm.trans hq)
    omega

end Runs

/-- The first epoch's only Player is registered, and its close is complete. -/
theorem closing_complete_first : ∃ history s, OperatorRun HexVault.Demo.runtime Demo.config
    history s ∧ .closeRegistration 1 ∈
      (decided Demo.config s.memory s.chain (Demo.reads s.chain)).tick.asked ∧
    (Complete s.chain 1 ↔ ∀ owner, ¬ LeftOut Demo.config history s 1 owner) := by
  let player := HexVault.Demo.signer 3
  obtain ⟨⟨history, s⟩, hrun, hcheck⟩ := exists_of_any
    (x := Demo.operated [.setFeaturePause HexVault.Demo.admin .jackpot false,
        .deposit player (HexVault.Demo.wallet player) 100, .beginEpoch HexVault.Demo.operator,
        .wait 1100, .beginEpoch HexVault.Demo.operator] [Demo.tick, Demo.tick])
    (p := fun r => decide (Mirrors (Demo.reads r.2.chain).players r.2.chain) && decide
      (.closeRegistration 1 ∈ (decided Demo.config r.2.memory r.2.chain
        (Demo.reads r.2.chain)).tick.asked)) (by decide +kernel)
  simp only [Bool.and_eq_true, decide_eq_true_eq] at hcheck
  have run := Demo.operated_run hrun
  exact ⟨history, s, run, hcheck.2, closing_complete run hcheck.1 hcheck.2⟩

/-- The next epoch is closed on the same Player: it is still remembered. -/
theorem closing_incomplete : ∃ history s, OperatorRun HexVault.Demo.runtime Demo.config
    history s ∧ Mirrors (Demo.reads s.chain).players s.chain ∧ .closeRegistration 2 ∈
      (decided Demo.config s.memory s.chain (Demo.reads s.chain)).tick.asked ∧
    ¬ Complete s.chain 2 := by
  let player := HexVault.Demo.signer 3
  obtain ⟨⟨history, s⟩, hrun, hcheck⟩ := exists_of_any
    (x := Demo.operated [.setFeaturePause HexVault.Demo.admin .jackpot false,
        .deposit player (HexVault.Demo.wallet player) 100, .beginEpoch HexVault.Demo.operator,
        .wait 1100, .beginEpoch HexVault.Demo.operator]
      [Demo.tick, Demo.tick, Demo.tick,
        Demo.chain (.closeRegistration HexVault.Demo.operator 1 ⟨9⟩ (List.replicate 32 0)),
        Demo.chain (.wait 1200), Demo.chain (.beginEpoch HexVault.Demo.operator), Demo.tick])
    (p := fun r => decide (Mirrors (Demo.reads r.2.chain).players r.2.chain) && decide
      (.closeRegistration 2 ∈ (decided Demo.config r.2.memory r.2.chain
        (Demo.reads r.2.chain)).tick.asked) &&
      (r.2.chain.players.lookup ⟨3⟩).any fun p => (r.2.chain.epochs.lookup 2).any fun e =>
        0 < registrationWeight p e && p.regEpoch ≠ 2) (by decide +kernel)
  simp only [Bool.and_eq_true, decide_eq_true_eq, Option.any_eq_true] at hcheck
  obtain ⟨⟨mirrors, closes⟩, p, hp, e, he, weight, free⟩ := hcheck
  refine ⟨history, s, Demo.operated_run hrun, mirrors, closes, ?_⟩
  intro complete
  exact free (complete _ p e hp he weight)

end Operator

end HexVault
