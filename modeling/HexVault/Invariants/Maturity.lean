import HexVault.Invariants.Boundaries
import HexVault.Program.Configuration

/-!
When a requested withdrawal may leave. A request made in an epoch waits for that
epoch to be left behind, or for `epoch_seconds` to pass; the second is measured
with the parameter as it stands when the payment is tried, not as it stood when
the epoch was begun.
-/

namespace HexVault

open Fallible Finmap

/-- The world in which an owner last requested a withdrawal. -/
def lastRequest (owner : Pubkey) : History → Option World
  | [] => none
  | (w, .requestWithdraw signer _) :: earlier =>
      if signer.key = owner then some w else lastRequest owner earlier
  | _ :: earlier => lastRequest owner earlier

/-- No withdrawal requested in an epoch was paid before that epoch's end. -/
def NeverEarly (history : History) : Prop :=
  ∀ later earlier v owner token request,
    history = later ++ (v, .processWithdraw owner token) :: earlier →
    v.pool.shutdown = false → lastRequest owner earlier = some request →
    1 ≤ request.pool.currentEpochId →
    ∃ e, v.epochs.lookup request.pool.currentEpochId = some e ∧ e.endsAt ≤ v.clock

/-- The time a payment could be made without the epoch counter, a second past the
request plus `epoch_seconds`, is not before the end of the epoch still running. -/
def outlasts (x : World × Action) : Bool :=
  match x.2 with
  | .processWithdraw owner _ => (x.1.players.lookup owner).all fun p =>
      decide (1 ≤ x.1.pool.currentEpochId → p.pendingEpoch = x.1.pool.currentEpochId →
        x.1.pool.currentEpochEndsAt ≤ p.requestedAt + x.1.pool.epochSeconds + 1)
  | _ => true

/-- A Player still holds the request it held. -/
structure SameRequest (p q : Player) : Prop where
  pendingEpoch : q.pendingEpoch = p.pendingEpoch
  requestedAt : q.requestedAt = p.requestedAt

theorem Player.SameHoldings.sameRequest {p q : Player} (h : p.SameHoldings q) : SameRequest p q :=
  ⟨h.pendingEpoch, h.requestedAt⟩

theorem initIfFresh_sameRequest (p : Player) (owner : Pubkey) (pool : Pool) (now : Int) :
    SameRequest p (p.initIfFresh owner pool now) := by
  unfold Player.initIfFresh
  split
  · exact ⟨rfl, rfl⟩
  · exact ⟨rfl, rfl⟩

theorem Credited.sameRequest {p q : Player} {tickets : Nat} (h : Credited p tickets q) :
    SameRequest p q := by
  rw [h.player]
  exact ⟨rfl, rfl⟩

/-- Every Player of a map still holds the request it held in another. -/
def SameRequests (players players' : Finmap fun _ : Pubkey => Player) (owner : Pubkey) : Prop :=
  ∀ p, players.lookup owner = some p → ∃ q, players'.lookup owner = some q ∧ SameRequest p q

section Steps
variable {rt : Runtime} {w w' : World} {a : Action} {owner : Pubkey}
  {players : Finmap fun _ : Pubkey => Player}

theorem SameRequests.refl : SameRequests players players owner :=
  fun p hp => ⟨p, hp, rfl, rfl⟩

theorem SameRequests.insert {key : Pubkey} {p q r : Player} (h : players.lookup key = some p)
    (touched : SameRequest p q) (written : SameRequest q r) :
    SameRequests players (players.insert key r) owner := by
  intro x hx
  by_cases same : owner = key
  · subst same
    obtain rfl := Option.some.inj (h.symm.trans hx)
    exact ⟨r, lookup_insert _, written.pendingEpoch.trans touched.pendingEpoch,
      written.requestedAt.trans touched.requestedAt⟩
  · exact ⟨x, (lookup_insert_of_ne _ same).trans hx, rfl, rfl⟩

/-- Only its owner's own request overwrites a request. -/
theorem effect_sameRequests (h : Effect rt w a w')
    (other : ∀ signer amount, a = .requestWithdraw signer amount → signer.key ≠ owner) :
    SameRequests w.players w'.players owner := by
  cases h with
  | @deposited signer token amount q es ht =>
      intro p hp
      by_cases same : owner = signer.key
      · subst same
        rw [hp, Option.getD_some] at ht
        have old := initIfFresh_sameRequest p signer.key w.pool w.clock
        have touched := (touch_sameHoldings ht).sameRequest
        exact ⟨_, lookup_insert _, touched.pendingEpoch.trans old.pendingEpoch,
          touched.requestedAt.trans old.requestedAt⟩
      · exact ⟨p, (lookup_insert_of_ne _ same).trans hp, rfl, rfl⟩
  | @withdrawRequested signer amount _ _ _ ha =>
      intro p hp
      have hne := other signer amount rfl
      exact ⟨p, (lookup_insert_of_ne _ (Ne.symm hne)).trans hp, rfl, rfl⟩
  | withdrawn ha => exact .insert ha ⟨rfl, rfl⟩ ⟨rfl, rfl⟩
  | emergencyWithdrawn ha ht =>
      exact .insert ha (touch_sameHoldings ht).sameRequest ⟨rfl, rfl⟩
  | ticketsBought ha ht _ _ _ hc =>
      exact .insert ha (touch_sameHoldings ht).sameRequest hc.sameRequest
  | ticketsGranted ha ht hc =>
      exact .insert ha (touch_sameHoldings ht).sameRequest hc.sameRequest
  | positionBought ha _ _ ht =>
      exact .insert ha (touch_sameHoldings ht).sameRequest ⟨rfl, rfl⟩
  | roundSettled _ ha _ _ hs => exact .insert ha hs.sameHoldings.sameRequest ⟨rfl, rfl⟩
  | positionSettled _ ha _ ht =>
      exact .insert ha (touch_sameHoldings ht).sameRequest ⟨rfl, rfl⟩
  | registeredNothing _ ha _ _ _ _ _ hy =>
      exact .insert ha hy.sameHoldings.sameRequest ⟨rfl, rfl⟩
  | registered _ ha _ _ _ _ _ _ hy =>
      exact .insert ha hy.sameHoldings.sameRequest ⟨rfl, rfl⟩
  | paidPlayer _ ha _ _ _ _ _ ht =>
      exact .insert ha (touch_sameHoldings ht).sameRequest ⟨rfl, rfl⟩
  | _ => exact .refl

/-- Every epoch up to the current one has its account, and the ones before it
have ended. -/
def World.EpochsEnded (w : World) : Prop :=
  ∀ id, 1 ≤ id → id ≤ w.pool.currentEpochId →
    ∃ e, w.epochs.lookup id = some e ∧ (id < w.pool.currentEpochId → e.endsAt ≤ w.clock)

theorem effect_epochsEnded (range : w.pool.InRange) (calendar : w.Calendar)
    (calendar' : w'.Calendar) (h : Effect rt w a w') (hi : w.EpochsEnded) : w'.EpochsEnded := by
  have later := effect_clock h
  intro id h1 hid
  cases effect_span range calendar h with
  | inl same =>
      obtain ⟨-, span⟩ := same
      rw [span.currentEpochId] at hid ⊢
      obtain ⟨e, he, hend⟩ := hi id h1 hid
      obtain ⟨e', he', -, -, hsame⟩ := effect_epoch h he
      exact ⟨e', he', fun hlt => hsame ▸ Int.le_trans (hend hlt) later⟩
  | inr began =>
      obtain ⟨-, began⟩ := began
      rw [began.currentEpochId] at hid ⊢
      by_cases new : id = w.pool.currentEpochId + 1
      · obtain ⟨e, he, -⟩ := calendar'.current (Nat.le_trans h1 (began.currentEpochId ▸ hid))
        rw [began.currentEpochId, ← new] at he
        exact ⟨e, he, fun hlt => absurd new (Nat.ne_of_lt hlt)⟩
      · have old : id ≤ w.pool.currentEpochId := Nat.le_of_lt_succ (Nat.lt_of_le_of_ne hid new)
        obtain ⟨e, he, hend⟩ := hi id h1 old
        obtain ⟨e', he', -, -, hsame⟩ := effect_epoch h he
        refine ⟨e', he', fun _ => hsame ▸ ?_⟩
        cases Nat.lt_or_eq_of_le old with
        | inl past => exact Int.le_trans (hend past) later
        | inr current =>
            subst current
            obtain ⟨x, hx, -, hends⟩ := calendar.current h1
            obtain rfl := Option.some.inj (hx.symm.trans he)
            have two : 2 ≤ w'.pool.currentEpochId := by
              rw [began.currentEpochId]
              exact Nat.succ_le_succ h1
            have order := (calendar'.previousOrder two).2.2
            have start := (calendar'.currentOrder (Nat.le_of_succ_le two)).2.2.1
            rw [began.previousEpochEndsAt, ← hends] at order
            exact Int.le_trans order start

theorem reachable_epochsEnded (h : Reachable rt w) : w.EpochsEnded := by
  refine h.invariant (P := fun w => w.EpochsEnded) ?_ ?_
  · intro start created
    obtain ⟨params, accounts, now, -, -, h⟩ := created
    obtain ⟨-, es, rfl⟩ := createPool_eq_ok h
    intro id h1 hid
    exact absurd (Nat.le_trans h1 hid) (Nat.not_succ_le_zero 0)
  · intro w a w' before hi hs
    exact effect_epochsEnded (reachable_inRange before) (reachable_calendar before)
      (reachable_calendar (before.next hs)) (step_effect hs) hi

/-- What the last request of each owner left in its Player. -/
def Requested (history : History) (w : World) : Prop :=
  ∀ owner request, lastRequest owner history = some request →
    ∃ p, w.players.lookup owner = some p ∧ p.pendingEpoch = request.pool.currentEpochId ∧
      p.requestedAt = request.clock ∧ request.pool.currentEpochId ≤ w.pool.currentEpochId

theorem lastRequest_other {history : History}
    (other : ∀ signer amount, a = .requestWithdraw signer amount → signer.key ≠ owner) :
    lastRequest owner ((w, a) :: history) = lastRequest owner history := by
  cases a with
  | requestWithdraw signer amount => exact if_neg (other signer amount rfl)
  | _ => rfl

theorem effect_requested {history : History} (h : Effect rt w a w')
    (hi : Requested history w) : Requested ((w, a) :: history) w' := by
  have epochs := effect_currentEpochId h
  intro owner request hr
  by_cases own : ∃ signer amount, a = .requestWithdraw signer amount ∧ signer.key = owner
  · obtain ⟨signer, amount, rfl, rfl⟩ := own
    rw [lastRequest, if_pos rfl, Option.some.injEq] at hr
    subst hr
    cases h with
    | withdrawRequested ha ht => exact ⟨_, lookup_insert _, rfl, rfl, epochs⟩
    | reconfigured ha => exact nomatch ha
  · have other : ∀ signer amount, a = .requestWithdraw signer amount → signer.key ≠ owner :=
      fun signer amount heq hkey => own ⟨signer, amount, heq, hkey⟩
    rw [lastRequest_other other] at hr
    obtain ⟨p, hp, hepoch, hat, hcur⟩ := hi owner request hr
    obtain ⟨q, hq, same⟩ := effect_sameRequests h other p hp
    exact ⟨q, hq, same.pendingEpoch.trans hepoch, same.requestedAt.trans hat,
      Nat.le_trans hcur epochs⟩

theorem run_requested {history : History} (run : Run rt history w) : Requested history w := by
  refine run.invariant (P := Requested) ?_ fun _ hi hs => effect_requested (step_effect hs) hi
  intro start _ owner request hr
  exact nomatch hr

/-- Why a request was due: the pool was shut down, its epoch was left behind, or
its deadline had passed. -/
theorem processWithdraw_due {token : TokenAccount}
    (h : Step rt w (.processWithdraw owner token) w') : ∃ p,
      w.players.lookup owner = some p ∧ (w.pool.shutdown = true ∨
        p.pendingEpoch < w.pool.currentEpochId ∨
        p.requestedAt + w.pool.epochSeconds < w.clock) := by
  have h : processWithdraw owner token w = .ok w' := h
  simp only [processWithdraw, bind_eq_ok, World.player_eq_ok, ensure_eq_ok, addI64_eq_ok,
    exists_const] at h
  obtain ⟨p, hp, _, -, -, _, ⟨-, rfl⟩, due, -⟩ := h
  exact ⟨p, hp, due⟩

/-- A payment whose deadline outlasts the running epoch is not early. -/
theorem processWithdraw_notEarly {history : History} (run : Run rt history w)
    {token : TokenAccount} {request : World} (h : Step rt w (.processWithdraw owner token) w')
    (hopen : w.pool.shutdown = false) (hc : outlasts (w, .processWithdraw owner token) = true)
    (hr : lastRequest owner history = some request) (h1 : 1 ≤ request.pool.currentEpochId) :
    ∃ e, w.epochs.lookup request.pool.currentEpochId = some e ∧ e.endsAt ≤ w.clock := by
  obtain ⟨p, hp, hepoch, -, hcur⟩ := run_requested run owner request hr
  obtain ⟨q, hq, due⟩ := processWithdraw_due h
  obtain rfl := Option.some.inj (hp.symm.trans hq)
  obtain ⟨e, he, hend⟩ := reachable_epochsEnded run.reachable _ h1 hcur
  refine ⟨e, he, ?_⟩
  cases Nat.lt_or_eq_of_le hcur with
  | inl past => exact hend past
  | inr current =>
      have latest : p.pendingEpoch = w.pool.currentEpochId := hepoch.trans current
      simp only [outlasts, hp, Option.all_some, decide_eq_true_eq] at hc
      have outlast := hc (current ▸ h1) latest
      obtain ⟨x, hx, -, hends⟩ := (reachable_calendar run.reachable).current (current ▸ h1)
      rw [← current] at hx
      obtain rfl := Option.some.inj (hx.symm.trans he)
      obtain shut | left | passed := due
      · rw [hopen] at shut
        exact nomatch shut
      · omega
      · omega

theorem withdrawal_never_early {history : History} (run : Run rt history w)
    (hc : ∀ x ∈ history, outlasts x = true) : NeverEarly history := by
  refine run.invariantWhile (P := fun history _ => NeverEarly history) ?_ ?_ hc
  · intro start _ later earlier v owner token request heq
    exact absurd heq.symm (List.append_ne_nil_of_right_ne_nil _ (List.cons_ne_nil _ _))
  · intro history w a w' before hi hc hs later earlier v owner token request heq hopen hr h1
    cases later with
    | cons x later =>
        exact hi later earlier v owner token request (List.cons.inj heq).2 hopen hr h1
    | nil =>
        obtain ⟨first, rfl⟩ := List.cons.inj heq
        obtain ⟨rfl, rfl⟩ := Prod.mk.inj first
        exact processWithdraw_notEarly before hs hopen hc hr h1

end Steps

/-! Epochs of 2000 seconds, of which one is running when the parameter changes. -/

namespace Demo

/-- A deposit, and a request for half of it in epoch 1, which ends at 3000. -/
def requested : List Action :=
  [.setParams admin (setEpochSeconds 2000), .setFeaturePause admin .jackpot false,
    .deposit (signer 3) (wallet (signer 3)) 100, .beginEpoch operator,
    .requestWithdraw (signer 3) 50]

end Demo

theorem withdrawal_never_early_paid : ∃ history w, Run Demo.runtime history w ∧
    w.principalVault = 50 ∧ NeverEarly history := by
  let player := Demo.signer 3
  obtain ⟨⟨history, w⟩, hrun, hcheck⟩ := exists_of_any
    (x := Demo.script (Demo.requested ++ [.wait 3001,
      .processWithdraw ⟨3⟩ (Demo.wallet player)]))
    (p := fun s => s.1.all outlasts && s.2.principalVault = 50) (by decide +kernel)
  simp only [Bool.and_eq_true, List.all_eq_true, decide_eq_true_eq] at hcheck
  have run := Demo.script_run hrun
  exact ⟨history, w, run, hcheck.2, withdrawal_never_early run hcheck.1⟩

/-- `epoch_seconds` cut to 601 while epoch 1 runs: the request is paid at 1602,
1398 seconds before that epoch ends. -/
theorem withdrawal_early : ∃ history w, Run Demo.runtime history w ∧ ¬ NeverEarly history := by
  let player := Demo.signer 3
  obtain ⟨⟨earlier, v⟩, hrun, hcheck⟩ := exists_of_any
    (x := Demo.script (Demo.requested ++
      [.setParams Demo.admin (Demo.setEpochSeconds 601), .wait 1602]))
    (p := fun s => (perform Demo.runtime
        (.processWithdraw ⟨3⟩ (Demo.wallet player)) s.2).toOption.isSome &&
      s.2.pool.shutdown = false && s.2.clock = 1602 &&
      ((lastRequest ⟨3⟩ s.1).any fun request => request.pool.currentEpochId = 1) &&
      (s.2.epochs.lookup 1).all fun e => e.endsAt = 3000)
    (by decide +kernel)
  simp only [Bool.and_eq_true, Option.any_eq_true, Option.all_eq_true, decide_eq_true_eq,
    Option.isSome_iff_exists] at hcheck
  obtain ⟨⟨⟨⟨⟨w, hw⟩, hopen⟩, hclock⟩, request, hr, hcur⟩, hends⟩ := hcheck
  have step : Step Demo.runtime v (.processWithdraw ⟨3⟩ (Demo.wallet player)) w :=
    ok_of_toOption hw
  refine ⟨_, w, (Demo.script_run hrun).next step, ?_⟩
  intro never
  obtain ⟨e, he, hle⟩ := never [] earlier v ⟨3⟩ _ request rfl hopen hr (Nat.le_of_eq hcur.symm)
  rw [hcur] at he
  have late := hends e he
  omega

end HexVault
