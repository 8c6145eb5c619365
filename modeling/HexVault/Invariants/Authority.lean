import HexVault.Invariants.Accounts
import HexVault.Program.Configuration

/-!
Who may do what. Without the admin's signature nothing of the configuration moves
but a pause going on and a proposed key taking over, and the principal vault pays
only Players, each into an account of its own owner. The shutdown is final, and
an admin is replaced only by the key it proposed.
-/

namespace HexVault

open Fallible Finmap Runs

/-- The key that has to sign an action. -/
def Action.signer : Action → Option Pubkey
  | .setParams admin _ | .shutdown admin | .setOperator admin _ | .proposeAdmin admin _
  | .adminWithdraw admin _ | .sweepHouse admin => some admin.key
  | .setPause signer _ | .setFeaturePause signer _ _ | .grantTickets signer _ _ =>
      some signer.key
  | .acceptAdmin pendingAdmin => some pendingAdmin.key
  | .deposit owner _ _ | .requestWithdraw owner _ | .buyTickets owner _ _
  | .buyPosition owner _ _ _ => some owner.key
  | .createRound operator _ _ | .beginEpoch operator | .closeRegistration operator _ _ _ =>
      some operator.key
  | .fundJackpot authority _ _ | .fundYield authority _ _ => some authority.key
  | _ => none

/-- A step the admin of its state did not sign. -/
def unsigned (x : World × Action) : Prop := x.2.signer ≠ some x.1.pool.admin

/-- A Player is paid what its Principal and its pending withdrawal drop by, into a
token account of its owner. -/
structure PaysPlayer (w : World) (a : Action) (w' : World) (owner : Pubkey)
    (token : TokenAccount) : Prop where
  action : a = .processWithdraw owner token ∨ a = .emergencyWithdraw owner token
  mint : token.mint = w.pool.acceptedMint
  player : ∃ p p', w.players.lookup owner = some p ∧ w'.players.lookup owner = some p' ∧
    p.owner = owner ∧ token.authority = p.owner ∧
    w.principalVault + (p'.principal + p'.pendingWithdraw) =
      w'.principalVault + (p.principal + p.pendingWithdraw)

/-- Every pause that was on is on. -/
structure PausesKept (pauses pauses' : Pauses) : Prop where
  paused : pauses.paused = true → pauses'.paused = true
  game : pauses.gamePaused = true → pauses'.gamePaused = true
  jackpot : pauses.jackpotPaused = true → pauses'.jackpotPaused = true

theorem PausesKept.refl (pauses : Pauses) : PausesKept pauses pauses := ⟨id, id, id⟩

theorem PausesKept.trans {p q r : Pauses} (h : PausesKept p q) (k : PausesKept q r) :
    PausesKept p r :=
  ⟨k.paused ∘ h.paused, k.game ∘ h.game, k.jackpot ∘ h.jackpot⟩

/-- The proposed key took over. -/
def Accepted (w : World) (span : History) (w' : World) : Prop :=
  w'.pool.admin = w.pool.pendingAdmin ∧
  ∃ u signer, (u, Action.acceptAdmin signer) ∈ span ∧ signer.key = w.pool.pendingAdmin

/-- What a span of steps the admin did not sign leaves behind. -/
structure Confined (w : World) (span : History) (w' : World) : Prop where
  params : w'.pool.params = w.pool.params
  operator : w'.pool.operator = w.pool.operator
  house : w'.pool.house = w.pool.house
  accounts : w'.pool.acceptedMint = w.pool.acceptedMint ∧ w'.pool.treasury = w.pool.treasury ∧
    w'.pool.buybackReserve = w.pool.buybackReserve
  admin : w'.pool.admin = w.pool.admin ∨ Accepted w span w'
  pauses : PausesKept w.pool.pauses w'.pool.pauses

/-- The admin's own proposal, the newest of the history and not yet taken up. -/
def Proposed (history : History) (w : World) (key : Pubkey) : Prop :=
  ∃ later earlier v signer, history = later ++ (v, .proposeAdmin signer key) :: earlier ∧
    signer.key = v.pool.admin ∧ v.pool.admin = w.pool.admin ∧
    ∀ x ∈ later, (∀ signer key, x.2 ≠ .proposeAdmin signer key) ∧
      ∀ signer, x.2 ≠ .acceptAdmin signer

section Steps
variable {rt : Runtime} {w w' u v : World} {a : Action} {history span : History}

/-- An effect that lowers the principal vault, unsigned by the admin, pays a Player. -/
theorem unsigned_payment (owned : Owned w.players) (h : Step rt w a w')
    (hu : unsigned (w, a)) (out : w'.principalVault < w.principalVault) :
    ∃ owner token, PaysPlayer w a w' owner token := by
  have effect := step_effect h
  cases effect with
  | @withdrawn owner token p es hp hv =>
      have h : processWithdraw owner token w = .ok _ := h
      simp only [processWithdraw, bind_eq_ok, World.player_eq_ok, checkDestination_eq_ok,
        exists_const] at h
      obtain ⟨q, hq, ⟨hmint, hauth⟩, -⟩ := h
      obtain rfl := Option.some.inj (hp.symm.trans hq)
      refine ⟨owner, token, .inl rfl, hmint, p, _, hp, lookup_insert _, (owned hp).1, hauth, ?_⟩
      simp only [World.emit_principalVault]
      omega
  | @emergencyWithdrawn owner token p q es hp ht _ _ hv =>
      have h : emergencyWithdraw owner token w = .ok _ := h
      simp only [emergencyWithdraw, bind_eq_ok, World.player_eq_ok, checkDestination_eq_ok,
        exists_const] at h
      obtain ⟨x, hx, ⟨hmint, hauth⟩, -⟩ := h
      obtain rfl := Option.some.inj (hp.symm.trans hx)
      have same := touch_sameHoldings ht
      refine ⟨owner, token, .inr rfl, hmint, p, _, hp, lookup_insert _, (owned hp).1, hauth, ?_⟩
      rw [← same.principal, ← same.pendingWithdraw]
      simp only [World.emit_principalVault]
      omega
  | @principalDeployed admin amount =>
      have h : adminWithdraw admin amount w = .ok _ := h
      obtain ⟨_, hadmin, -⟩ := bind_eq_ok.mp h
      exact absurd (congrArg some (constraint_eq_ok.mp hadmin)) hu
  | @houseSwept admin =>
      have h : sweepHouse admin w = .ok _ := h
      obtain ⟨_, hadmin, -⟩ := bind_eq_ok.mp h
      exact absurd (congrArg some (constraint_eq_ok.mp hadmin)) hu
  | principalReceived => exact absurd out (Nat.not_lt.mpr (Nat.le_add_right _ _))
  | deposited => exact absurd out (Nat.not_lt.mpr (Nat.le_add_right _ _))
  | yieldFunded => exact absurd out (Nat.not_lt.mpr (Nat.le_add_right _ _))
  | paidPlayer => exact absurd out (Nat.not_lt.mpr (Nat.le_add_right _ _))
  | _ => exact absurd out (Nat.lt_irrefl _)

/-- One step the admin did not sign: only an accepted proposal moves the roles. -/
theorem unsigned_step (h : Step rt w a w') (hu : unsigned (w, a)) :
    Confined w [(w, a)] w' ∧
      (w'.pool.pendingAdmin = w.pool.pendingAdmin ∨
        w'.pool.pendingAdmin = Pubkey.default) := by
  cases ha : a.reconfigures with
  | false =>
      have same := effect_sameConfig ha (step_effect h)
      have roles := same.roles
      refine ⟨⟨same.params, congrArg Roles.operator roles, congrArg Roles.house roles,
        ⟨congrArg Roles.acceptedMint roles, congrArg Roles.treasury roles,
          congrArg Roles.buybackReserve roles⟩, .inl (congrArg Roles.admin roles), ?_⟩,
        .inl (congrArg Roles.pendingAdmin roles)⟩
      rw [same.pauses]
      exact .refl _
  | true =>
      obtain ⟨pool, es, config, rfl⟩ := step_configured ha h
      cases config with
      | params hadmin => exact absurd (congrArg some hadmin) hu
      | shutdown hadmin => exact absurd (congrArg some hadmin) hu
      | operator hadmin => exact absurd (congrArg some hadmin) hu
      | proposed hadmin => exact absurd (congrArg some hadmin) hu
      | @paused signer paused may =>
          have on : paused = true := (may.resolve_left fun hadmin => hu (congrArg some hadmin)).1
          subst on
          exact ⟨⟨rfl, rfl, rfl, ⟨rfl, rfl, rfl⟩, .inl rfl, fun _ => rfl, id, id⟩, .inl rfl⟩
      | @featurePaused signer feature paused may =>
          have on : paused = true := (may.resolve_left fun hadmin => hu (congrArg some hadmin)).1
          subst on
          cases feature with
          | game =>
              exact ⟨⟨rfl, rfl, rfl, ⟨rfl, rfl, rfl⟩, .inl rfl, id, fun _ => rfl, id⟩, .inl rfl⟩
          | jackpot =>
              exact ⟨⟨rfl, rfl, rfl, ⟨rfl, rfl, rfl⟩, .inl rfl, id, id, fun _ => rfl⟩, .inl rfl⟩
      | @accepted signer hne signed =>
          exact ⟨⟨rfl, rfl, rfl, ⟨rfl, rfl, rfl⟩,
            .inr ⟨rfl, w, signer, List.mem_singleton_self _, signed⟩, .refl _⟩, .inr rfl⟩

/-- A span the admin did not sign: an acceptance in it is its only change of admin,
for the one who took over signs nothing either. -/
theorem unsigned_span (steps : Steps (Step rt) w span w') (hu : ∀ x ∈ span, unsigned x) :
    Confined w span w' ∧ (w'.pool.pendingAdmin = w.pool.pendingAdmin ∨
      w'.pool.pendingAdmin = Pubkey.default) := by
  induction steps with
  | start =>
      exact ⟨⟨rfl, rfl, rfl, ⟨rfl, rfl, rfl⟩, .inl rfl, .refl _⟩, .inl rfl⟩
  | @next span u v a before h ih =>
      obtain ⟨old, pending⟩ := ih fun x hx => hu x (List.mem_cons_of_mem _ hx)
      obtain ⟨step, kept⟩ := unsigned_step h (hu _ (List.mem_cons_self ..))
      refine ⟨⟨step.params.trans old.params, step.operator.trans old.operator,
        step.house.trans old.house, ?_, ?_, old.pauses.trans step.pauses⟩, ?_⟩
      · exact ⟨step.accounts.1.trans old.accounts.1, step.accounts.2.1.trans old.accounts.2.1,
          step.accounts.2.2.trans old.accounts.2.2⟩
      · cases step.admin with
        | inl same =>
            refine old.admin.imp same.trans ?_
            intro accepted
            obtain ⟨hadmin, x, signer, hx, signed⟩ := accepted
            exact ⟨same.trans hadmin, x, signer, List.mem_cons_of_mem _ hx, signed⟩
        | inr accepted =>
            obtain ⟨hadmin, x, signer, hx, signed⟩ := accepted
            cases pending with
            | inl same =>
                rw [same] at hadmin signed
                have first : (x, Action.acceptAdmin signer) ∈ (u, a) :: span := by
                  rw [List.mem_singleton.mp hx]
                  exact List.mem_cons_self ..
                exact .inr ⟨hadmin, x, signer, first, signed⟩
            | inr none => exact absurd (signed.trans none) signer.held
      · cases kept with
        | inl same => exact pending.imp same.trans same.trans
        | inr none => exact .inr none

theorem shutdown_final (steps : Steps (Step rt) w span w') (h : w.pool.shutdown = true) :
    w'.pool.shutdown = true := by
  induction steps with
  | start => exact h
  | @next span u v a before hs ih =>
      cases ha : a.reconfigures with
      | false =>
          have same := (effect_sameConfig ha (step_effect hs)).pauses
          exact (congrArg Pauses.shutdown same).trans ih
      | true =>
          obtain ⟨pool, es, config, rfl⟩ := step_configured ha hs
          cases config with
          | @featurePaused _ feature => cases feature <;> exact ih
          | shutdown => rfl
          | _ => exact ih

/-- A pending proposal is the newest one, by the admin there still is. -/
theorem run_proposed (run : Run rt history w) (h : w.pool.pendingAdmin ≠ Pubkey.default) :
    Proposed history w w.pool.pendingAdmin := by
  have all : w.pool.pendingAdmin ≠ Pubkey.default → Proposed history w w.pool.pendingAdmin := by
    refine run.invariant (P := fun history w => w.pool.pendingAdmin ≠ Pubkey.default →
      Proposed history w w.pool.pendingAdmin) ?_ ?_
    · intro start created hne
      obtain ⟨params, accounts, now, -, -, h⟩ := created
      obtain ⟨-, es, rfl⟩ := createPool_eq_ok h
      exact absurd rfl hne
    · intro history w a w' _ hi hs hne
      have older : w'.pool.pendingAdmin = w.pool.pendingAdmin → w'.pool.admin = w.pool.admin →
          ((∀ signer key, a ≠ .proposeAdmin signer key) ∧ ∀ signer, a ≠ .acceptAdmin signer) →
          Proposed ((w, a) :: history) w' w'.pool.pendingAdmin := by
        intro pending hadmin quiet
        rw [pending] at hne ⊢
        obtain ⟨later, earlier, v, signer, rfl, signed, same, rest⟩ := hi hne
        refine ⟨(w, a) :: later, earlier, v, signer, rfl, signed, same.trans hadmin.symm, ?_⟩
        intro x hx
        cases List.mem_cons.mp hx with
        | inl this => exact this ▸ quiet
        | inr old => exact rest x old
      cases ha : a.reconfigures with
      | false =>
          have roles := (effect_sameConfig ha (step_effect hs)).roles
          refine older (congrArg Roles.pendingAdmin roles) (congrArg Roles.admin roles) ?_
          refine ⟨?_, ?_⟩
          · rintro signer key rfl
            exact nomatch ha
          · rintro signer rfl
            exact nomatch ha
      | true =>
          obtain ⟨pool, es, config, rfl⟩ := step_configured ha hs
          cases config with
          | @proposed signer key hadmin =>
              exact ⟨[], history, w, signer, rfl, hadmin, rfl, fun x hx => absurd hx List.not_mem_nil⟩
          | accepted => exact absurd rfl hne
          | @featurePaused _ feature =>
              cases feature <;> exact older rfl rfl ⟨nofun, nofun⟩
          | _ => exact older rfl rfl ⟨nofun, nofun⟩
  exact all h

/-- The steps a change of admin takes: its own proposal, then an acceptance by
exactly the proposed key. -/
structure Handover (history : History) (w : World) (a : Action) (w' : World) : Prop where
  accepted : ∃ signer, a = .acceptAdmin signer ∧ signer.key = w'.pool.admin
  proposed : Proposed history w w'.pool.admin

theorem step_handover (run : Run rt history w) (h : Step rt w a w')
    (changed : w'.pool.admin ≠ w.pool.admin) : Handover history w a w' := by
  cases ha : a.reconfigures with
  | false =>
      have roles := (effect_sameConfig ha (step_effect h)).roles
      exact absurd (congrArg Roles.admin roles) changed
  | true =>
      obtain ⟨pool, es, config, rfl⟩ := step_configured ha h
      cases config with
      | accepted hne signed => exact ⟨⟨_, rfl, signed⟩, run_proposed run hne⟩
      | @featurePaused _ feature => cases feature <;> exact absurd rfl changed
      | _ => exact absurd rfl changed

/-- Authority over a pool, from any state of a run: over every span the admin does
not sign, after a shutdown, and wherever the admin changes. -/
structure AuthorityHeld (rt : Runtime) (history : History) (w : World) : Prop where
  payments : ∀ span u a v, Steps (Step rt) w ((u, a) :: span) v →
    (∀ x ∈ (u, a) :: span, unsigned x) → v.principalVault < u.principalVault →
    ∃ owner token, PaysPlayer u a v owner token
  confined : ∀ span w', Steps (Step rt) w span w' → (∀ x ∈ span, unsigned x) →
    Confined w span w'
  shutdown : ∀ span w', Steps (Step rt) w span w' → w.pool.shutdown = true →
    w'.pool.pauses = ⟨true, true, true, true⟩
  handover : ∀ a w', Step rt w a w' → w'.pool.admin ≠ w.pool.admin → Handover history w a w'

theorem authority_held (run : Run rt history w) : AuthorityHeld rt history w := by
  obtain ⟨start, created, before⟩ := run
  have reached : ∀ {span w'}, Steps (Step rt) w span w' → Reachable rt w' :=
    fun steps => ⟨_, start, created, before.append steps⟩
  refine ⟨?_, ?_, ?_, fun a w' => step_handover ⟨start, created, before⟩⟩
  · intro span u a v steps hu out
    cases steps with
    | next earlier h =>
        exact unsigned_payment (reachable_accounts (reached earlier)).owned h
          (hu _ (List.mem_cons_self ..)) out
  · intro span w' steps hu
    exact (unsigned_span steps hu).1
  · intro span w' steps shut
    have still := shutdown_final steps shut
    obtain ⟨paused, game, jackpot⟩ := reachable_consistent (reached steps) still
    simp only [Pool.pauses] at paused game jackpot
    rw [Pool.pauses, still, paused, game, jackpot]

end Steps

theorem authority_held_demo : ∃ history w, Run Demo.runtime history w ∧
    w.pool.admin = ⟨7⟩ ∧ AuthorityHeld Demo.runtime history w := by
  obtain ⟨⟨history, w⟩, hrun, hcheck⟩ := exists_of_any
    (x := Demo.script [.proposeAdmin Demo.admin ⟨7⟩, .acceptAdmin (Demo.signer 7)])
    (p := fun s => s.2.pool.admin = ⟨7⟩) (by decide +kernel)
  have run := Demo.script_run hrun
  exact ⟨history, w, run, of_decide_eq_true hcheck, authority_held run⟩

end HexVault
