import HexVault.Invariants.Accounts

/-!
The boundaries between epochs along a run: `begin_epoch` is the only step that
moves them, it may land long after the epoch it begins has started, and the
history of a run has the world each epoch was begun in.
-/

namespace HexVault

open Fallible

/-- The pool's calendar is the same. -/
structure SameSpan (pool pool' : Pool) : Prop where
  currentEpochId : pool'.currentEpochId = pool.currentEpochId
  currentEpochStart : pool'.currentEpochStart = pool.currentEpochStart
  currentEpochEndsAt : pool'.currentEpochEndsAt = pool.currentEpochEndsAt
  previousEpochStart : pool'.previousEpochStart = pool.previousEpochStart
  previousEpochEndsAt : pool'.previousEpochEndsAt = pool.previousEpochEndsAt

/-- An epoch was begun, at or after the start it was given. -/
structure Began (w w' : World) : Prop where
  currentEpochId : w'.pool.currentEpochId = w.pool.currentEpochId + 1
  previousEpochStart : w'.pool.previousEpochStart = w.pool.currentEpochStart
  previousEpochEndsAt : w'.pool.previousEpochEndsAt = w.pool.currentEpochEndsAt
  started : w'.pool.currentEpochStart ≤ w.clock
  ends : w.clock < w'.pool.currentEpochEndsAt
  clock : w'.clock = w.clock
  players : w'.players = w.players
  rounds : w'.rounds = w.rounds
  positions : w'.positions = w.positions
  carryPot : w'.pool.carryPot = w.pool.carryPot
  totalPrincipal : w'.pool.totalPrincipal = w.pool.totalPrincipal

def Action.beginsEpoch : Action → Bool
  | .beginEpoch _ => true
  | _ => false

/-- `v` is the world in which the epoch `id` was begun. -/
def BeganIn (history : History) (id : Nat) (v : World) : Prop :=
  ∃ operator, (v, Action.beginEpoch operator) ∈ history ∧ v.pool.currentEpochId + 1 = id

section Steps
variable {rt : Runtime} {w w' v : World} {a : Action} {history : History} {id : Nat}

theorem effect_span (range : w.pool.InRange) (calendar : w.Calendar) (h : Effect rt w a w') :
    ((∀ operator, a ≠ .beginEpoch operator) ∧ SameSpan w.pool w'.pool) ∨
      ((∃ operator, a = .beginEpoch operator) ∧ Began w w') := by
  cases h with
  | reconfigured ha hr =>
      refine .inl ⟨?_, hr.currentEpochId, hr.currentEpochStart, hr.currentEpochEndsAt,
        hr.previousEpochStart, hr.previousEpochEndsAt⟩
      intro operator heq
      rw [heq] at ha
      exact nomatch ha
  | epochBegan _ _ hend hfloor _ heq =>
      have bounds := epochBegan_bounds range calendar hend hfloor
      refine .inr ⟨⟨_, rfl⟩, rfl, rfl, rfl, bounds.2.1, ?_, rfl, rfl, rfl, rfl, rfl, rfl⟩
      rw [World.emit_pool, heq]
      exact bounds.2.2.1
  | _ => exact .inl ⟨nofun, rfl, rfl, rfl, rfl, rfl⟩

/-- Time passes between instructions, never within one. -/
theorem effect_moment (h : Effect rt w a w') :
    w'.clock = w.clock ∨ ∃ t, w.clock ≤ t ∧ a = .wait t ∧ w' = { w with clock := t } := by
  cases h with
  | @waited t hle => exact .inr ⟨t, hle, rfl, rfl⟩
  | _ => exact .inl rfl

theorem beganIn_kept (h : ∀ operator, a ≠ .beginEpoch operator) :
    BeganIn ((w, a) :: history) id v ↔ BeganIn history id v := by
  constructor
  · intro began
    obtain ⟨operator, hmem, hid⟩ := began
    cases List.mem_cons.mp hmem with
    | inl heq =>
        obtain ⟨-, heq⟩ := Prod.mk.inj heq
        exact absurd heq.symm (h operator)
    | inr older => exact ⟨operator, older, hid⟩
  · intro began
    obtain ⟨operator, hmem, hid⟩ := began
    exact ⟨operator, List.mem_cons_of_mem _ hmem, hid⟩

theorem beganIn_next (began : BeganIn ((w, a) :: history) id v) :
    (v = w ∧ w.pool.currentEpochId + 1 = id) ∨ BeganIn history id v := by
  obtain ⟨operator, hmem, hid⟩ := began
  cases List.mem_cons.mp hmem with
  | inl heq =>
      obtain ⟨rfl, -⟩ := Prod.mk.inj heq
      exact .inl ⟨rfl, hid⟩
  | inr older => exact .inr ⟨operator, older, hid⟩

/-- Every epoch up to the current one was begun once, and no later than its end. -/
structure Boundaries (history : History) (w : World) : Prop where
  begun : ∀ id, 1 ≤ id → id ≤ w.pool.currentEpochId → ∃ v, BeganIn history id v
  past : ∀ id v, BeganIn history id v → id ≤ w.pool.currentEpochId ∧ v.clock ≤ w.clock
  current : ∀ v, BeganIn history w.pool.currentEpochId v →
    w.pool.currentEpochStart ≤ v.clock ∧ v.clock < w.pool.currentEpochEndsAt
  previous : ∀ v, BeganIn history (w.pool.currentEpochId - 1) v →
    w.pool.previousEpochStart ≤ v.clock ∧ v.clock < w.pool.previousEpochEndsAt

theorem boundaries_kept (hi : Boundaries history w) (h : ∀ operator, a ≠ .beginEpoch operator)
    (same : SameSpan w.pool w'.pool) (later : w.clock ≤ w'.clock) :
    Boundaries ((w, a) :: history) w' where
  begun := by
    intro id h1 hid
    rw [same.currentEpochId] at hid
    obtain ⟨v, began⟩ := hi.begun id h1 hid
    exact ⟨v, (beganIn_kept h).mpr began⟩
  past := by
    intro id v began
    have old := hi.past id v ((beganIn_kept h).mp began)
    rw [same.currentEpochId]
    exact ⟨old.1, Int.le_trans old.2 later⟩
  current := by
    intro v began
    rw [same.currentEpochId] at began
    rw [same.currentEpochStart, same.currentEpochEndsAt]
    exact hi.current v ((beganIn_kept h).mp began)
  previous := by
    intro v began
    rw [same.currentEpochId] at began
    rw [same.previousEpochStart, same.previousEpochEndsAt]
    exact hi.previous v ((beganIn_kept h).mp began)

theorem boundaries_began (hi : Boundaries history w) (ha : ∃ operator, a = .beginEpoch operator)
    (began : Began w w') : Boundaries ((w, a) :: history) w' where
  begun := by
    intro id h1 hid
    rw [began.currentEpochId] at hid
    by_cases new : id = w.pool.currentEpochId + 1
    · obtain ⟨operator, rfl⟩ := ha
      exact ⟨w, operator, List.mem_cons_self .., new.symm⟩
    · obtain ⟨v, operator, hmem, hv⟩ := hi.begun id h1 (by omega)
      exact ⟨v, operator, List.mem_cons_of_mem _ hmem, hv⟩
  past := by
    intro id v hv
    rw [began.currentEpochId, began.clock]
    cases beganIn_next hv with
    | inl new =>
        obtain ⟨rfl, hid⟩ := new
        exact ⟨Nat.le_of_eq hid.symm, Int.le_refl _⟩
    | inr old =>
        have past := hi.past id v old
        exact ⟨Nat.le_succ_of_le past.1, past.2⟩
  current := by
    intro v hv
    rw [began.currentEpochId] at hv
    cases beganIn_next hv with
    | inl new =>
        obtain ⟨rfl, -⟩ := new
        exact ⟨began.started, began.ends⟩
    | inr old =>
        have past := hi.past _ v old
        omega
  previous := by
    intro v hv
    rw [began.currentEpochId, Nat.add_sub_cancel] at hv
    rw [began.previousEpochStart, began.previousEpochEndsAt]
    cases beganIn_next hv with
    | inl new => omega
    | inr old => exact hi.current v old

theorem run_boundaries (run : Run rt history w) : Boundaries history w := by
  refine run.invariant ?_ ?_
  · intro start created
    obtain ⟨params, accounts, now, -, -, h⟩ := created
    obtain ⟨-, es, rfl⟩ := createPool_eq_ok h
    have none : ∀ id v, ¬ BeganIn [] id v := by
      intro id v began
      obtain ⟨operator, hmem, -⟩ := began
      exact absurd hmem List.not_mem_nil
    refine ⟨?_, fun id v began => absurd began (none id v),
      fun v began => absurd began (none _ v), fun v began => absurd began (none _ v)⟩
    intro id h1 hid
    exact absurd hid (Nat.not_le_of_lt h1)
  · intro _ v b u before hi hs
    have reachable := before.reachable
    have effect := step_effect hs
    cases effect_span (reachable_inRange reachable) (reachable_calendar reachable) effect with
    | inl kept => exact boundaries_kept hi kept.1 kept.2 (effect_clock effect)
    | inr began => exact boundaries_began hi began.1 began.2

end Steps

end HexVault
