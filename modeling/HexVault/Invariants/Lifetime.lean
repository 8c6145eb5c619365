import HexVault.Invariants.Books

/-!
The life of a Position. The Round keeps a counter and the Positions are accounts
of their own, so both are set beside the history: a Position was bought once and
is settled at most once, and the ones that are left are those bought and not
settled.
-/

namespace HexVault

open Fallible Finmap

def Action.buys (id : Nat) (owner : Pubkey) : Action → Bool
  | .buyPosition signer round _ _ => decide (round = id ∧ signer.key = owner)
  | _ => false

def Action.settles (id : Nat) (owner : Pubkey) : Action → Bool
  | .settlePosition round other => decide (round = id ∧ other = owner)
  | _ => false

/-- How often an owner bought a Position on a round. -/
def timesBought (id : Nat) (owner : Pubkey) (history : History) : Nat :=
  history.countP fun x => x.2.buys id owner

/-- How often an owner's Position on a round was settled. -/
def timesSettled (id : Nat) (owner : Pubkey) (history : History) : Nat :=
  history.countP fun x => x.2.settles id owner

/-- One where the owner has a Position on the round, none elsewhere. -/
def World.holds (w : World) (id : Nat) (owner : Pubkey) : Nat :=
  (w.positions.lookup (id, owner)).elim 0 fun _ => 1

/-- An action that neither buys nor settles a Position. -/
def Action.idle (a : Action) : Prop :=
  ∀ id owner, a.buys id owner = false ∧ a.settles id owner = false

theorem Action.idle_of_reconfigures {a : Action} (h : a.reconfigures = true) : a.idle := by
  intro id owner
  cases a <;> first | exact ⟨rfl, rfl⟩ | exact nomatch h

/-- The rounds a step leaves were there before, and one left unfinished was
unfinished, unless it is new. -/
def RoundsKept (w w' : World) : Prop :=
  ∀ id r', w'.rounds.lookup id = some r' → id < w'.pool.nextRoundId ∧
    (¬ isFinished r'.status → w.pool.nextRoundId ≤ id ∨
      ∃ r, w.rounds.lookup id = some r ∧ ¬ isFinished r.status)

structure Lifetime (history : History) (w : World) : Prop where
  created : ∀ {id r}, w.rounds.lookup id = some r → id < w.pool.nextRoundId
  fresh : ∀ {id}, w.pool.nextRoundId ≤ id → ∀ owner, timesBought id owner history = 0
  balance : ∀ id owner,
    timesSettled id owner history + w.holds id owner = timesBought id owner history
  once : ∀ id owner, timesBought id owner history ≤ 1
  waiting : ∀ {id r}, w.rounds.lookup id = some r → ¬ isFinished r.status →
    ∀ owner, timesSettled id owner history = 0

namespace Lifetime
variable {history : History} {w w' : World} {a : Action} {id : Nat} {owner : Pubkey} {r r' : Round}

theorem settled_none (hi : Lifetime history w) (h : timesBought id owner history = 0) :
    timesSettled id owner history = 0 :=
  Nat.eq_zero_of_le_zero (Nat.le_trans (Nat.le_add_right _ _)
    (Nat.le_of_eq ((hi.balance id owner).trans h)))

theorem timesBought_idle (quiet : a.idle) (id : Nat) (owner : Pubkey) :
    timesBought id owner ((w, a) :: history) = timesBought id owner history :=
  List.countP_cons_of_neg (Bool.not_eq_true _ ▸ (quiet id owner).1)

theorem timesSettled_idle (quiet : a.idle) (id : Nat) (owner : Pubkey) :
    timesSettled id owner ((w, a) :: history) = timesSettled id owner history :=
  List.countP_cons_of_neg (Bool.not_eq_true _ ▸ (quiet id owner).2)

/-- A step that leaves the Positions alone. -/
theorem keep (hi : Lifetime history w) (quiet : a.idle) (positions : w'.positions = w.positions)
    (next : w.pool.nextRoundId ≤ w'.pool.nextRoundId) (rounds : RoundsKept w w') :
    Lifetime ((w, a) :: history) w' := by
  refine ⟨fun hr => (rounds _ _ hr).1, ?_, ?_, ?_, ?_⟩
  · intro id hid owner
    rw [timesBought_idle quiet]
    exact hi.fresh (Nat.le_trans next hid) owner
  · intro id owner
    rw [timesBought_idle quiet, timesSettled_idle quiet, World.holds, positions]
    exact hi.balance id owner
  · intro id owner
    rw [timesBought_idle quiet]
    exact hi.once id owner
  · intro id r' hr hopen owner
    rw [timesSettled_idle quiet]
    cases (rounds _ _ hr).2 hopen with
    | inl new => exact hi.settled_none (hi.fresh new owner)
    | inr old =>
        obtain ⟨r, hr, hopen⟩ := old
        exact hi.waiting hr hopen owner

/-- Rounds left as they are. -/
theorem same (hi : Lifetime history w) (next : w'.pool.nextRoundId = w.pool.nextRoundId)
    (rounds : w'.rounds = w.rounds) : RoundsKept w w' := by
  intro id r hr
  rw [rounds] at hr
  exact ⟨next ▸ hi.created hr, fun hopen => .inr ⟨r, hr, hopen⟩⟩

/-- A round rewritten, and not taken back from an end. -/
theorem write (hi : Lifetime history w) (next : w'.pool.nextRoundId = w.pool.nextRoundId)
    (h : w.rounds.lookup id = some r) (rounds : w'.rounds = w.rounds.insert id r')
    (ended : ¬ isFinished r'.status → ¬ isFinished r.status) : RoundsKept w w' := by
  intro other x hx
  rw [next]
  rw [rounds] at hx
  cases lookup_insert_cases hx with
  | inl this =>
      obtain ⟨rfl, rfl⟩ := this
      exact ⟨hi.created h, fun hopen => .inr ⟨r, h, ended hopen⟩⟩
  | inr rest => exact ⟨hi.created rest.2, fun hopen => .inr ⟨x, rest.2, hopen⟩⟩

theorem erase (hi : Lifetime history w) (next : w'.pool.nextRoundId = w.pool.nextRoundId)
    (rounds : w'.rounds = w.rounds.erase id) : RoundsKept w w' := by
  intro other x hx
  rw [next]
  rw [rounds] at hx
  have before := lookup_of_erase hx
  exact ⟨hi.created before, fun hopen => .inr ⟨x, before, hopen⟩⟩

theorem create (hi : Lifetime history w) (next : w'.pool.nextRoundId = w.pool.nextRoundId + 1)
    (rounds : w'.rounds = w.rounds.insert w.pool.nextRoundId r) : RoundsKept w w' := by
  intro id x hx
  rw [next]
  rw [rounds] at hx
  cases lookup_insert_cases hx with
  | inl new =>
      obtain ⟨rfl, rfl⟩ := new
      exact ⟨Nat.lt_succ_self _, fun _ => .inl (Nat.le_refl _)⟩
  | inr rest =>
      exact ⟨Nat.lt_succ_of_lt (hi.created rest.2), fun hopen => .inr ⟨x, rest.2, hopen⟩⟩

theorem buy (hi : Lifetime history w) {signer : Signer} {tiles : BitVec 64} {stake : Nat}
    {x : Position} (next : w'.pool.nextRoundId = w.pool.nextRoundId)
    (h : w.rounds.lookup id = some r) (hopen : ¬ isFinished r.status)
    (hx : w.positions.lookup (id, signer.key) = none)
    (positions : w'.positions = w.positions.insert (id, signer.key) x)
    (rounds : w'.rounds = w.rounds.insert id r') :
    Lifetime ((w, .buyPosition signer id tiles stake) :: history) w' := by
  have kept : RoundsKept w w' := hi.write next h rounds fun _ => hopen
  have settled : ∀ other owner, timesSettled other owner
      ((w, .buyPosition signer id tiles stake) :: history) = timesSettled other owner history :=
    fun other owner => List.countP_cons_of_neg (by simp [Action.settles])
  have none : timesBought id signer.key history = 0 := by
    have balance := hi.balance id signer.key
    rw [hi.waiting h hopen, World.holds, hx] at balance
    exact balance.symm
  have bought : ∀ other owner, timesBought other owner
      ((w, .buyPosition signer id tiles stake) :: history) =
        timesBought other owner history + if id = other ∧ signer.key = owner then 1 else 0 := by
    intro other owner
    simp [timesBought, Action.buys, List.countP_cons]
  refine ⟨fun hr => (kept _ _ hr).1, ?_, ?_, ?_, ?_⟩
  · intro other hid owner
    rw [next] at hid
    rw [bought, hi.fresh hid, if_neg]
    rintro ⟨rfl, -⟩
    exact Nat.lt_irrefl _ (Nat.lt_of_lt_of_le (hi.created h) hid)
  · intro other owner
    rw [settled, bought, World.holds, positions]
    by_cases this : id = other ∧ signer.key = owner
    · obtain ⟨rfl, rfl⟩ := this
      rw [lookup_insert, if_pos ⟨rfl, rfl⟩, none, hi.settled_none none]
      rfl
    · have off : (other, owner) ≠ (id, signer.key) := by
        intro same
        exact this ⟨(congrArg Prod.fst same).symm, (congrArg Prod.snd same).symm⟩
      rw [lookup_insert_of_ne _ off, if_neg this]
      exact hi.balance other owner
  · intro other owner
    rw [bought]
    split
    · rename_i this
      obtain ⟨rfl, rfl⟩ := this
      rw [none]
    · exact hi.once other owner
  · intro other x' hr hlive owner
    rw [settled]
    cases (kept _ _ hr).2 hlive with
    | inl new => exact hi.settled_none (hi.fresh new owner)
    | inr old =>
        obtain ⟨y, hy, hlive⟩ := old
        exact hi.waiting hy hlive owner

theorem settle (hi : Lifetime history w) {x : Position} {opened : Nat}
    (next : w'.pool.nextRoundId = w.pool.nextRoundId) (h : w.rounds.lookup id = some r)
    (ended : isFinished r.status) (hx : w.positions.lookup (id, owner) = some x)
    (positions : w'.positions = w.positions.erase (id, owner))
    (rounds : w'.rounds = w.rounds.insert id { r with openPositions := opened }) :
    Lifetime ((w, .settlePosition id owner) :: history) w' := by
  have kept : RoundsKept w w' := hi.write next h rounds fun hopen => hopen
  have bought : ∀ other holder, timesBought other holder
      ((w, .settlePosition id owner) :: history) = timesBought other holder history :=
    fun other holder => List.countP_cons_of_neg (by simp [Action.buys])
  have settled : ∀ other holder, timesSettled other holder
      ((w, .settlePosition id owner) :: history) =
        timesSettled other holder history + if id = other ∧ owner = holder then 1 else 0 := by
    intro other holder
    simp [timesSettled, Action.settles, List.countP_cons]
  refine ⟨fun hr => (kept _ _ hr).1, ?_, ?_, ?_, ?_⟩
  · intro other hid holder
    rw [bought]
    exact hi.fresh (next ▸ hid) holder
  · intro other holder
    have balance := hi.balance other holder
    rw [settled, bought, World.holds, positions]
    by_cases this : id = other ∧ owner = holder
    · obtain ⟨rfl, rfl⟩ := this
      rw [World.holds, hx] at balance
      rw [lookup_erase, if_pos ⟨rfl, rfl⟩]
      exact balance
    · have off : (other, holder) ≠ (id, owner) := by
        intro same
        exact this ⟨(congrArg Prod.fst same).symm, (congrArg Prod.snd same).symm⟩
      rw [lookup_erase_ne off, if_neg this]
      exact balance
  · intro other holder
    rw [bought]
    exact hi.once other holder
  · intro other y hr hlive holder
    rw [settled, if_neg]
    · cases (kept _ _ hr).2 hlive with
      | inl new => exact hi.settled_none (hi.fresh new holder)
      | inr old =>
          obtain ⟨z, hz, hlive⟩ := old
          exact hi.waiting hz hlive holder
    · rintro ⟨rfl, -⟩
      rw [rounds, lookup_insert, Option.some.injEq] at hr
      exact hlive (hr ▸ ended)

end Lifetime

section Steps
variable {rt : Runtime} {history : History} {w w' : World} {a : Action}

theorem effect_lifetime (h : Effect rt w a w') (hi : Lifetime history w) :
    Lifetime ((w, a) :: history) w' := by
  have live : ∀ {r : Round}, r.status = .open → ¬ isFinished r.status := by
    intro r ho
    rw [ho]
    decide
  cases h with
  | reconfigured ha hr =>
      exact hi.keep (Action.idle_of_reconfigures ha) rfl (Nat.le_of_eq hr.nextRoundId.symm)
        (hi.same hr.nextRoundId rfl)
  | roundCreated =>
      exact hi.keep (fun _ _ => ⟨rfl, rfl⟩) rfl (Nat.le_succ _) (hi.create rfl rfl)
  | positionBought _ hr hx _ _ ho => exact hi.buy rfl hr (live ho) hx rfl rfl
  | positionSettled hr _ hx _ ended => exact hi.settle rfl hr ended hx rfl rfl
  | roundRequested hr ho =>
      exact hi.keep (fun _ _ => ⟨rfl, rfl⟩) rfl (Nat.le_refl _)
        (hi.write rfl hr rfl fun _ => live ho)
  | roundSettled hr _ hs =>
      refine hi.keep (fun _ _ => ⟨rfl, rfl⟩) rfl (Nat.le_refl _) (hi.write rfl hr rfl fun _ => ?_)
      rw [hs]
      decide
  | roundVoided hr =>
      refine hi.keep (fun _ _ => ⟨rfl, rfl⟩) rfl (Nat.le_refl _) (hi.write rfl hr rfl ?_)
      intro hopen
      exact absurd (.inr (.inr rfl)) hopen
  | roundClosed hr =>
      exact hi.keep (fun _ _ => ⟨rfl, rfl⟩) rfl (Nat.le_refl _) (hi.erase rfl rfl)
  | _ => exact hi.keep (fun _ _ => ⟨rfl, rfl⟩) rfl (Nat.le_refl _) (hi.same rfl rfl)

theorem run_lifetime (run : Run rt history w) : Lifetime history w := by
  refine run.invariant (P := Lifetime) ?_ fun _ hi hs => effect_lifetime (step_effect hs) hi
  intro start created
  obtain ⟨params, accounts, now, -, -, h⟩ := created
  obtain ⟨-, es, rfl⟩ := createPool_eq_ok h
  refine ⟨?_, fun _ _ => rfl, fun _ _ => rfl, fun _ _ => Nat.zero_le _, ?_⟩
  · intro id r hr
    exact nomatch hr
  · intro id r hr
    exact nomatch hr

/-- The next round has no account yet. -/
theorem nextRound_free (reachable : Reachable rt w) :
    w.rounds.lookup w.pool.nextRoundId = none := by
  obtain ⟨history, run⟩ := reachable
  cases hr : w.rounds.lookup w.pool.nextRoundId with
  | none => rfl
  | some r => exact absurd ((run_lifetime run).created hr) (Nat.lt_irrefl _)

/-- What `settle_position` may touch: the Position it closes and its owner's Player. -/
structure SettlesOwner (w : World) (id : Nat) (owner : Pubkey) (w' : World) : Prop where
  position : ∃ x, w.positions.lookup (id, owner) = some x ∧ x.owner = owner
  closed : w'.positions = w.positions.erase (id, owner)
  others : ∀ other, other ≠ owner → w'.players.lookup other = w.players.lookup other

/-- Every Position is settled at most once, and none outlives its round. -/
structure PositionsOnce (history : History) (w : World) : Prop where
  counted : ∀ id r, w.rounds.lookup id = some r →
    r.openPositions = total (positionsOn id) w.positions
  bought : ∀ id owner, timesBought id owner history ≤ 1
  settled : ∀ id owner,
    timesSettled id owner history + w.holds id owner = timesBought id owner history
  credits : ∀ id owner w', settlePosition id owner w = .ok w' → SettlesOwner w id owner w'
  closes : ∀ operator id w', closeRound operator id w = .ok w' →
    ∀ owner, w.positions.lookup (id, owner) = none
  stranded : ∀ id owner x, w.positions.lookup (id, owner) = some x →
    ∃ r, w.rounds.lookup id = some r

theorem settlePosition_owner (books : w.Books) {id : Nat} {owner : Pubkey}
    (h : Step rt w (.settlePosition id owner) w') : SettlesOwner w id owner w' := by
  cases step_effect h with
  | positionSettled _ _ hx =>
      refine ⟨⟨_, hx, books.keyed hx⟩, rfl, ?_⟩
      intro other hne
      exact lookup_insert_of_ne _ hne
  | reconfigured ha => exact nomatch ha

theorem closeRound_none (books : w.Books) {operator : Pubkey} {id : Nat}
    (h : Step rt w (.closeRound operator id) w') (owner : Pubkey) :
    w.positions.lookup (id, owner) = none := by
  cases step_effect h with
  | roundClosed hr _ zero => exact books.none_of_zero hr zero owner
  | reconfigured ha => exact nomatch ha

theorem positions_once (run : Run rt history w) : PositionsOnce history w := by
  have books := reachable_books run.reachable
  have life := run_lifetime run
  refine ⟨?_, life.once, life.balance, ?_, ?_, ?_⟩
  · intro id r hr
    exact (books.counted hr).symm
  · intro id owner w' h
    have step : Step rt w (.settlePosition id owner) w' := h
    exact settlePosition_owner books step
  · intro operator id w' h
    have step : Step rt w (.closeRound operator id) w' := h
    exact closeRound_none books step
  · intro id owner x hx
    exact books.known hx

end Steps

theorem positions_once_settled : ∃ history w, Run Demo.runtime history w ∧
    timesSettled 1 ⟨3⟩ history = 1 ∧ w.holds 1 ⟨4⟩ = 1 ∧ PositionsOnce history w := by
  let player := Demo.signer 3
  let other := Demo.signer 4
  obtain ⟨⟨history, w⟩, hrun, hcheck⟩ := exists_of_any
    (x := Demo.script [.setFeaturePause Demo.admin .game false,
      .deposit player (Demo.wallet player) 100, .deposit other (Demo.wallet other) 100,
      .createRound Demo.operator 1000 1010, .buyPosition player 1 1 10,
      .buyPosition other 1 2 10, .wait 1071, .voidRound 1 ⟨⟨9⟩, []⟩, .settlePosition 1 ⟨3⟩])
    (p := fun s => timesSettled 1 ⟨3⟩ s.1 = 1 && s.2.holds 1 ⟨4⟩ = 1) (by decide +kernel)
  simp only [Bool.and_eq_true, decide_eq_true_eq] at hcheck
  have run := Demo.script_run hrun
  exact ⟨history, w, run, hcheck.1, hcheck.2, positions_once run⟩

end HexVault
