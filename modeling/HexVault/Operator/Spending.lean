import HexVault.Invariants.Workload
import HexVault.Operator.Registered
import HexVault.Operator.Sound

/-!
What the operator pays for. Apart from the referral grants, each instruction of a
transaction it got confirmed does work the pool had for its crank, so that over a run it
lands no more of them than there was to do and time and others left to be done.
-/

namespace HexVault

open Fallible Finmap Runs

/-- What a run of the chain leaves to be done, and what its crank did. -/
theorem Steps.work {rt : Runtime} {start w : World} {history : History}
    (reachable : Reachable rt start) (steps : Steps (Step rt) start history w) :
    w.work + tally (fun x => x.2.crank x.1) history ≤
      start.work + tally (fun x => x.2.charge x.1) history :=
  Runs.Steps.paid World.work (fun before h => step_work (steps_reachable reachable before) h) steps

namespace Operator

/-- What a transaction carries besides the addresses the tick read. -/
structure Carried where
  signer : Signer
  data : Bytes → Bytes
  nonce : Bytes
  token : Pubkey → TokenAccount

section Sends
variable (rt : Runtime)

/-- The program's instructions in a transaction, in their order. -/
def Send.actions (carried : Carried) (w : World) : Send → List Action
  | .settlePositions roundId batch =>
      batch.map fun position => .settlePosition roundId position.owner
  | .closeRound roundId => [.closeRound carried.signer.key roundId]
  | .grantTickets grants =>
      grants.map fun grant => .grantTickets carried.signer grant.referrer grant.amount
  | .register epochId owners => owners.map (.register epochId)
  | .payout epochId winner => [.payout epochId winner]
  | .processWithdrawals batch =>
      batch.map fun due => .processWithdraw due.owner (carried.token due.owner)
  | sent => (sent.instruction rt carried.signer carried.data carried.nonce w).toList

/-- A tick's transactions on the chain: what others did before they landed, and their own
instructions. -/
structure Turnover where
  others : HexVault.History
  landed : HexVault.History

/-- The service's moves with every transaction that was confirmed on the chain. -/
inductive Turns (config : Config) : Service → Turnover → Service → Prop
  | chain {w w' : World} {memory : Memory} {a : Action} : Step rt w a w' →
      Turns config ⟨w, memory⟩ ⟨[(w, a)], []⟩ ⟨w', memory⟩
  | ticked {w u w' : World} {memory : Memory} {reads : Reads} {carried : Carried}
      {during : List Action} {before after : HexVault.History} :
      Mirrors reads.players w → replay rt during ([], w) = .ok (before, u) →
      replay rt ((decided config memory w reads).tick.confirmed.flatMap
        (Send.actions rt carried w)) ([], u) = .ok (after, w') →
      Turns config ⟨w, memory⟩ ⟨before, after⟩ ⟨w', runOnce config memory w reads⟩

/-- A turn taken, the transactions of a tick with the same keys and answers. -/
def turn (config : Config) (carried : Carried) (event : Event) (s : Service) :
    Result (Turnover × Service) :=
  match event with
  | .chain a => do
      let chain ← perform rt a s.chain
      return (⟨[(s.chain, a)], []⟩, { s with chain })
  | .tick reads during => do
      require (Mirrors reads.players s.chain) .abort
      let (others, u) ← replay rt during ([], s.chain)
      let sends := (decided config s.memory s.chain reads).tick.confirmed
      let (landed, chain) ← replay rt (sends.flatMap (Send.actions rt carried s.chain)) ([], u)
      return (⟨others, landed⟩, { chain, memory := runOnce config s.memory s.chain reads })

variable {rt} {config : Config} {carried : Carried}

end Sends

def Action.grants : Action → Bool
  | .grantTickets .. => true
  | _ => false

/-- The instructions the operator paid for, the grants apart. -/
def Turnover.spent (turnover : Turnover) : Nat :=
  tally (fun x => if Action.grants x.2 then 0 else 1) turnover.landed

section Landing
variable {rt : Runtime} {config : Config} {memory : Memory} {reads : Reads} {carried : Carried}
  {w u w' : World} {a : Action} {s : Send} {owner : Pubkey} {id : Nat}

/-- Every instruction but a grant or a registration is one of the crank's. -/
theorem actions_crank (h : a ∈ s.actions rt carried w) : Action.grants a = true ∨
    (∃ epochId owner, a = .register epochId owner ∧ a ∈ s.lands) ∨ ∀ v, a.crank v = 1 := by
  cases s with
  | settlePositions roundId batch =>
      obtain ⟨position, -, rfl⟩ := List.mem_map.mp h
      exact .inr (.inr fun v => rfl)
  | closeRound roundId =>
      cases List.mem_singleton.mp h
      exact .inr (.inr fun v => rfl)
  | grantTickets grants =>
      obtain ⟨grant, -, rfl⟩ := List.mem_map.mp h
      exact .inl rfl
  | register epochId owners =>
      obtain ⟨owner, mem, rfl⟩ := List.mem_map.mp h
      exact .inr (.inl ⟨epochId, owner, rfl, List.mem_map_of_mem mem⟩)
  | payout epochId winner =>
      cases List.mem_singleton.mp h
      exact .inr (.inr fun v => rfl)
  | processWithdrawals batch =>
      obtain ⟨due, -, rfl⟩ := List.mem_map.mp h
      exact .inr (.inr fun v => rfl)
  | requestRoundRandomness | beginEpoch | closeRegistration | createRound =>
      change a ∈ (some _).toList at h
      cases Option.mem_toList.mp h
      exact .inr (.inr fun v => rfl)
  | voidRound | settleRound | draw | rolloverEpoch =>
      change a ∈ (Option.map _ _).toList at h
      obtain ⟨found, -, rfl⟩ := Option.map_eq_some_iff.mp (Option.mem_toList.mp h)
      exact .inr (.inr fun v => rfl)

/-- What a replay adds to a history is its actions. -/
theorem replay_listed {actions : List Action} {before history : HexVault.History}
    (h : replay rt actions (before, w) = .ok (history, w')) {x : World × Action}
    (hx : x ∈ history) : x ∈ before ∨ x.2 ∈ actions := by
  induction actions generalizing before w with
  | nil =>
      cases h
      exact .inl hx
  | cons b rest ih =>
      obtain ⟨v, -, h⟩ := bind_eq_ok.mp h
      cases ih h with
      | inl older =>
          cases List.mem_cons.mp older with
          | inl here => exact .inr (here ▸ List.mem_cons_self ..)
          | inr older => exact .inl older
      | inr later => exact .inr (List.mem_cons_of_mem _ later)

/-- A registration that lands off a tick's list finds the weight the tick saw. -/
theorem landed_weighs {e : Epoch} {v v' : World} {steps : HexVault.History}
    (reachable : Reachable rt w) (mirrors : Mirrors reads.players w)
    (many : 1 < w.pool.currentEpochId)
    (he : w.epochs.lookup (w.pool.currentEpochId - 1) = some e)
    (listed : owner ∈ playersToRegister reads.players w.epochs e.epochId)
    (run : Steps (Step rt) w steps v) (h : Step rt v (.register e.epochId owner) v') :
    v.weighs e.epochId owner = true := by
  have calendar := reachable_calendar reachable
  have accounts := reachable_accounts reachable
  have reached := steps_reachable reachable run
  have keyed := calendar.keyed he
  obtain ⟨p, x, hp, hx, -, weight⟩ := (mem_playersToRegister mirrors accounts.owned).mp listed
  rw [keyed.1] at hx
  obtain rfl := Option.some.inj (he.symm.trans hx)
  obtain ⟨e', q, weight', ps, he', hq, positive, hid, hpair, -⟩ := effect_register (step_effect h)
  have keyed' := ((reachable_calendar reached).keyed he').1
  rw [keyed.1] at he' keyed'
  obtain ⟨y, z, hy, hz, same⟩ := previous_stable reachable keyed.2.1 (by omega) he hp run
    (by omega)
  obtain rfl := Option.some.inj (he'.symm.trans hy)
  obtain rfl := Option.some.inj (hq.symm.trans hz)
  obtain ⟨before, hbefore, starts, ends⟩ := calendar.previous many
  obtain rfl := Option.some.inj (he.symm.trans hbefore)
  have order := calendar.previousOrder many
  have now := calendar.currentOrder (by omega)
  have read := registrationWeight_eq (by omega) (accounts.updated hp).1 (by omega)
    (same.symm.trans hpair)
  rw [keyed.1, weighs_of he' hq hpair, decide_eq_true_eq]
  omega

/-- What landed of a tick, the grants apart, was work of the crank. -/
theorem landed_crank {before after : HexVault.History} {during : List Action}
    (reachable : Reachable rt w) (mirrors : Mirrors reads.players w)
    (gap : replay rt during ([], w) = .ok (before, u))
    (landed : replay rt ((decided config memory w reads).tick.confirmed.flatMap
      (Send.actions rt carried w)) ([], u) = .ok (after, w')) :
    ∀ x ∈ after, (if Action.grants x.2 then 0 else 1) ≤ x.2.crank x.1 := by
  intro x hx
  have waited := replay_steps .start gap
  obtain ⟨later, earlier, v, -, toward, step, -⟩ := (replay_steps .start landed).split hx
  obtain ⟨s, hs, mem⟩ := List.mem_flatMap.mp ((replay_listed landed hx).resolve_left
    List.not_mem_nil)
  rcases actions_crank mem with grant | batch | crank
  · rw [if_pos grant]
    exact Nat.zero_le _
  · obtain ⟨epochId, owner, same, lands⟩ := batch
    have among : x.2 ∈ (decided config memory w reads).tick.confirmed.flatMap Send.lands :=
      List.mem_flatMap.mpr ⟨s, hs, lands⟩
    cases confirmed_cases config memory w reads with
    | inl nothing =>
        rw [nothing.2.1] at among
        exact absurd among List.not_mem_nil
    | inr registers =>
        obtain ⟨e, owners, now, many, he, listed, -, flat, -⟩ := registers
        rw [flat] at among
        obtain ⟨other, mem, heq⟩ := List.mem_map.mp among
        rw [← heq] at step
        have weighs := landed_weighs reachable mirrors many he (listed other mem)
          (waited.append toward) step
        rw [← heq, Action.crank, if_pos weighs]
        exact Nat.le_refl 1
  · rw [crank]
    split
    · exact Nat.zero_le 1
    · exact Nat.le_refl 1

theorem Turns.steps {s s' : Service} {turnover : Turnover} (h : Turns rt config s turnover s') :
    Steps (Step rt) s.chain (turnover.landed ++ turnover.others) s'.chain := by
  cases h with
  | chain step => exact .next .start step
  | ticked _ gap landed => exact (replay_steps .start gap).append (replay_steps .start landed)

/-- A turnover's instructions are paid for by the work they do. -/
theorem Turns.spent {s s' : Service} {turnover : Turnover} (reachable : Reachable rt s.chain)
    (h : Turns rt config s turnover s') :
    turnover.spent ≤ tally (fun x => x.2.crank x.1) (turnover.landed ++ turnover.others) := by
  rw [tally_append]
  refine Nat.le_trans ?_ (Nat.le_add_right _ _)
  cases h with
  | chain step => exact Nat.zero_le _
  | ticked mirrors gap landed => exact tally_mono (landed_crank reachable mirrors gap landed)

end Landing

section Runs
variable {rt : Runtime} {config : Config} {start s : Service}
  {history : List (Service × Turnover)}

end Runs

end Operator

end HexVault
