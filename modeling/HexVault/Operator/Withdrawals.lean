import HexVault.Operator.Steps
import Mathlib.Algebra.Order.BigOperators.Group.List

/-!
The queue of due withdrawals over many ticks. A batch that fails is retried one owner
at a time, and an owner whose own send failed three times is skipped for the rest of
the epoch; so the owners that cannot be paid delay the others, and no more, as long as
what a tick found out is remembered.
-/

namespace HexVault

open Fallible Runs

namespace Operator

/-- The transaction pays the owner. -/
def Send.pays (owner : Pubkey) : Send → Bool
  | .processWithdrawals batch => batch.any (·.owner = owner)
  | _ => false

/-- The tick has paid the owner's withdrawal. -/
def Outcome.paid (outcome : Outcome) (owner : Pubkey) : Bool :=
  outcome.tick.confirmed.any (Send.pays owner)

/-- The withdrawals still due, and what the operator remembers. -/
structure Queue where
  due : List DueWithdrawal
  memory : Memory

/-- What is remembered of withdrawals for an epoch. -/
def Queue.state (q : Queue) (epochId : Nat) : WithdrawState :=
  match q.memory.lastWithdrawState with
  | some state => if state.epochId = epochId then state else EMPTY_WITHDRAW_STATE epochId
  | none => EMPTY_WITHDRAW_STATE epochId

/-- A tick of an epoch that finds nothing to do before the withdrawals. It reads the
queue in any order; a batch that holds a bad owner fails, not for want of liquidity, any
other is confirmed, and who was paid has left the queue by the next tick. -/
structure Ticked (bad : Pubkey → Prop) (epochId : Nat) (q : Queue) (ctx : TickContext)
    (q' : Queue) : Prop where
  epoch : ctx.pool.currentEpochId = epochId
  remembered : ctx.lastWithdrawState = q.memory.lastWithdrawState
  listed : (ctx.duePendingWithdrawals epochId).Perm q.due
  earlier : ctx.earlierSteps q.memory.tick = .next q.memory.tick
  fails : ∀ batch ⊆ q.due, (∃ entry ∈ batch, bad entry.owner) → ∃ message,
    message ≠ SHORT_VAULT ∧ ctx.send (.processWithdrawals batch) = .error message
  pays : ∀ batch ⊆ q.due, (∀ entry ∈ batch, ¬ bad entry.owner) →
    ctx.send (.processWithdrawals batch) = .ok ()
  memory : q'.memory = q.memory.after (ctx.decide q.memory.tick)
  left : q'.due = q.due.filter fun entry => !(ctx.decide q.memory.tick).paid entry.owner

/-- What a tick makes of the withdrawals it finds due, by what is remembered after it
and whom it paid. -/
inductive WithdrawalTick (bad : Pubkey → Prop) (ctx : TickContext) (state : WithdrawState)
    (paid : Pubkey → Bool) : WithdrawState → Prop
  | nobody : ctx.dueWithdrawals = [] → (∀ owner, paid owner = false) →
      WithdrawalTick bad ctx state paid state
  | sent : ctx.dueWithdrawals ≠ [] → (∀ entry ∈ ctx.withdrawBatch, ¬ bad entry.owner) →
      (∀ owner, paid owner = ctx.withdrawBatch.any (·.owner = owner)) →
      WithdrawalTick bad ctx state paid (state.sent ctx.withdrawBatch ctx.dueWithdrawals)
  | switched : state.singleMode = false → (∀ owner, paid owner = false) →
      WithdrawalTick bad ctx state paid { state with singleMode := true }
  | failed {entry : DueWithdrawal} {rest : List DueWithdrawal} : state.singleMode = true →
      ctx.dueWithdrawals = entry :: rest → bad entry.owner → (∀ owner, paid owner = false) →
      WithdrawalTick bad ctx state paid (state.failed entry.owner)

/-- A tick that fails to pay a bad owner does not fail to open a round as well. -/
def Remembers (bad : Pubkey → Prop) (x : Queue × TickContext) : Prop :=
  (∃ entry ∈ x.2.withdrawBatch, bad entry.owner) → x.2.roundDue → x.2.send x.2.nextRound = .ok ()

/-- The tick pays the owner. -/
def paysOwner (owner : Pubkey) (x : Queue × TickContext) : Bool :=
  (x.2.decide x.1.memory.tick).paid owner

/-- The tick tries the owner's withdrawal on its own, and it fails. -/
def failsAlone (owner : Pubkey) (x : Queue × TickContext) : Bool :=
  x.2.withdrawStateIn.singleMode && x.2.withdrawBatch.any (·.owner = owner) &&
    !paysOwner owner x

section Tick
variable {bad : Pubkey → Prop} {epochId : Nat} {q q' : Queue} {ctx : TickContext}
  {state : WithdrawState}

theorem state_epochId (q : Queue) (epochId : Nat) : (q.state epochId).epochId = epochId := by
  rw [Queue.state]
  split
  · split
    · assumption
    · rfl
  · rfl

theorem state_of_remembered (h : q.memory.lastWithdrawState = some state)
    (current : state.epochId = epochId) : q.state epochId = state := by
  rw [Queue.state, h]
  exact if_pos current

theorem Ticked.stateIn (h : Ticked bad epochId q ctx q') :
    ctx.withdrawStateIn = q.state epochId := by
  rw [TickContext.withdrawStateIn, h.remembered, h.epoch]
  rfl

theorem mem_dueWithdrawals (h : Ticked bad epochId q ctx q') {entry : DueWithdrawal} :
    entry ∈ ctx.dueWithdrawals ↔
      entry ∈ q.due ∧ (q.state epochId).skipped entry.owner = false := by
  rw [TickContext.dueWithdrawals, List.mem_filter, h.stateIn, h.epoch, h.listed.mem_iff,
    Bool.not_eq_true']

theorem withdrawBatch_subset (h : Ticked bad epochId q ctx q') : ctx.withdrawBatch ⊆ q.due :=
  fun _ mem => ((mem_dueWithdrawals h).mp (List.take_subset _ _ mem)).1

theorem Ticked.decided (h : Ticked bad epochId q ctx q') :
    ctx.decide q.memory.tick = (ctx.withdrawStep q.memory.tick).andThen ctx.createRoundStep := by
  rw [decide_eq_earlier, h.earlier]
  rfl

/-- A step that went on, with nothing confirmed and its finding kept, is remembered. -/
theorem Ticked.after_next {tick : Tick} (h : Ticked bad epochId q ctx q')
    (step : ctx.withdrawStep q.memory.tick = .next tick) (none : tick.confirmed = [])
    (kept : tick.withdrawState = some state) (current : state.epochId = epochId)
    (opens : ctx.roundDue → ctx.send ctx.nextRound = .ok () ∨ state = q.state epochId) :
    q'.state epochId = state ∧ ∀ owner, paysOwner owner (q, ctx) = false := by
  have decided := h.decided
  rw [step, Outcome.andThen] at decided
  rcases createRoundStep_cases ctx tick with finished | threw
  · obtain ⟨d, after, hd, told, confirmed⟩ := finished
    rw [hd] at decided
    refine ⟨state_of_remembered ?_ current, ?_⟩
    · rw [h.memory, decided]
      change d.withdrawState.or _ = _
      rw [told, kept, Option.some_or]
    · intro owner
      simp only [paysOwner, Outcome.paid, decided, Outcome.tick, List.any_eq_false]
      intro s hs
      cases confirmed s hs with
      | inl before =>
          rw [none] at before
          exact absurd before List.not_mem_nil
      | inr opened =>
          subst opened
          exact Bool.false_ne_true
  · obtain ⟨due, message, failed, threw⟩ := threw
    rw [threw] at decided
    have unchanged : state = q.state epochId := by
      cases opens due with
      | inl sent => cases sent.symm.trans failed
      | inr same => exact same
    refine ⟨?_, ?_⟩
    · rw [unchanged, Queue.state, Queue.state, h.memory, decided]
      rfl
    · intro owner
      simp only [paysOwner, Outcome.paid, decided, Outcome.tick, Tick.ask, none, List.any_nil]

/-- A tick that fails to pay a bad owner and to open a round leaves no trace. -/
theorem ticked_forgotten {message : String} (h : Ticked bad epochId q ctx q')
    (held : ∃ entry ∈ ctx.withdrawBatch, bad entry.owner) (due : ctx.roundDue)
    (closed : ctx.send ctx.nextRound = .error message) :
    q' = q ∧ ∀ owner, paysOwner owner (q, ctx) = false := by
  obtain ⟨why, other, failed⟩ := h.fails _ (withdrawBatch_subset h) held
  have some : ctx.dueWithdrawals ≠ [] := by
    intro none
    obtain ⟨entry, mem, -⟩ := held
    rw [TickContext.withdrawBatch, none, List.take_nil] at mem
    exact List.not_mem_nil mem
  have decided := h.decided
  rw [withdrawStep_failed _ some failed, Outcome.andThen, createRoundStep_throws due closed]
    at decided
  have confirmed := withdrawFailed_confirmed ctx ctx.withdrawStateIn ctx.withdrawBatch why
    (q.memory.tick.ask (.processWithdrawals ctx.withdrawBatch))
  obtain ⟨settled, closing, registered⟩ := withdrawFailed_memories ctx ctx.withdrawStateIn
    ctx.withdrawBatch why (q.memory.tick.ask (.processWithdrawals ctx.withdrawBatch))
  generalize ctx.withdrawFailed ctx.withdrawStateIn ctx.withdrawBatch why
    (q.memory.tick.ask (.processWithdrawals ctx.withdrawBatch)) = after
    at decided confirmed settled closing registered
  have unpaid : ∀ owner, paysOwner owner (q, ctx) = false := by
    intro owner
    simp only [paysOwner, Outcome.paid, decided, Outcome.tick, Tick.ask, confirmed]
    rfl
  refine ⟨?_, unpaid⟩
  have sameDue : q'.due = q.due := by
    rw [h.left, List.filter_eq_self]
    intro entry _
    rw [Bool.not_eq_true']
    exact unpaid entry.owner
  have sameMemory : q'.memory = q.memory := by
    rw [h.memory, decided]
    simp only [Memory.after, Outcome.tick, Tick.ask, settled, closing, registered]
    rfl
  cases q
  cases q'
  cases sameDue
  cases sameMemory
  rfl

theorem ticked_cases (h : Ticked bad epochId q ctx q') (safe : Remembers bad (q, ctx)) :
    WithdrawalTick bad ctx (q.state epochId) (fun owner => paysOwner owner (q, ctx))
      (q'.state epochId) := by
  by_cases nobody : ctx.dueWithdrawals = []
  · obtain ⟨same, unpaid⟩ := h.after_next (withdrawStep_nobody nobody) rfl
      (congrArg some h.stateIn) (state_epochId q epochId) fun _ => .inr rfl
    rw [same]
    exact .nobody nobody unpaid
  · by_cases good : ∀ entry ∈ ctx.withdrawBatch, ¬ bad entry.owner
    · have step := withdrawStep_sent q.memory.tick nobody
        (h.pays _ (withdrawBatch_subset h) good)
      have decided := h.decided
      rw [step] at decided
      have same : q'.state epochId =
          (q.state epochId).sent ctx.withdrawBatch ctx.dueWithdrawals := by
        rw [← h.stateIn]
        refine state_of_remembered ?_ ?_
        · rw [h.memory, decided]
          rfl
        · rw [h.stateIn]
          exact state_epochId q epochId
      rw [same]
      refine .sent nobody good ?_
      intro owner
      simp only [paysOwner, decided]
      exact Bool.or_false _
    · have held : ∃ entry ∈ ctx.withdrawBatch, bad entry.owner := by
        by_contra none
        exact good fun entry hentry isBad => none ⟨entry, hentry, isBad⟩
      obtain ⟨message, other, failed⟩ := h.fails _ (withdrawBatch_subset h) held
      have step := withdrawStep_failed q.memory.tick nobody failed
      have opens := safe held
      rw [h.stateIn] at step
      cases hmode : (q.state epochId).singleMode with
      | false =>
          obtain ⟨same, unpaid⟩ := h.after_next step (withdrawFailed_confirmed ..)
            (withdrawFailed_batch other hmode) (state_epochId q epochId)
            fun due => .inl (opens due)
          rw [same]
          exact .switched hmode unpaid
      | true =>
          have batch : ctx.withdrawBatch = ctx.dueWithdrawals.take 1 := by
            rw [TickContext.withdrawBatch, h.stateIn, if_pos hmode]
          cases hdue : ctx.dueWithdrawals with
          | nil => exact absurd hdue nobody
          | cons entry rest =>
              rw [hdue, List.take_succ_cons, List.take_zero] at batch
              rw [batch] at step held
              have current : ((q.state epochId).failed entry.owner).epochId = epochId := by
                simp only [WithdrawState.failed]
                split <;> exact state_epochId q epochId
              obtain ⟨same, unpaid⟩ := h.after_next step (withdrawFailed_confirmed ..)
                (withdrawFailed_alone other hmode) current fun due => .inl (opens due)
              rw [same]
              obtain ⟨_, hentry, isBad⟩ := held
              obtain rfl := List.mem_singleton.mp hentry
              exact .failed hmode hdue isBad unpaid

end Tick

/-- The failures an entry of the queue still has before it is skipped. -/
def Queue.attempts (epochId : Nat) (q : Queue) (entry : DueWithdrawal) : Nat :=
  if entry ∈ q.due ∧ (q.state epochId).skipped entry.owner = false then
    WITHDRAW_FAILURE_LIMIT - ((q.state epochId).failures entry.owner).getD 0
  else 0

/-- The failures the entries still have, and the one that switches to single sends. -/
def Queue.effort (epochId : Nat) (entries : List DueWithdrawal) (q : Queue) : Nat :=
  (entries.map (q.attempts epochId)).sum + if (q.state epochId).singleMode then 0 else 1

/-- Nobody still waiting has used up its failures. -/
def Queue.Below (epochId : Nat) (q : Queue) : Prop :=
  ∀ entry ∈ q.due, (q.state epochId).skipped entry.owner = false →
    ((q.state epochId).failures entry.owner).getD 0 < WITHDRAW_FAILURE_LIMIT

section Effort
variable {bad : Pubkey → Prop} {epochId : Nat} {q q' : Queue} {ctx : TickContext}
  {entry : DueWithdrawal} {owner : Pubkey} {entries : List DueWithdrawal} {state : WithdrawState}

theorem failed_other (state : WithdrawState) (entry : DueWithdrawal) (h : owner ≠ entry.owner) :
    (state.failed entry.owner).skipped owner = state.skipped owner ∧
      (state.failed entry.owner).failures owner = state.failures owner := by
  simp only [WithdrawState.failed]
  split <;> simp [Function.update_of_ne h]

/-- A failure counts, and the last of them skips. -/
theorem failed_self (state : WithdrawState)
    (below : (state.failures owner).getD 0 < WITHDRAW_FAILURE_LIMIT)
    (waiting : state.skipped owner = false) :
    ((state.failed owner).skipped owner = true ∧
      (state.failures owner).getD 0 + 1 = WITHDRAW_FAILURE_LIMIT) ∨
    ((state.failed owner).skipped owner = false ∧
      (state.failed owner).failures owner = some ((state.failures owner).getD 0 + 1) ∧
      (state.failures owner).getD 0 + 1 < WITHDRAW_FAILURE_LIMIT) := by
  simp only [WithdrawState.failed]
  split
  · refine .inl ⟨Function.update_self _ _ _, ?_⟩
    omega
  · refine .inr ⟨waiting, Function.update_self _ _ _, ?_⟩
    omega

theorem attempts_of_waiting (h : entry ∈ q.due)
    (waiting : (q.state epochId).skipped entry.owner = false) :
    q.attempts epochId entry =
      WITHDRAW_FAILURE_LIMIT - ((q.state epochId).failures entry.owner).getD 0 :=
  if_pos ⟨h, waiting⟩

theorem attempts_of_gone (h : entry ∈ q.due → (q.state epochId).skipped entry.owner = true) :
    q.attempts epochId entry = 0 := by
  refine if_neg fun waiting => ?_
  rw [h waiting.1] at waiting
  exact nomatch waiting.2

theorem attempts_pos (below : q.Below epochId) (h : entry ∈ q.due)
    (waiting : (q.state epochId).skipped entry.owner = false) : 0 < q.attempts epochId entry := by
  have := below entry h waiting
  rw [attempts_of_waiting h waiting]
  omega

/-- An entry whose bookkeeping did not move has no more attempts than before. -/
theorem attempts_le_of (left : entry ∈ q'.due → entry ∈ q.due)
    (skipped : (q'.state epochId).skipped entry.owner = (q.state epochId).skipped entry.owner)
    (failures : entry ∈ q'.due →
      (q'.state epochId).failures entry.owner = (q.state epochId).failures entry.owner) :
    q'.attempts epochId entry ≤ q.attempts epochId entry := by
  by_cases waiting : entry ∈ q'.due ∧ (q'.state epochId).skipped entry.owner = false
  · rw [attempts_of_waiting waiting.1 waiting.2, failures waiting.1,
      attempts_of_waiting (left waiting.1) (skipped ▸ waiting.2)]
  · rw [Queue.attempts, if_neg waiting]
    exact Nat.zero_le _

theorem Ticked.mem_due (h : Ticked bad epochId q ctx q') :
    entry ∈ q'.due ↔ entry ∈ q.due ∧ paysOwner entry.owner (q, ctx) = false := by
  rw [h.left, List.mem_filter, Bool.not_eq_true']
  rfl

theorem sent_failures {batch due : List DueWithdrawal}
    (h : (batch.any fun e => decide (e.owner = owner)) = false) :
    (state.sent batch due).failures owner = state.failures owner := by
  simp only [WithdrawState.sent, h, Bool.false_eq_true, if_false]

theorem ticked_attempts (h : Ticked bad epochId q ctx q') (safe : Remembers bad (q, ctx))
    (below : q.Below epochId) (entry : DueWithdrawal) :
    q'.attempts epochId entry ≤ q.attempts epochId entry := by
  have left : entry ∈ q'.due → entry ∈ q.due := fun mem => (h.mem_due.mp mem).1
  have tick := ticked_cases h safe
  generalize hstate : q'.state epochId = after at tick
  cases tick with
  | nobody | switched =>
      exact attempts_le_of left (by rw [hstate]) fun _ => by rw [hstate]
  | sent _ _ paid =>
      refine attempts_le_of left (by rw [hstate]; rfl) fun mem => ?_
      rw [hstate]
      exact sent_failures ((paid entry.owner).symm.trans (h.mem_due.mp mem).2)
  | @failed first rest _ due =>
      have mem : first ∈ ctx.dueWithdrawals := by
        rw [due]
        exact List.mem_cons_self
      have waiting := (mem_dueWithdrawals h).mp mem
      by_cases same : entry.owner = first.owner
      · by_cases here : entry ∈ q'.due ∧ (q'.state epochId).skipped entry.owner = false
        · rw [attempts_of_waiting here.1 here.2,
            attempts_of_waiting (left here.1) (same ▸ waiting.2)]
          rw [hstate, same] at here ⊢
          rcases failed_self _ (below first waiting.1 waiting.2) waiting.2 with skip | count
          · exact nomatch skip.1.symm.trans here.2
          · rw [count.2.1, Option.getD_some]
            omega
        · rw [Queue.attempts, if_neg here]
          exact Nat.zero_le _
      · obtain ⟨skipped, failures⟩ := failed_other (q.state epochId) first same
        exact attempts_le_of left (by rw [hstate, skipped]) fun _ => by rw [hstate, failures]

/-- Nobody is waiting any more. -/
def Queue.Settled (epochId : Nat) (q : Queue) : Prop :=
  ∀ entry ∈ q.due, (q.state epochId).skipped entry.owner = true

theorem batch_nonempty (h : ctx.dueWithdrawals ≠ []) : ∃ entry, entry ∈ ctx.withdrawBatch := by
  cases hdue : ctx.dueWithdrawals with
  | nil => exact absurd hdue h
  | cons entry rest =>
      refine ⟨entry, ?_⟩
      rw [TickContext.withdrawBatch, hdue]
      split
      · exact List.mem_cons_self
      · exact List.mem_cons_self

/-- A tick that finds somebody waiting uses up an attempt of some entry, switches to
single sends, or leaves nobody waiting. -/
theorem ticked_effort (h : Ticked bad epochId q ctx q') (safe : Remembers bad (q, ctx))
    (below : q.Below epochId) (known : q.due ⊆ entries) :
    q'.Settled epochId ∨ q'.effort epochId entries < q.effort epochId entries := by
  have each := ticked_attempts h safe below
  have fewer : ∀ entry ∈ q.due, q'.attempts epochId entry < q.attempts epochId entry →
      (entries.map (q'.attempts epochId)).sum < (entries.map (q.attempts epochId)).sum :=
    fun entry mem less => List.sum_lt_sum _ _ (fun e _ => each e) ⟨entry, known mem, less⟩
  have tick := ticked_cases h safe
  generalize hstate : q'.state epochId = after at tick
  cases tick with
  | nobody none =>
      refine .inl fun entry mem => ?_
      by_contra waiting
      have due := (mem_dueWithdrawals h).mpr
        ⟨(h.mem_due.mp mem).1, hstate ▸ Bool.eq_false_iff.mpr waiting⟩
      rw [none] at due
      exact List.not_mem_nil due
  | sent some good paid =>
      obtain ⟨entry, mem⟩ := batch_nonempty some
      have waiting := (mem_dueWithdrawals h).mp (List.take_subset _ _ mem)
      have gone : ∀ e ∈ ctx.withdrawBatch, e ∉ q'.due := by
        intro e he left
        have unpaid := (paid e.owner).symm.trans (h.mem_due.mp left).2
        rw [List.any_eq_false] at unpaid
        exact unpaid e he (decide_eq_true rfl)
      have less := fewer entry waiting.1 (by
        rw [attempts_of_gone fun left => absurd left (gone entry mem)]
        exact attempts_pos below waiting.1 waiting.2)
      cases hmode : (q.state epochId).singleMode with
      | false =>
          refine .inr ?_
          rw [Queue.effort, Queue.effort, hstate, hmode, WithdrawState.sent, hmode]
          exact Nat.add_lt_add_right less _
      | true =>
          by_cases more : ctx.withdrawBatch.length < ctx.dueWithdrawals.length
          · refine .inr ?_
            rw [Queue.effort, Queue.effort, hstate, hmode, WithdrawState.sent, hmode]
            simp only [more, decide_true, Bool.and_self, if_true, Nat.add_zero]
            exact less
          · -- The whole queue was in the batch, so the mode it falls back to does not matter.
            have whole : ctx.withdrawBatch = ctx.dueWithdrawals :=
              (List.take_sublist _ _).eq_of_length_le (Nat.not_lt.mp more)
            refine .inl fun e left => ?_
            by_contra stays
            refine gone e ?_ left
            rw [whole, mem_dueWithdrawals h]
            refine ⟨(h.mem_due.mp left).1, ?_⟩
            rw [hstate] at stays
            exact Bool.eq_false_iff.mpr stays
  | switched together _ =>
      refine .inr ?_
      have le := List.sum_le_sum (l := entries) fun e _ => each e
      rw [Queue.effort, Queue.effort, hstate, together]
      simp only [if_true, Bool.false_eq_true, if_false]
      omega
  | @failed first rest alone due =>
      have mem : first ∈ ctx.dueWithdrawals := by
        rw [due]
        exact List.mem_cons_self
      have waiting := (mem_dueWithdrawals h).mp mem
      have before := attempts_of_waiting waiting.1 waiting.2
      have count := below first waiting.1 waiting.2
      have less := fewer first waiting.1 (by
        rw [before]
        rcases failed_self _ count waiting.2 with skip | again
        · rw [attempts_of_gone fun _ => hstate ▸ skip.1]
          omega
        · by_cases left : first ∈ q'.due
          · rw [attempts_of_waiting left (hstate ▸ again.1), hstate, again.2.1, Option.getD_some]
            omega
          · rw [attempts_of_gone fun there => absurd there left]
            omega)
      refine .inr ?_
      have stays : ((q.state epochId).failed first.owner).singleMode = true := rfl
      rw [Queue.effort, Queue.effort, hstate, alone, stays]
      exact Nat.add_lt_add_right less _

theorem settled_kept (h : Ticked bad epochId q ctx q') (safe : Remembers bad (q, ctx))
    (settled : q.Settled epochId) : q'.Settled epochId := by
  have none : ctx.dueWithdrawals = [] := by
    refine List.eq_nil_iff_forall_not_mem.mpr fun entry mem => ?_
    have waiting := (mem_dueWithdrawals h).mp mem
    rw [settled entry waiting.1] at waiting
    exact nomatch waiting.2
  have tick := ticked_cases h safe
  generalize hstate : q'.state epochId = after at tick
  intro entry mem
  have skipped := settled entry (h.mem_due.mp mem).1
  rw [hstate]
  cases tick with
  | nobody | switched => exact skipped
  | sent some => exact absurd none some
  | failed _ due => exact nomatch none.symm.trans due

end Effort

/-- None of the queue's owners has failed in this epoch. -/
def Queue.Untried (epochId : Nat) (q : Queue) : Prop :=
  ∀ entry ∈ q.due, (q.state epochId).failures entry.owner = none ∧
    (q.state epochId).skipped entry.owner = false

/-- Where a run of ticks stands: who is still due, what was counted against whom, and
how much of the bound it has used. -/
structure Progress (bad : Pubkey → Prop) (epochId : Nat) (start : Queue)
    (history : List (Queue × TickContext)) (q : Queue) : Prop where
  due : ∀ entry, entry ∈ q.due ↔
    entry ∈ start.due ∧ ∀ x ∈ history, paysOwner entry.owner x = false
  unpaid : ∀ owner, bad owner → ∀ x ∈ history, paysOwner owner x = false
  trusted : ∀ owner, ¬ bad owner →
    (q.state epochId).skipped owner = (start.state epochId).skipped owner
  skipped : ∀ entry ∈ start.due, bad entry.owner →
    (q.state epochId).skipped entry.owner = true →
    history.countP (failsAlone entry.owner) = WITHDRAW_FAILURE_LIMIT
  counted : ∀ entry ∈ start.due, bad entry.owner →
    (q.state epochId).skipped entry.owner = false →
    ((q.state epochId).failures entry.owner).getD 0 = history.countP (failsAlone entry.owner)
  below : q.Below epochId
  bounded : q.Settled epochId ∨
    history.length + q.effort epochId start.due ≤ WITHDRAW_FAILURE_LIMIT * start.due.length + 1

section Run
variable {bad : Pubkey → Prop} {epochId : Nat} {start q q' : Queue} {ctx : TickContext}
  {history : List (Queue × TickContext)} {entry : DueWithdrawal} {owner : Pubkey}

theorem progress_start (untried : start.Untried epochId) : Progress bad epochId start [] start := by
  refine ⟨?_, fun _ _ _ mem => absurd mem List.not_mem_nil, fun _ _ => rfl, ?_, ?_, ?_,
    .inr ?_⟩
  · intro entry
    exact ⟨fun mem => ⟨mem, fun _ none => absurd none List.not_mem_nil⟩, fun mem => mem.1⟩
  · intro entry mem _ skip
    rw [(untried entry mem).2] at skip
    exact nomatch skip
  · intro entry mem _ _
    rw [(untried entry mem).1]
    rfl
  · intro entry mem _
    rw [(untried entry mem).1, Option.getD_none]
    exact Nat.zero_lt_succ 2
  · have each : (start.due.map (start.attempts epochId)).sum ≤
        (start.due.map fun _ => WITHDRAW_FAILURE_LIMIT).sum := by
      refine List.sum_le_sum fun entry _ => ?_
      rw [Queue.attempts]
      split <;> omega
    rw [List.map_const', List.sum_replicate_nat, Nat.mul_comm] at each
    rw [Queue.effort, List.length_nil]
    split <;> omega

/-- A bad owner is never in a batch that is confirmed. -/
theorem ticked_unpaid (h : Ticked bad epochId q ctx q') (safe : Remembers bad (q, ctx))
    (isBad : bad owner) : paysOwner owner (q, ctx) = false := by
  have tick := ticked_cases h safe
  generalize q'.state epochId = after at tick
  cases tick with
  | nobody _ unpaid | switched _ unpaid | failed _ _ _ unpaid => exact unpaid owner
  | sent _ good paid =>
      rw [paid owner, List.any_eq_false]
      intro entry mem same
      exact good entry mem (of_decide_eq_true same ▸ isBad)

/-- What a tick does to a bad owner's bookkeeping: nothing, or one more failure. -/
theorem ticked_counts (h : Ticked bad epochId q ctx q') (safe : Remembers bad (q, ctx))
    (isBad : bad owner) :
    (failsAlone owner (q, ctx) = false ∧
      (q'.state epochId).skipped owner = (q.state epochId).skipped owner ∧
      (q'.state epochId).failures owner = (q.state epochId).failures owner) ∨
    (failsAlone owner (q, ctx) = true ∧
      (∃ entry ∈ q.due, entry.owner = owner) ∧ (q.state epochId).skipped owner = false ∧
      q'.state epochId = (q.state epochId).failed owner) := by
  have unpaid := ticked_unpaid h safe isBad
  have mode : ctx.withdrawStateIn.singleMode = (q.state epochId).singleMode := by rw [h.stateIn]
  have alone : failsAlone owner (q, ctx) =
      ((q.state epochId).singleMode && ctx.withdrawBatch.any (·.owner = owner)) := by
    rw [failsAlone, unpaid, mode, Bool.not_false, Bool.and_true]
  have tick := ticked_cases h safe
  generalize hstate : q'.state epochId = after at tick
  cases tick with
  | nobody none =>
      refine .inl ⟨?_, rfl, rfl⟩
      rw [alone, TickContext.withdrawBatch, none, List.take_nil, List.any_nil, Bool.and_false]
  | sent _ _ paid =>
      have absent := (paid owner).symm.trans unpaid
      refine .inl ⟨?_, rfl, sent_failures absent⟩
      rw [alone, absent, Bool.and_false]
  | switched together =>
      refine .inl ⟨?_, rfl, rfl⟩
      rw [alone, together, Bool.false_and]
  | @failed entry rest single due =>
      have batch : ctx.withdrawBatch = [entry] := by
        rw [TickContext.withdrawBatch, mode, single, due]
        rfl
      by_cases same : owner = entry.owner
      · subst same
        have mem : entry ∈ ctx.dueWithdrawals := by
          rw [due]
          exact List.mem_cons_self
        have waiting := (mem_dueWithdrawals h).mp mem
        refine .inr ⟨?_, ⟨entry, waiting.1, rfl⟩, waiting.2, rfl⟩
        rw [alone, single, batch, List.any_cons, decide_eq_true rfl, Bool.true_or, Bool.and_self]
      · obtain ⟨skipped, failures⟩ := failed_other (q.state epochId) entry same
        refine .inl ⟨?_, skipped, failures⟩
        rw [alone, batch, List.any_cons, List.any_nil, Bool.or_false,
          decide_eq_false (Ne.symm same), Bool.and_false]

theorem ticked_trusted (h : Ticked bad epochId q ctx q') (safe : Remembers bad (q, ctx))
    (good : ¬ bad owner) : (q'.state epochId).skipped owner = (q.state epochId).skipped owner := by
  have tick := ticked_cases h safe
  generalize hstate : q'.state epochId = after at tick
  cases tick with
  | nobody | switched | sent => rfl
  | @failed entry rest _ _ isBad =>
      refine (failed_other (q.state epochId) entry ?_).1
      intro same
      exact good (same ▸ isBad)

theorem ticked_below (h : Ticked bad epochId q ctx q') (safe : Remembers bad (q, ctx))
    (below : q.Below epochId) : q'.Below epochId := by
  intro entry mem waiting
  have before := (h.mem_due.mp mem)
  have tick := ticked_cases h safe
  generalize hstate : q'.state epochId = after at tick waiting ⊢
  cases tick with
  | nobody | switched => exact below entry before.1 waiting
  | sent _ _ paid =>
      rw [sent_failures ((paid entry.owner).symm.trans before.2)]
      exact below entry before.1 waiting
  | @failed first rest _ due =>
      by_cases same : entry.owner = first.owner
      · have mem : first ∈ ctx.dueWithdrawals := by
          rw [due]
          exact List.mem_cons_self
        obtain ⟨here, free⟩ := (mem_dueWithdrawals h).mp mem
        rw [same] at waiting ⊢
        rcases failed_self _ (below first here free) free with skip | again
        · exact nomatch skip.1.symm.trans waiting
        · rw [again.2.1, Option.getD_some]
          exact again.2.2
      · obtain ⟨skipped, failures⟩ := failed_other (q.state epochId) first same
        rw [failures]
        exact below entry before.1 (skipped ▸ waiting)

theorem progress_next (hi : Progress bad epochId start history q)
    (h : Ticked bad epochId q ctx q') (safe : Remembers bad (q, ctx)) :
    Progress bad epochId start ((q, ctx) :: history) q' := by
  have known : q.due ⊆ start.due := fun entry mem => ((hi.due entry).mp mem).1
  refine ⟨?_, ?_, ?_, ?_, ?_, ticked_below h safe hi.below, ?_⟩
  · intro entry
    rw [h.mem_due, hi.due entry, List.forall_mem_cons, and_assoc,
      and_comm (b := paysOwner entry.owner (q, ctx) = false)]
  · intro owner isBad
    exact List.forall_mem_cons.mpr ⟨ticked_unpaid h safe isBad, hi.unpaid owner isBad⟩
  · intro owner good
    exact (ticked_trusted h safe good).trans (hi.trusted owner good)
  · intro entry mem isBad skip
    rw [List.countP_cons]
    rcases ticked_counts h safe isBad with same | failed
    · rw [same.1, hi.skipped entry mem isBad (same.2.1 ▸ skip)]
      rfl
    · obtain ⟨alone, ⟨other, here, owner⟩, waiting, state⟩ := failed
      have count := hi.below other here (owner ▸ waiting)
      rw [owner] at count
      rw [alone, ← hi.counted entry mem isBad waiting]
      rw [state] at skip
      rcases failed_self _ count waiting with last | again
      · exact last.2
      · exact nomatch again.1.symm.trans skip
  · intro entry mem isBad waiting
    rw [List.countP_cons]
    rcases ticked_counts h safe isBad with same | failed
    · rw [same.1, same.2.2, hi.counted entry mem isBad (same.2.1 ▸ waiting)]
      rfl
    · obtain ⟨alone, ⟨other, here, owner⟩, free, state⟩ := failed
      have count := hi.below other here (owner ▸ free)
      rw [owner] at count
      rw [state] at waiting ⊢
      rw [alone, ← hi.counted entry mem isBad free]
      rcases failed_self _ count free with last | again
      · exact nomatch last.1.symm.trans waiting
      · rw [again.2.1, Option.getD_some, if_pos rfl]
  · cases hi.bounded with
    | inl settled => exact .inl (settled_kept h safe settled)
    | inr bounded =>
        rcases ticked_effort h safe hi.below known with settled | less
        · exact .inl settled
        · refine .inr ?_
          rw [List.length_cons]
          omega

theorem run_progress (untried : start.Untried epochId)
    (steps : Steps (Ticked bad epochId) start history q)
    (safe : ∀ x ∈ history, Remembers bad x) : Progress bad epochId start history q :=
  steps.invariantWhile (P := fun history q => Progress bad epochId start history q)
    (progress_start untried) (fun _ hi hs h => progress_next hi h hs) safe

theorem settled_of_effort (below : q.Below epochId) (known : q.due ⊆ start.due)
    (spent : q.effort epochId start.due = 0) : q.Settled epochId := by
  intro entry mem
  by_contra waiting
  have some := attempts_pos below mem (Bool.eq_false_iff.mpr waiting)
  have le := List.single_le_sum (l := start.due.map (q.attempts epochId)) (fun _ _ => Nat.zero_le _)
    _ (List.mem_map_of_mem (known mem))
  rw [Queue.effort] at spent
  omega

/-- While no tick loses what it found out, owners that cannot be paid are skipped after
three failures of their own, nobody else is, and everybody else is paid, all within three
ticks for each entry of the queue and one more. -/
theorem withdrawals_isolated (untried : start.Untried epochId)
    (steps : Steps (Ticked bad epochId) start history q)
    (safe : ∀ x ∈ history, Remembers bad x) :
    (∀ owner, ¬ bad owner →
      (q.state epochId).skipped owner = (start.state epochId).skipped owner) ∧
    (WITHDRAW_FAILURE_LIMIT * start.due.length + 1 ≤ history.length → ∀ entry ∈ start.due,
      (¬ bad entry.owner → ∃ x ∈ history, paysOwner entry.owner x = true) ∧
      (bad entry.owner → (q.state epochId).skipped entry.owner = true ∧
        history.countP (failsAlone entry.owner) = WITHDRAW_FAILURE_LIMIT ∧
        ∀ x ∈ history, paysOwner entry.owner x = false)) := by
  have progress := run_progress untried steps safe
  refine ⟨progress.trusted, ?_⟩
  intro long entry mem
  have settled : q.Settled epochId := by
    cases progress.bounded with
    | inl settled => exact settled
    | inr bounded =>
        refine settled_of_effort progress.below ?_ (by omega : q.effort epochId start.due = 0)
        exact fun entry mem => ((progress.due entry).mp mem).1
  refine ⟨?_, ?_⟩
  · intro good
    by_contra unpaid
    have left : entry ∈ q.due := by
      refine (progress.due entry).mpr ⟨mem, fun x hx => ?_⟩
      exact Bool.eq_false_iff.mpr fun paid => unpaid ⟨x, hx, paid⟩
    have skip := settled entry left
    rw [progress.trusted _ good, (untried entry mem).2] at skip
    exact nomatch skip
  · intro isBad
    have unpaid := progress.unpaid _ isBad
    have skip := settled entry ((progress.due entry).mpr ⟨mem, unpaid⟩)
    exact ⟨skip, progress.skipped entry mem isBad skip, unpaid⟩

end Run

/-! Two due withdrawals of the small pool, the first to an owner whose token account is
frozen, and an operator that can or cannot pay the rent of another round. -/

namespace Demo

abbrev frozen (owner : Pubkey) : Prop := owner = ⟨3⟩

def answer (opens : Bool) : Send → Except String Unit
  | .processWithdrawals batch =>
      if batch.any (·.owner = ⟨3⟩) then .error "AccountFrozen" else .ok ()
  | .createRound _ _ => if opens then .ok () else .error "insufficient lamports"
  | _ => .ok ()

/-- A tick on the chain as it is, with the queue as it is. -/
def withdrawing (opens : Bool) (w : World) (q : Queue) : TickContext :=
  { context config q.memory w { reads w with send := answer opens } with
    duePendingWithdrawals := fun _ => q.due }

def withdrawn (ctx : TickContext) (q : Queue) : Queue where
  due := q.due.filter fun entry => !(ctx.decide q.memory.tick).paid entry.owner
  memory := q.memory.after (ctx.decide q.memory.tick)

def queue : Queue where
  due := [⟨⟨3⟩, 40⟩, ⟨⟨4⟩, 40⟩]
  memory := .fresh

/-- The second epoch runs with room for a round, the first is over. -/
def Second (w : World) : Prop :=
  w.pool.currentEpochId = 2 ∧ w.pool.openRoundId = 0 ∧ w.pool.nextRoundId = 1 ∧
  (w.pool.paused = false ∧ w.pool.gamePaused = false) ∧
  ((w.epochs.lookup 2).any fun epoch =>
    w.clock < epoch.endsAt && w.clock + w.pool.roundSeconds ≤ epoch.endsAt) = true ∧
  ((w.epochs.lookup 1).any fun epoch => epoch.status = .rolledOver) = true

instance (w : World) : Decidable (Second w) := inferInstanceAs (Decidable (_ ∧ _))

/-- The rows of the two owners. -/
def rows (w : World) : List Player :=
  [⟨3⟩, ⟨4⟩].filterMap fun owner => w.players.lookup owner

theorem exists_second : ∃ w, Reachable HexVault.Demo.runtime w ∧ Second w ∧
    (duePendingWithdrawals (rows w) 2).Perm queue.due := by
  let first := HexVault.Demo.signer 3
  let second := HexVault.Demo.signer 4
  obtain ⟨⟨history, w⟩, hrun, hcheck⟩ := exists_of_any
    (x := HexVault.Demo.script [.setFeaturePause HexVault.Demo.admin .jackpot false,
      .setFeaturePause HexVault.Demo.admin .game false,
      .deposit first (HexVault.Demo.wallet first) 40,
      .deposit second (HexVault.Demo.wallet second) 40, .beginEpoch HexVault.Demo.operator,
      .requestWithdraw first 40, .requestWithdraw second 40, .wait 1100,
      .beginEpoch HexVault.Demo.operator, .closeRegistration HexVault.Demo.operator 1 ⟨9⟩ []])
    (p := fun s => decide (Second s.2) && decide (((rows s.2).filter fun player =>
        0 < player.pendingWithdraw && player.pendingEpoch < 2).map (fun player =>
          { owner := player.owner, amount := player.pendingWithdraw : DueWithdrawal }) =
            queue.due)) (by decide +kernel)
  rw [Bool.and_eq_true, decide_eq_true_eq, decide_eq_true_eq] at hcheck
  refine ⟨w, (HexVault.Demo.script_run hrun).reachable, hcheck.1, ?_⟩
  rw [← hcheck.2]
  exact (List.mergeSort_perm _ _).map _

section Second
variable {w : World} {opens : Bool} {q : Queue}

theorem withdrawing_quiet (h : Second w) : (withdrawing opens w q).Quiet := by
  obtain ⟨epoch, closed, -, -, running, over'⟩ := h
  refine ⟨?_, rfl, rfl, ?_, ?_, fun _ => rfl, ?_⟩
  · change (if 0 < w.pool.openRoundId then _ else none) = none
    rw [closed]
    rfl
  · change w.pool.currentEpochId ≠ 0
    rw [epoch]
    decide
  · intro e he
    change (if 0 < w.pool.currentEpochId then w.epochs.lookup w.pool.currentEpochId else none) =
      some e at he
    rw [epoch] at he
    rw [if_pos (by decide)] at he
    rw [he, Option.any_some, Bool.and_eq_true] at running
    exact of_decide_eq_true running.1
  · intro e he
    change (if 1 < w.pool.currentEpochId then w.epochs.lookup (w.pool.currentEpochId - 1)
      else none) = some e at he
    rw [epoch] at he
    rw [if_pos (by decide)] at he
    rw [he, Option.any_some] at over'
    exact of_decide_eq_true over'

theorem withdrawing_ticked (h : Second w) :
    Ticked frozen 2 q (withdrawing opens w q) (withdrawn (withdrawing opens w q) q) := by
  refine ⟨h.1, rfl, .refl _, earlierSteps_quiet (withdrawing_quiet h), ?_, ?_, rfl, rfl⟩
  · intro batch _ held
    obtain ⟨entry, mem, isFrozen⟩ := held
    refine ⟨"AccountFrozen", by decide, ?_⟩
    exact if_pos (List.any_eq_true.mpr ⟨entry, mem, decide_eq_true isFrozen⟩)
  · intro batch _ good
    refine if_neg ?_
    rw [List.any_eq_true]
    intro held
    obtain ⟨entry, mem, isFrozen⟩ := held
    exact good entry mem (of_decide_eq_true isFrozen)

theorem withdrawing_roundDue (h : Second w) : (withdrawing opens w q).roundDue := by
  obtain ⟨epoch, closed, first, unpaused, running, -⟩ := h
  refine ⟨closed, unpaused.1, unpaused.2, ?_, ?_⟩
  · change (Option.any _ (if 0 < w.pool.currentEpochId then
      w.epochs.lookup w.pool.currentEpochId else none)) = true
    rw [epoch]
    rw [if_pos (by decide)]
    obtain ⟨e, he, running⟩ := Option.any_eq_true _ _ |>.mp running
    rw [Bool.and_eq_true] at running
    exact Option.any_eq_true _ _ |>.mpr ⟨e, he, running.2⟩
  · change (Option.all _ (if 1 < w.pool.nextRoundId then _ else none)) = true
    rw [first]
    rfl

end Second

/-- Two owners, neither of which has failed yet. -/
theorem queue_untried : queue.Untried 2 := fun _ _ => ⟨rfl, rfl⟩

/-- With room for rent, a run of any length. -/
theorem exists_withdrawing {w : World} (h : Second w) (n : Nat) : ∃ history q,
    Steps (Ticked frozen 2) queue history q ∧ history.length = n ∧
      ∀ x ∈ history, Remembers frozen x := by
  induction n with
  | zero => exact ⟨[], queue, .start, rfl, fun _ none => absurd none List.not_mem_nil⟩
  | succ n ih =>
      obtain ⟨history, q, steps, length, safe⟩ := ih
      refine ⟨(q, withdrawing true w q) :: history, _, steps.next (withdrawing_ticked h), ?_, ?_⟩
      · rw [List.length_cons, length]
      · exact List.forall_mem_cons.mpr ⟨fun _ _ => rfl, safe⟩

end Demo

/-- One owner that can be paid behind one that cannot: seven ticks settle both. -/
theorem withdrawals_isolated_frozen : ∃ history q,
    Steps (Ticked Demo.frozen 2) Demo.queue history q ∧
    (q.state 2).skipped ⟨4⟩ = false ∧ (∃ x ∈ history, paysOwner ⟨4⟩ x = true) ∧
    (q.state 2).skipped ⟨3⟩ = true := by
  obtain ⟨w, -, second, -⟩ := Demo.exists_second
  obtain ⟨history, q, steps, length, safe⟩ := Demo.exists_withdrawing second 7
  obtain ⟨trusted, settled⟩ := withdrawals_isolated Demo.queue_untried steps safe
  have each := settled (Nat.le_of_eq length.symm)
  refine ⟨history, q, steps, trusted ⟨4⟩ (by decide), ?_, ?_⟩
  · exact (each ⟨⟨4⟩, 40⟩ (by decide)).1 (by decide)
  · exact ((each ⟨⟨3⟩, 40⟩ (by decide)).2 rfl).1

/-- An operator that cannot pay a round's rent forgets each tick that the batch failed:
the same two owners are tried together again, however many ticks go by. -/
theorem withdrawals_forgotten : Demo.queue.Untried 2 ∧ ∃ w,
    Reachable HexVault.Demo.runtime w ∧
    (duePendingWithdrawals (Demo.rows w) 2).Perm Demo.queue.due ∧
    ∀ n, ∃ history q, Steps (Ticked Demo.frozen 2) Demo.queue history q ∧ history.length = n ∧
      (∀ x ∈ history, x.2 = Demo.withdrawing false w x.1) ∧
      (∀ x ∈ history, paysOwner ⟨4⟩ x = false) ∧ (q.state 2).skipped ⟨3⟩ = false := by
  refine ⟨Demo.queue_untried, ?_⟩
  obtain ⟨w, reachable, second, due⟩ := Demo.exists_second
  refine ⟨w, reachable, due, ?_⟩
  have forgotten : ∀ n, ∃ history, Steps (Ticked Demo.frozen 2) Demo.queue history Demo.queue ∧
      history.length = n ∧ (∀ x ∈ history, x.2 = Demo.withdrawing false w x.1) ∧
      ∀ x ∈ history, paysOwner ⟨4⟩ x = false := by
    intro n
    induction n with
    | zero =>
        exact ⟨[], .start, rfl, fun _ none => absurd none List.not_mem_nil,
          fun _ none => absurd none List.not_mem_nil⟩
    | succ n ih =>
        obtain ⟨history, steps, length, same, unpaid⟩ := ih
        have tick : Ticked Demo.frozen 2 Demo.queue (Demo.withdrawing false w Demo.queue)
            (Demo.withdrawn (Demo.withdrawing false w Demo.queue) Demo.queue) :=
          Demo.withdrawing_ticked second
        obtain ⟨unchanged, nobody⟩ := ticked_forgotten tick ⟨⟨⟨3⟩, 40⟩, .head _, rfl⟩
          (Demo.withdrawing_roundDue second) rfl
        rw [unchanged] at tick
        refine ⟨(Demo.queue, Demo.withdrawing false w Demo.queue) :: history, steps.next tick,
          ?_, ?_, ?_⟩
        · rw [List.length_cons, length]
        · exact List.forall_mem_cons.mpr ⟨rfl, same⟩
        · exact List.forall_mem_cons.mpr ⟨nobody ⟨4⟩, unpaid⟩
  intro n
  obtain ⟨history, steps, length, same, unpaid⟩ := forgotten n
  exact ⟨history, Demo.queue, steps, length, same, unpaid, rfl⟩

end Operator

end HexVault
