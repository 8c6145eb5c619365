import HexVault.Chain.Rpc

/-!
How the app sends a transaction: `sendMany` asks for a blockhash, simulates, has the wallet sign and
waits for a confirmation, and `resolveUnknownSend` polls where that wait broke off. The chain moves
between any two of these calls, and any of them may throw. What an answer is worth is what the chain
still says of that signature however far it has grown since.
-/

namespace HexVault

namespace Web

open Expiring Rpc

def customErrorCode : TransactionError → Option Nat
  | .instructionError _ (.custom code) => some code
  | .instructionError _ (.named _) => none
  | .named _ => none

/-! Sizing. -/

structure Simulated where
  err : Option TransactionError
  unitsConsumed : Option Nat
  logs : List String
  deriving DecidableEq, Repr

inductive ComputeSizing where
  | units (units : Nat)
  | programError (err : TransactionError)
  deriving DecidableEq, Repr

def maxComputeUnitLimit : Nat := 1400000

def fallbackComputeUnitsPerInstruction : Nat := 200000

/-- The sponsored send pays what the wallet is short of, so these failures are not real there. -/
def isShortOfSol (err : TransactionError) (logs : List String) : Bool :=
  err = .named "AccountNotFound" ||
    logs.any fun line => line.startsWith "Transfer: insufficient lamports"

/-- `withMargin` is the floating-point `ceil(units × 1.1)`; without a simulation, its call threw. -/
def computeUnitLimit (withMargin : Nat → Nat) (instructions : Nat) (sponsored : Bool) :
    Option Simulated → ComputeSizing
  | none => .units (min maxComputeUnitLimit (fallbackComputeUnitsPerInstruction * instructions))
  | some simulated =>
      match simulated.err with
      | some err =>
          if sponsored && isShortOfSol err simulated.logs then
            .units (min maxComputeUnitLimit (fallbackComputeUnitsPerInstruction * instructions))
          else .programError err
      | none =>
          match simulated.unitsConsumed with
          | none => .units (min maxComputeUnitLimit
              (fallbackComputeUnitsPerInstruction * instructions))
          | some consumed => .units (withMargin consumed)

/-! Results. -/

inductive SendResult where
  | landed (signature : String)
  | expired
  | unknown (signature : String) (lastValidBlockHeight : Nat)
  | failed (code : Option Nat) (message : String)
  deriving DecidableEq, Repr

inductive ResolvedSendResult where
  | landed (signature : String)
  | expired
  | failed (code : Option Nat) (message : String)
  deriving DecidableEq, Repr

def failedWith (err : TransactionError) : ResolvedSendResult :=
  .failed (customErrorCode err) err.stringify

/-- What `confirmTransaction` comes to: the transaction's own end, the expiry error, or another. -/
inductive Confirmation where
  | value (err : Option TransactionError)
  | expired
  | threw
  deriving DecidableEq, Repr

/-- The last part of `sendMany`. -/
def sendResult (signature : String) (lastValidBlockHeight : Nat) : Confirmation → SendResult
  | .value (some err) => .failed (customErrorCode err) err.stringify
  | .value none => .landed signature
  | .expired => .expired
  | .threw => .unknown signature lastValidBlockHeight

/-- One turn of `resolveUnknownSend` up to its height read: the answer, if the status gives one. -/
def statusResult (signature : String) : Option SignatureStatus → Option ResolvedSendResult
  | none => none
  | some status =>
      match status.err with
      | some err => some (failedWith err)
      | none =>
          match status.confirmationStatus with
          | .processed => none
          | .confirmed => some (.landed signature)
          | .finalized => some (.landed signature)

def heightResult (lastValidBlockHeight blockHeight : Nat) : Option ResolvedSendResult :=
  if lastValidBlockHeight < blockHeight then some .expired else none

/-- What the player gets of a send: its result, or no more than that a poll threw. -/
inductive Said where
  | result (result : ResolvedSendResult)
  | threw
  deriving DecidableEq, Repr

/-- The loop, over what its two calls come back with, turn by turn. It catches nothing. -/
def resolveUnknownSend (signature : String) (lastValidBlockHeight : Nat) :
    List (Called (Option SignatureStatus)) → List (Called Nat) → Option Said
  | [], _ => none
  | .threw :: _, _ => some .threw
  | .value answer :: statuses, heights =>
      match statusResult signature answer, heights with
      | some result, _ => some (.result result)
      | none, [] => none
      | none, .threw :: _ => some .threw
      | none, .value blockHeight :: heights =>
          match heightResult lastValidBlockHeight blockHeight with
          | some result => some (.result result)
          | none => resolveUnknownSend signature lastValidBlockHeight statuses heights

/-- A turn after which the loop goes round again. -/
def Undecided (signature : String) (lastValidBlockHeight : Nat)
    (turn : Option SignatureStatus × Nat) : Prop :=
  statusResult signature turn.1 = none ∧ heightResult lastValidBlockHeight turn.2 = none

section Loop
variable {signature : String} {last : Nat} {turns : List (Option SignatureStatus × Nat)}
  {statuses : List (Called (Option SignatureStatus))} {heights : List (Called Nat)}

/-- Turns that decide nothing are as if they had not been. -/
theorem resolveUnknownSend_turns (undecided : ∀ turn ∈ turns, Undecided signature last turn) :
    resolveUnknownSend signature last (turns.map (fun turn => .value turn.1) ++ statuses)
        (turns.map (fun turn => .value turn.2) ++ heights) =
      resolveUnknownSend signature last statuses heights := by
  induction turns with
  | nil => rfl
  | cons turn rest ih =>
      obtain ⟨⟨noStatus, noHeight⟩, undecided⟩ := List.forall_mem_cons.mp undecided
      simp only [List.map_cons, List.cons_append, resolveUnknownSend, noStatus, noHeight]
      exact ih undecided

/-- It does not poll for ever: a height past the last valid one ends it. -/
theorem resolveUnknownSend_ends {blockHeight : Nat} (asked : heights.length ≤ statuses.length)
    (mem : .value blockHeight ∈ heights) (past : last < blockHeight) :
    (resolveUnknownSend signature last statuses heights).isSome := by
  induction statuses generalizing heights with
  | nil =>
      obtain rfl := List.length_eq_zero_iff.mp (Nat.le_zero.mp asked)
      cases mem
  | cons first statuses ih =>
      cases first with
      | threw => rfl
      | value answer =>
          cases heights with
          | nil => cases mem
          | cons height heights =>
              rw [resolveUnknownSend.eq_def]
              cases decided : statusResult signature answer with
              | some result => simp only [decided, Option.isSome_some]
              | none =>
                  cases height with
                  | threw => simp only [decided, Option.isSome_some]
                  | value height =>
                      simp only [decided, heightResult]
                      split
                      · rfl
                      · next again =>
                          have inTime : ¬last < height := fun gone => by simp [gone] at again
                          refine ih (Nat.le_of_succ_le_succ asked) ?_
                          rcases List.mem_cons.mp mem with same | mem
                          · obtain rfl := Called.value.inj same
                            exact absurd past inTime
                          · exact mem

end Loop

/-! A player's session: one send after another, the chain moving at any time. -/

inductive Phase where
  | idle
  | simulating (lastValidBlockHeight : Nat)
  | signing (lastValidBlockHeight units : Nat)
  | confirming (signature : String) (lastValidBlockHeight : Nat)
  | polling (signature : String) (lastValidBlockHeight : Nat)
  | polled (signature : String) (lastValidBlockHeight : Nat)
  | refused (result : ResolvedSendResult)
  | answered
  | threw
  deriving DecidableEq, Repr

/-- An answer the player got about a signature: how far the word it rests on had come, and what the
chain said of the signature when it was given. -/
structure Answer where
  signature : String
  said : Said
  heard : Commitment
  atAnswer : Option Outcome
  deriving DecidableEq, Repr

structure Session where
  net : Net String Outcome
  phase : Phase
  answers : List Answer

def Session.answer (s : Session) (signature : String) (said : Said) (heard : Commitment) :
    Session :=
  { s with
    phase := .answered
    answers := ⟨signature, said, heard, status s.net.chain signature⟩ :: s.answers }

/-- What the player was told, and of which signature. -/
def Session.told (s : Session) : List (String × Said) :=
  s.answers.map fun answer => (answer.signature, answer.said)

/-- After the simulation: a program error ends the send before the wallet is asked. -/
def sized (lastValidBlockHeight : Nat) : ComputeSizing → Phase
  | .programError err => .refused (failedWith err)
  | .units units => .signing lastValidBlockHeight units

/-- `sendMany`'s result as the player gets it: an unknown one is polled first. -/
def Session.sent (s : Session) (signature : String) : SendResult → Session
  | .landed signature => s.answer signature (.result (.landed signature)) .confirmed
  | .expired => s.answer signature (.result .expired) .confirmed
  | .failed code message => s.answer signature (.result (.failed code message)) .confirmed
  | .unknown signature lastValidBlockHeight =>
      { s with phase := .polling signature lastValidBlockHeight }

def Session.statusRead (s : Session) (signature : String) (lastValidBlockHeight : Nat) :
    Called (Option SignatureStatus) → Session
  | .threw => s.answer signature .threw .confirmed
  | .value answer =>
      match statusResult signature answer with
      | some result =>
          s.answer signature (.result result)
            (answer.elim .confirmed SignatureStatus.confirmationStatus)
      | none => { s with phase := .polled signature lastValidBlockHeight }

def Session.heightRead (s : Session) (signature : String) (lastValidBlockHeight : Nat) :
    Called Nat → Session
  | .threw => s.answer signature .threw .confirmed
  | .value blockHeight =>
      match heightResult lastValidBlockHeight blockHeight with
      | some result => s.answer signature (.result result) .confirmed
      | none => { s with phase := .polling signature lastValidBlockHeight }

inductive Call where
  | network (change : Change String Outcome)
  | getLatestBlockhash (lastValidBlockHeight : Nat)
  | simulateTransaction (instructions : Nat) (sponsored : Bool) (simulated : Option Simulated)
  | sign (signature : String)
  | confirmTransaction (confirmation : Confirmation)
  | getSignatureStatuses (answer : Called (Option SignatureStatus))
  | getBlockHeight (blockHeight : Called Nat)
  | throw

/-- The player may send: nothing is under way. -/
def Phase.Ready : Phase → Prop
  | .idle | .refused _ | .answered | .threw => True
  | .simulating _ | .signing .. | .confirming .. | .polling .. | .polled .. => False

/-- What web3.js answers of a signature is what the confirmed chain has, and it calls a transaction
expired only above its last valid height. -/
def Confirmation.Fair (chain : Chain String Outcome) (signature : String)
    (lastValidBlockHeight : Nat) : Confirmation → Prop
  | .value err => status chain signature = some err
  | .expired => lastValidBlockHeight < height chain
  | .threw => True

inductive Session.Step (withMargin : Nat → Nat) (deadline : String → Nat) :
    Session → Call → Session → Prop
  | network {s : Session} {change : Change String Outcome} {net : Net String Outcome}
      (h : Expiring.Step deadline s.net change net) :
      Session.Step withMargin deadline s (.network change) { s with net }
  | blockhash {s : Session} {last : Nat} (ready : s.phase.Ready) :
      Session.Step withMargin deadline s (.getLatestBlockhash last)
        { s with phase := .simulating last }
  | simulate {s : Session} {last instructions : Nat} {sponsored : Bool}
      {simulated : Option Simulated} (at_ : s.phase = .simulating last) :
      Session.Step withMargin deadline s (.simulateTransaction instructions sponsored simulated)
        { s with
          phase := sized last (computeUnitLimit withMargin instructions sponsored simulated) }
  | sign {s : Session} {last units : Nat} {signature : String} (at_ : s.phase = .signing last units)
      (signed : deadline signature = last) :
      Session.Step withMargin deadline s (.sign signature)
        { s with
          net := { s.net with given := signature :: s.net.given }
          phase := .confirming signature last }
  | confirm {s : Session} {last : Nat} {signature : String} {confirmation : Confirmation}
      (at_ : s.phase = .confirming signature last)
      (fair : confirmation.Fair s.net.chain signature last) :
      Session.Step withMargin deadline s (.confirmTransaction confirmation)
        (s.sent signature (sendResult signature last confirmation))
  | statuses {s : Session} {last : Nat} {signature : String}
      {answer : Called (Option SignatureStatus)} (at_ : s.phase = .polling signature last)
      (fair : answer.Fair (SignatureStatus.Fair s.net.chain signature)) :
      Session.Step withMargin deadline s (.getSignatureStatuses answer)
        (s.statusRead signature last answer)
  | blockHeight {s : Session} {last : Nat} {signature : String} {blockHeight : Called Nat}
      (at_ : s.phase = .polled signature last)
      (seen : blockHeight.Fair fun blockHeight => blockHeight ≤ height s.net.chain) :
      Session.Step withMargin deadline s (.getBlockHeight blockHeight)
        (s.heightRead signature last blockHeight)
  | threw {s : Session} (at_ : s.phase.Ready ∨ ∃ last units, s.phase = .signing last units) :
      Session.Step withMargin deadline s .throw { s with phase := .threw }

def Session.start : Session := ⟨⟨[], []⟩, .idle, []⟩

/-- What an answer promises of the chain, then and later. One of a poll that threw promises nothing:
the send may have landed, or land yet. -/
def Answer.Stands (chain : Chain String Outcome) (answer : Answer) : Prop :=
  match answer.said with
  | .result (.landed signature) =>
      signature = answer.signature ∧ status chain signature = some none
  | .result .expired => status chain answer.signature = answer.atAnswer
  | .result (.failed code message) => answer.heard = .processed ∨ ∃ err,
      status chain answer.signature = some (some err) ∧ failedWith err = .failed code message
  | .threw => True

/-- Only a failure may rest on a block that was not yet confirmed. -/
def Answer.Loose (answer : Answer) : Prop :=
  match answer.said with
  | .result (.landed _) | .result .expired => False
  | .result (.failed ..) => answer.heard = .processed
  | .threw => True

def Answer.Tells (answer : Answer) (word : Option Outcome) : Prop :=
  match answer.said with
  | .result (.landed signature) => signature = answer.signature ∧ word = some none
  | .result .expired => word = answer.atAnswer
  | .result (.failed code message) => ∃ err,
      word = some (some err) ∧ failedWith err = .failed code message
  | .threw => True

def reporting : Reporting String Outcome Answer where
  message := Answer.signature
  Loose := Answer.Loose
  Tells := Answer.Tells

/-- The signature under way was made with the blockhash whose last valid height is at hand. -/
def Phase.Dated (deadline : String → Nat) : Phase → Prop
  | .confirming signature last | .polling signature last | .polled signature last =>
      deadline signature = last
  | .idle | .simulating _ | .signing .. | .refused _ | .answered | .threw => True

structure Session.Kept (deadline : String → Nat) (s : Session) : Prop where
  dated : s.phase.Dated deadline
  final : ∀ answer ∈ s.answers, reporting.Final deadline s.net.chain answer

/-- The send whose end the player waits for. -/
def Phase.signature : Phase → Option String
  | .confirming signature _ | .polling signature _ | .polled signature _ => some signature
  | .idle | .simulating _ | .signing .. | .refused _ | .answered | .threw => none

def Call.signed : Call → Option String
  | .sign signature => some signature
  | _ => none

def Call.PollThrew : Call → Prop
  | .getSignatureStatuses .threw | .getBlockHeight .threw => True
  | _ => False

/-- Every send that was signed is under way or has been answered, once; and the player is left
without a result only by a poll that threw. -/
structure Session.Answered (history : List (Session × Call)) (s : Session) : Prop where
  signed : s.phase.signature.toList ++ s.answers.map Answer.signature =
    history.filterMap fun x => x.2.signed
  threw : ∀ answer ∈ s.answers, answer.said = .threw →
    ∃ poll ∈ history, poll.1.phase.signature = some answer.signature ∧ poll.2.PollThrew

section Proof
variable {withMargin : Nat → Nat} {deadline : String → Nat} {s s' : Session} {call : Call}
  {net : Net String Outcome} {change : Change String Outcome} {answer : Answer} {last : Nat}
  {signature : String} {history : List (Session × Call)}

theorem Answer.stands_of_reporting (h : reporting.Stands s.net.chain answer) :
    answer.Stands s.net.chain := by
  simp only [Reporting.Stands, reporting, Answer.Loose, Answer.Tells] at h
  rw [Answer.Stands]
  split at h
  · obtain ⟨same, landed⟩ := h.resolve_left id
    exact ⟨same, same ▸ landed⟩
  · exact h.resolve_left id
  · exact h
  · exact True.intro

/-- A new answer, given with the chain as it is. -/
theorem Session.Kept.answered (kept : s.Kept deadline) {said : Said} {heard : Commitment}
    (final : reporting.Final deadline s.net.chain
      ⟨signature, said, heard, status s.net.chain signature⟩) :
    (s.answer signature said heard).Kept deadline where
  dated := True.intro
  final := List.forall_mem_cons.mpr ⟨final, kept.final⟩

theorem Session.Kept.confirm (kept : s.Kept deadline) (at_ : s.phase = .confirming signature last)
    {confirmation : Confirmation} (fair : confirmation.Fair s.net.chain signature last) :
    (s.sent signature (sendResult signature last confirmation)).Kept deadline := by
  have dated : deadline signature = last := by
    have dated := kept.dated
    rwa [at_] at dated
  cases confirmation with
  | value err =>
      cases err with
      | none => exact kept.answered (Reporting.Final.ended fair ⟨rfl, rfl⟩)
      | some err => exact kept.answered (Reporting.Final.ended fair ⟨err, rfl, rfl⟩)
  | expired => exact kept.answered (Reporting.Final.late (dated ▸ Nat.le_of_lt fair) rfl)
  | threw => exact ⟨dated, kept.final⟩

theorem Session.Kept.statusRead (kept : s.Kept deadline) (at_ : s.phase = .polling signature last)
    {answer : Called (Option SignatureStatus)}
    (fair : answer.Fair (SignatureStatus.Fair s.net.chain signature)) :
    (s.statusRead signature last answer).Kept deadline := by
  have dated : deadline signature = last := by
    have dated := kept.dated
    rwa [at_] at dated
  rcases answer with (_ | ⟨err, commitment⟩) | _
  · exact ⟨dated, kept.final⟩
  · cases err with
    | some err =>
        refine kept.answered ?_
        rcases fair with processed | ended
        · exact .inl processed
        · exact Reporting.Final.ended ended ⟨err, rfl, rfl⟩
    | none =>
        have ended (confirmed : commitment ≠ .processed) :
            status s.net.chain signature = some none := fair.resolve_left confirmed
        cases commitment with
        | processed => exact ⟨dated, kept.final⟩
        | confirmed => exact kept.answered (Reporting.Final.ended (ended (by decide)) ⟨rfl, rfl⟩)
        | finalized => exact kept.answered (Reporting.Final.ended (ended (by decide)) ⟨rfl, rfl⟩)
  · exact kept.answered (.inl True.intro)

theorem Session.Kept.heightRead (kept : s.Kept deadline) (at_ : s.phase = .polled signature last)
    {blockHeight : Called Nat}
    (seen : blockHeight.Fair fun blockHeight => blockHeight ≤ height s.net.chain) :
    (s.heightRead signature last blockHeight).Kept deadline := by
  have dated : deadline signature = last := by
    have dated := kept.dated
    rwa [at_] at dated
  cases blockHeight with
  | threw => exact kept.answered (.inl True.intro)
  | value blockHeight =>
      simp only [Session.heightRead, heightResult]
      by_cases gone : last < blockHeight
      · have late : deadline signature ≤ height s.net.chain :=
          dated ▸ (Nat.le_of_lt gone).trans seen
        rw [if_pos gone]
        exact kept.answered (Reporting.Final.late late rfl)
      · rw [if_neg gone]
        exact ⟨dated, kept.final⟩

theorem Session.Step.kept (h : Session.Step withMargin deadline s call s')
    (kept : s.Kept deadline) : s'.Kept deadline := by
  cases h with
  | network h => exact ⟨kept.dated, Reporting.Final.all_grow kept.final h⟩
  | blockhash | threw => exact ⟨True.intro, kept.final⟩
  | simulate =>
      refine ⟨?_, kept.final⟩
      cases computeUnitLimit withMargin _ _ _ <;> exact True.intro
  | sign _ signed => exact ⟨signed, kept.final⟩
  | confirm at_ fair => exact kept.confirm at_ fair
  | statuses at_ fair => exact kept.statusRead at_ fair
  | blockHeight at_ seen => exact kept.heightRead at_ seen

theorem Phase.signature_of_ready {phase : Phase} (ready : phase.Ready) :
    phase.signature = none := by
  cases phase with
  | idle | refused | answered | threw => rfl
  | simulating | signing | confirming | polling | polled => exact ready.elim

/-- Where a call may throw to the screen unanswered, no send is under way. -/
theorem Phase.signature_of_throws {phase : Phase}
    (throws : phase.Ready ∨ ∃ last units, phase = .signing last units) :
    phase.signature = none := by
  rcases throws with ready | ⟨last, units, rfl⟩
  · exact Phase.signature_of_ready ready
  · rfl

/-- A send goes out, or its end is told, or neither. -/
theorem Session.Step.moves (h : Session.Step withMargin deadline s call s') :
    (call.signed = none ∧ s'.phase.signature = s.phase.signature ∧ s'.answers = s.answers) ∨
    (∃ signature, call.signed = some signature ∧ s.phase.signature = none ∧
      s'.phase.signature = some signature ∧ s'.answers = s.answers) ∨
    ∃ answer, call.signed = none ∧ s.phase.signature = some answer.signature ∧
      s'.phase.signature = none ∧ s'.answers = answer :: s.answers ∧
      (answer.said = .threw → call.PollThrew) := by
  cases h with
  | network => exact .inl ⟨rfl, rfl, rfl⟩
  | blockhash ready => exact .inl ⟨rfl, (Phase.signature_of_ready ready).symm, rfl⟩
  | simulate at_ =>
      refine .inl ⟨rfl, ?_, rfl⟩
      rw [at_]
      cases computeUnitLimit withMargin _ _ _ <;> rfl
  | sign at_ => exact .inr (.inl ⟨_, rfl, at_ ▸ rfl, rfl, rfl⟩)
  | @confirm last signature confirmation at_ =>
      rw [at_]
      rcases confirmation with (_ | _) | _ | _
      · exact .inr (.inr ⟨_, rfl, rfl, rfl, rfl, nofun⟩)
      · exact .inr (.inr ⟨_, rfl, rfl, rfl, rfl, nofun⟩)
      · exact .inr (.inr ⟨_, rfl, rfl, rfl, rfl, nofun⟩)
      · exact .inl ⟨rfl, rfl, rfl⟩
  | @statuses last signature answer at_ =>
      rw [at_]
      cases answer with
      | threw => exact .inr (.inr ⟨_, rfl, rfl, rfl, rfl, fun _ => True.intro⟩)
      | value answer =>
          rw [Session.statusRead]
          cases statusResult signature answer with
          | none => exact .inl ⟨rfl, rfl, rfl⟩
          | some result => exact .inr (.inr ⟨_, rfl, rfl, rfl, rfl, nofun⟩)
  | @blockHeight last signature blockHeight at_ =>
      rw [at_]
      cases blockHeight with
      | threw => exact .inr (.inr ⟨_, rfl, rfl, rfl, rfl, fun _ => True.intro⟩)
      | value blockHeight =>
          rw [Session.heightRead]
          cases heightResult last blockHeight with
          | none => exact .inl ⟨rfl, rfl, rfl⟩
          | some result => exact .inr (.inr ⟨_, rfl, rfl, rfl, rfl, nofun⟩)
  | threw throws => exact .inl ⟨rfl, (Phase.signature_of_throws throws).symm, rfl⟩

theorem Session.Step.answered (h : Session.Step withMargin deadline s call s')
    (answered : s.Answered history) : s'.Answered ((s, call) :: history) := by
  have old := answered.signed
  have threw : ∀ answer ∈ s.answers, answer.said = .threw → ∃ poll ∈ (s, call) :: history,
      poll.1.phase.signature = some answer.signature ∧ poll.2.PollThrew := by
    intro answer mem silent
    obtain ⟨poll, earlier, broke⟩ := answered.threw answer mem silent
    exact ⟨poll, List.mem_cons_of_mem _ earlier, broke⟩
  rcases h.moves with ⟨unsigned, same, kept⟩ | ⟨signature, signed, idle, sent, kept⟩ |
    ⟨answer, unsigned, waiting, told, new, silent⟩
  · refine ⟨?_, kept ▸ threw⟩
    simp only [same, kept, old, List.filterMap_cons, unsigned]
  · refine ⟨?_, kept ▸ threw⟩
    rw [idle] at old
    simp only [sent, kept, List.filterMap_cons, signed, ← old]
    rfl
  · constructor
    · rw [waiting] at old
      simp only [told, new, List.filterMap_cons, unsigned, ← old]
      rfl
    · rw [new]
      refine List.forall_mem_cons.mpr ⟨fun broke => ?_, threw⟩
      exact ⟨_, List.mem_cons_self .., waiting, silent broke⟩

/-- In any interleaving of a player's sends with the chain, each send that was signed is under way
or has been answered once, and an answer still holds however far the chain has grown since. A send
that landed did and ended well; one that failed ended so, unless the word was of a block not yet
confirmed; one that expired is on the chain now only if it was when the player was told to try
again; and where there is no result, a poll threw. -/
theorem session_told (run : Runs.Steps (Session.Step withMargin deadline) Session.start history s) :
    s.Answered history ∧ ∀ answer ∈ s.answers, answer.Stands s.net.chain := by
  have kept : s.Answered history ∧ s.Kept deadline := by
    refine run.invariant (P := fun history s => s.Answered history ∧ s.Kept deadline) ?_ ?_
    · exact ⟨⟨rfl, List.forall_mem_nil _⟩, True.intro, List.forall_mem_nil _⟩
    · exact fun _ ⟨answered, kept⟩ h => ⟨h.answered answered, h.kept kept⟩
  refine ⟨kept.1, fun answer mem => ?_⟩
  exact Answer.stands_of_reporting (kept.2.final answer mem).stands

end Proof

/-- A deposit that lands between the last status read and the height read: the player is told to
try again, and the answer is what the chain said then. Another is sent, and lands after a poll of it
threw. -/
theorem session_told_window : ∃ s : Session,
    s.told = [("again", .threw), ("deposit", .result .expired)] ∧
    status s.net.chain "deposit" = some none ∧ status s.net.chain "again" = some none ∧
    ∀ answer ∈ s.answers, answer.Stands s.net.chain := by
  let clean : Simulated := ⟨none, some 5, []⟩
  let deadline (signature : String) : Nat := if signature = "deposit" then 1 else 5
  let give : Net String Outcome := ⟨[], ["deposit"]⟩
  let landed : Net String Outcome := ⟨[[("deposit", none)]], ["deposit"]⟩
  let again : Net String Outcome := ⟨[[("deposit", none)], []], ["again", "deposit"]⟩
  have fits : Fits deadline give [("deposit", none)] := by
    refine ⟨fun entry mem => ?_, fun entry mem => ?_⟩
    · obtain rfl := List.mem_singleton.mp mem
      exact List.mem_singleton.mpr rfl
    · obtain rfl := List.mem_singleton.mp mem
      exact Nat.one_pos
  have idle : Fits deadline landed ([] : List (String × Outcome)) :=
    ⟨List.forall_mem_nil _, List.forall_mem_nil _⟩
  have late : Fits deadline again [("again", none)] := by
    refine ⟨fun entry mem => ?_, fun entry mem => ?_⟩
    · obtain rfl := List.mem_singleton.mp mem
      exact List.mem_cons_self ..
    · obtain rfl := List.mem_singleton.mp mem
      decide
  have run : Runs.Steps (Session.Step id deadline) Session.start _ _ := Runs.Steps.start
    |>.next (@Session.Step.blockhash _ _ Session.start 1 True.intro)
    |>.next (@Session.Step.simulate _ _ _ _ 1 false (some clean) rfl)
    |>.next (@Session.Step.sign _ _ _ _ _ "deposit" rfl rfl)
    |>.next (@Session.Step.confirm _ _ _ _ _ .threw rfl True.intro)
    |>.next (@Session.Step.statuses _ _ _ _ _ (.value none) rfl True.intro)
    |>.next (.network (.block fits))
    |>.next (.network (.block idle))
    |>.next (@Session.Step.blockHeight _ _ _ _ _ (.value 2) rfl (Nat.le_refl 2))
    |>.next (@Session.Step.blockhash _ _ _ 5 True.intro)
    |>.next (@Session.Step.simulate _ _ _ _ 1 false (some clean) rfl)
    |>.next (@Session.Step.sign _ _ _ _ _ "again" rfl rfl)
    |>.next (@Session.Step.confirm _ _ _ _ _ .threw rfl True.intro)
    |>.next (@Session.Step.statuses _ _ _ _ _ .threw rfl True.intro)
    |>.next (.network (.block late))
  exact ⟨_, rfl, rfl, rfl, (session_told run).2⟩

/-! The loop in the run. -/

def Call.status : Call → Option (Called (Option SignatureStatus))
  | .getSignatureStatuses answer => some answer
  | _ => none

def Call.blockHeight : Call → Option (Called Nat)
  | .getBlockHeight blockHeight => some blockHeight
  | _ => none

/-- What the calls of a run came back with, in their order. -/
def answersTo {α : Type} (answer : Call → Option α) (history : List (Session × Call)) : List α :=
  history.reverse.filterMap fun x => answer x.2

/-- No other send has begun. -/
def Call.Same : Call → Prop
  | .getLatestBlockhash _ => False
  | _ => True

/-- Where the loop is, by what its calls have come back with. -/
inductive Polls (signature : String) (last : Nat) (before : List (String × Said)) :
    List (Called (Option SignatureStatus)) → List (Called Nat) → Session → Prop
  | polling {turns : List (Option SignatureStatus × Nat)} {s : Session}
      (undecided : ∀ turn ∈ turns, Undecided signature last turn)
      (at_ : s.phase = .polling signature last) (told : s.told = before) :
      Polls signature last before (turns.map fun turn => .value turn.1)
        (turns.map fun turn => .value turn.2) s
  | polled {turns : List (Option SignatureStatus × Nat)} {answer : Option SignatureStatus}
      {s : Session} (undecided : ∀ turn ∈ turns, Undecided signature last turn)
      (silent : statusResult signature answer = none) (at_ : s.phase = .polled signature last)
      (told : s.told = before) :
      Polls signature last before (turns.map (fun turn => .value turn.1) ++ [.value answer])
        (turns.map fun turn => .value turn.2) s
  | ended {statuses : List (Called (Option SignatureStatus))} {heights : List (Called Nat)}
      {said : Said} {s : Session} (at_ : s.phase = .answered ∨ s.phase = .threw)
      (loop : resolveUnknownSend signature last statuses heights = some said)
      (told : s.told = (signature, said) :: before) : Polls signature last before statuses heights s

section Loop
variable {withMargin : Nat → Nat} {deadline : String → Nat} {s s' : Session} {call : Call}
  {last : Nat} {signature : String} {history : List (Session × Call)}
  {before : List (String × Said)} {turns : List (Option SignatureStatus × Nat)}
  {statuses : List (Called (Option SignatureStatus))} {heights : List (Called Nat)}

/-- The loop has told what it comes to. -/
theorem Polls.loop (polls : Polls signature last before statuses heights s) :
    s.told =
      ((resolveUnknownSend signature last statuses heights).map (signature, ·)).toList ++
        before := by
  cases polls with
  | polling undecided _ told =>
      have loop := @resolveUnknownSend_turns signature last _ [] [] undecided
      rw [List.append_nil, List.append_nil] at loop
      rw [loop, told]
      rfl
  | @polled _ answer _ undecided silent _ told =>
      have loop := @resolveUnknownSend_turns signature last _ [.value answer] [] undecided
      rw [List.append_nil] at loop
      rw [loop, told]
      simp only [resolveUnknownSend, silent, Option.map_none, Option.toList_none, List.nil_append]
  | ended _ loop told =>
      rw [loop, told]
      rfl

/-- A status read. -/
theorem Polls.statusRead (undecided : ∀ turn ∈ turns, Undecided signature last turn)
    (told : s.told = before) (answer : Called (Option SignatureStatus)) :
    Polls signature last before (turns.map (fun turn => .value turn.1) ++ [answer])
      (turns.map fun turn => .value turn.2) (s.statusRead signature last answer) := by
  have loop := @resolveUnknownSend_turns signature last _ [answer] [] undecided
  rw [List.append_nil] at loop
  cases answer with
  | threw => exact .ended (.inl rfl) loop (congrArg (_ :: ·) told)
  | value answer =>
      rw [Session.statusRead]
      cases result : statusResult signature answer with
      | none => exact .polled undecided result rfl told
      | some result =>
          refine .ended (.inl rfl) (loop.trans ?_) (congrArg (_ :: ·) told)
          simp only [resolveUnknownSend, *]

/-- A height read. -/
theorem Polls.heightRead {answer : Option SignatureStatus}
    (undecided : ∀ turn ∈ turns, Undecided signature last turn)
    (silent : statusResult signature answer = none) (told : s.told = before)
    (blockHeight : Called Nat) :
    Polls signature last before (turns.map (fun turn => .value turn.1) ++ [.value answer])
      (turns.map (fun turn => .value turn.2) ++ [blockHeight])
      (s.heightRead signature last blockHeight) := by
  have loop := @resolveUnknownSend_turns signature last _ [.value answer] [blockHeight] undecided
  cases blockHeight with
  | threw =>
      refine .ended (.inl rfl) (loop.trans ?_) (congrArg (_ :: ·) told)
      simp only [resolveUnknownSend, silent]
  | value blockHeight =>
      rw [Session.heightRead]
      cases result : heightResult last blockHeight with
      | none =>
          have again : ∀ turn ∈ turns ++ [(answer, blockHeight)], Undecided signature last turn :=
            List.forall_mem_append.mpr ⟨undecided, List.forall_mem_singleton.mpr ⟨silent, result⟩⟩
          simpa only [List.map_append, List.map_cons, List.map_nil] using
            @Polls.polling signature last before _
              { s with phase := .polling signature last } again rfl told
      | some result =>
          refine .ended (.inl rfl) (loop.trans ?_) (congrArg (_ :: ·) told)
          simp only [resolveUnknownSend, *]

theorem Session.Step.polls (h : Session.Step withMargin deadline s call s') (same : call.Same)
    (polls : Polls signature last before statuses heights s) :
    Polls signature last before (statuses ++ call.status.toList)
      (heights ++ call.blockHeight.toList) s' := by
  have resting (unread : call.status = none ∧ call.blockHeight = none)
      (rest : Polls signature last before statuses heights s') :
      Polls signature last before (statuses ++ call.status.toList)
        (heights ++ call.blockHeight.toList) s' := by
    rw [unread.1, unread.2]
    simpa only [Option.toList_none, List.append_nil] using rest
  cases polls with
  | @polling turns _ undecided at_ told =>
      cases h with
      | network => exact resting ⟨rfl, rfl⟩ (.polling undecided at_ told)
      | @statuses last' signature' answer reading =>
          obtain ⟨rfl, rfl⟩ := Phase.polling.inj (at_.symm.trans reading)
          simpa only [Call.status, Call.blockHeight, Option.toList_some, Option.toList_none,
            List.append_nil] using Polls.statusRead undecided told answer
      | blockhash => exact same.elim
      | threw throws =>
          cases (congrArg Phase.signature at_).symm.trans (Phase.signature_of_throws throws)
      | simulate phase | sign phase | confirm phase | blockHeight phase =>
          cases at_.symm.trans phase
  | @polled turns answer _ undecided silent at_ told =>
      cases h with
      | network => exact resting ⟨rfl, rfl⟩ (.polled undecided silent at_ told)
      | @blockHeight last' signature' blockHeight reading =>
          obtain ⟨rfl, rfl⟩ := Phase.polled.inj (at_.symm.trans reading)
          simpa only [Call.status, Call.blockHeight, Option.toList_some, Option.toList_none,
            List.append_nil] using Polls.heightRead undecided silent told blockHeight
      | blockhash => exact same.elim
      | threw throws =>
          cases (congrArg Phase.signature at_).symm.trans (Phase.signature_of_throws throws)
      | simulate phase | sign phase | confirm phase | statuses phase =>
          cases at_.symm.trans phase
  | ended at_ loop told =>
      cases h with
      | network => exact resting ⟨rfl, rfl⟩ (.ended at_ loop told)
      | threw => exact resting ⟨rfl, rfl⟩ (.ended (.inr rfl) loop told)
      | blockhash => exact same.elim
      | simulate phase | sign phase | confirm phase | statuses phase | blockHeight phase =>
          rcases at_ with at_ | at_ <;> cases at_.symm.trans phase

/-- From the first status read on, what the player is told of the send is what `resolveUnknownSend`
makes of the answers its calls got, in whatever order the chain moved between them. -/
theorem resolveUnknownSend_run (at_ : s.phase = .polling signature last)
    (run : Runs.Steps (Session.Step withMargin deadline) s history s')
    (same : ∀ x ∈ history, x.2.Same) :
    s'.told = ((resolveUnknownSend signature last (answersTo Call.status history)
      (answersTo Call.blockHeight history)).map (signature, ·)).toList ++ s.told := by
  refine Polls.loop ?_
  refine run.invariantWhile (C := fun x => x.2.Same) (P := fun history t =>
    Polls signature last s.told (answersTo Call.status history)
      (answersTo Call.blockHeight history) t) ?_ ?_ same
  · exact @Polls.polling signature last s.told [] s (List.forall_mem_nil _) at_ rfl
  · intro history t call u _ polls still h
    have next := h.polls still polls
    simp only [answersTo, List.reverse_cons, List.filterMap_append] at next ⊢
    cases call <;> exact next

end Loop

end Web

end HexVault
