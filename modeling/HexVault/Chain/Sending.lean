import HexVault.Chain.Rpc

/-!
How the backend lands a transaction it has signed. `sendSigned` opens the signature subscription
before the first send, rebroadcasts the same bytes while it waits, and past the timeout asks once
for the status and once for the block height. The operator and the admin send again and again; the
chain moves all the while.
-/

namespace HexVault

namespace Sending

open Expiring Rpc

/-- How a send threw: the error of the transaction, one of the two timeouts, or the RPC's own. -/
inductive SendError where
  | failed (err : TransactionError)
  | expired (blockHeight lastValidBlockHeight : Nat)
  | pending
  | rpc
  deriving DecidableEq, Repr

def confirmTimeoutMs : Nat := 30000

def SendError.message (signature : String) : SendError → Option String
  | .failed err => some ("transaction " ++ signature ++ " failed: " ++ err.stringify)
  | .expired blockHeight last =>
      some ("transaction " ++ signature ++ " expired: block height " ++ toString blockHeight ++
        " passed the blockhash's last valid height " ++ toString last)
  | .pending =>
      some ("transaction " ++ signature ++ " still pending after " ++ toString confirmTimeoutMs ++
        "ms; the blockhash has not expired yet")
  | .rpc => none

/-- A send returned, or threw. -/
inductive SendEnd where
  | returned
  | threw (error : SendError)
  deriving DecidableEq, Repr

def ended : Outcome → SendEnd
  | none => .returned
  | some err => .threw (.failed err)

inductive Phase where
  | idle
  | subscribed (signature : String) (lastValidBlockHeight : Nat)
  | watching (signature : String) (lastValidBlockHeight : Nat)
  | timedOut (signature : String) (lastValidBlockHeight : Nat)
  | unseen (signature : String) (lastValidBlockHeight : Nat)
  deriving DecidableEq, Repr

/-- How a send ended: how far the word it rests on had come, and what the chain said of the
signature then. -/
structure Report where
  signature : String
  result : SendEnd
  heard : Commitment
  atEnd : Option Outcome
  deriving DecidableEq, Repr

structure Sender where
  net : Net String Outcome
  phase : Phase
  reports : List Report

def Sender.finish (s : Sender) (signature : String) (result : SendEnd) (heard : Commitment) :
    Sender :=
  { s with
    phase := .idle
    reports := ⟨signature, result, heard, status s.net.chain signature⟩ :: s.reports }

/-- After the timeout any status decides, of whatever commitment. -/
def Sender.statusRead (s : Sender) (signature : String) (lastValidBlockHeight : Nat) :
    Option SignatureStatus → Sender
  | some seen => s.finish signature (ended seen.err) seen.confirmationStatus
  | none => { s with phase := .unseen signature lastValidBlockHeight }

def Sender.heightRead (s : Sender) (signature : String) (lastValidBlockHeight blockHeight : Nat) :
    Sender :=
  if lastValidBlockHeight < blockHeight then
    s.finish signature (.threw (.expired blockHeight lastValidBlockHeight)) .confirmed
  else s.finish signature (.threw .pending) .confirmed

inductive Call where
  | network (change : Change String Outcome)
  | watchSignature (signature : String)
  | sendRawTransaction
  | rebroadcast
  | notified (outcome : Outcome)
  | timeout
  | getSignatureStatuses (answer : Option SignatureStatus)
  | getBlockHeight (blockHeight : Nat)
  | throw

/-- The send that is under way. -/
def Phase.signature : Phase → Option String
  | .idle => none
  | .subscribed signature _ | .watching signature _ | .timedOut signature _ |
    .unseen signature _ => some signature

/-- Nothing a call throws is caught before the caller, and the transaction may have gone out. -/
inductive Sender.Step (deadline : String → Nat) : Sender → Call → Sender → Prop
  | network {s : Sender} {change : Change String Outcome} {net : Net String Outcome}
      (h : Expiring.Step deadline s.net change net) :
      Sender.Step deadline s (.network change) { s with net }
  | subscribe {s : Sender} {signature : String} (at_ : s.phase = .idle) :
      Sender.Step deadline s (.watchSignature signature)
        { s with phase := .subscribed signature (deadline signature) }
  | send {s : Sender} {signature : String} {last : Nat}
      (at_ : s.phase = .subscribed signature last) :
      Sender.Step deadline s .sendRawTransaction
        { s with
          net := { s.net with given := signature :: s.net.given }
          phase := .watching signature last }
  | rebroadcast {s : Sender} {signature : String} {last : Nat}
      (at_ : s.phase = .watching signature last) :
      Sender.Step deadline s .rebroadcast
        { s with net := { s.net with given := signature :: s.net.given } }
  | notified {s : Sender} {signature : String} {last : Nat} {outcome : Outcome}
      (at_ : s.phase = .watching signature last)
      (fair : status s.net.chain signature = some outcome) :
      Sender.Step deadline s (.notified outcome) (s.finish signature (ended outcome) .confirmed)
  | timeout {s : Sender} {signature : String} {last : Nat}
      (at_ : s.phase = .watching signature last) :
      Sender.Step deadline s .timeout { s with phase := .timedOut signature last }
  | statuses {s : Sender} {signature : String} {last : Nat} {answer : Option SignatureStatus}
      (at_ : s.phase = .timedOut signature last)
      (fair : SignatureStatus.Fair s.net.chain signature answer) :
      Sender.Step deadline s (.getSignatureStatuses answer) (s.statusRead signature last answer)
  | blockHeight {s : Sender} {signature : String} {last blockHeight : Nat}
      (at_ : s.phase = .unseen signature last) (seen : blockHeight ≤ height s.net.chain) :
      Sender.Step deadline s (.getBlockHeight blockHeight)
        (s.heightRead signature last blockHeight)
  | threw {s : Sender} {signature : String} (at_ : s.phase.signature = some signature) :
      Sender.Step deadline s .throw (s.finish signature (.threw .rpc) .confirmed)

def Sender.start : Sender := ⟨⟨[], []⟩, .idle, []⟩

/-- What a report promises of the chain, then and later. -/
def Report.Stands (chain : Chain String Outcome) (report : Report) : Prop :=
  match report.result with
  | .returned => report.heard = .processed ∨ status chain report.signature = some none
  | .threw (.failed err) =>
      report.heard = .processed ∨ status chain report.signature = some (some err)
  | .threw (.expired blockHeight last) =>
      last < blockHeight ∧ status chain report.signature = report.atEnd
  | .threw .pending | .threw .rpc => True

/-- What it says may be of a block not yet confirmed; and a send that is pending, or whose call
threw, promises nothing. -/
def Report.Loose (report : Report) : Prop :=
  match report.result with
  | .returned | .threw (.failed _) => report.heard = .processed
  | .threw (.expired ..) => False
  | .threw .pending | .threw .rpc => True

def Report.Tells (report : Report) (word : Option Outcome) : Prop :=
  match report.result with
  | .returned => word = some none
  | .threw (.failed err) => word = some (some err)
  | .threw (.expired blockHeight last) => last < blockHeight ∧ word = report.atEnd
  | .threw .pending | .threw .rpc => True

def reporting : Reporting String Outcome Report where
  message := Report.signature
  Loose := Report.Loose
  Tells := Report.Tells

/-- The send under way expires at its own blockhash's height. -/
def Phase.Dated (deadline : String → Nat) : Phase → Prop
  | .idle => True
  | .subscribed signature last | .watching signature last | .timedOut signature last |
    .unseen signature last => deadline signature = last

structure Sender.Kept (deadline : String → Nat) (s : Sender) : Prop where
  dated : s.phase.Dated deadline
  final : ∀ report ∈ s.reports, reporting.Final deadline s.net.chain report

section Proof
variable {deadline : String → Nat} {s s' : Sender} {call : Call} {net : Net String Outcome}
  {change : Change String Outcome} {report : Report} {last : Nat} {signature : String}

theorem Report.stands_of_reporting (h : reporting.Stands s.net.chain report) :
    report.Stands s.net.chain := by
  simp only [Reporting.Stands, reporting, Report.Loose, Report.Tells] at h
  rw [Report.Stands]
  split at h
  · exact h
  · exact h
  · exact h.resolve_left id
  · exact True.intro
  · exact True.intro

theorem Sender.Kept.finish (kept : s.Kept deadline) {result : SendEnd} {heard : Commitment}
    (final : reporting.Final deadline s.net.chain
      ⟨signature, result, heard, status s.net.chain signature⟩) :
    (s.finish signature result heard).Kept deadline where
  dated := True.intro
  final := List.forall_mem_cons.mpr ⟨final, kept.final⟩

/-- What the chain, or a block that may yet be dropped, says of the signature is reported as is. -/
theorem final_ended {outcome : Outcome} {heard : Commitment} {atEnd : Option Outcome}
    (fair : heard = .processed ∨ status s.net.chain signature = some outcome) :
    reporting.Final deadline s.net.chain ⟨signature, ended outcome, heard, atEnd⟩ := by
  rcases fair with processed | found
  · cases outcome with
    | none => exact .inl processed
    | some err => exact .inl processed
  · refine Reporting.Final.ended found ?_
    cases outcome with
    | none => rfl
    | some err => rfl

theorem Sender.Step.kept (h : Sender.Step deadline s call s') (kept : s.Kept deadline) :
    s'.Kept deadline := by
  have dated := kept.dated
  cases h with
  | network h => exact ⟨dated, Reporting.Final.all_grow kept.final h⟩
  | subscribe => exact ⟨rfl, kept.final⟩
  | send at_ | timeout at_ =>
      rw [at_] at dated
      exact ⟨dated, kept.final⟩
  | rebroadcast => exact ⟨dated, kept.final⟩
  | notified _ fair => exact kept.finish (final_ended (.inr fair))
  | @statuses signature last answer at_ fair =>
      cases answer with
      | some seen => exact kept.finish (final_ended fair)
      | none =>
          rw [at_] at dated
          exact ⟨dated, kept.final⟩
  | @blockHeight signature last blockHeight at_ seen =>
      rw [at_] at dated
      rw [Sender.heightRead]
      split
      · next gone =>
          have late : deadline signature ≤ height s.net.chain :=
            dated ▸ (Nat.le_of_lt gone).trans seen
          exact kept.finish (Reporting.Final.late late ⟨gone, rfl⟩)
      · exact kept.finish (.inl True.intro)
  | threw => exact kept.finish (.inl True.intro)

/-- In any interleaving of the backend's sends with the chain, what a send reported still holds
however far the chain has grown since. A send that returned is on the chain without an error and
one that failed with its error, unless the word was of a block not yet confirmed; and one that
expired is on the chain now only if it was then. -/
theorem sends_told {history : List (Sender × Call)}
    (run : Runs.Steps (Sender.Step deadline) Sender.start history s) :
    ∀ report ∈ s.reports, report.Stands s.net.chain := by
  have kept : s.Kept deadline := by
    refine run.invariant (P := fun _ s => s.Kept deadline) ?_ fun _ kept h => h.kept kept
    exact ⟨True.intro, List.forall_mem_nil _⟩
  exact fun report mem => Report.stands_of_reporting (kept.final report mem).stands

end Proof

/-- A grant that lands after a rebroadcast and one that expires. -/
theorem sends_told_expired : ∃ s : Sender,
    (∃ report ∈ s.reports, report.result = .returned ∧ report.heard = .confirmed ∧
      report.Stands s.net.chain) ∧
    ∃ report ∈ s.reports, report.result = .threw (.expired 2 1) ∧ report.Stands s.net.chain := by
  let given : Net String Outcome := ⟨[], ["grant", "grant"]⟩
  let landed : Net String Outcome := ⟨[[("grant", none)]], ["grant", "grant"]⟩
  let again : Net String Outcome := ⟨[[("grant", none)]], ["crank", "grant", "grant"]⟩
  have fits : Fits (fun _ => 1) given [("grant", none)] := by
    refine ⟨fun entry mem => ?_, fun entry mem => ?_⟩
    · obtain rfl := List.mem_singleton.mp mem
      exact List.mem_cons_self ..
    · exact Nat.one_pos
  have idle : Fits (fun _ => 1) again ([] : List (String × Outcome)) :=
    ⟨List.forall_mem_nil _, List.forall_mem_nil _⟩
  have run : Runs.Steps (Sender.Step fun _ => 1) Sender.start _ _ := Runs.Steps.start
    |>.next (@Sender.Step.subscribe _ _ "grant" rfl)
    |>.next (.send rfl)
    |>.next (.rebroadcast rfl)
    |>.next (.network (.block fits))
    |>.next (@Sender.Step.notified _ _ _ _ none rfl rfl)
    |>.next (@Sender.Step.subscribe _ _ "crank" rfl)
    |>.next (.send rfl)
    |>.next (.timeout rfl)
    |>.next (.network (.block idle))
    |>.next (@Sender.Step.statuses _ _ _ _ none rfl True.intro)
    |>.next (@Sender.Step.blockHeight _ _ _ _ 2 rfl (by decide))
  have told := sends_told run
  exact ⟨_, ⟨_, List.mem_cons_of_mem _ (List.mem_singleton.mpr rfl), rfl, rfl,
      told _ (List.mem_cons_of_mem _ (List.mem_singleton.mpr rfl))⟩,
    _, List.mem_cons_self .., rfl, told _ (List.mem_cons_self ..)⟩

end Sending

end HexVault
