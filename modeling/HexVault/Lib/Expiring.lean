import Mathlib.Data.List.Infix
import HexVault.Lib.Runs

/-!
Messages that are good up to a block height. A block takes any of the messages the network has been
given, but none past its height, so once the chain is as high as a message's deadline the message's
fate is sealed.
-/

namespace Expiring

universe u v w
variable {σ : Type u} {ω : Type v} {ε : Type w}

/-- The blocks so far, oldest first: which messages each took, and how each of them ended. -/
abbrev Chain (σ : Type u) (ω : Type v) := List (List (σ × ω))

def height (chain : Chain σ ω) : Nat := chain.length

section Status
variable [DecidableEq σ]

def status (chain : Chain σ ω) (message : σ) : Option ω := chain.flatten.lookup message

variable {chain chain' : Chain σ ω} {message : σ} {outcome : ω}

theorem lookup_isSome_mem {entries : List (σ × ω)} (h : entries.lookup message = some outcome) :
    (message, outcome) ∈ entries := by
  induction entries with
  | nil => cases h
  | cons entry rest ih =>
      rw [List.lookup_cons] at h
      split at h
      · next same =>
          obtain rfl := Option.some.inj h
          rw [eq_of_beq same]
          exact List.mem_cons_self ..
      · exact List.mem_cons_of_mem _ (ih h)

theorem status_append {later : Chain σ ω} :
    status (chain ++ later) message = (status chain message).or (status later message) := by
  rw [status, List.flatten_append, List.lookup_append]
  rfl

theorem status_of_grown (part : chain <+: chain') (h : status chain message = some outcome) :
    status chain' message = some outcome := by
  obtain ⟨later, rfl⟩ := part
  rw [status_append, h]
  rfl

end Status

/-- What the network holds: the blocks, and the messages it has been given. -/
structure Net (σ : Type u) (ω : Type v) where
  chain : Chain σ ω
  given : List σ

inductive Change (σ : Type u) (ω : Type v) where
  | block (entries : List (σ × ω))
  | give (message : σ)

/-- A block takes messages that were given and are still in time. -/
structure Fits (deadline : σ → Nat) (net : Net σ ω) (block : List (σ × ω)) : Prop where
  given : ∀ entry ∈ block, entry.1 ∈ net.given
  inTime : ∀ entry ∈ block, height net.chain < deadline entry.1

inductive Step (deadline : σ → Nat) : Net σ ω → Change σ ω → Net σ ω → Prop
  | block {net : Net σ ω} {entries : List (σ × ω)} (fits : Fits deadline net entries) :
      Step deadline net (.block entries) { net with chain := net.chain ++ [entries] }
  | give {net : Net σ ω} {message : σ} :
      Step deadline net (.give message) { net with given := message :: net.given }

section Rules
variable {deadline : σ → Nat} {net net' : Net σ ω} {change : Change σ ω} {message : σ}
  {outcome : ω}

theorem Step.grows (h : Step deadline net change net') : net.chain <+: net'.chain := by
  cases h with
  | block => exact List.prefix_append ..
  | give => exact List.prefix_refl _

variable [DecidableEq σ]

/-- The message has landed, or can land no more. -/
def Sealed (deadline : σ → Nat) (chain : Chain σ ω) (message : σ) : Prop :=
  (status chain message).isSome ∨ deadline message ≤ height chain

/-- Past its deadline a message lands no more. -/
theorem Step.late (h : Step deadline net change net') (past : deadline message ≤ height net.chain) :
    status net'.chain message = status net.chain message := by
  cases h with
  | give => rfl
  | @block entries fits =>
      have absent : status [entries] message = none := by
        refine Option.eq_none_iff_forall_ne_some.mpr fun outcome found => ?_
        rw [status, List.flatten_singleton] at found
        have inTime := fits.inTime _ (lookup_isSome_mem found)
        exact absurd past (Nat.not_le_of_lt inTime)
      rw [status_append, absent, Option.or_none]

/-- What is sealed stays as it is. -/
theorem Sealed.same (fate : Sealed deadline net.chain message) (h : Step deadline net change net') :
    status net'.chain message = status net.chain message := by
  rcases fate with landed | past
  · obtain ⟨outcome, found⟩ := Option.isSome_iff_exists.mp landed
    rw [found, status_of_grown h.grows found]
  · exact h.late past

theorem Sealed.grow (fate : Sealed deadline net.chain message) (h : Step deadline net change net') :
    Sealed deadline net'.chain message := by
  rcases fate with landed | past
  · exact .inl ((Sealed.same (.inl landed) h).symm ▸ landed)
  · exact .inr (past.trans h.grows.length_le)

end Rules

/-! Reports. Whoever watches the chain told of a message how it ended; what was said of a message
whose fate was sealed stays true. -/

/-- What a report says: of which message, and what it takes the chain to hold of it. A loose one
promises nothing. -/
structure Reporting (σ : Type u) (ω : Type v) (ε : Type w) where
  message : ε → σ
  Loose : ε → Prop
  Tells : ε → Option ω → Prop

section Reports
variable [DecidableEq σ]

/-- What the report says is what the chain holds. -/
def Reporting.Stands (reporting : Reporting σ ω ε) (chain : Chain σ ω) (report : ε) : Prop :=
  reporting.Loose report ∨ reporting.Tells report (status chain (reporting.message report))

/-- It is, and the chain will hold no other. -/
def Reporting.Final (reporting : Reporting σ ω ε) (deadline : σ → Nat) (chain : Chain σ ω)
    (report : ε) : Prop :=
  reporting.Loose report ∨ Sealed deadline chain (reporting.message report) ∧
    reporting.Tells report (status chain (reporting.message report))

namespace Reporting.Final
variable {reporting : Reporting σ ω ε} {deadline : σ → Nat} {chain : Chain σ ω}
  {net net' : Net σ ω} {change : Change σ ω} {report : ε} {reports : List ε} {outcome : ω}

theorem stands (final : reporting.Final deadline chain report) : reporting.Stands chain report :=
  final.imp_right And.right

/-- The chain tells how the message ended. -/
theorem ended (found : status chain (reporting.message report) = some outcome)
    (told : reporting.Tells report (some outcome)) : reporting.Final deadline chain report := by
  refine .inr ⟨.inl ?_, found ▸ told⟩
  rw [found]
  rfl

/-- The message can land no more. -/
theorem late (past : deadline (reporting.message report) ≤ height chain)
    (told : reporting.Tells report (status chain (reporting.message report))) :
    reporting.Final deadline chain report := .inr ⟨.inr past, told⟩

theorem grow (final : reporting.Final deadline net.chain report)
    (h : Step deadline net change net') : reporting.Final deadline net'.chain report := by
  rcases final with loose | ⟨fate, told⟩
  · exact .inl loose
  · exact .inr ⟨fate.grow h, (fate.same h).symm ▸ told⟩

/-- However the chain moves, what has been said stays final. -/
theorem all_grow (final : ∀ report ∈ reports, reporting.Final deadline net.chain report)
    (h : Step deadline net change net') :
    ∀ report ∈ reports, reporting.Final deadline net'.chain report :=
  fun report mem => (final report mem).grow h

end Reporting.Final
end Reports

end Expiring
