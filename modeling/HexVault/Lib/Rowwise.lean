import HexVault.Lib.ReadCommitted

/-!
Transactions judged one row at a time. What a program may write, whatever its statements
read, is all that its sessions leave behind, whichever way they are interleaved.
-/

namespace ReadCommitted

open Finmap Runs

universe u v w w' x
variable {κ : Type u} {α : Type v} {σ : Type w} {σ' : Type w'} {τ : Type x}
  [DecidableEq κ] [DecidableEq τ]

/-- A statement of one program as a statement of a larger one. -/
def Command.map (f : σ → σ') : Command κ α σ → Command κ α σ'
  | .query run => .query fun rows => (run rows).map f
  | .write key run => .write key fun row => (run row).map fun out => (out.1, f out.2)
  | .lock next => .lock (f next)
  | .commit => .commit

/-- Sessions of either of two programs. -/
def beside (p : σ → Command κ α σ) (q : σ' → Command κ α σ') : σ ⊕ σ' → Command κ α (σ ⊕ σ')
  | .inl state => (p state).map .inl
  | .inr state => (q state).map .inr

/-- Whatever a statement reads, it goes on to such a state and writes such a row. -/
def Command.Keeps (reaches : σ → Prop) (row : κ → α → Prop) : Command κ α σ → Prop
  | .query run => ∀ rows next, run rows = some next → reaches next
  | .write key run => ∀ old new next, run old = some (new, next) → row key new ∧ reaches next
  | .lock next => reaches next
  | .commit => True

variable {program : σ → Command κ α σ} {initial reaches : σ → Prop} {row : κ → α → Prop}

omit [DecidableEq κ] in
theorem Command.Keeps.map {command : Command κ α σ} {reaches' : σ' → Prop} {f : σ → σ'}
    (h : command.Keeps reaches row) (into : ∀ state, reaches state → reaches' (f state)) :
    (command.map f).Keeps reaches' row := by
  cases command with
  | query run =>
      intro rows next answer
      obtain ⟨state, found, rfl⟩ := Option.map_eq_some_iff.mp answer
      exact into state (h rows state found)
  | write key run =>
      intro old new next answer
      obtain ⟨⟨written, state⟩, found, same⟩ := Option.map_eq_some_iff.mp answer
      obtain ⟨rfl, rfl⟩ := Prod.mk.inj same
      exact (h old written state found).imp_right (into state)
  | lock next => exact into next h
  | commit => trivial

omit [DecidableEq κ] in
theorem beside_keeps {p : σ → Command κ α σ} {q : σ' → Command κ α σ'} {reaches' : σ' → Prop}
    (hp : ∀ state, reaches state → (p state).Keeps reaches row)
    (hq : ∀ state, reaches' state → (q state).Keeps reaches' row) (state : σ ⊕ σ')
    (reached : Sum.elim reaches reaches' state) :
    (beside p q state).Keeps (Sum.elim reaches reaches') row := by
  cases state with
  | inl state => exact (hp state reached).map fun _ h => h
  | inr state => exact (hq state reached).map fun _ h => h

theorem rowwise_outline (begins : ∀ state, initial state → reaches state)
    (keeps : ∀ state, reaches state → (program state).Keeps reaches row)
    (opening : Table κ α) : Outline program initial
      (fun c => ∀ key value, c.lookup key = some value →
        opening.lookup key = some value ∨ row key value)
      (fun _ session => reaches session.state ∧
        ∀ key value, session.writes.lookup key = some value → row key value) where
  start := by
    intro c state _ starts
    refine ⟨begins state starts, fun key value found => ?_⟩
    rw [lookup_empty] at found
    exact absurd found.symm (Option.some_ne_none value)
  query := by
    intro c session run next _ h command answer
    have kept := keeps session.state h.1
    rw [command] at kept
    exact ⟨kept _ next answer, h.2⟩
  write := by
    intro c session key run value next _ h command answer
    have kept := keeps session.state h.1
    rw [command] at kept
    obtain ⟨written, reached⟩ := kept _ value next answer
    refine ⟨reached, fun other found hfound => ?_⟩
    cases lookup_insert_cases hfound with
    | inl here => exact here.1 ▸ here.2 ▸ written
    | inr elsewhere => exact h.2 other found elsewhere.2
  lock := by
    intro c session next _ h command
    have kept := keeps session.state h.1
    rw [command] at kept
    exact ⟨kept, h.2⟩
  commit := by
    intro c session consistent h _ key value found
    rw [Session.view] at found
    by_cases mem : key ∈ session.writes
    · rw [lookup_union_left mem] at found
      exact .inr (h.2 key value found)
    · rw [lookup_union_right mem] at found
      exact consistent key value found
  stable := fun _ h _ _ _ _ => h

/-- What started was let in. -/
theorem started_initial {start s : Store κ α σ τ} {history : List (Store κ α σ τ × τ × Turn σ)}
    (run : Steps (Step program initial) start history s) {x : Store κ α σ τ × τ × Turn σ}
    (mem : x ∈ history) {state : σ} (begins : x.2.2 = .start state) : initial state := by
  obtain ⟨before, t, turn⟩ := x
  obtain rfl : turn = .start state := begins
  obtain ⟨-, -, after, -, -, step, -⟩ := run.split mem
  cases step with
  | started _ starts => exact starts

/-- Every row was there at the start or is one the program may write. -/
theorem rows_written {start s : Store κ α σ τ} {history : List (Store κ α σ τ × τ × Turn σ)}
    (begins : ∀ state, initial state → reaches state)
    (keeps : ∀ state, reaches state → (program state).Keeps reaches row)
    (idle : ∀ t, start.sessions t = none) (run : Steps (Step program initial) start history s)
    {key : κ} {value : α} (found : s.committed.lookup key = some value) :
    start.committed.lookup key = some value ∨ row key value :=
  ((rowwise_outline begins keeps start.committed).holds idle (fun _ _ here => .inl here) run).2.1
    key value found

end ReadCommitted
