import HexVault.Lib.FinmapTotal
import HexVault.Lib.Runs
import Mathlib.Tactic.Linarith

/-!
Transactions at READ COMMITTED. A statement reads the committed rows with the session's
own writes laid over them; a write locks its row until the session ends and sees the row's
latest version; an advisory lock has one holder; a commit makes the session's writes
visible and frees its locks at once. A session can be aborted at any point.

`Outline.holds` is the rule for a program all sessions run: an assertion about each
session, kept by its own statements and by the commits of the others, and one about the
committed rows, kept by every commit.
-/

namespace ReadCommitted

open Finmap Runs

universe u v w x

abbrev Table (κ : Type u) (α : Type v) := Finmap fun _ : κ => α

/-- The next statement of a program in some state. A query or a write that has no answer
fails, and its session can only be aborted. -/
inductive Command (κ : Type u) (α : Type v) (σ : Type w) where
  | query (run : Table κ α → Option σ)
  | write (key : κ) (run : Option α → Option (α × σ))
  | lock (next : σ)
  | commit

structure Session (κ : Type u) (α : Type v) (σ : Type w) where
  writes : Table κ α
  locked : Bool
  state : σ

structure Store (κ : Type u) (α : Type v) (σ : Type w) (τ : Type x) where
  committed : Table κ α
  sessions : τ → Option (Session κ α σ)

inductive Turn (σ : Type w) where
  | start (state : σ)
  | run
  | commit
  | abort

variable {κ : Type u} {α : Type v} {σ : Type w} {τ : Type x} [DecidableEq κ] [DecidableEq τ]

/-- The rows as a session sees them. -/
def Session.view (session : Session κ α σ) (committed : Table κ α) : Table κ α :=
  session.writes ∪ committed

def Store.set (s : Store κ α σ τ) (t : τ) (session : Option (Session κ α σ)) : Store κ α σ τ :=
  { s with sessions := Function.update s.sessions t session }

section Steps
variable (program : σ → Command κ α σ) (initial : σ → Prop)

inductive Step (s : Store κ α σ τ) : τ × Turn σ → Store κ α σ τ → Prop
  | started {t : τ} {state : σ} (idle : s.sessions t = none) (h : initial state) :
      Step s (t, .start state) (s.set t (some ⟨∅, false, state⟩))
  | queried {t : τ} {session : Session κ α σ} {run : Table κ α → Option σ} {next : σ}
      (h : s.sessions t = some session) (command : program session.state = .query run)
      (answer : run (session.view s.committed) = some next) :
      Step s (t, .run) (s.set t (some { session with state := next }))
  | written {t : τ} {session : Session κ α σ} {key : κ} {run : Option α → Option (α × σ)}
      {row : α} {next : σ} (h : s.sessions t = some session)
      (command : program session.state = .write key run)
      (free : ∀ u ≠ t, ∀ other, s.sessions u = some other → key ∉ other.writes)
      (answer : run ((session.view s.committed).lookup key) = some (row, next)) :
      Step s (t, .run) (s.set t (some { session with
        writes := session.writes.insert key row, state := next }))
  | locked {t : τ} {session : Session κ α σ} {next : σ} (h : s.sessions t = some session)
      (command : program session.state = .lock next)
      (free : ∀ u ≠ t, ∀ other, s.sessions u = some other → other.locked = false) :
      Step s (t, .run) (s.set t (some { session with locked := true, state := next }))
  | committed {t : τ} {session : Session κ α σ} (h : s.sessions t = some session)
      (command : program session.state = .commit) :
      Step s (t, .commit) { s.set t none with committed := session.view s.committed }
  | aborted {t : τ} {session : Session κ α σ} (h : s.sessions t = some session) :
      Step s (t, .abort) (s.set t none)

end Steps

/-- No row is locked twice, nor the advisory lock. -/
def Exclusive (s : Store κ α σ τ) : Prop :=
  ∀ t u session other, t ≠ u → s.sessions t = some session → s.sessions u = some other →
    (∀ key ∈ session.writes, key ∉ other.writes) ∧
      (session.locked = true → other.locked = false)

/-- A proof about a program: what holds of the committed rows, what holds of a session,
and that the commits of other sessions leave the latter as it is. -/
structure Outline (program : σ → Command κ α σ) (initial : σ → Prop)
    (rows : Table κ α → Prop) (asserts : Table κ α → Session κ α σ → Prop) : Prop where
  start {c : Table κ α} {state : σ} : rows c → initial state → asserts c ⟨∅, false, state⟩
  query {c : Table κ α} {session : Session κ α σ} {run : Table κ α → Option σ} {next : σ} :
    rows c → asserts c session → program session.state = .query run →
      run (session.view c) = some next → asserts c { session with state := next }
  write {c : Table κ α} {session : Session κ α σ} {key : κ} {run : Option α → Option (α × σ)}
      {row : α} {next : σ} : rows c → asserts c session →
    program session.state = .write key run →
      run ((session.view c).lookup key) = some (row, next) →
        asserts c { session with writes := session.writes.insert key row, state := next }
  lock {c : Table κ α} {session : Session κ α σ} {next : σ} : rows c → asserts c session →
    program session.state = .lock next → asserts c { session with locked := true, state := next }
  commit {c : Table κ α} {session : Session κ α σ} : rows c → asserts c session →
    program session.state = .commit → rows (session.view c)
  stable {c : Table κ α} {session other : Session κ α σ} : rows c → asserts c session →
    asserts c other → program other.state = .commit →
      (∀ key ∈ session.writes, key ∉ other.writes) →
        (session.locked = true → other.locked = false) → asserts (other.view c) session

section Rules
variable {program : σ → Command κ α σ} {initial : σ → Prop} {rows : Table κ α → Prop}
  {asserts : Table κ α → Session κ α σ → Prop} {s s' : Store κ α σ τ} {t u : τ}
  {e : τ × Turn σ} {session other : Session κ α σ}

omit [DecidableEq κ] in
theorem set_sessions (s : Store κ α σ τ) (t u : τ) (session : Option (Session κ α σ)) :
    (s.set t session).sessions u = if u = t then session else s.sessions u := by
  exact Function.update_apply ..

omit [DecidableEq κ] in
/-- The session a step is about, and the others as they were. -/
theorem set_cases {changed : Option (Session κ α σ)}
    (h : (s.set t changed).sessions u = some session) :
    (u = t ∧ changed = some session) ∨ (u ≠ t ∧ s.sessions u = some session) := by
  rw [set_sessions] at h
  by_cases same : u = t
  · rw [if_pos same] at h
    exact .inl ⟨same, h⟩
  · rw [if_neg same] at h
    exact .inr ⟨same, h⟩

omit [DecidableEq κ] in
/-- A session keeps apart from the others if only it changes, and takes nothing of theirs. -/
theorem Exclusive.set (exclusive : Exclusive s) {changed : Session κ α σ}
    (apart : ∀ u ≠ t, ∀ other, s.sessions u = some other →
      (∀ key ∈ changed.writes, key ∉ other.writes) ∧
        (changed.locked = true → other.locked = false)) :
    Exclusive (s.set t (some changed)) := by
  intro a b session other ne ha hb
  rcases set_cases ha with ⟨rfl, same⟩ | ⟨away, left⟩
  · obtain rfl := Option.some.inj same
    rcases set_cases hb with ⟨rfl, -⟩ | ⟨away, right⟩
    · exact absurd rfl ne
    · exact apart b away other right
  · rcases set_cases hb with ⟨rfl, same⟩ | ⟨-, right⟩
    · obtain rfl := Option.some.inj same
      obtain ⟨keys, lock⟩ := apart a away session left
      refine ⟨fun key mem mine => keys key mine mem, fun held => ?_⟩
      cases hmine : changed.locked with
      | false => rfl
      | true => exact absurd (held.symm.trans (lock hmine)) (by decide)
    · exact exclusive a b session other ne left right

omit [DecidableEq κ] in
theorem Exclusive.clear (exclusive : Exclusive s) : Exclusive (s.set t none) := by
  intro a b session other ne ha hb
  rcases set_cases ha with ⟨-, none⟩ | ⟨-, ha⟩
  · exact nomatch none
  · rcases set_cases hb with ⟨-, none⟩ | ⟨-, hb⟩
    · exact nomatch none
    · exact exclusive a b session other ne ha hb

theorem step_exclusive (exclusive : Exclusive s) (h : Step program initial s e s') :
    Exclusive s' := by
  have mine : ∀ {t session}, s.sessions t = some session → ∀ u ≠ t, ∀ other,
      s.sessions u = some other → (∀ key ∈ session.writes, key ∉ other.writes) ∧
        (session.locked = true → other.locked = false) := by
    intro t session ht u ne other hu
    exact exclusive t u session other (Ne.symm ne) ht hu
  cases h with
  | started =>
      exact exclusive.set fun _ _ _ _ => ⟨fun _ none => absurd none notMem_empty, nofun⟩
  | queried ht => exact exclusive.set fun u ne other hu => mine ht u ne other hu
  | written ht _ free =>
      refine exclusive.set fun u ne other hu => ⟨fun key mem => ?_, (mine ht u ne other hu).2⟩
      rcases mem_insert.mp mem with rfl | old
      · exact free u ne other hu
      · exact (mine ht u ne other hu).1 key old
  | locked ht _ free =>
      exact exclusive.set fun u ne other hu =>
        ⟨(mine ht u ne other hu).1, fun _ => free u ne other hu⟩
  | committed => exact exclusive.clear
  | aborted => exact exclusive.clear

/-- What one step keeps. -/
theorem Outline.next (outline : Outline program initial rows asserts) (exclusive : Exclusive s)
    (consistent : rows s.committed)
    (each : ∀ t session, s.sessions t = some session → asserts s.committed session)
    (h : Step program initial s e s') :
    rows s'.committed ∧ ∀ t session, s'.sessions t = some session → asserts s'.committed session := by
  have changed : ∀ {t session}, asserts s.committed session → ∀ u other,
      (s.set t (some session)).sessions u = some other → asserts s.committed other := by
    intro t session ht u other hu
    rcases set_cases hu with ⟨-, same⟩ | ⟨-, hu⟩
    · exact Option.some.inj same ▸ ht
    · exact each u other hu
  cases h with
  | started _ start => exact ⟨consistent, changed (outline.start consistent start)⟩
  | queried ht command answer =>
      exact ⟨consistent, changed (outline.query consistent (each _ _ ht) command answer)⟩
  | written ht command _ answer =>
      exact ⟨consistent, changed (outline.write consistent (each _ _ ht) command answer)⟩
  | locked ht command =>
      exact ⟨consistent, changed (outline.lock consistent (each _ _ ht) command)⟩
  | @committed t session ht command =>
      refine ⟨outline.commit consistent (each _ _ ht) command, fun u other hu => ?_⟩
      rcases set_cases hu with ⟨-, none⟩ | ⟨ne, hu⟩
      · exact nomatch none
      · obtain ⟨keys, lock⟩ := exclusive u t other session ne hu ht
        exact outline.stable consistent (each _ _ hu) (each _ _ ht) command keys lock
  | aborted =>
      refine ⟨consistent, fun u other hu => ?_⟩
      rcases set_cases hu with ⟨-, none⟩ | ⟨-, hu⟩
      · exact nomatch none
      · exact each u other hu

theorem Outline.holds {start : Store κ α σ τ} {history : List (Store κ α σ τ × τ × Turn σ)}
    (outline : Outline program initial rows asserts) (idle : ∀ t, start.sessions t = none)
    (consistent : rows start.committed) (run : Steps (Step program initial) start history s) :
    Exclusive s ∧ rows s.committed ∧
      ∀ t session, s.sessions t = some session → asserts s.committed session := by
  refine run.invariant (P := fun _ s => Exclusive s ∧ rows s.committed ∧
    ∀ t session, s.sessions t = some session → asserts s.committed session) ?_ ?_
  · refine ⟨?_, consistent, ?_⟩
    · intro t _ _ _ _ ht
      exact nomatch (idle t).symm.trans ht
    · intro t _ ht
      exact nomatch (idle t).symm.trans ht
  · intro _ _ _ _ _ before step
    obtain ⟨exclusive, consistent, each⟩ := before
    exact ⟨step_exclusive exclusive step, outline.next exclusive consistent each step⟩

end Rules

/-! Totals over the rows a session sees. -/

/-- What a session's writes add to a total over the committed rows. -/
def change (f : κ → α → Int) (committed writes : Table κ α) : Int :=
  total f writes - total (fun key _ => (committed.lookup key).elim 0 (f key)) writes

section Totals
variable (f : κ → α → Int) {c c' writes : Table κ α} {key : κ}

@[simp] theorem change_empty : change f c ∅ = 0 := by
  rw [change, total_empty, total_empty, Int.sub_zero]

theorem change_insert (fresh : key ∉ writes) (row : α) : change f c (writes.insert key row) =
    change f c writes + f key row - (c.lookup key).elim 0 (f key) := by
  rw [change, change, total_insert_of_notMem _ fresh, total_insert_of_notMem _ fresh]
  omega

/-- What others commit elsewhere does not matter to it. -/
theorem change_stable (same : ∀ key ∈ writes, c'.lookup key = c.lookup key) :
    change f c' writes = change f c writes := by
  rw [change, change]
  refine congrArg (total f writes - ·) (total_congr fun key row h => ?_)
  rw [same key (mem_of_lookup_eq_some h)]

theorem total_union (writes c : Table κ α) :
    total f (writes ∪ c) = total f c + change f c writes := by
  induction writes using insert_induction with
  | empty => rw [empty_union, change_empty, Int.add_zero]
  | insert key row writes fresh ih =>
      have replaced := total_insert_elim f key (writes ∪ c) row
      rw [lookup_union_right fresh] at replaced
      rw [← insert_union, change_insert f fresh row]
      omega

end Totals

end ReadCommitted
