import Mathlib.Data.List.Basic

/-!
Tables as what the commits of a log leave, newest first. Each commit writes what somebody
read, somewhere else, at some slot. A log goes forward when no commit stores under a key
what is older than an earlier write of it; then a reader of the tables never sees a key's
content give way to an older one.
-/

namespace CommitLog

universe u v w

structure Commit (κ : Type u) (α : Type v) (β : Type w) where
  slot : Nat
  source : β
  /-- Nothing where the key is left alone, no content where it is deleted. -/
  writes : κ → Option (Option α)

variable {κ : Type u} {α : Type v} {β : Type w}

def Commit.touches (c : Commit κ α β) (k : κ) : Bool := (c.writes k).isSome

def Commit.stores (c : Commit κ α β) (k : κ) : Bool := (c.writes k).any Option.isSome

/-- A key's content. -/
def table : List (Commit κ α β) → κ → Option α
  | [], _ => none
  | c :: log, k => (c.writes k).getD (table log k)

/-- The slot a key's content was read at. -/
def readAt : List (Commit κ α β) → κ → Option Nat
  | [], _ => none
  | c :: log, k =>
      match c.writes k with
      | none => readAt log k
      | some content => content.map fun _ => c.slot

/-- A key's writes are all of slots up to this one. -/
def UpTo (log : List (Commit κ α β)) (k : κ) (slot : Nat) : Prop :=
  ∀ c ∈ log, c.touches k = true → c.slot ≤ slot

def Forward (log : List (Commit κ α β)) : Prop :=
  log.Pairwise fun newer older =>
    ∀ k, newer.stores k = true → older.touches k = true → older.slot ≤ newer.slot

variable {log : List (Commit κ α β)} {c : Commit κ α β} {k : κ} {slot slot' : Nat}

theorem stores_iff : c.stores k = true ↔ ∃ a, c.writes k = some (some a) := by
  rw [Commit.stores]
  cases c.writes k with
  | none => exact ⟨nofun, nofun⟩
  | some content =>
      cases content with
      | none => exact ⟨nofun, nofun⟩
      | some a => exact ⟨fun _ => ⟨a, rfl⟩, fun _ => rfl⟩

theorem touches_of_stores (h : c.stores k = true) : c.touches k = true := by
  obtain ⟨a, write⟩ := stores_iff.mp h
  rw [Commit.touches, write]
  rfl

theorem upTo_cons : UpTo (c :: log) k slot ↔
    (c.touches k = true → c.slot ≤ slot) ∧ UpTo log k slot := by
  rw [UpTo, List.forall_mem_cons]
  rfl

/-- A commit whose stores are of keys written from no later slot takes the log forward. -/
theorem Forward.cons (forward : Forward log)
    (fresh : ∀ k, c.stores k = true → UpTo log k c.slot) : Forward (c :: log) :=
  List.pairwise_cons.mpr
    ⟨fun older mem k stored touched => fresh k stored older mem touched, forward⟩

theorem of_readAt (h : readAt log k = some slot) :
    ∃ c ∈ log, c.touches k = true ∧ c.slot = slot := by
  induction log with
  | nil => exact nomatch h
  | cons c log ih =>
      rw [readAt] at h
      cases write : c.writes k with
      | none =>
          rw [write] at h
          obtain ⟨d, mem, found⟩ := ih h
          exact ⟨d, List.mem_cons_of_mem _ mem, found⟩
      | some content =>
          rw [write] at h
          obtain ⟨_, -, same⟩ := Option.map_eq_some_iff.mp h
          refine ⟨c, List.mem_cons_self .., ?_, same⟩
          rw [Commit.touches, write]
          rfl

/-- From one commit to the next, a key's content never gives way to one read earlier. -/
theorem Forward.readAt_le (forward : Forward (c :: log)) (before : readAt log k = some slot)
    (after : readAt (c :: log) k = some slot') : slot ≤ slot' := by
  rw [readAt] at after
  cases write : c.writes k with
  | none =>
      rw [write] at after
      exact Nat.le_of_eq (Option.some.inj (before.symm.trans after))
  | some content =>
      rw [write] at after
      obtain ⟨a, stored, rfl⟩ := Option.map_eq_some_iff.mp after
      obtain ⟨older, mem, touched, rfl⟩ := of_readAt before
      refine (List.pairwise_cons.mp forward).1 older mem k (stores_iff.mpr ⟨a, ?_⟩) touched
      rw [write, stored]

/-- If each commit stores what was there at its slot, the tables hold what was there at the
slot it was read at. -/
theorem table_read (there : Nat → κ → α → Prop)
    (true_ : ∀ c ∈ log, ∀ k a, c.writes k = some (some a) → there c.slot k a) {a : α}
    (h : table log k = some a) : ∃ slot, readAt log k = some slot ∧ there slot k a := by
  induction log with
  | nil => exact nomatch h
  | cons c log ih =>
      rw [table] at h
      rw [readAt]
      cases write : c.writes k with
      | none =>
          rw [write] at h
          exact ih (fun d mem => true_ d (List.mem_cons_of_mem _ mem)) h
      | some content =>
          rw [write, Option.getD_some] at h
          subst h
          exact ⟨c.slot, rfl, true_ c (List.mem_cons_self ..) k a write⟩

end CommitLog
