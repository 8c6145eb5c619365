import Mathlib.Data.Finmap

/-!
A table of records seen through what each of them shows: a write shows at its key alone, and only
what it changes of the show.
-/

namespace Views

universe u v w
variable {κ : Type u} {α : Type v} {β : Type w} [DecidableEq κ]

def view (shows : α → β) (table : Finmap fun _ : κ => α) (key : κ) : Option β :=
  (table.lookup key).map shows

variable {shows : α → β} {table : Finmap fun _ : κ => α} {key : κ} {a b : α}

theorem view_of_lookup (h : table.lookup key = some a) : view shows table key = some (shows a) := by
  rw [view, h, Option.map_some]

theorem view_insert : view shows (table.insert key a) =
    Function.update (view shows table) key (some (shows a)) := by
  funext other
  by_cases same : other = key
  · subst same
    rw [Function.update_self, view_of_lookup (Finmap.lookup_insert _)]
  · rw [Function.update_of_ne same, view, Finmap.lookup_insert_of_ne _ same, view]

theorem view_erase : view shows (table.erase key) =
    Function.update (view shows table) key none := by
  funext other
  by_cases same : other = key
  · subst same
    rw [Function.update_self, view, Finmap.lookup_erase, Option.map_none]
  · rw [Function.update_of_ne same, view, Finmap.lookup_erase_ne same, view]

/-- A record rewritten, and what it shows changed so. -/
theorem view_write {change : β → β} (h : table.lookup key = some a)
    (changed : shows b = change (shows a)) : view shows (table.insert key b) =
      Function.update (view shows table) key ((view shows table key).map change) := by
  rw [view_insert, changed, view_of_lookup h, Option.map_some]

/-- A record rewritten in what it does not show. -/
theorem view_same (h : table.lookup key = some a) (same : shows b = shows a) :
    view shows (table.insert key b) = view shows table := by
  rw [view_insert, same, ← view_of_lookup h, Function.update_eq_self]

end Views
