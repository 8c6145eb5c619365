import Mathlib.Data.List.TakeWhile
import Mathlib.Tactic.Common

/-!
Reading a list newest first, a page at a time, back to a mark or to its end. The list
may grow at its head while the walk goes on; what the walk collects is then the part
between the items that are too new for it and the mark.
-/

namespace Pages

universe u v
variable {α : Type u} {κ : Type v} [DecidableEq κ] (key : α → κ)

/-- The `limit` newest items, or the next ones older than a key. -/
def page (limit : Nat) (before : Option κ) (items : List α) : List α :=
  match before with
  | none => items.take limit
  | some k => ((items.dropWhile fun x => key x ≠ k).drop 1).take limit

/-- Where a list holds the mark. -/
def reached (mark : Option κ) (items : List α) : Option Nat :=
  mark.bind fun k => items.findIdx? fun x => key x = k

/-- The items newer than the mark, all of them where it is missing. -/
def newerThan (mark : Option κ) (items : List α) : List α :=
  match reached key mark items with
  | none => items
  | some i => items.take i

section Mark
variable {key} {mark : Option κ} {items fresh rest : List α} {limit : Nat}

theorem reached_eq_none : reached key mark items = none ↔ ∀ x ∈ items, mark ≠ some (key x) := by
  cases mark with
  | none => exact ⟨fun _ _ _ => nofun, fun _ => rfl⟩
  | some k =>
      rw [reached, Option.bind_some, List.findIdx?_eq_none_iff]
      constructor
      · intro none x hx same
        exact of_decide_eq_false (none x hx) (Option.some.inj same).symm
      · intro none x hx
        exact decide_eq_false fun same => none x hx (congrArg some same.symm)

theorem newerThan_eq : newerThan key mark items = items.takeWhile fun x => mark ≠ some (key x) := by
  rw [newerThan]
  cases h : reached key mark items with
  | none =>
      have unmarked := reached_eq_none.mp h
      refine (List.takeWhile_eq_self_iff.mpr fun x hx => ?_).symm
      exact decide_eq_true (unmarked x hx)
  | some i =>
      obtain ⟨k, rfl, found⟩ := Option.bind_eq_some_iff.mp h
      rw [List.takeWhile_eq_take_findIdx_not]
      obtain ⟨hi, heq⟩ := List.findIdx?_eq_some_iff_findIdx_eq.mp found
      have test : (fun x => !decide (some k ≠ some (key x))) = fun x => decide (key x = k) := by
        funext x
        simp [eq_comm]
      rw [test, heq]

theorem newerThan_append (unmarked : ∀ x ∈ fresh, mark ≠ some (key x)) :
    newerThan key mark (fresh ++ items) = fresh ++ newerThan key mark items := by
  rw [newerThan_eq, newerThan_eq, List.takeWhile_append_of_pos]
  intro x hx
  exact decide_eq_true (unmarked x hx)

theorem newerThan_unmarked {x : α} (hx : x ∈ newerThan key mark items) : mark ≠ some (key x) := by
  rw [newerThan_eq] at hx
  have new := List.mem_takeWhile_imp hx
  exact of_decide_eq_true new

/-- The newest item that bears the mark ends what is newer than it. -/
theorem newerThan_cons {x : α} (h : mark = some (key x)) : newerThan key mark (x :: items) = [] := by
  rw [newerThan_eq, List.takeWhile_cons_of_neg]
  exact fun new => of_decide_eq_true new h

/-- A page that reaches the mark holds all there is before it. -/
theorem newerThan_take (h : reached key mark (items.take limit) ≠ none) :
    newerThan key mark items = newerThan key mark (items.take limit) := by
  have some : ∃ x ∈ items.take limit, mark = some (key x) := by
    by_contra none
    exact h (reached_eq_none.mpr fun x hx same => none ⟨x, hx, same⟩)
  conv_lhs => rw [← List.take_append_drop limit items]
  rw [newerThan_eq, newerThan_eq, List.takeWhile_append, if_neg]
  intro full
  obtain ⟨x, hx, marked⟩ := some
  have all := List.takeWhile_eq_self_iff.mp ((List.takeWhile_prefix _).eq_of_length full) x hx
  exact of_decide_eq_true all marked

/-- With the mark at the last of the items kept, oldest first, the rest is newer. -/
theorem newerThan_reverse {kept : List α} (distinct : ((kept ++ rest).map key).Nodup) :
    newerThan key (kept.getLast?.map key) (kept ++ rest).reverse = rest.reverse := by
  rw [List.reverse_append]
  cases hlast : kept.getLast? with
  | none =>
      rw [List.getLast?_eq_none_iff.mp hlast, List.reverse_nil, List.append_nil]
      rfl
  | some x =>
      obtain ⟨earlier, rfl⟩ := List.getLast?_eq_some_iff.mp hlast
      rw [List.map_append, List.nodup_append] at distinct
      have unmarked : ∀ y ∈ rest.reverse, some (key x) ≠ some (key y) := by
        intro y hy same
        refine distinct.2.2 (key x) ?_ _ ?_ (Option.some.inj same)
        · exact List.mem_map_of_mem (List.mem_append_right _ (List.mem_singleton.mpr rfl))
        · exact List.mem_map_of_mem (List.mem_reverse.mp hy)
      rw [Option.map_some, newerThan_append unmarked, List.reverse_append, List.reverse_singleton,
        List.singleton_append, newerThan_cons rfl, List.append_nil]

end Mark

/-- A walk that has read `collected` since the list had `since` items: the next page is
the one before its last item. -/
structure Walking (mark : Option κ) (since : Nat) (items collected : List α)
    (before : Option κ) : Prop where
  last : before = collected.getLast?.map key
  part : ∃ fresh rest, newerThan key mark items = fresh ++ collected ++ rest ∧
    fresh.length + since ≤ items.length

/-- A walk that is over: what it has read goes back to the mark. -/
def Walked (mark : Option κ) (since : Nat) (items collected : List α) : Prop :=
  ∃ fresh, newerThan key mark items = fresh ++ collected ∧ fresh.length + since ≤ items.length

section Walk
variable {key} {mark before : Option κ} {since limit : Nat} {items collected : List α}

theorem Walking.start (mark : Option κ) (items : List α) :
    Walking key mark items.length items [] none :=
  ⟨rfl, [], newerThan key mark items, rfl, Nat.le_of_eq (Nat.zero_add _)⟩

theorem Walking.grow {fresh : List α} (walking : Walking key mark since items collected before)
    (unmarked : ∀ x ∈ fresh, mark ≠ some (key x)) :
    Walking key mark since (fresh ++ items) collected before := by
  obtain ⟨last, newest, rest, part, length⟩ := walking
  refine ⟨last, fresh ++ newest, rest, ?_, ?_⟩
  · rw [newerThan_append unmarked, part]
    simp only [List.append_assoc]
  · rw [List.length_append, List.length_append]
    omega

/-- The page a walk asks for next is what follows the items it has collected. -/
theorem Walking.page_eq (walking : Walking key mark since items collected before)
    (distinct : (items.map key).Nodup) (limit : Nat) :
    ∃ fresh rest, items = fresh ++ collected ++ rest ∧
      page key limit before items = rest.take limit ∧
      (∀ x ∈ fresh ++ collected, mark ≠ some (key x)) ∧ fresh.length + since ≤ items.length := by
  obtain ⟨rfl, fresh, unread, part, length⟩ := walking
  have within : newerThan key mark items <+: items := by
    rw [newerThan_eq]
    exact List.takeWhile_prefix _
  obtain ⟨older, whole⟩ := within
  cases hlast : collected.getLast? with
  | none =>
      obtain rfl := List.getLast?_eq_none_iff.mp hlast
      exact ⟨[], items, rfl, rfl, fun _ none => absurd none List.not_mem_nil,
        by rw [List.length_nil]; omega⟩
  | some x =>
      obtain ⟨earlier, rfl⟩ := List.getLast?_eq_some_iff.mp hlast
      have split : items = (fresh ++ earlier) ++ x :: (unread ++ older) := by
        rw [← whole, part]
        simp only [List.append_assoc, List.cons_append, List.nil_append]
      refine ⟨fresh, unread ++ older, ?_, ?_, ?_, length⟩
      · rw [split]
        simp only [List.append_assoc, List.cons_append, List.nil_append]
      · have apart : ∀ y ∈ fresh ++ earlier, decide (key y ≠ key x) = true := by
          rw [split, List.map_append, List.nodup_append] at distinct
          intro y hy
          refine decide_eq_true (distinct.2.2 _ (List.mem_map_of_mem hy) _ ?_)
          exact List.mem_map_of_mem List.mem_cons_self
        rw [Option.map_some, split]
        change ((List.dropWhile _ _).drop 1).take limit = _
        rw [List.dropWhile_append_of_pos apart, List.dropWhile_cons_of_neg (by simp),
          List.drop_one, List.tail_cons]
      · intro y hy
        have new : y ∈ newerThan key mark items := by
          rw [part]
          exact List.mem_append_left _ hy
        exact newerThan_unmarked new

/-- A full page without the mark leads to the next. -/
theorem Walking.next (walking : Walking key mark since items collected before)
    (distinct : (items.map key).Nodup) (positive : 0 < limit)
    (full : limit ≤ (page key limit before items).length)
    (unmarked : reached key mark (page key limit before items) = none) :
    Walking key mark since items (collected ++ page key limit before items)
      ((page key limit before items).getLast?.map key) := by
  obtain ⟨fresh, rest, split, hpage, apart, length⟩ := walking.page_eq distinct limit
  rw [hpage] at full unmarked ⊢
  refine ⟨?_, fresh, newerThan key mark (rest.drop limit), ?_, length⟩
  · rw [List.getLast?_append]
    cases hlast : (rest.take limit).getLast? with
    | some x => rfl
    | none =>
        rw [List.getLast?_eq_none_iff.mp hlast, List.length_nil] at full
        exact absurd positive (Nat.not_lt.mpr full)
  · conv_lhs => rw [split, ← List.take_append_drop limit rest]
    rw [newerThan_append apart, newerThan_append (reached_eq_none.mp unmarked)]
    simp only [List.append_assoc]

/-- A page that holds the mark, or is not full, is the last. -/
theorem Walking.finish (walking : Walking key mark since items collected before)
    (distinct : (items.map key).Nodup)
    (last : reached key mark (page key limit before items) ≠ none ∨
      (page key limit before items).length < limit) :
    Walked key mark since items
      (collected ++ newerThan key mark (page key limit before items)) := by
  obtain ⟨fresh, rest, split, hpage, apart, length⟩ := walking.page_eq distinct limit
  rw [hpage] at last ⊢
  have whole : newerThan key mark rest = newerThan key mark (rest.take limit) := by
    rcases last with marked | short
    · exact newerThan_take marked
    · rw [List.length_take] at short
      rw [List.take_of_length_le (by omega)]
  refine ⟨fresh, ?_, length⟩
  conv_lhs => rw [split]
  rw [newerThan_append apart, whole, List.append_assoc]

end Walk

end Pages
