import Mathlib.Data.List.Basic
import Mathlib.Tactic.Common

/-!
A list served a page at a time. A page names the last item it holds where the list goes on
after it, and the next page starts there; a reader who follows the names to the end has seen
the list once, in order.
-/

namespace Cursors

universe u v
variable {α : Type u} {κ : Type v}

/-- What a reader collects who starts at a cursor and asks for a page after the other; nothing
where the pages asked for do not reach the end. -/
def follow (next : Option κ → List α × Option κ) : Nat → Option κ → Option (List (List α))
  | 0, _ => none
  | fuel + 1, cursor =>
      match next cursor with
      | (page, none) => some [page]
      | (page, some c) => (follow next fuel (some c)).map (page :: ·)

/-- After what has been read, a page holds the items that follow, and is the last one only if
they fit. -/
def Serves (key : α → κ) (limit : Nat) (items : List α)
    (next : Option κ → List α × Option κ) : Prop :=
  ∀ read rest, items = read ++ rest → next (read.getLast?.map key) =
    (rest.take limit, if limit < rest.length then (rest.take limit).getLast?.map key else none)

section Follow
variable {key : α → κ} {limit : Nat} {items : List α} {next : Option κ → List α × Option κ}

theorem take_ne_nil {rest : List α} (positive : 0 < limit) (more : limit < rest.length) :
    rest.take limit ≠ [] := by
  intro none
  have length := congrArg List.length none
  rw [List.length_take, List.length_nil] at length
  omega

/-- The pages after what has been read are the rest of the list, cut to size. -/
theorem Serves.follow (serves : Serves key limit items next) (positive : 0 < limit) {fuel : Nat}
    {read rest : List α} (split : items = read ++ rest) (enough : rest.length ≤ limit * fuel)
    (some_ : 0 < fuel) : ∃ pages, follow next fuel (read.getLast?.map key) = some pages ∧
      pages.flatten = rest ∧ ∀ page ∈ pages, page.length ≤ limit := by
  induction fuel generalizing read rest with
  | zero => exact absurd some_ (Nat.lt_irrefl 0)
  | succ fuel ih =>
      rw [Cursors.follow, serves read rest split]
      by_cases more : limit < rest.length
      · have some : rest.take limit ≠ [] := take_ne_nil positive more
        obtain ⟨x, hx⟩ := Option.ne_none_iff_exists'.mp fun none =>
          some (List.getLast?_eq_none_iff.mp none)
        have last : (read ++ rest.take limit).getLast?.map key = .some (key x) := by
          rw [List.getLast?_append_of_ne_nil _ some, hx, Option.map_some]
        have shorter : (rest.drop limit).length ≤ limit * fuel := by
          rw [Nat.mul_succ] at enough
          rw [List.length_drop]
          omega
        have left : 0 < fuel := by
          refine Nat.pos_of_ne_zero fun zero => ?_
          rw [zero, Nat.mul_zero, List.length_drop] at shorter
          omega
        have split' : items = read ++ rest.take limit ++ rest.drop limit := by
          rw [split, List.append_assoc, List.take_append_drop]
        obtain ⟨pages, found, flat, sizes⟩ := ih split' shorter left
        rw [last] at found
        rw [if_pos more, hx, Option.map_some]
        refine ⟨rest.take limit :: pages, ?_, ?_, ?_⟩
        · simp only [found, Option.map_some]
        · rw [List.flatten_cons, flat, List.take_append_drop]
        · rw [List.forall_mem_cons]
          exact ⟨List.length_take_le _ _, sizes⟩
      · rw [if_neg more, List.take_of_length_le (Nat.not_lt.mp more)]
        refine ⟨[rest], rfl, List.flatten_singleton, ?_⟩
        intro page mem
        rw [List.mem_singleton.mp mem]
        exact Nat.not_lt.mp more

/-- Where the item of a key stands, among items of distinct keys. -/
theorem findIdx?_last [DecidableEq κ] {read rest : List α} {x : α}
    (distinct : ((read ++ x :: rest).map key).Nodup) :
    (read ++ x :: rest).findIdx? (fun y => key y = key x) = some read.length := by
  rw [List.findIdx?_append]
  have absent : read.findIdx? (fun y => key y = key x) = none := by
    rw [List.findIdx?_eq_none_iff]
    intro y mem
    rw [List.map_append, List.nodup_append] at distinct
    exact decide_eq_false (distinct.2.2 _ (List.mem_map_of_mem mem) _
      (List.mem_map_of_mem (List.mem_cons_self ..)))
  rw [absent]
  simp [List.findIdx?_cons]

end Follow

end Cursors
