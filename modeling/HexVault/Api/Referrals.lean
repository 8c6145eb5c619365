import HexVault.Lib.Cursors
import HexVault.Lib.Ranking
import Mathlib.Data.String.Basic

/-!
The referrals of a wallet as `GET /referrals/:wallet` lists them: the newest first, a page at
a time, each page continued from the last referee of the one before.
-/

namespace HexVault

namespace Api

open Cursors Ranking

universe u

structure ReferralInput (ρ : Type u) where
  referee : ρ
  aboveSince : Option Int
  boundAt : Int
  bonusToday : Int
  deriving DecidableEq, Repr

structure ReferralsPage (ρ : Type u) where
  page : List (ReferralInput ρ)
  nextCursor : Option ρ
  deriving DecidableEq, Repr

section Pagination
variable {ρ : Type u} [LinearOrder ρ]

/-- Newest `boundAt` first, ties by `referee` ascending. -/
def newestFirst (a b : ReferralInput ρ) : Bool :=
  if a.boundAt ≠ b.boundAt then b.boundAt < a.boundAt else a.referee ≤ b.referee

/-- A cursor that matches no row starts from the top. -/
def startIndex (sorted : List (ReferralInput ρ)) : Option ρ → Nat
  | none => 0
  | some cursor =>
      match sorted.findIdx? fun r => r.referee = cursor with
      | some index => index + 1
      | none => 0

/-- A limit is at least one: of an empty page there is no last row to name. -/
def paginateReferrals (referrals : List (ReferralInput ρ)) (cursor : Option ρ) (limit : Nat) :
    ReferralsPage ρ :=
  let sorted := referrals.mergeSort newestFirst
  let slice := (sorted.drop (startIndex sorted cursor)).take (limit + 1)
  let hasMore := limit < slice.length
  let page := if hasMore then slice.take limit else slice
  { page
    nextCursor := if hasMore then page.getLast?.map ReferralInput.referee else none }

/-- A page and its cursor, as a reader gets them. -/
def nextPage (referrals : List (ReferralInput ρ)) (limit : Nat) (cursor : Option ρ) :
    List (ReferralInput ρ) × Option ρ :=
  ((paginateReferrals referrals cursor limit).page,
    (paginateReferrals referrals cursor limit).nextCursor)

variable {referrals : List (ReferralInput ρ)} {limit : Nat}

theorem newestFirst_eq : newestFirst (ρ := ρ) = ranks ReferralInput.boundAt ReferralInput.referee :=
  rfl

/-- A reader goes on right after what has been read. -/
theorem startIndex_read {sorted read rest : List (ReferralInput ρ)} (split : sorted = read ++ rest)
    (distinct : (sorted.map ReferralInput.referee).Nodup) :
    startIndex sorted (read.getLast?.map ReferralInput.referee) = read.length := by
  cases hlast : read.getLast? with
  | none =>
      rw [List.getLast?_eq_none_iff.mp hlast]
      rfl
  | some x =>
      obtain ⟨earlier, rfl⟩ := List.getLast?_eq_some_iff.mp hlast
      rw [← List.append_cons] at split
      subst split
      rw [Option.map_some, startIndex, findIdx?_last distinct, List.length_append,
        List.length_singleton]

/-- One row more than the limit tells whether there is more; it is not shown. -/
theorem take_lookahead {α : Type u} (items : List α) :
    (if limit < (items.take (limit + 1)).length then (items.take (limit + 1)).take limit
      else items.take (limit + 1)) = items.take limit := by
  rw [List.length_take]
  split
  · rw [List.take_take, Nat.min_eq_left (Nat.le_succ _)]
  · rw [List.take_of_length_le (by omega), List.take_of_length_le (by omega)]

/-- Each page is the stretch of the sorted list after the rows already read. -/
theorem paginateReferrals_serves (distinct : (referrals.map ReferralInput.referee).Nodup) :
    Serves ReferralInput.referee limit (referrals.mergeSort newestFirst)
      (nextPage referrals limit) := by
  intro read rest split
  have keys : ((referrals.mergeSort newestFirst).map ReferralInput.referee).Nodup :=
    ((referrals.mergeSort_perm newestFirst).map _).nodup_iff.mpr distinct
  have more : limit < (rest.take (limit + 1)).length ↔ limit < rest.length := by
    rw [List.length_take]
    omega
  simp only [nextPage, paginateReferrals, startIndex_read split keys]
  rw [split, List.drop_left, take_lookahead]
  simp only [more]

/-- Following the cursor from the top until there is none: every referral once, newest first,
in pages of at most the limit. -/
theorem paginateReferrals_complete (referrals : List (ReferralInput ρ)) (limit : Nat)
    (distinct : (referrals.map ReferralInput.referee).Nodup) (one : 1 ≤ limit) :
    ∃ pages, follow (nextPage referrals limit) (referrals.length + 1) none = some pages ∧
      pages.flatten.Perm referrals ∧
        (pages.flatten.Pairwise fun a b => b.boundAt < a.boundAt ∨
          b.boundAt = a.boundAt ∧ a.referee < b.referee) ∧
          ∀ page ∈ pages, page.length ≤ limit := by
  have enough : (referrals.mergeSort newestFirst).length ≤ limit * (referrals.length + 1) := by
    rw [List.length_mergeSort]
    exact Nat.le_trans (Nat.le_succ _) (Nat.le_mul_of_pos_left _ one)
  obtain ⟨pages, found, flat, sizes⟩ := (paginateReferrals_serves distinct).follow one
    (List.nil_append _).symm enough (Nat.succ_pos _)
  have perm : pages.flatten.Perm referrals := by
    rw [flat]
    exact List.mergeSort_perm ..
  refine ⟨pages, found, perm, ?_, sizes⟩
  have keys : pages.flatten.Pairwise fun a b => a.referee ≠ b.referee :=
    List.pairwise_map.mp ((perm.map _).nodup_iff.mpr distinct)
  have sorted : pages.flatten.Pairwise fun a b => newestFirst a b = true := by
    rw [flat, newestFirst_eq]
    exact Ranking.sorted _
  refine (sorted.and keys).imp fun {a b} h => ?_
  exact (ranks_iff.mp h.1).imp_right fun tied => ⟨tied.1, lt_of_le_of_ne tied.2 h.2⟩

end Pagination

def ReferralsDemo.rows : List (ReferralInput String) :=
  [⟨"B", none, 20, 0⟩, ⟨"C", some 30, 30, 5⟩, ⟨"A", none, 20, 0⟩]

/-- Two referrals of one second on either side of a page's end. -/
theorem paginateReferrals_complete_tied : ∃ pages,
    follow (nextPage ReferralsDemo.rows 2) 4 none = some pages ∧
      pages.flatten.Perm ReferralsDemo.rows ∧ ∀ page ∈ pages, page.length ≤ 2 := by
  obtain ⟨pages, found, perm, -, sizes⟩ :=
    paginateReferrals_complete ReferralsDemo.rows 2 (by decide) (by decide)
  exact ⟨pages, found, perm, sizes⟩

end Api

end HexVault
