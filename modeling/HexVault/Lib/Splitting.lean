import Mathlib.Data.List.Infix

/-!
Splitting a text at every occurrence of another, from the left and without overlap, and joining the
pieces with something else. A text the marker cannot be part of occurs in the joined text only
where it already did in a piece.
-/

namespace Splitting

universe u
variable {α : Type u} {separator text needle marker : List α}

theorem prefix_of_not_mem {before after : List α} {c : α} (absent : c ∉ needle)
    (begins : needle <+: before ++ c :: after) : needle <+: before := by
  induction before generalizing needle with
  | nil =>
      rcases List.prefix_cons_iff.mp begins with rfl | ⟨rest, rfl, -⟩
      · exact List.nil_prefix
      · exact absurd (List.mem_cons_self ..) absent
  | cons first before ih =>
      rcases List.prefix_cons_iff.mp begins with rfl | ⟨rest, rfl, further⟩
      · exact List.nil_prefix
      · exact (List.prefix_cons_inj first).mpr
          (ih (fun mem => absent (List.mem_cons_of_mem _ mem)) further)

/-- What lacks an element does not reach across it. -/
theorem infix_of_not_mem {before after : List α} {c : α} (absent : c ∉ needle)
    (occurs : needle <:+: before ++ c :: after) : needle <:+: before ∨ needle <:+: after := by
  induction before with
  | nil =>
      rcases List.infix_cons_iff.mp occurs with begins | inside
      · have none : needle <+: [] := prefix_of_not_mem absent begins
        exact .inl none.isInfix
      · exact .inr inside
  | cons first before ih =>
      rcases List.infix_cons_iff.mp occurs with begins | inside
      · have here : needle <+: first :: before := prefix_of_not_mem absent begins
        exact .inl here.isInfix
      · exact (ih inside).imp_left fun h => h.trans (List.suffix_cons _ _).isInfix

/-- A marker between two elements the needle lacks, itself without the needle. -/
structure Bars (needle marker : List α) : Prop where
  framed : ∃ opening inner closing, marker = opening :: inner ++ [closing] ∧
    opening ∉ needle ∧ closing ∉ needle ∧ ¬ needle <:+: inner

/-- The needle occurs among joined pieces only within one of them. -/
theorem Bars.infix_intercalate (bars : Bars needle marker) {pieces : List (List α)}
    (some_ : needle ≠ []) (occurs : needle <:+: marker.intercalate pieces) :
    ∃ piece ∈ pieces, needle <:+: piece := by
  obtain ⟨opening, inner, closing, rfl, noOpening, noClosing, notInner⟩ := bars.framed
  induction pieces with
  | nil => exact absurd (List.infix_nil.mp occurs) some_
  | cons piece rest ih =>
      cases rest with
      | nil => exact ⟨piece, List.mem_cons_self .., by rwa [List.intercalate_singleton] at occurs⟩
      | cons next rest =>
          rw [List.intercalate_cons_cons, List.append_assoc, List.cons_append,
            List.cons_append] at occurs
          rcases infix_of_not_mem noOpening occurs with here | beyond
          · exact ⟨piece, List.mem_cons_self .., here⟩
          · rw [List.append_assoc, List.singleton_append] at beyond
            rcases infix_of_not_mem noClosing beyond with within | later
            · exact absurd within notInner
            · obtain ⟨found, mem, here⟩ := ih later
              exact ⟨found, List.mem_cons_of_mem _ mem, here⟩

variable [DecidableEq α]

/-- What is left of a separator is passed over before the next piece begins. -/
def splitFrom (separator : List α) : Nat → List α → List (List α)
  | _, [] => [[]]
  | skip + 1, _ :: rest => splitFrom separator skip rest
  | 0, c :: rest =>
      if separator.isPrefixOf (c :: rest) then
        [] :: splitFrom separator (separator.length - 1) rest
      else
        match splitFrom separator 0 rest with
        | [] => [[c]]
        | piece :: pieces => (c :: piece) :: pieces

def split (separator text : List α) : List (List α) := splitFrom separator 0 text

/-- Every occurrence replaced. -/
def replaceAll (separator marker text : List α) : List α :=
  marker.intercalate (split separator text)

/-- The first piece begins the text, none has the separator, and all are parts of the text. -/
structure Parts (separator text : List α) (pieces : List (List α)) : Prop where
  first : ∃ piece rest, pieces = piece :: rest ∧ piece <+: text
  clear : ∀ piece ∈ pieces, ¬ separator <:+: piece
  within : ∀ piece ∈ pieces, piece <:+: text

theorem splitFrom_parts (some_ : separator ≠ []) : ∀ (skip : Nat) (text : List α),
    Parts separator (text.drop skip) (splitFrom separator skip text) := by
  intro skip text
  induction text generalizing skip with
  | nil =>
      rw [List.drop_nil, splitFrom]
      refine ⟨⟨[], [], rfl, List.prefix_refl _⟩, fun piece mem => ?_, fun piece mem => ?_⟩
      · obtain rfl := List.mem_singleton.mp mem
        exact fun h => some_ (List.infix_nil.mp h)
      · obtain rfl := List.mem_singleton.mp mem
        exact List.infix_refl _
  | cons c rest ih =>
      cases skip with
      | succ skip => exact ih skip
      | zero =>
          rw [List.drop_zero, splitFrom]
          split
          · have later := ih (separator.length - 1)
            refine ⟨⟨[], _, rfl, List.nil_prefix⟩, fun piece mem => ?_, fun piece mem => ?_⟩
            · rcases List.mem_cons.mp mem with rfl | mem
              · exact fun h => some_ (List.infix_nil.mp h)
              · exact later.clear piece mem
            · rcases List.mem_cons.mp mem with rfl | mem
              · exact List.nil_infix
              · exact (later.within piece mem).trans
                  ((List.drop_suffix _ _).isInfix.trans (List.suffix_cons _ _).isInfix)
          · next absent =>
              have later := ih 0
              rw [List.drop_zero] at later
              obtain ⟨piece, pieces, all, begins⟩ := later.first
              rw [all] at later ⊢
              have begun : c :: piece <+: c :: rest := (List.prefix_cons_inj c).mpr begins
              refine ⟨⟨_, _, rfl, begun⟩, fun other mem => ?_, fun other mem => ?_⟩
              · rcases List.mem_cons.mp mem with rfl | mem
                · intro occurs
                  rcases List.infix_cons_iff.mp occurs with start | inside
                  · exact absent (List.isPrefixOf_iff_prefix.mpr (start.trans begun))
                  · exact later.clear piece (List.mem_cons_self ..) inside
                · exact later.clear other (List.mem_cons_of_mem _ mem)
              · rcases List.mem_cons.mp mem with rfl | mem
                · exact begun.isInfix
                · exact (later.within other (List.mem_cons_of_mem _ mem)).trans
                    (List.suffix_cons _ _).isInfix

theorem split_parts (some_ : separator ≠ []) : Parts separator text (split separator text) :=
  splitFrom_parts some_ 0 text

/-- What was replaced is gone. -/
theorem not_infix_replaceAll (some_ : separator ≠ []) (bars : Bars separator marker) :
    ¬ separator <:+: replaceAll separator marker text := by
  intro occurs
  obtain ⟨piece, mem, here⟩ := bars.infix_intercalate some_ occurs
  exact (split_parts some_).clear piece mem here

/-- Replacing something brings nothing else back. -/
theorem infix_of_infix_replaceAll (some_ : separator ≠ []) (needed : needle ≠ [])
    (bars : Bars needle marker) (occurs : needle <:+: replaceAll separator marker text) :
    needle <:+: text := by
  obtain ⟨piece, mem, here⟩ := bars.infix_intercalate needed occurs
  exact here.trans ((split_parts some_).within piece mem)

/-- Of a list of texts replaced one after another, none is left. -/
theorem not_infix_foldl_replaceAll {separators : List (List α)}
    (some_ : ∀ separator ∈ separators, separator ≠ [])
    (bars : ∀ separator ∈ separators, Bars separator marker) (needed : needle ∈ separators) :
    ¬ needle <:+: separators.foldl (fun text separator => replaceAll separator marker text)
      text := by
  induction separators using List.reverseRecOn with
  | nil => cases needed
  | append_singleton front last ih =>
      rw [List.foldl_append, List.foldl_cons, List.foldl_nil]
      have mine := bars needle needed
      have filled := some_ needle needed
      have last_ : last ∈ front ++ [last] := List.mem_append_right _ (List.mem_singleton.mpr rfl)
      by_cases here : needle = last
      · subst here
        exact not_infix_replaceAll filled mine
      · intro occurs
        have earlier : needle ∈ front := by
          rcases List.mem_append.mp needed with earlier | only
          · exact earlier
          · exact absurd (List.mem_singleton.mp only) here
        have before := infix_of_infix_replaceAll (some_ last last_) filled mine occurs
        exact ih (fun other mem => some_ other (List.mem_append_left _ mem))
          (fun other mem => bars other (List.mem_append_left _ mem)) earlier before

end Splitting
