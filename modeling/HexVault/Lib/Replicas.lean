import Mathlib.Tactic.Common

/-!
Replicas of a log. Each entry stands for some effects, and a replica has taken in those of the
entries that reached it; where entries reach it in the order of the log, it has taken in the
effects of a prefix.
-/

namespace Replicas

universe u v
variable {α : Type u} {β : Type v} {effects : α → List β} {applied applied' : α → Bool}
  {log before after : List α} {entry : α}

/-- The effects taken in, in the order of the log. -/
def collected (effects : α → List β) (applied : α → Bool) (log : List α) : List β :=
  (log.filter applied).flatMap effects

/-- With an entry that has effects, every older one that has some was taken in. -/
def Downward (effects : α → List β) (applied : α → Bool) (log : List α) : Prop :=
  log.Pairwise fun older newer => effects newer ≠ [] → applied newer = true →
    effects older ≠ [] → applied older = true

theorem collected_append (log later : List α) : collected effects applied (log ++ later) =
    collected effects applied log ++ collected effects applied later := by
  rw [collected, List.filter_append, List.flatMap_append, collected, collected]

theorem collected_congr (same : ∀ entry ∈ log, effects entry ≠ [] →
    applied' entry = applied entry) :
    collected effects applied' log = collected effects applied log := by
  induction log with
  | nil => rfl
  | cons entry log ih =>
      have rest := ih fun other mem => same other (List.mem_cons_of_mem _ mem)
      rw [collected, collected] at rest
      rw [collected, collected, List.filter_cons, List.filter_cons]
      by_cases none : effects entry = []
      · cases applied entry <;> cases applied' entry <;> simp [none, rest]
      · rw [same entry (List.mem_cons_self ..) none]
        cases applied entry <;> simp [rest]

/-- All that has effects was taken in. -/
theorem collected_all (all : ∀ entry ∈ log, effects entry ≠ [] → applied entry = true) :
    collected effects applied log = log.flatMap effects := by
  have every : collected effects (fun _ => true) log = log.flatMap effects := by
    rw [collected, List.filter_eq_self.mpr fun _ _ => rfl]
  rw [← every]
  exact collected_congr fun entry mem effective => all entry mem effective

/-- None of it was. -/
theorem collected_none (none : ∀ entry ∈ log, effects entry ≠ [] → applied entry = false) :
    collected effects applied log = [] := by
  have never : collected effects (fun _ => false) log = [] := by
    rw [collected, List.filter_eq_nil_iff.mpr fun _ _ => Bool.false_ne_true, List.flatMap_nil]
  rw [← never]
  exact collected_congr fun entry mem effective => none entry mem effective

theorem Downward.congr (downward : Downward effects applied log)
    (same : ∀ entry ∈ log, effects entry ≠ [] → applied' entry = applied entry) :
    Downward effects applied' log := by
  refine List.Pairwise.imp_of_mem ?_ downward
  intro older newer hOlder hNewer implies relevant reached earlier
  rw [same newer hNewer relevant] at reached
  rw [same older hOlder earlier]
  exact implies relevant reached earlier

/-- What is newer than an entry not taken in was not taken in either. -/
theorem Downward.newer (downward : Downward effects applied (before ++ entry :: after))
    (effective : effects entry ≠ []) (fresh : applied entry = false) :
    ∀ other ∈ after, effects other ≠ [] → applied other = false := by
  intro other mem relevant
  have older := List.rel_of_pairwise_cons (List.pairwise_append.mp downward).2.1 mem
  rw [← Bool.not_eq_true]
  intro reached
  exact Bool.false_ne_true (fresh.symm.trans (older relevant reached effective))

/-- What was taken in is the first part of all effects. -/
theorem Downward.collected_prefix (downward : Downward effects applied log) :
    collected effects applied log <+: log.flatMap effects := by
  induction log with
  | nil => exact List.prefix_rfl
  | cons entry log ih =>
      have rest := ih (List.pairwise_cons.mp downward).2
      by_cases unreached : effects entry ≠ [] ∧ applied entry = false
      · obtain ⟨relevant, fresh⟩ := unreached
        have newer : Downward effects applied ([] ++ entry :: log) := downward
        rw [collected_none]
        · exact List.nil_prefix
        · intro other mem effective
          rcases List.mem_cons.mp mem with rfl | later
          · exact fresh
          · exact newer.newer relevant fresh other later effective
      · have first : collected effects applied [entry] = effects entry := by
          rw [collected, List.filter_cons]
          cases reached : applied entry with
          | true => simp
          | false => simp [not_not.mp fun relevant => unreached ⟨relevant, reached⟩]
        rw [← List.singleton_append, collected_append, first, List.flatMap_append,
          List.flatMap_singleton]
        exact (List.prefix_append_right_inj _).mpr rest

/-- The next entry of the log adds its effects to those before. -/
theorem collected_next (downward : Downward effects applied (before ++ entry :: after))
    (effective : effects entry ≠ []) (fresh : applied entry = false) (now : applied' entry = true)
    (others : ∀ other ∈ before ++ after, applied' other = applied other) :
    collected effects applied' (before ++ entry :: after) =
      collected effects applied (before ++ entry :: after) ++ effects entry := by
  have newer := downward.newer effective fresh
  have kept : collected effects applied' before = collected effects applied before :=
    collected_congr fun other mem _ => others other (List.mem_append_left _ mem)
  have later : collected effects applied' after = [] := collected_none fun other mem relevant => by
    rw [others other (List.mem_append_right _ mem), newer other mem relevant]
  have unreached : collected effects applied after = [] := collected_none newer
  rw [← List.singleton_append, collected_append, collected_append, collected_append,
    collected_append, kept, later, unreached]
  simp [collected, now, fresh]

/-- And the entries taken in are still the older ones. -/
theorem Downward.next (downward : Downward effects applied (before ++ entry :: after))
    (effective : effects entry ≠ []) (fresh : applied entry = false)
    (next : ∀ other ∈ before, effects other ≠ [] → applied other = true)
    (others : ∀ other ∈ before ++ after, applied' other = applied other)
    (now : applied' entry = true) : Downward effects applied' (before ++ entry :: after) := by
  have newer := downward.newer effective fresh
  rw [Downward, List.pairwise_append, List.pairwise_cons]
  refine ⟨?_, ⟨?_, ?_⟩, ?_⟩
  · rw [List.pairwise_iff_forall_sublist]
    intro older _ sub _ _ relevant
    have mem : older ∈ before := sub.subset (List.mem_cons_self ..)
    rw [others older (List.mem_append_left _ mem)]
    exact next older mem relevant
  · exact fun _ _ _ _ _ => now
  · rw [List.pairwise_iff_forall_sublist]
    intro _ other sub relevant reached
    have mem : other ∈ after := sub.subset (by simp)
    rw [others other (List.mem_append_right _ mem), newer other mem relevant] at reached
    exact absurd reached Bool.false_ne_true
  · intro older mem _ _ _ _ relevant
    rw [others older (List.mem_append_left _ mem)]
    exact next older mem relevant

end Replicas
