import HexVault.Program.Instructions
import Mathlib.Data.Int.CardIntervalMod

/-!
The mapping of a randomness to a range: it takes the first of its 256 samples that is below the
limit, and below the limit every result has equally many samples.
-/

namespace HexVault

open Fallible

/-- The largest multiple of the range that a sample of the width reaches. -/
def sampleLimit (width range : Nat) : Nat := 256 ^ width - 1 - (256 ^ width - 1) % range

/-- The sample values that are accepted and mapped to `r`. -/
def samplesOf (width range r : Nat) : Finset Nat :=
  (Finset.range (256 ^ width)).filter fun s => s < sampleLimit width range ∧ s % range = r

section Counting
variable {width range r : Nat}

theorem fromLeBytes_lt (bytes : Bytes) : fromLeBytes bytes < 256 ^ bytes.length := by
  induction bytes with
  | nil => exact Nat.one_pos
  | cons byte rest ih =>
      have digit : byte.toNat < 256 := byte.toNat_lt
      rw [fromLeBytes, List.foldr_cons, ← fromLeBytes, List.length_cons, Nat.pow_succ]
      omega

theorem dvd_sampleLimit : range ∣ sampleLimit width range := Nat.dvd_sub_mod _

theorem sampleLimit_lt : sampleLimit width range < 256 ^ width := by
  have positive : 0 < 256 ^ width := Nat.pow_pos (by decide)
  have below : sampleLimit width range ≤ 256 ^ width - 1 := Nat.sub_le ..
  omega

theorem mem_samplesOf {s : Nat} :
    s ∈ samplesOf width range r ↔ s < sampleLimit width range ∧ s % range = r := by
  rw [samplesOf, Finset.mem_filter, Finset.mem_range, and_iff_right_iff_imp]
  exact fun h => Nat.lt_trans h.1 sampleLimit_lt

/-- Every result has as many samples: how often the range goes into the limit. -/
theorem card_samplesOf (result : r < range) :
    (samplesOf width range r).card = sampleLimit width range / range := by
  have positive : 0 < range := Nat.zero_lt_of_lt result
  have below : samplesOf width range r =
      (Finset.range (sampleLimit width range)).filter fun s => s ≡ r [MOD range] := by
    ext s
    rw [mem_samplesOf, Finset.mem_filter, Finset.mem_range, Nat.ModEq, Nat.mod_eq_of_lt result]
  rw [below, ← Nat.count_eq_card_filter_range, Nat.count_modEq_card _ positive,
    Nat.mod_eq_zero_of_dvd dvd_sampleLimit, if_neg (Nat.not_lt_zero _), Nat.add_zero]

/-- At least one, for a range that the width can hold. -/
theorem samplesOf_pos (positive : 0 < range) (fits : range < 256 ^ width) :
    0 < sampleLimit width range / range := by
  refine Nat.div_pos ?_ positive
  have whole := Nat.div_add_mod (256 ^ width - 1) range
  have once : 1 ≤ (256 ^ width - 1) / range := (Nat.one_le_div_iff positive).mpr (by omega)
  have limit : sampleLimit width range = range * ((256 ^ width - 1) / range) := by
    rw [sampleLimit]
    omega
  rw [limit]
  exact Nat.le_mul_of_pos_right range once

end Counting

section Loop
variable {draw : Nat → Nat} {limit range : Nat}

theorem unbiasedLoop_eq_ok {fuel start r : Nat} :
    unbiasedLoop draw limit range fuel start = .ok r ↔ ∃ counter, start ≤ counter ∧
      counter < start + fuel ∧ (∀ earlier, start ≤ earlier → earlier < counter →
        limit ≤ draw earlier) ∧ draw counter < limit ∧ draw counter % range = r := by
  induction fuel generalizing start with
  | zero =>
      refine iff_of_false nofun ?_
      rintro ⟨counter, from_, until_, -⟩
      omega
  | succ fuel ih =>
      rw [unbiasedLoop]
      by_cases accepted : draw start < limit
      · rw [if_pos accepted]
        constructor
        · intro h
          cases h
          exact ⟨start, Nat.le_refl _, by omega, fun earlier _ _ => by omega, accepted, rfl⟩
        · intro h
          obtain ⟨counter, from_, -, rejected, -, result⟩ := h
          -- The first try is accepted, so it is the one.
          rcases Nat.eq_or_lt_of_le from_ with rfl | later
          · rw [result]
          · exact absurd (rejected start (Nat.le_refl _) later) (by omega)
      · rw [if_neg accepted, ih]
        constructor
        · intro h
          obtain ⟨counter, from_, until_, rejected, found⟩ := h
          refine ⟨counter, by omega, by omega, fun earlier first before => ?_, found⟩
          rcases Nat.eq_or_lt_of_le first with rfl | later
          · omega
          · exact rejected earlier later before
        · intro h
          obtain ⟨counter, from_, until_, rejected, found, result⟩ := h
          have later : start ≠ counter := fun same => accepted (same ▸ found)
          exact ⟨counter, by omega, by omega, fun earlier first before =>
            rejected earlier (by omega) before, found, result⟩

theorem unbiasedLoop_eq_error {fuel start : Nat} {e : ProgramError} :
    unbiasedLoop draw limit range fuel start = .error e ↔ e = .vault .randomnessRejection ∧
      ∀ counter, start ≤ counter → counter < start + fuel → limit ≤ draw counter := by
  induction fuel generalizing start with
  | zero =>
      rw [unbiasedLoop, Except.error.injEq, eq_comm]
      exact (and_iff_left fun counter _ _ => by omega).symm
  | succ fuel ih =>
      rw [unbiasedLoop]
      by_cases accepted : draw start < limit
      · rw [if_pos accepted]
        refine iff_of_false (by simp) fun h => ?_
        exact absurd (h.2 start (Nat.le_refl _) (by omega)) (by omega)
      · rw [if_neg accepted, ih]
        refine and_congr_right fun _ => ⟨fun h counter from_ until_ => ?_, fun h counter from_ =>
          ?_⟩
        · rcases Nat.eq_or_lt_of_le from_ with rfl | later
          · omega
          · exact h counter later (by omega)
        · exact fun until_ => h counter (by omega) (by omega)

end Loop

section Mapping
variable (rt : Runtime)

/-- What a mapping of samples of a width to a range has to do: results in the range, each of them
from equally many of the sample values; the first accepted of 256 samples decides, and an error
means that none of them is accepted. -/
structure MapsEvenly (width : Nat) (mapping : Bytes → Nat → Result Nat) (randomness : Bytes)
    (range : Nat) : Prop where
  samples : ∀ counter, sample rt width randomness counter < 256 ^ width
  below : ∀ r, mapping randomness range = .ok r → r < range
  even : ∃ count, 0 < count ∧ ∀ r < range, (samplesOf width range r).card = count
  first : ∀ r, mapping randomness range = .ok r ↔ ∃ counter < 256,
    (∀ earlier < counter, ∀ r', sample rt width randomness earlier ∉ samplesOf width range r') ∧
      sample rt width randomness counter ∈ samplesOf width range r
  rejected : ∀ e, mapping randomness range = .error e → e = .vault .randomnessRejection ∧
    ∀ counter < 256, ∀ r, sample rt width randomness counter ∉ samplesOf width range r

variable {rt} {width range : Nat} {randomness : Bytes}

theorem sample_lt (counter : Nat) : sample rt width randomness counter < 256 ^ width := by
  have first (bytes : Bytes) : fromLeBytes (bytes.take width) < 256 ^ width := by
    refine Nat.lt_of_lt_of_le (fromLeBytes_lt _) (Nat.pow_le_pow_right (by decide) ?_)
    exact List.length_take_le ..
  rw [sample]
  split
  · exact first _
  · exact first _

theorem not_mem_samplesOf {s : Nat} :
    (∀ r, s ∉ samplesOf width range r) ↔ sampleLimit width range ≤ s := by
  constructor
  · intro h
    exact Nat.le_of_not_lt fun below => h _ (mem_samplesOf.mpr ⟨below, rfl⟩)
  · intro limit r mem
    exact absurd (mem_samplesOf.mp mem).1 (Nat.not_lt.mpr limit)

theorem unbiased_of_pos (positive : 0 < range) : unbiased rt width randomness range =
    unbiasedLoop (sample rt width randomness) (sampleLimit width range) range 256 0 := by
  rw [unbiased, require, if_pos positive]
  rfl

theorem mapsEvenly (positive : 0 < range) (fits : range < 256 ^ width) :
    MapsEvenly rt width (unbiased rt width) randomness range := by
  constructor
  case samples => exact sample_lt
  case below => exact fun r h => unbiased_lt h
  case even => exact ⟨_, samplesOf_pos positive fits, fun r result => card_samplesOf result⟩
  case first =>
    intro r
    rw [unbiased_of_pos positive, unbiasedLoop_eq_ok]
    simp only [not_mem_samplesOf]
    simp only [mem_samplesOf, Nat.zero_le, true_and, Nat.zero_add, forall_const]
  case rejected =>
    intro e h
    rw [unbiased_of_pos positive, unbiasedLoop_eq_error] at h
    obtain ⟨rejection, all⟩ := h
    refine ⟨rejection, fun counter few => not_mem_samplesOf.mpr ?_⟩
    exact all counter (Nat.zero_le _) (by omega)

/-- Both mappings are unbiased, for every range of their type and whatever SHA-256 returns. -/
theorem unbiased_maps_evenly (randomness : Bytes) :
    (∀ range, 0 < range → range < 2 ^ 64 →
      MapsEvenly rt 8 (unbiasedU64 rt) randomness range) ∧
    ∀ range, 0 < range → range < 2 ^ 128 →
      MapsEvenly rt 16 (unbiasedU128 rt) randomness range :=
  ⟨fun _ positive fits => mapsEvenly positive fits, fun _ positive fits => mapsEvenly positive fits⟩

/-- At the extremes: a range of one and the largest, each with a randomness of zeros. -/
theorem unbiased_maps_evenly_extremes :
    (MapsEvenly Demo.runtime 8 (unbiasedU64 Demo.runtime) (List.replicate 64 0) 1 ∧
      MapsEvenly Demo.runtime 8 (unbiasedU64 Demo.runtime) (List.replicate 64 0) (2 ^ 64 - 1)) ∧
    MapsEvenly Demo.runtime 16 (unbiasedU128 Demo.runtime) (List.replicate 64 0) (2 ^ 127) := by
  obtain ⟨small, large⟩ := @unbiased_maps_evenly Demo.runtime (List.replicate 64 0)
  exact ⟨⟨small 1 (by decide) (by decide), small (2 ^ 64 - 1) (by decide) (by decide)⟩,
    large (2 ^ 127) (by decide) (by decide)⟩

end Mapping

end HexVault
