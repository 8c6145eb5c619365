import HexVault.Lib.Numerals
import Mathlib.Tactic.Linarith

/-!
Amounts as text: atomic units written with the mint's decimals, cut to two for display, and read
back from what a user types.
-/

namespace HexVault

namespace Web

open Numerals

/-- Render atomic units as a decimal string with `decimals` places. -/
def formatAtomic (value decimals : Int) : Except String Text :=
  if decimals < 0 then .error s!"invalid decimals: {decimals}"
  else
    let sign := if value < 0 then [MINUS] else []
    let digits := toText value.natAbs
    let places := decimals.toNat
    if places = 0 then .ok (sign ++ digits)
    else if digits.length ≤ places then
      .ok (sign ++ (ZERO :: DOT :: digits.leftpad places ZERO))
    else
      let whole := digits.take (digits.length - places)
      let frac := digits.drop (digits.length - places)
      .ok (sign ++ (whole ++ DOT :: frac))

/-- What is before the first dot and what is behind it. -/
def atDot (text : Text) : Text × Text :=
  match text.idxOf? DOT with
  | none => (text, [])
  | some dot => (text.take dot, text.drop (dot + 1))

/-- Render atomic units truncated, never rounded, to two decimal places. -/
def formatAtomic2 (value decimals : Int) : Except String Text := do
  let full ← formatAtomic value decimals
  let negative := decide (full.head? = some MINUS)
  let unsigned := if negative then full.drop 1 else full
  let (whole, frac) := atDot unsigned
  let twoPlaces := (frac ++ [ZERO, ZERO]).take 2
  return (if negative then [MINUS] else []) ++ (whole ++ DOT :: twoPlaces)

/-- `/^\d+(\.\d+)?$/`. -/
def isNumeral (raw : Text) : Bool :=
  !(raw.takeWhile isDigit).isEmpty &&
    match raw.dropWhile isDigit with
    | [] => true
    | unit :: frac => unit = DOT && !frac.isEmpty && frac.all isDigit

/-- Parse user-entered decimal text into atomic units. -/
def parseAtomic (text : Text) (decimals : Int) : Except String (Option Int) :=
  if decimals < 0 then .error s!"invalid decimals: {decimals}"
  else
    let raw := trim text
    if !isNumeral raw then .ok none
    else
      let (whole, frac) := atDot raw
      if decimals.toNat < frac.length then .ok none
      else .ok (some (ofText (whole ++ frac.rightpad decimals.toNat ZERO)))

section Text
variable {text whole frac : Text}

theorem isNumeral_iff : isNumeral text = true ↔ ∃ whole frac, Plain text whole frac := by
  constructor
  · intro h
    rw [isNumeral, Bool.and_eq_true, Bool.not_eq_true', List.isEmpty_eq_false_iff] at h
    have digits : IsDigits (text.takeWhile isDigit) :=
      ⟨h.1, fun unit mem => List.mem_takeWhile_imp mem⟩
    have whole := (List.takeWhile_append_dropWhile (p := isDigit) (l := text)).symm
    cases rest : text.dropWhile isDigit with
    | nil =>
        rw [rest, List.append_nil] at whole
        exact ⟨_, [], digits, fun some => absurd rfl some, whole⟩
    | cons unit frac =>
        rw [rest] at h whole
        simp only [Bool.and_eq_true, decide_eq_true_eq, Bool.not_eq_true',
          List.isEmpty_eq_false_iff, List.all_eq_true] at h
        obtain ⟨-, ⟨rfl, some⟩, all⟩ := h
        exact ⟨_, frac, digits, fun _ => ⟨some, all⟩, by rwa [if_neg some]⟩
  · intro h
    obtain ⟨whole, frac, plain⟩ := h
    obtain ⟨taken, rest⟩ := plain.takeWhile
    rw [isNumeral, taken, rest, Bool.and_eq_true, Bool.not_eq_true', List.isEmpty_eq_false_iff]
    refine ⟨plain.digits.some, ?_⟩
    by_cases none : frac = []
    · rw [if_pos none]
    · rw [if_neg none]
      have digits := (plain.fraction none).digits
      simpa [none] using digits

theorem atDot_plain (plain : Plain text whole frac) : atDot text = (whole, frac) := by
  have absent := plain.digits.dot_not_mem
  rw [atDot, plain.spelled]
  by_cases none : frac = []
  · rw [if_pos none, List.idxOf?_eq_none_iff.mpr absent, none]
  · rw [if_neg none, idxOf_append_cons absent]
    simp

end Text

section Format
variable {value : Int} {decimals : Nat}

/-- The sign an amount is written with. -/
def signOf (value : Int) : Text := if value < 0 then [MINUS] else []

/-- Digits that are all behind the dot, after as many zeros as fill its places. -/
theorem plain_leftpad {text : Text} {places : Nat} (digits : IsDigits text) (some : places ≠ 0)
    (short : text.length ≤ places) :
    Plain (ZERO :: DOT :: text.leftpad places ZERO) [ZERO] (text.leftpad places ZERO) ∧
      (text.leftpad places ZERO).length = places ∧
        ofText ([ZERO] ++ text.leftpad places ZERO) = ofText text := by
  have length : (text.leftpad places ZERO).length = places := by
    rw [List.length_leftpad, Nat.max_eq_left short]
  have filled : text.leftpad places ZERO ≠ [] := by
    intro none
    exact some (length.symm.trans (congrArg List.length none))
  refine ⟨⟨isDigits_zero, fun _ => ⟨filled, ?_⟩, ?_⟩, length, ?_⟩
  · intro unit mem
    rcases List.mem_append.mp mem with padding | digit
    · rw [(List.mem_replicate.mp padding).2]
      rfl
    · exact digits.digits unit digit
  · rw [if_neg filled]
    rfl
  · rw [List.leftpad, ← List.append_assoc, ofText_append, ofText_append, ofText_zeros]
    simp [ofText, digitOf, ZERO]

/-- Digits cut so that the last are behind the dot. -/
theorem plain_split {text : Text} {places : Nat} (digits : IsDigits text) (some : places ≠ 0)
    (long : places < text.length) :
    Plain (text.take (text.length - places) ++ DOT :: text.drop (text.length - places))
      (text.take (text.length - places)) (text.drop (text.length - places)) ∧
        (text.drop (text.length - places)).length = places := by
  have length : (text.drop (text.length - places)).length = places := by
    rw [List.length_drop]
    omega
  have filled : text.drop (text.length - places) ≠ [] := by
    intro none
    exact some (length.symm.trans (congrArg List.length none))
  refine ⟨⟨⟨?_, ?_⟩, fun _ => ⟨filled, ?_⟩, ?_⟩, length⟩
  · rw [ne_eq, List.take_eq_nil_iff, not_or]
    exact ⟨by omega, digits.some⟩
  · exact fun unit mem => digits.digits unit (List.mem_of_mem_take mem)
  · exact fun unit mem => digits.digits unit (List.mem_of_mem_drop mem)
  · rw [if_neg filled]

/-- A formatted amount: its sign, and a plain numeral of its digits with as many behind the dot as
there are decimals. -/
theorem formatAtomic_spec (value : Int) (decimals : Nat) : ∃ text whole frac,
    formatAtomic value decimals = .ok (signOf value ++ text) ∧ Plain text whole frac ∧
      frac.length = decimals ∧ ofText (whole ++ frac) = value.natAbs := by
  have digits := isDigits_toText value.natAbs
  have known : ¬ (decimals : Int) < 0 := by omega
  rw [formatAtomic, if_neg known, Int.toNat_natCast]
  by_cases zero : decimals = 0
  · refine ⟨toText value.natAbs, toText value.natAbs, [], by rw [if_pos zero, signOf],
      ⟨digits, fun some => absurd rfl some, rfl⟩, zero.symm, ?_⟩
    rw [List.append_nil, ofText_toText]
  · rw [if_neg zero]
    by_cases short : (toText value.natAbs).length ≤ decimals
    · obtain ⟨plain, length, denotes⟩ := plain_leftpad digits zero short
      rw [ofText_toText] at denotes
      exact ⟨_, _, _, by rw [if_pos short, signOf], plain, length, denotes⟩
    · obtain ⟨plain, length⟩ := plain_split digits zero (by omega)
      refine ⟨_, _, _, by rw [if_neg short, signOf], plain, length, ?_⟩
      rw [List.take_append_drop, ofText_toText]

/-- A formatted amount denotes the units over the power of ten of its decimals. -/
theorem formatAtomic_denotes (value : Int) (decimals : Nat) : ∃ text,
    formatAtomic value decimals = .ok text ∧ Denotes text (value / 10 ^ decimals) := by
  obtain ⟨text, whole, frac, format, plain, places, digits⟩ := formatAtomic_spec value decimals
  refine ⟨_, format, ?_⟩
  have size : magnitude whole frac = (value.natAbs : ℚ) / 10 ^ decimals := by
    rw [magnitude_eq, digits, places]
  by_cases negative : value < 0
  · have amount : (value : ℚ) / 10 ^ decimals = -magnitude whole frac := by
      have abs : (value.natAbs : ℤ) = -value := by omega
      rw [size, ← Int.cast_natCast value.natAbs, abs, Int.cast_neg, neg_div, neg_neg]
    rw [signOf, if_pos negative, amount]
    exact .minus plain
  · have amount : (value : ℚ) / 10 ^ decimals = magnitude whole frac := by
      have abs : (value.natAbs : ℤ) = value := by omega
      rw [size, ← Int.cast_natCast value.natAbs, abs]
    rw [signOf, if_neg negative, amount]
    exact .plain plain

end Format

section Parse
variable {text : Text} {decimals : Nat} {value : Int}

theorem parseAtomic_eq_some : parseAtomic text decimals = .ok (some value) ↔
    ∃ whole frac, Plain (trim text) whole frac ∧ frac.length ≤ decimals ∧
      value = ofText (whole ++ frac.rightpad decimals ZERO) := by
  have known : ¬ (decimals : Int) < 0 := by omega
  simp only [parseAtomic]
  rw [if_neg known, Int.toNat_natCast]
  by_cases numeral : isNumeral (trim text) = true
  · obtain ⟨whole, frac, plain⟩ := isNumeral_iff.mp numeral
    rw [numeral, atDot_plain plain, if_neg (by decide)]
    dsimp only
    by_cases long : decimals < frac.length
    · rw [if_pos long]
      refine iff_of_false nofun fun h => ?_
      obtain ⟨whole', frac', plain', short, -⟩ := h
      obtain ⟨-, rfl⟩ := plain.unique plain'
      omega
    · rw [if_neg long, Except.ok.injEq, Option.some.injEq]
      constructor
      · rintro rfl
        exact ⟨whole, frac, plain, by omega, rfl⟩
      · intro h
        obtain ⟨whole', frac', plain', -, rfl⟩ := h
        obtain ⟨rfl, rfl⟩ := plain.unique plain'
        rfl
  · rw [Bool.not_eq_true] at numeral
    rw [numeral, if_pos (by decide)]
    refine iff_of_false nofun fun h => ?_
    obtain ⟨whole, frac, plain, -⟩ := h
    exact Bool.false_ne_true (numeral.symm.trans (isNumeral_iff.mpr ⟨whole, frac, plain⟩))

/-- What is read is the number the text denotes, in units. -/
theorem parseAtomic_denotes (h : parseAtomic text decimals = .ok (some value)) :
    Denotes (trim text) (value / 10 ^ decimals) := by
  obtain ⟨whole, frac, plain, short, rfl⟩ := parseAtomic_eq_some.mp h
  have units : ((ofText (whole ++ frac.rightpad decimals ZERO) : Int) : ℚ) / 10 ^ decimals =
      magnitude whole frac := by
    have power : (10 : ℚ) ^ decimals = 10 ^ (decimals - frac.length) * 10 ^ frac.length := by
      rw [← pow_add, Nat.sub_add_cancel short]
    have some : (10 : ℚ) ^ (decimals - frac.length) ≠ 0 := pow_ne_zero _ (by decide)
    rw [List.rightpad, ← List.append_assoc, ofText_append, ofText_zeros, List.length_replicate,
      Nat.add_zero, magnitude_eq, power]
    push_cast
    rw [mul_comm, mul_div_mul_left _ _ some]
  rw [units]
  exact .plain plain

/-- Reading back what was written gives the amount. -/
theorem parseAtomic_formatAtomic (units decimals : Nat) :
    (do let text ← formatAtomic units decimals; parseAtomic text decimals) =
      .ok (some (units : Int)) := by
  obtain ⟨text, whole, frac, format, plain, places, digits⟩ := formatAtomic_spec units decimals
  have unsigned : signOf units = [] := if_neg (by omega)
  rw [format, unsigned, List.nil_append]
  change parseAtomic text decimals = _
  refine parseAtomic_eq_some.mpr ⟨whole, frac, ?_, places.le, ?_⟩
  · rw [trim_eq_self plain.solid]
    exact plain
  · rw [List.rightpad, places, Nat.sub_self, List.replicate_zero, List.append_nil, digits,
      Int.natAbs_natCast]

end Parse

section Truncate

/-- Two places of a fraction: cut off, or filled up with zeros. -/
theorem ofText_twoPlaces {whole frac : Text} (digits : ∀ unit ∈ frac, isDigit unit = true) :
    ofText (whole ++ (frac ++ [ZERO, ZERO]).take 2) =
      100 * ofText (whole ++ frac) / 10 ^ frac.length := by
  by_cases short : frac.length ≤ 2
  · have filled : (frac ++ [ZERO, ZERO]).take 2 =
        frac ++ List.replicate (2 - frac.length) ZERO := by
      rw [List.take_append, List.take_of_length_le short]
      change frac ++ (List.replicate 2 ZERO).take _ = _
      rw [List.take_replicate, Nat.min_eq_left (Nat.sub_le ..)]
    have power : 100 = 10 ^ (2 - frac.length) * 10 ^ frac.length := by
      rw [← pow_add, Nat.sub_add_cancel short]
      rfl
    rw [filled, ← List.append_assoc, ofText_append, ofText_zeros, List.length_replicate,
      Nat.add_zero]
    conv_rhs => rw [power]
    rw [Nat.mul_right_comm, Nat.mul_div_cancel _ (Nat.pow_pos (by decide)), Nat.mul_comm]
  · have cut : (frac ++ [ZERO, ZERO]).take 2 = frac.take 2 :=
      List.take_append_of_le_length (by omega)
    have power : 10 ^ frac.length = 100 * 10 ^ (frac.drop 2).length := by
      rw [List.length_drop, ← Nat.pow_add 10 2, Nat.add_sub_cancel' (by omega)]
    have all := @ofText_div (whole ++ frac.take 2) (frac.drop 2)
      fun unit mem => digits unit (List.mem_of_mem_drop mem)
    rw [List.append_assoc, List.take_append_drop] at all
    rw [cut, power, Nat.mul_div_mul_left _ _ (by decide), all]

/-- Two places are those of the amount, cut off towards zero. -/
theorem formatAtomic2_spec (value : Int) (decimals : Nat) : ∃ whole places,
    formatAtomic2 value decimals = .ok (signOf value ++ (whole ++ DOT :: places)) ∧
      Plain (whole ++ DOT :: places) whole places ∧ places.length = 2 ∧
        ofText (whole ++ places) = 100 * value.natAbs / 10 ^ decimals := by
  obtain ⟨text, whole, frac, format, plain, places, digits⟩ := formatAtomic_spec value decimals
  have fraction : ∀ unit ∈ frac, isDigit unit = true := by
    intro unit mem
    exact (plain.fraction (List.ne_nil_of_mem mem)).digits unit mem
  have length : ((frac ++ [ZERO, ZERO]).take 2).length = 2 := by
    rw [List.length_take, List.length_append]
    exact Nat.min_eq_left (Nat.le_add_left ..)
  have filled : (frac ++ [ZERO, ZERO]).take 2 ≠ [] := by
    intro none
    rw [none] at length
    exact nomatch length
  refine ⟨whole, (frac ++ [ZERO, ZERO]).take 2, ?_, ⟨plain.digits, fun _ => ⟨filled, ?_⟩, ?_⟩,
    length, ?_⟩
  · rw [formatAtomic2, format]
    by_cases negative : value < 0
    · simp [signOf, negative, atDot_plain plain, Bind.bind, Except.bind, Pure.pure, Except.pure]
    · have unsigned : text.head? ≠ some MINUS := by
        intro first
        obtain ⟨rest, rfl⟩ := List.head?_eq_some_iff.mp first
        exact plain.not_minus
      simp [signOf, negative, unsigned, atDot_plain plain, Bind.bind, Except.bind, Pure.pure,
        Except.pure]
  · intro unit mem
    rcases List.mem_append.mp (List.mem_of_mem_take mem) with digit | zero
    · exact fraction unit digit
    · rw [List.mem_replicate.mp (show unit ∈ List.replicate 2 ZERO from zero) |>.2]
      rfl
  · rw [if_neg filled]
  · rw [ofText_twoPlaces fraction, digits, places]

theorem formatAtomic2_denotes (value : Int) (decimals : Nat) : ∃ text,
    formatAtomic2 value decimals = .ok text ∧
      Denotes text ((100 * value).tdiv (10 ^ decimals) / 100) := by
  obtain ⟨whole, places, format, plain, two, digits⟩ := formatAtomic2_spec value decimals
  refine ⟨_, format, ?_⟩
  have size : magnitude whole places = ((100 * value.natAbs / 10 ^ decimals : Nat) : ℚ) / 100 := by
    rw [magnitude_eq, digits, two]
    norm_num
  have power : (10 : ℤ) ^ decimals = ((10 ^ decimals : Nat) : ℤ) := by push_cast; rfl
  by_cases negative : value < 0
  · have cut : (100 * value).tdiv (10 ^ decimals) =
        -((100 * value.natAbs / 10 ^ decimals : Nat) : ℤ) := by
      have abs : 100 * value = -((100 * value.natAbs : Nat) : ℤ) := by omega
      rw [abs, power, Int.neg_tdiv, Int.ofNat_tdiv]
    rw [signOf, if_pos negative, cut, Int.cast_neg, Int.cast_natCast, neg_div, ← size]
    exact .minus plain
  · have cut : (100 * value).tdiv (10 ^ decimals) =
        ((100 * value.natAbs / 10 ^ decimals : Nat) : ℤ) := by
      have abs : 100 * value = ((100 * value.natAbs : Nat) : ℤ) := by omega
      rw [abs, power, Int.ofNat_tdiv]
    rw [signOf, if_neg negative, cut, Int.cast_natCast, ← size]
    exact .plain plain

/-- For an amount that is not negative, at most one hundredth is cut off. -/
theorem truncated_bounds {value : Int} (nonneg : 0 ≤ value) (decimals : Nat) :
    ((100 * value).tdiv (10 ^ decimals) / 100 : ℚ) ≤ value / 10 ^ decimals ∧
      (value / 10 ^ decimals : ℚ) - (100 * value).tdiv (10 ^ decimals) / 100 < 1 / 100 := by
  have positive : (0 : ℤ) < 10 ^ decimals := pow_pos (by decide) _
  have power : (0 : ℚ) < 10 ^ decimals := pow_pos (by norm_num) _
  rw [Int.tdiv_eq_ediv_of_nonneg (by omega)]
  have low := Int.ediv_mul_le (100 * value) (Int.ne_of_gt positive)
  have high := Int.lt_ediv_add_one_mul_self (100 * value) positive
  have low : ((100 * value / 10 ^ decimals : ℤ) : ℚ) * 10 ^ decimals ≤ 100 * value := by
    exact_mod_cast low
  have high : (100 * value : ℚ) < (((100 * value / 10 ^ decimals : ℤ) : ℚ) + 1) * 10 ^ decimals := by
    exact_mod_cast high
  constructor
  · rw [div_le_div_iff₀ (by norm_num) power]
    linarith
  · rw [sub_lt_iff_lt_add, ← add_div, div_lt_div_iff₀ power (by norm_num)]
    linarith

end Truncate

/-- An amount written out is read back as it was; a text is read where it is a plain numeral of
no more places than there are decimals, as the number it denotes; and what is shown at two places
is the amount cut off there. -/
theorem money_text_round_trip (decimals : Nat) :
    (∀ units : Nat, (do let text ← formatAtomic units decimals; parseAtomic text decimals) =
      .ok (some (units : Int))) ∧
    (∀ text, (∃ value, parseAtomic text decimals = .ok (some value)) ↔
      ∃ whole frac, Plain (trim text) whole frac ∧ frac.length ≤ decimals) ∧
    (∀ text value, parseAtomic text decimals = .ok (some value) →
      ∃ formatted q, formatAtomic value decimals = .ok formatted ∧ Denotes formatted q ∧
        Denotes (trim text) q) ∧
    ∀ value : Int, ∃ text q, formatAtomic2 value decimals = .ok text ∧ Denotes text q ∧
      q = (100 * value).tdiv (10 ^ decimals) / 100 ∧
        (0 ≤ value → q ≤ value / 10 ^ decimals ∧ value / 10 ^ decimals - q < 1 / 100) := by
  refine ⟨fun units => parseAtomic_formatAtomic units decimals, fun text => ?_,
    fun text value h => ?_, fun value => ?_⟩
  · constructor
    · intro h
      obtain ⟨value, h⟩ := h
      obtain ⟨whole, frac, plain, short, -⟩ := parseAtomic_eq_some.mp h
      exact ⟨whole, frac, plain, short⟩
    · intro h
      obtain ⟨whole, frac, plain, short⟩ := h
      exact ⟨_, parseAtomic_eq_some.mpr ⟨whole, frac, plain, short, rfl⟩⟩
  · obtain ⟨formatted, format, denotes⟩ := formatAtomic_denotes value decimals
    exact ⟨formatted, _, format, denotes, parseAtomic_denotes h⟩
  · obtain ⟨text, format, denotes⟩ := formatAtomic2_denotes value decimals
    exact ⟨text, _, format, denotes, rfl, fun nonneg => truncated_bounds nonneg decimals⟩

/-- The text of a single unit, and of a unit less than two hundredths. -/
theorem money_text_round_trip_single :
    (do let text ← formatAtomic 1 6; parseAtomic text 6) = .ok (some 1) ∧
    (∃ formatted q, formatAtomic 1500000 6 = .ok formatted ∧ Denotes formatted q ∧
      Denotes (trim ("	1.5 ".toList.map fun c => c.toNat.toUInt16)) q) ∧
    ∃ text q, formatAtomic2 19999 6 = .ok text ∧ Denotes text q ∧
      q = (100 * 19999 : Int).tdiv (10 ^ 6) / 100 ∧ q ≤ (19999 : Int) / 10 ^ 6 := by
  obtain ⟨round, -, read, shown⟩ := money_text_round_trip 6
  obtain ⟨text, q, format, denotes, cut, bounds⟩ := shown 19999
  refine ⟨round 1, read _ 1500000 (by decide), text, q, format, denotes, cut,
    (bounds (by decide)).1⟩

end Web

end HexVault
