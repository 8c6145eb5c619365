import Mathlib.Data.List.DropRight
import Mathlib.Data.Nat.Digits.Lemmas
import Mathlib.Data.Rat.Defs
import Mathlib.Algebra.Order.Field.Rat
import Mathlib.Tactic.Ring
import Mathlib.Tactic.FieldSimp

/-!
Decimal numerals as text. A text is the list of its UTF-16 code units, as it is where strings are
indexed by them; numbers are written and read most significant digit first.
-/

namespace Numerals

abbrev Text := List UInt16

def ZERO : UInt16 := 48
def DOT : UInt16 := 46
def MINUS : UInt16 := 45

def isDigit (unit : UInt16) : Bool := 48 ≤ unit && unit ≤ 57

def digitUnit (digit : Nat) : UInt16 := UInt16.ofNat (48 + digit)

def digitOf (unit : UInt16) : Nat := unit.toNat - 48

/-- White space and line ends, as `trim` knows them. -/
def SPACES : List UInt16 :=
  [0x09, 0x0A, 0x0B, 0x0C, 0x0D, 0x20, 0xA0, 0x1680, 0x2000, 0x2001, 0x2002, 0x2003, 0x2004,
    0x2005, 0x2006, 0x2007, 0x2008, 0x2009, 0x200A, 0x2028, 0x2029, 0x202F, 0x205F, 0x3000, 0xFEFF]

def isSpace (unit : UInt16) : Bool := SPACES.contains unit

def trim (text : Text) : Text := (text.dropWhile isSpace).rdropWhile isSpace

/-- The text of a number, without leading zeros. -/
def toText (n : Nat) : Text :=
  if n = 0 then [ZERO] else (Nat.digits 10 n).reverse.map digitUnit

/-- The number a text of digits is. -/
def ofText (text : Text) : Nat := Nat.ofDigits 10 (text.reverse.map digitOf)

/-- A text of digits, at least one. -/
structure IsDigits (text : Text) : Prop where
  some : text ≠ []
  digits : ∀ unit ∈ text, isDigit unit = true

/-- A plain numeral: digits, and where there is a fraction a dot and its digits. -/
structure Plain (text whole frac : Text) : Prop where
  digits : IsDigits whole
  fraction : frac ≠ [] → IsDigits frac
  spelled : text = if frac = [] then whole else whole ++ DOT :: frac

/-- The number that digits before and after a dot denote. -/
def magnitude (whole frac : Text) : ℚ := ofText whole + ofText frac / 10 ^ frac.length

/-- What a numeral denotes, with or without a sign. -/
inductive Denotes : Text → ℚ → Prop
  | plain {text whole frac : Text} (h : Plain text whole frac) :
      Denotes text (magnitude whole frac)
  | minus {text whole frac : Text} (h : Plain text whole frac) :
      Denotes (MINUS :: text) (-magnitude whole frac)

section Digits
variable {text left right : Text} {unit : UInt16}

theorem isDigit_iff : isDigit unit = true ↔ 48 ≤ unit.toNat ∧ unit.toNat ≤ 57 := by
  rw [isDigit, Bool.and_eq_true, decide_eq_true_iff, decide_eq_true_iff, UInt16.le_iff_toNat_le,
    UInt16.le_iff_toNat_le]
  rfl

theorem digitUnit_toNat {digit : Nat} (h : digit < 10) : (digitUnit digit).toNat = 48 + digit := by
  rw [digitUnit, UInt16.toNat_ofNat']
  exact Nat.mod_eq_of_lt (by omega)

theorem isDigit_digitUnit {digit : Nat} (h : digit < 10) : isDigit (digitUnit digit) = true := by
  rw [isDigit_iff, digitUnit_toNat h]
  omega

theorem digitOf_digitUnit {digit : Nat} (h : digit < 10) : digitOf (digitUnit digit) = digit := by
  rw [digitOf, digitUnit_toNat h]
  omega

theorem digitOf_lt (h : isDigit unit = true) : digitOf unit < 10 := by
  rw [isDigit_iff] at h
  rw [digitOf]
  omega

theorem isDigits_zero : IsDigits [ZERO] := by
  refine ⟨nofun, fun unit mem => ?_⟩
  rw [List.mem_singleton.mp mem]
  rfl

theorem isDigits_toText (n : Nat) : IsDigits (toText n) := by
  rw [toText]
  split
  · exact isDigits_zero
  · next positive =>
      constructor
      · intro none
        rw [List.map_eq_nil_iff, List.reverse_eq_nil_iff, Nat.digits_eq_nil_iff_eq_zero] at none
        exact positive none
      · intro unit mem
        obtain ⟨digit, listed, rfl⟩ := List.mem_map.mp mem
        exact isDigit_digitUnit (Nat.digits_lt_base (by decide) (List.mem_reverse.mp listed))

@[simp] theorem ofText_toText (n : Nat) : ofText (toText n) = n := by
  rw [toText]
  split
  · next zero => exact zero ▸ rfl
  · rw [ofText, ← List.map_reverse, List.reverse_reverse, List.map_map]
    have same : (Nat.digits 10 n).map (digitOf ∘ digitUnit) = Nat.digits 10 n := by
      conv_rhs => rw [← List.map_id (Nat.digits 10 n)]
      exact List.map_congr_left fun digit mem =>
        digitOf_digitUnit (Nat.digits_lt_base (by decide) mem)
    rw [same, Nat.ofDigits_digits]

theorem ofText_append : ofText (left ++ right) = ofText left * 10 ^ right.length + ofText right := by
  rw [ofText, List.reverse_append, List.map_append, Nat.ofDigits_append, List.length_map,
    List.length_reverse, ofText, ofText]
  ring

@[simp] theorem ofText_zeros (n : Nat) : ofText (List.replicate n ZERO) = 0 := by
  have zero : digitOf ZERO = 0 := rfl
  rw [ofText, List.reverse_replicate, List.map_replicate, zero, Nat.ofDigits_replicate_zero]

theorem ofText_lt (digits : ∀ unit ∈ text, isDigit unit = true) :
    ofText text < 10 ^ text.length := by
  have bound : ∀ digit ∈ text.reverse.map digitOf, digit < 10 := by
    intro digit mem
    obtain ⟨unit, listed, rfl⟩ := List.mem_map.mp mem
    exact digitOf_lt (digits unit (List.mem_reverse.mp listed))
  have below := Nat.ofDigits_lt_base_pow_length (by decide) bound
  rwa [List.length_map, List.length_reverse] at below

/-- Digits dropped at the end round down. -/
theorem ofText_div (digits : ∀ unit ∈ right, isDigit unit = true) :
    ofText (left ++ right) / 10 ^ right.length = ofText left := by
  rw [ofText_append, Nat.mul_comm, Nat.mul_add_div (Nat.pow_pos (by decide)),
    Nat.div_eq_of_lt (ofText_lt digits), Nat.add_zero]

/-- A number is its digits over the power of ten that the fraction's are. -/
theorem magnitude_eq (whole frac : Text) :
    magnitude whole frac = ofText (whole ++ frac) / 10 ^ frac.length := by
  have power : (10 : ℚ) ^ frac.length ≠ 0 := pow_ne_zero _ (by decide)
  rw [magnitude, ofText_append]
  push_cast
  field_simp

end Digits

/-! Text of digits is not touched by what looks for white space or for a dot. -/

theorem not_isSpace_of_isDigit {unit : UInt16} (digit : isDigit unit = true) :
    isSpace unit = false := by
  have none : SPACES.any isDigit = false := by decide
  rw [isSpace, List.contains_eq_mem, decide_eq_false_iff_not]
  intro mem
  exact Bool.false_ne_true (none.symm.trans (List.any_eq_true.mpr ⟨unit, mem, digit⟩))

theorem trim_eq_self {text : Text} (solid : ∀ unit ∈ text, isSpace unit = false) :
    trim text = text := by
  have first : text.dropWhile isSpace = text := by
    refine List.dropWhile_eq_self_iff.mpr fun some => ?_
    simp [solid _ (List.getElem_mem some)]
  have last : text.rdropWhile isSpace = text := by
    refine List.rdropWhile_eq_self_iff.mpr fun some => ?_
    simp [solid _ (List.getLast_mem some)]
  rw [trim, first, last]

theorem idxOf_append_cons {text rest : Text} {unit : UInt16} (absent : unit ∉ text) :
    (text ++ unit :: rest).idxOf? unit = some text.length := by
  induction text with
  | nil => simp [List.idxOf?_cons]
  | cons first text ih =>
      rw [List.mem_cons, not_or] at absent
      have other : (first == unit) = false := beq_eq_false_iff_ne.mpr (Ne.symm absent.1)
      rw [List.cons_append, List.idxOf?_cons, if_neg (by simp [other]), ih absent.2]
      rfl

section Reading
variable {text whole frac whole' frac' : Text}

theorem not_isDigit_dot : isDigit DOT = false := rfl

theorem IsDigits.dot_not_mem (h : IsDigits text) : DOT ∉ text := fun mem =>
  Bool.false_ne_true (not_isDigit_dot.symm.trans (h.digits _ mem))

theorem IsDigits.takeWhile (h : IsDigits whole) {rest : Text}
    (ends : ∀ unit ∈ rest.head?, isDigit unit = false) :
    (whole ++ rest).takeWhile isDigit = whole ∧ (whole ++ rest).dropWhile isDigit = rest := by
  have all := h.digits
  clear h
  induction whole with
  | nil =>
      cases rest with
      | nil => exact ⟨rfl, rfl⟩
      | cons unit rest =>
          have other : isDigit unit = false := ends unit rfl
          simp [other]
  | cons unit whole ih =>
      have first := all unit (List.mem_cons_self ..)
      obtain ⟨taken, dropped⟩ := ih fun unit mem => all unit (List.mem_cons_of_mem _ mem)
      simp [first, taken, dropped]

/-- The digits a plain numeral starts with are its whole part. -/
theorem Plain.takeWhile (h : Plain text whole frac) : text.takeWhile isDigit = whole ∧
    text.dropWhile isDigit = if frac = [] then [] else DOT :: frac := by
  rw [h.spelled]
  by_cases none : frac = []
  · have split := @IsDigits.takeWhile _ h.digits [] nofun
    rw [List.append_nil] at split
    rw [if_pos none, if_pos none]
    exact split
  · rw [if_neg none, if_neg none]
    refine h.digits.takeWhile fun unit first => ?_
    rw [← Option.mem_some.mp first]
    exact not_isDigit_dot

/-- A numeral is read in one way. -/
theorem Plain.unique (h : Plain text whole frac) (h' : Plain text whole' frac') :
    whole = whole' ∧ frac = frac' := by
  obtain ⟨taken, dropped⟩ := h.takeWhile
  obtain ⟨taken', dropped'⟩ := h'.takeWhile
  refine ⟨taken.symm.trans taken', ?_⟩
  have same := dropped.symm.trans dropped'
  by_cases none : frac = []
  · by_cases none' : frac' = []
    · rw [none, none']
    · rw [if_pos none, if_neg none'] at same
      exact nomatch same
  · by_cases none' : frac' = []
    · rw [if_neg none, if_pos none'] at same
      exact nomatch same
    · rw [if_neg none, if_neg none'] at same
      exact (List.cons.inj same).2

theorem Plain.not_minus {rest : Text} (h : Plain (MINUS :: rest) whole frac) : False := by
  have taken := h.takeWhile.1
  exact h.digits.some (taken.symm.trans rfl)

/-- It has no white space in it. -/
theorem Plain.solid (plain : Plain text whole frac) : ∀ unit ∈ text, isSpace unit = false := by
  intro unit mem
  rw [plain.spelled] at mem
  split at mem
  · exact not_isSpace_of_isDigit (plain.digits.digits unit mem)
  · next some =>
      rcases List.mem_append.mp mem with first | second
      · exact not_isSpace_of_isDigit (plain.digits.digits unit first)
      · rcases List.mem_cons.mp second with rfl | later
        · decide
        · exact not_isSpace_of_isDigit ((plain.fraction some).digits unit later)

/-- And denotes one number. -/
theorem Denotes.unique {q q' : ℚ} (h : Denotes text q) (h' : Denotes text q') : q = q' := by
  cases h with
  | plain h =>
      cases h' with
      | plain h' =>
          obtain ⟨rfl, rfl⟩ := h.unique h'
          rfl
      | minus _ => exact h.not_minus.elim
  | minus h =>
      cases h' with
      | plain h' => exact h'.not_minus.elim
      | minus h' =>
          obtain ⟨rfl, rfl⟩ := h.unique h'
          rfl

end Reading

end Numerals
