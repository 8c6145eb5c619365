import Mathlib.Data.Int.Order.Basic
import Mathlib.Tactic.Common

/-!
Fallible computations: guards, checked arithmetic on bounded integers, and the
inversion lemmas that take a successful computation apart. Nothing here depends
on what the computation is about; the error type is a parameter throughout.
-/

namespace Fallible

universe u v
variable {ε : Type u} {α β : Type v}

/-- A guard: nothing when the condition holds, the given error otherwise. -/
def require (p : Prop) [Decidable p] (e : ε) : Except ε Unit :=
  if p then .ok () else .error e

/-- Reads an optional value, or fails. -/
def load (x : Option α) (e : ε) : Except ε α :=
  match x with
  | some a => .ok a
  | none => .error e

/-- A sequence succeeds exactly when both of its parts do. -/
theorem bind_eq_ok {x : Except ε α} {f : α → Except ε β} {b : β} :
    (x >>= f) = .ok b ↔ ∃ a, x = .ok a ∧ f a = .ok b := by
  constructor
  · intro h
    cases x with
    | error e => exact nomatch h
    | ok a => exact ⟨a, rfl, h⟩
  · rintro ⟨a, rfl, hf⟩
    exact hf

/-- A sequence fails when its first part does, or its second after it. -/
theorem bind_eq_error {x : Except ε α} {f : α → Except ε β} {e : ε} :
    (x >>= f) = .error e ↔ x = .error e ∨ ∃ a, x = .ok a ∧ f a = .error e := by
  constructor
  · intro h
    cases x with
    | error e' => exact .inl (by cases h; rfl)
    | ok a => exact .inr ⟨a, rfl, h⟩
  · rintro (rfl | ⟨a, rfl, hf⟩)
    · rfl
    · exact hf

theorem pure_eq_ok {a b : α} : (pure a : Except ε α) = .ok b ↔ a = b := by
  simp [pure, Except.pure]

theorem pure_eq_error {a : α} {e : ε} : (pure a : Except ε α) = .error e ↔ False := by
  simp [pure, Except.pure]

@[simp] theorem ok_bind (a : α) (f : α → Except ε β) : (Except.ok a >>= f) = f a := rfl

@[simp] theorem error_bind (e : ε) (f : α → Except ε β) :
    ((Except.error e : Except ε α) >>= f) = .error e := rfl

theorem require_eq_ok {p : Prop} [Decidable p] {e : ε} {u : Unit} :
    require p e = .ok u ↔ p := by
  unfold require
  split <;> simp_all

theorem require_eq_error {p : Prop} [Decidable p] {e e' : ε} :
    require p e = .error e' ↔ ¬ p ∧ e = e' := by
  unfold require
  split <;> simp_all

theorem load_eq_ok {x : Option α} {e : ε} {a : α} : load x e = .ok a ↔ x = some a := by
  cases x <;> simp [load]

theorem load_eq_error {x : Option α} {e e' : ε} :
    load x e = .error e' ↔ x = none ∧ e = e' := by
  cases x <;> simp [load]

/-- A computation that ends in a value. -/
def Returns (x : Except ε α) : Prop := ∃ a, x = .ok a

namespace Returns

theorem pure (a : α) : Returns (pure a : Except ε α) := ⟨a, rfl⟩

theorem bind {x : Except ε α} {f : α → Except ε β} {a : α} (hx : x = .ok a)
    (h : Returns (f a)) : Returns (x >>= f) := by
  obtain ⟨b, hb⟩ := h
  exact ⟨b, bind_eq_ok.mpr ⟨a, hx, hb⟩⟩

theorem check {β : Type} {x : Except ε Unit} {f : Unit → Except ε β} (hx : x = .ok ())
    (h : Returns (f ())) : Returns (x >>= f) :=
  bind hx h

theorem guard {β : Type} {p : Prop} [Decidable p] {e : ε} {f : Unit → Except ε β} (hp : p)
    (h : Returns (f ())) : Returns (require p e >>= f) :=
  bind (require_eq_ok.mpr hp) h

end Returns

theorem returns_bind {x : Except ε α} {f : α → Except ε β} :
    Returns (x >>= f) ↔ ∃ a, x = .ok a ∧ Returns (f a) := by
  constructor
  · intro h
    obtain ⟨b, hb⟩ := h
    obtain ⟨a, hx, hf⟩ := bind_eq_ok.mp hb
    exact ⟨a, hx, b, hf⟩
  · intro h
    obtain ⟨a, hx, hf⟩ := h
    exact .bind hx hf

theorem returns_pure {a : α} : Returns (pure a : Except ε α) ↔ True :=
  iff_true_intro (.pure a)

theorem returns_ite {p : Prop} [Decidable p] {x y : Except ε α} :
    Returns (if p then x else y) ↔ (p → Returns x) ∧ (¬ p → Returns y) := by
  by_cases h : p <;> simp [h]

theorem returns_ok {a : α} : Returns (.ok a : Except ε α) ↔ True := iff_true_intro ⟨a, rfl⟩

/-- A check that passed on the result of a computation was a check of some result. -/
theorem exists_of_any {x : Except ε α} {p : α → Bool} (h : x.toOption.any p = true) :
    ∃ a, x = .ok a ∧ p a = true := by
  cases x with
  | error e => exact nomatch h
  | ok a => exact ⟨a, rfl, h⟩

/-- Computations with the same values and the one error are the same. -/
theorem eq_of_ok_iff {x y : Except ε α} {e : ε} (ok : ∀ a, x = .ok a ↔ y = .ok a)
    (left : ∀ e', x = .error e' → e' = e) (right : ∀ e', y = .error e' → e' = e) : x = y := by
  cases hx : x with
  | ok a => exact ((ok a).mp hx).symm
  | error e' =>
      cases hy : y with
      | ok a => exact absurd (hx.symm.trans ((ok a).mpr hy)) nofun
      | error e'' => rw [left e' hx, right e'' hy]

theorem ok_of_toOption {x : Except ε α} {a : α} (h : x.toOption = some a) : x = .ok a := by
  cases x with
  | error e => exact nomatch h
  | ok b => exact congrArg Except.ok (Option.some.inj h)

/-- `checked_add` on an unsigned integer type whose values are below `limit`. -/
def checkedAdd (limit : Nat) (e : ε) (a b : Nat) : Except ε Nat :=
  if a + b < limit then .ok (a + b) else .error e

/-- `checked_mul` on an unsigned integer type whose values are below `limit`. -/
def checkedMul (limit : Nat) (e : ε) (a b : Nat) : Except ε Nat :=
  if a * b < limit then .ok (a * b) else .error e

/-- `checked_sub` on an unsigned integer type. -/
def checkedSub (e : ε) (a b : Nat) : Except ε Nat :=
  if b ≤ a then .ok (a - b) else .error e

/-- A conversion into an unsigned integer type whose values are below `limit`. -/
def narrow (limit : Nat) (e : ε) (a : Nat) : Except ε Nat :=
  if a < limit then .ok a else .error e

/-- A result of a signed operation, accepted when it lies in `[-limit, limit)`. -/
def checkedSigned (limit : Int) (e : ε) (x : Int) : Except ε Int :=
  if -limit ≤ x ∧ x < limit then .ok x else .error e

section Inversion

variable {limit : Nat} {e : ε} {a b c : Nat}

private theorem ite_eq_ok {p : Prop} [Decidable p] {e : ε} {x y : α} :
    (if p then .ok x else .error e : Except ε α) = .ok y ↔ p ∧ y = x := by
  by_cases h : p <;> simp [h, eq_comm]

private theorem ite_eq_error {p : Prop} [Decidable p] {e e' : ε} {x : α} :
    (if p then .ok x else .error e : Except ε α) = .error e' ↔ ¬ p ∧ e = e' := by
  by_cases h : p <;> simp [h]

theorem checkedAdd_eq_error {e' : ε} :
    checkedAdd limit e a b = .error e' ↔ ¬ a + b < limit ∧ e = e' := ite_eq_error

theorem checkedMul_eq_error {e' : ε} :
    checkedMul limit e a b = .error e' ↔ ¬ a * b < limit ∧ e = e' := ite_eq_error

theorem checkedSub_eq_error {e' : ε} :
    checkedSub e a b = .error e' ↔ ¬ b ≤ a ∧ e = e' := ite_eq_error

theorem narrow_eq_error {e' : ε} :
    narrow limit e a = .error e' ↔ ¬ a < limit ∧ e = e' := ite_eq_error

theorem checkedSigned_eq_error {limit x : Int} {e' : ε} :
    checkedSigned limit e x = .error e' ↔ ¬(-limit ≤ x ∧ x < limit) ∧ e = e' := ite_eq_error

theorem checkedAdd_eq_ok : checkedAdd limit e a b = .ok c ↔ a + b < limit ∧ c = a + b :=
  ite_eq_ok

theorem checkedMul_eq_ok : checkedMul limit e a b = .ok c ↔ a * b < limit ∧ c = a * b :=
  ite_eq_ok

theorem checkedSub_eq_ok : checkedSub e a b = .ok c ↔ b ≤ a ∧ c = a - b :=
  ite_eq_ok

theorem narrow_eq_ok : narrow limit e a = .ok c ↔ a < limit ∧ c = a :=
  ite_eq_ok

theorem checkedSigned_eq_ok {limit x y : Int} :
    checkedSigned limit e x = .ok y ↔ (-limit ≤ x ∧ x < limit) ∧ y = x :=
  ite_eq_ok

end Inversion

end Fallible
