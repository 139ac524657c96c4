import Mathlib.Algebra.Order.Ring.Rat

/-! The 64-bit floats of IEEE 754, by their bits and by their values.  A value is exact: the finite
values are rationals, and a division by zero gives an infinity.  The comparisons are those of the
standard, so every comparison with a NaN is false. -/

namespace Whisperv6.ProofKit

/-- The value of a float: a NaN, an infinity, or a rational. -/
inductive FloatVal
  | nan
  | inf (negative : Bool)
  | fin (q : ℚ)
  deriving DecidableEq

namespace FloatVal

/-- `a < b`. -/
def lt : FloatVal → FloatVal → Bool
  | nan, _ => false
  | _, nan => false
  | inf a, inf b => a && !b
  | inf a, fin _ => a
  | fin _, inf b => !b
  | fin p, fin q => decide (p < q)

/-- `a ≤ b`. -/
def le : FloatVal → FloatVal → Bool
  | nan, _ => false
  | _, nan => false
  | inf a, inf b => a || !b
  | inf a, fin _ => a
  | fin _, inf b => !b
  | fin p, fin q => decide (p ≤ q)

/-- `0.0`. -/
def zero : FloatVal := fin 0

/-- The nearest natural number to a non-negative rational, the even one of two. -/
def round (q : ℚ) : Nat :=
  let n := q.floor.toNat
  if 1 / 2 < q - n ∨ q - n = 1 / 2 ∧ n % 2 = 1 then n + 1 else n

/-- `%f`: six digits after the point. -/
def format : FloatVal → String
  | nan => "NaN"
  | inf negative => if negative then "-Inf" else "+Inf"
  | fin q =>
    let n := round (|q| * 10 ^ 6)
    let digits := toString (n % 10 ^ 6)
    (if q < 0 then "-" else "") ++ toString (n / 10 ^ 6) ++ "." ++
      String.ofList (List.replicate (6 - digits.length) '0') ++ digits

theorem lt_eq_not_le {a b : FloatVal} (ha : a ≠ nan) (hb : b ≠ nan) : a.lt b = !b.le a := by
  cases a with
  | nan => exact absurd rfl ha
  | inf s =>
    cases b with
    | nan => exact absurd rfl hb
    | inf t => cases s <;> cases t <;> rfl
    | fin q => cases s <;> rfl
  | fin p =>
    cases b with
    | nan => exact absurd rfl hb
    | inf t => cases t <;> rfl
    | fin q => simp only [lt, le, ← not_le, decide_not]

theorem not_lt_of_le {a b : FloatVal} (h : a.le b = true) : b.lt a = false := by
  cases a with
  | nan => simp [le] at h
  | inf s =>
    cases b with
    | nan => simp [le] at h
    | inf t => cases s <;> cases t <;> simp_all [lt, le]
    | fin q => cases s <;> simp_all [lt, le]
  | fin p =>
    cases b with
    | nan => simp [le] at h
    | inf t => cases t <;> simp_all [lt, le]
    | fin q => simpa [lt, le] using h

theorem le_trans {a b c : FloatVal} (hab : a.le b = true) (hbc : b.le c = true) :
    a.le c = true := by
  cases a with
  | nan => simp [le] at hab
  | inf s =>
    cases b with
    | nan => simp [le] at hab
    | inf t => cases c <;> cases s <;> cases t <;> simp_all [le]
    | fin q => cases c <;> cases s <;> simp_all [le]
  | fin p =>
    cases b with
    | nan => simp [le] at hab
    | inf t => cases c <;> cases t <;> simp_all [le]
    | fin q =>
      cases c with
      | nan => simp [le] at hbc
      | inf u => simpa [le] using hbc
      | fin r =>
        simp only [le, decide_eq_true_eq] at hab hbc ⊢
        exact hab.trans hbc

theorem lt_asymm {a b : FloatVal} (h : a.lt b = true) : b.lt a = false := by
  cases a with
  | nan => simp [lt] at h
  | inf s =>
    cases b with
    | nan => simp [lt] at h
    | inf t => cases s <;> cases t <;> simp_all [lt]
    | fin q => cases s <;> simp_all [lt]
  | fin p =>
    cases b with
    | nan => simp [lt] at h
    | inf t => cases t <;> simp_all [lt]
    | fin q =>
      simp only [lt, decide_eq_true_eq, decide_eq_false_iff_not, not_lt] at h ⊢
      exact h.le

theorem lt_irrefl (a : FloatVal) : a.lt a = false := by
  cases a with
  | nan => rfl
  | inf s => cases s <;> rfl
  | fin q => simp [lt]

/-- What is not below `b` is not below `c`, when `b` is not. -/
theorem not_lt_trans {a b c : FloatVal} (hb : b ≠ nan) (hab : a.lt b = false)
    (hbc : b.lt c = false) : a.lt c = false := by
  cases b with
  | nan => exact absurd rfl hb
  | inf s => cases a <;> cases c <;> cases s <;> simp_all [lt]
  | fin q =>
    cases a with
    | nan => rfl
    | inf t => cases c <;> simp_all [lt]
    | fin p =>
      cases c with
      | nan => rfl
      | inf u => exact hbc
      | fin r =>
        simp only [lt, decide_eq_false_iff_not, not_lt] at hab hbc ⊢
        exact hbc.trans hab

/-- Nothing is below what the least infinity is not below. -/
theorem not_lt_of_negInf {a c : FloatVal} (h : (inf true).lt c = false) : a.lt c = false := by
  cases c with
  | nan => cases a <;> rfl
  | inf u => cases a <;> simp_all [lt]
  | fin r => simp [lt] at h

theorem le_posInf {a : FloatVal} (h : a ≠ nan) : a.le (inf false) = true := by
  cases a with
  | nan => exact absurd rfl h
  | inf s => cases s <;> rfl
  | fin q => rfl

theorem nan_le (a : FloatVal) : nan.le a = false := by cases a <;> rfl

theorem lt_nan (a : FloatVal) : a.lt nan = false := by cases a <;> rfl

end FloatVal

/-- A `float64`, by its bits. -/
abbrev Float64 := BitVec 64

namespace Float64

/-- The value of a float: sign bit, 11 bits of exponent, 52 bits of fraction. -/
def value (b : Float64) : FloatVal :=
  let exponent := b.toNat / 2 ^ 52 % 2 ^ 11
  let fraction := b.toNat % 2 ^ 52
  if exponent = 2047 then
    if fraction = 0 then .inf b.msb else .nan
  else
    let significand := if exponent = 0 then fraction else fraction + 2 ^ 52
    let magnitude : ℚ := (significand * 2 ^ max exponent 1 : Nat) / (2 ^ 1075 : Nat)
    .fin (if b.msb then -magnitude else magnitude)

def isNaN (b : Float64) : Bool := decide (b.value = .nan)

/-- `IsInf` for either sign. -/
def isInf (b : Float64) : Bool := decide (b.value = .inf false) || decide (b.value = .inf true)

end Float64

end Whisperv6.ProofKit
