import Mathlib.Data.List.GetD
import Mathlib.Data.Nat.Bitwise
import Whisperv6.ProofKit.Go

/-! The bits of a byte string by their positions, eight to a byte from the lowest on. -/

namespace Whisperv6.ProofKit

/-- Bit `p` of a byte string: bit `p % 8` of the byte `p / 8`. -/
def bitAt (b : Bytes) (p : Nat) : Bool := (b.getD (p / 8) 0).toNat.testBit (p % 8)

/-- The bits of a byte with one bit. -/
theorem testBit_shift {i j : Nat} (hi : i < 8) (hj : j < 8) :
    ((1 : UInt8) <<< UInt8.ofNat i).toNat.testBit j = decide (j = i) := by
  have hall : ∀ i j : Fin 8,
      ((1 : UInt8) <<< UInt8.ofNat i).toNat.testBit j = decide (j.val = i.val) := by decide
  exact hall ⟨i, hi⟩ ⟨j, hj⟩

/-- A mask with one bit tests that bit. -/
theorem and_shift_bne_zero (x : UInt8) {i : Nat} (hi : i < 8) :
    (x &&& ((1 : UInt8) <<< UInt8.ofNat i) != 0) = x.toNat.testBit i := by
  have hshift : ∀ i : Fin 8, ((1 : UInt8) <<< UInt8.ofNat i).toNat = 2 ^ i.val := by decide
  rw [Bool.eq_iff_iff, bne_iff_ne, ne_eq, ← UInt8.toNat_inj, UInt8.toNat_and,
    hshift ⟨i, hi⟩, Nat.and_two_pow]
  cases x.toNat.testBit i <;> simp

theorem bitAt_of_zero {b : Bytes} {p : Nat} (h : b.getD (p / 8) 0 = 0) : bitAt b p = false := by
  rw [bitAt, h]
  exact Nat.zero_testBit _

/-- A byte that holds the one bit `n`. -/
theorem bitAt_of_shift {b : Bytes} {n p : Nat} (hbyte : n / 8 = p / 8)
    (h : b.getD (n / 8) 0 = 1 <<< UInt8.ofNat (n % 8)) : bitAt b p = decide (p = n) := by
  have hsame : p % 8 = n % 8 ↔ p = n := by omega
  rw [bitAt, ← hbyte, h, testBit_shift (by omega) (by omega), decide_eq_decide]
  exact hsame

theorem bitAt_of_or {a b c : Bytes} {p : Nat}
    (h : c.getD (p / 8) 0 = a.getD (p / 8) 0 ||| b.getD (p / 8) 0) :
    bitAt c p = (bitAt a p || bitAt b p) := by
  rw [bitAt, h, UInt8.toNat_or, Nat.testBit_or]
  rfl

/-- Byte strings of one length with the same bits are the same. -/
theorem eq_of_bitAt {a b : Bytes} (hlen : a.length = b.length)
    (h : ∀ p, p < 8 * a.length → bitAt a p = bitAt b p) : a = b := by
  refine List.ext_getElem hlen fun k ha hb => ?_
  apply UInt8.toNat_inj.mp
  apply Nat.eq_of_testBit_eq
  intro i
  by_cases hi : i < 8
  · have hbit := h (8 * k + i) (by omega)
    have hdiv : (8 * k + i) / 8 = k := by omega
    have hmod : (8 * k + i) % 8 = i := by omega
    rw [bitAt, bitAt, hdiv, hmod, List.getD_eq_getElem _ _ ha, List.getD_eq_getElem _ _ hb] at hbit
    exact hbit
  · have hpow : 2 ^ 8 ≤ 2 ^ i := Nat.pow_le_pow_right (by omega) (by omega)
    have hx := a[k].toNat_lt
    have hy := b[k].toNat_lt
    rw [Nat.testBit_lt_two_pow (by omega), Nat.testBit_lt_two_pow (by omega)]

end Whisperv6.ProofKit
