import Mathlib.Tactic.Ring
import Whisperv6.ProofKit.Go

/-! Byte strings as Go programs cut and read them: indexing and slicing, which panic out of range,
and integers in little endian byte order. -/

namespace Whisperv6.ProofKit

/-- `b[i]`. -/
def index (b : Bytes) (i : Int) : Except Fault UInt8 :=
  if 0 ≤ i then
    match b[i.toNat]? with
    | some x => .ok x
    | none => .error .panic
  else .error .panic

/-- `b[i:j]`. -/
def slice (b : Bytes) (i j : Int) : Except Fault Bytes :=
  if 0 ≤ i ∧ i ≤ j ∧ j ≤ b.length then .ok ((b.drop i.toNat).take (j - i).toNat)
  else .error .panic

theorem slice_ok {b : Bytes} {i j : Int} (hi : 0 ≤ i) (hij : i ≤ j) (hj : j ≤ b.length) :
    slice b i j = .ok ((b.drop i.toNat).take (j - i).toNat) := if_pos ⟨hi, hij, hj⟩

theorem slice_append {b x y z : Bytes} {i j : Int} (hb : b = x ++ (y ++ z))
    (hi : i = x.length) (hj : j = x.length + y.length) : slice b i j = .ok y := by
  subst hb hi hj
  have hlen : ((x ++ (y ++ z)).length : Int) = x.length + y.length + z.length := by
    simp
    omega
  rw [slice_ok (by omega) (by omega) (by omega)]
  have hcount : ((x.length : Int) + y.length - x.length).toNat = y.length := by omega
  rw [hcount, Int.toNat_natCast, List.drop_left, List.take_left]

/-- The `k` low bytes of `n`, the lowest first. -/
def leBytes : (k n : Nat) → Bytes
  | 0, _ => []
  | k + 1, n => UInt8.ofNat n :: leBytes k (n / 256)

/-- The number that bytes stand for, the lowest first. -/
def leValue : Bytes → Nat
  | [] => 0
  | x :: rest => x.toNat + 256 * leValue rest

@[simp] theorem length_leBytes (k n : Nat) : (leBytes k n).length = k := by
  induction k generalizing n with
  | zero => rfl
  | succ k ih => simp [leBytes, ih]

theorem leBytes_append (k m n : Nat) :
    leBytes (k + m) n = leBytes k n ++ leBytes m (n / 256 ^ k) := by
  induction k generalizing n with
  | zero => simp [leBytes]
  | succ k ih =>
    have hsum : k + 1 + m = (k + m) + 1 := by omega
    have hdiv : n / 256 / 256 ^ k = n / 256 ^ (k + 1) := by
      rw [Nat.div_div_eq_div_mul, Nat.pow_succ, Nat.mul_comm]
    rw [hsum, leBytes, leBytes, ih, hdiv, List.cons_append]

theorem leValue_leBytes (k n : Nat) : leValue (leBytes k n) = n % 256 ^ k := by
  induction k generalizing n with
  | zero => simp [leBytes, leValue, Nat.mod_one]
  | succ k ih =>
    rw [leBytes, leValue, ih, Nat.pow_succ, Nat.mul_comm (256 ^ k), Nat.mod_mul]
    simp

theorem leBytes_eq_map (k n : Nat) :
    leBytes k n = (List.range k).map fun j => UInt8.ofNat (n / 256 ^ j) := by
  induction k generalizing n with
  | zero => rfl
  | succ k ih =>
    rw [leBytes, ih, List.range_succ_eq_map, List.map_cons, List.map_map]
    simp [Function.comp_def, Nat.pow_succ', Nat.div_div_eq_div_mul]

theorem leValue_lt (b : Bytes) : leValue b < 256 ^ b.length := by
  induction b with
  | nil => simp [leValue]
  | cons x rest ih =>
    have hx := x.toNat_lt
    rw [leValue, List.length_cons, Nat.pow_succ]
    omega

theorem leBytes_leValue (b : Bytes) : leBytes b.length (leValue b) = b := by
  induction b with
  | nil => rfl
  | cons x rest ih =>
    have hx := x.toNat_lt
    have hdiv : (x.toNat + 256 * leValue rest) / 256 = leValue rest := by omega
    have hhead : UInt8.ofNat (x.toNat + 256 * leValue rest) = x := by
      apply UInt8.toNat_inj.mp
      simp
    rw [List.length_cons, leBytes, leValue, hdiv, ih, hhead]

theorem leValue_append (a b : Bytes) :
    leValue (a ++ b) = leValue a + 256 ^ a.length * leValue b := by
  induction a with
  | nil => simp [leValue]
  | cons x rest ih =>
    rw [List.cons_append, leValue, ih, leValue, List.length_cons, Nat.pow_succ]
    ring

end Whisperv6.ProofKit
