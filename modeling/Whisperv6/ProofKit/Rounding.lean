import Mathlib.Algebra.Field.Rat
import Mathlib.Algebra.Order.Field.Basic
import Mathlib.Data.Int.Log
import Mathlib.Data.Rat.Floor
import Mathlib.Tactic.Linarith
import Mathlib.Tactic.Ring
import Whisperv6.ProofKit.Float64

/-! The arithmetic of 64-bit floats: a result is the exact one, rounded to the nearest float, the
even one of two, with gradual underflow and with an infinity beyond the largest float.  Both zeros
are one value here, which counts as positive where a number is divided by it.  The logarithm is
the one of the Go library.

What a program computes with floats often rests on little: that rounding is monotone and that it
keeps the powers of two.  `Arithmetic` is a rounding with these laws; the floats are one, and so is
exact computation. -/

namespace Whisperv6.ProofKit

namespace FloatVal

/-! ### Rounding to a natural number -/

theorem round_natCast (n : Nat) : round n = n := by
  have hfloor : ((n : ℚ).floor).toNat = n := by
    rw [← Int.cast_natCast, Rat.floor_intCast, Int.toNat_natCast]
  unfold round
  dsimp only
  rw [hfloor, sub_self, if_neg]
  norm_num

theorem floor_le_round (q : ℚ) : q.floor.toNat ≤ round q := by
  unfold round
  dsimp only
  split <;> omega

theorem round_le_floor_succ (q : ℚ) : round q ≤ q.floor.toNat + 1 := by
  unfold round
  dsimp only
  split <;> omega

theorem round_mono {p q : ℚ} (h : p ≤ q) : round p ≤ round q := by
  have hfloor : p.floor.toNat ≤ q.floor.toNat := Int.toNat_le_toNat (Rat.floor_monotone h)
  rcases hfloor.lt_or_eq with hlt | heq
  · exact (round_le_floor_succ p).trans (Nat.le_trans hlt (floor_le_round q))
  · -- within one unit the fraction decides, and it is no smaller for `q`
    unfold round
    dsimp only
    rw [heq]
    split
    · rw [if_pos]
      rename_i hp
      rcases hp with hp | ⟨hp, hodd⟩
      · left
        linarith
      · rcases h.lt_or_eq with hpq | rfl
        · left
          linarith
        · exact .inr ⟨hp, hodd⟩
    · split <;> omega

/-! ### The nearest float -/

/-- `q * 2 ^ k`. -/
def scale (q : ℚ) (k : ℤ) : ℚ :=
  if 0 ≤ k then q * (2 ^ k.toNat : Nat) else q / (2 ^ (-k).toNat : Nat)

theorem scale_eq (q : ℚ) (k : ℤ) : scale q k = q * 2 ^ k := by
  unfold scale
  split
  · obtain ⟨n, rfl⟩ := Int.eq_ofNat_of_zero_le ‹0 ≤ k›
    simp
  · obtain ⟨n, hn⟩ := Int.eq_ofNat_of_zero_le (show 0 ≤ -k by omega)
    have hk : k = -(n : ℤ) := by omega
    subst hk
    simp [div_eq_mul_inv]

/-- The exponent of the last place of the floats around a positive `q`: 52 places below the leading
one, and not below the last place of the smallest floats. -/
def lastPlace (q : ℚ) : ℤ := max (Int.log 2 q - 52) (-1074)

/-- The float nearest to a `q` that is not negative, when the exponent may grow without a bound. -/
def nearest (q : ℚ) : ℚ := scale (round (scale q (-lastPlace q))) (lastPlace q)

theorem nearest_eq (q : ℚ) :
    nearest q = round (q * 2 ^ (-lastPlace q)) * 2 ^ lastPlace q := by
  rw [nearest, scale_eq, scale_eq]

theorem two_zpow_pos (k : ℤ) : (0 : ℚ) < 2 ^ k := zpow_pos two_pos k

/-- A multiple of the last place that is not below `q` is not below the float nearest to it. -/
theorem nearest_le_of_le {q : ℚ} {n : Nat} (h : q ≤ n * 2 ^ lastPlace q) :
    nearest q ≤ n * 2 ^ lastPlace q := by
  have hscaled : q * 2 ^ (-lastPlace q) ≤ n := by
    rw [zpow_neg, ← div_eq_mul_inv, div_le_iff₀ (two_zpow_pos _)]
    exact h
  have hround : round (q * 2 ^ (-lastPlace q)) ≤ n := by
    have hmono := round_mono hscaled
    rwa [round_natCast] at hmono
  rw [nearest_eq]
  exact mul_le_mul_of_nonneg_right (by exact_mod_cast hround) (two_zpow_pos _).le

theorem le_nearest_of_le {q : ℚ} {n : Nat} (h : n * 2 ^ lastPlace q ≤ q) :
    n * 2 ^ lastPlace q ≤ nearest q := by
  have hscaled : (n : ℚ) ≤ q * 2 ^ (-lastPlace q) := by
    rw [zpow_neg, ← div_eq_mul_inv, le_div_iff₀ (two_zpow_pos _)]
    exact h
  have hround : n ≤ round (q * 2 ^ (-lastPlace q)) := by
    have hmono := round_mono hscaled
    rwa [round_natCast] at hmono
  rw [nearest_eq]
  exact mul_le_mul_of_nonneg_right (by exact_mod_cast hround) (two_zpow_pos _).le

/-- A power of two is a multiple of every smaller one. -/
theorem two_zpow_eq_mul {k l : ℤ} (h : l ≤ k) :
    (2 : ℚ) ^ k = (2 ^ (k - l).toNat : Nat) * 2 ^ l := by
  have hk : k = ((k - l).toNat : ℤ) + l := by omega
  nth_rewrite 1 [hk]
  rw [zpow_add₀ two_ne_zero, zpow_natCast]
  push_cast
  rfl

theorem nearest_nonneg (q : ℚ) : 0 ≤ nearest q := by
  rw [nearest_eq]
  exact mul_nonneg (Nat.cast_nonneg _) (two_zpow_pos _).le

theorem nearest_zero : nearest 0 = 0 := by
  have hround : round 0 = 0 := by exact_mod_cast round_natCast 0
  rw [nearest_eq, zero_mul, hround, Nat.cast_zero, zero_mul]

/-- Rounding is monotone: among floats with one last place since rounding to natural numbers is,
and between two last places stands a power of two, which is a multiple of both. -/
theorem nearest_mono {p q : ℚ} (hp : 0 ≤ p) (h : p ≤ q) : nearest p ≤ nearest q := by
  rcases hp.lt_or_eq with hp | rfl
  · have hlog : Int.log 2 p ≤ Int.log 2 q := Int.log_mono_right hp h
    have hplace : lastPlace p ≤ lastPlace q := by
      unfold lastPlace
      omega
    rcases hplace.lt_or_eq with hlt | heq
    · have hlastq : lastPlace q = Int.log 2 q - 52 := by
        unfold lastPlace at hlt ⊢
        omega
      have hlogs : Int.log 2 p < Int.log 2 q := by
        unfold lastPlace at hlt
        omega
      have hpk : p < (2 : ℚ) ^ Int.log 2 q := by
        exact_mod_cast (Int.lt_zpow_iff_log_lt one_lt_two hp).mpr hlogs
      have hqk : (2 : ℚ) ^ Int.log 2 q ≤ q := by
        exact_mod_cast Int.zpow_log_le_self one_lt_two (hp.trans_le h)
      have hq := two_zpow_eq_mul (k := Int.log 2 q) (l := lastPlace q) (by omega)
      have hp := two_zpow_eq_mul (k := Int.log 2 q) (l := lastPlace p) (by omega)
      calc nearest p ≤ 2 ^ Int.log 2 q := by
            rw [hp] at hpk ⊢
            exact nearest_le_of_le hpk.le
        _ ≤ nearest q := by
            rw [hq] at hqk ⊢
            exact le_nearest_of_le hqk
    · rw [nearest_eq, nearest_eq, heq]
      have hscaled := mul_le_mul_of_nonneg_right h (two_zpow_pos (-lastPlace q)).le
      exact mul_le_mul_of_nonneg_right (by exact_mod_cast round_mono hscaled) (two_zpow_pos _).le
  · rw [nearest_zero]
    exact nearest_nonneg q

theorem nearest_two_zpow {k : ℤ} (hk : -1022 ≤ k) : nearest (2 ^ k) = 2 ^ k := by
  have hlog : Int.log 2 ((2 : ℚ) ^ k) = k := by exact_mod_cast Int.log_zpow (R := ℚ) one_lt_two k
  have hplace : lastPlace (2 ^ k) = k - 52 := by
    unfold lastPlace
    rw [hlog]
    omega
  have hmul := two_zpow_eq_mul (k := k) (l := lastPlace (2 ^ k)) (by omega)
  refine le_antisymm ?_ ?_
  · nth_rewrite 2 [hmul]
    exact nearest_le_of_le hmul.le
  · nth_rewrite 1 [hmul]
    exact le_nearest_of_le hmul.ge

/-- The float nearest to `q`. -/
def ofRat (q : ℚ) : FloatVal :=
  let magnitude := nearest |q|
  if (2 ^ 1024 : Nat) ≤ magnitude then inf (decide (q < 0))
  else fin (if q < 0 then -magnitude else magnitude)

theorem ofRat_of_nonneg {q : ℚ} (h : 0 ≤ q) :
    ofRat q = if (2 ^ 1024 : Nat) ≤ nearest q then inf false else fin (nearest q) := by
  have hneg : ¬ q < 0 := not_lt.mpr h
  unfold ofRat
  dsimp only
  rw [abs_of_nonneg h, if_neg hneg, decide_eq_false hneg]

theorem ofRat_zero : ofRat 0 = zero := by decide +kernel

theorem ofRat_le_ofRat {p q : ℚ} (hp : 0 ≤ p) (h : p ≤ q) : (ofRat p).le (ofRat q) = true := by
  have hmono := nearest_mono hp h
  rw [ofRat_of_nonneg hp, ofRat_of_nonneg (hp.trans h)]
  by_cases hpbig : (2 ^ 1024 : Nat) ≤ nearest p
  · rw [if_pos hpbig, if_pos (hpbig.trans hmono)]
    rfl
  · rw [if_neg hpbig]
    split
    · rfl
    · exact decide_eq_true hmono

theorem ofRat_two_zpow {k : ℤ} (hmin : -1022 ≤ k) (hmax : k ≤ 1023) :
    ofRat (2 ^ k) = fin (2 ^ k) := by
  rw [ofRat_of_nonneg (two_zpow_pos k).le, nearest_two_zpow hmin, if_neg]
  have hlt : (2 : ℚ) ^ k < 2 ^ (1024 : ℤ) := zpow_lt_zpow_right₀ one_lt_two (by omega)
  rw [not_le]
  exact_mod_cast hlt

/-! ### Operations -/

section

-- how an exact result is rounded
variable (rounded : ℚ → FloatVal)

def add : FloatVal → FloatVal → FloatVal
  | nan, _ => nan
  | _, nan => nan
  | inf a, inf b => if a = b then inf a else nan
  | inf a, fin _ => inf a
  | fin _, inf b => inf b
  | fin p, fin q => rounded (p + q)

def neg : FloatVal → FloatVal
  | nan => nan
  | inf a => inf (!a)
  | fin p => fin (-p)

def sub (a b : FloatVal) : FloatVal := add rounded a b.neg

def mul : FloatVal → FloatVal → FloatVal
  | nan, _ => nan
  | _, nan => nan
  | inf a, inf b => inf (a != b)
  | inf a, fin q => if q = 0 then nan else inf (a != decide (q < 0))
  | fin p, inf b => if p = 0 then nan else inf (decide (p < 0) != b)
  | fin p, fin q => rounded (p * q)

def div : FloatVal → FloatVal → FloatVal
  | nan, _ => nan
  | _, nan => nan
  | inf _, inf _ => nan
  | inf a, fin q => inf (a != decide (q < 0))
  | fin _, inf _ => zero
  | fin p, fin q =>
    if q = 0 then if p = 0 then nan else inf (decide (p < 0)) else rounded (p / q)

end

/-! ### Logarithms -/

/-- `Frexp` of a positive `q`: a fraction in `[1/2, 1)` and the exponent of the power of two that it
is multiplied with. -/
def frexp (q : ℚ) : ℚ × ℤ :=
  let exp := Int.log 2 q + 1
  (scale q (-exp), exp)

/-- `Log` of a positive float: with `x = 2^k * (1 + f)` for a `1 + f` between the square roots of
1/2 and of 2, a polynomial in `s = f / (2 + f)` approximates `log (1 + f)`. -/
def log (x : ℚ) : FloatVal :=
  let (frac, exp) := frexp x
  let small := (fin frac).lt (Float64.value 0x3FE6A09E667F3BCD)
  let f1 := if small then frac * 2 else frac
  let k := ofRat (if small then exp - 1 else exp)
  let f := sub ofRat (fin f1) (fin 1)
  let s := div ofRat f (add ofRat (fin 2) f)
  let s2 := mul ofRat s s
  let s4 := mul ofRat s2 s2
  let step (l : Float64) (t : FloatVal) := add ofRat (Float64.value l) (mul ofRat s4 t)
  let t1 := mul ofRat s2 (step 0x3FE5555555555593 (step 0x3FD2492494229359
    (step 0x3FC7466496CB03DE (Float64.value 0x3FC2F112DF3E5244))))
  let t2 := mul ofRat s4 (step 0x3FD999999997FA04 (step 0x3FCC71C51D8E78AF
    (Float64.value 0x3FC39A09D078C69F)))
  let r := add ofRat t1 t2
  let hfsq := mul ofRat (mul ofRat (fin (1 / 2)) f) f
  let ln2Hi := Float64.value 0x3FE62E42FEE00000
  let ln2Lo := Float64.value 0x3DEA39EF35793C76
  sub ofRat (mul ofRat k ln2Hi) (sub ofRat (sub ofRat hfsq
    (add ofRat (mul ofRat s (add ofRat hfsq r)) (mul ofRat k ln2Lo))) f)

/-- `Log2`: exact for the powers of two, and otherwise `Log(frac) * (1/Ln2) + exp`. -/
def log2 : FloatVal → FloatVal
  | nan => nan
  | inf negative => if negative then nan else inf false
  | fin q =>
    if q < 0 then nan
    else if q = 0 then inf true
    else
      let (frac, exp) := frexp q
      if frac = 1 / 2 then ofRat (exp - 1)
      else add ofRat (mul ofRat (log frac) (Float64.value 0x3FF71547652B82FE)) (ofRat exp)

/-- `int(Ceil(x))`.  The conversion of a NaN or an infinity gives the least integer, as it does on
amd64. -/
def ceil : FloatVal → ℤ
  | fin q => q.ceil
  | _ => -2 ^ 63

end FloatVal

/-! ### Arithmetic -/

/-- A way to compute with floats: how an exact result is rounded, and `int(Ceil(Log2(x)))`. -/
structure Arithmetic where
  round : ℚ → FloatVal
  ceilLog2 : FloatVal → ℤ
  round_zero : round 0 = .zero
  round_le_round : ∀ {p q : ℚ}, 0 ≤ p → p ≤ q → (round p).le (round q) = true
  round_two_zpow : ∀ {k : ℤ}, -1022 ≤ k → k ≤ 1023 → round (2 ^ k) = .fin (2 ^ k)

namespace Arithmetic

/-- The arithmetic of the machine. -/
def float64 : Arithmetic where
  round := .ofRat
  ceilLog2 x := x.log2.ceil
  round_zero := FloatVal.ofRat_zero
  round_le_round := FloatVal.ofRat_le_ofRat
  round_two_zpow := FloatVal.ofRat_two_zpow

/-- Computation without rounding. -/
def exact : Arithmetic where
  round := .fin
  ceilLog2
    | .fin q => if 0 < q then Int.clog 2 q else -2 ^ 63
    | _ => -2 ^ 63
  round_zero := rfl
  round_le_round _ h := decide_eq_true h
  round_two_zpow _ _ := rfl

section

variable (A : Arithmetic)

/-- `float64(n)` for an `int` that is not negative, so at most `2^63 - 1`. -/
def ofInt (n : Nat) : FloatVal := A.round (min n (2 ^ 63 - 1) : Nat)

def mul (x y : FloatVal) : FloatVal := FloatVal.mul A.round x y

def div (x y : FloatVal) : FloatVal := FloatVal.div A.round x y

/-- What stands between two powers of two is rounded to a number between them. -/
theorem round_between {q : ℚ} {a b : ℤ} (ha : -1022 ≤ a) (hb : b ≤ 1023) (haq : 2 ^ a ≤ q)
    (hqb : q ≤ 2 ^ b) : ∃ r, A.round q = .fin r ∧ 2 ^ a ≤ r ∧ r ≤ 2 ^ b := by
  have hab : a ≤ b := (zpow_le_zpow_iff_right₀ (one_lt_two (α := ℚ))).mp (haq.trans hqb)
  have hlow := A.round_le_round (FloatVal.two_zpow_pos a).le haq
  have hhigh := A.round_le_round ((FloatVal.two_zpow_pos a).le.trans haq) hqb
  rw [A.round_two_zpow ha (by omega)] at hlow
  rw [A.round_two_zpow (by omega) hb] at hhigh
  cases hround : A.round q with
  | nan => rw [hround] at hlow; cases hlow
  | inf s =>
    rw [hround] at hlow hhigh
    cases s with
    | false => cases hhigh
    | true => cases hlow
  | fin r =>
    rw [hround] at hlow hhigh
    exact ⟨r, rfl, of_decide_eq_true hlow, of_decide_eq_true hhigh⟩

theorem round_ne_nan {q : ℚ} (h : 0 ≤ q) : A.round q ≠ .nan := by
  intro hnan
  have hle := A.round_le_round h le_rfl
  rw [hnan] at hle
  cases hle

theorem ofInt_zero : A.ofInt 0 = .zero := by
  rw [ofInt, Nat.zero_min, Nat.cast_zero]
  exact A.round_zero

theorem ofInt_pos {n : Nat} (h : 0 < n) : ∃ r, A.ofInt n = .fin r ∧ 1 ≤ r ∧ r ≤ 2 ^ 63 := by
  have hlow : (2 : ℚ) ^ (0 : ℤ) ≤ (min n (2 ^ 63 - 1) : Nat) := by
    rw [zpow_zero]
    exact_mod_cast Nat.le_min.mpr ⟨h, by decide⟩
  have hhigh : ((min n (2 ^ 63 - 1) : Nat) : ℚ) ≤ 2 ^ (63 : ℤ) := by
    have hmin : min n (2 ^ 63 - 1) ≤ 2 ^ 63 := (Nat.min_le_right _ _).trans (Nat.sub_le _ _)
    exact_mod_cast hmin
  obtain ⟨r, hr, hle, hge⟩ := A.round_between (by decide) (by decide) hlow hhigh
  exact ⟨r, hr, by simpa using hle, by exact_mod_cast hge⟩

theorem ofInt_le_ofInt {m n : Nat} (h : m ≤ n) : (A.ofInt m).le (A.ofInt n) = true := by
  refine A.round_le_round (Nat.cast_nonneg _) ?_
  exact_mod_cast Nat.le_min.mpr ⟨(Nat.min_le_left _ _).trans h, Nat.min_le_right _ _⟩

variable {x y : ℚ}

/-- A quotient by 0 is infinite. -/
theorem div_ofInt_zero (hx : 0 < x) : A.div (.fin x) (A.ofInt 0) = .inf false := by
  rw [ofInt_zero, div, FloatVal.zero, FloatVal.div, if_pos rfl, if_neg hx.ne',
    decide_eq_false (not_lt.mpr hx.le)]

theorem div_ofInt_eq {d : Nat} {r : ℚ} (hr : A.ofInt d = .fin r) (hpos : 0 < r) :
    A.div (.fin x) (A.ofInt d) = A.round (x / r) := by
  rw [hr, div, FloatVal.div, if_neg hpos.ne']

/-- A quotient by a positive integer is at most the dividend, and smaller by at most the size of an
integer. -/
theorem div_ofInt_pos {a b : ℤ} (ha : -959 ≤ a) (hb : b ≤ 1023) (hax : 2 ^ a ≤ x) (hxb : x ≤ 2 ^ b)
    {d : Nat} (hd : 0 < d) :
    ∃ r, A.div (.fin x) (A.ofInt d) = .fin r ∧ 2 ^ (a - 63) ≤ r ∧ r ≤ 2 ^ b := by
  obtain ⟨r, hr, hone, hbig⟩ := A.ofInt_pos hd
  have hrpos : 0 < r := one_pos.trans_le hone
  have hx : 0 < x := (FloatVal.two_zpow_pos a).trans_le hax
  rw [A.div_ofInt_eq hr hrpos]
  refine A.round_between (by omega) hb ?_ ((div_le_self hx.le hone).trans hxb)
  rw [zpow_sub₀ two_ne_zero, le_div_iff₀ hrpos]
  calc (2 : ℚ) ^ a / 2 ^ (63 : ℤ) * r ≤ 2 ^ a / 2 ^ (63 : ℤ) * 2 ^ (63 : ℤ) := by
        refine mul_le_mul_of_nonneg_left ?_ ?_
        · exact_mod_cast hbig
        · exact div_nonneg (FloatVal.two_zpow_pos a).le (FloatVal.two_zpow_pos 63).le
    _ = 2 ^ a := div_mul_cancel₀ _ (FloatVal.two_zpow_pos 63).ne'
    _ ≤ x := hax

/-- A quotient grows when its divisor shrinks, down to the infinity at the divisor 0. -/
theorem div_ofInt_anti (hx : 0 < x) {d e : Nat} (hde : d = 0 ∨ 0 < e ∧ d ≤ e) :
    (A.div (.fin x) (A.ofInt e)).le (A.div (.fin x) (A.ofInt d)) = true := by
  rcases Nat.eq_zero_or_pos d with rfl | hd
  · rw [A.div_ofInt_zero hx]
    rcases Nat.eq_zero_or_pos e with rfl | he
    · rw [A.div_ofInt_zero hx]
      rfl
    · obtain ⟨r, hr, hone, -⟩ := A.ofInt_pos he
      have hrpos : 0 < r := one_pos.trans_le hone
      rw [A.div_ofInt_eq hr hrpos]
      exact FloatVal.le_posInf (A.round_ne_nan (div_pos hx hrpos).le)
  · obtain ⟨he, hle⟩ := hde.resolve_left hd.ne'
    obtain ⟨r, hr, hone, -⟩ := A.ofInt_pos hd
    obtain ⟨t, ht, -, -⟩ := A.ofInt_pos he
    have hrt : r ≤ t := by
      have hmono := A.ofInt_le_ofInt hle
      rw [hr, ht] at hmono
      exact of_decide_eq_true hmono
    have hrpos : 0 < r := one_pos.trans_le hone
    rw [A.div_ofInt_eq hr hrpos, A.div_ofInt_eq ht (hrpos.trans_le hrt)]
    exact A.round_le_round (div_pos hx (hrpos.trans_le hrt)).le
      (div_le_div_of_nonneg_left hx.le hrpos hrt)

theorem div_ofInt_mono (hx : 0 < x) (h : x ≤ y) (d : Nat) :
    (A.div (.fin x) (A.ofInt d)).le (A.div (.fin y) (A.ofInt d)) = true := by
  rcases Nat.eq_zero_or_pos d with rfl | hd
  · rw [A.div_ofInt_zero hx, A.div_ofInt_zero (hx.trans_le h)]
    rfl
  · obtain ⟨r, hr, hone, -⟩ := A.ofInt_pos hd
    have hrpos : 0 < r := one_pos.trans_le hone
    rw [A.div_ofInt_eq hr hrpos, A.div_ofInt_eq hr hrpos]
    exact A.round_le_round (div_pos hx hrpos).le (div_le_div_of_nonneg_right h hrpos.le)

end

end Arithmetic

end Whisperv6.ProofKit
