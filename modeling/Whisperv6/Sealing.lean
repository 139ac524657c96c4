import Mathlib.Data.List.Iterate
import Mathlib.Order.Bounds.Defs
import Whisperv6.Pool
import Whisperv6.ProofKit.RlpStream
import Whisperv6.ProofKit.Search

/-! What `Seal` finds: the least nonce that reaches the target, or the best one of those it tried.
The target is computed with the constant header length of `size`, the proof of work with the length
of the encoded fields, so reaching the target is not always enough for the requested work. -/

namespace Whisperv6.Envelope

open ProofKit

/-! ### The nonces -/

/-- The nonce is one of those that `rounds` rounds go through. -/
def Tried (rounds : Nat) (n : UInt64) : Prop := ∃ i < 1024 * rounds, n = UInt64.ofNat i

def nonces (rounds : Nat) : List UInt64 := List.iterate (· + 1) 0 (1024 * rounds)

theorem iterate_succ_zero (i : Nat) : (· + 1)^[i] (0 : UInt64) = UInt64.ofNat i := by
  induction i with
  | zero => rfl
  | succ i ih => rw [Function.iterate_succ_apply', ih, UInt64.ofNat_add]; rfl

theorem mem_nonces {rounds : Nat} {n : UInt64} : n ∈ nonces rounds ↔ Tried rounds n := by
  simp only [nonces, List.mem_iterate, iterate_succ_zero, Tried]

theorem nonces_get {rounds i : Nat} (hi : i < (nonces rounds).length) :
    (nonces rounds)[i] = UInt64.ofNat i := by
  rw [← iterate_succ_zero]
  exact List.getElem_iterate _ _ _ _ _

/-- The first nonce with a property is the least one: when the counter wraps, it has gone through
all the nonces. -/
theorem isLeast_of_find {rounds : Nat} {p : UInt64 → Bool} {n : UInt64}
    (h : (nonces rounds).find? p = some n) : IsLeast {m | Tried rounds m ∧ p m = true} n := by
  obtain ⟨hp, i, hi, hn, hfirst⟩ := List.find?_eq_some_iff_getElem.mp h
  refine ⟨⟨mem_nonces.mp (List.mem_of_find?_eq_some h), hp⟩, fun m hm => ?_⟩
  by_contra hlt
  rw [UInt64.not_le, UInt64.lt_iff_toNat_lt] at hlt
  rw [nonces_get] at hn
  have hle : n.toNat ≤ i := by
    rw [← hn, UInt64.toNat_ofNat']
    exact Nat.mod_le _ _
  have hskip := hfirst m.toNat (by omega)
  rw [nonces_get, UInt64.ofNat_toNat, hm.2] at hskip
  exact absurd hskip (by decide)

theorem search_eq_seek (zeros : UInt64 → Nat) (target tries : Nat) (nonce found : UInt64)
    (best : Nat) : search zeros target tries nonce found best =
      seek zeros target (List.iterate (· + 1) nonce tries) found best := by
  induction tries generalizing nonce found best with
  | zero => rfl
  | succ tries ih =>
    rw [search, List.iterate, seek, ih, ih]

theorem search_target (zeros : UInt64 → Nat) {target : Nat} (htarget : 0 < target) (rounds : Nat)
    (found : UInt64) :
    (∃ n, IsLeast {m | Tried rounds m ∧ target ≤ zeros m} n ∧
      search zeros target (1024 * rounds) 0 found 0 = (n, zeros n, true)) ∨
    (∀ n, Tried rounds n → zeros n < target) ∧
      ∃ n b, b < target ∧ search zeros target (1024 * rounds) 0 found 0 = (n, b, false) := by
  rw [search_eq_seek, ← nonces]
  cases hfind : (nonces rounds).find? (target ≤ zeros ·) with
  | some n =>
    left
    exact ⟨n, by simpa using isLeast_of_find hfind, seek_of_find hfind found htarget⟩
  | none =>
    right
    have hlt : ∀ n ∈ nonces rounds, zeros n < target := by simpa using hfind
    exact ⟨fun n hn => hlt n (mem_nonces.mpr hn), seek_of_lt hlt found htarget⟩

theorem search_free (zeros : UInt64 → Nat) (rounds : Nat) (found : UInt64) :
    (∀ n, Tried rounds n → zeros n = 0) ∧
      search zeros 0 (1024 * rounds) 0 found 0 = (found, 0, false) ∨
    ∃ n, 0 < zeros n ∧
      IsLeast {m | Tried rounds m ∧ ∀ k, Tried rounds k → zeros k ≤ zeros m} n ∧
      search zeros 0 (1024 * rounds) 0 found 0 = (n, zeros n, false) := by
  rw [search_eq_seek, ← nonces]
  rcases seek_zero zeros (nonces rounds) found 0 with ⟨hle, hseek⟩ | ⟨n, hpos, hmax, hfind, hseek⟩
  · left
    exact ⟨fun n hn => Nat.le_zero.mp (hle n (mem_nonces.mpr hn)), hseek⟩
  · right
    have hmax' : ∀ k, Tried rounds k → zeros k ≤ zeros n := fun k hk => hmax k (mem_nonces.mpr hk)
    have hleast := isLeast_of_find hfind
    refine ⟨n, hpos, ⟨⟨hleast.1.1, hmax'⟩, fun m hm => hleast.2 ⟨hm.1, ?_⟩⟩, hseek⟩
    exact decide_eq_true (hm.2 n hleast.1.1)

/-! ### `Seal` -/

/-- The leading zeros that `Seal` counts for a nonce. -/
def sealZeros (C : Crypto) (e : Envelope) (options : MessageParams) (n : UInt64) : Nat :=
  leadingZeros C (e.postpone options).rlpWithoutNonce n

/-- The envelope as `Seal` leaves it, also when it returns an error. -/
def afterSeal (C : Crypto) (e : Envelope) (options : MessageParams) (rounds : Nat) : Envelope :=
  if options.pow.value = .zero then e
  else
    { e.postpone options with
      nonce := (search (e.sealZeros C options) (e.sealTarget C.float options) (1024 * rounds) 0
        (e.postpone options).nonce 0).1 }

/-- The bytes that `calculatePoW` hashes. -/
def powInput (e : Envelope) : Bytes := e.rlpWithoutNonce ++ putUint64 e.nonce

section

variable {C : Crypto} {e : Envelope} {options : MessageParams} {rounds : Nat}

theorem sealEnvelope_afterSeal {e' : Envelope} (h : sealEnvelope C e options rounds = .ok e') :
    e' = afterSeal C e options rounds := by
  unfold sealEnvelope at h
  unfold afterSeal
  split at h
  · rw [if_pos ‹_›]
    cases h
    rfl
  · rw [if_neg ‹_›]
    dsimp only at h
    split at h
    · cases h
    · cases h
      rfl

theorem powToFirstBit_pos (A : Arithmetic) (e : Envelope) (pow : Float64) :
    0 < e.powToFirstBit A pow := by
  unfold powToFirstBit
  dsimp only
  omega

theorem sealTarget_pos_iff {A : Arithmetic} :
    0 < e.sealTarget A options ↔ options.pow.value.lt .zero = false := by
  unfold sealTarget
  cases options.pow.value.lt .zero with
  | true => simp
  | false => simp [powToFirstBit_pos]

theorem postpone_of_target {A : Arithmetic} (h : 0 < e.sealTarget A options) :
    e.postpone options = e := by
  rw [sealTarget_pos_iff] at h
  rw [postpone, h]
  rfl

/-- With a target, `Seal` stores the least nonce that reaches it, or fails. -/
theorem sealEnvelope_target (C : Crypto) (rounds : Nat) (hpow : options.pow.value ≠ .zero)
    (htarget : 0 < e.sealTarget C.float options) :
    (∃ n, IsLeast {m | Tried rounds m ∧ e.sealTarget C.float options ≤ e.sealZeros C options m} n ∧
      sealEnvelope C e options rounds = .ok { e with nonce := n }) ∨
    (∀ n, Tried rounds n → e.sealZeros C options n < e.sealTarget C.float options) ∧
      ∃ err, sealEnvelope C e options rounds = .error (.error err) := by
  unfold sealEnvelope sealZeros
  rw [if_neg hpow]
  dsimp only
  rw [postpone_of_target htarget]
  rcases search_target (leadingZeros C e.rlpWithoutNonce) htarget rounds e.nonce with
    ⟨n, hn, hsearch⟩ | ⟨hlt, n, b, hb, hsearch⟩
  · left
    rw [hsearch]
    exact ⟨n, hn, rfl⟩
  · right
    rw [hsearch]
    refine ⟨hlt, _, if_pos ?_⟩
    simp [htarget, hb]

/-- Without a target, `Seal` adds the work time to the expiry and stores the least of the best
nonces, if one of them has a leading zero. -/
theorem sealEnvelope_free (C : Crypto) (e : Envelope) (rounds : Nat)
    (hpow : options.pow.value.lt .zero = true) :
    ∃ n, sealEnvelope C e options rounds =
        .ok { e with expiry := e.expiry + options.workTime, nonce := n } ∧
      ((∀ m, Tried rounds m → e.sealZeros C options m = 0) ∧ n = e.nonce ∨
        0 < e.sealZeros C options n ∧
        IsLeast {m | Tried rounds m ∧
          ∀ k, Tried rounds k → e.sealZeros C options k ≤ e.sealZeros C options m} n) := by
  have hne : options.pow.value ≠ .zero := by
    intro hzero
    rw [hzero, FloatVal.lt_irrefl] at hpow
    cases hpow
  have htarget : e.sealTarget C.float options = 0 := by rw [sealTarget, hpow]; rfl
  have hpostpone : e.postpone options = { e with expiry := e.expiry + options.workTime } := by
    rw [postpone, hpow]
    rfl
  unfold sealEnvelope sealZeros
  rw [if_neg hne]
  dsimp only
  rw [htarget, hpostpone]
  rcases search_free (leadingZeros C
    { e with expiry := e.expiry + options.workTime }.rlpWithoutNonce) rounds e.nonce with
    ⟨hzero, hsearch⟩ | ⟨n, hpos, hleast, hsearch⟩
  · rw [hsearch]
    exact ⟨e.nonce, rfl, .inl ⟨hzero, rfl⟩⟩
  · rw [hsearch]
    exact ⟨n, rfl, .inr ⟨hpos, hleast⟩⟩

end

/-- What `Seal` finds, and that the proof of work is later computed from the bytes that `Seal`
hashed. -/
theorem sealEnvelope_finds (C : Crypto) (e : Envelope) (options : MessageParams) (rounds : Nat)
    (hpow : options.pow.value ≠ .zero) :
    (0 < e.sealTarget C.float options →
      ((∃ n, Tried rounds n ∧ e.sealTarget C.float options ≤ e.sealZeros C options n) →
        ∃ n, sealEnvelope C e options rounds = .ok { e with nonce := n } ∧
          IsLeast {m | Tried rounds m ∧ e.sealTarget C.float options ≤ e.sealZeros C options m} n) ∧
      ((¬ ∃ n, Tried rounds n ∧ e.sealTarget C.float options ≤ e.sealZeros C options n) →
        ∃ err, sealEnvelope C e options rounds = .error (.error err))) ∧
    (options.pow.value.lt .zero = true →
      ∃ n, sealEnvelope C e options rounds =
          .ok { e with expiry := e.expiry + options.workTime, nonce := n } ∧
        ((∀ m, Tried rounds m → e.sealZeros C options m = 0) → n = e.nonce) ∧
        ((∃ m, Tried rounds m ∧ 0 < e.sealZeros C options m) →
          IsLeast {m | Tried rounds m ∧
            ∀ k, Tried rounds k → e.sealZeros C options k ≤ e.sealZeros C options m} n)) ∧
    (∀ e', sealEnvelope C e options rounds = .ok e' → e' = afterSeal C e options rounds) ∧
    (afterSeal C e options rounds).powInput =
      (e.postpone options).rlpWithoutNonce ++ putUint64 (afterSeal C e options rounds).nonce ∧
    ∀ diff, ((afterSeal C e options rounds).calculatePoW C diff).powCache =
      powOf C.float (e.sealZeros C options (afterSeal C e options rounds).nonce)
        (e.postpone options).rlpWithoutNonce.length (e.ttl + diff).toNat := by
  have hafter : (afterSeal C e options rounds).rlpWithoutNonce =
      (e.postpone options).rlpWithoutNonce ∧ (afterSeal C e options rounds).ttl = e.ttl := by
    rw [afterSeal, if_neg hpow]
    refine ⟨rfl, ?_⟩
    unfold postpone
    split <;> rfl
  refine ⟨fun htarget => ?_, fun hneg => ?_, fun e' => sealEnvelope_afterSeal, ?_, fun diff => ?_⟩
  · rcases sealEnvelope_target C rounds hpow htarget with
      ⟨n, hleast, hok⟩ | ⟨hlt, herr⟩
    · exact ⟨fun _ => ⟨n, hok, hleast⟩, fun hnone => absurd ⟨n, hleast.1⟩ hnone⟩
    · refine ⟨fun ⟨n, hn, hzeros⟩ => ?_, fun _ => herr⟩
      exact absurd (hlt n hn) (by omega)
  · obtain ⟨n, hok, hcases⟩ := sealEnvelope_free C e rounds hneg
    refine ⟨n, hok, fun hzero => ?_, fun ⟨m, hm, hpos⟩ => ?_⟩
    · rcases hcases with ⟨-, hn⟩ | ⟨hpos, hleast⟩
      · exact hn
      · have := hzero n hleast.1.1
        omega
    · rcases hcases with ⟨hzero, -⟩ | ⟨-, hleast⟩
      · have := hzero m hm
        omega
      · exact hleast
  · rw [powInput, hafter.1]
  · rw [calculatePoW_eq, sealZeros, hafter.1, hafter.2]

/-- Options that ask for a proof of work. -/
def workParams (pow : Float64) : MessageParams where
  ttl := 50
  src := none
  dst := none
  keySym := none
  topic := sampleEnvelope.topic
  workTime := 5
  pow := pow
  payload := []
  padding := []

theorem sealEnvelope_finds_sample :
    ∃ n, sealEnvelope sampleCrypto sampleEnvelope (workParams 0x3FF0000000000000) 1 =
        .ok { sampleEnvelope with nonce := n } ∧
      IsLeast {m | Tried 1 m ∧ 11 ≤ sealZeros sampleCrypto sampleEnvelope
        (workParams 0x3FF0000000000000) m} n := by
  have htarget : sampleEnvelope.sealTarget sampleCrypto.float (workParams 0x3FF0000000000000) =
      11 := by decide +kernel
  have hfinds := (sealEnvelope_finds sampleCrypto sampleEnvelope
    (workParams 0x3FF0000000000000) 1 (by decide +kernel)).1
  rw [htarget] at hfinds
  exact (hfinds (by decide)).1 ⟨0, ⟨0, by decide, rfl⟩, by decide +kernel⟩

-- just above 2^13 the rounded logarithm is 13, and beyond the largest float there is no target
example : sampleEnvelope.powToFirstBit .float64 0x401B4E81B4E81B50 = 13 ∧
    sampleEnvelope.powToFirstBit .exact 0x401B4E81B4E81B50 = 14 ∧
    sampleEnvelope.powToFirstBit .float64 0x7FEFFFFFFFFFFFFF = 1 := by decide +kernel

/-! ### The requested work -/

/-- The proof of work of an envelope with exactly the leading zeros that `Seal` looks for. -/
def powAtTarget (A : Arithmetic) (e : Envelope) (pow : Float64) : FloatVal :=
  if e.powCache = .zero then
    powOf A (e.powToFirstBit A pow) e.rlpWithoutNonce.length e.ttl.toNat
  else e.powCache

/-- What `Seal` returns has the requested proof of work, and a node that asks for that much does
not refuse it for its work from the second on in which it was sent.  Target and proof of work are
computed with the arithmetic `A`: exactly, or as the machine does. -/
def MeetsPow (A : Arithmetic) (e : Envelope) (options : MessageParams) : Prop :=
  ∀ C rounds e', C.float = A → sealEnvelope C e options rounds = .ok e' →
    options.pow.value.le (e'.pow C) = true ∧
    ∀ (w : Whisper) (now : UInt32) isP2P, w.settings.getMinPow = options.pow →
      e'.expiry - e'.ttl ≤ now → (w.add C now e' isP2P).2 ≠ .error .lowPow

/-- A hash with `zeros` leading zeros for every input. -/
def steadyCrypto (A : Arithmetic) (zeros : Nat) : Crypto :=
  { sampleCrypto with
    float := A
    keccak256Hash := fun _ => if 256 ≤ zeros then 0 else BitVec.ofNat 256 (2 ^ (255 - zeros)) }

theorem leadingZeros_steadyCrypto (A : Arithmetic) {zeros : Nat} (h : zeros ≤ 256) (rlp : Bytes)
    (n : UInt64) : leadingZeros (steadyCrypto A zeros) rlp n = zeros := by
  unfold leadingZeros steadyCrypto
  dsimp only
  by_cases hall : 256 ≤ zeros
  · rw [if_pos hall]
    simp [bitLen]
    omega
  · have hlt : 2 ^ (255 - zeros) < 2 ^ 256 := Nat.pow_lt_pow_right (by decide) (by omega)
    have hpos : 2 ^ (255 - zeros) ≠ 0 := (Nat.pow_pos (by decide)).ne'
    rw [if_neg hall, BitVec.toNat_ofNat, Nat.mod_eq_of_lt hlt, bitLen, if_neg hpos,
      Nat.log2_two_pow]
    omega

section

variable {A : Arithmetic} {e : Envelope} {options : MessageParams}

theorem sealTarget_of_pos (hpow : FloatVal.zero.lt options.pow.value = true) :
    e.sealTarget A options = e.powToFirstBit A options.pow := by
  rw [sealTarget, FloatVal.lt_asymm hpow]
  rfl

theorem value_ne_zero_of_pos (hpow : FloatVal.zero.lt options.pow.value = true) :
    options.pow.value ≠ .zero := by
  intro hzero
  rw [hzero, FloatVal.lt_irrefl] at hpow
  cases hpow

/-- The proof of work depends on the nonce only through the leading zeros. -/
theorem pow_nonce (C : Crypto) (e : Envelope) (n : UInt64) :
    ({ e with nonce := n } : Envelope).pow C = if e.powCache = .zero then
      powOf C.float (leadingZeros C e.rlpWithoutNonce n) e.rlpWithoutNonce.length e.ttl.toNat
    else e.powCache := by
  unfold pow fillPoW
  dsimp only
  split
  · rw [calculatePoW_eq, UInt32.add_zero]
    rfl
  · rfl

theorem powAtTarget_le_pow {C : Crypto} {n : UInt64} {pow : Float64}
    (hzeros : e.powToFirstBit C.float pow ≤ leadingZeros C e.rlpWithoutNonce n)
    (hpow : pow.value.le (e.powAtTarget C.float pow) = true) :
    pow.value.le (({ e with nonce := n } : Envelope).pow C) = true := by
  rw [pow_nonce]
  unfold powAtTarget at hpow
  split at hpow
  · rw [if_pos ‹_›]
    exact FloatVal.le_trans hpow (powOf_mono C.float hzeros (leadingZeros_le C _ _)
      e.length_rlpWithoutNonce_pos _)
  · rw [if_neg ‹_›]
    exact hpow

/-- A node does not refuse for its work what has the work that it asks for. -/
theorem add_ne_lowPow {C : Crypto} {w : Whisper} {now : UInt32} {isP2P : Bool}
    (hsent : e.expiry - e.ttl ≤ now) (hpow : w.settings.getMinPow.value.le (e.pow C) = true) :
    (w.add C now e isP2P).2 ≠ .error .lowPow := by
  intro hadd
  have hadjust : e.adjust C now = e := if_neg (UInt32.not_lt.mpr hsent)
  obtain ⟨-, hlow, -⟩ := Settings.check_lowPow (Whisper.add_error_iff.mp hadd)
  rw [hadjust, FloatVal.not_lt_of_le hpow] at hlow
  cases hlow

/-- `Seal` meets a positive request exactly when the target is out of reach of every hash, or the
target itself is enough work for the encoded fields. -/
theorem meetsPow_iff (A : Arithmetic) (e : Envelope) (options : MessageParams)
    (hpow : FloatVal.zero.lt options.pow.value = true) :
    MeetsPow A e options ↔ 256 < e.powToFirstBit A options.pow ∨
      options.pow.value.le (e.powAtTarget A options.pow) = true := by
  have htarget := sealTarget_of_pos (A := A) (e := e) hpow
  have hne := value_ne_zero_of_pos hpow
  have hpos : 0 < e.sealTarget A options := sealTarget_pos_iff.mpr (FloatVal.lt_asymm hpow)
  have hzeros : ∀ C n, e.sealZeros C options n = leadingZeros C e.rlpWithoutNonce n := by
    intro C n
    rw [sealZeros, postpone_of_target hpos]
  constructor
  · intro hmeets
    by_cases hbig : 256 < e.powToFirstBit A options.pow
    · exact .inl hbig
    · right
      have hsteady := leadingZeros_steadyCrypto A (Nat.le_of_not_lt hbig) e.rlpWithoutNonce
      rcases sealEnvelope_target (steadyCrypto A (e.powToFirstBit A options.pow)) 1 hne hpos with
        ⟨n, -, hok⟩ | ⟨hlt, -⟩
      · have hpow' := (hmeets _ _ _ rfl hok).1
        rwa [pow_nonce, hsteady] at hpow'
      · have hzero := hlt 0 ⟨0, by decide, rfl⟩
        have htarget' : e.sealTarget (steadyCrypto A (e.powToFirstBit A options.pow)).float
            options = e.powToFirstBit A options.pow := htarget
        rw [hzeros, hsteady, htarget'] at hzero
        omega
  · rintro hcond C rounds e' rfl hok
    rcases sealEnvelope_target C rounds hne hpos with
      ⟨n, hleast, hseal⟩ | ⟨-, err, herr⟩
    · rw [hseal] at hok
      cases hok
      have hreach := hleast.1.2
      rw [hzeros, htarget] at hreach
      have hbound := leadingZeros_le C e.rlpWithoutNonce n
      have hwork := powAtTarget_le_pow hreach (hcond.resolve_left (by omega))
      exact ⟨hwork, fun w now isP2P hmin hsent => add_ne_lowPow hsent (hmin ▸ hwork)⟩
    · rw [herr] at hok
      cases hok

/-! ### Sizes -/

theorem exact_ofInt (n : Nat) : Arithmetic.exact.ofInt n = .fin (min n (2 ^ 63 - 1) : Nat) := rfl

/-- Computed exactly, the target is reached by `2^target ≥ pow * size * TTL`. -/
theorem le_two_pow_powToFirstBit {pow : Float64} {q : ℚ} (hq : pow.value = .fin q) :
    q * (min e.size (2 ^ 63 - 1) : Nat) * (min e.ttl.toNat (2 ^ 63 - 1) : Nat) ≤
      2 ^ e.powToFirstBit .exact pow := by
  have hbits : e.powToFirstBit .exact pow = (max 1 (Arithmetic.exact.ceilLog2 (.fin
      (q * (min e.size (2 ^ 63 - 1) : Nat) * (min e.ttl.toNat (2 ^ 63 - 1) : Nat))))).toNat := by
    unfold powToFirstBit
    rw [hq, exact_ofInt, exact_ofInt]
    rfl
  rw [hbits]
  generalize q * (min e.size (2 ^ 63 - 1) : Nat) * (min e.ttl.toNat (2 ^ 63 - 1) : Nat) = x
  rcases lt_or_ge 0 x with hx | hx
  · have hlog : Arithmetic.exact.ceilLog2 (.fin x) = Int.clog 2 x := if_pos hx
    rw [hlog, ← zpow_natCast, Int.toNat_of_nonneg (by omega)]
    calc x ≤ 2 ^ Int.clog 2 x := by exact_mod_cast Int.self_le_zpow_clog one_lt_two x
      _ ≤ 2 ^ max 1 (Int.clog 2 x) := zpow_le_zpow_right₀ one_le_two (le_max_right _ _)
  · exact hx.trans (pow_pos two_pos _).le

/-- The exact target is enough for a finite request when the encoded fields are not longer than the
size that the target is computed from. -/
theorem le_powAtTarget {pow : Float64} {q : ℚ} (hfresh : e.powCache = .zero)
    (hq : pow.value = .fin q) (hpos : 0 < q) (hlen : e.rlpWithoutNonce.length ≤ e.size) :
    pow.value.le (e.powAtTarget .exact pow) = true := by
  have htarget := le_two_pow_powToFirstBit (e := e) hq
  rw [powAtTarget, if_pos hfresh, powOf, exact_ofInt, exact_ofInt, hq]
  generalize e.powToFirstBit .exact pow = target at htarget ⊢
  generalize hn : min e.rlpWithoutNonce.length (2 ^ 63 - 1) = n
  have hnpos : (0 : ℚ) < n := by
    have hlenpos := e.length_rlpWithoutNonce_pos
    exact_mod_cast (show 0 < n by omega)
  have hnsize : (n : ℚ) ≤ (min e.size (2 ^ 63 - 1) : Nat) := by
    exact_mod_cast (show n ≤ min e.size (2 ^ 63 - 1) by omega)
  generalize (min e.size (2 ^ 63 - 1)) = size at htarget hnsize
  generalize (min e.ttl.toNat (2 ^ 63 - 1)) = ttl at htarget
  have hwork : Arithmetic.exact.div (.fin (2 ^ target)) (.fin (n : ℚ)) = .fin (2 ^ target / n) :=
    if_neg hnpos.ne'
  rw [hwork]
  rcases Nat.eq_zero_or_pos ttl with rfl | httl
  · have hinf : Arithmetic.exact.div (.fin (2 ^ target / n)) (.fin ((0 : Nat) : ℚ)) =
        .inf false := by
      have hdividend : (2 : ℚ) ^ target / n ≠ 0 := (div_pos (pow_pos two_pos _) hnpos).ne'
      have hsign : ¬ (2 : ℚ) ^ target / n < 0 := (div_pos (pow_pos two_pos _) hnpos).not_gt
      rw [Arithmetic.div, FloatVal.div, if_pos Nat.cast_zero, if_neg hdividend,
        decide_eq_false hsign]
    rw [hinf]
    rfl
  · have httl' : (0 : ℚ) < ttl := by exact_mod_cast httl
    have hpow : Arithmetic.exact.div (.fin (2 ^ target / n)) (.fin (ttl : ℚ)) =
        .fin (2 ^ target / n / ttl) := if_neg httl'.ne'
    rw [hpow]
    refine decide_eq_true ?_
    rw [le_div_iff₀ httl', le_div_iff₀ hnpos]
    calc q * ttl * n ≤ q * ttl * size := mul_le_mul_of_nonneg_left hnsize (mul_pos hpos httl').le
      _ = q * size * ttl := by ring
      _ ≤ 2 ^ target := htarget

/-- The encoded fields are not longer than `size` for little data, or for a small TTL and data that
a node accepts. -/
theorem length_rlpWithoutNonce_le (h : e.data.length < 2 ^ 8 ∨
    e.ttl.toNat < 2 ^ 24 ∧ e.size < 2 ^ 16 ∨ e.ttl.toNat < 2 ^ 8 ∧ e.size < 2 ^ 24) :
    e.rlpWithoutNonce.length ≤ e.size := by
  have htopic : Rlp.stringSize e.topic.toList = 5 := by
    rw [Rlp.stringSize_of_length_ne_one] <;> simp [Rlp.headsize]
  have hexpiry := Rlp.uintSize_le_of_lt (k := 4) (by decide) (by decide) e.expiry.toNat_lt
  have hdata := Rlp.stringSize_le_headsize e.data
  have hsize : e.size = 20 + e.data.length := rfl
  have hbytes : e.rlpWithoutNonce.length = Rlp.listSize (Rlp.uintSize e.expiry.toNat +
      Rlp.uintSize e.ttl.toNat + 5 + Rlp.stringSize e.data) := by
    rw [rlpWithoutNonce, Rlp.length_encodeList]
    simp [Rlp.length_encodeUint, Rlp.length_encodeString, htopic, Nat.add_assoc]
  -- the widths of the TTL, of the header of the data and of the header of the list
  obtain ⟨ttl, data, list, httl, hhead, hlist, hsum⟩ : ∃ ttl data list,
      Rlp.uintSize e.ttl.toNat ≤ 1 + ttl ∧ Rlp.headsize e.data.length ≤ 1 + data ∧
      (∀ k, k ≤ 12 + ttl + data + e.data.length → Rlp.headsize k ≤ 1 + list) ∧
      ttl + data + list ≤ 7 := by
    rcases h with h | ⟨httl, hs⟩ | ⟨httl, hs⟩
    · exact ⟨4, 1, 2, Rlp.uintSize_le_of_lt (by decide) (by decide) e.ttl.toNat_lt,
        Rlp.headsize_le_of_lt (by decide) (by decide) h,
        fun k hk => Rlp.headsize_le_of_lt (by decide) (by decide) (by omega), by decide⟩
    · exact ⟨3, 2, 2, Rlp.uintSize_le_of_lt (by decide) (by decide) httl,
        Rlp.headsize_le_of_lt (by decide) (by decide) (by omega),
        fun k hk => Rlp.headsize_le_of_lt (by decide) (by decide) (by omega), by decide⟩
    · exact ⟨1, 3, 3, Rlp.uintSize_le_of_lt (by decide) (by decide) httl,
        Rlp.headsize_le_of_lt (by decide) (by decide) (by omega),
        fun k hk => Rlp.headsize_le_of_lt (by decide) (by decide) (by omega), by decide⟩
  have hheader := hlist (Rlp.uintSize e.expiry.toNat + Rlp.uintSize e.ttl.toNat + 5 +
    Rlp.stringSize e.data) (by omega)
  rw [hbytes, Rlp.listSize]
  omega

end

theorem meetsPow_iff_sample :
    MeetsPow .exact sampleEnvelope (workParams 0x3FF0000000000000) ∧
    MeetsPow .float64 sampleEnvelope (workParams 0x3FF0000000000000) := by
  refine ⟨?_, ?_⟩
  · exact (meetsPow_iff .exact sampleEnvelope (workParams 0x3FF0000000000000)
      (by decide +kernel)).mpr (.inr (le_powAtTarget (q := 1) rfl (by decide +kernel) one_pos
        (length_rlpWithoutNonce_le (.inl (by decide)))))
  · exact (meetsPow_iff .float64 sampleEnvelope (workParams 0x3FF0000000000000)
      (by decide +kernel)).mpr (.inr (by decide +kernel))

/-- An envelope with a long life and 256 bytes of data, whose encoded fields have one byte more
than its `size`. -/
def heavyEnvelope : Envelope :=
  { sampleEnvelope with
    expiry := 1616777216, ttl := 16777216, data := List.replicate 256 0, nonce := 0 }

/-- Sealed for a proof of work of 237/128, it is left with 512/277, and a node that asks for 237/128
refuses it in the second in which it was sent. -/
theorem not_meetsPow_heavy :
    sealEnvelope (steadyCrypto .exact 33) heavyEnvelope (workParams 0x3FFDA00000000000) 1 =
      .ok heavyEnvelope ∧
    (workParams 0x3FFDA00000000000).pow.value = .fin (237 / 128) ∧
    heavyEnvelope.pow (steadyCrypto .exact 33) = .fin (512 / 277) ∧
    ({ new {} with
        settings.minPow := some 0x3FFDA00000000000
        settings.minPowTolerance := some 0x3FFDA00000000000 }.add (steadyCrypto .exact 33)
          1600000000 heavyEnvelope false).2 = .error .lowPow ∧
    ¬ MeetsPow .exact heavyEnvelope (workParams 0x3FFDA00000000000) ∧
    ¬ MeetsPow .float64 heavyEnvelope (workParams 0x3FFDA00000000000) := by
  have hseal : ∀ A ∈ [Arithmetic.exact, .float64], sealEnvelope (steadyCrypto A 33) heavyEnvelope
      (workParams 0x3FFDA00000000000) 1 = .ok heavyEnvelope := by
    simp only [List.forall_mem_cons, List.not_mem_nil, false_imp_iff, implies_true, and_true]
    decide +kernel
  refine ⟨hseal _ (by simp), by decide +kernel, by decide +kernel, by decide +kernel,
    fun hmeets => ?_, fun hmeets => ?_⟩
  · have hpow := (hmeets _ _ _ rfl (hseal .exact (by simp))).1
    exact absurd hpow (by decide +kernel)
  · have hpow := (hmeets _ _ _ rfl (hseal .float64 (by simp))).1
    exact absurd hpow (by decide +kernel)

end Whisperv6.Envelope
