import Whisperv6.Bloom
import Whisperv6.ProofKit.Rlp

/-! Envelopes: their wire format, hash and bloom filter, and the proof of work. -/

namespace Whisperv6

open ProofKit

/-- `Envelope`.  The last three fields cache what `pow`, `hash` and `bloom` return: `powCache` is 0,
`hashCache` is the zero hash and `bloomCache` is nil as long as nothing is cached. -/
structure Envelope where
  expiry : UInt32
  ttl : UInt32
  topic : TopicType
  data : Bytes
  nonce : UInt64
  powCache : FloatVal := .zero
  hashCache : Hash := 0
  bloomCache : Option Bytes := none
  deriving DecidableEq

/-- How a message is wrapped into an envelope.  `none` is a nil pointer or slice. -/
structure MessageParams where
  ttl : UInt32
  src : Option PrivateKey
  dst : Option PublicKey
  keySym : Option Bytes
  topic : TopicType
  workTime : UInt32
  pow : Float64
  payload : Bytes
  padding : Bytes
  deriving DecidableEq

/-- `big.Int.BitLen`. -/
def bitLen (n : Nat) : Nat := if n = 0 then 0 else n.log2 + 1

/-- The eight bytes of `binary.BigEndian.PutUint64`. -/
def putUint64 (n : UInt64) : Bytes :=
  (List.range 8).reverse.map fun k => UInt8.ofNat (n.toNat / 256 ^ k)

namespace Envelope

/-- The size of an envelope as `add` counts it: a constant for the header and the data. -/
def size (e : Envelope) : Nat := envelopeHeaderLength + e.data.length

/-- `rlpWithoutNonce`: the RLP list of all the public fields but the nonce. -/
def rlpWithoutNonce (e : Envelope) : Bytes :=
  Rlp.encodeList [Rlp.encodeUint e.expiry.toNat, Rlp.encodeUint e.ttl.toNat,
    Rlp.encodeString e.topic.toList, Rlp.encodeString e.data]

/-- The RLP list of the public fields. -/
def encode (e : Envelope) : Bytes :=
  Rlp.encodeList [Rlp.encodeUint e.expiry.toNat, Rlp.encodeUint e.ttl.toNat,
    Rlp.encodeString e.topic.toList, Rlp.encodeString e.data, Rlp.encodeUint e.nonce.toNat]

/-- `NewEnvelope`, with the clock `now` in seconds. -/
def newEnvelope (ttl : UInt32) (topic : TopicType) (raw : Bytes) (now : Int) : Envelope where
  expiry := UInt32.ofInt (now + ttl.toNat)
  ttl := ttl
  topic := topic
  data := raw
  nonce := 0

/-- The leading zero bits of the hash of `rlp` followed by the nonce. -/
def leadingZeros (C : Crypto) (rlp : Bytes) (nonce : UInt64) : Nat :=
  256 - bitLen (C.keccak256Hash (rlp ++ putUint64 nonce)).toNat

/-- `calculatePoW`: `2^zeros / len(rlp) / (TTL + diff)`, where the power of two is a float, and the
sum of 32-bit integers wraps. -/
def calculatePoW (C : Crypto) (e : Envelope) (diff : UInt32) : Envelope :=
  let rlp := e.rlpWithoutNonce
  let x := FloatVal.fin (2 ^ leadingZeros C rlp e.nonce)
  let x := C.float.div x (C.float.ofInt rlp.length)
  let x := C.float.div x (C.float.ofInt (e.ttl + diff).toNat)
  { e with powCache := x }

/-- The envelope after a call of `PoW`, which computes the proof of work unless it is cached. -/
def fillPoW (C : Crypto) (e : Envelope) : Envelope :=
  if e.powCache = .zero then e.calculatePoW C 0 else e

def pow (C : Crypto) (e : Envelope) : FloatVal := (e.fillPoW C).powCache

def hash (C : Crypto) (e : Envelope) : Hash :=
  if e.hashCache = 0 then C.keccak256Hash e.encode else e.hashCache

def bloom (e : Envelope) : Bytes := e.bloomCache.getD (topicToBloom e.topic)

/-- The envelope after calls of `PoW`, `Bloom` and `Hash`. -/
def fill (C : Crypto) (e : Envelope) : Envelope :=
  { e with powCache := e.pow C, hashCache := e.hash C, bloomCache := some e.bloom }

/-- What the receiver of an envelope decodes: the public fields, with the hash of the bytes. -/
def received (C : Crypto) (e : Envelope) : Envelope where
  expiry := e.expiry
  ttl := e.ttl
  topic := e.topic
  data := e.data
  nonce := e.nonce
  hashCache := C.keccak256Hash e.encode

/-- `powToFirstBit`: the logarithm of `pow * size * TTL`, rounded up, and at least 1. -/
def powToFirstBit (A : Arithmetic) (e : Envelope) (pow : Float64) : Nat :=
  let x := A.mul pow.value (A.ofInt e.size)
  let x := A.mul x (A.ofInt e.ttl.toNat)
  (max 1 (A.ceilLog2 x)).toNat

/-- The search of `Seal` through `tries` nonces from `nonce` on, with the best nonce so far and its
leading zeros.  The last component tells whether the target was reached. -/
def search (zeros : UInt64 → Nat) (target : Nat) : (tries : Nat) → (nonce found : UInt64) →
    (best : Nat) → UInt64 × Nat × Bool
  | 0, _, found, best => (found, best, false)
  | tries + 1, nonce, found, best =>
    if zeros nonce > best then
      if 0 < target && target ≤ zeros nonce then (nonce, zeros nonce, true)
      else search zeros target tries (nonce + 1) nonce (zeros nonce)
    else search zeros target tries (nonce + 1) found best

/-- The start of `Seal`: without a target, the work time is added to the expiry. -/
def postpone (e : Envelope) (options : MessageParams) : Envelope :=
  if options.pow.value.lt .zero then { e with expiry := e.expiry + options.workTime } else e

/-- The leading zeros that `Seal` looks for, where 0 is no target. -/
def sealTarget (A : Arithmetic) (e : Envelope) (options : MessageParams) : Nat :=
  if options.pow.value.lt .zero then 0 else e.powToFirstBit A options.pow

/-- `Seal`, where `rounds` is the number of rounds of 1024 nonces before the clock passes the work
time. -/
def sealEnvelope (C : Crypto) (e : Envelope) (options : MessageParams) (rounds : Nat) :
    Except Fault Envelope :=
  if options.pow.value = .zero then .ok e
  else
    let target := e.sealTarget C.float options
    let e := e.postpone options
    let found := search (leadingZeros C e.rlpWithoutNonce) target (1024 * rounds) 0 e.nonce 0
    if !found.2.2 && decide (0 < target) && decide (found.2.1 < target) then
      .error (.error (newError ("failed to reach the PoW target, specified pow time (" ++
        toString options.workTime.toNat ++ " seconds) was insufficient")))
    else .ok { e with nonce := found.1 }

/-! ### The proof of work -/

theorem leadingZeros_le (C : Crypto) (rlp : Bytes) (n : UInt64) : leadingZeros C rlp n ≤ 256 :=
  Nat.sub_le _ _

/-- The proof of work by the leading zeros, the length of the encoded fields and the divisor. -/
def powOf (A : Arithmetic) (zeros len divisor : Nat) : FloatVal :=
  A.div (A.div (.fin (2 ^ zeros)) (A.ofInt len)) (A.ofInt divisor)

theorem calculatePoW_eq (C : Crypto) (e : Envelope) (diff : UInt32) :
    e.calculatePoW C diff =
      { e with powCache := powOf C.float (leadingZeros C e.rlpWithoutNonce e.nonce)
                 e.rlpWithoutNonce.length (e.ttl + diff).toNat } := rfl

theorem length_rlpWithoutNonce_pos (e : Envelope) : 0 < e.rlpWithoutNonce.length :=
  Rlp.length_encodeList_pos _

section

variable (A : Arithmetic) {zeros len : Nat}

/-- The first quotient is a number between `2^-63` and `2^256`. -/
theorem work_bounds (hzeros : zeros ≤ 256) (hlen : 0 < len) :
    ∃ q, A.div (.fin (2 ^ zeros)) (A.ofInt len) = .fin q ∧ 2 ^ (-63 : ℤ) ≤ q ∧
      q ≤ 2 ^ (256 : ℤ) := by
  have hlow : (2 : ℚ) ^ (0 : ℤ) ≤ 2 ^ zeros := by
    rw [zpow_zero]
    exact one_le_pow₀ one_le_two
  have hhigh : (2 : ℚ) ^ zeros ≤ 2 ^ (256 : ℤ) := by
    exact_mod_cast pow_le_pow_right₀ (one_le_two (α := ℚ)) hzeros
  exact A.div_ofInt_pos (by decide) (by decide) hlow hhigh hlen

theorem powOf_zero (hzeros : zeros ≤ 256) (hlen : 0 < len) :
    powOf A zeros len 0 = .inf false := by
  obtain ⟨q, hq, hlow, -⟩ := work_bounds A hzeros hlen
  rw [powOf, hq]
  exact A.div_ofInt_zero ((FloatVal.two_zpow_pos _).trans_le hlow)

theorem powOf_pos (hzeros : zeros ≤ 256) (hlen : 0 < len) {divisor : Nat} (h : 0 < divisor) :
    ∃ q, powOf A zeros len divisor = .fin q ∧ 0 < q := by
  obtain ⟨q, hq, hlow, hhigh⟩ := work_bounds A hzeros hlen
  obtain ⟨r, hr, hpos, -⟩ := A.div_ofInt_pos (by decide) (by decide) hlow hhigh h
  rw [powOf, hq]
  exact ⟨r, hr, (FloatVal.two_zpow_pos _).trans_le hpos⟩

/-- The proof of work grows when the divisor shrinks, down to the infinity at the divisor 0. -/
theorem powOf_anti (hzeros : zeros ≤ 256) (hlen : 0 < len) {d e : Nat}
    (hde : d = 0 ∨ 0 < e ∧ d ≤ e) : (powOf A zeros len e).le (powOf A zeros len d) = true := by
  obtain ⟨q, hq, hlow, -⟩ := work_bounds A hzeros hlen
  rw [powOf, powOf, hq]
  exact A.div_ofInt_anti ((FloatVal.two_zpow_pos _).trans_le hlow) hde

theorem powOf_mono {zeros' : Nat} (hle : zeros ≤ zeros') (hzeros : zeros' ≤ 256) (hlen : 0 < len)
    (divisor : Nat) : (powOf A zeros len divisor).le (powOf A zeros' len divisor) = true := by
  obtain ⟨q, hq, hlow, -⟩ := work_bounds A (hle.trans hzeros) hlen
  obtain ⟨q', hq', -⟩ := work_bounds A hzeros hlen
  have hqq : q ≤ q' := by
    have hmono := A.div_ofInt_mono (pow_pos two_pos zeros)
      (pow_le_pow_right₀ (one_le_two (α := ℚ)) hle) len
    rw [hq, hq'] at hmono
    exact of_decide_eq_true hmono
  rw [powOf, powOf, hq, hq']
  exact A.div_ofInt_mono ((FloatVal.two_zpow_pos _).trans_le hlow) hqq divisor

end

/-- What `calculatePoW` caches: an infinity for a divisor that wraps to 0, and otherwise a positive
number. -/
theorem powCache_calculatePoW (C : Crypto) (e : Envelope) (diff : UInt32) :
    e.ttl + diff = 0 ∧ (e.calculatePoW C diff).powCache = .inf false ∨
    e.ttl + diff ≠ 0 ∧ ∃ q, (e.calculatePoW C diff).powCache = .fin q ∧ 0 < q := by
  have hzeros := leadingZeros_le C e.rlpWithoutNonce e.nonce
  rw [calculatePoW_eq]
  by_cases hdivisor : e.ttl + diff = 0
  · left
    rw [hdivisor]
    exact ⟨rfl, powOf_zero C.float hzeros e.length_rlpWithoutNonce_pos⟩
  · right
    have hd : 0 < (e.ttl + diff).toNat := by
      rw [Nat.pos_iff_ne_zero]
      exact fun hzero => hdivisor (UInt32.toNat_inj.mp hzero)
    exact ⟨hdivisor, powOf_pos C.float hzeros e.length_rlpWithoutNonce_pos hd⟩

theorem calculatePoW_ne_zero (C : Crypto) (e : Envelope) (diff : UInt32) :
    (e.calculatePoW C diff).powCache ≠ .zero := by
  rcases e.powCache_calculatePoW C diff with ⟨-, hinf⟩ | ⟨-, q, hfin, hpos⟩
  · rw [hinf]
    simp [FloatVal.zero]
  · rw [hfin, FloatVal.zero]
    simp [hpos.ne']

theorem calculatePoW_ne_nan (C : Crypto) (e : Envelope) (diff : UInt32) :
    (e.calculatePoW C diff).powCache ≠ .nan := by
  rcases e.powCache_calculatePoW C diff with ⟨-, hinf⟩ | ⟨-, q, hfin, -⟩
  · simp [hinf]
  · simp [hfin]

theorem zero_le_calculatePoW (C : Crypto) (e : Envelope) (diff : UInt32) :
    FloatVal.zero.le (e.calculatePoW C diff).powCache = true := by
  rcases e.powCache_calculatePoW C diff with ⟨-, hinf⟩ | ⟨-, q, hfin, hpos⟩
  · rw [hinf]
    rfl
  · rw [hfin]
    exact decide_eq_true hpos.le

/-! ### Caches -/

theorem pow_of_powCache {C : Crypto} {e : Envelope} (h : e.powCache ≠ .zero) :
    e.pow C = e.powCache := by
  rw [pow, fillPoW, if_neg h]

theorem pow_ne_zero (C : Crypto) (e : Envelope) : e.pow C ≠ .zero := by
  by_cases h : e.powCache = .zero
  · rw [pow, fillPoW, if_pos h]
    exact e.calculatePoW_ne_zero C 0
  · rw [pow_of_powCache h]
    exact h

theorem pow_fill (C : Crypto) (e : Envelope) : (e.fill C).pow C = e.pow C :=
  pow_of_powCache (e.pow_ne_zero C)

@[simp] theorem encode_fill (C : Crypto) (e : Envelope) : (e.fill C).encode = e.encode := rfl

/-- Caching the hash does not change it, also when the hash is the zero hash. -/
@[simp] theorem hash_fill (C : Crypto) (e : Envelope) : (e.fill C).hash C = e.hash C := by
  have hcache : (e.fill C).hashCache = e.hash C := rfl
  rw [hash, hcache, encode_fill]
  by_cases h : e.hash C = 0
  · rw [if_pos h, h]
    unfold hash at h
    by_cases hc : e.hashCache = 0
    · rwa [if_pos hc] at h
    · rw [if_neg hc] at h
      exact absurd h hc
  · rw [if_neg h]

end Envelope

end Whisperv6
