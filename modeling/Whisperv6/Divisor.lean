import Whisperv6.Forwarding

/-! The divisor of the proof of work that `add` compares with the requirement.  It is at least the
number of seconds that the envelope stays in the pool, and it is zero for the envelopes without a
TTL in the second in which they expire. -/

namespace Whisperv6

open ProofKit

namespace Envelope

/-- The envelope passes the time checks of `add`: it is not from the future beyond the allowance,
and it has not expired. -/
def Timely (e : Envelope) (now : UInt32) : Prop :=
  ¬ (now < e.expiry - e.ttl ∧ now < e.expiry - e.ttl - defaultSyncAllowance) ∧ now ≤ e.expiry

instance (e : Envelope) (now : UInt32) : Decidable (e.Timely now) :=
  inferInstanceAs (Decidable (_ ∧ _))

/-- Where the divisor is the TTL, the envelope was sent by `now` or its TTL exceeds its expiry. -/
theorem remaining_le_ttl {e : Envelope} {now : UInt32} (hexpiry : now ≤ e.expiry)
    (hpast : ¬ now < e.expiry - e.ttl) : e.expiry.toNat - now.toNat ≤ e.ttl.toNat := by
  have hsent : (e.expiry - e.ttl).toNat = (2 ^ 32 - e.ttl.toNat + e.expiry.toNat) % 2 ^ 32 :=
    UInt32.toNat_sub _ _
  have httl := e.ttl.toNat_lt
  have hlt := e.expiry.toNat_lt
  rw [UInt32.lt_iff_toNat_lt, hsent] at hpast
  rw [UInt32.le_iff_toNat_le] at hexpiry
  omega

theorem remaining_le_divisor {e : Envelope} {now : UInt32} (hnow : 1 ≤ now)
    (hexpiry : now ≤ e.expiry) : e.expiry.toNat - now.toNat ≤ (e.divisor now).toNat := by
  by_cases hfuture : now < e.expiry - e.ttl
  · rw [toNat_divisor_of_lt hnow hexpiry hfuture]
    omega
  · rw [divisor_of_not_lt hfuture]
    exact remaining_le_ttl hexpiry hfuture

theorem divisor_eq_zero_iff {e : Envelope} {now : UInt32} (hnow : 1 ≤ now)
    (hexpiry : now ≤ e.expiry) : e.divisor now = 0 ↔ e.ttl = 0 ∧ e.expiry = now := by
  by_cases hfuture : now < e.expiry - e.ttl
  · have hdivisor := toNat_divisor_of_lt hnow hexpiry hfuture
    refine iff_of_false ?_ ?_
    · intro hzero
      rw [hzero, UInt32.toNat_zero] at hdivisor
      omega
    · rintro ⟨httl, rfl⟩
      rw [httl, UInt32.sub_zero] at hfuture
      exact UInt32.lt_irrefl _ hfuture
  · rw [divisor_of_not_lt hfuture]
    refine ⟨fun httl => ⟨httl, ?_⟩, And.left⟩
    rw [httl, UInt32.sub_zero] at hfuture
    exact UInt32.le_antisymm (UInt32.not_lt.mp hfuture) hexpiry

end Envelope

namespace Settings

/-- The time checks are the ones that do not depend on the settings: an envelope fails them when
`add` refuses it for its time or drops it. -/
theorem timely_iff {C : Crypto} {s : Settings} {now : UInt32} {e : Envelope} :
    e.Timely now ↔ s.check C now e ≠ .error .inFuture ∧ s.check C now e ≠ .error .veryOld ∧
      s.check C now e ≠ .ok none := by
  obtain ⟨hfuture, hold, hdropped⟩ := s.check_time C now e
  constructor
  · rintro ⟨hin, hle⟩
    have hnot : ¬ e.expiry < now := UInt32.not_lt.mpr hle
    exact ⟨fun h => hin (hfuture.mp h), fun h => hnot (hold.mp h).2.1,
      fun h => hnot (hdropped.mp h).2.1⟩
  · rintro ⟨hinFuture, hveryOld, hkept⟩
    have hin := mt hfuture.mpr hinFuture
    refine ⟨hin, UInt32.not_lt.mp fun hlt => ?_⟩
    by_cases hvery : e.expiry + defaultSyncAllowance * 2 < now
    · exact hveryOld (hold.mpr ⟨hin, hlt, hvery⟩)
    · exact hkept (hdropped.mpr ⟨hin, hlt, hvery⟩)

/-- The proof of work of a fresh envelope that passes the time checks is computed with a divisor
that is at least the number of seconds until it expires. -/
theorem charged_for_lifetime (C : Crypto) {s : Settings} {now : UInt32} {e : Envelope}
    (hnow : 1 ≤ now) (hfresh : e.Fresh) (hfuture : s.check C now e ≠ .error .inFuture)
    (hold : s.check C now e ≠ .error .veryOld) (hkept : s.check C now e ≠ .ok none) :
    (e.adjust C now).pow C = Envelope.powOf C.float
        (Envelope.leadingZeros C e.rlpWithoutNonce e.nonce) e.rlpWithoutNonce.length
        (e.divisor now).toNat ∧
      now ≤ e.expiry ∧ e.expiry.toNat - now.toNat ≤ (e.divisor now).toNat := by
  have htimely : e.Timely now := timely_iff.mpr ⟨hfuture, hold, hkept⟩
  exact ⟨Envelope.pow_adjust hfresh.pow now, htimely.2,
    Envelope.remaining_le_divisor hnow htimely.2⟩

/-- The sample envelope five seconds before it was sent: the divisor covers 55 seconds. -/
theorem charged_for_lifetime_early :
    (sampleEnvelope.divisor 1599999995).toNat = 56 ∧
    sampleEnvelope.expiry.toNat - (1599999995 : UInt32).toNat ≤
      (sampleEnvelope.divisor 1599999995).toNat := by
  refine ⟨by decide, ?_⟩
  exact (charged_for_lifetime sampleCrypto (s := (new {}).settings) (by decide) ⟨rfl, rfl⟩
    (by decide +kernel) (by decide +kernel) (by decide +kernel)).2.2

/-- The envelope reaches the check on its proof of work: it passes the checks on time and size. -/
def ReachesPow (s : Settings) (now : UInt32) (e : Envelope) : Prop :=
  e.Timely now ∧ UInt32.ofNat e.size ≤ s.maxMsgSize

instance (s : Settings) (now : UInt32) (e : Envelope) : Decidable (s.ReachesPow now e) :=
  inferInstanceAs (Decidable (_ ∧ _))

/-- The divisor is not zero, and the proof of work that is compared with the requirement is not
infinite. -/
def FinitePow (C : Crypto) (now : UInt32) (e : Envelope) : Prop :=
  e.divisor now ≠ 0 ∧ (e.adjust C now).pow C ≠ .inf false

/-- Of the fresh envelopes that reach the check on the proof of work, exactly those without a TTL
that expire in the present second have it divided by zero. -/
theorem finitePow_iff (C : Crypto) {s : Settings} {now : UInt32} {e : Envelope} (hnow : 1 ≤ now)
    (hfresh : e.Fresh) (hreaches : s.ReachesPow now e) :
    FinitePow C now e ↔ ¬ (e.ttl = 0 ∧ e.expiry = now) := by
  rw [← Envelope.divisor_eq_zero_iff hnow hreaches.1.2, FinitePow,
    Envelope.pow_adjust hfresh.pow now]
  refine and_iff_left_of_imp fun hdivisor => ?_
  have hpos : 0 < (e.divisor now).toNat := by
    rw [Nat.pos_iff_ne_zero]
    exact fun hzero => hdivisor (UInt32.toNat_inj.mp hzero)
  obtain ⟨q, hq, -⟩ := Envelope.powOf_pos C.float
    (Envelope.leadingZeros_le C e.rlpWithoutNonce e.nonce) e.length_rlpWithoutNonce_pos hpos
  rw [hq]
  simp

theorem finitePow_sample : FinitePow sampleCrypto 1600000000 sampleEnvelope :=
  (finitePow_iff sampleCrypto (s := (new {}).settings) (by decide) ⟨rfl, rfl⟩
    (by decide +kernel)).mpr (by decide)

/-- A hash without a leading zero, so that no envelope shows any work. -/
def idleCrypto : Crypto := { sampleCrypto with keccak256Hash := fun _ => BitVec.allOnes 256 }

/-- An envelope without a TTL. -/
def fleetingEnvelope : Envelope :=
  { sampleEnvelope with expiry := 1600000000, ttl := 0, data := [], nonce := 0 }

/-- In the second in which it expires it has an infinite proof of work, so a node that asks for the
largest finite one admits it. -/
theorem not_finitePow_fleeting :
    fleetingEnvelope.Fresh ∧ (new {}).settings.ReachesPow 1600000000 fleetingEnvelope ∧
    ¬ FinitePow idleCrypto 1600000000 fleetingEnvelope ∧
    ((new { minimumAcceptedPOW := 0x7FEFFFFFFFFFFFFF }).add idleCrypto 1600000000
      fleetingEnvelope false).2 = .ok true := by
  refine ⟨⟨rfl, rfl⟩, by decide +kernel, ?_, by decide +kernel⟩
  rintro ⟨hdivisor, -⟩
  exact hdivisor (by decide)

end Settings

end Whisperv6
