import Whisperv6.Divisor
import Whisperv6.Loops

/-! The checks of `add` as a whole, and the time checks against the window that they stand for over
the integers. -/

namespace Whisperv6

open ProofKit

/-! ### The time window -/

namespace Envelope

/-- The time at which the envelope says that it was created, over the integers. -/
def created (e : Envelope) : Int := (e.expiry.toNat : Int) - e.ttl.toNat

/-- The envelope has not expired, and it was created at a time that is not negative and at most the
allowance ahead. -/
def InWindow (e : Envelope) (now : UInt32) : Prop :=
  now.toNat ≤ e.expiry.toNat ∧ 0 ≤ e.created ∧
    e.created ≤ now.toNat + defaultSyncAllowance.toNat

/-- The envelope has not expired, its TTL exceeds its expiry, and the creation time that this gives
in 32 bits is at most the allowance ahead. -/
def WrapsIntoWindow (e : Envelope) (now : UInt32) : Prop :=
  now.toNat ≤ e.expiry.toNat ∧ e.created < 0 ∧
    e.created + 2 ^ 32 ≤ now.toNat + defaultSyncAllowance.toNat

theorem toNat_sent (e : Envelope) :
    ((e.expiry - e.ttl).toNat : Int) = if 0 ≤ e.created then e.created else e.created + 2 ^ 32 := by
  have hsub : (e.expiry - e.ttl).toNat = (2 ^ 32 - e.ttl.toNat + e.expiry.toNat) % 2 ^ 32 :=
    UInt32.toNat_sub _ _
  have httl := e.ttl.toNat_lt
  have hexpiry := e.expiry.toNat_lt
  unfold created
  rw [hsub]
  split <;> omega

section

variable {e : Envelope} {now : UInt32} (hlow : 10 ≤ now)

include hlow

/-- From the tenth second on, the check for the future is the one over the integers: where the
allowance would be subtracted from less than it, the first comparison already fails. -/
theorem future_iff :
    now < e.expiry - e.ttl ∧ now < e.expiry - e.ttl - defaultSyncAllowance ↔
      (now.toNat : Int) + defaultSyncAllowance.toNat < (e.expiry - e.ttl).toNat := by
  generalize e.expiry - e.ttl = sent
  have hsub : (sent - defaultSyncAllowance).toNat = (2 ^ 32 - 10 + sent.toNat) % 2 ^ 32 :=
    UInt32.toNat_sub _ _
  have hallowance : defaultSyncAllowance.toNat = 10 := rfl
  have hten : (10 : UInt32).toNat = 10 := rfl
  have hsent := sent.toNat_lt
  rw [UInt32.le_iff_toNat_le, hten] at hlow
  rw [UInt32.lt_iff_toNat_lt, UInt32.lt_iff_toNat_lt, hsub, hallowance]
  omega

theorem timely_iff_window : e.Timely now ↔ e.InWindow now ∨ e.WrapsIntoWindow now := by
  have hsent := e.toNat_sent
  rw [Timely, future_iff hlow, UInt32.le_iff_toNat_le, hsent]
  unfold InWindow WrapsIntoWindow
  split <;> omega

end

end Envelope

/-- `add` admits the envelope, or has it already, only inside the window. -/
def AdmittedInWindow (C : Crypto) (e : Envelope) (now : UInt32) : Prop :=
  ∀ (w : Whisper) (isP2P : Bool), (w.add C now e isP2P).2 = .ok true → e.InWindow now

/-- A node without requirements. -/
def lenientNode : Whisper :=
  new { maxMessageSize := 0xFFFFFFFF, minimumAcceptedPOW := 0xFFF0000000000000 }

theorem lenientNode_add (C : Crypto) {e : Envelope} {now : UInt32} (htimely : e.Timely now) :
    (lenientNode.add C now e false).2 = .ok true := by
  refine Whisper.add_cached_iff.mpr ⟨_, Settings.check_some_iff.mpr
    ⟨rfl, htimely.1, htimely.2, ?_, .inl ?_, .inl rfl⟩⟩
  · rw [UInt32.le_iff_toNat_le]
    exact Nat.le_of_lt_succ (UInt32.toNat_lt _)
  · have hmin : lenientNode.settings.getMinPow.value = .inf true := by decide +kernel
    rw [hmin]
    exact FloatVal.not_lt_of_negInf rfl

/-- Between the tenth second and the last twenty, the checks are those over the integers, but for
envelopes whose creation time is negative and wraps into the window. -/
theorem admission_window (C : Crypto) (e : Envelope) (now : UInt32) (hlow : 10 ≤ now)
    (hhigh : now.toNat < 2 ^ 32 - 20) :
    (AdmittedInWindow C e now ↔ ¬ e.WrapsIntoWindow now) ∧
    (e.ttl ≤ e.expiry → ∀ (w : Whisper) (isP2P : Bool),
      ((w.add C now e isP2P).2 = .error .inFuture ↔ (now.toNat : Int) + 10 < e.created) ∧
      ((w.add C now e isP2P).2 = .error .veryOld ↔
        ¬ (now.toNat : Int) + 10 < e.created ∧ e.expiry.toNat + 20 < now.toNat) ∧
      ((w.add C now e isP2P).2 = .ok false ↔
        ¬ (now.toNat : Int) + 10 < e.created ∧ e.expiry.toNat < now.toNat ∧
          now.toNat ≤ e.expiry.toNat + 20)) := by
  refine ⟨⟨fun hadmitted hwraps => ?_, fun hwraps w isP2P hok => ?_⟩, fun httl w isP2P => ?_⟩
  · have htimely := (Envelope.timely_iff_window hlow).mpr (.inr hwraps)
    have hcreated := (hadmitted lenientNode false (lenientNode_add C htimely)).2.1
    have hnegative := hwraps.2.1
    omega
  · obtain ⟨e', hcheck⟩ := Whisper.add_cached_iff.mp hok
    obtain ⟨-, hfuture, hexpiry, -⟩ := Settings.check_some_iff.mp hcheck
    exact ((Envelope.timely_iff_window hlow).mp ⟨hfuture, hexpiry⟩).resolve_right hwraps
  · obtain ⟨hfuture, hold, hdropped⟩ := w.settings.check_time C now e
    have hcreated : 0 ≤ e.created := by
      rw [UInt32.le_iff_toNat_le] at httl
      unfold Envelope.created
      omega
    have hsent := e.toNat_sent
    rw [if_pos hcreated] at hsent
    have hallowance : (defaultSyncAllowance.toNat : Int) = 10 := rfl
    rw [Envelope.future_iff hlow, hsent, hallowance] at hfuture hold hdropped
    -- the sum does not wrap where the envelope has expired
    have hadd : (e.expiry + defaultSyncAllowance * 2).toNat = (e.expiry.toNat + 20) % 2 ^ 32 :=
      UInt32.toNat_add _ _
    rw [UInt32.lt_iff_toNat_lt, UInt32.lt_iff_toNat_lt, hadd] at hold hdropped
    rw [Whisper.add_error_iff, Whisper.add_error_iff, Whisper.add_dropped_iff, hfuture, hold,
      hdropped]
    omega

theorem admission_window_sample :
    AdmittedInWindow sampleCrypto sampleEnvelope 1600000000 ∧
    ((new {}).add sampleCrypto 1599999900 sampleEnvelope false).2 = .error .inFuture := by
  constructor
  · refine (admission_window _ sampleEnvelope 1600000000 (by decide) (by decide)).1.mpr ?_
    rintro ⟨-, hnegative, -⟩
    exact absurd hnegative (by decide)
  · exact ((admission_window _ sampleEnvelope 1599999900 (by decide) (by decide)).2 (by decide)
      (new {}) false).1.mpr (by decide)

/-- An envelope that expires now and has the largest TTL: its creation time in 32 bits is the next
second, and a new node admits it. -/
def wrappedEnvelope : Envelope :=
  { sampleEnvelope with expiry := 1600000000, ttl := 0xFFFFFFFF, nonce := 108 }

/-- Keccak-256 on the two inputs that this envelope gives it. -/
def wrappedKeccak (b : Bytes) : Hash :=
  if b = wrappedEnvelope.encode then
    0x6a3163c30d899d1c444ab6d282b9ec0a45a1ce84c15fed22474ba8a23d457451#256
  else if b = wrappedEnvelope.rlpWithoutNonce ++ putUint64 108 then
    0x01e6a5d3c205174f801f37db8fdc5f7f9a3194ebc6d8146c03bb097179d51879#256
  else 0

def wrappedCrypto : Crypto := { sampleCrypto with keccak256Hash := wrappedKeccak }

theorem not_admittedInWindow_wrapped :
    wrappedEnvelope.created = 1600000000 - 4294967295 ∧
    ((new {}).add wrappedCrypto 1600000000 wrappedEnvelope false).2 = .ok true ∧
    ¬ wrappedEnvelope.InWindow 1600000000 ∧
    ¬ AdmittedInWindow wrappedCrypto wrappedEnvelope 1600000000 := by
  have hok : ((new {}).add wrappedCrypto 1600000000 wrappedEnvelope false).2 = .ok true := by
    decide +kernel
  have hout : ¬ wrappedEnvelope.InWindow 1600000000 := by
    rintro ⟨-, hcreated, -⟩
    exact absurd hcreated (by decide)
  exact ⟨by decide, hok, hout, fun hadmitted => hout (hadmitted _ _ hok)⟩

/-! ### The checks -/

/-- The envelope passes the checks of `add`: on its time, its size, its proof of work and its bloom
filter, the last two against the required or the tolerated value. -/
structure Settings.Passes (C : Crypto) (s : Settings) (now : UInt32) (e : Envelope) : Prop where
  time : e.Timely now
  size : UInt32.ofNat e.size ≤ s.maxMsgSize
  pow : ((e.adjust C now).pow C).lt s.getMinPow.value = false ∨
    ((e.adjust C now).pow C).lt s.getMinPowTolerance.value = false
  bloom : bloomFilterMatch s.bloomFilter e.bloom = true ∨
    bloomFilterMatch s.bloomFilterTolerance e.bloom = true

namespace Whisper

theorem add_cached_iff_passes {C : Crypto} {w : Whisper} {now : UInt32} {e : Envelope}
    {isP2P : Bool} :
    (w.add C now e isP2P).2 = .ok true ↔ w.settings.Passes C now e := by
  rw [add_cached_iff]
  constructor
  · rintro ⟨e', hcheck⟩
    obtain ⟨-, hfuture, hexpiry, hsize, hpow, hbloom⟩ := Settings.check_some_iff.mp hcheck
    exact ⟨⟨hfuture, hexpiry⟩, hsize, hpow, hbloom⟩
  · intro h
    exact ⟨_, Settings.check_some_iff.mpr ⟨rfl, h.time.1, h.time.2, h.size, h.pow, h.bloom⟩⟩

end Whisper

end Whisperv6
