import Whisperv6.MessageLoop

/-! A node that forwards an envelope it admitted is never refused for its proof of work or its
topic by a peer whose requirements it has recorded.  Sender and receiver divide the same work by
divisors that depend on their clocks, and the later divisor is never the larger one. -/

namespace Whisperv6

open ProofKit

namespace Envelope

/-- The divisor of the proof of work that `add` computes at the clock reading `now`. -/
def divisor (e : Envelope) (now : UInt32) : UInt32 :=
  if now < e.expiry - e.ttl then e.ttl + (e.expiry - e.ttl - now + 1) else e.ttl

/-- The proof of work that `add` compares comes from a call of `calculatePoW`, in `add` or in
`PoW`. -/
theorem pow_adjust_computed {C : Crypto} {e : Envelope} (h : e.powCache = .zero) (now : UInt32) :
    ∃ diff, (e.adjust C now).pow C = (e.calculatePoW C diff).powCache := by
  unfold adjust
  dsimp only
  split
  · exact ⟨_, pow_of_powCache (e.calculatePoW_ne_zero C _)⟩
  · refine ⟨0, ?_⟩
    rw [pow, fillPoW, if_pos h]

theorem pow_adjust {C : Crypto} {e : Envelope} (h : e.powCache = .zero) (now : UInt32) :
    (e.adjust C now).pow C = powOf C.float (leadingZeros C e.rlpWithoutNonce e.nonce)
      e.rlpWithoutNonce.length (e.divisor now).toNat := by
  unfold adjust divisor
  dsimp only
  split
  · exact pow_of_powCache (e.calculatePoW_ne_zero C _)
  · rw [pow, fillPoW, if_pos h, calculatePoW_eq, UInt32.add_zero]

/-- In the future the divisor is the time left and one second more. -/
theorem toNat_divisor_of_lt {e : Envelope} {now : UInt32} (hnow : 1 ≤ now)
    (hexpiry : now ≤ e.expiry) (hfuture : now < e.expiry - e.ttl) :
    (e.divisor now).toNat = e.expiry.toNat - now.toNat + 1 := by
  have hdiv : e.divisor now = e.expiry - now + 1 := by
    rw [divisor, if_pos hfuture]
    grind
  rw [UInt32.le_iff_toNat_le] at hnow hexpiry
  have hlt := e.expiry.toNat_lt
  rw [UInt32.toNat_one] at hnow
  rw [hdiv, UInt32.toNat_add, UInt32.toNat_sub, UInt32.toNat_one]
  omega

theorem divisor_of_not_lt {e : Envelope} {now : UInt32} (hpast : ¬ now < e.expiry - e.ttl) :
    e.divisor now = e.ttl := by
  rw [divisor, if_neg hpast]

/-- Up to the expiry, a later clock reading gives no larger divisor. -/
theorem divisor_anti {e : Envelope} {a b : UInt32} (ha : 1 ≤ a) (hab : a ≤ b)
    (hb : b ≤ e.expiry) :
    (e.divisor b).toNat = 0 ∨
      0 < (e.divisor a).toNat ∧ (e.divisor b).toNat ≤ (e.divisor a).toNat := by
  have hexpiry : a ≤ e.expiry := UInt32.le_trans hab hb
  have hb1 : 1 ≤ b := UInt32.le_trans ha hab
  have habn := UInt32.le_iff_toNat_le.mp hab
  have hbn := UInt32.le_iff_toNat_le.mp hb
  by_cases hbf : b < e.expiry - e.ttl
  · have haf : a < e.expiry - e.ttl := UInt32.lt_of_le_of_lt hab hbf
    rw [toNat_divisor_of_lt hb1 hb hbf, toNat_divisor_of_lt ha hexpiry haf]
    omega
  · rw [divisor_of_not_lt hbf]
    by_cases haf : a < e.expiry - e.ttl
    · rw [toNat_divisor_of_lt ha hexpiry haf]
      have hsent : (e.expiry - e.ttl).toNat = (2 ^ 32 - e.ttl.toNat + e.expiry.toNat) % 2 ^ 32 :=
        UInt32.toNat_sub _ _
      have htl := e.ttl.toNat_lt
      have hel := e.expiry.toNat_lt
      rw [UInt32.lt_iff_toNat_lt, hsent] at haf hbf
      omega
    · rw [divisor_of_not_lt haf]
      omega

/-- The receiver's proof of work is at least the sender's, up to the expiry. -/
theorem pow_adjust_le {C : Crypto} {e : Envelope} {a b : UInt32} (h : e.powCache = .zero)
    (ha : 1 ≤ a) (hab : a ≤ b) (hb : b ≤ e.expiry) :
    ((e.adjust C a).pow C).le (((e.received C).adjust C b).pow C) = true := by
  have hreceived : (e.received C).powCache = .zero := rfl
  rw [pow_adjust h, pow_adjust hreceived]
  exact powOf_anti C.float (leadingZeros_le C _ _) e.length_rlpWithoutNonce_pos
    (divisor_anti ha hab hb)

theorem received_fill_adjust (C : Crypto) (e : Envelope) (now : UInt32) :
    ((e.adjust C now).fill C).received C = e.received C := by
  rw [adjust_eq]
  rfl

/-- An envelope whose proof of work and bloom filter are not cached. -/
structure Fresh (e : Envelope) : Prop where
  pow : e.powCache = .zero
  bloom : e.bloomCache = none

end Envelope

/-- The filter of the peer is the one that the remote node announced as `bloom`: nil makes a full
node of it, and any other filter has 64 bytes. -/
def Peer.Recorded (p : Peer) : Option Bytes → Prop
  | none => p.fullNode = true
  | some f => f.length = bloomFilterSize ∧ p.bloomFilter = f ∧ p.fullNode = isFullNode (some f)

theorem Peer.Recorded.bloomFilterMatch {p : Peer} {bloom : Option Bytes} {e : Envelope}
    (h : p.Recorded bloom) (hmatch : p.bloomMatch e = true) :
    Whisperv6.bloomFilterMatch bloom e.bloom = true := by
  cases bloom with
  | none => rfl
  | some f =>
    obtain ⟨hlen, rfl, hfull⟩ := h
    unfold bloomMatch at hmatch
    rw [Bool.or_eq_true, hfull] at hmatch
    rcases hmatch with hfull | hmatch
    · exact bloomFilterMatch_of_isFullNode hlen hfull _
    · exact hmatch

theorem Whisper.add_pooled {C : Crypto} {w : Whisper} {now : UInt32} {e e' : Envelope}
    {isP2P : Bool} (hnew : e.hash C ∉ w.envelopes)
    (hpooled : (w.add C now e isP2P).1.envelopes.lookup (e.hash C) = some e') :
    w.settings.check C now e = .ok (some e') ∧ e' = (e.adjust C now).fill C ∧ now ≤ e.expiry := by
  rcases add_cases C w now e isP2P with hsame | ⟨e'', hcheck, hhash, -, hnow, -, hadd⟩
  · rw [hsame, Finmap.lookup_eq_none.mpr hnew] at hpooled
    cases hpooled
  · have hlookup : (w.insert C e'').envelopes.lookup (e''.hash C) = some e'' :=
      Finmap.lookup_insert _
    rw [hadd, announce_envelopes, ← hhash, hlookup] at hpooled
    cases hpooled
    exact ⟨hcheck, (Settings.check_some_iff.mp hcheck).1, hnow⟩

/-- Node `A` admits a fresh envelope at the clock reading `a` and selects it later, in any state
`A'`, for a peer `p` whose recorded requirement and filter are those that the node `B` announced
last or still tolerates.  At every later clock reading `B` finds at least the proof of work that
`A` cached, unless the envelope has expired, and refuses it neither for its proof of work nor for
its topic. -/
theorem forward_not_refused (C : Crypto) {A A' B : Whisper} {p : Peer} {a b : UInt32}
    {e e' : Envelope} {order : List Hash} {isP2P isP2P' : Bool} (ha : 1 ≤ a) (hab : a ≤ b)
    (hfresh : e.Fresh) (hnew : e.hash C ∉ A.envelopes)
    (hpooled : (A.add C a e isP2P).1.envelopes.lookup (e.hash C) = some e')
    (hselect : e' ∈ p.bundle C A' order)
    (hpow : p.powRequirement = B.settings.getMinPow ∨
      p.powRequirement = B.settings.getMinPowTolerance)
    (hbloom : p.Recorded B.settings.bloomFilter ∨ p.Recorded B.settings.bloomFilterTolerance) :
    (b ≤ e.expiry → (e'.pow C).le (((e'.received C).adjust C b).pow C) = true) ∧
    (B.add C b (e'.received C) isP2P').2 ≠ .error .lowPow ∧
    (B.add C b (e'.received C) isP2P').2 ≠ .error .noBloomMatch := by
  obtain ⟨-, he', -⟩ := Whisper.add_pooled hnew hpooled
  obtain ⟨-, hrequired, hmatch⟩ := Peer.selects_iff.mp (Peer.mem_bundle.mp hselect).2
  have hreceived : e'.received C = e.received C := by
    rw [he', Envelope.received_fill_adjust]
  have hpowle : b ≤ e.expiry →
      (e'.pow C).le (((e'.received C).adjust C b).pow C) = true := by
    intro hb
    rw [hreceived, he', Envelope.pow_fill]
    exact Envelope.pow_adjust_le hfresh.pow ha hab hb
  refine ⟨hpowle, ?_, ?_⟩
  · intro hlow
    rw [Whisper.add_error_iff] at hlow
    obtain ⟨hb, hmin, htolerance⟩ := Settings.check_lowPow hlow
    have hb' : b ≤ e.expiry := by
      rw [hreceived] at hb
      exact hb
    have henough := FloatVal.not_lt_of_le (FloatVal.le_trans hrequired (hpowle hb'))
    rcases hpow with heq | heq
    · rw [heq, hmin] at henough
      cases henough
    · rw [heq, htolerance] at henough
      cases henough
  · intro hno
    rw [Whisper.add_error_iff] at hno
    obtain ⟨hfilter, htolerance⟩ := Settings.check_noBloomMatch hno
    have hsame : (e'.received C).bloom = e'.bloom := by
      rw [hreceived, he']
      show topicToBloom e.topic = (e.adjust C a).bloom
      rw [Envelope.bloom_adjust, Envelope.bloom, hfresh.bloom]
      rfl
    rw [hsame] at hfilter htolerance
    rcases hbloom with hrec | hrec
    · rw [hrec.bloomFilterMatch hmatch] at hfilter
      cases hfilter
    · rw [hrec.bloomFilterMatch hmatch] at htolerance
      cases htolerance

/-- The sample envelope, as a node pools it five seconds before it was sent by its own clock. -/
def earlyEnvelope : Envelope :=
  (sampleEnvelope.adjust sampleCrypto 1599999995).fill sampleCrypto

def earlyNode : Whisper := ((new {}).add sampleCrypto 1599999995 sampleEnvelope false).1

def strictPeer : Peer := { id := 1, powRequirement := defaultMinimumPoW }

theorem forward_not_refused_early :
    earlyEnvelope ∈ strictPeer.bundle sampleCrypto earlyNode [sampleEnvelope.hash sampleCrypto] ∧
    (earlyEnvelope.pow sampleCrypto).le
      (((earlyEnvelope.received sampleCrypto).adjust sampleCrypto 1600000020).pow sampleCrypto)
        = true ∧
    ((new {}).add sampleCrypto 1600000020 (earlyEnvelope.received sampleCrypto) false).2 ≠
      .error .lowPow := by
  have hselect : earlyEnvelope ∈
      strictPeer.bundle sampleCrypto earlyNode [sampleEnvelope.hash sampleCrypto] := by
    decide +kernel
  have hfresh : sampleEnvelope.Fresh := ⟨rfl, rfl⟩
  have hnew : sampleEnvelope.hash sampleCrypto ∉ (new {}).envelopes := by decide +kernel
  have hpooled : earlyNode.envelopes.lookup (sampleEnvelope.hash sampleCrypto) =
      some earlyEnvelope := by decide +kernel
  obtain ⟨hpow, hlow, -⟩ := forward_not_refused sampleCrypto (A := new {})
    (B := new {}) (a := 1599999995) (b := 1600000020) (by decide) (by decide) hfresh hnew hpooled
    hselect (.inl rfl) (.inl rfl)
  exact ⟨hselect, hpow (by decide), hlow⟩

/-- An envelope whose TTL exceeds its expiry: by the clock of second 100, in which it expires, it is
five seconds from the future, and its divisor wraps to 1. -/
def overlongEnvelope : Envelope := { sampleEnvelope with expiry := 100, ttl := 4294967291 }

def exactCrypto : Crypto := { sampleCrypto with float := .exact }

def overlongNode : Whisper := ((new {}).add exactCrypto 100 overlongEnvelope false).1

/-- Two seconds later, when it has expired, its divisor is the largest one, and the receiver
computes less than what the sender cached. -/
theorem forward_pow_drops :
    overlongEnvelope.Fresh ∧ overlongEnvelope.hash exactCrypto ∉ (new {}).envelopes ∧
    ∃ e', overlongNode.envelopes.lookup (overlongEnvelope.hash exactCrypto) = some e' ∧
      e' ∈ strictPeer.bundle exactCrypto overlongNode [overlongEnvelope.hash exactCrypto] ∧
      strictPeer.powRequirement = (new {}).settings.getMinPow ∧
      strictPeer.Recorded (new {}).settings.bloomFilter ∧
      (overlongEnvelope.divisor 100, overlongEnvelope.divisor 102) = (1, 4294967295) ∧
      ¬ (e'.pow exactCrypto).le (((e'.received exactCrypto).adjust exactCrypto 102).pow exactCrypto)
        = true := by
  refine ⟨⟨rfl, rfl⟩, by decide +kernel,
    (overlongEnvelope.adjust exactCrypto 100).fill exactCrypto, by decide +kernel,
    by decide +kernel, rfl, rfl, by decide, by decide +kernel⟩

end Whisperv6
