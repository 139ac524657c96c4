import Whisperv6.MessageLoop

/-! The size of the packet that a broadcast sends, against the limit that `add` puts on each
envelope of it and that the receiver puts on the packet. -/

namespace Whisperv6

open ProofKit

namespace Envelope

/-- The length of an envelope on the wire, from its fields. -/
def wireSize (e : Envelope) : Nat :=
  Rlp.listSize (Rlp.uintSize e.expiry.toNat + Rlp.uintSize e.ttl.toNat + 5 +
    Rlp.stringSize e.data + Rlp.uintSize e.nonce.toNat)

theorem length_encode (e : Envelope) : e.encode.length = e.wireSize := by
  have htopic : Rlp.stringSize e.topic.toList = 5 := by
    rw [Rlp.stringSize_of_length_ne_one] <;> simp [Rlp.headsize]
  rw [encode, Rlp.length_encodeList, wireSize]
  simp [Rlp.length_encodeUint, Rlp.length_encodeString, htopic, Nat.add_assoc]

end Envelope

/-- The length on the wire of the envelope under a hash. -/
def Whisper.wireSizeAt (w : Whisper) (h : Hash) : Nat :=
  ((w.envelopes.lookup h).map Envelope.wireSize).getD 0

namespace Peer

/-- The pooled hashes whose envelopes the peer does not know yet and asks for. -/
def unsent (C : Crypto) (p : Peer) (w : Whisper) : Finset Hash :=
  w.envelopes.keys.filter fun h => (w.envelopes.lookup h).any (p.selects C) = true

theorem length_bundlePacket (bundle : List Envelope) :
    (bundlePacket bundle).payload.length =
      Rlp.listSize (bundle.map Envelope.wireSize).sum := by
  have hmap : (bundle.map Envelope.encode).map List.length = bundle.map Envelope.wireSize := by
    rw [List.map_map]
    exact List.map_congr_left fun e _ => e.length_encode
  rw [← hmap, ← Rlp.length_encodeList]
  rfl

theorem map_wireSize_bundle (C : Crypto) (p : Peer) (w : Whisper) (order : List Hash) :
    (p.bundle C w order).map Envelope.wireSize =
      (order.filter fun h => (w.envelopes.lookup h).any (p.selects C)).map w.wireSizeAt := by
  induction order with
  | nil => rfl
  | cons h rest ih =>
    unfold bundle at ih ⊢
    cases he : w.envelopes.lookup h with
    | none => simpa [he] using ih
    | some e =>
      by_cases hs : p.selects C e = true
      · simpa [he, hs, Whisper.wireSizeAt] using ih
      · simpa [he, hs] using ih

theorem sum_wireSize_bundle {C : Crypto} {p : Peer} {w : Whisper} {order : List Hash}
    (ho : IsOrder w.envelopes.keys order) :
    ((p.bundle C w order).map Envelope.wireSize).sum = ∑ h ∈ p.unsent C w, w.wireSizeAt h := by
  rw [map_wireSize_bundle]
  exact (ho.filter _).sum_map _

theorem bundle_eq_nil_iff {C : Crypto} {p : Peer} {w : Whisper} {order : List Hash}
    (ho : IsOrder w.envelopes.keys order) : p.bundle C w order = [] ↔ p.unsent C w = ∅ := by
  have horder := ho.filter fun h => (w.envelopes.lookup h).any (p.selects C)
  rw [← List.map_eq_nil_iff (f := Envelope.wireSize), map_wireSize_bundle, List.map_eq_nil_iff]
  constructor
  · intro hnil
    refine Finset.eq_empty_of_forall_notMem fun h hh => ?_
    have hmem := horder.mem.mpr hh
    rw [hnil] at hmem
    cases hmem
  · intro hempty
    refine List.eq_nil_iff_forall_not_mem.mpr fun h hh => ?_
    have hmem : h ∈ p.unsent C w := horder.mem.mp hh
    rw [hempty] at hmem
    exact Finset.notMem_empty h hmem

/-- Every packet of a broadcast keeps the limit of its node, and no receiver with the same limit
drops the connection over it. -/
def BroadcastFits (C : Crypto) (p : Peer) (w : Whisper) (order : List Hash) : Prop :=
  ∀ written packet, (p.broadcast C w order written).2.2 = some packet →
    packet.size ≤ w.settings.maxMsgSize ∧
    ∀ receiver : Whisper, receiver.settings.maxMsgSize = w.settings.maxMsgSize →
      receiver.checkPacketSize packet = none

theorem broadcastFits_of_size {C : Crypto} {p : Peer} {w : Whisper} {order : List Hash}
    (h : (bundlePacket (p.bundle C w order)).size ≤ w.settings.maxMsgSize) :
    p.BroadcastFits C w order := by
  intro written packet hpacket
  obtain ⟨-, -, rfl⟩ := broadcast_packet.mp hpacket
  refine ⟨h, fun receiver hlimit => ?_⟩
  rw [Whisper.checkPacketSize, if_neg]
  rw [hlimit]
  exact UInt32.not_lt.mpr h

/-- The packet of a broadcast keeps the limit exactly when the envelopes that the peer has not got
fit into it with the headers of their RLP lists.  Their number and the headers are not bounded by
the limit on each envelope. -/
theorem broadcastFits_iff (C : Crypto) (p : Peer) (w : Whisper) {order : List Hash}
    (ho : IsOrder w.envelopes.keys order) :
    p.BroadcastFits C w order ↔ p.unsent C w = ∅ ∨
      Rlp.listSize (∑ h ∈ p.unsent C w, w.wireSizeAt h) % 2 ^ 32 ≤
        w.settings.maxMsgSize.toNat := by
  have hsize : (bundlePacket (p.bundle C w order)).size ≤ w.settings.maxMsgSize ↔
      Rlp.listSize (∑ h ∈ p.unsent C w, w.wireSizeAt h) % 2 ^ 32 ≤
        w.settings.maxMsgSize.toNat := by
    rw [← sum_wireSize_bundle ho, ← length_bundlePacket, UInt32.le_iff_toNat_le]
    exact Iff.rfl
  constructor
  · intro h
    by_cases hnil : p.bundle C w order = []
    · exact .inl ((bundle_eq_nil_iff ho).mp hnil)
    · exact .inr (hsize.mp (h true _ (broadcast_packet.mpr ⟨hnil, rfl, rfl⟩)).1)
  · rintro (hempty | hfits)
    · intro written packet hpacket
      exact absurd ((bundle_eq_nil_iff ho).mpr hempty) (broadcast_packet.mp hpacket).1
    · exact broadcastFits_of_size (hsize.mpr hfits)

theorem broadcastFits_iff_sample :
    IsOrder sampleNode.envelopes.keys [sampleEnvelope.hash sampleCrypto] ∧
    ({ id := 1 } : Peer).BroadcastFits sampleCrypto sampleNode
      [sampleEnvelope.hash sampleCrypto] := by
  have ho : IsOrder sampleNode.envelopes.keys [sampleEnvelope.hash sampleCrypto] := by
    decide +kernel
  exact ⟨ho, (broadcastFits_iff sampleCrypto { id := 1 } sampleNode ho).mpr
    (.inr (by decide +kernel))⟩

end Peer

/-- A second envelope of the size of the first. -/
def secondEnvelope : Envelope :=
  { sampleEnvelope with data := [0xca, 0xfe, 0xba, 0xbe], nonce := 57 }

/-- Keccak-256 on the inputs that the two sample envelopes give it. -/
def pairCrypto : Crypto :=
  { sampleCrypto with
    keccak256Hash := fun b =>
      if b = secondEnvelope.encode then
        0x31a6779c5f7b4ab4138c9574ceb45a91b1e2d824b473584ad9aca7410aa90d8a#256
      else if b = secondEnvelope.rlpWithoutNonce ++ putUint64 57 then
        0x93e5d7947fa703f551fdba92cc66dc5b1a4d986c7406c7764e8e9221f3c914#256
      else sampleKeccak b }

/-- A node with the limit 24 admits both envelopes, of size 24 each, one after the other. -/
def pairNode : Whisper :=
  let w := ((new { maxMessageSize := 24 }).add pairCrypto 1600000000 sampleEnvelope false).1
  (w.add pairCrypto 1600000000 secondEnvelope false).1

/-- The packet with the two envelopes has 38 bytes. -/
theorem Peer.not_broadcastFits_pair :
    pairNode.settings.maxMsgSize = 24 ∧
    pairNode.envelopes.keys =
      {sampleEnvelope.hash pairCrypto, secondEnvelope.hash pairCrypto} ∧
    ¬ ({ id := 1 } : Peer).BroadcastFits pairCrypto pairNode
      [sampleEnvelope.hash pairCrypto, secondEnvelope.hash pairCrypto] := by
  refine ⟨by decide +kernel, by decide +kernel, fun h => ?_⟩
  have hlarge : ¬ (bundlePacket (({ id := 1 } : Peer).bundle pairCrypto pairNode
      [sampleEnvelope.hash pairCrypto, secondEnvelope.hash pairCrypto])).size ≤
      pairNode.settings.maxMsgSize := by decide +kernel
  exact hlarge (h true _ (broadcast_packet.mpr ⟨by decide +kernel, rfl, rfl⟩)).1

end Whisperv6
