import Whisperv6.Peer
import Whisperv6.ProofKit.RlpStream
import Whisperv6.Tolerance

/-! The packets by which a node tells its peers what it requires, and what a peer makes of them. -/

namespace Whisperv6

open ProofKit

/-- `ProtocolVersion`. -/
def protocolVersion : Nat := 6

/-! ### Sending -/

/-- The packet that `p2p.Send` writes for data with the encoding `data`. -/
def sendPacket (code : Nat) (data : Bytes) : Packet where
  code := code
  size := UInt32.ofNat data.length
  payload := data

def encodeBool (b : Bool) : Bytes := if b then [0x01] else [0x80]

/-- The packet of `handshake`, from the values of the settings that it has loaded. -/
def statusPacket (pow : Float64) (bloom : Option Bytes) (isLightNode confirmationsEnabled : Bool) :
    Packet :=
  sendPacket statusCode (Rlp.encodeList
    [Rlp.encodeUint protocolVersion, Rlp.encodeUint pow.toNat, Rlp.encodeString (bloom.getD []),
      encodeBool isLightNode, encodeBool confirmationsEnabled])

/-- A new value of one of the two settings that peers are told about. -/
inductive Change
  | pow (val : Float64)
  | bloom (filter : Bytes)
  deriving DecidableEq

/-- The packets of `notifyAboutPowRequirementChange` and `notifyAboutBloomFilterChange`. -/
def Change.packet : Change → Packet
  | .pow val => sendPacket powRequirementCode (Rlp.encodeUint val.toNat)
  | .bloom filter => sendPacket bloomFilterExCode (Rlp.encodeString filter)

/-! ### Receiving -/

/-- The check of `handshake` on the code of the first packet from a peer. -/
def Peer.checkStatus (p : Peer) (packet : Packet) : Option GoError :=
  if packet.code ≠ statusCode then
    some (newError ("peer [" ++ hex (Hash.bytes p.id) ++ "] sent packet " ++
      String.ofList (Nat.toDigits 16 packet.code) ++ " before status packet"))
  else none

/-- The stream over the payload of a packet. -/
def Packet.stream (packet : Packet) : Rlp.Stream where
  input := packet.payload
  remaining := packet.size.toNat

/-- The check on a proof of work that a peer asks for. -/
def invalidPow (f : Float64) : Bool := f.isInf || f.isNaN || f.value.lt .zero

/-- The case `powRequirementCode` of `runMessageLoop`: the peer after it, or the error that ends the
loop. -/
def Peer.receivePow (p : Peer) (packet : Packet) : Except GoError Peer :=
  match Rlp.uint 64 packet.stream with
  | .error _ => .error (newError "invalid powRequirementCode message")
  | .ok (i, _) =>
    let f : Float64 := BitVec.ofNat 64 i
    if invalidPow f then .error (newError "invalid value in powRequirementCode message")
    else .ok { p with powRequirement := f }

/-- The case `bloomFilterExCode` of `runMessageLoop`. -/
def Peer.receiveBloom (p : Peer) (packet : Packet) : Except GoError Peer :=
  match Rlp.decodeByteSlice "[]uint8" packet.stream with
  | .error _ => .error (newError "invalid bloom filter exchange message")
  | .ok (bloom, _) =>
    if bloom.length ≠ bloomFilterSize then
      .error (newError "invalid bloom filter exchange message")
    else .ok (p.setBloomFilter (some bloom))

/-- The remote end of a connection: what it holds for this node, its limit on the size of packets,
and the error with which its message loop has returned. -/
structure Remote where
  peer : Peer
  maxMsgSize : UInt32
  returned : Option GoError := none

/-- One round of the message loop of the remote, as far as the two settings go. -/
def Remote.handle (r : Remote) (packet : Packet) : Remote :=
  if r.returned.isSome then r
  else if r.maxMsgSize < packet.size then
    { r with returned := some (newError "oversized message received") }
  else if packet.code = powRequirementCode then
    match r.peer.receivePow packet with
    | .ok p => { r with peer := p }
    | .error err => { r with returned := some err }
  else if packet.code = bloomFilterExCode then
    match r.peer.receiveBloom packet with
    | .ok p => { r with peer := p }
    | .error err => { r with returned := some err }
  else r

/-! ### A change arrives -/

namespace Change

/-- The remote accepts the value. -/
def Sound : Change → Prop
  | .pow val => invalidPow val = false
  | .bloom filter => filter.length = bloomFilterSize

/-- What the remote holds for this node after it has read the change. -/
def apply : Change → Peer → Peer
  | .pow val, p => { p with powRequirement := val }
  | .bloom filter, p => p.setBloomFilter (some filter)

end Change

/-- The stream over a packet that was sent reads its data. -/
theorem reads_sendPacket (code : Nat) {data : Bytes} (hlen : data.length < 2 ^ 32) :
    ∃ t, (sendPacket code data).stream.Reads data t := by
  have hstream : (sendPacket code data).stream = { input := data, remaining := data.length } := by
    simp only [Packet.stream, sendPacket, UInt32.toNat_ofNat']
    rw [Nat.mod_eq_of_lt hlen]
  rw [hstream]
  obtain ⟨t, -, hreads⟩ := Rlp.reads_all.mpr (rfl : data = data)
  exact ⟨t, hreads⟩

theorem uint_powPacket (val : Float64) :
    ∃ t, Rlp.uint 64 (Change.pow val).packet.stream = .ok (val.toNat, t) := by
  have hlen : (Rlp.encodeUint val.toNat).length < 2 ^ 32 := by
    rw [Rlp.length_encodeUint]
    have := Rlp.uintSize_le (i := val.toNat) val.isLt
    omega
  obtain ⟨t, hreads⟩ := reads_sendPacket powRequirementCode hlen
  exact ⟨t, (Rlp.uint_ok (n := 8) (by omega) (by omega)).mpr ⟨val.isLt, hreads⟩⟩

theorem Peer.receivePow_packet (p : Peer) {val : Float64} (h : invalidPow val = false) :
    p.receivePow (Change.pow val).packet = .ok { p with powRequirement := val } := by
  obtain ⟨t, huint⟩ := uint_powPacket val
  rw [receivePow, huint]
  simp [h]

theorem Peer.receivePow_invalid (p : Peer) {val : Float64} (h : invalidPow val = true) :
    p.receivePow (Change.pow val).packet =
      .error (newError "invalid value in powRequirementCode message") := by
  obtain ⟨t, huint⟩ := uint_powPacket val
  rw [receivePow, huint]
  simp [h]

theorem Peer.receiveBloom_packet (p : Peer) {filter : Bytes}
    (h : filter.length = bloomFilterSize) :
    p.receiveBloom (Change.bloom filter).packet = .ok (p.setBloomFilter (some filter)) := by
  have hlen : (Rlp.encodeString filter).length < 2 ^ 32 := by
    rw [Rlp.length_encodeString]
    have := Rlp.stringSize_le (b := filter) (by rw [h]; decide)
    rw [h] at this
    have hsize : bloomFilterSize = 64 := rfl
    omega
  obtain ⟨t, hreads⟩ := reads_sendPacket bloomFilterExCode hlen
  have hbytes : Rlp.decodeByteSlice "[]uint8" (Change.bloom filter).packet.stream =
      .ok (filter, t) :=
    Rlp.mapError_ok.mpr (Rlp.bytes_ok.mpr ⟨by rw [h]; decide, hreads⟩)
  rw [receiveBloom, hbytes]
  simp [h]

/-- A packet about a change has at most 66 bytes. -/
theorem Change.size_packet_le {v : Change} (h : v.Sound) : v.packet.size ≤ 66 := by
  have hofNat : ∀ n, n ≤ 66 → UInt32.ofNat n ≤ 66 := by
    intro n hn
    rw [UInt32.le_iff_toNat_le, UInt32.toNat_ofNat']
    exact (Nat.mod_le _ _).trans hn
  cases v with
  | pow val =>
    refine hofNat _ ?_
    rw [Rlp.length_encodeUint]
    exact (Rlp.uintSize_le val.isLt).trans (by omega)
  | bloom filter =>
    have hlen : filter.length = bloomFilterSize := h
    refine hofNat _ ?_
    rw [Rlp.length_encodeString, Rlp.stringSize_of_length_ne_one (by rw [hlen]; decide), hlen]
    decide

/-- A change that the remote reads in its loop takes effect. -/
theorem Remote.handle_packet {r : Remote} {v : Change} (h : v.Sound) (hopen : r.returned = none)
    (hsize : 66 ≤ r.maxMsgSize) : r.handle v.packet = { r with peer := v.apply r.peer } := by
  have hfits : ¬ r.maxMsgSize < v.packet.size := by
    rw [UInt32.not_lt]
    exact UInt32.le_trans (Change.size_packet_le h) hsize
  rw [handle, if_neg (by simp [hopen]), if_neg hfits]
  cases v with
  | pow val =>
    have hcode : (Change.pow val).packet.code = powRequirementCode := rfl
    rw [if_pos hcode, r.peer.receivePow_packet h]
    rfl
  | bloom filter =>
    have hcode : (Change.bloom filter).packet.code = bloomFilterExCode := rfl
    rw [if_neg (by rw [hcode]; decide), if_pos hcode, r.peer.receiveBloom_packet h]
    rfl

end Whisperv6
