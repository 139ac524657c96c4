import Whisperv6.DirectChannel

/-! What mail servers exchange to sync their archives.  The decoders return what the encoders were
given, with the sizes and hashes of envelopes that come from the network. -/

namespace Whisperv6

open ProofKit

theorem bool_of_reads {b : Bool} {s t : Rlp.Stream} (h : s.Reads (encodeBool b) t) :
    Rlp.bool s = .ok (b, t) := by
  rw [Rlp.bool_ok]
  cases b <;> exact h

/-! ### Requests -/

namespace SyncMailRequest

def items (r : SyncMailRequest) : List Bytes :=
  [Rlp.encodeUint r.lower.toNat, Rlp.encodeUint r.upper.toNat, Rlp.encodeString r.bloom,
    Rlp.encodeUint r.limit.toNat, Rlp.encodeString r.cursor]

def encode (r : SyncMailRequest) : Bytes := Rlp.encodeList r.items

theorem length_items_le (r : SyncMailRequest) : r.items.flatten.length ≤ r.encode.length :=
  Rlp.length_flatten_le r.items

theorem decode_of_reads {r : SyncMailRequest} (hlen : r.encode.length < 2 ^ 32) {s t : Rlp.Stream}
    (h : s.Reads r.encode t) : decode s = .ok (r, t) := by
  have huint : ∀ {v : UInt32} {s t}, s.Reads (Rlp.encodeUint v.toNat) t →
      Rlp.uint 32 s = .ok (v.toNat, t) := fun hv =>
    (Rlp.uint_ok (n := 4) (by omega) (by omega)).mpr ⟨UInt32.toNat_lt _, hv⟩
  have hitems := r.length_items_le
  refine Rlp.decodeStruct_of_reads (fun u v hu => ?_) (by omega) h
  have hbloom : r.bloom.length < 2 ^ 64 := by
    have := Rlp.length_le_stringSize r.bloom
    have := Rlp.length_encodeString r.bloom
    simp only [items, List.flatten_cons, List.length_append] at hitems
    omega
  have hcursor : r.cursor.length < 2 ^ 64 := by
    have := Rlp.length_le_stringSize r.cursor
    have := Rlp.length_encodeString r.cursor
    simp only [items, List.flatten_cons, List.length_append] at hitems
    omega
  simp only [items, List.flatten_cons, List.flatten_nil, List.append_nil,
    Rlp.Stream.reads_append] at hu
  obtain ⟨a, hlower, b, hupper, c, hb, d, hlimit, hc⟩ := hu
  simp only [Rlp.bind_ok, Rlp.pure_ok, Rlp.decodeField, Rlp.decodeUint, Rlp.decodeByteSlice,
    Rlp.mapError_ok, Rlp.bytes_ok]
  refine ⟨_, a, huint hlower, _, b, huint hupper, _, c, ⟨hbloom, hb⟩, _, d, huint hlimit, _, v,
    ⟨hcursor, hc⟩, ?_, rfl⟩
  simp only [UInt32.ofNat_toNat]

end SyncMailRequest

/-- `SyncMessages` to the peer that `getPeer` has found. -/
def syncMessages (w : Whisper) (p : Peer) (req : SyncMailRequest) (sent : Option GoError) :
    Request :=
  if w.mailServer then
    match req.validate with
    | some err => { whisper := w, peer := p, written := none, returned := some err }
    | none =>
      { whisper := w
        peer := p
        written := some (sendPacket p2pSyncRequestCode req.encode)
        returned := sent }
  else
    { whisper := w
      peer := p
      written := none
      returned := some (newError "can not sync messages if Mail Server is not configured") }

section Jobs

variable {r : SyncMailRequest} {w : Whisper}

/-- A valid request reaches `SyncMail`. -/
theorem syncRequestJobs_valid (hlen : r.encode.length < 2 ^ 32) (hw : w.mailServer = true)
    (hr : r.validate = none) :
    (sendPacket p2pSyncRequestCode r.encode).syncRequestJobs w = .ok [.call (.syncMail r)] := by
  obtain ⟨t, hreads⟩ := reads_sendPacket p2pSyncRequestCode hlen
  rw [Packet.syncRequestJobs, if_pos hw,
    Packet.decode_ok (SyncMailRequest.decode_of_reads hlen hreads)]
  dsimp only
  rw [hr]

/-- Any other request ends the loop. -/
theorem syncRequestJobs_invalid (hlen : r.encode.length < 2 ^ 32) (hw : w.mailServer = true)
    {err : GoError} (hr : r.validate = some err) :
    (sendPacket p2pSyncRequestCode r.encode).syncRequestJobs w =
      invalid ("sync mail request was invalid: " ++ err.text) := by
  obtain ⟨t, hreads⟩ := reads_sendPacket p2pSyncRequestCode hlen
  rw [Packet.syncRequestJobs, if_pos hw,
    Packet.decode_ok (SyncMailRequest.decode_of_reads hlen hreads)]
  dsimp only
  rw [hr]

end Jobs

/-! ### Answers -/

namespace SyncResponse

/-- The answer as it is decoded. -/
def received (C : Crypto) (r : SyncResponse) : SyncResponse :=
  { r with envelopes := r.envelopes.map (Envelope.received C) }

theorem decode_of_reads (C : Crypto) {r : SyncResponse} (hlen : r.encode.length < 2 ^ 32)
    {s t : Rlp.Stream} (h : s.Reads r.encode t) : decode C s = .ok (r.received C, t) := by
  have hitems := Rlp.length_flatten_le
    [Rlp.encodeList (r.envelopes.map Envelope.encode), Rlp.encodeString r.cursor,
      encodeBool r.final, Rlp.encodeString r.error]
  have hall : _ ≤ r.encode.length := hitems
  refine Rlp.decodeStruct_of_reads (fun u v hu => ?_) (by omega) h
  have hcursor := Rlp.length_le_stringSize r.cursor
  have herror := Rlp.length_le_stringSize r.error
  rw [← Rlp.length_encodeString] at hcursor herror
  simp only [List.flatten_cons, List.length_append] at hall
  simp only [List.flatten_cons, List.flatten_nil, List.append_nil, Rlp.Stream.reads_append] at hu
  obtain ⟨a, hes, b, hc, d, hf, he⟩ := hu
  simp only [Rlp.bind_ok, Rlp.pure_ok, Rlp.decodeField, Rlp.decodeBool, Rlp.decodeByteSlice,
    Rlp.mapError_ok, Rlp.bytes_ok]
  exact ⟨_, a, decodeEnvelopes_of_reads C (by omega) hes, _, b, ⟨by omega, hc⟩, _, d,
    bool_of_reads hf, _, v, ⟨by omega, he⟩, rfl, rfl⟩

end SyncResponse

/-- `RawSyncResponse`: the envelopes as they are stored. -/
structure RawSyncResponse where
  envelopes : List Bytes
  cursor : Bytes
  final : Bool
  error : Bytes

/-- `SendRawSyncResponse`. -/
def sendRawSyncResponse (data : RawSyncResponse) : Packet :=
  sendPacket p2pSyncResponseCode (Rlp.encodeList [Rlp.encodeList data.envelopes,
    Rlp.encodeString data.cursor, encodeBool data.final, Rlp.encodeString data.error])

/-- The packets of `SendSyncResponse` and of `SendRawSyncResponse` are the same. -/
theorem sendRawSyncResponse_encode (r : SyncResponse) :
    sendRawSyncResponse ⟨r.envelopes.map Envelope.encode, r.cursor, r.final, r.error⟩ =
      sendSyncResponse r := rfl

/-- What the loop does with an answer: it archives the envelopes, and the last answer ends the
sync. -/
def SyncResponse.jobs (C : Crypto) (r : SyncResponse) (id : NodeID) : List Job :=
  (r.envelopes.map fun e => .archive (e.received C)) ++
    if r.error ≠ [] ∨ r.final then
      [.send { event := .mailServerSyncFinished, peer := id, data := .sync r.cursor r.error }]
    else []

theorem syncResponseJobs_response (C : Crypto) {r : SyncResponse}
    (hlen : r.encode.length < 2 ^ 32) {w : Whisper} {p : Peer} (hw : w.mailServer = true)
    (hp : p.trusted = true) :
    (sendSyncResponse r).syncResponseJobs C w p = .ok (r.jobs C p.id) := by
  obtain ⟨t, hreads⟩ := reads_sendPacket p2pSyncResponseCode hlen
  have hboth : (p.trusted && w.mailServer) = true := by rw [hp, hw]; rfl
  rw [Packet.syncResponseJobs, if_pos hboth, sendSyncResponse,
    Packet.decode_ok (SyncResponse.decode_of_reads C hlen hreads)]
  have henvelopes : (r.received C).envelopes.map Job.archive =
      r.envelopes.map fun e => .archive (e.received C) := List.map_map
  exact congrArg (fun jobs => Except.ok (jobs ++ _)) henvelopes

end Whisperv6
