import Whisperv6.MessageLoop
import Whisperv6.Notification
import Whisperv6.WireFormat
import Whisperv6.ProofKit.RlpSlice

/-! What nodes and mail servers exchange directly: requests for old messages, the messages of an
answer, the end of an answer, and the confirmations of bundles. -/

namespace Whisperv6

open ProofKit

/-- `common.HashLength`. -/
def hashLength : Nat := 32

/-- `common.BytesToHash`: the last 32 bytes, after zeros where there are fewer. -/
def bytesToHash (b : Bytes) : Hash := BitVec.ofNat 256 (Rlp.beValue b)

/-! ### Requests -/

/-- `MessagesRequest`.  `fromTime` and `toTime` are the fields `From` and `To`. -/
structure MessagesRequest where
  id : Bytes
  fromTime : UInt32
  toTime : UInt32
  limit : UInt32
  cursor : Bytes
  bloom : Bytes
  deriving DecidableEq

namespace MessagesRequest

def validate (r : MessagesRequest) : Option GoError :=
  if r.id.length ≠ hashLength then some (newError "invalid 'ID', expected a 32-byte slice")
  else if r.toTime < r.fromTime then
    some (newError "invalid 'From' value which is greater than To")
  else if maxLimitInMessagesRequest < r.limit then
    some (newError ("invalid 'Limit' value, expected value lower than " ++
      toString maxLimitInMessagesRequest))
  else if r.bloom.length = 0 then some (newError "invalid 'Bloom' provided")
  else none

def items (r : MessagesRequest) : List Bytes :=
  [Rlp.encodeString r.id, Rlp.encodeUint r.fromTime.toNat, Rlp.encodeUint r.toTime.toNat,
    Rlp.encodeUint r.limit.toNat, Rlp.encodeString r.cursor, Rlp.encodeString r.bloom]

def encode (r : MessagesRequest) : Bytes := Rlp.encodeList r.items

def decodeFields : Rlp.Reader MessagesRequest := do
  let typ := "whisperv6.MessagesRequest"
  let id ← Rlp.decodeField typ "ID" (Rlp.decodeByteSlice "[]uint8")
  let fromTime ← Rlp.decodeField typ "From" (Rlp.decodeUint "uint32" 32)
  let toTime ← Rlp.decodeField typ "To" (Rlp.decodeUint "uint32" 32)
  let limit ← Rlp.decodeField typ "Limit" (Rlp.decodeUint "uint32" 32)
  let cursor ← Rlp.decodeField typ "Cursor" (Rlp.decodeByteSlice "[]uint8")
  let bloom ← Rlp.decodeField typ "Bloom" (Rlp.decodeByteSlice "[]uint8")
  pure
    { id
      fromTime := UInt32.ofNat fromTime
      toTime := UInt32.ofNat toTime
      limit := UInt32.ofNat limit
      cursor
      bloom }

def decode : Rlp.Reader MessagesRequest :=
  Rlp.decodeStruct "whisperv6.MessagesRequest" decodeFields

end MessagesRequest

structure SyncMailRequest where
  lower : UInt32
  upper : UInt32
  bloom : Bytes
  limit : UInt32
  cursor : Bytes
  deriving DecidableEq

namespace SyncMailRequest

def validate (r : SyncMailRequest) : Option GoError :=
  if r.limit = 0 then some (newError "invalid 'Limit' value, expected value greater than 0")
  else if maxLimitInSyncMailRequest < r.limit then
    some (newError ("invalid 'Limit' value, expected value lower than " ++
      toString maxLimitInSyncMailRequest))
  else if r.upper < r.lower then
    some (newError "invalid 'Lower' value, can't be greater than 'Upper'")
  else none

def decode : Rlp.Reader SyncMailRequest := do
  let typ := "whisperv6.SyncMailRequest"
  Rlp.decodeStruct typ do
    let lower ← Rlp.decodeField typ "Lower" (Rlp.decodeUint "uint32" 32)
    let upper ← Rlp.decodeField typ "Upper" (Rlp.decodeUint "uint32" 32)
    let bloom ← Rlp.decodeField typ "Bloom" (Rlp.decodeByteSlice "[]uint8")
    let limit ← Rlp.decodeField typ "Limit" (Rlp.decodeUint "uint32" 32)
    let cursor ← Rlp.decodeField typ "Cursor" (Rlp.decodeByteSlice "[]uint8")
    pure
      { lower := UInt32.ofNat lower
        upper := UInt32.ofNat upper
        bloom
        limit := UInt32.ofNat limit
        cursor }

end SyncMailRequest

/-- The calls of a message loop to the mail server, `Archive` apart. -/
inductive MailCall
  | deliverMail (request : Envelope)
  | deliver (request : MessagesRequest)
  | syncMail (request : SyncMailRequest)
  deriving DecidableEq

/-! ### Answers -/

/-- `[]*Envelope`. -/
def decodeEnvelopes (C : Crypto) : Rlp.Reader (List Envelope) :=
  Rlp.decodeSlice "[]*whisperv6.Envelope" (Envelope.decodeRLP C)

structure SyncResponse where
  envelopes : List Envelope := []
  cursor : Bytes := []
  final : Bool := false
  error : Bytes := []
  deriving DecidableEq

namespace SyncResponse

def encode (r : SyncResponse) : Bytes :=
  Rlp.encodeList [Rlp.encodeList (r.envelopes.map Envelope.encode), Rlp.encodeString r.cursor,
    encodeBool r.final, Rlp.encodeString r.error]

def decode (C : Crypto) : Rlp.Reader SyncResponse := do
  let typ := "whisperv6.SyncResponse"
  Rlp.decodeStruct typ do
    let envelopes ← Rlp.decodeField typ "Envelopes" (decodeEnvelopes C)
    let cursor ← Rlp.decodeField typ "Cursor" (Rlp.decodeByteSlice "[]uint8")
    let final ← Rlp.decodeField typ "Final" (Rlp.decodeBool "bool")
    let error ← Rlp.decodeField typ "Error" (Rlp.decodeByteSlice "string")
    pure { envelopes, cursor, final, error }

end SyncResponse

/-! ### The end of an answer -/

def mailServerFailedPayloadPrefix : Bytes := goString "ERROR="
def cursorSize : Nat := 36

def invalidResponseSizeError (size : Nat) : GoError :=
  newError ("unexpected payload size: " ++ toString size)

def createMailServerRequestCompletedPayload (requestID lastEnvelopeHash : Hash) (cursor : Bytes) :
    Bytes :=
  requestID.bytes ++ lastEnvelopeHash.bytes ++ cursor

def createMailServerRequestFailedPayload (requestID : Hash) (err : GoError) : Bytes :=
  mailServerFailedPayloadPrefix ++ requestID.bytes ++ goString err.text

def extractPrefix (payload : Bytes) (size : Nat) : Except Fault (Bytes × Bytes) := do
  let head ← slice payload 0 size
  let remainder ← slice payload size payload.length
  pure (head, remainder)

def extractHash (payload : Bytes) : Except Fault (Hash × Bytes) := do
  let (head, remainder) ← extractPrefix payload hashLength
  pure (bytesToHash head, remainder)

/-- `tryCreateMailServerRequestFailedEvent`, where `none` is a nil event. -/
def tryCreateMailServerRequestFailedEvent (nodeID : NodeID) (payload : Bytes) :
    Except Fault (Option EnvelopeEvent) :=
  if payload.length < hashLength + mailServerFailedPayloadPrefix.length then .ok none
  else do
    let (head, remainder) ← extractPrefix payload mailServerFailedPayloadPrefix.length
    if head ≠ mailServerFailedPayloadPrefix then pure none
    else
      let (requestID, remainder) ← extractHash remainder
      pure (some
        { peer := nodeID
          hash := requestID
          event := .mailServerRequestCompleted
          data := .mailServer { error := some remainder } })

/-- The optional hash after the request: the hash and what is left. -/
def extractLastHash (remainder : Bytes) : Except Fault (Hash × Bytes) :=
  if hashLength ≤ remainder.length then extractHash remainder else .ok (0, remainder)

def tryCreateMailServerRequestCompletedEvent (nodeID : NodeID) (payload : Bytes) :
    Except Fault EnvelopeEvent :=
  if hashLength * 2 + cursorSize < payload.length then
    .error (.error (invalidResponseSizeError payload.length))
  else do
    let (requestID, remainder) ← extractHash payload
    let (lastEnvelopeHash, remainder) ← extractLastHash remainder
    pure
      { peer := nodeID
        hash := requestID
        event := .mailServerRequestCompleted
        data := .mailServer
          { lastEnvelopeHash
            cursor := if cursorSize ≤ remainder.length then remainder else [] } }

def createMailServerEvent (nodeID : NodeID) (payload : Bytes) : Except Fault EnvelopeEvent :=
  if payload.length < hashLength then .error (.error (invalidResponseSizeError payload.length))
  else do
    match ← tryCreateMailServerRequestFailedEvent nodeID payload with
    | some event => pure event
    | none => tryCreateMailServerRequestCompletedEvent nodeID payload

/-! ### Confirmations -/

namespace ReportedError

def items (e : ReportedError) : List Bytes :=
  [Rlp.encodeString e.hash.bytes, Rlp.encodeUint e.code.toNat, Rlp.encodeString e.description]

def encode (e : ReportedError) : Bytes := Rlp.encodeList e.items

def decodeFields : Rlp.Reader ReportedError := do
  let typ := "whisperv6.EnvelopeError"
  let hash ← Rlp.decodeField typ "Hash" (Rlp.decodeByteArray "common.Hash" hashLength)
  let code ← Rlp.decodeField typ "Code" (Rlp.decodeUint "uint" 64)
  let description ← Rlp.decodeField typ "Description" (Rlp.decodeByteSlice "string")
  pure { hash := bytesToHash hash, code := UInt64.ofNat code, description }

def decode : Rlp.Reader ReportedError := Rlp.decodeStruct "whisperv6.EnvelopeError" decodeFields

/-- What a decoding that fails leaves in its target: the fields before the one that failed. -/
def stored (s : Rlp.Stream) : ReportedError :=
  let e : ReportedError := { hash := 0, code := 0, description := [] }
  match Rlp.list s with
  | .error _ => e
  | .ok (_, s) =>
    match Rlp.decodeByteArray "common.Hash" hashLength s with
    | .error _ => e
    | .ok (hash, s) =>
      let e := { e with hash := bytesToHash hash }
      match Rlp.uint 64 s with
      | .error _ => e
      | .ok (code, s) =>
        let e := { e with code := UInt64.ofNat code }
        match Rlp.bytes s with
        | .error _ => e
        | .ok (description, _) => { e with description }

end ReportedError

structure MessagesResponse where
  hash : Hash := 0
  errors : List ReportedError := []
  deriving DecidableEq

namespace MessagesResponse

def items (r : MessagesResponse) : List Bytes :=
  [Rlp.encodeString r.hash.bytes, Rlp.encodeList (r.errors.map ReportedError.encode)]

def encode (r : MessagesResponse) : Bytes := Rlp.encodeList r.items

def decodeFields : Rlp.Reader MessagesResponse := do
  let typ := "whisperv6.MessagesResponse"
  let hash ← Rlp.decodeField typ "Hash" (Rlp.decodeByteArray "common.Hash" hashLength)
  let errors ← Rlp.decodeField typ "Errors"
    (Rlp.decodeSlice "[]whisperv6.EnvelopeError" ReportedError.decode)
  pure { hash := bytesToHash hash, errors }

def decode : Rlp.Reader MessagesResponse :=
  Rlp.decodeStruct "whisperv6.MessagesResponse" decodeFields

/-- The slice that a decoding that fails leaves: its last element is the one that failed. -/
def storedErrors : (fuel : Nat) → Rlp.Stream → List ReportedError
  | 0, _ => []
  | fuel + 1, s =>
    match ReportedError.decode s with
    | .error .endOfList => []
    | .error _ => [ReportedError.stored s]
    | .ok (e, s) => e :: storedErrors fuel s

/-- What a decoding that fails leaves in its target. -/
def stored (s : Rlp.Stream) : MessagesResponse :=
  match Rlp.list s with
  | .error _ => {}
  | .ok (_, s) =>
    match Rlp.decodeByteArray "common.Hash" hashLength s with
    | .error _ => {}
    | .ok (hash, s) =>
      match Rlp.list s with
      | .error _ => { hash := bytesToHash hash }
      | .ok (_, s) => { hash := bytesToHash hash, errors := storedErrors (s.input.length + 1) s }

end MessagesResponse

/-- `Version1MessageResponse`, which `NewMessagesResponse` returns for the version 1. -/
structure Version1MessageResponse where
  version : UInt64
  response : MessagesResponse

def Version1MessageResponse.items (r : Version1MessageResponse) : List Bytes :=
  [Rlp.encodeUint r.version.toNat, r.response.encode]

def Version1MessageResponse.encode (r : Version1MessageResponse) : Bytes := Rlp.encodeList r.items

def newMessagesResponse (batch : Hash) (errors : List ReportedError) :
    Version1MessageResponse where
  version := 1
  response := { hash := batch, errors }

/-- `MultiVersionResponse`, with the response left encoded. -/
structure MultiVersionResponse where
  version : UInt64
  response : Bytes

namespace MultiVersionResponse

def decode : Rlp.Reader MultiVersionResponse := do
  let typ := "whisperv6.MultiVersionResponse"
  Rlp.decodeStruct typ do
    let version ← Rlp.decodeField typ "Version" (Rlp.decodeUint "uint" 64)
    let response ← Rlp.decodeField typ "Response" Rlp.raw
    pure { version := UInt64.ofNat version, response }

/-- `DecodeResponse1`.  The result is read after the call that fills it, so a response comes with an
error too. -/
def decodeResponse1 (m : MultiVersionResponse) : MessagesResponse × Option Rlp.Error :=
  match Rlp.decodeBytes "whisperv6.MessagesResponse" MessagesResponse.decode m.response with
  | .ok r => (r, none)
  | .error err =>
    (MessagesResponse.stored { input := m.response, remaining := m.response.length }, some err)

end MultiVersionResponse

/-! ### What the decoders accept -/

theorem Hash.bytes_eq_reverse (h : Hash) : h.bytes = (leBytes 32 h.toNat).reverse := by
  rw [leBytes_eq_map, ← List.map_reverse]
  rfl

@[simp] theorem Hash.length_bytes (h : Hash) : h.bytes.length = hashLength := by
  simp [bytes, hashLength]

@[simp] theorem bytesToHash_bytes (h : Hash) : bytesToHash h.bytes = h := by
  have hlt : h.toNat < 256 ^ 32 := h.isLt
  rw [bytesToHash, Rlp.beValue, Hash.bytes_eq_reverse, List.reverse_reverse, leValue_leBytes,
    Nat.mod_eq_of_lt hlt]
  exact BitVec.ofNat_toNat 256 h |>.trans (BitVec.setWidth_eq h)

theorem bytes_bytesToHash {b : Bytes} (hlen : b.length = hashLength) :
    (bytesToHash b).bytes = b := by
  have hlt : Rlp.beValue b < 256 ^ 32 := by
    have := Rlp.beValue_lt b
    rwa [hlen] at this
  have hval : (bytesToHash b).toNat = Rlp.beValue b := Nat.mod_eq_of_lt hlt
  have hrev : b.reverse.length = 32 := by rw [List.length_reverse, hlen]; rfl
  rw [Hash.bytes_eq_reverse, hval, Rlp.beValue, ← hrev, leBytes_leValue, List.reverse_reverse]

/-- A hash is read from its 32 bytes only. -/
theorem decodeHash_ok {h : Hash} {s t : Rlp.Stream} :
    (∃ b, Rlp.decodeByteArray "common.Hash" hashLength s = .ok (b, t) ∧ bytesToHash b = h) ↔
      s.Reads (Rlp.encodeString h.bytes) t := by
  simp only [Rlp.decodeByteArray_ok (n := hashLength) (by decide) (by decide)]
  constructor
  · rintro ⟨b, ⟨hlen, hreads⟩, rfl⟩
    rwa [bytes_bytesToHash hlen]
  · intro hreads
    exact ⟨h.bytes, ⟨h.length_bytes, hreads⟩, bytesToHash_bytes h⟩

theorem Envelope.decodeRLP_end {C : Crypto} {s : Rlp.Stream}
    (h : Rlp.checkEnd s = .error .endOfList) :
    decodeRLP C s = .error .endOfList := by
  show (Rlp.raw s >>= _) = _
  rw [Rlp.raw_end h]
  rfl

/-- Envelopes are decoded from the list of their encodings only. -/
theorem decodeEnvelopes_ok {C : Crypto} {es : List Envelope} {s t : Rlp.Stream} :
    decodeEnvelopes C s = .ok (es, t) ↔
      (∀ e ∈ es, e.received C = e ∧ e.items.flatten.length < 2 ^ 64) ∧
      (es.map Envelope.encode).flatten.length < 2 ^ 64 ∧
      s.Reads (Rlp.encodeList (es.map Envelope.encode)) t :=
  Rlp.decodeSlice_ok (fun _ _ _ => Envelope.decodeRLP_ok) (fun _ => Envelope.decodeRLP_end)
    fun e _ => List.length_pos_iff.mp (Rlp.length_encodeList_pos e.items)

namespace MessagesRequest

/-- The lengths that the encoding of a slice can express. -/
def Encodable (r : MessagesRequest) : Prop :=
  r.id.length < 2 ^ 64 ∧ r.cursor.length < 2 ^ 64 ∧ r.bloom.length < 2 ^ 64

theorem decodeFields_ok {r : MessagesRequest} {s t : Rlp.Stream} :
    decodeFields s = .ok (r, t) ↔ r.Encodable ∧ s.Reads r.items.flatten t := by
  have huint : ∀ {v s t}, Rlp.uint 32 s = .ok (v, t) ↔
      v < 256 ^ 4 ∧ s.Reads (Rlp.encodeUint v) t := Rlp.uint_ok (n := 4) (by omega) (by omega)
  unfold decodeFields
  simp only [items, List.flatten_cons, List.flatten_nil, List.append_nil, Rlp.Stream.reads_append,
    Rlp.bind_ok, Rlp.pure_ok, Rlp.decodeField, Rlp.decodeUint, Rlp.decodeByteSlice,
    Rlp.mapError_ok, Rlp.bytes_ok, huint]
  constructor
  · rintro ⟨id, a, ⟨hid, ha⟩, fromTime, b, ⟨hfrom, hb⟩, toTime, c, ⟨hto, hc⟩, limit, d,
      ⟨hlimit, hd⟩, cursor, e, ⟨hcursor, he⟩, bloom, t', ⟨hbloom, ht⟩, rfl, rfl⟩
    refine ⟨⟨hid, hcursor, hbloom⟩, a, ha, b, ?_, c, ?_, d, ?_, e, he, ht⟩
    · rwa [UInt32.toNat_ofNat_of_lt' hfrom]
    · rwa [UInt32.toNat_ofNat_of_lt' hto]
    · rwa [UInt32.toNat_ofNat_of_lt' hlimit]
  · rintro ⟨⟨hid, hcursor, hbloom⟩, a, ha, b, hb, c, hc, d, hd, e, he, ht⟩
    refine ⟨_, a, ⟨hid, ha⟩, _, b, ⟨r.fromTime.toNat_lt, hb⟩, _, c, ⟨r.toTime.toNat_lt, hc⟩, _, d,
      ⟨r.limit.toNat_lt, hd⟩, _, e, ⟨hcursor, he⟩, _, t, ⟨hbloom, ht⟩, ?_, rfl⟩
    simp only [UInt32.ofNat_toNat]

/-- A request is decoded from its encoding only. -/
theorem decode_ok {r : MessagesRequest} {s t : Rlp.Stream} :
    decode s = .ok (r, t) ↔ r.Encodable ∧ r.items.flatten.length < 2 ^ 64 ∧ s.Reads r.encode t :=
  Rlp.decodeStruct_ok fun _ _ _ => decodeFields_ok

end MessagesRequest

namespace ReportedError

/-- The lengths that the encoding can express. -/
def Encodable (e : ReportedError) : Prop :=
  e.description.length < 2 ^ 64 ∧ e.items.flatten.length < 2 ^ 64

theorem decodeFields_ok {e : ReportedError} {s t : Rlp.Stream} :
    decodeFields s = .ok (e, t) ↔ e.description.length < 2 ^ 64 ∧ s.Reads e.items.flatten t := by
  have huint : ∀ {v s t}, Rlp.uint 64 s = .ok (v, t) ↔
      v < 256 ^ 8 ∧ s.Reads (Rlp.encodeUint v) t := Rlp.uint_ok (n := 8) (by omega) (by omega)
  unfold decodeFields
  simp only [items, List.flatten_cons, List.flatten_nil, List.append_nil, Rlp.Stream.reads_append,
    Rlp.bind_ok, Rlp.pure_ok, Rlp.decodeField, Rlp.decodeUint, Rlp.decodeByteSlice,
    Rlp.mapError_ok, Rlp.bytes_ok, huint, ← decodeHash_ok]
  constructor
  · rintro ⟨hash, a, ha, code, b, ⟨hcode, hb⟩, description, t', ⟨hlen, ht⟩, rfl, rfl⟩
    refine ⟨hlen, a, ⟨hash, ha, rfl⟩, b, ?_, ht⟩
    rwa [UInt64.toNat_ofNat_of_lt' hcode]
  · rintro ⟨hlen, a, ⟨hash, ha, hhash⟩, b, hb, ht⟩
    refine ⟨hash, a, ha, _, b, ⟨e.code.toNat_lt, hb⟩, _, t, ⟨hlen, ht⟩, ?_, rfl⟩
    rw [hhash, UInt64.ofNat_toNat]

/-- An error is decoded from its encoding only. -/
theorem decode_ok {e : ReportedError} {s t : Rlp.Stream} :
    decode s = .ok (e, t) ↔ e.Encodable ∧ s.Reads e.encode t := by
  rw [Encodable, and_assoc]
  exact Rlp.decodeStruct_ok fun _ _ _ => decodeFields_ok

end ReportedError

namespace MessagesResponse

/-- The lengths that the encoding can express. -/
structure Encodable (r : MessagesResponse) : Prop where
  each : ∀ e ∈ r.errors, e.Encodable
  errors : (r.errors.map ReportedError.encode).flatten.length < 2 ^ 64
  items : r.items.flatten.length < 2 ^ 64

theorem decodeFields_ok {r : MessagesResponse} {s t : Rlp.Stream} :
    decodeFields s = .ok (r, t) ↔
      ((∀ e ∈ r.errors, e.Encodable) ∧
        (r.errors.map ReportedError.encode).flatten.length < 2 ^ 64) ∧
      s.Reads r.items.flatten t := by
  have hslice : ∀ {xs s t}, Rlp.decodeSlice "[]whisperv6.EnvelopeError" ReportedError.decode s =
      .ok (xs, t) ↔ (∀ e ∈ xs, e.Encodable) ∧
        (xs.map ReportedError.encode).flatten.length < 2 ^ 64 ∧
        s.Reads (Rlp.encodeList (xs.map ReportedError.encode)) t :=
    Rlp.decodeSlice_ok (fun _ _ _ => ReportedError.decode_ok) (fun _ => Rlp.decodeStruct_end)
      (fun e _ => List.length_pos_iff.mp (Rlp.length_encodeList_pos e.items))
  unfold decodeFields
  simp only [items, List.flatten_cons, List.flatten_nil, List.append_nil, Rlp.Stream.reads_append,
    Rlp.bind_ok, Rlp.pure_ok, Rlp.decodeField, Rlp.mapError_ok, hslice, ← decodeHash_ok]
  constructor
  · rintro ⟨hash, a, ha, errors, t', ⟨heach, hlen, ht⟩, rfl, rfl⟩
    exact ⟨⟨heach, hlen⟩, a, ⟨hash, ha, rfl⟩, ht⟩
  · rintro ⟨⟨heach, hlen⟩, a, ⟨hash, ha, hhash⟩, ht⟩
    refine ⟨hash, a, ha, _, t, ⟨heach, hlen, ht⟩, ?_, rfl⟩
    rw [hhash]

/-- A response is decoded from its encoding only. -/
theorem decode_ok {r : MessagesResponse} {s t : Rlp.Stream} :
    decode s = .ok (r, t) ↔ r.Encodable ∧ s.Reads r.encode t := by
  have hstruct : decode s = .ok (r, t) ↔ _ :=
    @Rlp.decodeStruct_ok _ _ _ _ items (fun _ _ _ => decodeFields_ok) r s t
  rw [hstruct]
  constructor
  · rintro ⟨⟨heach, herrors⟩, hitems, hreads⟩
    exact ⟨⟨heach, herrors, hitems⟩, hreads⟩
  · rintro ⟨⟨heach, herrors, hitems⟩, hreads⟩
    exact ⟨⟨heach, herrors⟩, hitems, hreads⟩

end MessagesResponse

theorem MultiVersionResponse.decodeResponse1_of_ok {m : MultiVersionResponse}
    {r : MessagesResponse}
    (h : Rlp.decodeBytes "whisperv6.MessagesResponse" MessagesResponse.decode m.response = .ok r) :
    m.decodeResponse1 = (r, none) := by
  delta decodeResponse1
  rw [h]

/-- A response with its version is decoded in two steps, and the second step takes what the first
one has left encoded. -/
theorem Version1MessageResponse.decode_encode {r : Version1MessageResponse}
    (h : r.response.Encodable) (hlen : r.items.flatten.length < 2 ^ 64) {s t : Rlp.Stream}
    (hreads : s.Reads r.encode t) :
    ∃ m, MultiVersionResponse.decode s = .ok (m, t) ∧ m.version = r.version ∧
      m.decodeResponse1 = (r.response, none) := by
  refine ⟨{ version := r.version, response := r.response.encode }, ?_, rfl, ?_⟩
  · refine Rlp.decodeStruct_of_reads (fun u v hu => ?_) hlen hreads
    simp only [items, List.flatten_cons, List.flatten_nil, List.append_nil,
      Rlp.Stream.reads_append] at hu
    obtain ⟨a, hversion, hresponse⟩ := hu
    have huint := (Rlp.uint_ok (n := 8) (by omega) (by omega)).mpr ⟨r.version.toNat_lt, hversion⟩
    have hraw := Rlp.raw_of_reads h.items hresponse
    simp only [Rlp.bind_ok, Rlp.pure_ok, Rlp.decodeField, Rlp.decodeUint, Rlp.mapError_ok]
    refine ⟨_, a, huint, _, v, hraw, ?_, rfl⟩
    rw [UInt64.ofNat_toNat]
    rfl
  · obtain ⟨u, hnil, hall⟩ := Rlp.reads_all.mpr (rfl : r.response.encode = _)
    apply MultiVersionResponse.decodeResponse1_of_ok
    exact Rlp.decodeBytes_ok.mpr ⟨u, hnil, MessagesResponse.decode_ok.mpr ⟨h, hall⟩⟩

/-! ### Sending -/

/-- `SendP2PDirect`: one envelope is sent as an object, and no slice. -/
def sendP2PDirect : List Envelope → Packet
  | [e] => sendPacket p2pMessageCode e.encode
  | envelopes => sendPacket p2pMessageCode (Rlp.encodeList (envelopes.map Envelope.encode))

/-- `SendRawP2PDirect`. -/
def sendRawP2PDirect : List Bytes → Packet
  | [raw] => sendPacket p2pMessageCode raw
  | envelopes => sendPacket p2pMessageCode (Rlp.encodeList envelopes)

/-- What a call that sends a request to a peer leaves: the packet that it writes, and the error that
it returns. -/
structure Request where
  whisper : Whisper
  peer : Peer
  written : Option Packet
  returned : Option GoError

/-- `SendMessagesRequest` to the peer that `getPeer` has found, where `sent` is the error of the
write. -/
def sendMessagesRequest (w : Whisper) (p : Peer) (request : MessagesRequest)
    (sent : Option GoError) : Request :=
  match request.validate with
  | some err => { whisper := w, peer := p, written := none, returned := some err }
  | none =>
    { whisper := if sent.isSome then w else { w with
        envelopeFeed := w.envelopeFeed ++
          [{ peer := p.id, hash := bytesToHash request.id, event := .mailServerRequestSent }] }
      peer := { p with trusted := true }
      written := some (sendPacket p2pRequestCode request.encode)
      returned := sent }

/-- `RequestHistoricMessages` to the peer that `getPeer` has found. -/
def requestHistoricMessages (C : Crypto) (w : Whisper) (p : Peer) (envelope : Envelope)
    (sent : Option GoError) : Request where
  whisper := { w with
    envelopeFeed := w.envelopeFeed ++
      [{ peer := p.id, topic := envelope.topic, hash := envelope.hash C,
         event := .mailServerRequestSent }] }
  peer := { p with trusted := true }
  written := some (sendPacket p2pRequestCode envelope.encode)
  returned := sent

/-- `SendHistoricMessageResponse`. -/
def sendHistoricMessageResponse (payload : Bytes) : Packet :=
  sendPacket p2pRequestCompleteCode (Rlp.encodeString payload)

/-- `SendSyncResponse`. -/
def sendSyncResponse (data : SyncResponse) : Packet := sendPacket p2pSyncResponseCode data.encode

end Whisperv6
