import Whisperv6.Pool
import Whisperv6.ProofKit.RlpStream

/-! The wire format of envelopes.  An envelope is decoded from its own encoding and from no other
bytes, so the hash that the receiver takes of the bytes is the hash of the fields. -/

namespace Whisperv6

open ProofKit

namespace Envelope

/-- The exported fields of an envelope, in the order of the struct. -/
def decodeFields : Rlp.Reader Envelope := do
  let expiry ← Rlp.decodeField "whisperv6.rlpenv" "Expiry" (Rlp.decodeUint "uint32" 32)
  let ttl ← Rlp.decodeField "whisperv6.rlpenv" "TTL" (Rlp.decodeUint "uint32" 32)
  let topic ← Rlp.decodeField "whisperv6.rlpenv" "Topic"
    (Rlp.decodeByteArray "whisperv6.TopicType" topicLength)
  let data ← Rlp.decodeField "whisperv6.rlpenv" "Data" (Rlp.decodeByteSlice "[]uint8")
  let nonce ← Rlp.decodeField "whisperv6.rlpenv" "Nonce" (Rlp.decodeUint "uint64" 64)
  pure
    { expiry := UInt32.ofNat expiry
      ttl := UInt32.ofNat ttl
      topic := bytesToTopic topic
      data := data
      nonce := UInt64.ofNat nonce }

/-- `DecodeRLP`, into a new envelope: the raw value is decoded as a struct, and its hash is kept. -/
def decodeRLP (C : Crypto) : Rlp.Reader Envelope := do
  let raw ← Rlp.raw
  match Rlp.decodeBytes "whisperv6.rlpenv"
    (Rlp.decodeStruct "whisperv6.rlpenv" decodeFields) raw with
  | .error err => throw err
  | .ok e => pure { e with hashCache := C.keccak256Hash raw }

/-- `rlp.DecodeBytes` of one envelope. -/
def decode (C : Crypto) (raw : Bytes) : Except Rlp.Error Envelope :=
  Rlp.decodeBytes "whisperv6.Envelope" (decodeRLP C) raw

/-- The encodings of the exported fields. -/
def items (e : Envelope) : List Bytes :=
  [Rlp.encodeUint e.expiry.toNat, Rlp.encodeUint e.ttl.toNat, Rlp.encodeString e.topic.toList,
    Rlp.encodeString e.data, Rlp.encodeUint e.nonce.toNat]

/-- The envelope with nothing cached. -/
def bare (e : Envelope) : Envelope where
  expiry := e.expiry
  ttl := e.ttl
  topic := e.topic
  data := e.data
  nonce := e.nonce

theorem toList_bytesToTopic {b : Bytes} (h : b.length = 4) : (bytesToTopic b).toList = b := by
  obtain ⟨x, y, z, w, rfl⟩ : ∃ x y z w, b = [x, y, z, w] := by
    match b, h with
    | [x, y, z, w], _ => exact ⟨x, y, z, w, rfl⟩
  rfl

theorem bytesToTopic_toList (t : TopicType) : bytesToTopic t.toList = t := by
  apply Vector.toList_inj.mp
  exact toList_bytesToTopic t.length_toList

theorem reads_items {e : Envelope} {s t : Rlp.Stream} :
    s.Reads e.items.flatten t ↔
      ∃ a, s.Reads (Rlp.encodeUint e.expiry.toNat) a ∧
      ∃ b, a.Reads (Rlp.encodeUint e.ttl.toNat) b ∧
      ∃ c, b.Reads (Rlp.encodeString e.topic.toList) c ∧
      ∃ d, c.Reads (Rlp.encodeString e.data) d ∧ d.Reads (Rlp.encodeUint e.nonce.toNat) t := by
  simp only [items, List.flatten_cons, List.flatten_nil, List.append_nil, Rlp.Stream.reads_append]

/-- The fields are read from their encodings only. -/
theorem decodeFields_ok {e : Envelope} {s t : Rlp.Stream} :
    decodeFields s = .ok (e, t) ↔
      (e.bare = e ∧ e.data.length < 2 ^ 64) ∧ s.Reads e.items.flatten t := by
  have huint32 : ∀ {v s t}, Rlp.uint 32 s = .ok (v, t) ↔
      v < 256 ^ 4 ∧ s.Reads (Rlp.encodeUint v) t := Rlp.uint_ok (n := 4) (by omega) (by omega)
  have huint64 : ∀ {v s t}, Rlp.uint 64 s = .ok (v, t) ↔
      v < 256 ^ 8 ∧ s.Reads (Rlp.encodeUint v) t := Rlp.uint_ok (n := 8) (by omega) (by omega)
  have htopic : ∀ {b s t}, Rlp.decodeByteArray "whisperv6.TopicType" topicLength s = .ok (b, t) ↔
      b.length = 4 ∧ s.Reads (Rlp.encodeString b) t :=
    Rlp.decodeByteArray_ok (by decide) (by decide)
  rw [reads_items]
  unfold decodeFields
  simp only [Rlp.bind_ok, Rlp.pure_ok, Rlp.decodeField, Rlp.decodeUint, Rlp.decodeByteSlice,
    Rlp.mapError_ok, Rlp.bytes_ok, huint32, huint64, htopic]
  constructor
  · rintro ⟨expiry, a, ⟨hexpiry, ha⟩, ttl, b, ⟨httl, hb⟩, topic, c, ⟨htopic, hc⟩, data, d,
      ⟨hdata, hd⟩, nonce, t', ⟨hnonce, ht⟩, rfl, rfl⟩
    refine ⟨⟨rfl, hdata⟩, a, ?_, b, ?_, c, ?_, d, hd, ?_⟩
    · rwa [UInt32.toNat_ofNat_of_lt' hexpiry]
    · rwa [UInt32.toNat_ofNat_of_lt' httl]
    · rwa [toList_bytesToTopic htopic]
    · rwa [UInt64.toNat_ofNat_of_lt' hnonce]
  · rintro ⟨⟨hbare, hdata⟩, a, ha, b, hb, c, hc, d, hd, ht⟩
    refine ⟨_, a, ⟨e.expiry.toNat_lt, ha⟩, _, b, ⟨e.ttl.toNat_lt, hb⟩, _, c,
      ⟨e.topic.length_toList, hc⟩, _, d, ⟨hdata, hd⟩, _, t, ⟨e.nonce.toNat_lt, ht⟩, ?_, rfl⟩
    rw [bytesToTopic_toList, UInt32.ofNat_toNat, UInt32.ofNat_toNat, UInt64.ofNat_toNat]
    exact hbare.symm

theorem length_items (e : Envelope) :
    e.items.flatten.length = Rlp.uintSize e.expiry.toNat + Rlp.uintSize e.ttl.toNat + 5 +
      Rlp.stringSize e.data + Rlp.uintSize e.nonce.toNat := by
  have htopic : Rlp.stringSize e.topic.toList = 5 := by
    rw [Rlp.stringSize_of_length_ne_one (by simp)]
    simp [Rlp.headsize]
  simp only [items, List.length_flatten, List.map_cons, List.map_nil, Rlp.length_encodeUint,
    Rlp.length_encodeString, List.sum_cons, List.sum_nil, htopic]
  omega

theorem length_data_le (e : Envelope) : e.data.length ≤ e.items.flatten.length := by
  have h := Rlp.length_le_stringSize e.data
  rw [length_items]
  omega

theorem length_items_lt {e : Envelope} (h : e.data.length < 2 ^ 63) :
    e.items.flatten.length < 2 ^ 64 := by
  have hexpiry := Rlp.uintSize_le (i := e.expiry.toNat) (by have := e.expiry.toNat_lt; omega)
  have httl := Rlp.uintSize_le (i := e.ttl.toNat) (by have := e.ttl.toNat_lt; omega)
  have hdata := Rlp.stringSize_le (b := e.data) (by omega)
  have hnonce := Rlp.uintSize_le e.nonce.toNat_lt
  rw [length_items]
  omega

/-- An envelope is decoded from its encoding only, with the hash of the encoding cached. -/
theorem decodeRLP_ok {C : Crypto} {e : Envelope} {s t : Rlp.Stream} :
    decodeRLP C s = .ok (e, t) ↔
      (e.received C = e ∧ e.items.flatten.length < 2 ^ 64) ∧ s.Reads e.encode t := by
  have hstruct : ∀ e raw, Rlp.decodeBytes "whisperv6.rlpenv"
      (Rlp.decodeStruct "whisperv6.rlpenv" decodeFields) raw = .ok e ↔
        ((e.bare = e ∧ e.data.length < 2 ^ 64) ∧ e.items.flatten.length < 2 ^ 64) ∧
          raw = e.encode := by
    intro e raw
    simp only [Rlp.decodeBytes_ok, Rlp.decodeStruct_ok fun _ _ _ => decodeFields_ok]
    rw [show e.encode = Rlp.encodeList e.items from rfl, ← Rlp.reads_all]
    constructor
    · rintro ⟨t, hnil, hfields, hlen, hreads⟩
      exact ⟨⟨hfields, hlen⟩, t, hnil, hreads⟩
    · rintro ⟨⟨hfields, hlen⟩, t, hnil, hreads⟩
      exact ⟨t, hnil, hfields, hlen, hreads⟩
  unfold decodeRLP
  rw [Rlp.bind_ok]
  constructor
  · rintro ⟨raw, u, hraw, h⟩
    cases hdecode : Rlp.decodeBytes "whisperv6.rlpenv"
        (Rlp.decodeStruct "whisperv6.rlpenv" decodeFields) raw with
    | error err =>
      rw [hdecode] at h
      exact (Rlp.throw_ok.mp h).elim
    | ok e' =>
      rw [hdecode] at h
      obtain ⟨rfl, rfl⟩ := Rlp.pure_ok.mp h
      obtain ⟨⟨⟨hbare, -⟩, hlen⟩, rfl⟩ := (hstruct _ _).mp hdecode
      refine ⟨⟨?_, hlen⟩, Rlp.raw_reads hraw⟩
      rw [← hbare]
      rfl
  · rintro ⟨⟨hreceived, hlen⟩, hreads⟩
    refine ⟨e.encode, t, Rlp.raw_of_reads hlen hreads, ?_⟩
    have hdecode := (hstruct e.bare e.encode).mpr
      ⟨⟨⟨rfl, e.length_data_le.trans_lt hlen⟩, hlen⟩, rfl⟩
    rw [hdecode]
    exact Rlp.pure_ok.mpr ⟨hreceived.symm, rfl⟩

theorem decode_ok {C : Crypto} {raw : Bytes} {e : Envelope} :
    decode C raw = .ok e ↔
      (e.received C = e ∧ e.items.flatten.length < 2 ^ 64) ∧ raw = e.encode := by
  rw [decode, Rlp.decodeBytes_ok, ← Rlp.reads_all]
  simp only [decodeRLP_ok]
  constructor
  · rintro ⟨t, hnil, hvalid, hreads⟩
    exact ⟨hvalid, t, hnil, hreads⟩
  · rintro ⟨hvalid, t, hnil, hreads⟩
    exact ⟨t, hnil, hvalid, hreads⟩

/-! ### Canonical encodings -/

/-- The hash that is cached, if any, is the hash of the fields. -/
def HashSound (C : Crypto) (e : Envelope) : Prop :=
  e.hashCache = 0 ∨ e.hashCache = C.keccak256Hash e.encode

/-- The two envelopes agree on the exported fields. -/
def SameFields (e e' : Envelope) : Prop :=
  e.expiry = e'.expiry ∧ e.ttl = e'.ttl ∧ e.topic = e'.topic ∧ e.data = e'.data ∧
    e.nonce = e'.nonce

theorem HashSound.hash_eq {C : Crypto} {e : Envelope} (h : e.HashSound C) :
    e.hash C = C.keccak256Hash e.encode := by
  unfold hash
  split
  · rfl
  · rename_i hne
    exact h.resolve_left hne

theorem received_hashSound (C : Crypto) (e : Envelope) : (e.received C).HashSound C := .inr rfl

theorem HashSound.fill {C : Crypto} {e : Envelope} (h : e.HashSound C) : (e.fill C).HashSound C :=
  .inr h.hash_eq

theorem HashSound.adjust {C : Crypto} {e : Envelope} (h : e.HashSound C) (now : UInt32) :
    (e.adjust C now).HashSound C := by
  rw [adjust_eq]
  exact h

theorem SameFields.bare_eq {e e' : Envelope} (h : e.SameFields e') : e.bare = e'.bare := by
  obtain ⟨hexpiry, httl, htopic, hdata, hnonce⟩ := h
  simp [bare, hexpiry, httl, htopic, hdata, hnonce]

/-- Every envelope is decoded from its encoding, with the same fields and the same hash; every bytes
that are decoded are the encoding of the envelope, whose cached hash is the one of its fields; and
the envelopes decoded from two byte strings have the same fields exactly when the bytes are the
same. -/
theorem wire_canonical (C : Crypto) :
    (∀ e : Envelope, e.data.length < 2 ^ 63 → e.HashSound C →
      ∃ d, decode C e.encode = .ok d ∧ d.SameFields e ∧ d.hash C = e.hash C) ∧
    (∀ raw e, decode C raw = .ok e → e.encode = raw ∧ e.hashCache = C.keccak256Hash raw ∧
      e.hash C = e.bare.hash C) ∧
    ∀ raw raw' e e', decode C raw = .ok e → decode C raw' = .ok e' →
      (e.SameFields e' ↔ raw = raw') := by
  refine ⟨fun e hlen hsound => ?_, fun raw e h => ?_, fun raw raw' e e' h h' => ?_⟩
  · refine ⟨e.received C, decode_ok.mpr ⟨⟨rfl, length_items_lt hlen⟩, rfl⟩,
      ⟨rfl, rfl, rfl, rfl, rfl⟩, ?_⟩
    rw [(received_hashSound C e).hash_eq, hsound.hash_eq]
    rfl
  · obtain ⟨⟨hreceived, -⟩, rfl⟩ := decode_ok.mp h
    have hbare : e.bare.HashSound C := .inl rfl
    have hsound : e.HashSound C := hreceived ▸ received_hashSound C e
    refine ⟨rfl, by rw [← hreceived]; rfl, ?_⟩
    rw [hsound.hash_eq, hbare.hash_eq]
    rfl
  · obtain ⟨⟨hreceived, -⟩, rfl⟩ := decode_ok.mp h
    obtain ⟨⟨hreceived', -⟩, rfl⟩ := decode_ok.mp h'
    constructor
    · intro hsame
      show e.bare.encode = e'.bare.encode
      rw [hsame.bare_eq]
    · intro hraw
      rw [hraw, h'] at h
      cases h
      exact ⟨rfl, rfl, rfl, rfl, rfl⟩

theorem wire_canonical_sample :
    ∃ d, decode sampleCrypto sampleEnvelope.encode = .ok d ∧ d.SameFields sampleEnvelope ∧
      d.hash sampleCrypto = sampleEnvelope.hash sampleCrypto ∧
      d.encode = sampleEnvelope.encode := by
  obtain ⟨hdecode, hraw, -⟩ := wire_canonical sampleCrypto
  obtain ⟨d, hd, hfields, hhash⟩ := hdecode sampleEnvelope (by decide) (.inl rfl)
  exact ⟨d, hd, hfields, hhash, (hraw _ d hd).1⟩

-- The same contents after a header in the long form, and with a sixth element.
example : decode sampleCrypto (0xF8 :: 19 :: sampleEnvelope.items.flatten) = .error .canonSize := by
  decide +kernel

example : decode sampleCrypto (Rlp.encodeList (sampleEnvelope.items ++ [[0x80]])) =
    .error (.decode "input list has too many elements" "whisperv6.rlpenv" []) := by
  decide +kernel

end Envelope

end Whisperv6
