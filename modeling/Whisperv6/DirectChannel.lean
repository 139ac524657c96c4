import Whisperv6.Dispatch

/-! The packets that may hold one of two types.  The loop tries one decoder and then, from the start
of the same bytes, another one.  No encoding of one type is decoded as the other, so each packet
reaches the code that its sender meant. -/

namespace Whisperv6

open ProofKit

/-! ### Encodings of one type that no other decoder reads -/

namespace Envelope

/-- The fields as strings: an integer is encoded like its bytes. -/
def strings (e : Envelope) : List Bytes :=
  [Rlp.uintBytes e.expiry.toNat, Rlp.uintBytes e.ttl.toNat, e.topic.toList, e.data,
    Rlp.uintBytes e.nonce.toNat]

theorem toNat_lt_word (i : UInt32) : i.toNat < 2 ^ 64 := by
  have := i.toNat_lt
  omega

theorem items_eq_strings (e : Envelope) : e.items = e.strings.map Rlp.encodeString := by
  simp only [items, strings, List.map_cons, List.map_nil, Rlp.encodeUint_eq (toNat_lt_word _),
    Rlp.encodeUint_eq e.nonce.toNat_lt]

theorem length_of_mem_strings {e : Envelope} (h : e.data.length < 2 ^ 64) {b : Bytes}
    (hb : b ∈ e.strings) : b.length < 2 ^ 64 := by
  have hexpiry := Rlp.length_uintBytes_le (toNat_lt_word e.expiry)
  have httl := Rlp.length_uintBytes_le (toNat_lt_word e.ttl)
  have hnonce := Rlp.length_uintBytes_le e.nonce.toNat_lt
  have htopic : e.topic.toList.length = 4 := e.topic.length_toList
  simp only [strings, List.mem_cons, List.not_mem_nil, or_false] at hb
  obtain rfl | rfl | rfl | rfl | rfl := hb <;> omega

theorem length_items_le (e : Envelope) : e.items.flatten.length ≤ e.encode.length :=
  Rlp.length_flatten_le e.items

end Envelope

/-- The encoding of one envelope is no list of envelopes: its first item is a string. -/
theorem decodeEnvelopes_one {C : Crypto} {e : Envelope} {s t : Rlp.Stream}
    (hlen : e.items.flatten.length < 2 ^ 64) (h : s.Reads e.encode t)
    (r : List Envelope × Rlp.Stream) : decodeEnvelopes C s ≠ .ok r := by
  intro hdecode
  obtain ⟨hes, hlist, hreads⟩ := decodeEnvelopes_ok.mp hdecode
  obtain ⟨hflatten, -⟩ := Rlp.Stream.Reads.list_unique hlen hlist h hreads
  obtain ⟨u, -, (hitems : u.Reads e.items.flatten t)⟩ := Rlp.Stream.reads_append.mp h
  obtain ⟨v, hexpiry, -⟩ := Rlp.Stream.reads_append.mp hitems
  rw [Rlp.encodeUint_eq (Envelope.toNat_lt_word _)] at hexpiry
  have hshort := Rlp.length_uintBytes_le (Envelope.toNat_lt_word e.expiry)
  obtain ⟨es, w⟩ := r
  cases es with
  | nil =>
    have hpos := congrArg List.length hflatten
    rw [Envelope.length_items] at hpos
    simp at hpos
  | cons e' rest =>
    rw [hflatten] at hitems
    obtain ⟨v', hfirst, -⟩ := Rlp.Stream.reads_append.mp hitems
    exact Rlp.Stream.Reads.string_not_list (by omega) (hes e' (by simp)).2 hexpiry hfirst

namespace MessagesRequest

def strings (r : MessagesRequest) : List Bytes :=
  [r.id, Rlp.uintBytes r.fromTime.toNat, Rlp.uintBytes r.toTime.toNat,
    Rlp.uintBytes r.limit.toNat, r.cursor, r.bloom]

theorem items_eq_strings (r : MessagesRequest) : r.items = r.strings.map Rlp.encodeString := by
  simp only [items, strings, List.map_cons, List.map_nil,
    Rlp.encodeUint_eq (Envelope.toNat_lt_word _)]

theorem length_le_items {r : MessagesRequest} {b : Bytes} (hb : b ∈ r.strings) :
    b.length ≤ r.items.flatten.length := by
  have hmem : Rlp.encodeString b ∈ r.items := by
    rw [items_eq_strings]
    exact List.mem_map_of_mem hb
  have hsub := (List.sublist_flatten_of_mem hmem).length_le
  rw [Rlp.length_encodeString] at hsub
  exact (Rlp.length_le_stringSize b).trans hsub

theorem encodable {r : MessagesRequest} (h : r.items.flatten.length < 2 ^ 64) : r.Encodable :=
  ⟨(length_le_items (by simp [strings])).trans_lt h,
    (length_le_items (by simp [strings])).trans_lt h,
    (length_le_items (by simp [strings])).trans_lt h⟩

theorem length_items_le (r : MessagesRequest) : r.items.flatten.length ≤ r.encode.length :=
  Rlp.length_flatten_le r.items

/-- The encoding of a request is no envelope: it has six items. -/
theorem decodeRLP_request {C : Crypto} {r : MessagesRequest} {s t : Rlp.Stream}
    (hlen : r.items.flatten.length < 2 ^ 64) (h : s.Reads r.encode t) (x : Envelope × Rlp.Stream) :
    Envelope.decodeRLP C s ≠ .ok x := by
  intro hdecode
  obtain ⟨⟨-, hitems⟩, hreads⟩ := Envelope.decodeRLP_ok.mp hdecode
  obtain ⟨hflatten, -⟩ := Rlp.Stream.Reads.list_unique hlen hitems h hreads
  rw [items_eq_strings, Envelope.items_eq_strings] at hflatten
  have hstrings := Rlp.encodeStrings_inj (fun b hb => (length_le_items hb).trans_lt hlen)
    (fun b hb => Envelope.length_of_mem_strings (x.1.length_data_le.trans_lt hitems) hb) hflatten
  exact absurd (congrArg List.length hstrings) (by simp [strings, Envelope.strings])

end MessagesRequest

/-! ### Packets -/

theorem Packet.decode_ok {α : Type} {packet : Packet} {typ : String} {d : Rlp.Reader α} {x : α}
    {t : Rlp.Stream} (h : d packet.stream = .ok (x, t)) : packet.decode typ d = .ok x := by
  rw [decode, h]

theorem Packet.decode_error {α : Type} {packet : Packet} (typ : String) {d : Rlp.Reader α}
    (h : ∀ r, d packet.stream ≠ .ok r) : ∃ err, packet.decode typ d = .error err := by
  unfold decode
  cases hd : d packet.stream with
  | error err => exact ⟨_, rfl⟩
  | ok r => exact absurd hd (h r)

/-- The packets of `SendP2PDirect` and of `SendRawP2PDirect` are the same. -/
theorem sendRawP2PDirect_encode (es : List Envelope) :
    sendRawP2PDirect (es.map Envelope.encode) = sendP2PDirect es := by
  match es with
  | [] => rfl
  | [e] => rfl
  | e :: e' :: rest => rfl

theorem map_encode_received (C : Crypto) (es : List Envelope) :
    (es.map (Envelope.received C)).map Envelope.encode = es.map Envelope.encode := by
  rw [List.map_map]
  rfl

/-- A list of envelopes is decoded from its encoding. -/
theorem decodeEnvelopes_of_reads (C : Crypto) {es : List Envelope} {s t : Rlp.Stream}
    (hlen : (Rlp.encodeList (es.map Envelope.encode)).length < 2 ^ 32)
    (h : s.Reads (Rlp.encodeList (es.map Envelope.encode)) t) :
    decodeEnvelopes C s = .ok (es.map (Envelope.received C), t) := by
  have hflatten := Rlp.length_flatten_le (es.map Envelope.encode)
  refine decodeEnvelopes_ok.mpr ⟨fun e he => ?_, ?_, ?_⟩
  · obtain ⟨e, hmem, rfl⟩ := List.mem_map.mp he
    have hone := Rlp.length_le_of_mem (List.mem_map_of_mem (f := Envelope.encode) hmem)
    have hitems := e.length_items_le
    refine ⟨rfl, ?_⟩
    show e.items.flatten.length < 2 ^ 64
    omega
  · rw [map_encode_received]
    omega
  · rwa [map_encode_received]

/-- A packet with a list of envelopes. -/
theorem decodeEnvelopes_sendPacket (C : Crypto) (code : Nat) {es : List Envelope}
    (hlen : (Rlp.encodeList (es.map Envelope.encode)).length < 2 ^ 32) :
    ∃ t, decodeEnvelopes C (sendPacket code (Rlp.encodeList (es.map Envelope.encode))).stream =
      .ok (es.map (Envelope.received C), t) := by
  obtain ⟨t, hreads⟩ := reads_sendPacket code hlen
  exact ⟨t, decodeEnvelopes_of_reads C hlen hreads⟩

/-- A packet with one envelope. -/
theorem decodeRLP_sendPacket (C : Crypto) (code : Nat) {e : Envelope}
    (hlen : e.encode.length < 2 ^ 32) :
    ∃ t, Envelope.decodeRLP C (sendPacket code e.encode).stream = .ok (e.received C, t) := by
  obtain ⟨t, hreads⟩ := reads_sendPacket code hlen
  have hitems := e.length_items_le
  refine ⟨t, Envelope.decodeRLP_ok.mpr ⟨⟨rfl, ?_⟩, hreads⟩⟩
  show e.items.flatten.length < 2 ^ 64
  omega

/-- The loop posts the envelopes of a direct packet from a peer that it trusts. -/
theorem directJobs_sendP2PDirect (C : Crypto) {es : List Envelope}
    (hlen : (sendP2PDirect es).payload.length < 2 ^ 32) {p : Peer} (hp : p.trusted = true) :
    (sendP2PDirect es).directJobs C p =
      .ok ((es.map fun e => P2PItem.envelope (e.received C)).map .postP2P) := by
  have hlist : ∀ (es : List Envelope),
      (Rlp.encodeList (es.map Envelope.encode)).length < 2 ^ 32 →
      (sendPacket p2pMessageCode (Rlp.encodeList (es.map Envelope.encode))).directJobs C p =
        .ok ((es.map fun e => P2PItem.envelope (e.received C)).map .postP2P) := by
    intro es hlen
    obtain ⟨t, hdecode⟩ := decodeEnvelopes_sendPacket C p2pMessageCode hlen
    rw [Packet.directJobs, if_pos hp, Packet.decode_ok hdecode]
    dsimp only
    rw [List.map_map, List.map_map]
    rfl
  match es with
  | [] => exact hlist [] hlen
  | [e] =>
    have hlen : e.encode.length < 2 ^ 32 := hlen
    obtain ⟨t, hreads⟩ := reads_sendPacket p2pMessageCode hlen
    obtain ⟨err, hfirst⟩ := Packet.decode_error "[]*whisperv6.Envelope"
      (decodeEnvelopes_one (C := C) (e.length_items_le.trans_lt (by omega)) hreads)
    obtain ⟨t', hsecond⟩ := decodeRLP_sendPacket C p2pMessageCode hlen
    rw [sendP2PDirect, Packet.directJobs, if_pos hp, hfirst]
    dsimp only
    rw [Packet.decode_ok hsecond]
    rfl
  | e :: e' :: rest => exact hlist (e :: e' :: rest) hlen

/-- A request of the current format reaches `Deliver`. -/
theorem requestJobs_request (C : Crypto) {r : MessagesRequest} (hlen : r.encode.length < 2 ^ 32)
    {w : Whisper} (hw : w.mailServer = true) :
    (sendPacket p2pRequestCode r.encode).requestJobs C w = .ok [.call (.deliver r)] := by
  obtain ⟨t, hreads⟩ := reads_sendPacket p2pRequestCode hlen
  have hitems : r.items.flatten.length < 2 ^ 64 := r.length_items_le.trans_lt (by omega)
  obtain ⟨err, hfirst⟩ := Packet.decode_error "whisperv6.Envelope"
    (MessagesRequest.decodeRLP_request (C := C) hitems hreads)
  have hsecond := MessagesRequest.decode_ok.mpr ⟨MessagesRequest.encodable hitems, hitems, hreads⟩
  rw [Packet.requestJobs, if_pos hw, hfirst]
  dsimp only
  rw [Packet.decode_ok hsecond]

/-- A request of the old format reaches `DeliverMail`. -/
theorem requestJobs_envelope (C : Crypto) {e : Envelope} (hlen : e.encode.length < 2 ^ 32)
    {w : Whisper} (hw : w.mailServer = true) :
    (sendPacket p2pRequestCode e.encode).requestJobs C w =
      .ok [.call (.deliverMail (e.received C))] := by
  obtain ⟨t, hdecode⟩ := decodeRLP_sendPacket C p2pRequestCode hlen
  rw [Packet.requestJobs, if_pos hw, Packet.decode_ok hdecode]

/-! ### Rounds -/

namespace Loop

/-- The loop before a packet. -/
def reset (l : Loop) : Loop := { l with jobs := [], trouble := false, envelopeErrors := [] }

theorem workAll_idle (C : Crypto) (now : UInt32) (sync : Option GoError) (n : Nat) (w : Whisper)
    {l : Loop} (h : l.jobs = []) : l.workAll C now sync n w = (w, l) := by
  induction n with
  | zero => rfl
  | succ n ih =>
    rw [workAll, work, h]
    exact ih

theorem workAll_post (C : Crypto) (now : UInt32) (sync : Option GoError) {items : List P2PItem}
    {n : Nat} (hn : items.length ≤ n) (w : Whisper) {l : Loop} (h : l.jobs = items.map .postP2P) :
    l.workAll C now sync n w =
      ({ w with p2pMsgQueue := w.p2pMsgQueue ++ items }, { l with jobs := [] }) := by
  induction items generalizing n w l with
  | nil =>
    have hidle : l = { l with jobs := [] } := by rw [← show l.jobs = [] from h]
    rw [workAll_idle C now sync n w h, List.append_nil, ← hidle]
  | cons item rest ih =>
    obtain ⟨n, rfl⟩ : ∃ m, n = m + 1 := ⟨n - 1, by simp at hn; omega⟩
    rw [workAll, work, h]
    refine (ih (by simpa using hn) _ rfl).trans ?_
    simp

/-- What a round leaves when the packet is within the limit of the node: `out`.  A larger packet
ends the loop. -/
def unlessOversized (w : Whisper) (l : Loop) (packet : Packet) (out : Whisper × Loop) :
    Whisper × Loop :=
  if w.settings.maxMsgSize < packet.size then
    (w, l.leave (.error (newError "oversized message received")))
  else out

theorem round_eq {C : Crypto} {now : UInt32} {sync : Option GoError} {w : Whisper} {l : Loop}
    {packet : Packet} {jobs : List Job} (hpeer : packet.applyTo l.peer = .ok l.peer)
    (hjobs : packet.jobs C w l.peer = .ok jobs) :
    l.round C now sync w packet = unlessOversized w l packet
      ({ l.reset with jobs }.workAll C now sync (4 * jobs.length) w) := by
  by_cases hsize : w.settings.maxMsgSize < packet.size
  · simp only [round, read, Whisper.checkPacketSize, unlessOversized, if_pos hsize]
    exact workAll_idle C now sync _ w rfl
  · simp only [round, read, Whisper.checkPacketSize, unlessOversized, if_neg hsize, hpeer, hjobs]
    rfl

theorem workAll_call (C : Crypto) (now : UInt32) (sync : Option GoError) (w : Whisper) {l : Loop}
    {call : MailCall} (hcall : ∀ request, call ≠ .syncMail request) :
    { l with jobs := [.call call] }.workAll C now sync 4 w =
      (w, { l with jobs := [], calls := l.calls ++ [call] }) := by
  cases call with
  | deliverMail request => rfl
  | deliver request => rfl
  | syncMail request => exact absurd rfl (hcall request)

end Loop

theorem sendP2PDirect_code (es : List Envelope) : (sendP2PDirect es).code = p2pMessageCode := by
  match es with
  | [] => rfl
  | [e] => rfl
  | e :: e' :: rest => rfl

/-- What is sent over the direct channel arrives as what it was: the envelopes of a direct packet
are posted in their order, whichever of the two encodings it has, and a request reaches the method
of the mail server for its format. -/
theorem Loop.direct_channel_exact (C : Crypto) (now : UInt32) (sync : Option GoError) (w : Whisper)
    (l : Loop) :
    (∀ es : List Envelope, sendRawP2PDirect (es.map Envelope.encode) = sendP2PDirect es ∧
      ((sendP2PDirect es).payload.length < 2 ^ 32 → l.peer.trusted = true →
        l.round C now sync w (sendP2PDirect es) = unlessOversized w l (sendP2PDirect es)
          ({ w with p2pMsgQueue := w.p2pMsgQueue ++ es.map fun e => .envelope (e.received C) },
            l.reset))) ∧
    (∀ (e : Envelope) (es : List Envelope), e.encode.length < 2 ^ 32 →
      (sendP2PDirect [e]).decode "[]*whisperv6.Envelope" (decodeEnvelopes C) ≠ .ok es) ∧
    (∀ r : MessagesRequest,
      (∀ w' p sent packet, (sendMessagesRequest w' p r sent).written = some packet →
        packet = sendPacket p2pRequestCode r.encode) ∧
      (r.encode.length < 2 ^ 32 → w.mailServer = true →
        l.round C now sync w (sendPacket p2pRequestCode r.encode) =
          unlessOversized w l (sendPacket p2pRequestCode r.encode)
            (w, { l.reset with calls := l.calls ++ [.deliver r] }))) ∧
    ∀ e : Envelope,
      (∀ w' p sent, (requestHistoricMessages C w' p e sent).written =
        some (sendPacket p2pRequestCode e.encode)) ∧
      (e.encode.length < 2 ^ 32 → w.mailServer = true →
        l.round C now sync w (sendPacket p2pRequestCode e.encode) =
          unlessOversized w l (sendPacket p2pRequestCode e.encode)
            (w, { l.reset with calls := l.calls ++ [.deliverMail (e.received C)] })) := by
  refine ⟨fun es => ⟨sendRawP2PDirect_encode es, fun hlen hp => ?_⟩, fun e es hlen hdecode => ?_,
    fun r => ⟨fun w' p sent packet h => ?_, fun hlen hw => ?_⟩,
    fun e => ⟨fun _ _ _ => rfl, fun hlen hw => ?_⟩⟩
  · have hcode := sendP2PDirect_code es
    have hjobs := (Packet.jobs_direct (C := C) (w := w) hcode).trans
      (directJobs_sendP2PDirect C hlen hp)
    have hpeer : (sendP2PDirect es).applyTo l.peer = .ok l.peer :=
      Packet.applyTo_of_ne (by rw [hcode]; decide) (by rw [hcode]; decide)
    rw [round_eq hpeer hjobs, workAll_post C now sync (by simp; omega) w rfl]
    rfl
  · obtain ⟨t, hreads⟩ := reads_sendPacket p2pMessageCode hlen
    obtain ⟨err, herr⟩ := Packet.decode_error "[]*whisperv6.Envelope"
      (decodeEnvelopes_one (C := C) (e.length_items_le.trans_lt (by omega)) hreads)
    rw [sendP2PDirect, herr] at hdecode
    cases hdecode
  · unfold sendMessagesRequest at h
    split at h
    · cases h
    · exact (Option.some.inj h).symm
  · rw [round_eq rfl ((Packet.jobs_request rfl).trans (requestJobs_request C hlen hw))]
    exact congrArg _ (workAll_call C now sync w (by rintro r ⟨⟩))
  · rw [round_eq rfl ((Packet.jobs_request rfl).trans (requestJobs_envelope C hlen hw))]
    exact congrArg _ (workAll_call C now sync w (by rintro r ⟨⟩))

/-- The loop for a peer that the node trusts. -/
def trustingLoop : Loop := { peer := { id := 7, trusted := true } }

theorem Loop.direct_channel_exact_sample :
    trustingLoop.round sampleCrypto 0 none (new {}) (sendP2PDirect [sampleEnvelope]) =
      ({ new {} with p2pMsgQueue := [.envelope (sampleEnvelope.received sampleCrypto)] },
        trustingLoop) ∧
    trustingLoop.round sampleCrypto 0 none { new {} with mailServer := true }
        (sendPacket p2pRequestCode sampleEnvelope.encode) =
      ({ new {} with mailServer := true },
        { trustingLoop with calls := [.deliverMail (sampleEnvelope.received sampleCrypto)] }) := by
  have hlen : sampleEnvelope.encode.length < 2 ^ 32 := by decide +kernel
  have hsize : ¬(new {}).settings.maxMsgSize < UInt32.ofNat sampleEnvelope.encode.length := by
    decide +kernel
  have hdirect := ((direct_channel_exact sampleCrypto 0 none (new {}) trustingLoop).1
    [sampleEnvelope]).2 hlen rfl
  have hrequest := ((direct_channel_exact sampleCrypto 0 none { new {} with mailServer := true }
    trustingLoop).2.2.2 sampleEnvelope).2 hlen rfl
  exact ⟨hdirect.trans (if_neg hsize), hrequest.trans (if_neg hsize)⟩

end Whisperv6
