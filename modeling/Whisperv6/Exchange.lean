import Whisperv6.DirectChannel
import Whisperv6.Handshake
import Whisperv6.Jobs
import Whisperv6.ProofKit.Runs

/-! Two nodes that are connected, and the confirmations of bundles.  For every bundle that a node
has read, a goroutine of its own writes two packets with the hash of the bytes that were read, the
first of them with the errors of `add`. -/

namespace Whisperv6

open ProofKit

/-! ### The packets -/

/-- An error as its encoding has it. -/
def EnvelopeError.reported (e : EnvelopeError) : ReportedError where
  hash := e.hash
  code := UInt64.ofNat e.code
  description := goString e.description

/-- The packets of `sendConfirmation`, in their order.  It goes on after a write that fails. -/
def sendConfirmation (batchHash : Hash) (envelopeErrors : List EnvelopeError) : List Packet :=
  [sendPacket messageResponseCode
    (newMessagesResponse batchHash (envelopeErrors.map EnvelopeError.reported)).encode,
    sendPacket batchAcknowledgedCode (Rlp.encodeString batchHash.bytes)]

theorem ReportedError.encodable {e : ReportedError} (h : e.encode.length < 2 ^ 64) :
    e.Encodable := by
  have hdescription : (Rlp.encodeString e.description).length ≤ e.encode.length :=
    Rlp.length_le_of_mem (by simp [items])
  have hstring := Rlp.length_le_stringSize e.description
  rw [← Rlp.length_encodeString] at hstring
  exact ⟨by omega, (Rlp.length_flatten_le e.items).trans_lt h⟩

theorem MessagesResponse.encodable {r : MessagesResponse} (h : r.encode.length < 2 ^ 64) :
    r.Encodable := by
  have herrors : (Rlp.encodeList (r.errors.map ReportedError.encode)).length ≤ r.encode.length :=
    Rlp.length_le_of_mem (by simp [items])
  refine ⟨fun e he => ReportedError.encodable ?_, ?_, ?_⟩
  · have hone := Rlp.length_le_of_mem (List.mem_map_of_mem (f := ReportedError.encode) he)
    omega
  · have hflatten := Rlp.length_flatten_le (r.errors.map ReportedError.encode)
    omega
  · exact (Rlp.length_flatten_le r.items).trans_lt h

/-- A response arrives as it was built. -/
theorem decode_response {batchHash : Hash} {errors : List ReportedError}
    (hlen : (newMessagesResponse batchHash errors).encode.length < 2 ^ 32) :
    ∃ m, (sendPacket messageResponseCode (newMessagesResponse batchHash errors).encode).decode
        "whisperv6.MultiVersionResponse" MultiVersionResponse.decode = .ok m ∧
      m.version = 1 ∧ m.decodeResponse1 = ({ hash := batchHash, errors }, none) := by
  obtain ⟨t, hreads⟩ := reads_sendPacket messageResponseCode hlen
  have hitems := Rlp.length_flatten_le (newMessagesResponse batchHash errors).items
  have hresponse : (newMessagesResponse batchHash errors).response.encode.length ≤
      (newMessagesResponse batchHash errors).encode.length :=
    Rlp.length_le_of_mem (by simp [Version1MessageResponse.items])
  obtain ⟨m, hdecode, hversion, hresult⟩ := Version1MessageResponse.decode_encode
    (MessagesResponse.encodable (by omega)) (hitems.trans_lt (by
      show (newMessagesResponse batchHash errors).encode.length < 2 ^ 64
      omega)) hreads
  exact ⟨m, Packet.decode_ok hdecode, hversion, hresult⟩

/-- An acknowledgement arrives as it was built. -/
theorem decode_acknowledgement (batchHash : Hash) :
    ∃ b, (sendPacket batchAcknowledgedCode (Rlp.encodeString batchHash.bytes)).decode
        "common.Hash" (Rlp.decodeByteArray "common.Hash" hashLength) = .ok b ∧
      bytesToHash b = batchHash := by
  have hlen : (Rlp.encodeString batchHash.bytes).length < 2 ^ 32 := by
    have hbytes : batchHash.bytes.length = 32 := batchHash.length_bytes
    rw [Rlp.length_encodeString, Rlp.stringSize_of_length_ne_one (by omega), hbytes]
    decide
  obtain ⟨t, hreads⟩ := reads_sendPacket batchAcknowledgedCode hlen
  obtain ⟨b, hdecode, hb⟩ := decodeHash_ok.mpr hreads
  exact ⟨b, Packet.decode_ok hdecode, hb⟩

/-- A bundle is read as the envelopes in it. -/
theorem messagesJobs_bundlePacket (C : Crypto) {bundle : List Envelope}
    (hlen : (Peer.bundlePacket bundle).payload.length < 2 ^ 32) :
    (Peer.bundlePacket bundle).messagesJobs C =
      .ok ((bundle.map (Envelope.received C)).map .add ++
        [.confirm (Peer.bundlePacket bundle).payload, .checkTrouble]) := by
  obtain ⟨t, hnil, hreads⟩ := Rlp.reads_all.mpr
    (rfl : (Peer.bundlePacket bundle).payload = Rlp.encodeList (bundle.map Envelope.encode))
  have hdecode : Rlp.decodeBytes "[]*whisperv6.Envelope" (decodeEnvelopes C)
      (Peer.bundlePacket bundle).payload = .ok (bundle.map (Envelope.received C)) :=
    Rlp.decodeBytes_ok.mpr ⟨t, hnil, decodeEnvelopes_of_reads C hlen hreads⟩
  -- the equation of `messagesJobs` would have the unifier run the decoder
  delta Packet.messagesJobs
  rw [hdecode]

/-! ### What a job leaves -/

namespace Loop

/-- The loop reads a bundle, unless the packet is too large for its node. -/
theorem read_bundle (C : Crypto) (w : Whisper) (l : Loop) {bundle : List Envelope}
    (hlen : (Peer.bundlePacket bundle).payload.length < 2 ^ 32) :
    (l.read C w (Peer.bundlePacket bundle)).jobs = [] ∨
    (l.read C w (Peer.bundlePacket bundle)).jobs =
        (bundle.map (Envelope.received C)).map Job.add ++
          [Job.confirm (Peer.bundlePacket bundle).payload, Job.checkTrouble] ∧
      (l.read C w (Peer.bundlePacket bundle)).envelopeErrors = [] := by
  have hjobs : (Peer.bundlePacket bundle).jobs C w l.peer = .ok _ :=
    messagesJobs_bundlePacket C hlen
  have hpeer : (Peer.bundlePacket bundle).applyTo l.peer = .ok l.peer := rfl
  unfold read
  split
  · exact .inl rfl
  · rw [hpeer]
    dsimp only
    rw [hjobs]
    exact .inr ⟨rfl, rfl⟩

end Loop

/-! ### The two nodes -/

/-- What a node has made of a bundle: the bytes that it read, what `add` returned for each of the
envelopes, and the errors for the confirmation. -/
structure Answer where
  data : Bytes
  results : List (Envelope × Option AddError)
  errors : List EnvelopeError

/-- Two nodes with a connection, and the loops that read it.  `outbound` are the packets to the
receiver and `inbound` those to the sender.  `bundles` lists the bundles that the sender has
written; `results` and `answers` record what the receiver makes of the bundle that it works on and
what it made of those before; `tasks` has the packets that each run of `sendConfirmation` is
still to write. -/
structure Exchange where
  sender : Whisper
  senderLoop : Loop
  receiver : Whisper
  receiverLoop : Loop
  outbound : List Packet := []
  inbound : List Packet := []
  bundles : List (List Envelope) := []
  results : List (Envelope × Option AddError) := []
  answers : List Answer := []
  tasks : List (List Packet) := []

inductive ExchangeAction
  | broadcast (order : List Hash) (written : Bool)
  | transmit (packet : Packet)
  | receive
  | work (now : UInt32) (sync : Option GoError)
  | confirm (k : Nat) (written : Bool)
  | reply (packet : Packet)
  | listen
  | process (now : UInt32) (sync : Option GoError)
  | senderOthers (w : Whisper) (p : Peer)
  | receiverOthers (w : Whisper) (p : Peer)

namespace Exchange

/-- The two nodes after the handshake, with the records `p` and `q` that they have of one another.
The feed of the sender is the one from then on. -/
def start (sender receiver : Whisper) (p q : Peer) : Exchange where
  sender := { sender with envelopeFeed := [] }
  senderLoop := { peer := p }
  receiver := receiver
  receiverLoop := { peer := q }

/-- A call of `broadcast`. -/
def broadcast (C : Crypto) (s : Exchange) (order : List Hash) (written : Bool) : Exchange :=
  let (p, w, packet) := s.senderLoop.peer.broadcast C s.sender order written
  { s with
    sender := w
    senderLoop := { s.senderLoop with peer := p }
    outbound := s.outbound ++ packet.toList
    bundles := s.bundles ++ (packet.map fun _ => s.senderLoop.peer.bundle C s.sender order).toList }

/-- The loop of the receiver reads a packet. -/
def receive (C : Crypto) (s : Exchange) (packet : Packet) (rest : List Packet) : Exchange :=
  { s with
    receiverLoop := s.receiverLoop.read C s.receiver packet
    outbound := rest
    results := [] }

/-- What `add` returns when it is the next job of the receiver. -/
def result (C : Crypto) (s : Exchange) (now : UInt32) : List (Envelope × Option AddError) :=
  match s.receiverLoop.jobs with
  | .add e :: _ => [(e, s.receiver.addError C now e)]
  | _ => []

/-- The bundle that the receiver has done when its next job is the confirmation. -/
def answer (s : Exchange) : List Answer :=
  match s.receiverLoop.jobs with
  | .confirm data :: _ =>
    [{ data, results := s.results, errors := s.receiverLoop.envelopeErrors }]
  | _ => []

/-- The loop of the receiver does its next job. -/
def work (C : Crypto) (s : Exchange) (now : UInt32) (sync : Option GoError) : Exchange :=
  let after := s.receiverLoop.work C now sync s.receiver
  { s with
    receiver := after.1
    receiverLoop := after.2
    results := s.results ++ s.result C now
    answers := s.answers ++ s.answer
    tasks := s.tasks ++ (gained s.receiverLoop.confirmations after.2.confirmations).map fun x =>
      sendConfirmation x.1 x.2 }

/-- The run `k` of `sendConfirmation` writes `packet`, which is its next one, or fails to. -/
def confirm (s : Exchange) (k : Nat) (packet : Packet) (rest : List Packet) (written : Bool) :
    Exchange :=
  { s with
    tasks := s.tasks.set k rest
    inbound := s.inbound ++ if written then [packet] else [] }

/-- The loop of the sender reads a packet. -/
def listen (C : Crypto) (s : Exchange) (packet : Packet) (rest : List Packet) : Exchange :=
  { s with
    senderLoop := s.senderLoop.read C s.sender packet
    inbound := rest }

/-- The loop of the sender does its next job. -/
def process (C : Crypto) (s : Exchange) (now : UInt32) (sync : Option GoError) : Exchange :=
  let after := s.senderLoop.work C now sync s.sender
  { s with sender := after.1, senderLoop := after.2 }

end Exchange

/-- Only packets whose length has 32 bits are written.  Bundles are written by `broadcast` and
confirmations by `sendConfirmation`; the nodes write packets with other codes at any time.  The
other goroutines of the sender send such events for other peers only, and what they pool has its
own hash; those of the receiver leave its configuration. -/
def ExchangeStep (C : Crypto) (s : Exchange) : ExchangeAction → Exchange → Prop
  | .broadcast order written, t => IsOrder s.sender.envelopes.keys order ∧
    (written = true →
      (Peer.bundlePacket (s.senderLoop.peer.bundle C s.sender order)).payload.length < 2 ^ 32) ∧
    t = s.broadcast C order written
  | .transmit packet, t => packet.code ≠ messagesCode ∧
    t = { s with outbound := s.outbound ++ [packet] }
  | .receive, t => s.receiverLoop.jobs = [] ∧ s.receiverLoop.returned = none ∧
    ∃ packet rest, s.outbound = packet :: rest ∧ t = s.receive C packet rest
  | .work now sync, t => s.receiverLoop.jobs ≠ [] ∧ t = s.work C now sync
  | .confirm k written, t => ∃ packet rest, s.tasks[k]? = some (packet :: rest) ∧
    (written = true → packet.payload.length < 2 ^ 32) ∧ t = s.confirm k packet rest written
  | .reply packet, t =>
    packet.code ≠ messageResponseCode ∧ packet.code ≠ batchAcknowledgedCode ∧
    t = { s with inbound := s.inbound ++ [packet] }
  | .listen, t => s.senderLoop.jobs = [] ∧ s.senderLoop.returned = none ∧
    ∃ packet rest, s.inbound = packet :: rest ∧ t = s.listen C packet rest
  | .process now sync, t => s.senderLoop.jobs ≠ [] ∧ t = s.process C now sync
  | .senderOthers w p, t =>
    (∀ event ∈ w.envelopeFeed, event ∈ s.sender.envelopeFeed ∨ event.peer ≠ p.id ∨
      event.event ≠ .envelopeSent ∧ event.event ≠ .batchAcknowledged) ∧
    (∀ h e, w.envelopes.lookup h = some e → e.HashSound C) ∧
    p.id = s.senderLoop.peer.id ∧
    p.confirmationsEnabled = s.senderLoop.peer.confirmationsEnabled ∧
    t = { s with sender := w, senderLoop := { s.senderLoop with peer := p } }
  | .receiverOthers w p, t => w.disableConfirmations = s.receiver.disableConfirmations ∧
    t = { s with receiver := w, receiverLoop := { s.receiverLoop with peer := p } }

end Whisperv6
