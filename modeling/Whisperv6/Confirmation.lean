import Whisperv6.Exchange

/-! Confirmations agree with what was sent.  The goroutines that write them work in any order, but
every packet and every event comes from the answer to a bundle that the sender has recorded, and
the hash of the bytes that the receiver reads is the hash of the bytes that the sender wrote. -/

namespace Whisperv6

open ProofKit

/-! ### Where packets and events come from -/

/-- The answer is one to a bundle that was written: `add` was called for each of its envelopes, and
the errors are those that it returned, with codes that an encoding can express. -/
structure Answer.Fits (C : Crypto) (bundle : List Envelope) (x : Answer) : Prop where
  data : x.data = (Peer.bundlePacket bundle).payload
  envelopes : x.results.map Prod.fst = bundle.map (Envelope.received C)
  hashes : x.errors.map EnvelopeError.hash =
    (x.results.filter fun r => r.2.isSome).map fun r => r.1.hash C
  codes : ∀ err ∈ x.errors, err.code < 2 ^ 64

/-- The packets of the confirmation of an answer. -/
def Answer.packets (C : Crypto) (x : Answer) : List Packet :=
  sendConfirmation (C.keccak256Hash x.data) x.errors

/-- An event that acknowledges a batch of the peer `id` is about an answer of that peer. -/
def Acknowledges (C : Crypto) (id : NodeID) (answers : List Answer) (event : EnvelopeEvent) :
    Prop :=
  event.event = .batchAcknowledged → event.peer = id →
    ∃ x ∈ answers, event.batch = C.keccak256Hash x.data ∧
      (event.data = .nil ∨ event.data = .errors (x.errors.map EnvelopeError.reported))

/-- An event about an envelope that was sent to the peer `id` has the hash of the bundle, when the
peer confirms. -/
def Tagged (C : Crypto) (id : NodeID) (confirms : Bool) (bundles : List (List Envelope))
    (event : EnvelopeEvent) : Prop :=
  event.event = .envelopeSent → event.peer = id →
    ∃ bundle ∈ bundles, ∃ e ∈ bundle, event.hash = e.hash C ∧
      event.batch = if confirms then C.keccak256Hash (Peer.bundlePacket bundle).payload else 0

/-- A job of the sender: the envelopes that it may pool have their own hash, and the events that it
sends are about answers. -/
def Job.Honest (C : Crypto) (id : NodeID) (answers : List Answer) : Job → Prop
  | .add e => e.HashSound C
  | .send event => Acknowledges C id answers event ∧ event.event ≠ .envelopeSent
  | _ => True

/-- The receiver works on a bundle, of which it has added the envelopes of `results`, or on some
other packet. -/
inductive Receiving (C : Crypto) (bundles : List (List Envelope))
    (results : List (Envelope × Option AddError)) (jobs : List Job) (errors : List EnvelopeError) :
    Prop
  | quiet (h : ∀ j ∈ jobs, j.Quiet)
  | batch (bundle : List Envelope) (hbundle : bundle ∈ bundles) (mid : List Job)
      (left : List Envelope) (hmid : ∀ j ∈ mid, j.Rest)
      (hjobs : jobs = mid ++ (left.map .add ++
        [.confirm (Peer.bundlePacket bundle).payload, .checkTrouble]))
      (hresults : results.map Prod.fst ++ left = bundle.map (Envelope.received C))
      (hhashes : errors.map EnvelopeError.hash =
        (results.filter fun r => r.2.isSome).map fun r => r.1.hash C)
      (hcodes : ∀ err ∈ errors, err.code < 2 ^ 64)

theorem errorToEnvelopeError_code (hash : Hash) (err : GoError) :
    (errorToEnvelopeError hash err).code < 2 ^ 64 := by
  unfold errorToEnvelopeError
  dsimp only
  split <;> decide

section Growth

variable {C : Crypto} {id : NodeID} {confirms : Bool} {bundles : List (List Envelope)}
  {answers : List Answer} {event : EnvelopeEvent}

theorem Receiving.append {results : List (Envelope × Option AddError)} {jobs : List Job}
    {errors : List EnvelopeError} (h : Receiving C bundles results jobs errors)
    (more : List (List Envelope)) : Receiving C (bundles ++ more) results jobs errors := by
  cases h with
  | quiet h => exact .quiet h
  | batch bundle hbundle mid left hmid hjobs hresults hhashes hcodes =>
    exact .batch bundle (List.mem_append_left _ hbundle) mid left hmid hjobs hresults hhashes
      hcodes

theorem Acknowledges.append (h : Acknowledges C id answers event) (more : List Answer) :
    Acknowledges C id (answers ++ more) event := by
  intro hevent hpeer
  obtain ⟨x, hx, hbatch, hdata⟩ := h hevent hpeer
  exact ⟨x, List.mem_append_left _ hx, hbatch, hdata⟩

theorem Tagged.append (h : Tagged C id confirms bundles event) (more : List (List Envelope)) :
    Tagged C id confirms (bundles ++ more) event := by
  intro hevent hpeer
  obtain ⟨bundle, hbundle, he⟩ := h hevent hpeer
  exact ⟨bundle, List.mem_append_left _ hbundle, he⟩

theorem Job.Honest.append {j : Job} (h : j.Honest C id answers) (more : List Answer) :
    j.Honest C id (answers ++ more) := by
  cases j with
  | send event => exact ⟨h.1.append more, h.2⟩
  | _ => exact h

end Growth

namespace Exchange

structure Sound (C : Crypto) (id : NodeID) (confirms : Bool) (s : Exchange) : Prop where
  peer : s.senderLoop.peer.id = id
  enabled : s.senderLoop.peer.confirmationsEnabled = confirms
  disabled : s.receiver.disableConfirmations = !confirms
  pool : ∀ h e, s.sender.envelopes.lookup h = some e → e.HashSound C
  bundles : ∀ bundle ∈ s.bundles, ∀ e ∈ bundle, e.HashSound C
  outbound : ∀ packet ∈ s.outbound, packet.code ≠ messagesCode ∨
    ∃ bundle ∈ s.bundles, packet = Peer.bundlePacket bundle ∧ packet.payload.length < 2 ^ 32
  receiving : Receiving C s.bundles s.results s.receiverLoop.jobs s.receiverLoop.envelopeErrors
  answers : ∀ x ∈ s.answers, ∃ bundle ∈ s.bundles, x.Fits C bundle
  confirmations : s.receiverLoop.confirmations =
    if confirms then s.answers.map fun x => (C.keccak256Hash x.data, x.errors) else []
  tasks : ∀ task ∈ s.tasks, ∀ packet ∈ task, ∃ x ∈ s.answers, packet ∈ x.packets C
  inbound : ∀ packet ∈ s.inbound,
    packet.code ≠ messageResponseCode ∧ packet.code ≠ batchAcknowledgedCode ∨
      packet.payload.length < 2 ^ 32 ∧ ∃ x ∈ s.answers, packet ∈ x.packets C
  jobs : ∀ j ∈ s.senderLoop.jobs, j.Honest C id s.answers
  acknowledged : ∀ event ∈ s.sender.envelopeFeed, Acknowledges C id s.answers event
  tagged : ∀ event ∈ s.sender.envelopeFeed, Tagged C id confirms s.bundles event

theorem start_sound {C : Crypto} {A B : Whisper} {id : NodeID} {p q : Peer} (hB : B.ValidStatus)
    (h : (newPeer id).handshake A.settings B.statusPacket none = .ok p)
    (hpool : ∀ h e, A.envelopes.lookup h = some e → e.HashSound C) :
    (start A B p q).Sound C id !B.disableConfirmations := by
  obtain rfl := Whisper.handshake_eq hB h
  have hnone {α : Type} {P : α → Prop} : ∀ x ∈ ([] : List α), P x := List.forall_mem_nil P
  refine ⟨rfl, ?_, ?_, hpool, hnone, hnone, .quiet hnone, hnone, ?_, hnone, hnone, hnone, hnone,
    hnone⟩
  · simp [start, Whisper.told, newPeer]
  · simp [start]
  · simp [start]

/-! ### Steps -/

variable {C : Crypto} {id : NodeID} {confirms : Bool} {s : Exchange}

theorem Sound.write (hs : s.Sound C id confirms) {order : List Hash}
    (hlen : (Peer.bundlePacket (s.senderLoop.peer.bundle C s.sender order)).payload.length <
      2 ^ 32) {p : Peer} (hp : ∃ known, p = { s.senderLoop.peer with known := known }) :
    Sound C id confirms
      { s with
        sender.envelopeFeed := s.sender.envelopeFeed ++
          s.senderLoop.peer.sentEvents C (s.senderLoop.peer.bundle C s.sender order)
        senderLoop.peer := p
        outbound := s.outbound ++
          [Peer.bundlePacket (s.senderLoop.peer.bundle C s.sender order)]
        bundles := s.bundles ++ [s.senderLoop.peer.bundle C s.sender order] } := by
  obtain ⟨known, rfl⟩ := hp
  have hnew : s.senderLoop.peer.bundle C s.sender order ∈
      s.bundles ++ [s.senderLoop.peer.bundle C s.sender order] := by simp
  have hsent : ∀ event ∈ s.senderLoop.peer.sentEvents C (s.senderLoop.peer.bundle C s.sender order),
      ∃ e ∈ s.senderLoop.peer.bundle C s.sender order, event =
        { event := .envelopeSent, hash := e.hash C, peer := s.senderLoop.peer.id,
          batch := if confirms then C.keccak256Hash
            (Peer.bundlePacket (s.senderLoop.peer.bundle C s.sender order)).payload else 0 } := by
    intro event hevent
    obtain ⟨e, he, rfl⟩ := List.mem_map.mp hevent
    exact ⟨e, he, by rw [hs.enabled]⟩
  refine { hs with
    bundles := fun bundle hbundle e he => ?_
    outbound := fun packet hpacket => ?_
    receiving := hs.receiving.append _
    answers := fun x hx => ?_
    acknowledged := fun event hevent => ?_
    tagged := fun event hevent => ?_ }
  · obtain hbundle | hbundle := List.mem_append.mp hbundle
    · exact hs.bundles bundle hbundle e he
    · rw [List.mem_singleton.mp hbundle] at he
      obtain ⟨⟨h, -, hlookup⟩, -⟩ := Peer.mem_bundle.mp he
      exact hs.pool h e hlookup
  · obtain hpacket | hpacket := List.mem_append.mp hpacket
    · exact (hs.outbound packet hpacket).imp_right fun ⟨bundle, hbundle, h⟩ =>
        ⟨bundle, List.mem_append_left _ hbundle, h⟩
    · rw [List.mem_singleton.mp hpacket]
      exact .inr ⟨_, hnew, rfl, hlen⟩
  · obtain ⟨bundle, hbundle, h⟩ := hs.answers x hx
    exact ⟨bundle, List.mem_append_left _ hbundle, h⟩
  · obtain hevent | hevent := List.mem_append.mp hevent
    · exact hs.acknowledged event hevent
    · obtain ⟨e, -, rfl⟩ := hsent event hevent
      exact nofun
  · obtain hevent | hevent := List.mem_append.mp hevent
    · exact (hs.tagged event hevent).append _
    · obtain ⟨e, he, rfl⟩ := hsent event hevent
      exact fun _ _ => ⟨_, hnew, e, he, rfl, rfl⟩

theorem Sound.broadcast (hs : s.Sound C id confirms) {order : List Hash} {written : Bool}
    (hlen : written = true →
      (Peer.bundlePacket (s.senderLoop.peer.bundle C s.sender order)).payload.length < 2 ^ 32) :
    (s.broadcast C order written).Sound C id confirms := by
  obtain ⟨-, heq⟩ | ⟨-, hwritten, heq⟩ :=
    s.senderLoop.peer.broadcast_cases C s.sender order written
  · have hsame : s.broadcast C order written = s := by simp [Exchange.broadcast, heq]
    rw [hsame]
    exact hs
  · have hwrite := hs.write (hlen hwritten) (Peer.foldl_mark_update C s.senderLoop.peer
      (s.senderLoop.peer.bundle C s.sender order))
    simpa [Exchange.broadcast, heq] using hwrite

/-- The receiver reads a bundle, or a packet that leads to other jobs. -/
theorem Sound.receive (hs : s.Sound C id confirms) {packet : Packet} {rest : List Packet}
    (h : s.outbound = packet :: rest) : (s.receive C packet rest).Sound C id confirms := by
  have hpacket := hs.outbound packet (by rw [h]; exact List.mem_cons_self)
  have hrest : ∀ x ∈ rest, x ∈ s.outbound := fun x hx => by rw [h]; exact List.mem_cons_of_mem _ hx
  refine { hs with
    outbound := fun x hx => hs.outbound x (hrest x hx)
    receiving := ?_
    confirmations := (s.receiverLoop.read_confirmations C s.receiver packet).trans
      hs.confirmations }
  obtain hcode | ⟨bundle, hbundle, rfl, hlen⟩ := hpacket
  · exact .quiet fun j hj => Loop.read_quiet hcode hj
  · obtain hnone | ⟨hjobs, herrors⟩ := Loop.read_bundle C s.receiver s.receiverLoop hlen
    · exact .quiet (by simp [Exchange.receive, hnone])
    · refine .batch bundle hbundle [] (bundle.map (Envelope.received C)) (List.forall_mem_nil _)
        hjobs rfl ?_ ?_
      · simp [Exchange.receive, herrors]
      · simp [Exchange.receive, herrors]

/-- The receiver does a job that is no `add` and no confirmation. -/
theorem Sound.work_other (hs : s.Sound C id confirms) (now : UInt32) (sync : Option GoError)
    (hadd : ∀ e rest, s.receiverLoop.jobs ≠ .add e :: rest)
    (hconfirm : ∀ data rest, s.receiverLoop.jobs ≠ .confirm data :: rest)
    (hreceiving : Receiving C s.bundles s.results
      (s.receiverLoop.work C now sync s.receiver).2.jobs
      (s.receiverLoop.work C now sync s.receiver).2.envelopeErrors) :
    (s.work C now sync).Sound C id confirms := by
  have hsame := (s.receiverLoop.work_leaves C now sync s.receiver).confirmations_eq hconfirm
  have hresult : s.result C now = [] := by
    unfold result
    split
    · rename_i e rest h
      exact absurd h (hadd e rest)
    · rfl
  have hanswer : s.answer = [] := by
    unfold answer
    split
    · rename_i data rest h
      exact absurd h (hconfirm data rest)
    · rfl
  have hstate : s.work C now sync =
      { s with
        receiver := (s.receiverLoop.work C now sync s.receiver).1
        receiverLoop := (s.receiverLoop.work C now sync s.receiver).2 } := by
    simp [Exchange.work, hresult, hanswer, hsame, gained_self]
  rw [hstate]
  exact { hs with
    disabled := (Loop.work_changes C now sync _ _).disableConfirmations_eq.trans hs.disabled
    receiving := hreceiving
    confirmations := hsame.trans hs.confirmations }

/-- The receiver calls `add` for the next envelope of a bundle. -/
theorem Sound.work_add (hs : s.Sound C id confirms) (now : UInt32) (sync : Option GoError)
    {bundle : List Envelope} (hbundle : bundle ∈ s.bundles) {e : Envelope} {left : List Envelope}
    (hjobs : s.receiverLoop.jobs = .add e :: (left.map .add ++
      [.confirm (Peer.bundlePacket bundle).payload, .checkTrouble]))
    (hresults : s.results.map Prod.fst ++ e :: left = bundle.map (Envelope.received C))
    (hhashes : s.receiverLoop.envelopeErrors.map EnvelopeError.hash =
      (s.results.filter fun r => r.2.isSome).map fun r => r.1.hash C)
    (hcodes : ∀ err ∈ s.receiverLoop.envelopeErrors, err.code < 2 ^ 64) :
    (s.work C now sync).Sound C id confirms := by
  have hleaves := s.receiverLoop.work_leaves C now sync s.receiver
  have hsame := hleaves.confirmations_eq (by rw [hjobs]; exact nofun)
  obtain ⟨mid, hmid, hafter, herrors⟩ := hleaves.of_add hjobs
  have hstate : s.work C now sync =
      { s with
        receiver := (s.receiverLoop.work C now sync s.receiver).1
        receiverLoop := (s.receiverLoop.work C now sync s.receiver).2
        results := s.results ++ [(e, s.receiver.addError C now e)] } := by
    simp [Exchange.work, result, answer, hjobs, hsame, gained_self]
  rw [hstate]
  refine { hs with
    disabled := (Loop.work_changes C now sync _ _).disableConfirmations_eq.trans hs.disabled
    receiving := .batch bundle hbundle mid left hmid hafter ?_ ?_ ?_
    confirmations := hsame.trans hs.confirmations }
  · simpa using hresults
  · rw [herrors, List.map_append, hhashes]
    cases s.receiver.addError C now e <;> simp [errorToEnvelopeError]
  · rw [herrors]
    intro err herr
    obtain herr | herr := List.mem_append.mp herr
    · exact hcodes err herr
    · obtain ⟨x, -, rfl⟩ : ∃ x, _ ∧ _ = err := by simpa using herr
      exact errorToEnvelopeError_code _ _

/-- The receiver starts the confirmation of a bundle. -/
theorem Sound.work_confirm (hs : s.Sound C id confirms) (now : UInt32) (sync : Option GoError)
    {bundle : List Envelope} (hbundle : bundle ∈ s.bundles)
    (hjobs : s.receiverLoop.jobs =
      [.confirm (Peer.bundlePacket bundle).payload, .checkTrouble])
    (hresults : s.results.map Prod.fst = bundle.map (Envelope.received C))
    (hhashes : s.receiverLoop.envelopeErrors.map EnvelopeError.hash =
      (s.results.filter fun r => r.2.isSome).map fun r => r.1.hash C)
    (hcodes : ∀ err ∈ s.receiverLoop.envelopeErrors, err.code < 2 ^ 64) :
    (s.work C now sync).Sound C id confirms := by
  obtain ⟨hafter, hstarted⟩ := (s.receiverLoop.work_leaves C now sync s.receiver).of_confirm hjobs
  let x : Answer :=
    { data := (Peer.bundlePacket bundle).payload
      results := s.results
      errors := s.receiverLoop.envelopeErrors }
  have hx : x ∈ s.answers ++ [x] := by simp
  have hstate : s.work C now sync =
      { s with
        receiver := (s.receiverLoop.work C now sync s.receiver).1
        receiverLoop := (s.receiverLoop.work C now sync s.receiver).2
        answers := s.answers ++ [x]
        tasks := s.tasks ++ if confirms then [x.packets C] else [] } := by
    simp only [Exchange.work, result, answer, hjobs, hstarted, gained_append, hs.disabled,
      List.append_nil]
    cases confirms <;> rfl
  have hpackets : ∀ packet, (∃ y ∈ s.answers, packet ∈ y.packets C) →
      ∃ y ∈ s.answers ++ [x], packet ∈ y.packets C :=
    fun packet ⟨y, hy, h⟩ => ⟨y, List.mem_append_left _ hy, h⟩
  rw [hstate]
  refine { hs with
    disabled := (Loop.work_changes C now sync _ _).disableConfirmations_eq.trans hs.disabled
    receiving := .quiet ?_
    answers := fun y hy => ?_
    confirmations := ?_
    tasks := fun task htask packet hpacket => ?_
    inbound := fun packet hpacket =>
      (hs.inbound packet hpacket).imp_right fun h => ⟨h.1, hpackets packet h.2⟩
    jobs := fun j hj => (hs.jobs j hj).append _
    acknowledged := fun event hevent => (hs.acknowledged event hevent).append _ }
  · intro j hj
    have hj : j ∈ (s.receiverLoop.work C now sync s.receiver).2.jobs := hj
    rw [hafter, List.mem_singleton] at hj
    rw [hj]
    trivial
  · obtain hy | hy := List.mem_append.mp hy
    · exact hs.answers y hy
    · rw [List.mem_singleton.mp hy]
      exact ⟨bundle, hbundle, rfl, hresults, hhashes, hcodes⟩
  · refine hstarted.trans ?_
    rw [hs.confirmations, hs.disabled]
    cases confirms <;> simp [x]
  · obtain htask | htask := List.mem_append.mp htask
    · exact hpackets packet (hs.tasks task htask packet hpacket)
    · split at htask
      · rw [List.mem_singleton.mp htask] at hpacket
        exact ⟨x, hx, hpacket⟩
      · cases htask

theorem Sound.work (hs : s.Sound C id confirms) (now : UInt32) (sync : Option GoError) :
    (s.work C now sync).Sound C id confirms := by
  have hleaves := s.receiverLoop.work_leaves C now sync s.receiver
  cases hs.receiving with
  | quiet hquiet =>
    refine hs.work_other now sync (fun e rest h => ?_) (fun data rest h => ?_) (.quiet ?_)
    · exact hquiet (.add e) (by rw [h]; exact List.mem_cons_self)
    · exact hquiet (.confirm data) (by rw [h]; exact List.mem_cons_self)
    · intro j hj
      obtain hj | hj := hleaves.mem_jobs hj
      · exact hquiet j hj
      · exact hj.quiet
  | batch bundle hbundle mid left hmid hjobs hresults hhashes hcodes =>
    -- The rest of the last `add` comes first, then the next `add`, and then the confirmation.
    cases mid with
    | cons job mid =>
      have hjob : job.Rest := hmid job List.mem_cons_self
      obtain ⟨hafter, herrors⟩ := hleaves.of_rest hjobs hjob
      refine hs.work_other now sync (fun e rest h => ?_) (fun data rest h => ?_) ?_
      · rw [h] at hjobs
        cases hjobs
        exact hjob
      · rw [h] at hjobs
        cases hjobs
        exact hjob
      · rw [hafter, herrors]
        exact .batch bundle hbundle mid left (fun j hj => hmid j (List.mem_cons_of_mem _ hj)) rfl
          hresults hhashes hcodes
    | nil =>
      cases left with
      | cons e left => exact hs.work_add now sync hbundle hjobs hresults hhashes hcodes
      | nil =>
        rw [List.append_nil] at hresults
        exact hs.work_confirm now sync hbundle hjobs hresults hhashes hcodes

/-- A run of `sendConfirmation` writes its next packet. -/
theorem Sound.confirm (hs : s.Sound C id confirms) {k : Nat} {packet : Packet}
    {rest : List Packet} {written : Bool} (h : s.tasks[k]? = some (packet :: rest))
    (hlen : written = true → packet.payload.length < 2 ^ 32) :
    (s.confirm k packet rest written).Sound C id confirms := by
  have hmem : packet :: rest ∈ s.tasks := List.mem_of_getElem? h
  refine { hs with
    tasks := fun task htask x hx => ?_
    inbound := fun x hx => ?_ }
  · obtain htask | rfl := List.mem_or_eq_of_mem_set htask
    · exact hs.tasks task htask x hx
    · exact hs.tasks _ hmem x (List.mem_cons_of_mem _ hx)
  · obtain hx | hx := List.mem_append.mp hx
    · exact hs.inbound x hx
    · split at hx
      · rw [List.mem_singleton.mp hx]
        exact .inr ⟨hlen ‹_›, hs.tasks _ hmem packet List.mem_cons_self⟩
      · cases hx

/-- What the sender makes of a packet of a confirmation. -/
theorem honest_packets {answers : List Answer} {x : Answer} (hx : x ∈ answers) {packet : Packet}
    (hpacket : packet ∈ x.packets C) (hlen : packet.payload.length < 2 ^ 32) {p : Peer} {j : Job}
    (h : packet.Yields C p j) : j.Honest C id answers := by
  simp only [Answer.packets, sendConfirmation, List.mem_cons, List.not_mem_nil, or_false]
    at hpacket
  obtain rfl | rfl := hpacket
  · cases h with
    | response m _ hm =>
      obtain ⟨m', hdecode, -, hresponse⟩ := decode_response hlen
      obtain rfl : m = m' := Except.ok.inj (hm.symm.trans hdecode)
      rw [hresponse]
      exact ⟨fun _ _ => ⟨x, hx, rfl, .inr rfl⟩, nofun⟩
    | add e hcode => cases hcode
    | acknowledged b hcode => cases hcode
    | finished event hcode => cases hcode
    | _ => trivial
  · cases h with
    | acknowledged b _ hb =>
      obtain ⟨b', hdecode, hhash⟩ := decode_acknowledgement (C.keccak256Hash x.data)
      obtain rfl : b = b' := Except.ok.inj (hb.symm.trans hdecode)
      exact ⟨fun _ _ => ⟨x, hx, hhash, .inl rfl⟩, nofun⟩
    | add e hcode => cases hcode
    | response m hcode => cases hcode
    | finished event hcode => cases hcode
    | _ => trivial

/-- What the sender makes of the other packets. -/
theorem honest_other {answers : List Answer} {packet : Packet}
    (hresponse : packet.code ≠ messageResponseCode)
    (hacknowledged : packet.code ≠ batchAcknowledgedCode) {p : Peer} {j : Job}
    (h : packet.Yields C p j) : j.Honest C id answers := by
  cases h with
  | add e _ he => exact he ▸ Envelope.received_hashSound C e
  | response m hcode => exact absurd hcode hresponse
  | acknowledged b hcode => exact absurd hcode hacknowledged
  | finished event _ _ hevent =>
    exact ⟨fun h => absurd (hevent.symm.trans h) (by decide),
      fun h => absurd (hevent.symm.trans h) (by decide)⟩
  | _ => trivial

theorem Sound.listen (hs : s.Sound C id confirms) {packet : Packet} {rest : List Packet}
    (h : s.inbound = packet :: rest) : (s.listen C packet rest).Sound C id confirms := by
  have hpacket := hs.inbound packet (by rw [h]; exact List.mem_cons_self)
  have hrest : ∀ x ∈ rest, x ∈ s.inbound := fun x hx => by rw [h]; exact List.mem_cons_of_mem _ hx
  obtain ⟨pow, bloom, full, hpeer⟩ := s.senderLoop.read_peer C s.sender packet
  refine { hs with
    peer := ?_
    enabled := ?_
    inbound := fun x hx => hs.inbound x (hrest x hx)
    jobs := fun j hj => ?_ }
  · rw [Exchange.listen, hpeer]
    exact hs.peer
  · rw [Exchange.listen, hpeer]
    exact hs.enabled
  · obtain ⟨p, -, hyields⟩ := Loop.mem_read_jobs hj
    obtain ⟨hresponse, hacknowledged⟩ | ⟨hlen, x, hx, hmem⟩ := hpacket
    · exact honest_other hresponse hacknowledged hyields
    · exact honest_packets hx hmem hlen hyields

theorem Sound.process (hs : s.Sound C id confirms) (now : UInt32) (sync : Option GoError) :
    (s.process C now sync).Sound C id confirms := by
  have hchanges := s.senderLoop.work_changes C now sync s.sender
  have hleaves := s.senderLoop.work_leaves C now sync s.sender
  obtain ⟨known, hpeer⟩ := hleaves.peer_eq
  have hevents : ∀ event ∈ (s.senderLoop.work C now sync s.sender).1.envelopeFeed,
      Acknowledges C id s.answers event ∧ Tagged C id confirms s.bundles event := by
    intro event hevent
    obtain hold | hsend | hkind | hkind := hchanges.mem_envelopeFeed hevent
    · exact ⟨hs.acknowledged event hold, hs.tagged event hold⟩
    · obtain ⟨hack, hne⟩ := hs.jobs _ hsend
      exact ⟨hack, fun hsent => absurd hsent hne⟩
    · exact ⟨fun h => absurd (hkind.symm.trans h) (by decide),
        fun h => absurd (hkind.symm.trans h) (by decide)⟩
    · exact ⟨fun h => absurd (hkind.symm.trans h) (by decide),
        fun h => absurd (hkind.symm.trans h) (by decide)⟩
  refine { hs with
    peer := ?_
    enabled := ?_
    pool := ?_
    jobs := fun j hj => ?_
    acknowledged := fun event hevent => (hevents event hevent).1
    tagged := fun event hevent => (hevents event hevent).2 }
  · rw [Exchange.process, hpeer]
    exact hs.peer
  · rw [Exchange.process, hpeer]
    exact hs.enabled
  · intro h e hlookup
    obtain hold | ⟨e₀, hadd, hcheck⟩ := hchanges.lookup_envelopes hlookup
    · exact hs.pool h e hold
    · obtain rfl := (Settings.check_some_iff.mp hcheck).1
      exact (Envelope.HashSound.adjust (hs.jobs _ hadd) now).fill
  · obtain hj | hj := hleaves.mem_jobs hj
    · exact hs.jobs j hj
    · cases j with
      | add e => exact hj.elim
      | send event => exact hj.elim
      | _ => trivial

theorem Sound.step (hs : s.Sound C id confirms) {a : ExchangeAction} {t : Exchange}
    (hstep : ExchangeStep C s a t) : t.Sound C id confirms := by
  cases a with
  | broadcast order written =>
    obtain ⟨-, hlen, rfl⟩ := hstep
    exact hs.broadcast hlen
  | transmit packet =>
    obtain ⟨hcode, rfl⟩ := hstep
    refine { hs with outbound := fun x hx => ?_ }
    obtain hx | hx := List.mem_append.mp hx
    · exact hs.outbound x hx
    · rw [List.mem_singleton.mp hx]
      exact .inl hcode
  | receive =>
    obtain ⟨-, -, packet, rest, houtbound, rfl⟩ := hstep
    exact hs.receive houtbound
  | work now sync =>
    obtain ⟨-, rfl⟩ := hstep
    exact hs.work now sync
  | confirm k written =>
    obtain ⟨packet, rest, htask, hlen, rfl⟩ := hstep
    exact hs.confirm htask hlen
  | reply packet =>
    obtain ⟨hresponse, hacknowledged, rfl⟩ := hstep
    refine { hs with inbound := fun x hx => ?_ }
    obtain hx | hx := List.mem_append.mp hx
    · exact hs.inbound x hx
    · rw [List.mem_singleton.mp hx]
      exact .inl ⟨hresponse, hacknowledged⟩
  | listen =>
    obtain ⟨-, -, packet, rest, hinbound, rfl⟩ := hstep
    exact hs.listen hinbound
  | process now sync =>
    obtain ⟨-, rfl⟩ := hstep
    exact hs.process now sync
  | senderOthers w p =>
    obtain ⟨hevents, hpool, hpeer, henabled, rfl⟩ := hstep
    have hid : p.id = id := hpeer.trans hs.peer
    refine { hs with
      peer := hid
      enabled := henabled.trans hs.enabled
      pool := hpool
      acknowledged := fun event hevent => ?_
      tagged := fun event hevent => ?_ }
    · obtain hold | hother | hkind := hevents event hevent
      · exact hs.acknowledged event hold
      · exact fun _ hid' => absurd (hid'.trans hid.symm) hother
      · exact fun hack => absurd hack hkind.2
    · obtain hold | hother | hkind := hevents event hevent
      · exact hs.tagged event hold
      · exact fun _ hid' => absurd (hid'.trans hid.symm) hother
      · exact fun hsent => absurd hsent hkind.1
  | receiverOthers w p =>
    obtain ⟨hconfig, rfl⟩ := hstep
    exact { hs with disabled := hconfig.trans hs.disabled }

end Exchange

namespace Exchange

end Exchange

end Whisperv6
