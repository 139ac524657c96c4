import Whisperv6.MailServer

/-! The message loop on every kind of packet.  A packet is decoded first; what the loop then does to
the node is a sequence of jobs, and the other goroutines may work before each of them. -/

namespace Whisperv6

open ProofKit

/-! ### Decoding a packet -/

/-- The type of the errors of package `p2p`. -/
def peerError : GoType := ⟨"*p2p.peerError", ["Error"]⟩

/-- `packet.Decode` into a target of the type `typ`, which `d` decodes. -/
def Packet.decode {α : Type} (packet : Packet) (typ : String) (d : Rlp.Reader α) :
    Except GoError α :=
  match d packet.stream with
  | .ok (x, _) => .ok x
  | .error err => .error ⟨peerError, "invalid message: (code " ++
      String.ofList (Nat.toDigits 16 packet.code) ++ ") (size " ++ toString packet.size ++ ") " ++
      (Rlp.addTarget typ err).text⟩

theorem Packet.decode_eq_ok {α : Type} {packet : Packet} {typ : String} {d : Rlp.Reader α} {x : α}
    (h : packet.decode typ d = .ok x) : ∃ t, d packet.stream = .ok (x, t) := by
  unfold decode at h
  split at h
  · rename_i x' t hd
    cases h
    exact ⟨t, hd⟩
  · cases h

/-! ### Jobs -/

/-- One operation of the loop.  `announce` is the part of `add` after the pool lock, and `received`
the event after `add`. -/
inductive Job
  | add (e : Envelope)
  | announce (e : Envelope) (isP2P : Bool)
  | received (e : Envelope)
  | mark (e : Envelope)
  | confirm (data : Bytes)
  | checkTrouble
  | postP2P (item : P2PItem)
  | archive (e : Envelope)
  | send (event : EnvelopeEvent)
  | call (call : MailCall)
  deriving DecidableEq

/-- An error with which the loop returns. -/
def invalid {α : Type} (text : String) : Except Fault α := .error (.error (newError text))

/-- The case `messagesCode`. -/
def Packet.messagesJobs (C : Crypto) (packet : Packet) : Except Fault (List Job) :=
  match Rlp.decodeBytes "[]*whisperv6.Envelope" (decodeEnvelopes C) packet.payload with
  | .error _ => invalid "invalid envelopes"
  | .ok envelopes => .ok (envelopes.map .add ++ [.confirm packet.payload, .checkTrouble])

/-- The case `messageResponseCode`.  The event is sent also for a response that is not decoded. -/
def Packet.responseJobs (packet : Packet) (p : Peer) : Except Fault (List Job) :=
  match packet.decode "whisperv6.MultiVersionResponse" MultiVersionResponse.decode with
  | .error _ => invalid "invalid response message"
  | .ok multiResponse =>
    if multiResponse.version = 1 then
      let response := multiResponse.decodeResponse1.1
      .ok [.send
        { batch := response.hash
          event := .batchAcknowledged
          peer := p.id
          data := .errors response.errors }]
    else .ok []

/-- The case `batchAcknowledgedCode`. -/
def Packet.acknowledgedJobs (packet : Packet) (p : Peer) : Except Fault (List Job) :=
  match packet.decode "common.Hash" (Rlp.decodeByteArray "common.Hash" hashLength) with
  | .error _ => invalid "invalid confirmation message"
  | .ok batchHash =>
    .ok [.send { batch := bytesToHash batchHash, event := .batchAcknowledged, peer := p.id }]

/-- The case `p2pMessageCode`: envelopes, or one envelope. -/
def Packet.directJobs (C : Crypto) (packet : Packet) (p : Peer) : Except Fault (List Job) :=
  if p.trusted then
    match packet.decode "[]*whisperv6.Envelope" (decodeEnvelopes C) with
    | .ok envelopes => .ok (envelopes.map fun e => .postP2P (.envelope e))
    | .error _ =>
      match packet.decode "*whisperv6.Envelope" (Envelope.decodeRLP C) with
      | .ok envelope => .ok [.postP2P (.envelope envelope)]
      | .error err => invalid ("invalid direct message: " ++ err.text)
  else .ok []

/-- The case `p2pSyncRequestCode`. -/
def Packet.syncRequestJobs (packet : Packet) (w : Whisper) : Except Fault (List Job) :=
  if w.mailServer then
    match packet.decode "whisperv6.SyncMailRequest" SyncMailRequest.decode with
    | .error err => invalid ("failed to decode p2pSyncRequestCode payload: " ++ err.text)
    | .ok request =>
      match request.validate with
      | some err => invalid ("sync mail request was invalid: " ++ err.text)
      | none => .ok [.call (.syncMail request)]
  else .ok []

/-- The case `p2pSyncResponseCode`. -/
def Packet.syncResponseJobs (C : Crypto) (packet : Packet) (w : Whisper) (p : Peer) :
    Except Fault (List Job) :=
  if p.trusted && w.mailServer then
    match packet.decode "whisperv6.SyncResponse" (SyncResponse.decode C) with
    | .error err => invalid ("failed to decode p2pSyncResponseCode payload: " ++ err.text)
    | .ok resp =>
      .ok (resp.envelopes.map .archive ++
        if resp.error ≠ [] ∨ resp.final then
          [.send
            { event := .mailServerSyncFinished
              peer := p.id
              data := .sync resp.cursor resp.error }]
        else [])
  else .ok []

/-- The case `p2pRequestCode`: an envelope, or a `MessagesRequest`. -/
def Packet.requestJobs (C : Crypto) (packet : Packet) (w : Whisper) : Except Fault (List Job) :=
  if w.mailServer then
    match packet.decode "whisperv6.Envelope" (Envelope.decodeRLP C) with
    | .ok requestDeprecated => .ok [.call (.deliverMail requestDeprecated)]
    | .error _ =>
      match packet.decode "whisperv6.MessagesRequest" MessagesRequest.decode with
      | .ok request => .ok [.call (.deliver request)]
      | .error _ => invalid "invalid p2p request"
  else .ok []

/-- The case `p2pRequestCompleteCode`. -/
def Packet.requestCompleteJobs (packet : Packet) (p : Peer) : Except Fault (List Job) :=
  if p.trusted then
    match packet.decode "[]uint8" (Rlp.decodeByteSlice "[]uint8") with
    | .error _ => invalid "invalid request response message"
    | .ok payload =>
      match createMailServerEvent p.id payload with
      | .error fault => .error fault
      | .ok event => .ok [.postP2P (.event event)]
  else .ok []

/-- The cases in which the loop works on the node. -/
def Packet.jobs (C : Crypto) (packet : Packet) (w : Whisper) (p : Peer) :
    Except Fault (List Job) :=
  if packet.code = messagesCode then packet.messagesJobs C
  else if packet.code = messageResponseCode then packet.responseJobs p
  else if packet.code = batchAcknowledgedCode then packet.acknowledgedJobs p
  else if packet.code = p2pMessageCode then packet.directJobs C p
  else if packet.code = p2pSyncRequestCode then packet.syncRequestJobs w
  else if packet.code = p2pSyncResponseCode then packet.syncResponseJobs C w p
  else if packet.code = p2pRequestCode then packet.requestJobs C w
  else if packet.code = p2pRequestCompleteCode then packet.requestCompleteJobs p
  else .ok []

/-- The cases `powRequirementCode` and `bloomFilterExCode`, which work on the peer only. -/
def Packet.applyTo (packet : Packet) (p : Peer) : Except GoError Peer :=
  if packet.code = powRequirementCode then p.receivePow packet
  else if packet.code = bloomFilterExCode then p.receiveBloom packet
  else .ok p

section Codes

variable {C : Crypto} {packet : Packet} {w : Whisper} {p : Peer}

theorem Packet.jobs_direct (h : packet.code = p2pMessageCode) :
    packet.jobs C w p = packet.directJobs C p := by
  rw [jobs, h]
  rfl

theorem Packet.jobs_request (h : packet.code = p2pRequestCode) :
    packet.jobs C w p = packet.requestJobs C w := by
  rw [jobs, h]
  rfl

theorem Packet.jobs_requestComplete (h : packet.code = p2pRequestCompleteCode) :
    packet.jobs C w p = packet.requestCompleteJobs p := by
  rw [jobs, h]
  rfl

theorem Packet.applyTo_of_ne (hpow : packet.code ≠ powRequirementCode)
    (hbloom : packet.code ≠ bloomFilterExCode) : packet.applyTo p = .ok p := by
  rw [applyTo, if_neg hpow, if_neg hbloom]

/-- A packet changes what the peer asks for, and nothing else in its record. -/
theorem Packet.applyTo_update {p' : Peer} (h : packet.applyTo p = .ok p') :
    ∃ pow bloom full,
      p' = { p with powRequirement := pow, bloomFilter := bloom, fullNode := full } := by
  unfold applyTo at h
  split at h
  · unfold Peer.receivePow at h
    split at h
    · cases h
    · dsimp only at h
      split at h <;> cases h
      exact ⟨_, _, _, rfl⟩
  split at h
  · unfold Peer.receiveBloom at h
    split at h
    · cases h
    · split at h <;> cases h
      exact ⟨_, _, _, rfl⟩
  · cases h
    exact ⟨_, _, _, rfl⟩

end Codes

/-! ### The loop -/

/-- `runMessageLoop` for a peer: the jobs that are left of the packet it has read last, and the
variables of that packet.  `confirmations` are the goroutines of `sendConfirmation` that it has
started, `calls` its calls to the mail server, and `written` the packets that it has written. -/
structure Loop where
  peer : Peer
  jobs : List Job := []
  trouble : Bool := false
  envelopeErrors : List EnvelopeError := []
  confirmations : List (Hash × List EnvelopeError) := []
  calls : List MailCall := []
  written : List Packet := []
  returned : Option Fault := none
  deriving DecidableEq

theorem Whisper.add_disableConfirmations (C : Crypto) (w : Whisper) (now : UInt32) (e : Envelope)
    (isP2P : Bool) : (w.add C now e isP2P).1.disableConfirmations = w.disableConfirmations := by
  rcases add_cases C w now e isP2P with hsame | ⟨e', -, -, -, -, -, hadd⟩
  · rw [hsame]
  · obtain ⟨flag, h⟩ := announce_update C (w.insert C e') e' isP2P
    rw [hadd, h]
    rfl

theorem Batch.receiveAll_disableConfirmations (C : Crypto) (b : Batch)
    (batch : List (UInt32 × Envelope)) :
    (b.receiveAll C batch).whisper.disableConfirmations = b.whisper.disableConfirmations := by
  induction batch generalizing b with
  | nil => rfl
  | cons x rest ih =>
    refine (ih (b.receive C x.1 x.2)).trans ?_
    exact b.whisper.add_disableConfirmations C x.1 x.2 b.whisper.settings.lightClientMode

namespace Loop

/-- The loop returns. -/
def leave (l : Loop) (fault : Fault) : Loop := { l with jobs := [], returned := some fault }

/-- The loop reads a packet. -/
def read (C : Crypto) (w : Whisper) (l : Loop) (packet : Packet) : Loop :=
  match w.checkPacketSize packet with
  | some err => l.leave (.error err)
  | none =>
    match packet.applyTo l.peer with
    | .error err => l.leave (.error err)
    | .ok p =>
      match packet.jobs C w p with
      | .error fault => l.leave fault
      | .ok jobs => { l with peer := p, jobs, trouble := false, envelopeErrors := [] }

/-- The checks of `add` refuse an envelope with the error `err`. -/
def refuse (C : Crypto) (l : Loop) (e : Envelope) (err : GoError) : Loop :=
  { l with
    trouble := l.trouble || (typeAssert timeSyncErrorMethods err).isNone
    envelopeErrors := l.envelopeErrors ++ [errorToEnvelopeError (e.hash C) err] }

/-- The loop puts jobs before the ones that are left. -/
def push (l : Loop) (jobs : List Job) : Loop := { l with jobs := jobs ++ l.jobs }

/-- The job `add` at the clock reading `now`, up to the end of the pool lock. -/
def add (C : Crypto) (now : UInt32) (w : Whisper) (l : Loop) (e : Envelope) : Whisper × Loop :=
  match w.settings.check C now e with
  | .error err => (w, (l.refuse C e (err.value C w.settings now e)).push [.received e])
  | .ok none => (w, l.push [.received e])
  | .ok (some e') =>
    if e'.hash C ∈ w.envelopes then (w, l.push [.received e, .mark e])
    else (w.insert C e',
      l.push [.announce e' w.settings.lightClientMode, .received e, .mark e])

/-- A call to the mail server; `sync` is the error that `SyncMail` returns. -/
def callMailServer (l : Loop) (sync : Option GoError) (call : MailCall) : Loop :=
  let l := { l with calls := l.calls ++ [call] }
  match call, sync with
  | .syncMail _, some err =>
    { l with written := l.written ++ [sendSyncResponse { error := goString err.text }] }.leave
      (.error err)
  | _, _ => l

/-- One job, which is no longer among the jobs of `l`. -/
def perform (C : Crypto) (now : UInt32) (sync : Option GoError) (w : Whisper) (l : Loop) :
    Job → Whisper × Loop
  | .add e => l.add C now w e
  | .announce e isP2P => (w.announce C e isP2P, l)
  | .received e =>
    ({ w with
      envelopeFeed := w.envelopeFeed ++
        [{ event := .envelopeReceived, topic := e.topic, hash := e.hash C, peer := l.peer.id }] },
      l)
  | .mark e => (w, { l with peer := l.peer.mark C e })
  | .confirm data =>
    (w, if w.disableConfirmations then l
      else { l with
        confirmations := l.confirmations ++ [(C.keccak256Hash data, l.envelopeErrors)] })
  | .checkTrouble =>
    (w, if l.trouble then l.leave (.error (newError "invalid envelope")) else l)
  | .postP2P item => ({ w with p2pMsgQueue := w.p2pMsgQueue ++ [item] }, l)
  | .archive e => ({ w with archived := w.archived ++ [e] }, l)
  | .send event => ({ w with envelopeFeed := w.envelopeFeed ++ [event] }, l)
  | .call call => (w, l.callMailServer sync call)

/-- The next job. -/
def work (C : Crypto) (now : UInt32) (sync : Option GoError) (w : Whisper) (l : Loop) :
    Whisper × Loop :=
  match l.jobs with
  | [] => (w, l)
  | job :: rest => perform C now sync w { l with jobs := rest } job

/-- The next `n` jobs, with no other goroutine at work. -/
def workAll (C : Crypto) (now : UInt32) (sync : Option GoError) : (n : Nat) → Whisper → Loop →
    Whisper × Loop
  | 0, w, l => (w, l)
  | n + 1, w, l =>
    let (w, l) := l.work C now sync w
    workAll C now sync n w l

/-- A round of the loop on a packet, with no other goroutine at work.  No job leads to more than
three others. -/
def round (C : Crypto) (now : UInt32) (sync : Option GoError) (w : Whisper) (l : Loop)
    (packet : Packet) : Whisper × Loop :=
  let l := l.read C w packet
  l.workAll C now sync (4 * l.jobs.length) w

/-! ### The loop on a packet of envelopes -/

/-- A job of the loop. -/
def Works (C : Crypto) (s t : Whisper × Loop) : Prop :=
  ∃ now sync, s.2.jobs ≠ [] ∧ s.2.work C now sync s.1 = t

theorem Works.of_jobs {C : Crypto} {w : Whisper} {l : Loop} {job : Job} {rest : List Job}
    (h : l.jobs = job :: rest) (now : UInt32) (sync : Option GoError) :
    Works C (w, l) (perform C now sync w { l with jobs := rest } job) :=
  ⟨now, sync, by simp [h], by simp only [work, h]⟩

/-- What the loop has done with the envelopes of a packet so far. -/
def batch (w : Whisper) (l : Loop) : Batch where
  whisper := w
  peer := l.peer
  trouble := l.trouble
  envelopeErrors := l.envelopeErrors

/-- The loop with the variables of the packet that it works on. -/
def withBatch (l : Loop) (b : Batch) (jobs : List Job) : Loop :=
  { l with
    peer := b.peer
    jobs
    trouble := b.trouble
    envelopeErrors := b.envelopeErrors }

/-- With no other goroutine at work, the jobs of one envelope do what `Batch.receive` does. -/
theorem works_receive (C : Crypto) (w : Whisper) (l : Loop) {e : Envelope} {rest : List Job}
    (h : l.jobs = .add e :: rest) (now : UInt32) :
    Relation.ReflTransGen (Works C) (w, l)
      (((l.batch w).receive C now e).whisper,
        l.withBatch ((l.batch w).receive C now e) rest) := by
  have hadd : Works C (w, l) ({ l with jobs := rest }.add C now w e) := .of_jobs h now none
  refine .head hadd ?_
  unfold add
  split
  · rename_i err hcheck
    have hresult : w.add C now e w.settings.lightClientMode = (w, .error err) := by
      simp only [Whisper.add, hcheck]
    refine .head (.of_jobs rfl now none) ?_
    simp only [Batch.receive, batch, hresult]
    exact .refl
  · rename_i hcheck
    have hresult : w.add C now e w.settings.lightClientMode = (w, .ok false) := by
      simp only [Whisper.add, hcheck]
    refine .head (.of_jobs rfl now none) ?_
    simp only [Batch.receive, batch, hresult]
    exact .refl
  · rename_i e' hcheck
    split
    · rename_i hcached
      have hresult : w.add C now e w.settings.lightClientMode = (w, .ok true) := by
        simp only [Whisper.add, hcheck, if_pos hcached]
      refine .head (.of_jobs rfl now none) (.head (.of_jobs rfl now none) ?_)
      simp only [Batch.receive, batch, hresult]
      exact .refl
    · rename_i hnew
      have hresult : w.add C now e w.settings.lightClientMode =
          ((w.insert C e').announce C e' w.settings.lightClientMode, .ok true) := by
        simp only [Whisper.add, hcheck, if_neg hnew]
      refine .head (.of_jobs rfl now none) (.head (.of_jobs rfl now none)
        (.head (.of_jobs rfl now none) ?_))
      simp only [Batch.receive, batch, hresult]
      exact .refl

theorem works_receiveAll (C : Crypto) (w : Whisper) (l : Loop) (batch : List (UInt32 × Envelope))
    {rest : List Job} (h : l.jobs = batch.map (fun x => .add x.2) ++ rest) :
    Relation.ReflTransGen (Works C) (w, l)
      (((l.batch w).receiveAll C batch).whisper,
        l.withBatch ((l.batch w).receiveAll C batch) rest) := by
  induction batch generalizing w l with
  | nil =>
    obtain ⟨p, jobs, trouble, errors, confirmations, calls, written, returned⟩ := l
    cases h
    exact .refl
  | cons x others ih =>
    have hfirst := l.works_receive C w (e := x.2) h x.1
    refine hfirst.trans ?_
    exact ih _ (l.withBatch ((l.batch w).receive C x.1 x.2)
      (others.map (fun x => .add x.2) ++ rest)) rfl

/-- With no other goroutine at work, the loop does for a packet of envelopes what `handleMessages`
does, which starts one goroutine at most and returns no error. -/
theorem works_handleMessages (C : Crypto) (w : Whisper) (l : Loop) (data : Bytes)
    (batch : List (UInt32 × Envelope)) (htrouble : l.trouble = false)
    (herrors : l.envelopeErrors = [])
    (h : l.jobs = batch.map (fun x => .add x.2) ++ [.confirm data, .checkTrouble]) :
    ∃ l', Relation.ReflTransGen (Works C) (w, l)
        ((handleMessages C w l.peer data batch).whisper, l') ∧
      l'.peer = (handleMessages C w l.peer data batch).peer ∧ l'.jobs = [] ∧
      l'.returned = l.returned ∧
      l'.confirmations =
        l.confirmations ++ (handleMessages C w l.peer data batch).confirmation.toList := by
  have hb : l.batch w = { whisper := w, peer := l.peer } := by
    simp only [Loop.batch, htrouble, herrors]
  have hall := l.works_receiveAll C w batch h
  rw [hb] at hall
  have hno := (Batch.receiveAll_spec (b := { whisper := w, peer := l.peer }) (C := C)
    (Settings.Agree.refl w.settings) batch).1
  have hconfig := Batch.receiveAll_disableConfirmations C { whisper := w, peer := l.peer } batch
  have hconfirm := hall.tail (.of_jobs rfl 0 none)
  simp only [perform, hconfig] at hconfirm
  cases hdisabled : w.disableConfirmations with
  | true =>
    rw [hdisabled, if_pos rfl] at hconfirm
    have hlast := hconfirm.tail (.of_jobs rfl 0 none)
    simp only [perform, withBatch, hno, Bool.false_eq_true, if_false] at hlast
    exact ⟨_, hlast, rfl, rfl, rfl, by simp [handleMessages, hdisabled]⟩
  | false =>
    rw [hdisabled, if_neg Bool.false_ne_true] at hconfirm
    have hlast := hconfirm.tail (.of_jobs rfl 0 none)
    simp only [perform, withBatch, hno, Bool.false_eq_true, if_false] at hlast
    exact ⟨_, hlast, rfl, rfl, rfl, by simp [handleMessages, hdisabled]⟩

end Loop

end Whisperv6
