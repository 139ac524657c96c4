import Whisperv6.Jobs
import Whisperv6.Syncing
import Whisperv6.ProofKit.Conduit

/-! Two nodes that ask each other for old messages.  Each of them may have a mail server.  Requests
and answers go over the connection in order, and each message loop reads a packet when it has done
the jobs of the last one, while the other goroutines of its node work. -/

namespace Whisperv6

open ProofKit

/-! ### Letters -/

/-- What one of the nodes writes to the other one: the requests, the answers of a mail server, and
packets of other kinds. -/
inductive Letter
  | messages (request : MessagesRequest)
  | historic (envelope : Envelope)
  | sync (request : SyncMailRequest)
  | direct (envelopes : List Envelope)
  | complete (payload : Bytes)
  | syncResponse (data : SyncResponse)
  | other (packet : Packet)
  deriving DecidableEq

namespace Letter

def packet : Letter → Packet
  | messages request => sendPacket p2pRequestCode request.encode
  | historic envelope => sendPacket p2pRequestCode envelope.encode
  | sync request => sendPacket p2pSyncRequestCode request.encode
  | direct envelopes => sendP2PDirect envelopes
  | complete payload => sendHistoricMessageResponse payload
  | syncResponse data => sendSyncResponse data
  | other packet => packet

/-- The codes of requests and answers. -/
def codes : List Nat :=
  [p2pRequestCode, p2pSyncRequestCode, p2pMessageCode, p2pRequestCompleteCode, p2pSyncResponseCode]

/-- The size of the packet is its length, and no packet of another kind has a code of requests or
answers. -/
structure Sound (letter : Letter) : Prop where
  size : letter.packet.payload.length < 2 ^ 32
  code : ∀ packet, letter = other packet → packet.code ∉ codes

/-- What the letter has a node call its mail server for. -/
def calls (C : Crypto) (mailServer : Bool) : Letter → List MailCall
  | messages request => if mailServer then [.deliver request] else []
  | historic envelope => if mailServer then [.deliverMail (envelope.received C)] else []
  | sync request => if mailServer ∧ request.validate = none then [.syncMail request] else []
  | _ => []

/-- What the letter brings to a node that trusts the other one, with the identity `id`. -/
def answers (C : Crypto) (mailServer : Bool) (id : NodeID) : Letter → List Job
  | direct envelopes => envelopes.map fun e => .postP2P (.envelope (e.received C))
  | complete payload =>
    match createMailServerEvent id payload with
    | .ok event => [.postP2P (.event event)]
    | .error _ => []
  | syncResponse data => if mailServer then data.jobs C id else []
  | _ => []

end Letter

/-- The call that a job makes to the mail server. -/
def Job.mailCall : Job → Option MailCall
  | .call x => some x
  | _ => none

/-- A job for an answer of a mail server. -/
def Job.answer (job : Job) : Option Job :=
  match job with
  | .postP2P _ => some job
  | .archive _ => some job
  | .send event => if event.event = .mailServerSyncFinished then some job else none
  | _ => none

/-- The item that a job puts into `p2pMsgQueue`. -/
def Job.posted : Job → Option P2PItem
  | .postP2P item => some item
  | _ => none

/-- The envelope that a job archives. -/
def Job.archived : Job → Option Envelope
  | .archive e => some e
  | _ => none

/-- The event that a job sends. -/
def Job.sent : Job → Option EnvelopeEvent
  | .send event => some event
  | _ => none

/-! ### The jobs of a letter -/

section Jobs

variable {C : Crypto} {w : Whisper} {p : Peer} {packet : Packet} {letter : Letter}
  {jobs : List Job}

theorem Packet.jobs_syncRequest (h : packet.code = p2pSyncRequestCode) :
    packet.jobs C w p = packet.syncRequestJobs w := by
  rw [Packet.jobs, h]
  rfl

theorem Packet.jobs_syncResponse (h : packet.code = p2pSyncResponseCode) :
    packet.jobs C w p = packet.syncResponseJobs C w p := by
  rw [Packet.jobs, h]
  rfl

/-- Only requests have the loop call the mail server. -/
theorem Packet.filterMap_mailCall (h : packet.jobs C w p = .ok jobs)
    (hcode : packet.code ≠ p2pSyncRequestCode ∧ packet.code ≠ p2pRequestCode) :
    jobs.filterMap Job.mailCall = [] := by
  rw [List.filterMap_eq_nil_iff]
  intro j hj
  cases jobs_yields h hj with
  | call call hrequest => exact absurd hrequest (not_or.mpr hcode)
  | _ => rfl

/-- Only answers bring jobs for an answer. -/
theorem Packet.filterMap_answer (h : packet.jobs C w p = .ok jobs)
    (hcode : packet.code ∉ [p2pMessageCode, p2pRequestCompleteCode, p2pSyncResponseCode]) :
    jobs.filterMap Job.answer = [] := by
  simp only [List.mem_cons, List.not_mem_nil, or_false, not_or] at hcode
  rw [List.filterMap_eq_nil_iff]
  intro j hj
  cases jobs_yields h hj with
  | direct e heq => exact absurd heq hcode.1
  | archive e heq => exact absurd heq hcode.2.2
  | finished event heq => exact absurd heq hcode.2.2
  | complete event heq => exact absurd heq hcode.2.1
  | _ => rfl

theorem Packet.requestJobs_none (h : w.mailServer = false) :
    packet.requestJobs C w = .ok [] := by
  rw [requestJobs, h]
  rfl

namespace Letter

/-- A request has the loop make its call, and nothing else does. -/
theorem filterMap_mailCall (hletter : letter.Sound) (h : letter.packet.jobs C w p = .ok jobs) :
    jobs.filterMap Job.mailCall = letter.calls C w.mailServer := by
  cases letter with
  | messages request =>
    rw [Packet.jobs_request rfl] at h
    cases hmail : w.mailServer with
    | true =>
      cases (requestJobs_request C hletter.size hmail).symm.trans h
      rfl
    | false =>
      cases (Packet.requestJobs_none hmail).symm.trans h
      rfl
  | historic envelope =>
    rw [Packet.jobs_request rfl] at h
    cases hmail : w.mailServer with
    | true =>
      cases (requestJobs_envelope C hletter.size hmail).symm.trans h
      rfl
    | false =>
      cases (Packet.requestJobs_none hmail).symm.trans h
      rfl
  | sync request =>
    rw [Packet.jobs_syncRequest rfl] at h
    cases hmail : w.mailServer with
    | true =>
      cases hvalid : request.validate with
      | none =>
        cases (syncRequestJobs_valid hletter.size hmail hvalid).symm.trans h
        simp [calls, hvalid, Job.mailCall]
      | some err => cases (syncRequestJobs_invalid hletter.size hmail hvalid).symm.trans h
    | false =>
      rw [packet, Packet.syncRequestJobs, hmail] at h
      cases h
      simp [calls]
  | direct envelopes =>
    have hcode : (direct envelopes).packet.code = p2pMessageCode := sendP2PDirect_code envelopes
    exact Packet.filterMap_mailCall h (by rw [hcode]; decide)
  | complete payload =>
    have hcode : (complete payload).packet.code = p2pRequestCompleteCode := rfl
    exact Packet.filterMap_mailCall h (by rw [hcode]; decide)
  | syncResponse data =>
    have hcode : (syncResponse data).packet.code = p2pSyncResponseCode := rfl
    exact Packet.filterMap_mailCall h (by rw [hcode]; decide)
  | other packet =>
    have hcode := hletter.code packet rfl
    simp only [codes, List.mem_cons, List.not_mem_nil, or_false, not_or] at hcode
    exact Packet.filterMap_mailCall h ⟨hcode.2.1, hcode.1⟩

end Letter

/-- Jobs that are all for answers. -/
theorem filterMap_answer_self (h : ∀ j ∈ jobs, j.answer = some j) :
    jobs.filterMap Job.answer = jobs :=
  (List.filterMap_congr h).trans List.filterMap_some

theorem SyncResponse.answer_of_mem_jobs {r : SyncResponse} {id : NodeID} {j : Job}
    (h : j ∈ r.jobs C id) : j.answer = some j := by
  obtain h | h := List.mem_append.mp h
  · obtain ⟨e, -, rfl⟩ := List.mem_map.mp h
    rfl
  · split at h
    · rw [List.mem_singleton.mp h]
      rfl
    · cases h

theorem requestCompleteJobs_payload {payload : Bytes}
    (hlen : (sendHistoricMessageResponse payload).payload.length < 2 ^ 32)
    (hp : p.trusted = true) :
    (sendHistoricMessageResponse payload).requestCompleteJobs p =
      (createMailServerEvent p.id payload).map fun event => [.postP2P (.event event)] := by
  have hsize : payload.length ≤ (Rlp.encodeString payload).length := by
    rw [Rlp.length_encodeString]
    exact Rlp.length_le_stringSize payload
  obtain ⟨t, hreads⟩ := reads_sendPacket p2pRequestCompleteCode
    (show (Rlp.encodeString payload).length < 2 ^ 32 from hlen)
  have hsmall : payload.length < 2 ^ 64 := by
    have : (Rlp.encodeString payload).length < 2 ^ 32 := hlen
    omega
  have hdecode : Rlp.decodeByteSlice "[]uint8" (sendHistoricMessageResponse payload).stream =
      .ok (payload, t) := by
    rw [Rlp.decodeByteSlice, Rlp.mapError_ok, Rlp.bytes_ok]
    exact ⟨hsmall, hreads⟩
  rw [Packet.requestCompleteJobs, if_pos hp, Packet.decode_ok hdecode]
  dsimp only
  cases createMailServerEvent p.id payload <;> rfl

namespace Letter

/-- What the loop of a node that trusts the other one does for an answer. -/
theorem filterMap_answer (hletter : letter.Sound) (hp : p.trusted = true)
    (h : letter.packet.jobs C w p = .ok jobs) :
    jobs.filterMap Job.answer = letter.answers C w.mailServer p.id := by
  cases letter with
  | messages request =>
    have hcode : (messages request).packet.code = p2pRequestCode := rfl
    exact Packet.filterMap_answer h (by rw [hcode]; decide)
  | historic envelope =>
    have hcode : (historic envelope).packet.code = p2pRequestCode := rfl
    exact Packet.filterMap_answer h (by rw [hcode]; decide)
  | sync request =>
    have hcode : (sync request).packet.code = p2pSyncRequestCode := rfl
    exact Packet.filterMap_answer h (by rw [hcode]; decide)
  | direct envelopes =>
    have hdirect := (Packet.jobs_direct (sendP2PDirect_code envelopes)).symm.trans h
    cases (directJobs_sendP2PDirect C hletter.size hp).symm.trans hdirect
    rw [List.map_map]
    refine filterMap_answer_self fun j hj => ?_
    obtain ⟨e, -, rfl⟩ := List.mem_map.mp hj
    rfl
  | complete payload =>
    rw [Packet.jobs_requestComplete rfl] at h
    have hjobs := (requestCompleteJobs_payload hletter.size hp).symm.trans h
    cases hevent : createMailServerEvent p.id payload with
    | ok event =>
      rw [hevent] at hjobs
      cases hjobs
      simp only [answers, hevent]
      rfl
    | error fault =>
      rw [hevent] at hjobs
      cases hjobs
  | syncResponse data =>
    rw [Packet.jobs_syncResponse rfl] at h
    cases hmail : w.mailServer with
    | true =>
      cases (syncResponseJobs_response C hletter.size hmail hp).symm.trans h
      exact filterMap_answer_self fun j hj => SyncResponse.answer_of_mem_jobs hj
    | false =>
      rw [packet, Packet.syncResponseJobs, hmail, Bool.and_false] at h
      cases h
      rfl
  | other packet =>
    have hcode := hletter.code packet rfl
    simp only [codes, List.mem_cons, List.not_mem_nil, or_false, not_or] at hcode
    exact Packet.filterMap_answer h (by simpa [Letter.packet] using hcode.2.2)

end Letter

end Jobs

/-! ### What a loop does with its jobs -/

namespace Loop

variable {C : Crypto} {w : Whisper} {l : Loop} {now : UInt32} {sync : Option GoError}

/-- The answer that a loop writes itself: that the mail server has failed. -/
def reply (l : Loop) (sync : Option GoError) : List Letter :=
  match l.jobs, sync with
  | .call (.syncMail _) :: _, some err => [.syncResponse { error := goString err.text }]
  | _, _ => []

theorem reply_none : l.reply none = [] := by
  unfold reply
  split
  · rename_i h
    cases h
  · rfl

theorem work_calls :
    (l.work C now sync w).2.calls = l.calls ++ l.jobs.head?.toList.filterMap Job.mailCall := by
  unfold work
  cases hjobs : l.jobs with
  | nil => simp
  | cons job rest =>
    cases job with
    | call x => cases x <;> cases sync <;> simp [perform, callMailServer, leave, Job.mailCall]
    | add e =>
      simp only [perform, add]
      repeat' split
      all_goals simp [refuse, push, Job.mailCall]
    | confirm data =>
      simp only [perform]
      split <;> simp [Job.mailCall]
    | checkTrouble =>
      simp only [perform]
      split <;> simp [leave, Job.mailCall]
    | _ => simp [perform, Job.mailCall]

/-- A list of the node that only grows, and to which the jobs that `pick` selects add an item. -/
theorem work_records {β : Type} {field : Whisper → List β} {pick : Job → Option β}
    (hgrows : field w <+: field (l.work C now sync w).1)
    (hadds : ∀ job rest x, l.jobs = job :: rest → pick job = some x →
      field (l.work C now sync w).1 = field w ++ [x]) :
    field w ++ l.jobs.head?.toList.filterMap pick <+: field (l.work C now sync w).1 := by
  cases hjobs : l.jobs with
  | nil => simpa using hgrows
  | cons job rest =>
    cases hpick : pick job with
    | none => simpa [hpick] using hgrows
    | some x => simp [hpick, hadds job rest x hjobs hpick]

theorem work_p2pMsgQueue :
    w.p2pMsgQueue ++ l.jobs.head?.toList.filterMap Job.posted <+:
      (l.work C now sync w).1.p2pMsgQueue := by
  refine work_records (l.work_changes C now sync w).p2pMsgQueue_le fun job rest x hjobs hx => ?_
  cases job with
  | postP2P item =>
    cases hx
    simp only [work, hjobs, perform]
  | _ => cases hx

theorem work_archived :
    w.archived ++ l.jobs.head?.toList.filterMap Job.archived <+:
      (l.work C now sync w).1.archived := by
  refine work_records (l.work_changes C now sync w).archived_le fun job rest x hjobs hx => ?_
  cases job with
  | archive e =>
    cases hx
    simp only [work, hjobs, perform]
  | _ => cases hx

theorem work_envelopeFeed :
    w.envelopeFeed ++ l.jobs.head?.toList.filterMap Job.sent <+:
      (l.work C now sync w).1.envelopeFeed := by
  refine work_records (l.work_changes C now sync w).envelopeFeed_le fun job rest x hjobs hx => ?_
  cases job with
  | send event =>
    cases hx
    simp only [work, hjobs, perform]
  | _ => cases hx

theorem Changes.mailServer_eq {w' : Whisper} {jobs : List Job} (h : Changes C now w jobs w') :
    w'.mailServer = w.mailServer := by
  cases h with
  | announced e isP2P =>
    obtain ⟨flag, hupdate⟩ := w.announce_update C e isP2P
    rw [hupdate]
  | _ => rfl

/-- A packet ends the loop that reads it, or it leads to jobs. -/
theorem read_ended_or_jobs (C : Crypto) (w : Whisper) (l : Loop) (packet : Packet) :
    (l.read C w packet).jobs = [] ∧ (l.read C w packet).returned.isSome ∨
      ∃ p, p.id = l.peer.id ∧ p.trusted = l.peer.trusted ∧
        packet.jobs C w p = .ok (l.read C w packet).jobs ∧
        (l.read C w packet).returned = l.returned := by
  unfold read
  split
  · exact .inl ⟨rfl, rfl⟩
  split
  · exact .inl ⟨rfl, rfl⟩
  rename_i p hp
  split
  · exact .inl ⟨rfl, rfl⟩
  rename_i jobs hjobs
  obtain ⟨pow, bloom, full, rfl⟩ := Packet.applyTo_update hp
  exact .inr ⟨_, rfl, rfl, hjobs, rfl⟩

end Loop

/-! ### Sessions -/

/-- The two nodes and the connection between them.  `wire a` are the letters to the node `a` that
its loop has not read, `written a` all that were written to it, `handled a` the jobs that its loop
has done, and `taken a` the items of `p2pMsgQueue` that `processP2P` has taken. -/
structure Session where
  whisper : Bool → Whisper
  loop : Bool → Loop
  wire : Bool → List Letter
  written : Bool → List Letter
  handled : Bool → List Job
  taken : Bool → List P2PItem

inductive SessionAction
  | messages (a : Bool) (request : MessagesRequest) (sent : Option GoError)
  | historic (a : Bool) (envelope : Envelope) (sent : Option GoError)
  | sync (a : Bool) (request : SyncMailRequest) (sent : Option GoError)
  | answer (a : Bool) (letter : Letter)
  | allow (a : Bool)
  | read (a : Bool)
  | work (a : Bool) (now : UInt32) (sync : Option GoError)
  | others (a : Bool)

namespace Session

variable (s : Session) (a : Bool)

def setWhisper (w : Whisper) : Session := { s with whisper := Function.update s.whisper a w }

def setLoop (l : Loop) : Session := { s with loop := Function.update s.loop a l }

def setPeer (p : Peer) : Session := s.setLoop a { s.loop a with peer := p }

def setWire (letters : List Letter) : Session := { s with wire := Function.update s.wire a letters }

/-- All that was put into `p2pMsgQueue` of the node `a`. -/
def queued : List P2PItem := s.taken a ++ (s.whisper a).p2pMsgQueue

/-- Letters are written to the node `a`. -/
def post (letters : List Letter) : Session :=
  { s with
    wire := Function.update s.wire a (s.wire a ++ letters)
    written := Function.update s.written a (s.written a ++ letters) }

/-- A call of the node `a` that sends a request, with the letter that it writes. -/
def request (x : Request) (letter : Letter) : Session :=
  let s := (s.setWhisper a x.whisper).setPeer a x.peer
  if x.written.isSome ∧ x.returned = none then s.post (!a) [letter] else s

/-- The next job of the loop of the node `a`. -/
def work (C : Crypto) (now : UInt32) (sync : Option GoError) : Session :=
  let l := s.loop a
  let (w, l') := l.work C now sync (s.whisper a)
  { (((s.setWhisper a w).setLoop a l').post (!a) (l.reply sync)) with
    handled := Function.update s.handled a (s.handled a ++ l.jobs.head?.toList) }

end Session

/-- The node becomes `w` by the work of its other goroutines.  `processP2P` takes the items `taken`
from `p2pMsgQueue`, and other loops put items into it. -/
structure Whisper.Works (w w' : Whisper) (taken : List P2PItem) : Prop where
  mailServer : w'.mailServer = w.mailServer
  archived : w.archived <+: w'.archived
  envelopeFeed : w.envelopeFeed <+: w'.envelopeFeed
  p2pMsgQueue : w.p2pMsgQueue <+: taken ++ w'.p2pMsgQueue

theorem Whisper.Works.refl (w : Whisper) : w.Works w [] :=
  ⟨rfl, List.prefix_refl _, List.prefix_refl _, List.prefix_refl _⟩

theorem Whisper.Works.send (w : Whisper) (events : List EnvelopeEvent) :
    w.Works { w with envelopeFeed := w.envelopeFeed ++ events } [] :=
  ⟨rfl, List.prefix_refl _, List.prefix_append _ _, List.prefix_refl _⟩

/-- One step.  The error `sent` of a write that fails is arbitrary. -/
inductive SessionStep (C : Crypto) (s : Session) : SessionAction → Session → Prop
  | messages (a : Bool) (r : MessagesRequest) (sent : Option GoError)
      (hletter : (Letter.messages r).Sound) :
      SessionStep C s (.messages a r sent)
        (s.request a (sendMessagesRequest (s.whisper a) (s.loop a).peer r sent) (.messages r))
  | historic (a : Bool) (e : Envelope) (sent : Option GoError)
      (hletter : (Letter.historic e).Sound) :
      SessionStep C s (.historic a e sent)
        (s.request a (requestHistoricMessages C (s.whisper a) (s.loop a).peer e sent) (.historic e))
  | sync (a : Bool) (r : SyncMailRequest) (sent : Option GoError)
      (hletter : (Letter.sync r).Sound) :
      SessionStep C s (.sync a r sent)
        (s.request a (syncMessages (s.whisper a) (s.loop a).peer r sent) (.sync r))
  | answer (a : Bool) (letter : Letter) (hletter : letter.Sound) :
      SessionStep C s (.answer a letter) (s.post (!a) [letter])
  | allow (a : Bool) :
      SessionStep C s (.allow a) (s.setPeer a { (s.loop a).peer with trusted := true })
  | read (a : Bool) (letter : Letter) (rest : List Letter) (hwire : s.wire a = letter :: rest)
      (hjobs : (s.loop a).jobs = []) (hreturned : (s.loop a).returned = none) :
      SessionStep C s (.read a)
        ((s.setWire a rest).setLoop a ((s.loop a).read C (s.whisper a) letter.packet))
  | work (a : Bool) (now : UInt32) (sync : Option GoError)
      (hreply : ∀ letter ∈ (s.loop a).reply sync, letter.Sound) :
      SessionStep C s (.work a now sync) (s.work a C now sync)
  | others (a : Bool) (w : Whisper) (p : Peer) (taken : List P2PItem)
      (hworks : (s.whisper a).Works w taken) (hid : p.id = (s.loop a).peer.id)
      (htrusted : p.trusted = (s.loop a).peer.trusted) :
      SessionStep C s (.others a)
        { (s.setWhisper a w).setPeer a p with
          taken := Function.update s.taken a (s.taken a ++ taken) }

/-! ### The order of what a loop does -/

/-- `pick` selects jobs of letters, and `items` are the selected ones of a letter that a loop reads
whose node has a mail server or not, and which trusts the other node where `trust` asks for it. -/
structure Selects {β : Type} (C : Crypto) (mail trust : Bool) (id : NodeID)
    (pick : Job → Option β) (items : Letter → List β) : Prop where
  rest : ∀ j : Job, j.Rest → pick j = none
  jobs : ∀ {letter : Letter} {w : Whisper} {p : Peer} {jobs : List Job}, letter.Sound →
    w.mailServer = mail → p.id = id → (trust = true → p.trusted = true) →
    letter.packet.jobs C w p = .ok jobs → jobs.filterMap pick = items letter

namespace Session

variable {β : Type} {C : Crypto} {mail trust : Bool} {id : NodeID} {pick : Job → Option β}
  {items : Letter → List β} {s t : Session} {a b : Bool} {action : SessionAction}

/-- What the loop of the node `a` needs for that. -/
structure Ready (mail trust : Bool) (id : NodeID) (a : Bool) (s : Session) : Prop where
  mail : (s.whisper a).mailServer = mail
  id : (s.loop a).peer.id = id
  trusted : trust = true → (s.loop a).peer.trusted = true
  sound : ∀ letter ∈ s.wire a, letter.Sound

/-- The letters to the node `a`, and the selected jobs of its loop. -/
def conduit (pick : Job → Option β) (a : Bool) (s : Session) : Conduit Letter β where
  written := s.written a
  wire := s.wire a
  todo := (s.loop a).jobs.filterMap pick
  done := (s.handled a).filterMap pick
  closed := (s.loop a).returned.isSome

section Projections

variable {w : Whisper} {l : Loop} {p : Peer} {letters : List Letter}

@[simp] theorem conduit_setWhisper : (s.setWhisper b w).conduit pick a = s.conduit pick a := rfl

theorem conduit_setLoop (h : a ≠ b) : (s.setLoop b l).conduit pick a = s.conduit pick a := by
  simp [conduit, setLoop, Function.update_of_ne h]

@[simp] theorem conduit_setPeer : (s.setPeer b p).conduit pick a = s.conduit pick a := by
  by_cases h : a = b
  · subst h
    simp [conduit, setPeer, setLoop]
  · exact conduit_setLoop h

theorem conduit_setWire (h : a ≠ b) :
    (s.setWire b letters).conduit pick a = s.conduit pick a := by
  simp [conduit, setWire, Function.update_of_ne h]

theorem move_post : (s.conduit pick a).Move items ((s.post b letters).conduit pick a) := by
  by_cases h : a = b
  · subst h
    have hmove : (s.conduit pick a).Move items _ := .write letters
    simpa [conduit, post] using hmove
  · have hsame : (s.post b letters).conduit pick a = s.conduit pick a := by
      simp [conduit, post, Function.update_of_ne h]
    rw [hsame]
    exact .rest

theorem move_request {x : Request} {letter : Letter} :
    (s.conduit pick a).Move items ((s.request b x letter).conduit pick a) := by
  have hsame : ((s.setWhisper b x.whisper).setPeer b x.peer).conduit pick a =
      s.conduit pick a := by simp
  unfold request
  dsimp only
  split
  · rw [← hsame]
    exact move_post
  · rw [hsame]
    exact .rest

end Projections

theorem move_read (hselects : Selects C mail trust id pick items) (hs : s.Ready mail trust id a)
    {letter : Letter} {rest : List Letter} (hwire : s.wire b = letter :: rest)
    (hjobs : (s.loop b).jobs = []) (hreturned : (s.loop b).returned = none) :
    (s.conduit pick a).Move items
      (((s.setWire b rest).setLoop b ((s.loop b).read C (s.whisper b) letter.packet)).conduit
        pick a) := by
  by_cases h : a = b
  · subst h
    have hsound := hs.sound letter (by rw [hwire]; exact List.mem_cons_self)
    obtain ⟨hnone, hended⟩ | ⟨p, hid, htrusted, hletter, hsame⟩ :=
      (s.loop a).read_ended_or_jobs C (s.whisper a) letter.packet
    · have hmove : (s.conduit pick a).Move items _ := .close rest
      simpa [conduit, setWire, setLoop, hnone, hended] using hmove
    · have hitems := hselects.jobs hsound hs.mail (hid.trans hs.id)
        (fun htrust => htrusted.trans (hs.trusted htrust)) hletter
      have hmove : (s.conduit pick a).Move items _ :=
        .read letter rest hwire (by simp [conduit, hjobs]) (by simp [conduit, hreturned])
      simpa [conduit, setWire, setLoop, hitems, hsame] using hmove
  · rw [conduit_setLoop h, conduit_setWire h]
    exact .rest

/-- What the letters and the selected jobs of a loop become with its next job. -/
theorem move_leaves (hselects : Selects C mail trust id pick items) {now : UInt32} {l' : Loop}
    (h : (s.loop a).Leaves C now (s.whisper a) l') :
    (s.conduit pick a).Move items
      { s.conduit pick a with
        todo := l'.jobs.filterMap pick
        done := (s.handled a ++ (s.loop a).jobs.head?.toList).filterMap pick
        closed := l'.returned.isSome } := by
  -- the first job is done, and no other selected job comes or goes
  have hdone : ∀ {job : Job} {rest : List Job}, (s.loop a).jobs = job :: rest →
      l'.jobs.filterMap pick = rest.filterMap pick → l'.returned = (s.loop a).returned →
      (s.conduit pick a).Move items
        { s.conduit pick a with
          todo := l'.jobs.filterMap pick
          done := (s.handled a ++ (s.loop a).jobs.head?.toList).filterMap pick
          closed := l'.returned.isSome } := by
    intro job rest hjobs hrest hreturned
    cases hpick : pick job with
    | none =>
      have hmove : (s.conduit pick a).Move items _ := .rest
      simpa [conduit, hjobs, hrest, hpick, hreturned] using hmove
    | some x =>
      have hmove : (s.conduit pick a).Move items _ :=
        .work x (rest.filterMap pick) (by simp [conduit, hjobs, hpick])
      simpa [conduit, hjobs, hrest, hpick, hreturned] using hmove
  cases h with
  | idle hjobs =>
    have hmove : (s.conduit pick a).Move items _ := .rest
    simpa [conduit, hjobs] using hmove
  | next job rest hjobs => exact hdone hjobs rfl rfl
  | added e rest mid hjobs hmid =>
    refine hdone hjobs ?_ rfl
    have hnone : mid.filterMap pick = [] :=
      List.filterMap_eq_nil_iff.mpr fun j hj => hselects.rest j (hmid j hj)
    rw [List.filterMap_append, hnone, List.nil_append]
  | confirmed data rest hjobs => exact hdone hjobs rfl rfl
  | ended job rest hjobs =>
    cases hpick : pick job with
    | none =>
      have hmove : (s.conduit pick a).Move items _ := .close (s.wire a)
      simpa [conduit, hjobs, hpick] using hmove
    | some x =>
      have hmove : (s.conduit pick a).Move items _ :=
        .last x (rest.filterMap pick) (by simp [conduit, hjobs, hpick])
      simpa [conduit, hjobs, hpick] using hmove

theorem move_work (hselects : Selects C mail trust id pick items) {now : UInt32}
    {sync : Option GoError} :
    (s.conduit pick a).Move items ((s.work b C now sync).conduit pick a) := by
  by_cases h : a = b
  · subst h
    have hmove := move_leaves hselects ((s.loop a).work_leaves C now sync (s.whisper a))
    simpa [conduit, work, post, setLoop, setWhisper] using hmove
  · have hother : (s.work b C now sync).conduit pick a =
        (s.post (!b) ((s.loop b).reply sync)).conduit pick a := by
      simp [conduit, work, post, setLoop, setWhisper, Function.update_of_ne h]
    rw [hother]
    exact move_post

theorem step_move (hselects : Selects C mail trust id pick items) (hs : s.Ready mail trust id a)
    (h : SessionStep C s action t) : (s.conduit pick a).Move items (t.conduit pick a) := by
  cases h with
  | messages b r sent => exact move_request
  | historic b e sent => exact move_request
  | sync b r sent => exact move_request
  | answer b letter => exact move_post
  | allow b =>
    rw [conduit_setPeer]
    exact .rest
  | read b letter rest hwire hjobs hreturned => exact move_read hselects hs hwire hjobs hreturned
  | work b now sync => exact move_work hselects
  | others b w p taken =>
    have hsame : ((s.setWhisper b w).setPeer b p).conduit pick a = s.conduit pick a := by simp
    exact hsame ▸ .rest

/-! ### Runs -/

theorem Ready.setWhisper {w : Whisper} (hs : s.Ready mail trust id a)
    (hw : w.mailServer = (s.whisper b).mailServer) :
    (s.setWhisper b w).Ready mail trust id a := by
  refine ⟨?_, hs.id, hs.trusted, hs.sound⟩
  by_cases h : a = b
  · subst h
    simpa [Session.setWhisper] using hw.trans hs.mail
  · simpa [Session.setWhisper, Function.update_of_ne h] using hs.mail

theorem Ready.setLoop {l : Loop} (hs : s.Ready mail trust id a)
    (hid : l.peer.id = (s.loop b).peer.id)
    (htrusted : (s.loop b).peer.trusted = true → l.peer.trusted = true) :
    (s.setLoop b l).Ready mail trust id a := by
  by_cases h : a = b
  · subst h
    refine ⟨hs.mail, ?_, fun htrust => ?_, hs.sound⟩
    · simpa [Session.setLoop] using hid.trans hs.id
    · simpa [Session.setLoop] using htrusted (hs.trusted htrust)
  · refine ⟨hs.mail, ?_, fun htrust => ?_, hs.sound⟩
    · simpa [Session.setLoop, Function.update_of_ne h] using hs.id
    · simpa [Session.setLoop, Function.update_of_ne h] using hs.trusted htrust

theorem Ready.post {letters : List Letter} (hs : s.Ready mail trust id a)
    (hletters : ∀ letter ∈ letters, letter.Sound) : (s.post b letters).Ready mail trust id a := by
  refine ⟨hs.mail, hs.id, hs.trusted, fun letter hletter => ?_⟩
  by_cases h : a = b
  · subst h
    have hmem : letter ∈ s.wire a ++ letters := by simpa [Session.post] using hletter
    exact (List.mem_append.mp hmem).elim (hs.sound letter) (hletters letter)
  · have hmem : letter ∈ s.wire a := by
      simpa [Session.post, Function.update_of_ne h] using hletter
    exact hs.sound letter hmem

theorem Ready.request {x : Request} {letter : Letter} (hs : s.Ready mail trust id a)
    (hmail : x.whisper.mailServer = (s.whisper b).mailServer)
    (hid : x.peer.id = (s.loop b).peer.id)
    (htrusted : (s.loop b).peer.trusted = true → x.peer.trusted = true) (hletter : letter.Sound) :
    (s.request b x letter).Ready mail trust id a := by
  have hset : ((s.setWhisper b x.whisper).setPeer b x.peer).Ready mail trust id a :=
    (hs.setWhisper hmail).setLoop hid htrusted
  unfold Session.request
  dsimp only
  split
  · exact hset.post (by simpa using hletter)
  · exact hset

theorem Ready.step (hs : s.Ready mail trust id a) (h : SessionStep C s action t) :
    t.Ready mail trust id a := by
  cases h with
  | messages b r sent hletter =>
    unfold sendMessagesRequest
    split
    · exact hs.request rfl rfl (fun h => h) hletter
    · exact hs.request (by dsimp only; split <;> rfl) rfl (fun _ => rfl) hletter
  | historic b e sent hletter => exact hs.request rfl rfl (fun _ => rfl) hletter
  | sync b r sent hletter =>
    unfold syncMessages
    split
    · split
      · exact hs.request rfl rfl (fun h => h) hletter
      · exact hs.request rfl rfl (fun h => h) hletter
    · exact hs.request rfl rfl (fun h => h) hletter
  | answer b letter hletter => exact hs.post (by simpa using hletter)
  | allow b => exact hs.setLoop rfl fun _ => rfl
  | read b letter rest hwire =>
    obtain ⟨pow, bloom, full, hpeer⟩ := (s.loop b).read_peer C (s.whisper b) letter.packet
    have hrest : (s.setWire b rest).Ready mail trust id a := by
      refine ⟨hs.mail, hs.id, hs.trusted, fun x hx => hs.sound x ?_⟩
      by_cases h : a = b
      · subst h
        rw [hwire]
        exact List.mem_cons_of_mem _ (by simpa [Session.setWire] using hx)
      · simpa [Session.setWire, Function.update_of_ne h] using hx
    exact hrest.setLoop (by rw [hpeer]; rfl) fun h => by rw [hpeer]; exact h
  | work b now sync hreply =>
    obtain ⟨known, hpeer⟩ := ((s.loop b).work_leaves C now sync (s.whisper b)).peer_eq
    have hmail := ((s.loop b).work_changes C now sync (s.whisper b)).mailServer_eq
    have hset := (hs.setWhisper hmail).setLoop (b := b) (l := _) (by rw [hpeer]; rfl)
      fun h => by rw [hpeer]; exact h
    obtain ⟨h₁, h₂, h₃, h₄⟩ := hset.post (b := !b) hreply
    exact ⟨h₁, h₂, h₃, h₄⟩
  | others b w p taken hworks hid htrusted =>
    have hset : ((s.setWhisper b w).setPeer b p).Ready mail trust id a :=
      (hs.setWhisper hworks.mailServer).setLoop hid fun h => htrusted.trans h
    obtain ⟨h₁, h₂, h₃, h₄⟩ := hset
    exact ⟨h₁, h₂, h₃, h₄⟩

/-- A session that begins: each loop waits for a packet. -/
structure Idle (s : Session) : Prop where
  jobs : ∀ a, (s.loop a).jobs = []
  returned : ∀ a, (s.loop a).returned = none
  written : ∀ a, s.written a = s.wire a
  handled : ∀ a, s.handled a = []
  sound : ∀ a, ∀ letter ∈ s.wire a, letter.Sound

theorem Idle.inOrder (hs : s.Idle) (pick : Job → Option β) (items : Letter → List β) (a : Bool) :
    (s.conduit pick a).InOrder items := by
  constructor
  · simp [conduit, hs.jobs, hs.handled]
  · intro _
    simp [conduit, hs.jobs, hs.handled, hs.written]

theorem run_inOrder {acts : List SessionAction} (hselects : Selects C mail trust id pick items)
    (hidle : s.Idle) (hs : s.Ready mail trust id a) (run : Run (SessionStep C) s acts t) :
    (t.conduit pick a).InOrder items := by
  have hboth := run.invariant
    (P := fun s => s.Ready mail trust id a ∧ (s.conduit pick a).InOrder items)
    ⟨hs, hidle.inOrder pick items a⟩ fun s _ t _ h hstep =>
      ⟨h.1.step hstep, h.2.move (step_move hselects h.1 hstep)⟩
  exact hboth.2

theorem selects_mailCall (C : Crypto) (mail : Bool) (id : NodeID) :
    Selects C mail false id Job.mailCall (Letter.calls C mail) where
  rest j hj := by
    cases j with
    | call x => exact hj.elim
    | _ => rfl
  jobs hletter hmail _ _ h := hmail ▸ Letter.filterMap_mailCall hletter h

theorem selects_answer (C : Crypto) (mail : Bool) (id : NodeID) :
    Selects C mail true id Job.answer (Letter.answers C mail id) where
  rest j hj := by
    cases j with
    | announce e isP2P => rfl
    | received e => rfl
    | mark e => rfl
    | _ => exact hj.elim
  jobs hletter hmail hid htrusted h :=
    hmail ▸ hid ▸ Letter.filterMap_answer hletter (htrusted rfl) h

/-! ### What the jobs leave at the node -/

/-- The loop of the node `a` has done no job, and the node has not lost what others did before. -/
structure Kept (a : Bool) (s t : Session) : Prop where
  handled : t.handled a = s.handled a
  calls : (t.loop a).calls = (s.loop a).calls
  archived : (s.whisper a).archived <+: (t.whisper a).archived
  feed : (s.whisper a).envelopeFeed <+: (t.whisper a).envelopeFeed
  queued : s.queued a <+: t.queued a

theorem Kept.trans {u : Session} (h : Kept a s t) (h' : Kept a t u) : Kept a s u :=
  ⟨h'.handled.trans h.handled, h'.calls.trans h.calls, h.archived.trans h'.archived,
    h.feed.trans h'.feed, h.queued.trans h'.queued⟩

/-- What the other goroutines of a node do. -/
theorem kept_works {w : Whisper} {taken : List P2PItem} (h : (s.whisper b).Works w taken) :
    Kept a s
      { s.setWhisper b w with taken := Function.update s.taken b (s.taken b ++ taken) } := by
  by_cases hab : a = b
  · subst hab
    refine ⟨rfl, rfl, by simpa [setWhisper] using h.archived,
      by simpa [setWhisper] using h.envelopeFeed, ?_⟩
    simpa [queued, setWhisper, List.append_assoc] using h.p2pMsgQueue
  · refine ⟨rfl, rfl, ?_, ?_, ?_⟩ <;> simp [queued, setWhisper, Function.update_of_ne hab]

theorem kept_setLoop {l : Loop} (hcalls : l.calls = (s.loop b).calls) :
    Kept a s (s.setLoop b l) := by
  refine ⟨rfl, ?_, List.prefix_refl _, List.prefix_refl _, List.prefix_refl _⟩
  by_cases h : a = b
  · subst h
    simpa [setLoop] using hcalls
  · simp [setLoop, Function.update_of_ne h]

theorem kept_post {letters : List Letter} : Kept a s (s.post b letters) :=
  ⟨rfl, rfl, List.prefix_refl _, List.prefix_refl _, List.prefix_refl _⟩

theorem kept_request {x : Request} {letter : Letter} (h : (s.whisper b).Works x.whisper []) :
    Kept a s (s.request b x letter) := by
  have hkept := kept_works (a := a) h
  rw [List.append_nil, Function.update_eq_self] at hkept
  have hset : Kept a s ((s.setWhisper b x.whisper).setPeer b x.peer) :=
    hkept.trans (kept_setLoop rfl)
  unfold request
  dsimp only
  split
  · exact hset.trans kept_post
  · exact hset

/-- A step is the next job of the loop of the node `a`, or this loop has done no job. -/
theorem step_cases (h : SessionStep C s action t) (a : Bool) :
    Kept a s t ∨ ∃ now sync, t.handled a = s.handled a ++ (s.loop a).jobs.head?.toList ∧
      (t.whisper a, t.loop a) = (s.loop a).work C now sync (s.whisper a) ∧
      t.taken a = s.taken a := by
  cases h with
  | messages b r sent =>
    left
    unfold sendMessagesRequest
    split
    · exact kept_request (.refl _)
    · refine kept_request ?_
      dsimp only
      split
      · exact .refl _
      · exact .send _ _
  | historic b e sent => exact .inl (kept_request (.send _ _))
  | sync b r sent =>
    left
    unfold syncMessages
    split
    · split <;> exact kept_request (.refl _)
    · exact kept_request (.refl _)
  | answer b letter => exact .inl kept_post
  | allow b => exact .inl (kept_setLoop rfl)
  | read b letter rest hwire =>
    have hcalls : ((s.loop b).read C (s.whisper b) letter.packet).calls = (s.loop b).calls := by
      unfold Loop.read
      repeat' split
      all_goals rfl
    have hwire : Kept a s (s.setWire b rest) :=
      ⟨rfl, rfl, List.prefix_refl _, List.prefix_refl _, List.prefix_refl _⟩
    exact .inl (hwire.trans (kept_setLoop hcalls))
  | work b now sync =>
    by_cases h : a = b
    · subst h
      exact .inr ⟨now, sync, by simp [work], by simp [work, post, setLoop, setWhisper], rfl⟩
    · refine .inl ⟨?_, ?_, ?_, ?_, ?_⟩ <;>
        simp [work, post, setLoop, setWhisper, queued, Function.update_of_ne h]
  | others b w p taken hworks => exact .inl ((kept_works hworks).trans (kept_setLoop rfl))

/-- What the jobs of the loop of the node `a` have left; `calls` are the calls to the mail server
before them. -/
structure Recorded (calls : List MailCall) (a : Bool) (s : Session) : Prop where
  calls : (s.loop a).calls = calls ++ (s.handled a).filterMap Job.mailCall
  archived : ((s.handled a).filterMap Job.archived).Sublist (s.whisper a).archived
  sent : ((s.handled a).filterMap Job.sent).Sublist (s.whisper a).envelopeFeed
  posted : ((s.handled a).filterMap Job.posted).Sublist (s.queued a)

theorem Recorded.step {calls : List MailCall} (hs : s.Recorded calls a)
    (h : SessionStep C s action t) : t.Recorded calls a := by
  obtain hkept | ⟨now, sync, hhandled, hwork, htaken⟩ := step_cases h a
  · refine ⟨?_, ?_, ?_, ?_⟩
    · rw [hkept.calls, hkept.handled, hs.calls]
    · rw [hkept.handled]
      exact hs.archived.trans hkept.archived.sublist
    · rw [hkept.handled]
      exact hs.sent.trans hkept.feed.sublist
    · rw [hkept.handled]
      exact hs.posted.trans hkept.queued.sublist
  · have hw : t.whisper a = _ := congrArg Prod.fst hwork
    have hl : t.loop a = _ := congrArg Prod.snd hwork
    refine ⟨?_, ?_, ?_, ?_⟩
    · rw [hl, hhandled, Loop.work_calls, hs.calls, List.filterMap_append, List.append_assoc]
    · rw [hw, hhandled, List.filterMap_append]
      exact (hs.archived.append_right _).trans Loop.work_archived.sublist
    · rw [hw, hhandled, List.filterMap_append]
      exact (hs.sent.append_right _).trans Loop.work_envelopeFeed.sublist
    · rw [queued, htaken, hw, hhandled, List.filterMap_append]
      refine (hs.posted.append_right _).trans ?_
      rw [queued, List.append_assoc]
      exact Loop.work_p2pMsgQueue.sublist.append_left _

theorem Idle.recorded (hs : s.Idle) (a : Bool) : s.Recorded (s.loop a).calls a := by
  refine ⟨?_, ?_, ?_, ?_⟩ <;> simp [hs.handled]

/-! ### Requests and answers -/

/-- Whatever the two nodes do at the same time, the mail server of a node is called for the requests
that the other node has written, unchanged, in their order and once each, and a loop that has not
returned and has nothing left has called it for all of them. -/
theorem requests_arrive_once {acts : List SessionAction} (hs : s.Idle)
    (run : Run (SessionStep C) s acts t) (a : Bool) :
    ∃ made, (t.loop a).calls = (s.loop a).calls ++ made ∧
      made <+: (t.written a).flatMap (Letter.calls C (s.whisper a).mailServer) ∧
      ((t.loop a).returned = none → (t.loop a).jobs = [] → t.wire a = [] →
        made = (t.written a).flatMap (Letter.calls C (s.whisper a).mailServer)) := by
  have hready : s.Ready (s.whisper a).mailServer false (s.loop a).peer.id a :=
    ⟨rfl, rfl, Bool.noConfusion, hs.sound a⟩
  have horder := run_inOrder (selects_mailCall C _ _) hs hready run
  have hrecorded := run.invariant (P := Recorded (s.loop a).calls a) (hs.recorded a)
    fun _ _ _ _ h hstep => h.step hstep
  refine ⟨_, hrecorded.calls, horder.done_prefix, fun hreturned hjobs hwire => ?_⟩
  exact horder.done_eq (by simp [conduit, hreturned]) hwire (by simp [conduit, hjobs])

/-- Two nodes with mail servers that trust each other. -/
def sampleSession : Session where
  whisper _ := { new {} with mailServer := true }
  loop _ := { peer := { id := 1, trusted := true } }
  wire _ := []
  written _ := []
  handled _ := []
  taken _ := []

theorem sampleSession_idle : sampleSession.Idle := by
  constructor <;> simp [sampleSession]

def sampleRequest : MessagesRequest :=
  { id := List.replicate 32 7, fromTime := 1, toTime := 2, limit := 3, cursor := [], bloom := [1] }

/-- The session after the first node has sent the request. -/
def sampleAsked : Session :=
  sampleSession.request false
    (sendMessagesRequest (sampleSession.whisper false) (sampleSession.loop false).peer
      sampleRequest none)
    (.messages sampleRequest)

/-- The session after the second node has handled it. -/
def sampleServed : Session :=
  ((sampleAsked.setWire true []).setLoop true ((sampleAsked.loop true).read sampleCrypto
    (sampleAsked.whisper true) (Letter.messages sampleRequest).packet)).work true sampleCrypto 0
      none

theorem sampleServed_run : Run (SessionStep sampleCrypto) sampleSession
    [.messages false sampleRequest none, .read true, .work true 0 none] sampleServed := by
  have hsound : (Letter.messages sampleRequest).Sound :=
    ⟨by decide +kernel, by intro _ h; cases h⟩
  refine .cons (.messages false sampleRequest none hsound) (.cons (.read true
    (.messages sampleRequest) [] (by decide +kernel) rfl rfl) (.cons ?_ (.nil _)))
  refine .work true 0 none fun letter hletter => ?_
  rw [Loop.reply_none] at hletter
  cases hletter

theorem requests_arrive_once_sample :
    (sampleServed.loop true).calls = [.deliver sampleRequest] := by
  obtain ⟨made, hcalls, -, hall⟩ := requests_arrive_once sampleSession_idle sampleServed_run true
  rw [hcalls, hall (by decide +kernel) (by decide +kernel) (by decide +kernel)]
  decide +kernel

/-- A node that trusts the other one handles the answers that this one writes, in their order and
once each: it posts the direct messages and the ends of answers, archives the envelopes of a sync
and sends the event for its end.  A loop that has not returned and has nothing left has handled all
of them.  What it posts, archives and sends stands in that order in `p2pMsgQueue`, with what was
taken from it, in the archive and in the feed. -/
theorem answers_arrive_once {acts : List SessionAction} (hs : s.Idle)
    (htrusted : (s.loop a).peer.trusted = true) (run : Run (SessionStep C) s acts t) :
    (t.handled a).filterMap Job.answer <+:
        (t.written a).flatMap (Letter.answers C (s.whisper a).mailServer (s.loop a).peer.id) ∧
      ((t.loop a).returned = none → (t.loop a).jobs = [] → t.wire a = [] →
        (t.handled a).filterMap Job.answer =
          (t.written a).flatMap (Letter.answers C (s.whisper a).mailServer (s.loop a).peer.id)) ∧
      ((t.handled a).filterMap Job.archived).Sublist (t.whisper a).archived ∧
      ((t.handled a).filterMap Job.sent).Sublist (t.whisper a).envelopeFeed ∧
      ((t.handled a).filterMap Job.posted).Sublist (t.taken a ++ (t.whisper a).p2pMsgQueue) := by
  have hready : s.Ready (s.whisper a).mailServer true (s.loop a).peer.id a :=
    ⟨rfl, rfl, fun _ => htrusted, hs.sound a⟩
  have horder := run_inOrder (selects_answer C _ _) hs hready run
  have hrecorded := run.invariant (P := Recorded (s.loop a).calls a) (hs.recorded a)
    fun _ _ _ _ h hstep => h.step hstep
  refine ⟨horder.done_prefix, fun hreturned hjobs hwire => ?_, hrecorded.archived, hrecorded.sent,
    hrecorded.posted⟩
  exact horder.done_eq (by simp [conduit, hreturned]) hwire (by simp [conduit, hjobs])

def sampleResponse : SyncResponse := { envelopes := [sampleEnvelope], cursor := [5], final := true }

/-- The session after the second node has written an answer. -/
def sampleAnswered : Session := sampleSession.post true [.syncResponse sampleResponse]

/-- The session after the first node has handled it. -/
def sampleSynced : Session :=
  (((sampleAnswered.setWire true []).setLoop true ((sampleAnswered.loop true).read sampleCrypto
    (sampleAnswered.whisper true) (sendSyncResponse sampleResponse))).work true sampleCrypto 0
      none).work true sampleCrypto 0 none

theorem sampleSynced_run : Run (SessionStep sampleCrypto) sampleSession
    [.answer false (.syncResponse sampleResponse), .read true, .work true 0 none,
      .work true 0 none] sampleSynced := by
  have hsound : (Letter.syncResponse sampleResponse).Sound :=
    ⟨by decide +kernel, by intro _ h; cases h⟩
  have hreply : ∀ {s : Session}, ∀ letter ∈ (s.loop true).reply none, letter.Sound := by
    intro s letter hletter
    rw [Loop.reply_none] at hletter
    cases hletter
  exact .cons (.answer false _ hsound) (.cons (.read true (.syncResponse sampleResponse) []
    (by decide +kernel) rfl rfl) (.cons (.work true 0 none hreply)
      (.cons (.work true 0 none hreply) (.nil _))))

theorem answers_arrive_once_sample :
    (sampleSynced.handled true).filterMap Job.answer =
      sampleResponse.jobs sampleCrypto 1 := by
  have hsample := answers_arrive_once (a := true) sampleSession_idle rfl sampleSynced_run
  rw [hsample.2.1 (by decide +kernel) (by decide +kernel) (by decide +kernel)]
  decide +kernel

end Session

end Whisperv6
