import Whisperv6.Dispatch
import Whisperv6.ProofKit.Runs

/-! What the packets and the jobs of a loop can do.  Every packet leads to jobs of a few kinds, and
every job changes the node and the loop in one of a few ways. -/

namespace Whisperv6

open ProofKit

/-! ### What a packet leads to -/

theorem tryCreateMailServerRequestFailedEvent_event {id : NodeID} {payload : Bytes}
    {event : EnvelopeEvent}
    (h : tryCreateMailServerRequestFailedEvent id payload = .ok (some event)) :
    event.event = .mailServerRequestCompleted := by
  unfold tryCreateMailServerRequestFailedEvent at h
  split at h
  · cases h
  · obtain ⟨head, -, h⟩ := bind_eq_ok.mp h
    dsimp only at h
    split at h
    · cases h
    · obtain ⟨request, -, h⟩ := bind_eq_ok.mp h
      cases h
      rfl

theorem tryCreateMailServerRequestCompletedEvent_event {id : NodeID} {payload : Bytes}
    {event : EnvelopeEvent} (h : tryCreateMailServerRequestCompletedEvent id payload = .ok event) :
    event.event = .mailServerRequestCompleted := by
  unfold tryCreateMailServerRequestCompletedEvent at h
  split at h
  · cases h
  · obtain ⟨request, -, h⟩ := bind_eq_ok.mp h
    obtain ⟨last, -, h⟩ := bind_eq_ok.mp h
    cases h
    rfl

theorem createMailServerEvent_event {id : NodeID} {payload : Bytes} {event : EnvelopeEvent}
    (h : createMailServerEvent id payload = .ok event) :
    event.event = .mailServerRequestCompleted := by
  unfold createMailServerEvent at h
  split at h
  · cases h
  · obtain ⟨failed, hfailed, h⟩ := bind_eq_ok.mp h
    cases failed with
    | some event' =>
      cases h
      exact tryCreateMailServerRequestFailedEvent_event hfailed
    | none => exact tryCreateMailServerRequestCompletedEvent_event h

namespace Packet

/-- The jobs that a packet from the peer `p` can lead to, with what their data come from. -/
inductive Yields (C : Crypto) (packet : Packet) (p : Peer) : Job → Prop
  | add (e : Envelope) (hcode : packet.code = messagesCode) (he : e.received C = e) :
      Yields C packet p (.add e)
  | confirm (hcode : packet.code = messagesCode) : Yields C packet p (.confirm packet.payload)
  | checkTrouble (hcode : packet.code = messagesCode) : Yields C packet p .checkTrouble
  | response (m : MultiVersionResponse) (hcode : packet.code = messageResponseCode)
      (hm : packet.decode "whisperv6.MultiVersionResponse" MultiVersionResponse.decode = .ok m) :
      Yields C packet p (.send
        { batch := m.decodeResponse1.1.hash
          event := .batchAcknowledged
          peer := p.id
          data := .errors m.decodeResponse1.1.errors })
  | acknowledged (b : Bytes) (hcode : packet.code = batchAcknowledgedCode)
      (hb : packet.decode "common.Hash" (Rlp.decodeByteArray "common.Hash" hashLength) = .ok b) :
      Yields C packet p (.send
        { batch := bytesToHash b, event := .batchAcknowledged, peer := p.id })
  | direct (e : Envelope) (hcode : packet.code = p2pMessageCode) (hp : p.trusted = true)
      (he : e.received C = e) : Yields C packet p (.postP2P (.envelope e))
  | archive (e : Envelope) (hcode : packet.code = p2pSyncResponseCode) (hp : p.trusted = true) :
      Yields C packet p (.archive e)
  | finished (event : EnvelopeEvent) (hcode : packet.code = p2pSyncResponseCode)
      (hp : p.trusted = true) (hevent : event.event = .mailServerSyncFinished) :
      Yields C packet p (.send event)
  | call (call : MailCall)
      (hcode : packet.code = p2pSyncRequestCode ∨ packet.code = p2pRequestCode) :
      Yields C packet p (.call call)
  | complete (event : EnvelopeEvent) (hcode : packet.code = p2pRequestCompleteCode)
      (hp : p.trusted = true) (hevent : event.event = .mailServerRequestCompleted) :
      Yields C packet p (.postP2P (.event event))

variable {C : Crypto} {packet : Packet} {w : Whisper} {p : Peer} {jobs : List Job} {j : Job}

theorem messagesJobs_yields (hcode : packet.code = messagesCode)
    (h : packet.messagesJobs C = .ok jobs) (hj : j ∈ jobs) : packet.Yields C p j := by
  -- the equation of `messagesJobs` would have the unifier run the decoder
  delta messagesJobs at h
  split at h
  · cases h
  · rename_i envelopes hdecode
    cases h
    obtain ⟨t, -, hdecode⟩ := Rlp.decodeBytes_ok.mp hdecode
    simp only [List.mem_append, List.mem_map, List.mem_cons, List.not_mem_nil, or_false] at hj
    obtain ⟨e, he, rfl⟩ | rfl | rfl := hj
    · exact .add e hcode ((decodeEnvelopes_ok.mp hdecode).1 e he).1
    · exact .confirm hcode
    · exact .checkTrouble hcode

theorem responseJobs_yields (hcode : packet.code = messageResponseCode)
    (h : packet.responseJobs p = .ok jobs) (hj : j ∈ jobs) : packet.Yields C p j := by
  unfold responseJobs at h
  split at h
  · cases h
  · rename_i m hm
    split at h <;> cases h
    · rw [List.mem_singleton.mp hj]
      exact .response m hcode hm
    · cases hj

theorem acknowledgedJobs_yields (hcode : packet.code = batchAcknowledgedCode)
    (h : packet.acknowledgedJobs p = .ok jobs) (hj : j ∈ jobs) : packet.Yields C p j := by
  unfold acknowledgedJobs at h
  split at h <;> cases h
  rename_i b hb
  rw [List.mem_singleton.mp hj]
  exact .acknowledged b hcode hb

theorem directJobs_yields (hcode : packet.code = p2pMessageCode)
    (h : packet.directJobs C p = .ok jobs) (hj : j ∈ jobs) : packet.Yields C p j := by
  unfold directJobs at h
  split at h
  · rename_i hp
    split at h
    · rename_i envelopes hdecode
      cases h
      obtain ⟨t, hdecode⟩ := decode_eq_ok hdecode
      obtain ⟨e, he, rfl⟩ := List.mem_map.mp hj
      exact .direct e hcode hp ((decodeEnvelopes_ok.mp hdecode).1 e he).1
    · split at h <;> cases h
      rename_i envelope hdecode
      obtain ⟨t, hdecode⟩ := decode_eq_ok hdecode
      rw [List.mem_singleton.mp hj]
      exact .direct envelope hcode hp (Envelope.decodeRLP_ok.mp hdecode).1.1
  · cases h
    cases hj

theorem syncRequestJobs_yields (hcode : packet.code = p2pSyncRequestCode)
    (h : packet.syncRequestJobs w = .ok jobs) (hj : j ∈ jobs) : packet.Yields C p j := by
  unfold syncRequestJobs at h
  split at h
  · split at h
    · cases h
    · split at h <;> cases h
      rw [List.mem_singleton.mp hj]
      exact .call _ (.inl hcode)
  · cases h
    cases hj

theorem syncResponseJobs_yields (hcode : packet.code = p2pSyncResponseCode)
    (h : packet.syncResponseJobs C w p = .ok jobs) (hj : j ∈ jobs) : packet.Yields C p j := by
  unfold syncResponseJobs at h
  split at h
  · rename_i hp
    have hp : p.trusted = true := (Bool.and_eq_true_iff.mp hp).1
    split at h <;> cases h
    obtain hj | hj := List.mem_append.mp hj
    · obtain ⟨e, -, rfl⟩ := List.mem_map.mp hj
      exact .archive e hcode hp
    · split at hj
      · rw [List.mem_singleton.mp hj]
        exact .finished _ hcode hp rfl
      · cases hj
  · cases h
    cases hj

theorem requestJobs_yields (hcode : packet.code = p2pRequestCode)
    (h : packet.requestJobs C w = .ok jobs) (hj : j ∈ jobs) : packet.Yields C p j := by
  unfold requestJobs at h
  split at h
  · split at h
    · cases h
      rw [List.mem_singleton.mp hj]
      exact .call _ (.inr hcode)
    · split at h <;> cases h
      rw [List.mem_singleton.mp hj]
      exact .call _ (.inr hcode)
  · cases h
    cases hj

theorem requestCompleteJobs_yields (hcode : packet.code = p2pRequestCompleteCode)
    (h : packet.requestCompleteJobs p = .ok jobs) (hj : j ∈ jobs) : packet.Yields C p j := by
  unfold requestCompleteJobs at h
  split at h
  · rename_i hp
    split at h
    · cases h
    · split at h <;> cases h
      rename_i event hevent
      rw [List.mem_singleton.mp hj]
      exact .complete event hcode hp (createMailServerEvent_event hevent)
  · cases h
    cases hj

/-- What the loop does with a packet depends on its code, the trust of the peer and what the packet
decodes to. -/
theorem jobs_yields (h : packet.jobs C w p = .ok jobs) (hj : j ∈ jobs) : packet.Yields C p j := by
  rw [Packet.jobs] at h
  obtain ⟨hcode, h⟩ | ⟨-, h⟩ := ite_eq_iff.mp h
  · exact messagesJobs_yields hcode h hj
  obtain ⟨hcode, h⟩ | ⟨-, h⟩ := ite_eq_iff.mp h
  · exact responseJobs_yields hcode h hj
  obtain ⟨hcode, h⟩ | ⟨-, h⟩ := ite_eq_iff.mp h
  · exact acknowledgedJobs_yields hcode h hj
  obtain ⟨hcode, h⟩ | ⟨-, h⟩ := ite_eq_iff.mp h
  · exact directJobs_yields hcode h hj
  obtain ⟨hcode, h⟩ | ⟨-, h⟩ := ite_eq_iff.mp h
  · exact syncRequestJobs_yields hcode h hj
  obtain ⟨hcode, h⟩ | ⟨-, h⟩ := ite_eq_iff.mp h
  · exact syncResponseJobs_yields hcode h hj
  obtain ⟨hcode, h⟩ | ⟨-, h⟩ := ite_eq_iff.mp h
  · exact requestJobs_yields hcode h hj
  obtain ⟨hcode, h⟩ | ⟨-, h⟩ := ite_eq_iff.mp h
  · exact requestCompleteJobs_yields hcode h hj
  · cases h
    cases hj

end Packet

/-! ### What a job does to the node -/

namespace Loop

/-- What the next of `jobs` can make of the node `w`. -/
inductive Changes (C : Crypto) (now : UInt32) (w : Whisper) (jobs : List Job) : Whisper → Prop
  | same : Changes C now w jobs w
  | stored (e e' : Envelope) (hjob : Job.add e ∈ jobs)
      (hcheck : w.settings.check C now e = .ok (some e')) : Changes C now w jobs (w.insert C e')
  | announced (e : Envelope) (isP2P : Bool) (hjob : Job.announce e isP2P ∈ jobs) :
      Changes C now w jobs (w.announce C e isP2P)
  | posted (item : P2PItem) (rest : List Job) (hjobs : jobs = .postP2P item :: rest) :
      Changes C now w jobs { w with p2pMsgQueue := w.p2pMsgQueue ++ [item] }
  | archived (e : Envelope) (hjob : Job.archive e ∈ jobs) :
      Changes C now w jobs { w with archived := w.archived ++ [e] }
  | sent (event : EnvelopeEvent)
      (hevent : Job.send event ∈ jobs ∨ event.event = .envelopeReceived) :
      Changes C now w jobs { w with envelopeFeed := w.envelopeFeed ++ [event] }

theorem work_changes (C : Crypto) (now : UInt32) (sync : Option GoError) (w : Whisper) (l : Loop) :
    Changes C now w l.jobs (l.work C now sync w).1 := by
  unfold work
  split
  · exact .same
  · rename_i job rest hjobs
    have hhead : job ∈ l.jobs := by rw [hjobs]; exact List.mem_cons_self
    cases job with
    | add e =>
      simp only [perform, add]
      split
      · exact .same
      · exact .same
      · rename_i e' hcheck
        split
        · exact .same
        · exact .stored e e' hhead hcheck
    | announce e isP2P => exact .announced e isP2P hhead
    | received e => exact .sent _ (.inr rfl)
    | postP2P item => exact .posted item rest hjobs
    | archive e => exact .archived e hhead
    | send event => exact .sent event (.inl hhead)
    | _ => exact .same

section Node

variable {C : Crypto} {now : UInt32} {w w' : Whisper} {jobs : List Job}

theorem Changes.messageQueue_le (h : Changes C now w jobs w') :
    w.messageQueue <+: w'.messageQueue := by
  cases h with
  | announced e isP2P =>
    rw [Whisper.announce_messageQueue]
    split <;> simp
  | _ => exact List.prefix_refl _

theorem Changes.p2pMsgQueue_le (h : Changes C now w jobs w') :
    w.p2pMsgQueue <+: w'.p2pMsgQueue := by
  cases h with
  | announced e isP2P =>
    rw [Whisper.announce_p2pMsgQueue]
    split <;> simp
  | posted item => exact List.prefix_append _ _
  | _ => exact List.prefix_refl _

theorem Changes.archived_le (h : Changes C now w jobs w') : w.archived <+: w'.archived := by
  cases h with
  | announced e isP2P =>
    rw [Whisper.announce_archived]
    split <;> simp
  | archived e => exact List.prefix_append _ _
  | _ => exact List.prefix_refl _

theorem Changes.envelopeFeed_le (h : Changes C now w jobs w') :
    w.envelopeFeed <+: w'.envelopeFeed := by
  cases h with
  | announced e isP2P =>
    obtain ⟨flag, hupdate⟩ := w.announce_update C e isP2P
    rw [hupdate]
    dsimp only
    split <;> simp
  | sent event => exact List.prefix_append _ _
  | _ => exact List.prefix_refl _

theorem Changes.disableConfirmations_eq (h : Changes C now w jobs w') :
    w'.disableConfirmations = w.disableConfirmations := by
  cases h with
  | announced e isP2P =>
    obtain ⟨flag, hupdate⟩ := w.announce_update C e isP2P
    rw [hupdate]
  | _ => rfl

/-- The pool gains the envelope that the checks of `add` have let through, or none. -/
theorem Changes.lookup_envelopes (h : Changes C now w jobs w') {k : Hash} {e : Envelope}
    (he : w'.envelopes.lookup k = some e) :
    w.envelopes.lookup k = some e ∨
      ∃ e₀, Job.add e₀ ∈ jobs ∧ w.settings.check C now e₀ = .ok (some e) := by
  cases h with
  | stored e₀ e' hjob hcheck =>
    by_cases hkey : k = e'.hash C
    · rw [hkey, Whisper.insert, Finmap.lookup_insert] at he
      obtain rfl := Option.some.inj he
      exact .inr ⟨e₀, hjob, hcheck⟩
    · rw [Whisper.insert, Finmap.lookup_insert_of_ne _ hkey] at he
      exact .inl he
  | announced e' isP2P =>
    obtain ⟨flag, hupdate⟩ := w.announce_update C e' isP2P
    rw [hupdate] at he
    exact .inl he
  | _ => exact .inl he

/-- The events of a job: the one that it is for, or one about an envelope. -/
theorem Changes.mem_gained_envelopeFeed (h : Changes C now w jobs w') {event : EnvelopeEvent}
    (hevent : event ∈ gained w.envelopeFeed w'.envelopeFeed) :
    Job.send event ∈ jobs ∨ event.event = .envelopeReceived ∨
      event.event = .mailServerEnvelopeArchived := by
  cases h with
  | announced e isP2P =>
    obtain ⟨flag, hupdate⟩ := w.announce_update C e isP2P
    rw [hupdate] at hevent
    dsimp only at hevent
    split at hevent
    · rw [gained_append] at hevent
      rw [List.mem_singleton.mp hevent]
      exact .inr (.inr rfl)
    · rw [gained_self] at hevent
      cases hevent
  | sent x hx =>
    rw [gained_append] at hevent
    rw [List.mem_singleton.mp hevent]
    exact hx.imp_right .inl
  | _ =>
    -- the feed is the same
    have hnone : event ∈ gained w.envelopeFeed w.envelopeFeed := hevent
    rw [gained_self] at hnone
    cases hnone

theorem Changes.mem_envelopeFeed (h : Changes C now w jobs w') {event : EnvelopeEvent}
    (hevent : event ∈ w'.envelopeFeed) :
    event ∈ w.envelopeFeed ∨ Job.send event ∈ jobs ∨ event.event = .envelopeReceived ∨
      event.event = .mailServerEnvelopeArchived := by
  rw [← append_gained h.envelopeFeed_le] at hevent
  exact (List.mem_append.mp hevent).imp_right h.mem_gained_envelopeFeed

end Node

end Loop

/-! ### What a job does to the loop -/

/-- The error that `add` returns for an envelope of a packet. -/
def Whisper.addError (C : Crypto) (w : Whisper) (now : UInt32) (e : Envelope) : Option AddError :=
  match (w.add C now e w.settings.lightClientMode).2 with
  | .error err => some err
  | .ok _ => none

theorem Whisper.addError_eq (C : Crypto) (w : Whisper) (now : UInt32) (e : Envelope) :
    w.addError C now e =
      match w.settings.check C now e with
      | .error err => some err
      | .ok _ => none := by
  unfold addError
  rw [Whisper.add_snd]
  cases w.settings.check C now e <;> rfl

/-- A job that is what is left of an `add`. -/
def Job.Rest : Job → Prop
  | .announce .. => True
  | .received _ => True
  | .mark _ => True
  | _ => False

/-- The job is neither an `add` nor a confirmation. -/
def Job.Quiet : Job → Prop
  | .add _ => False
  | .confirm _ => False
  | _ => True

theorem Job.Rest.quiet {j : Job} (h : j.Rest) : j.Quiet := by
  cases j with
  | add e => exact h
  | confirm data => exact h
  | _ => trivial

namespace Loop

/-- What the next job can make of the loop `l`.  The rest of an `add` comes before the other jobs,
and a job that ends the loop leaves none. -/
inductive Leaves (C : Crypto) (now : UInt32) (w : Whisper) (l : Loop) : Loop → Prop
  | idle (hjobs : l.jobs = []) : Leaves C now w l l
  | next (job : Job) (rest : List Job) (hjobs : l.jobs = job :: rest) (hjob : job.Quiet)
      (known : Finset Hash) (calls : List MailCall) :
      Leaves C now w l { l with peer.known := known, jobs := rest, calls := calls }
  | ended (job : Job) (rest : List Job) (hjobs : l.jobs = job :: rest)
      (hjob : job = .checkTrouble ∨ ∃ call, job = .call call) (calls : List MailCall)
      (written : List Packet) (fault : Fault) :
      Leaves C now w l
        { l with jobs := [], calls := calls, written := written, returned := some fault }
  | added (e : Envelope) (rest mid : List Job) (hjobs : l.jobs = .add e :: rest)
      (hmid : ∀ j ∈ mid, j.Rest) (trouble : Bool) :
      Leaves C now w l
        { l with
          jobs := mid ++ rest
          trouble := trouble
          envelopeErrors := l.envelopeErrors ++ ((w.addError C now e).map fun err =>
            errorToEnvelopeError (e.hash C) (err.value C w.settings now e)).toList }
  | confirmed (data : Bytes) (rest : List Job) (hjobs : l.jobs = .confirm data :: rest) :
      Leaves C now w l
        { l with
          jobs := rest
          confirmations := l.confirmations ++
            if w.disableConfirmations then [] else [(C.keccak256Hash data, l.envelopeErrors)] }

theorem add_leaves {C : Crypto} (now : UInt32) (w : Whisper) {l : Loop} {e : Envelope}
    {rest : List Job} (hjobs : l.jobs = .add e :: rest) :
    Leaves C now w l ({ l with jobs := rest }.add C now w e).2 := by
  have hnone : ∀ {mid : List Job}, (∀ j ∈ mid, j.Rest) → w.addError C now e = none →
      Leaves C now w l ({ l with jobs := rest }.push mid) := by
    intro mid hmid herr
    have h : Leaves C now w l _ := .added e rest mid hjobs hmid l.trouble
    rw [herr] at h
    simpa [push] using h
  unfold add
  cases hcheck : w.settings.check C now e with
  | error err =>
    have herr : w.addError C now e = some err := by rw [Whisper.addError_eq, hcheck]
    have h : ∀ trouble, Leaves C now w l _ :=
      .added e rest [.received e] hjobs (by simp [Job.Rest])
    rw [herr] at h
    exact h _
  | ok checked =>
    have herr : w.addError C now e = none := by rw [Whisper.addError_eq, hcheck]
    cases checked with
    | none => exact hnone (by simp [Job.Rest]) herr
    | some e' =>
      dsimp only
      split
      · exact hnone (by simp [Job.Rest]) herr
      · exact hnone (by simp [Job.Rest]) herr

theorem work_leaves (C : Crypto) (now : UInt32) (sync : Option GoError) (w : Whisper) (l : Loop) :
    Leaves C now w l (l.work C now sync w).2 := by
  unfold work
  split
  · exact .idle ‹_›
  · rename_i job rest hjobs
    cases job with
    | add e => exact add_leaves now w hjobs
    | confirm data =>
      have h : Leaves C now w l _ := .confirmed data rest hjobs
      simp only [perform]
      split
      · rename_i hdisabled
        rwa [if_pos hdisabled, List.append_nil] at h
      · rename_i henabled
        rwa [if_neg henabled] at h
    | checkTrouble =>
      simp only [perform]
      split
      · exact .ended _ rest hjobs (.inl rfl) l.calls l.written _
      · exact .next _ rest hjobs trivial l.peer.known l.calls
    | call call =>
      simp only [perform, callMailServer]
      split
      · exact .ended _ rest hjobs (.inr ⟨_, rfl⟩) _ _ _
      · exact .next _ rest hjobs trivial l.peer.known _
    | mark e => exact .next _ rest hjobs trivial _ l.calls
    | _ => exact .next _ rest hjobs trivial l.peer.known l.calls

section Work

variable {C : Crypto} {now : UInt32} {w : Whisper} {l l' : Loop}

/-- A job is followed by what was behind it, and an `add` also by the rest of its own. -/
theorem Leaves.mem_jobs (h : Leaves C now w l l') {j : Job} (hj : j ∈ l'.jobs) :
    j ∈ l.jobs ∨ j.Rest := by
  cases h with
  | idle => exact .inl hj
  | next job rest hjobs => exact .inl (by rw [hjobs]; exact List.mem_cons_of_mem _ hj)
  | ended => cases hj
  | added e rest mid hjobs hmid =>
    obtain hj | hj := List.mem_append.mp hj
    · exact .inr (hmid j hj)
    · exact .inl (by rw [hjobs]; exact List.mem_cons_of_mem _ hj)
  | confirmed data rest hjobs => exact .inl (by rw [hjobs]; exact List.mem_cons_of_mem _ hj)

/-- A job changes the record of the peer in the known hashes only. -/
theorem Leaves.peer_eq (h : Leaves C now w l l') :
    ∃ known, l'.peer = { l.peer with known := known } := by
  cases h <;> exact ⟨_, rfl⟩

/-- The other jobs start no goroutine. -/
theorem Leaves.confirmations_eq (h : Leaves C now w l l')
    (hnone : ∀ data rest, l.jobs ≠ .confirm data :: rest) :
    l'.confirmations = l.confirmations := by
  cases h with
  | confirmed data rest hjobs => exact absurd hjobs (hnone data rest)
  | _ => rfl

theorem Leaves.of_rest (h : Leaves C now w l l') {job : Job} {rest : List Job}
    (hjobs : l.jobs = job :: rest) (hjob : job.Rest) :
    l'.jobs = rest ∧ l'.envelopeErrors = l.envelopeErrors := by
  cases h with
  | idle hnil => cases hnil.symm.trans hjobs
  | next job' rest' hjobs' =>
    cases hjobs'.symm.trans hjobs
    exact ⟨rfl, rfl⟩
  | ended job' rest' hjobs' hended =>
    cases hjobs'.symm.trans hjobs
    obtain rfl | ⟨call, rfl⟩ := hended <;> exact hjob.elim
  | added e rest' mid hjobs' =>
    cases hjobs'.symm.trans hjobs
    exact hjob.elim
  | confirmed data rest' hjobs' =>
    cases hjobs'.symm.trans hjobs
    exact hjob.elim

theorem Leaves.of_add (h : Leaves C now w l l') {e : Envelope} {rest : List Job}
    (hjobs : l.jobs = .add e :: rest) :
    ∃ mid, (∀ j ∈ mid, j.Rest) ∧ l'.jobs = mid ++ rest ∧
      l'.envelopeErrors = l.envelopeErrors ++ ((w.addError C now e).map fun err =>
        errorToEnvelopeError (e.hash C) (err.value C w.settings now e)).toList := by
  cases h with
  | idle hnil => cases hnil.symm.trans hjobs
  | next job' rest' hjobs' hquiet =>
    cases hjobs'.symm.trans hjobs
    exact hquiet.elim
  | ended job' rest' hjobs' hended =>
    cases hjobs'.symm.trans hjobs
    obtain h | ⟨call, h⟩ := hended <;> cases h
  | added e' rest' mid hjobs' hmid =>
    cases hjobs'.symm.trans hjobs
    exact ⟨mid, hmid, rfl, rfl⟩
  | confirmed data rest' hjobs' => cases hjobs'.symm.trans hjobs

theorem Leaves.of_confirm (h : Leaves C now w l l') {data : Bytes} {rest : List Job}
    (hjobs : l.jobs = .confirm data :: rest) :
    l'.jobs = rest ∧ l'.confirmations = l.confirmations ++
      if w.disableConfirmations then [] else [(C.keccak256Hash data, l.envelopeErrors)] := by
  cases h with
  | idle hnil => cases hnil.symm.trans hjobs
  | next job' rest' hjobs' hquiet =>
    cases hjobs'.symm.trans hjobs
    exact hquiet.elim
  | ended job' rest' hjobs' hended =>
    cases hjobs'.symm.trans hjobs
    obtain h | ⟨call, h⟩ := hended <;> cases h
  | added e' rest' mid hjobs' => cases hjobs'.symm.trans hjobs
  | confirmed data' rest' hjobs' =>
    cases hjobs'.symm.trans hjobs
    exact ⟨rfl, rfl⟩

end Work

/-! ### What reading leaves -/

theorem read_peer (C : Crypto) (w : Whisper) (l : Loop) (packet : Packet) :
    ∃ pow bloom full, (l.read C w packet).peer =
      { l.peer with powRequirement := pow, bloomFilter := bloom, fullNode := full } := by
  unfold read
  split
  · exact ⟨_, _, _, rfl⟩
  split
  · exact ⟨_, _, _, rfl⟩
  rename_i p hp
  split
  · exact ⟨_, _, _, rfl⟩
  · exact Packet.applyTo_update hp

theorem read_confirmations (C : Crypto) (w : Whisper) (l : Loop) (packet : Packet) :
    (l.read C w packet).confirmations = l.confirmations := by
  unfold read
  repeat' split
  all_goals rfl

theorem mem_read_jobs {C : Crypto} {w : Whisper} {l : Loop} {packet : Packet} {j : Job}
    (h : j ∈ (l.read C w packet).jobs) :
    ∃ p, p.id = l.peer.id ∧ packet.Yields C p j := by
  unfold read at h
  split at h
  · cases h
  split at h
  · cases h
  rename_i p hp
  obtain ⟨pow, bloom, full, rfl⟩ := Packet.applyTo_update hp
  split at h
  · cases h
  · rename_i jobs hjobs
    exact ⟨_, rfl, Packet.jobs_yields hjobs h⟩

/-- Packets with other codes lead to jobs that have nothing to do with a bundle. -/
theorem read_quiet {C : Crypto} {w : Whisper} {l : Loop} {packet : Packet} {j : Job}
    (hcode : packet.code ≠ messagesCode) (h : j ∈ (l.read C w packet).jobs) : j.Quiet := by
  obtain ⟨p, -, hyields⟩ := mem_read_jobs h
  cases hyields with
  | add e hmessages => exact hcode hmessages
  | confirm hmessages => exact hcode hmessages
  | _ => trivial

end Loop

end Whisperv6
