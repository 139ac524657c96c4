import Whisperv6.Trust

/-! Acknowledgements of bundles.  A loop that reads a response of version 1 sends the event also
when the response inside does not decode, with what the decoder has left of it; every other event of
this kind says what its packet says. -/

namespace Whisperv6

open ProofKit

/-! ### Packets -/

namespace Packet

/-- The packet decodes at every stage, and `event` carries the batch and the errors that it
names. -/
inductive Acknowledges (packet : Packet) (event : EnvelopeEvent) : Prop
  | response (m : MultiVersionResponse) (r : MessagesResponse)
      (hcode : packet.code = messageResponseCode)
      (hm : packet.decode "whisperv6.MultiVersionResponse" MultiVersionResponse.decode = .ok m)
      (hversion : m.version = 1)
      (hr : Rlp.decodeBytes "whisperv6.MessagesResponse" MessagesResponse.decode m.response = .ok r)
      (hbatch : event.batch = r.hash) (hdata : event.data = .errors r.errors)
  | batch (b : Bytes) (hcode : packet.code = batchAcknowledgedCode)
      (hb : packet.decode "common.Hash" (Rlp.decodeByteArray "common.Hash" hashLength) = .ok b)
      (hbatch : event.batch = bytesToHash b) (hdata : event.data = .nil)

/-- A response of version 1 with something else than a `MessagesResponse` inside. -/
def HalfDecoded (packet : Packet) : Prop :=
  packet.code = messageResponseCode ∧ ∃ m err,
    packet.decode "whisperv6.MultiVersionResponse" MultiVersionResponse.decode = .ok m ∧
    m.version = 1 ∧
    Rlp.decodeBytes "whisperv6.MessagesResponse" MessagesResponse.decode m.response = .error err

variable {C : Crypto} {packet : Packet} {w : Whisper} {p : Peer} {jobs : List Job}
  {event : EnvelopeEvent}

theorem jobs_response (h : packet.code = messageResponseCode) :
    packet.jobs C w p = packet.responseJobs p := by
  rw [jobs, h]
  rfl

theorem responseJobs_acknowledges (hcode : packet.code = messageResponseCode)
    (h : packet.responseJobs p = .ok jobs) (hevent : Job.send event ∈ jobs) :
    packet.Acknowledges event ∨ packet.HalfDecoded := by
  unfold responseJobs at h
  split at h
  · cases h
  rename_i m hm
  split at h
  · rename_i hversion
    cases h
    cases List.mem_singleton.mp hevent
    cases hr : Rlp.decodeBytes "whisperv6.MessagesResponse" MessagesResponse.decode m.response with
    | ok r =>
      refine .inl (.response m r hcode hm hversion hr ?_ ?_) <;>
        rw [MultiVersionResponse.decodeResponse1_of_ok hr]
    | error err => exact .inr ⟨hcode, m, err, hm, hversion, hr⟩
  · cases h
    cases hevent

/-- An acknowledgement that a packet leads to is what the packet says, or what is left of a response
that is decoded by half. -/
theorem jobs_acknowledges (h : packet.jobs C w p = .ok jobs) (hevent : Job.send event ∈ jobs)
    (hkind : event.event = .batchAcknowledged) :
    packet.Acknowledges event ∨ packet.HalfDecoded := by
  have hyields := jobs_yields h hevent
  cases hyields with
  | response m hcode hm =>
    rw [jobs_response hcode] at h
    exact responseJobs_acknowledges hcode h hevent
  | acknowledged b hcode hb => exact .inl (.batch b hcode hb rfl rfl)
  | finished _ _ _ hfinished =>
    rw [hkind] at hfinished
    cases hfinished

theorem HalfDecoded.jobs_eq (h : packet.HalfDecoded) :
    ∃ event, event.event = .batchAcknowledged ∧ packet.jobs C w p = .ok [.send event] := by
  obtain ⟨hcode, m, err, hm, hversion, -⟩ := h
  rw [jobs_response hcode]
  unfold responseJobs
  rw [hm]
  exact ⟨_, rfl, if_pos hversion⟩

end Packet

/-! ### Rounds of the loop -/

/-- The node and the loop of a peer.  `rounds` lists the packets that the loop has taken, the last
one first, each with the events that the loop has sent while it worked on the packet. -/
structure Rounds where
  whisper : Whisper
  loop : Loop
  rounds : List (Packet × List EnvelopeEvent) := []

namespace Rounds

def start (w : Whisper) (p : Peer) : Rounds := { whisper := w, loop := { peer := p } }

/-- A packet begins a round unless the loop returns on it. -/
def read (C : Crypto) (s : Rounds) (packet : Packet) : Rounds :=
  let l := s.loop.read C s.whisper packet
  { s with
    loop := l
    rounds := if l.returned = none then (packet, []) :: s.rounds else s.rounds }

def work (C : Crypto) (now : UInt32) (sync : Option GoError) (s : Rounds) : Rounds :=
  let (w, l) := s.loop.work C now sync s.whisper
  { whisper := w
    loop := l
    rounds := match s.rounds with
      | [] => []
      | (packet, events) :: older =>
        (packet, events ++ gained s.whisper.envelopeFeed w.envelopeFeed) :: older }

end Rounds

/-- The other goroutines may do anything to the node and to the record of the peer. -/
def RoundsStep (C : Crypto) (s : Rounds) : IntakeAction → Rounds → Prop
  | .read packet, t => s.loop.jobs = [] ∧ s.loop.returned = none ∧ t = s.read C packet
  | .work now sync, t => s.loop.jobs ≠ [] ∧ t = s.work C now sync
  | .others w p, t => t = { s with whisper := w, loop.peer := p }

namespace Rounds

/-- Every acknowledgement that the loop has sent is what the packet of its round says, and a
response that is decoded by half leads to none. -/
structure Sound (s : Rounds) : Prop where
  carried : ∀ r ∈ s.rounds, ∀ event ∈ r.2, event.event = .batchAcknowledged →
    r.1.Acknowledges event
  silent : ∀ r ∈ s.rounds, r.1.HalfDecoded → ∀ event ∈ r.2, event.event ≠ .batchAcknowledged

/-- What the events of the rounds, and those that the jobs will send, come from.  The jobs are of
the round that was begun last. -/
structure Attributed (s : Rounds) : Prop where
  busy : s.loop.jobs ≠ [] → s.rounds ≠ []
  sent : ∀ r ∈ s.rounds, ∀ event ∈ r.2, event.event = .batchAcknowledged →
    r.1.Acknowledges event ∨ r.1.HalfDecoded
  pending : ∀ r older, s.rounds = r :: older → ∀ event, Job.send event ∈ s.loop.jobs →
    event.event = .batchAcknowledged → r.1.Acknowledges event ∨ r.1.HalfDecoded
  finished : ∀ r older, s.rounds = r :: older → ∀ x ∈ older, x.1.HalfDecoded →
    ∃ event ∈ x.2, event.event = .batchAcknowledged
  last : ∀ r older, s.rounds = r :: older → r.1.HalfDecoded →
    (∃ event ∈ r.2, event.event = .batchAcknowledged) ∨
    ∃ event, event.event = .batchAcknowledged ∧ s.loop.jobs = [.send event]

variable {C : Crypto} {s t : Rounds} {packet : Packet}

theorem start_attributed (w : Whisper) (p : Peer) : (start w p).Attributed := by
  constructor <;> simp [start]

/-- The jobs of the loop after it has taken a packet are the jobs of the packet. -/
theorem read_jobs {l : Loop} {w : Whisper} (h : (l.read C w packet).returned = none) :
    ∃ p, packet.jobs C w p = .ok (l.read C w packet).jobs := by
  unfold Loop.read at h ⊢
  split
  · simp_all [Loop.leave]
  split
  · simp_all [Loop.leave]
  rename_i p _
  split
  · simp_all [Loop.leave]
  · rename_i jobs hjobs
    exact ⟨p, hjobs⟩

theorem read_refused {l : Loop} {w : Whisper} (h : (l.read C w packet).returned ≠ none)
    (hnone : l.returned = none) : (l.read C w packet).jobs = [] := by
  unfold Loop.read at h ⊢
  split
  · rfl
  split
  · rfl
  split
  · rfl
  · simp_all

/-- Once the jobs are done, all rounds are over. -/
theorem Attributed.finished_of_idle (h : s.Attributed) (hjobs : s.loop.jobs = []) :
    ∀ r ∈ s.rounds, r.1.HalfDecoded → ∃ event ∈ r.2, event.event = .batchAcknowledged := by
  cases hrounds : s.rounds with
  | nil => simp
  | cons r older =>
    intro x hx hhalf
    rcases List.mem_cons.mp hx with rfl | hx
    · rcases h.last x older hrounds hhalf with hsent | ⟨event, -, hpending⟩
      · exact hsent
      · rw [hjobs] at hpending
        cases hpending
    · exact h.finished r older hrounds x hx hhalf

theorem Attributed.read (h : s.Attributed) (hjobs : s.loop.jobs = [])
    (hnone : s.loop.returned = none) (packet : Packet) : (s.read C packet).Attributed := by
  have hover := h.finished_of_idle hjobs
  by_cases htaken : (s.loop.read C s.whisper packet).returned = none
  · obtain ⟨p, hp⟩ := read_jobs htaken
    have hrounds : (s.read C packet).rounds = (packet, []) :: s.rounds := if_pos htaken
    constructor
    · intro _
      simp [hrounds]
    · intro r hr event hevent
      rw [hrounds] at hr
      rcases List.mem_cons.mp hr with rfl | hr
      · cases hevent
      · exact h.sent r hr event hevent
    · intro r older hr event hevent hkind
      rw [hrounds] at hr
      cases hr
      exact Packet.jobs_acknowledges hp hevent hkind
    · intro r older hr
      rw [hrounds] at hr
      cases hr
      exact hover
    · intro r older hr hhalf
      rw [hrounds] at hr
      cases hr
      obtain ⟨event, hkind, hsend⟩ := hhalf.jobs_eq (C := C) (w := s.whisper) (p := p)
      rw [hsend] at hp
      injection hp with hp
      exact .inr ⟨event, hkind, hp.symm⟩
  · have hidle : (s.read C packet).loop.jobs = [] := read_refused htaken hnone
    have hrounds : (s.read C packet).rounds = s.rounds := if_neg htaken
    constructor
    · exact fun hbusy => absurd hidle hbusy
    · rw [hrounds]
      exact h.sent
    · intro r older _ event hevent
      rw [hidle] at hevent
      cases hevent
    · rw [hrounds]
      exact h.finished
    · intro r older hr hhalf
      rw [hrounds] at hr
      exact .inl (hover r (by rw [hr]; exact List.mem_cons_self) hhalf)

theorem work_rounds (C : Crypto) (now : UInt32) (sync : Option GoError)
    {r : Packet × List EnvelopeEvent} {older : List (Packet × List EnvelopeEvent)}
    (h : s.rounds = r :: older) :
    (s.work C now sync).rounds =
      (r.1, r.2 ++ gained s.whisper.envelopeFeed (s.work C now sync).whisper.envelopeFeed) ::
        older := by
  simp only [work, h]

/-- A job moves acknowledgements from the jobs to the events of the last round. -/
theorem Attributed.work (h : s.Attributed) (hbusy : s.loop.jobs ≠ []) (now : UInt32)
    (sync : Option GoError) : (s.work C now sync).Attributed := by
  obtain ⟨r, older, hrounds⟩ := List.exists_cons_of_ne_nil (h.busy hbusy)
  have hafter := work_rounds C now sync hrounds
  have hchanges := s.loop.work_changes C now sync s.whisper
  have hleaves := s.loop.work_leaves C now sync s.whisper
  constructor
  · intro _
    simp [hafter]
  · intro x hx event hevent hkind
    rw [hafter] at hx
    rcases List.mem_cons.mp hx with rfl | hx
    · rcases List.mem_append.mp hevent with hold | hnew
      · exact h.sent r (by rw [hrounds]; exact List.mem_cons_self) event hold hkind
      · rcases hchanges.mem_gained_envelopeFeed hnew with hsend | hother | hother
        · exact h.pending r older hrounds event hsend hkind
        · rw [hkind] at hother
          cases hother
        · rw [hkind] at hother
          cases hother
    · exact h.sent x (by rw [hrounds]; exact List.mem_cons_of_mem _ hx) event hevent hkind
  · intro x rest hx event hevent hkind
    rw [hafter] at hx
    cases hx
    rcases hleaves.mem_jobs hevent with hevent | hrest
    · exact h.pending r older hrounds event hevent hkind
    · exact hrest.elim
  · intro x rest hx
    rw [hafter] at hx
    cases hx
    exact h.finished r older hrounds
  · intro x rest hx hhalf
    rw [hafter] at hx
    cases hx
    refine .inl ?_
    rcases h.last r older hrounds hhalf with ⟨event, hevent, hkind⟩ | ⟨event, hkind, hsend⟩
    · exact ⟨event, List.mem_append_left _ hevent, hkind⟩
    · have hfeed : (s.work C now sync).whisper.envelopeFeed =
          s.whisper.envelopeFeed ++ [event] := by
        simp only [Rounds.work, Loop.work, hsend, Loop.perform]
      refine ⟨event, List.mem_append_right _ ?_, hkind⟩
      rw [hfeed, gained_append]
      exact List.mem_singleton_self event

theorem Attributed.step {a : IntakeAction} (h : s.Attributed) (hstep : RoundsStep C s a t) :
    t.Attributed := by
  cases a with
  | read packet =>
    obtain ⟨hjobs, hnone, rfl⟩ := hstep
    exact h.read hjobs hnone packet
  | work now sync =>
    obtain ⟨hbusy, rfl⟩ := hstep
    exact h.work hbusy now sync
  | others w p =>
    obtain rfl : t = _ := hstep
    exact ⟨h.busy, h.sent, h.pending, h.finished, h.last⟩

theorem run_attributed {w : Whisper} {p : Peer} {acts : List IntakeAction}
    (run : Run (RoundsStep C) (start w p) acts s) : s.Attributed :=
  run.invariant (start_attributed w p) fun _ _ _ _ h hstep => h.step hstep

theorem Attributed.sound (h : s.Attributed) (hwhole : ∀ r ∈ s.rounds, ¬ r.1.HalfDecoded) :
    s.Sound where
  carried r hr event hevent hkind :=
    (h.sent r hr event hevent hkind).resolve_right (hwhole r hr)
  silent r hr hhalf := absurd hhalf (hwhole r hr)

/-- Whatever packets a loop reads and whatever the other goroutines do, as long as it takes no
response that is decoded by half, every acknowledgement that it sends is what a packet says; and
once it has worked off a packet that is, one is not. -/
theorem acknowledgements_sound_iff {w : Whisper} {p : Peer} {acts : List IntakeAction}
    (run : Run (RoundsStep C) (start w p) acts s) :
    ((∀ r ∈ s.rounds, ¬ r.1.HalfDecoded) → s.Sound) ∧
    (s.loop.jobs = [] → s.Sound → ∀ r ∈ s.rounds, ¬ r.1.HalfDecoded) := by
  have hs := run_attributed run
  refine ⟨hs.sound, fun hjobs hsound r hr hhalf => ?_⟩
  obtain ⟨event, hevent, hkind⟩ := hs.finished_of_idle hjobs r hr hhalf
  exact hsound.silent r hr hhalf event hevent hkind

/-- A response of version 1 with the empty string inside. -/
def halfResponse : Packet where
  code := messageResponseCode
  size := 3
  payload := [0xC2, 0x01, 0x80]

theorem halfResponse_halfDecoded : halfResponse.HalfDecoded :=
  ⟨rfl, ⟨1, [0x80]⟩, .decode "expected input list" "whisperv6.MessagesResponse" [], rfl, rfl,
    rfl⟩

/-- A node whose loop has taken that response, and the same node after the job of the packet. -/
def tookHalf : Rounds := (start (new {}) { id := 7 }).read sampleCrypto halfResponse

def sentHalf : Rounds := tookHalf.work sampleCrypto 0 none

theorem run_sentHalf : Run (RoundsStep sampleCrypto) (start (new {}) { id := 7 })
    [.read halfResponse, .work 0 none] sentHalf := by
  have hjobs : tookHalf.loop.jobs ≠ [] := by decide +kernel
  exact .cons ⟨rfl, rfl, rfl⟩ (.cons ⟨hjobs, rfl⟩ (.nil _))

/-- For a response that holds none, the loop acknowledges the batch zero without errors. -/
theorem not_acknowledgements_sound :
    halfResponse.HalfDecoded ∧
    Run (RoundsStep sampleCrypto) (start (new {}) { id := 7 })
      [.read halfResponse, .work 0 none] sentHalf ∧
    sentHalf.rounds =
      [(halfResponse, [{ event := .batchAcknowledged, peer := 7, data := .errors [] }])] ∧
    ¬ sentHalf.Sound := by
  have hrounds : sentHalf.rounds =
      [(halfResponse, [{ event := .batchAcknowledged, peer := 7, data := .errors [] }])] := by
    decide +kernel
  refine ⟨halfResponse_halfDecoded, run_sentHalf, hrounds, fun hsound => ?_⟩
  have hsilent := hsound.silent
  rw [hrounds] at hsilent
  exact hsilent _ (List.mem_singleton_self _) halfResponse_halfDecoded _
    (List.mem_singleton_self _) rfl

/-- A confirmation of the batch 5, a node whose loop has taken it, and the same node after the
job. -/
def batchPacket : Packet :=
  sendPacket batchAcknowledgedCode (Rlp.encodeString (5 : Hash).bytes)

def tookBatch : Rounds := (start (new {}) { id := 7 }).read sampleCrypto batchPacket

def sentBatch : Rounds := tookBatch.work sampleCrypto 0 none

theorem acknowledgements_sound_iff_batch :
    sentBatch.rounds =
      [(batchPacket, [{ event := .batchAcknowledged, peer := 7, batch := 5 }])] ∧
    sentBatch.Sound := by
  have hrounds : sentBatch.rounds =
      [(batchPacket, [{ event := .batchAcknowledged, peer := 7, batch := 5 }])] := by
    decide +kernel
  have hjobs : tookBatch.loop.jobs ≠ [] := by decide +kernel
  have hrun : Run (RoundsStep sampleCrypto) (start (new {}) { id := 7 })
      [.read batchPacket, .work 0 none] sentBatch :=
    .cons ⟨rfl, rfl, rfl⟩ (.cons ⟨hjobs, rfl⟩ (.nil _))
  refine ⟨hrounds, (acknowledgements_sound_iff hrun).1 fun r hr hhalf => ?_⟩
  rw [hrounds] at hr
  cases List.mem_singleton.mp hr
  exact absurd hhalf.1 (by decide)

end Rounds

end Whisperv6
