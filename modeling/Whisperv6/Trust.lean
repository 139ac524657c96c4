import Whisperv6.Jobs
import Whisperv6.ProofKit.Runs

/-! What a peer can make a node do without its trust.  The loop of such a peer posts and archives
the envelopes that `add` stores, and nothing else, whatever packets it reads and whatever the other
goroutines do in the meantime. -/

namespace Whisperv6

open ProofKit

/-! ### Jobs -/

/-- The codes of the direct channel. -/
def directCodes : List Nat := [p2pMessageCode, p2pSyncResponseCode, p2pRequestCompleteCode]

namespace Job

/-- A job that a peer needs no trust for, and that is no rest of an `add`. -/
def Open : Job → Prop
  | .postP2P _ => False
  | .archive _ => False
  | .announce .. => False
  | _ => True

end Job

section Jobs

variable {C : Crypto} {packet : Packet} {p : Peer} {j : Job}

/-- Packets with the other codes than those of the direct channel lead to open jobs. -/
theorem Packet.Yields.open_of_code (h : packet.Yields C p j) (hcode : packet.code ∉ directCodes) :
    j.Open := by
  cases h with
  | direct e hdirect => exact absurd (by rw [hdirect]; decide) hcode
  | archive e hsync => exact absurd (by rw [hsync]; decide) hcode
  | complete event hcomplete => exact absurd (by rw [hcomplete]; decide) hcode
  | _ => trivial

/-- Without trust, a packet leads to jobs that need none. -/
theorem Packet.Yields.open_of_untrusted (h : packet.Yields C p j) (hp : p.trusted = false) :
    j.Open := by
  cases h with
  | direct e _ htrusted => simp [hp] at htrusted
  | archive e _ htrusted => simp [hp] at htrusted
  | complete event _ htrusted => simp [hp] at htrusted
  | _ => trivial

end Jobs

/-! ### The loop of a peer without trust -/

/-- The envelope that the next job of a loop stores: it passes all the checks of `add`, and the pool
does not hold it. -/
def Loop.stores (C : Crypto) (now : UInt32) (w : Whisper) (l : Loop) : Option Envelope :=
  match l.jobs with
  | .add e :: _ =>
    match w.settings.check C now e with
    | .ok (some e') => if e'.hash C ∈ w.envelopes then none else some e'
    | _ => none
  | _ => none

/-- The node and the loop of a peer.  `stored` lists the envelopes that the loop has stored in the
pool; `queued`, `posted` and `archived` list what it has put on `messageQueue`, on `p2pMsgQueue`
and in the archive. -/
structure Intake where
  whisper : Whisper
  loop : Loop
  stored : List Envelope := []
  queued : List Envelope := []
  posted : List P2PItem := []
  archived : List Envelope := []

/-- The loop reads a packet, or it does its next job, or other goroutines work. -/
inductive IntakeAction
  | read (packet : Packet)
  | work (now : UInt32) (sync : Option GoError)
  | others (w : Whisper) (p : Peer)

namespace Intake

/-- The loop of the peer `p` before its first packet. -/
def start (w : Whisper) (p : Peer) : Intake := { whisper := w, loop := { peer := p } }

/-- The next job, with what it has put where. -/
def work (C : Crypto) (now : UInt32) (sync : Option GoError) (s : Intake) : Intake :=
  let (w, l) := s.loop.work C now sync s.whisper
  { whisper := w
    loop := l
    stored := s.stored ++ (s.loop.stores C now s.whisper).toList
    queued := s.queued ++ w.messageQueue.drop s.whisper.messageQueue.length
    posted := s.posted ++ w.p2pMsgQueue.drop s.whisper.p2pMsgQueue.length
    archived := s.archived ++ w.archived.drop s.whisper.archived.length }

end Intake

/-- A job only adds to the queues and to the archive. -/
theorem Loop.work_grows (C : Crypto) (now : UInt32) (sync : Option GoError) (w : Whisper)
    (l : Loop) :
    w.messageQueue <+: (l.work C now sync w).1.messageQueue ∧
    w.p2pMsgQueue <+: (l.work C now sync w).1.p2pMsgQueue ∧
    w.archived <+: (l.work C now sync w).1.archived := by
  have h := l.work_changes C now sync w
  exact ⟨h.messageQueue_le, h.p2pMsgQueue_le, h.archived_le⟩

/-- The other goroutines leave the peer without trust; apart from that they may do anything. -/
def IntakeStep (C : Crypto) (s : Intake) : IntakeAction → Intake → Prop
  | .read packet, t => s.loop.jobs = [] ∧ s.loop.returned = none ∧
    t = { s with loop := s.loop.read C s.whisper packet }
  | .work now sync, t => s.loop.jobs ≠ [] ∧ t = s.work C now sync
  | .others w p, t => p.trusted = false ∧ t = { s with whisper := w, loop.peer := p }

/-! ### One job -/

/-- The queues and the archive are the same. -/
structure Whisper.SameOutlets (w w' : Whisper) : Prop where
  messageQueue : w'.messageQueue = w.messageQueue
  p2pMsgQueue : w'.p2pMsgQueue = w.p2pMsgQueue
  archived : w'.archived = w.archived

namespace Loop

/-- The jobs are open, but for the announcement of the envelope `pending` before them. -/
def Pends (pending : Option Envelope) (jobs : List Job) : Prop :=
  match pending with
  | none => ∀ j ∈ jobs, j.Open
  | some e => ∃ isP2P rest, jobs = .announce e isP2P :: rest ∧ ∀ j ∈ rest, j.Open

/-- An open job puts nothing on a queue or in the archive, and it leaves an envelope to announce
when it has stored one. -/
theorem work_open {C : Crypto} (now : UInt32) (sync : Option GoError) (w : Whisper) {l : Loop}
    (hjobs : l.jobs ≠ []) (h : ∀ j ∈ l.jobs, j.Open) :
    w.SameOutlets (l.work C now sync w).1 ∧
    (l.work C now sync w).2.peer.trusted = l.peer.trusted ∧
    Pends (l.stores C now w) (l.work C now sync w).2.jobs := by
  obtain ⟨job, rest, hcons⟩ := List.exists_cons_of_ne_nil hjobs
  rw [hcons] at h
  have hrest : ∀ j ∈ rest, j.Open := fun j hj => h j (List.mem_cons_of_mem _ hj)
  have hjob : job.Open := h job List.mem_cons_self
  simp only [work, stores, hcons]
  cases job with
  | add e =>
    simp only [perform, add]
    cases hcheck : w.settings.check C now e with
    | error err => exact ⟨⟨rfl, rfl, rfl⟩, rfl, by simpa [Pends, push, refuse, Job.Open]⟩
    | ok checked =>
      cases checked with
      | none => exact ⟨⟨rfl, rfl, rfl⟩, rfl, by simpa [Pends, push, Job.Open]⟩
      | some e' =>
        by_cases hcached : e'.hash C ∈ w.envelopes
        · simp only [if_pos hcached]
          exact ⟨⟨rfl, rfl, rfl⟩, rfl, by simpa [Pends, push, Job.Open]⟩
        · simp only [if_neg hcached]
          exact ⟨⟨rfl, rfl, rfl⟩, rfl, _, _, rfl, by simpa [Job.Open]⟩
  | announce e isP2P => exact hjob.elim
  | postP2P item => exact hjob.elim
  | archive e => exact hjob.elim
  | received e => exact ⟨⟨rfl, rfl, rfl⟩, rfl, hrest⟩
  | mark e => exact ⟨⟨rfl, rfl, rfl⟩, rfl, hrest⟩
  | send event => exact ⟨⟨rfl, rfl, rfl⟩, rfl, hrest⟩
  | confirm data =>
    simp only [perform]
    split <;> exact ⟨⟨rfl, rfl, rfl⟩, rfl, hrest⟩
  | checkTrouble =>
    simp only [perform]
    split
    · exact ⟨⟨rfl, rfl, rfl⟩, rfl, by simp [Pends, leave]⟩
    · exact ⟨⟨rfl, rfl, rfl⟩, rfl, hrest⟩
  | call call =>
    cases call with
    | deliverMail request => exact ⟨⟨rfl, rfl, rfl⟩, rfl, hrest⟩
    | deliver request => exact ⟨⟨rfl, rfl, rfl⟩, rfl, hrest⟩
    | syncMail request =>
      cases sync with
      | none => exact ⟨⟨rfl, rfl, rfl⟩, rfl, hrest⟩
      | some err => exact ⟨⟨rfl, rfl, rfl⟩, rfl, by simp [Pends, perform, callMailServer, leave]⟩

/-- An announcement is the rest of an `add`. -/
theorem work_announce {C : Crypto} (now : UInt32) (sync : Option GoError) (w : Whisper) {l : Loop}
    {e : Envelope} {isP2P : Bool} {rest : List Job} (h : l.jobs = .announce e isP2P :: rest) :
    l.work C now sync w = (w.announce C e isP2P, { l with jobs := rest }) ∧
      l.stores C now w = none := by
  simp only [work, stores, h]
  exact ⟨rfl, trivial⟩

theorem read_untrusted {C : Crypto} {w : Whisper} {l : Loop} (packet : Packet)
    (hp : l.peer.trusted = false) :
    (l.read C w packet).peer.trusted = false ∧ ∀ j ∈ (l.read C w packet).jobs, j.Open := by
  unfold read
  split
  · exact ⟨hp, by simp [leave]⟩
  · split
    · exact ⟨hp, by simp [leave]⟩
    · rename_i p hpeer
      obtain ⟨pow, bloom, full, rfl⟩ := Packet.applyTo_update hpeer
      split
      · exact ⟨hp, by simp [leave]⟩
      · rename_i jobs hjobs
        exact ⟨hp, fun j hj => (Packet.jobs_yields hjobs hj).open_of_untrusted hp⟩

end Loop

/-! ### Runs -/

namespace Intake

/-- The loop of a peer without trust, between two jobs.  The envelope that it may have to announce
comes after what it has put on the queues and in the archive, in the order of the stores. -/
structure Guarded (s : Intake) (pending : Option Envelope) : Prop where
  trusted : s.loop.peer.trusted = false
  jobs : Loop.Pends pending s.loop.jobs
  queued : (s.queued ++ pending.toList).Sublist s.stored
  posted : (s.posted ++ pending.toList.map P2PItem.envelope).Sublist
    (s.stored.map P2PItem.envelope)
  archived : (s.archived ++ pending.toList).Sublist s.stored

/-- A job that is open. -/
theorem Guarded.work_open {C : Crypto} {s : Intake} (hs : s.Guarded none) (now : UInt32)
    (sync : Option GoError) (hjobs : s.loop.jobs ≠ []) :
    (s.work C now sync).Guarded (s.loop.stores C now s.whisper) := by
  obtain ⟨hsame, htrusted, hpends⟩ :=
    Loop.work_open (C := C) now sync s.whisper hjobs hs.jobs
  have hqueued : (s.work C now sync).queued = s.queued := by
    simp [work, hsame.messageQueue]
  have hposted : (s.work C now sync).posted = s.posted := by
    simp [work, hsame.p2pMsgQueue]
  have harchived : (s.work C now sync).archived = s.archived := by
    simp [work, hsame.archived]
  have hold := hs.queued
  have hold' := hs.posted
  have hold'' := hs.archived
  simp only [Option.toList_none, List.append_nil, List.map_nil] at hold hold' hold''
  refine ⟨htrusted.trans hs.trusted, hpends, ?_, ?_, ?_⟩
  · rw [hqueued]
    exact hold.append (List.Sublist.refl _)
  · rw [hposted]
    simp only [work, List.map_append]
    exact hold'.append (List.Sublist.refl _)
  · rw [harchived]
    exact hold''.append (List.Sublist.refl _)

/-- The announcement of an envelope that the loop has stored. -/
theorem Guarded.work_announce {C : Crypto} {s : Intake} {e : Envelope} (hs : s.Guarded (some e))
    (now : UInt32) (sync : Option GoError) : (s.work C now sync).Guarded none := by
  obtain ⟨isP2P, rest, hjobs, hopen⟩ := hs.jobs
  obtain ⟨hwork, hstores⟩ := Loop.work_announce (C := C) now sync s.whisper hjobs
  have hshorter : ∀ {α : Type} {xs ys : List α} {x : α} {p : Prop} [Decidable p],
      (xs ++ [x]).Sublist ys → (xs ++ if p then [x] else []).Sublist ys := by
    intro α xs ys x p _ h
    split
    · exact h
    · exact (List.Sublist.append_left (List.nil_sublist _) xs).trans h
  have hqueue : (s.whisper.announce C e isP2P).messageQueue =
      s.whisper.messageQueue ++ if isP2P = false then [e] else [] := by
    rw [Whisper.announce_messageQueue]
    cases isP2P <;> simp
  have hp2p : (s.whisper.announce C e isP2P).p2pMsgQueue =
      s.whisper.p2pMsgQueue ++ if isP2P = true then [.envelope e] else [] := by
    rw [Whisper.announce_p2pMsgQueue]
    cases isP2P <;> simp
  have harchive : (s.whisper.announce C e isP2P).archived =
      s.whisper.archived ++ if s.whisper.mailServer = true then [e] else [] := by
    rw [Whisper.announce_archived]
    cases s.whisper.mailServer <;> simp
  refine ⟨?_, ?_, ?_, ?_, ?_⟩
  · simp only [work, hwork]
    exact hs.trusted
  · simp only [work, hwork]
    exact hopen
  all_goals
    simp only [work, hwork, hstores, hqueue, hp2p, harchive, List.drop_left, Option.toList_none,
      List.append_nil, List.map_nil]
  · exact hshorter hs.queued
  · exact hshorter hs.posted
  · exact hshorter hs.archived

/-- A step of the loop or of the other goroutines. -/
theorem Guarded.step {C : Crypto} {s t : Intake} {a : IntakeAction}
    (h : ∃ pending, s.Guarded pending) (hstep : IntakeStep C s a t) :
    ∃ pending, t.Guarded pending := by
  obtain ⟨pending, hs⟩ := h
  cases a with
  | read packet =>
    obtain ⟨hidle, -, rfl⟩ := hstep
    have hread := Loop.read_untrusted (C := C) (w := s.whisper) packet hs.trusted
    cases pending with
    | none => exact ⟨none, hread.1, hread.2, hs.queued, hs.posted, hs.archived⟩
    | some e =>
      obtain ⟨isP2P, rest, hjobs, -⟩ := hs.jobs
      rw [hidle] at hjobs
      cases hjobs
  | work now sync =>
    obtain ⟨hjobs, rfl⟩ := hstep
    cases pending with
    | none => exact ⟨_, hs.work_open now sync hjobs⟩
    | some e => exact ⟨_, hs.work_announce now sync⟩
  | others w p =>
    obtain ⟨hp, rfl⟩ := hstep
    exact ⟨pending, hp, hs.jobs, hs.queued, hs.posted, hs.archived⟩

end Intake

/-! ### The direct channel and the pool -/

/-- A job of the packets for the direct channel. -/
def Job.Direct : Job → Prop
  | .postP2P _ => True
  | .archive _ => True
  | .send _ => True
  | _ => False

theorem Job.Direct.perform {C : Crypto} {j : Job} (h : j.Direct) (now : UInt32)
    (sync : Option GoError) (w : Whisper) (l : Loop) :
    (Loop.perform C now sync w l j).1.envelopes = w.envelopes ∧
    (Loop.perform C now sync w l j).1.expirations = w.expirations ∧
    (Loop.perform C now sync w l j).1.stats = w.stats ∧
    (Loop.perform C now sync w l j).2 = l := by
  cases j with
  | postP2P item => exact ⟨rfl, rfl, rfl, rfl⟩
  | archive e => exact ⟨rfl, rfl, rfl, rfl⟩
  | send event => exact ⟨rfl, rfl, rfl, rfl⟩
  | _ => exact h.elim

theorem Packet.Yields.direct_of_code {C : Crypto} {packet : Packet} {p : Peer} {j : Job}
    (h : packet.Yields C p j) (hcode : packet.code ∈ directCodes) : j.Direct := by
  cases h with
  | add e hmessages => exact absurd hcode (by rw [hmessages]; decide)
  | confirm hmessages => exact absurd hcode (by rw [hmessages]; decide)
  | checkTrouble hmessages => exact absurd hcode (by rw [hmessages]; decide)
  | call call hrequest => obtain h | h := hrequest <;> exact absurd hcode (by rw [h]; decide)
  | _ => trivial

theorem Loop.read_directCodes {C : Crypto} {packet : Packet} (hcode : packet.code ∈ directCodes)
    (w : Whisper) (l : Loop) :
    (l.read C w packet).peer = l.peer ∧ ∀ j ∈ (l.read C w packet).jobs, j.Direct := by
  have hpeer : packet.applyTo l.peer = .ok l.peer := by
    refine Packet.applyTo_of_ne (fun h => ?_) fun h => ?_ <;>
      rw [h] at hcode <;> exact absurd hcode (by decide)
  unfold read
  split
  · exact ⟨rfl, by simp [leave]⟩
  · rw [hpeer]
    dsimp only
    split
    · exact ⟨rfl, by simp [leave]⟩
    · rename_i jobs hjobs
      exact ⟨rfl, fun j hj => (Packet.jobs_yields hjobs hj).direct_of_code hcode⟩

/-- Without the trust of the node, a peer can make it post and archive only what `add` has stored;
the logs of its loop miss nothing, since every job only adds to the queues and the archive.  And
the direct channel, whoever uses it, leaves the pool, the statistics and the known hashes as they
are: each job of its packets leaves them and the whole loop, whatever the state is when its turn
comes. -/
theorem Intake.direct_channel_confined (C : Crypto) :
    (∀ (w : Whisper) (p : Peer) (acts : List IntakeAction) (s : Intake), p.trusted = false →
      Run (IntakeStep C) (Intake.start w p) acts s →
      s.queued.Sublist s.stored ∧ s.posted.Sublist (s.stored.map P2PItem.envelope) ∧
        s.archived.Sublist s.stored) ∧
    (∀ now sync (w : Whisper) (l : Loop),
      w.messageQueue <+: (l.work C now sync w).1.messageQueue ∧
      w.p2pMsgQueue <+: (l.work C now sync w).1.p2pMsgQueue ∧
      w.archived <+: (l.work C now sync w).1.archived) ∧
    ∀ (w : Whisper) (l : Loop) (packet : Packet), packet.code ∈ directCodes →
      (l.read C w packet).peer.known = l.peer.known ∧
      ∀ j ∈ (l.read C w packet).jobs, ∀ now sync w' l',
        (Loop.perform C now sync w' l' j).1.envelopes = w'.envelopes ∧
        (Loop.perform C now sync w' l' j).1.expirations = w'.expirations ∧
        (Loop.perform C now sync w' l' j).1.stats = w'.stats ∧
        (Loop.perform C now sync w' l' j).2 = l' := by
  refine ⟨fun w p acts s hp hrun => ?_, Loop.work_grows C, fun w l packet hcode => ?_⟩
  · have hstart : (Intake.start w p).Guarded none :=
      ⟨hp, by simp [Loop.Pends, start], by simp [start], by simp [start], by simp [start]⟩
    obtain ⟨pending, hs⟩ := hrun.invariant (P := fun s => ∃ pending, s.Guarded pending)
      ⟨none, hstart⟩ fun _ _ _ _ h hstep => Intake.Guarded.step h hstep
    exact ⟨(List.sublist_append_left _ _).trans hs.queued,
      (List.sublist_append_left _ _).trans hs.posted,
      (List.sublist_append_left _ _).trans hs.archived⟩
  · obtain ⟨hpeer, hjobs⟩ := l.read_directCodes (C := C) hcode w
    exact ⟨by rw [hpeer], fun j hj => (hjobs j hj).perform⟩

/-- A node that has read a bundle from a peer without trust. -/
def sampleIntake : Intake :=
  let s := Intake.start (new {}) { id := 7 }
  { s with loop := s.loop.read sampleCrypto s.whisper (Peer.bundlePacket [sampleEnvelope]) }

/-- The same node after the loop has added the envelope, and after it has announced it. -/
def addedIntake : Intake := sampleIntake.work sampleCrypto 1600000000 none

def announcedIntake : Intake := addedIntake.work sampleCrypto 1600000000 none

theorem Intake.direct_channel_confined_sample :
    announcedIntake.queued.length = 1 ∧
      announcedIntake.queued.Sublist announcedIntake.stored := by
  have hjobs : sampleIntake.loop.jobs ≠ [] := by decide +kernel
  have hjobs' : addedIntake.loop.jobs ≠ [] := by decide +kernel
  have hrun : Run (IntakeStep sampleCrypto) (Intake.start (new {}) { id := 7 })
      [.read (Peer.bundlePacket [sampleEnvelope]), .work 1600000000 none, .work 1600000000 none]
      announcedIntake :=
    .cons ⟨rfl, rfl, rfl⟩ (.cons ⟨hjobs, rfl⟩ (.cons ⟨hjobs', rfl⟩ (.nil _)))
  exact ⟨by decide +kernel,
    ((Intake.direct_channel_confined sampleCrypto).1 (new {}) { id := 7 } _ _ rfl hrun).1⟩

end Whisperv6
