import Whisperv6.DirectChannel
import Whisperv6.Trust

/-! What the loops post for the direct channel: the jobs of one packet post in the order of its
items, and none of the other jobs gets in between. -/

namespace Whisperv6

open ProofKit

/-! ### What jobs post -/

/-- The items that jobs post for the direct channel. -/
def posts (jobs : List Job) : List P2PItem :=
  jobs.filterMap fun
    | .postP2P item => some item
    | _ => none

theorem posts_cons (j : Job) (rest : List Job) : posts (j :: rest) = posts [j] ++ posts rest :=
  List.filterMap_append (l := [j])

theorem posts_append (xs ys : List Job) : posts (xs ++ ys) = posts xs ++ posts ys :=
  List.filterMap_append

theorem mem_posts {jobs : List Job} {item : P2PItem} :
    item ∈ posts jobs ↔ Job.postP2P item ∈ jobs := by
  rw [posts, List.mem_filterMap]
  constructor
  · intro h
    obtain ⟨job, hjob, hitem⟩ := h
    cases job with
    | postP2P item' =>
      cases hitem
      exact hjob
    | _ => cases hitem
  · exact fun h => ⟨_, h, rfl⟩

theorem posts_eq_nil {jobs : List Job} (h : ∀ item, Job.postP2P item ∉ jobs) : posts jobs = [] :=
  List.eq_nil_iff_forall_not_mem.mpr fun item hitem => h item (mem_posts.mp hitem)

theorem posts_map_postP2P (items : List P2PItem) : posts (items.map .postP2P) = items := by
  rw [posts, List.filterMap_map]
  exact List.filterMap_some

namespace Loop

/-- The jobs are those of a packet for the direct channel, or they post nothing there. -/
def Separate (l : Loop) : Prop := (∀ j ∈ l.jobs, j.Direct) ∨ posts l.jobs = []

theorem read_separate (C : Crypto) (w : Whisper) (l : Loop) (packet : Packet) :
    (l.read C w packet).Separate := by
  unfold read Separate
  split
  · exact .inr rfl
  split
  · exact .inr rfl
  split
  · exact .inr rfl
  rename_i jobs hjobs
  by_cases hcode : packet.code ∈ directCodes
  · exact .inl fun j hj => (Packet.jobs_yields hjobs hj).direct_of_code hcode
  · exact .inr (posts_eq_nil fun item hitem => (Packet.jobs_yields hjobs hitem).open_of_code hcode)

theorem work_postP2P {C : Crypto} (now : UInt32) (sync : Option GoError) (w : Whisper) {l : Loop}
    {item : P2PItem} {rest : List Job} (h : l.jobs = .postP2P item :: rest) :
    l.work C now sync w =
      ({ w with p2pMsgQueue := w.p2pMsgQueue ++ [item] }, { l with jobs := rest }) := by
  simp only [work, h]
  rfl

/-- The queue after a job that does not post for the direct channel. -/
theorem work_queue {C : Crypto} (now : UInt32) (sync : Option GoError) (w : Whisper) {l : Loop}
    (h : ∀ item rest, l.jobs ≠ .postP2P item :: rest) :
    (l.work C now sync w).1.p2pMsgQueue = w.p2pMsgQueue ∨
      ∃ item, (l.work C now sync w).1.p2pMsgQueue = w.p2pMsgQueue ++ [item] := by
  have hchanges := l.work_changes C now sync w
  generalize (l.work C now sync w).1 = w' at hchanges
  cases hchanges with
  | announced e isP2P =>
    rw [Whisper.announce_p2pMsgQueue]
    split
    · exact .inr ⟨_, rfl⟩
    · exact .inl rfl
  | posted item rest hjobs => exact absurd hjobs (h item rest)
  | _ => exact .inl rfl

/-- A job that does not post for the direct channel leaves what is still to be posted there. -/
theorem work_other {C : Crypto} (now : UInt32) (sync : Option GoError) (w : Whisper) {l : Loop}
    (hl : l.Separate) (h : ∀ item rest, l.jobs ≠ .postP2P item :: rest) :
    (l.work C now sync w).2.Separate ∧ posts (l.work C now sync w).2.jobs = posts l.jobs := by
  have hleaves := l.work_leaves C now sync w
  generalize (l.work C now sync w).2 = l' at hleaves
  -- a job of another packet than one for the direct channel is not among jobs that post
  have hsilent : ∀ {job : Job} {rest : List Job}, l.jobs = job :: rest → ¬job.Direct →
      posts l.jobs = [] ∧ posts rest = [] := by
    intro job rest hjobs hdirect
    have hnone : posts l.jobs = [] := by
      obtain hall | hnone := hl
      · exact absurd (hall job (by rw [hjobs]; exact List.mem_cons_self)) hdirect
      · exact hnone
    refine ⟨hnone, ?_⟩
    rw [hjobs, posts_cons] at hnone
    exact (List.append_eq_nil_iff.mp hnone).2
  cases hleaves with
  | idle hjobs => exact ⟨hl, rfl⟩
  | next job rest hjobs =>
    have hjob : posts [job] = [] := by
      cases job with
      | postP2P item => exact absurd hjobs (h item rest)
      | _ => rfl
    rw [Separate, hjobs, posts_cons, hjob] at hl
    rw [Separate, hjobs, posts_cons job, hjob]
    exact ⟨hl.imp (fun hall j hj => hall j (List.mem_cons_of_mem _ hj)) id, rfl⟩
  | ended job rest hjobs hended =>
    have hdirect : ¬job.Direct := by obtain rfl | ⟨call, rfl⟩ := hended <;> exact id
    exact ⟨.inr rfl, (hsilent hjobs hdirect).1.symm⟩
  | added e rest mid hjobs hmid =>
    obtain ⟨hnone, hrest⟩ := hsilent hjobs id
    have hafter : posts (mid ++ rest) = [] := by
      rw [posts_append, hrest, posts_eq_nil fun item hitem => hmid _ hitem, List.append_nil]
    exact ⟨.inr hafter, hafter.trans hnone.symm⟩
  | confirmed data rest hjobs =>
    obtain ⟨hnone, hrest⟩ := hsilent hjobs id
    exact ⟨.inr hrest, hrest.trans hnone.symm⟩

theorem work_separate {C : Crypto} (now : UInt32) (sync : Option GoError) (w : Whisper) {l : Loop}
    (hl : l.Separate) : (l.work C now sync w).2.Separate := by
  by_cases hpost : ∃ item rest, l.jobs = .postP2P item :: rest
  · obtain ⟨item, rest, hjobs⟩ := hpost
    rw [work_postP2P now sync w hjobs]
    obtain hall | hnone := hl
    · exact .inl fun j hj => hall j (by rw [hjobs]; exact List.mem_cons_of_mem _ hj)
    · rw [hjobs] at hnone
      cases hnone
  · exact (work_other now sync w hl fun item rest h => hpost ⟨item, rest, h⟩).1

end Loop

/-! ### What packets bring -/

/-- A packet that a loop has read, and the items for the direct channel in it. -/
structure Reading where
  packet : Packet
  items : List P2PItem

/-- The items of a packet: a packet that ends an answer has the event, and no envelope has a cached
proof of work. -/
structure Reading.Sound (x : Reading) : Prop where
  complete : x.packet.code = p2pRequestCompleteCode → x.items.length ≤ 1 ∧
    ∀ item ∈ x.items, ∃ event, item = .event event ∧ event.event = .mailServerRequestCompleted
  uncached : ∀ e, P2PItem.envelope e ∈ x.items → e.powCache = .zero

theorem Packet.length_posts_requestComplete {packet : Packet} {p : Peer} {jobs : List Job}
    (h : packet.requestCompleteJobs p = .ok jobs) : (posts jobs).length ≤ 1 := by
  unfold requestCompleteJobs at h
  split at h
  · split at h
    · cases h
    · split at h <;> cases h
      exact le_rfl
  · cases h
    exact Nat.zero_le 1

theorem Packet.jobs_sound {C : Crypto} {packet : Packet} {w : Whisper} {p : Peer}
    {jobs : List Job} (h : packet.jobs C w p = .ok jobs) : Reading.Sound ⟨packet, posts jobs⟩ := by
  constructor
  · intro hcode
    refine ⟨length_posts_requestComplete ((jobs_requestComplete hcode).symm.trans h), ?_⟩
    intro item hitem
    cases jobs_yields h (mem_posts.mp hitem) with
    | direct e hdirect =>
      rw [hcode] at hdirect
      cases hdirect
    | complete event _ _ hevent => exact ⟨event, rfl, hevent⟩
  · intro e he
    cases jobs_yields h (mem_posts.mp he) with
    | direct e _ _ hreceived =>
      rw [← hreceived]
      rfl

theorem Loop.read_sound (C : Crypto) (w : Whisper) (l : Loop) (packet : Packet) :
    Reading.Sound ⟨packet, posts (l.read C w packet).jobs⟩ := by
  have hnone : Reading.Sound ⟨packet, []⟩ := ⟨fun _ => by simp, fun e he => nomatch he⟩
  unfold read
  split
  · exact hnone
  split
  · exact hnone
  split
  · exact hnone
  rename_i jobs hjobs
  exact Packet.jobs_sound hjobs

/-- The items that a packet with direct messages of a trusted peer brings. -/
theorem posts_sendP2PDirect (C : Crypto) {w : Whisper} {l : Loop} {es : List Envelope}
    (hp : l.peer.trusted = true) (hsize : w.checkPacketSize (sendP2PDirect es) = none)
    (hlen : (sendP2PDirect es).payload.length < 2 ^ 32) :
    posts (l.read C w (sendP2PDirect es)).jobs = es.map fun e => .envelope (e.received C) := by
  have hcode := sendP2PDirect_code es
  have hpeer : (sendP2PDirect es).applyTo l.peer = .ok l.peer :=
    Packet.applyTo_of_ne (by rw [hcode]; decide) (by rw [hcode]; decide)
  have hjobs := (Packet.jobs_direct (C := C) (w := w) hcode).trans
    (directJobs_sendP2PDirect C hlen hp)
  simp only [Loop.read, hsize, hpeer, hjobs, posts_map_postP2P]

end Whisperv6
