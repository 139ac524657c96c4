import Whisperv6.Exchange
import Whisperv6.Loops
import Whisperv6.ProofKit.Flood

/-! A network of nodes that gossip.  Every node runs a message loop for each of its connections and
broadcasts its pool over them, and all the goroutines of all the nodes take their steps in any
order.  Whatever a pool holds was given to `Send` at some node, and when a network has come to rest
the pools agree along its connections. -/

namespace Whisperv6

open ProofKit

/-! ### What a loop has in hand -/

/-- The packet has an envelope with this hash in its bundle. -/
def Packet.Carries (C : Crypto) (packet : Packet) (k : Hash) : Prop :=
  packet.code = messagesCode ∧
    ∃ jobs e, packet.messagesJobs C = .ok jobs ∧ Job.add e ∈ jobs ∧ e.hash C = k

theorem Packet.carries_bundlePacket {C : Crypto} {bundle : List Envelope} {k : Hash}
    (hlen : (Peer.bundlePacket bundle).payload.length < 2 ^ 32)
    (hsound : ∀ e ∈ bundle, e.HashSound C) :
    (Peer.bundlePacket bundle).Carries C k ↔ k ∈ bundle.map (Envelope.hash C) := by
  have hhash : ∀ e ∈ bundle, (e.received C).hash C = e.hash C := by
    intro e he
    rw [(Envelope.received_hashSound C e).hash_eq, (hsound e he).hash_eq]
    rfl
  have hjobs := messagesJobs_bundlePacket C hlen
  constructor
  · rintro ⟨-, jobs, e, hok, he, rfl⟩
    rw [hjobs] at hok
    cases hok
    simp only [List.map_map, List.mem_append, List.mem_map, List.mem_cons, List.not_mem_nil,
      or_false, reduceCtorEq, Function.comp_apply, Job.add.injEq] at he
    obtain ⟨e, he, rfl⟩ := he
    exact List.mem_map.mpr ⟨e, he, (hhash e he).symm⟩
  · intro hk
    obtain ⟨e, he, rfl⟩ := List.mem_map.mp hk
    refine ⟨rfl, _, e.received C, hjobs, ?_, hhash e he⟩
    exact List.mem_append_left _ (List.mem_map_of_mem (List.mem_map_of_mem he))

namespace Loop

/-- An envelope with this hash waits for `add`. -/
def Awaits (C : Crypto) (l : Loop) (k : Hash) : Prop := ∃ e, Job.add e ∈ l.jobs ∧ e.hash C = k

/-- An envelope with this hash waits to be marked. -/
def Marks (C : Crypto) (l : Loop) (k : Hash) : Prop := ∃ e, Job.mark e ∈ l.jobs ∧ e.hash C = k

/-- The hash that the next job turns away: `add` refuses or drops its envelope. -/
def turnedAway (C : Crypto) (now : UInt32) (w : Whisper) (l : Loop) : Finset Hash :=
  match l.jobs with
  | .add e :: _ =>
    if (w.add C now e w.settings.lightClientMode).2 = .ok true then ∅ else {e.hash C}
  | _ => ∅

section Work

variable {C : Crypto} {now : UInt32} {sync : Option GoError} {w : Whisper} {l : Loop} {k : Hash}

/-- The jobs after the next one: those that were behind it, with the rest of an `add` before them,
or none when the loop returns. -/
theorem Leaves.jobs_cases {l' : Loop} (h : Leaves C now w l l') :
    l'.jobs = l.jobs.tail ∨ l'.jobs = [] ∧ l'.returned ≠ none ∨
      ∃ e rest mid, l.jobs = .add e :: rest ∧ l'.jobs = mid ++ rest := by
  cases h with
  | idle hjobs => exact .inl (by rw [hjobs]; rfl)
  | next job rest hjobs => exact .inl (by rw [hjobs]; rfl)
  | ended => exact .inr (.inl ⟨rfl, Option.some_ne_none _⟩)
  | added e rest mid hjobs => exact .inr (.inr ⟨e, rest, mid, hjobs, rfl⟩)
  | confirmed data rest hjobs => exact .inl (by rw [hjobs]; rfl)

theorem returned_of_work (h : (l.work C now sync w).2.returned = none) : l.returned = none := by
  have hleaves := work_leaves C now sync w l
  generalize (l.work C now sync w).2 = l' at h hleaves
  cases hleaves with
  | ended => cases h
  | _ => exact h

theorem mem_known_work (h : k ∈ (l.work C now sync w).2.peer.known) :
    k ∈ l.peer.known ∨ l.Marks C k := by
  unfold work at h
  split at h
  · exact .inl h
  · rename_i job rest hjobs
    cases job with
    | mark e =>
      obtain rfl | h := Peer.mem_known_mark.mp h
      · exact .inr ⟨e, by rw [hjobs]; exact List.mem_cons_self, rfl⟩
      · exact .inl h
    | add e =>
      refine .inl ?_
      simp only [perform, add] at h
      repeat' split at h
      all_goals exact h
    | confirm data =>
      simp only [perform] at h
      split at h <;> exact .inl h
    | checkTrouble =>
      simp only [perform] at h
      split at h <;> exact .inl h
    | call call =>
      simp only [perform, callMailServer] at h
      split at h <;> exact .inl h
    | _ => exact .inl h

theorem Awaits.of_work (h : (l.work C now sync w).2.Awaits C k) : l.Awaits C k := by
  obtain ⟨e, he, hk⟩ := h
  obtain he | he := (work_leaves C now sync w l).mem_jobs he
  · exact ⟨e, he, hk⟩
  · exact he.elim

/-- What `add` leaves to be marked is its envelope. -/
theorem mark_mem_add {e x : Envelope} (h : Job.mark x ∈ (l.add C now w e).2.jobs) :
    x = e ∨ Job.mark x ∈ l.jobs := by
  unfold add at h
  repeat' split at h
  all_goals simp [push, refuse] at h
  · exact .inr h
  · exact .inr h
  · exact h
  · exact h

/-- What waits to be marked did so before, or it is the envelope that `add` has just accepted. -/
theorem Marks.of_work (h : (l.work C now sync w).2.Marks C k) : l.Marks C k ∨ l.Awaits C k := by
  obtain ⟨x, hx, rfl⟩ := h
  obtain htail | ⟨hnone, -⟩ | ⟨e, rest, mid, hjobs, -⟩ := (work_leaves C now sync w l).jobs_cases
  · rw [htail] at hx
    exact .inl ⟨x, List.mem_of_mem_tail hx, rfl⟩
  · rw [hnone] at hx
    cases hx
  · have hadd : (l.work C now sync w).2 = ({ l with jobs := rest }.add C now w e).2 := by
      simp only [work, hjobs, perform]
    rw [hadd] at hx
    obtain rfl | hrest := mark_mem_add hx
    · exact .inr ⟨x, by rw [hjobs]; exact List.mem_cons_self, rfl⟩
    · exact .inl ⟨x, by rw [hjobs]; exact List.mem_cons_of_mem _ hrest, rfl⟩

/-- The envelope of an `add` is in the pool afterwards, or it was turned away. -/
theorem work_add {e : Envelope} {rest : List Job} (hjobs : l.jobs = .add e :: rest) :
    e.hash C ∈ (l.work C now sync w).1.envelopes ∨ e.hash C ∈ l.turnedAway C now w := by
  by_cases hcached : (w.add C now e w.settings.lightClientMode).2 = .ok true
  · obtain ⟨e', hcheck⟩ := Whisper.add_cached_iff.mp hcached
    obtain ⟨hhash, -⟩ := Settings.same_of_check hcheck
    left
    simp only [work, hjobs, perform, add, hcheck]
    split
    · rename_i hmem
      exact hhash ▸ hmem
    · rw [← hhash]
      exact Finmap.mem_insert.mpr (.inl rfl)
  · right
    simp only [turnedAway, hjobs, if_neg hcached, Finset.mem_singleton]

/-- A loop that does not return has not dropped the envelopes that wait: the next of them is in the
pool now, or it was turned away. -/
theorem Awaits.work (h : l.Awaits C k) (hreturned : (l.work C now sync w).2.returned = none) :
    (l.work C now sync w).2.Awaits C k ∨ k ∈ (l.work C now sync w).1.envelopes ∨
      k ∈ l.turnedAway C now w := by
  obtain ⟨x, hx, rfl⟩ := h
  cases hjobs : l.jobs with
  | nil =>
    rw [hjobs] at hx
    cases hx
  | cons job rest =>
    rw [hjobs] at hx
    obtain rfl | hrest := List.mem_cons.mp hx
    · exact .inr (work_add hjobs)
    · refine .inl ⟨x, ?_, rfl⟩
      obtain htail | ⟨-, hended⟩ | ⟨e, rest', mid, hadd, hafter⟩ :=
        (work_leaves C now sync w l).jobs_cases
      · rw [htail, hjobs]
        exact hrest
      · exact absurd hreturned hended
      · cases hjobs.symm.trans hadd
        rw [hafter]
        exact List.mem_append_right _ hrest

end Work

section Read

variable {C : Crypto} {w : Whisper} {l : Loop} {packet : Packet}

/-- A packet ends the loop, or the loop has its jobs. -/
theorem read_cases (C : Crypto) (w : Whisper) (l : Loop) (packet : Packet) :
    (∃ fault, l.read C w packet = l.leave fault) ∨
    ∃ p jobs, packet.applyTo l.peer = .ok p ∧ packet.jobs C w p = .ok jobs ∧
      l.read C w packet =
        { l with peer := p, jobs := jobs, trouble := false, envelopeErrors := [] } := by
  unfold read
  cases w.checkPacketSize packet with
  | some err => exact .inl ⟨_, rfl⟩
  | none =>
    cases happly : packet.applyTo l.peer with
    | error err => exact .inl ⟨_, rfl⟩
    | ok p =>
      dsimp only
      cases hjobs : packet.jobs C w p with
      | error fault => exact .inl ⟨_, rfl⟩
      | ok jobs => exact .inr ⟨p, jobs, rfl, hjobs, rfl⟩

end Read

end Loop

/-! ### The network -/

/-- The nodes, the loop that each has for the others that it is connected to, and the packets that
are written to a connection and not read.  `injected` lists the envelopes that `Send` has accepted
at some node, and `lost` has the hashes that a node has turned away or expired. -/
structure Mesh (N : Type) where
  node : N → Whisper
  loops : N → N → Option Loop := fun _ _ => none
  wire : N → N → List Packet := fun _ _ => []
  injected : List Envelope := []
  lost : N → Finset Hash := fun _ => ∅

inductive MeshAction (N : Type)
  | send (i : N) (now : UInt32) (e : Envelope)
  | connect (i j : N) (p q : Peer)
  | disconnect (i j : N)
  | broadcast (i j : N) (order : List Hash) (written : Bool)
  | transmit (i j : N) (packet : Packet)
  | read (i j : N)
  | work (i j : N) (now : UInt32) (sync : Option GoError)
  | expire (i : N) (now : UInt32) (seconds : List UInt32) (hashes : UInt32 → List Hash)
  | expirePeer (i j : N) (order : List Hash)
  | negotiate (i j : N) (p : Peer)
  | others (i : N) (w : Whisper)

namespace Mesh

variable {N : Type} [DecidableEq N]

def start (cfg : N → Config) : Mesh N where
  node i := new (cfg i)

/-- The node `i` becomes `w`, and turns the hashes `turned` away. -/
def setNode (s : Mesh N) (i : N) (w : Whisper) (turned : Finset Hash) : Mesh N :=
  { s with
    node := Function.update s.node i w
    lost := Function.update s.lost i
      (s.lost i ∪ turned ∪ ((s.node i).envelopes.keys \ w.envelopes.keys)) }

def setLoop (s : Mesh N) (i j : N) (l : Option Loop) : Mesh N :=
  { s with loops := Function.update s.loops i (Function.update (s.loops i) j l) }

def setWire (s : Mesh N) (i j : N) (packets : List Packet) : Mesh N :=
  { s with wire := Function.update s.wire i (Function.update (s.wire i) j packets) }

/-- The node `i` calls `Send`. -/
def send (C : Crypto) (s : Mesh N) (i : N) (now : UInt32) (e : Envelope) : Mesh N :=
  { s.setNode i ((s.node i).send C now e).1 ∅ with
    injected :=
      if ((s.node i).send C now e).2 = none then s.injected ++ [e] else s.injected }

/-- The two nodes are connected, with the records `p` and `q` after their handshakes.  What an
earlier connection has left is gone. -/
def connect (s : Mesh N) (i j : N) (p q : Peer) : Mesh N :=
  (((s.setLoop i j (some { peer := p })).setLoop j i (some { peer := q })).setWire i j []).setWire
    j i []

/-- The node `i` broadcasts to `j`, for which it has the loop `l`. -/
def broadcast (C : Crypto) (s : Mesh N) (i j : N) (l : Loop) (order : List Hash)
    (written : Bool) : Mesh N :=
  let out := l.peer.broadcast C (s.node i) order written
  ((s.setNode i out.2.1 ∅).setLoop i j (some { l with peer := out.1 })).setWire i j
    (s.wire i j ++ out.2.2.toList)

/-- The loop `l` of `i` does its next job. -/
def work (C : Crypto) (s : Mesh N) (i j : N) (l : Loop) (now : UInt32) (sync : Option GoError) :
    Mesh N :=
  let after := l.work C now sync (s.node i)
  (s.setNode i after.1 (l.turnedAway C now (s.node i))).setLoop i j (some after.2)

end Mesh

/-- The steps.  Only bundles whose length has 32 bits are written, and envelopes that are sent have
their own hash.  Bundles are written by `broadcast`; packets with other codes are written at any
time.  The other goroutines of a node change what it asks for, its queues and its feed, but not its
pool; the processors only take envelopes from the queue. -/
def MeshStep {N : Type} [DecidableEq N] (C : Crypto) (s : Mesh N) :
    MeshAction N → Mesh N → Prop
  | .send i now e, t => e.HashSound C ∧ t = s.send C i now e
  | .connect i j p q, t => i ≠ j ∧ p.known = ∅ ∧ q.known = ∅ ∧ t = s.connect i j p q
  | .disconnect i j, t => t = s.setLoop i j none
  | .broadcast i j order written, t => ∃ l, s.loops i j = some l ∧
    IsOrder (s.node i).envelopes.keys order ∧
    (written = true →
      (Peer.bundlePacket (l.peer.bundle C (s.node i) order)).payload.length < 2 ^ 32) ∧
    t = s.broadcast C i j l order written
  | .transmit i j packet, t => packet.code ≠ messagesCode ∧
    t = s.setWire i j (s.wire i j ++ [packet])
  | .read i j, t => ∃ l packet rest, s.loops i j = some l ∧ l.jobs = [] ∧ l.returned = none ∧
    s.wire j i = packet :: rest ∧
    t = (s.setLoop i j (some (l.read C (s.node i) packet))).setWire j i rest
  | .work i j now sync, t => ∃ l, s.loops i j = some l ∧ l.jobs ≠ [] ∧
    t = s.work C i j l now sync
  | .expire i now seconds hashes, t => (s.node i).Orders seconds hashes ∧
    ∃ w, (s.node i).expire now seconds hashes = some w ∧ t = s.setNode i w ∅
  | .expirePeer i j order, t => ∃ l, s.loops i j = some l ∧ IsOrder l.peer.known order ∧
    t = s.setLoop i j (some { l with peer := l.peer.expire (s.node i) order })
  | .negotiate i j p, t => ∃ l, s.loops i j = some l ∧ p.known = l.peer.known ∧
    t = s.setLoop i j (some { l with peer := p })
  | .others i w, t => w.envelopes = (s.node i).envelopes ∧
    w.expirations = (s.node i).expirations ∧ w.messageQueue <:+ (s.node i).messageQueue ∧
    t = s.setNode i w ∅

/-! ### Where the envelopes come from -/

/-- The envelope has its own hash and the fields of one that was given to `Send`. -/
def Envelope.Authentic (C : Crypto) (injected : List Envelope) (e : Envelope) : Prop :=
  e.HashSound C ∧ ∃ e₀ ∈ injected, e.SameFields e₀

namespace Envelope.Authentic

variable {C : Crypto} {injected : List Envelope} {e e' : Envelope}

theorem mono (h : e.Authentic C injected) {more : List Envelope} (hmore : injected ⊆ more) :
    e.Authentic C more := by
  obtain ⟨hsound, e₀, he₀, hfields⟩ := h
  exact ⟨hsound, e₀, hmore he₀, hfields⟩

theorem received (h : e.Authentic C injected) : (e.received C).Authentic C injected :=
  ⟨received_hashSound C e, h.2⟩

theorem check (h : e.Authentic C injected) {settings : Settings} {now : UInt32}
    (hcheck : settings.check C now e = .ok (some e')) : e'.Authentic C injected := by
  obtain ⟨rfl, -⟩ := Settings.check_some_iff.mp hcheck
  obtain ⟨hsound, e₀, he₀, hfields⟩ := h
  refine ⟨(hsound.adjust now).fill, e₀, he₀, ?_⟩
  rw [adjust_eq]
  exact hfields

end Envelope.Authentic

/-- What the parts of the network hold is in `P`. -/
structure Whisper.Holds (C : Crypto) (P : Envelope → Prop) (w : Whisper) : Prop where
  consistent : w.Consistent C
  pooled : ∀ k e, w.envelopes.lookup k = some e → P e
  queued : ∀ e ∈ w.messageQueue, P e

structure Loop.Holds (P : Envelope → Prop) (l : Loop) : Prop where
  added : ∀ e, Job.add e ∈ l.jobs → P e
  announced : ∀ e isP2P, Job.announce e isP2P ∈ l.jobs → P e

def Packet.Holds (P : Envelope → Prop) (packet : Packet) : Prop :=
  packet.code = messagesCode → ∃ bundle, packet = Peer.bundlePacket bundle ∧
    packet.payload.length < 2 ^ 32 ∧ ∀ e ∈ bundle, P e

section Holds

variable {C : Crypto} {P : Envelope → Prop}

theorem Whisper.Holds.insert {w : Whisper} (h : w.Holds C P) {e : Envelope} (he : P e)
    (hnew : e.hash C ∉ w.envelopes) : (w.insert C e).Holds C P where
  consistent := insert_consistent h.consistent hnew
  pooled k e' hk := by
    obtain ⟨-, rfl⟩ | ⟨-, hk⟩ := lookup_insert_iff.mp hk
    · exact he
    · exact h.pooled k e' hk
  queued := h.queued

theorem Whisper.Holds.announce {w : Whisper} (h : w.Holds C P) {e : Envelope} (he : P e)
    (isP2P : Bool) : (w.announce C e isP2P).Holds C P where
  consistent := h.consistent.congr (announce_envelopes ..) (announce_expirations ..)
  pooled k e' hk := by
    rw [announce_envelopes] at hk
    exact h.pooled k e' hk
  queued e' he' := by
    rw [announce_messageQueue] at he'
    split at he'
    · exact h.queued e' he'
    · obtain he' | he' := List.mem_append.mp he'
      · exact h.queued e' he'
      · rw [List.mem_singleton.mp he']
        exact he

theorem Whisper.Holds.add {w : Whisper} (h : w.Holds C P) {now : UInt32} {e : Envelope}
    (he : ∀ e', w.settings.check C now e = .ok (some e') → P e') (isP2P : Bool) :
    (w.add C now e isP2P).1.Holds C P := by
  obtain hsame | ⟨e', hcheck, hhash, -, -, hnew, hadd⟩ := add_cases C w now e isP2P
  · rw [hsame]
    exact h
  · rw [hadd]
    exact (h.insert (he e' hcheck) (hhash ▸ hnew)).announce (he e' hcheck) isP2P

theorem Whisper.Holds.others {w w' : Whisper} (h : w.Holds C P) (henv : w'.envelopes = w.envelopes)
    (hexp : w'.expirations = w.expirations) (hqueue : w'.messageQueue <:+ w.messageQueue) :
    w'.Holds C P where
  consistent := h.consistent.congr henv hexp
  pooled := by rw [henv]; exact h.pooled
  queued e he := h.queued e (hqueue.subset he)

theorem Whisper.Holds.expire {w w' : Whisper} (h : w.Holds C P) {now : UInt32}
    {seconds : List UInt32} {hashes : UInt32 → List Hash} (ho : w.Orders seconds hashes)
    (hexpire : w.expire now seconds hashes = some w') : w'.Holds C P := by
  obtain ⟨heq, hcons⟩ := expire_eq h.consistent ho now
  rw [heq] at hexpire
  cases hexpire
  refine ⟨hcons, fun k e hk => ?_, h.queued⟩
  rw [lookup_afterExpire h.consistent ho] at hk
  exact h.pooled k e (Option.filter_eq_some_iff.mp hk).1

theorem Loop.Holds.of_subset {l l' : Loop} (h : l.Holds P) (hjobs : l'.jobs ⊆ l.jobs) :
    l'.Holds P :=
  ⟨fun e he => h.added e (hjobs he), fun e isP2P he => h.announced e isP2P (hjobs he)⟩

theorem Loop.Holds.push {l : Loop} (h : l.Holds P) {jobs : List Job}
    (hadd : ∀ e, Job.add e ∉ jobs) (hannounce : ∀ e isP2P, Job.announce e isP2P ∈ jobs → P e) :
    (l.push jobs).Holds P where
  added e he := by
    obtain he | he := List.mem_append.mp he
    · exact absurd he (hadd e)
    · exact h.added e he
  announced e isP2P he := by
    obtain he | he := List.mem_append.mp he
    · exact hannounce e isP2P he
    · exact h.announced e isP2P he

/-- The job `add`, of an envelope that is in `P` when the checks let it through. -/
theorem Loop.Holds.add {w : Whisper} {l : Loop} (hl : l.Holds P) (hw : w.Holds C P) {now : UInt32}
    {e : Envelope} (he : ∀ e', w.settings.check C now e = .ok (some e') → P e') :
    (l.add C now w e).1.Holds C P ∧ (l.add C now w e).2.Holds P := by
  unfold Loop.add
  split
  · rename_i err _
    have hrefused : (l.refuse C e (err.value C w.settings now e)).Holds P :=
      ⟨hl.added, hl.announced⟩
    exact ⟨hw, hrefused.push (by simp) (by simp)⟩
  · exact ⟨hw, hl.push (by simp) (by simp)⟩
  · rename_i e' hcheck
    split
    · exact ⟨hw, hl.push (by simp) (by simp)⟩
    · rename_i hnew
      refine ⟨hw.insert (he e' hcheck) hnew, hl.push (by simp) ?_⟩
      intro x isP2P hx
      simp only [List.mem_cons, Job.announce.injEq, reduceCtorEq, List.not_mem_nil, or_self,
        or_false] at hx
      rw [hx.1]
      exact he e' hcheck

/-- A job is done on what the node and the loop hold. -/
theorem Loop.Holds.work {w : Whisper} {l : Loop} (hl : l.Holds P) (hw : w.Holds C P)
    (now : UInt32) (hclosed : ∀ e e', P e → w.settings.check C now e = .ok (some e') → P e')
    (sync : Option GoError) :
    (l.work C now sync w).1.Holds C P ∧ (l.work C now sync w).2.Holds P := by
  cases hjobs : l.jobs with
  | nil =>
    have hsame : l.work C now sync w = (w, l) := by simp only [Loop.work, hjobs]
    rw [hsame]
    exact ⟨hw, hl⟩
  | cons job rest =>
    have hrest : ({ l with jobs := rest } : Loop).Holds P :=
      hl.of_subset fun j hj => by rw [hjobs]; exact List.mem_cons_of_mem _ hj
    have hhead : job ∈ l.jobs := by rw [hjobs]; exact List.mem_cons_self
    have hnode : (l.work C now sync w).1.Holds C P := by
      simp only [Loop.work, hjobs]
      cases job with
      | add e => exact (hrest.add hw fun e' => hclosed e e' (hl.added e hhead)).1
      | announce e isP2P => exact hw.announce (hl.announced e isP2P hhead) isP2P
      | _ => exact hw.others rfl rfl (List.suffix_refl _)
    refine ⟨hnode, ?_⟩
    obtain htail | ⟨hnone, -⟩ | ⟨e, rest', mid, hadd, -⟩ := (work_leaves C now sync w l).jobs_cases
    · exact hl.of_subset (by rw [htail]; exact List.tail_subset _)
    · exact hl.of_subset (by rw [hnone]; exact List.nil_subset _)
    · cases hjobs.symm.trans hadd
      have hwork : (l.work C now sync w).2 = ({ l with jobs := rest }.add C now w e).2 := by
        simp only [Loop.work, hjobs, perform]
      rw [hwork]
      exact (hrest.add hw fun e' => hclosed e e' (hl.added e hhead)).2

/-- A bundle gives the envelopes in it to `add`. -/
theorem Loop.Holds.read {l : Loop} {w : Whisper} {packet : Packet} (hpacket : packet.Holds P)
    (hclosed : ∀ e, P e → P (e.received C)) : (l.read C w packet).Holds P := by
  have hadd : ∀ e, Job.add e ∈ (l.read C w packet).jobs → P e := by
    intro e he
    obtain ⟨p, -, hyields⟩ := mem_read_jobs he
    cases hyields with
    | add _ hcode _ =>
      obtain ⟨bundle, rfl, hlen, hbundle⟩ := hpacket hcode
      obtain hnone | ⟨hjobs, -⟩ := read_bundle C w l hlen
      · rw [hnone] at he
        cases he
      · rw [hjobs] at he
        simp only [List.map_map, List.mem_append, List.mem_map, List.mem_cons, List.not_mem_nil,
          or_false, reduceCtorEq, Function.comp_apply, Job.add.injEq] at he
        obtain ⟨e, he, rfl⟩ := he
        exact hclosed e (hbundle e he)
  refine ⟨hadd, fun e isP2P he => ?_⟩
  obtain ⟨p, -, hyields⟩ := mem_read_jobs he
  cases hyields

end Holds

namespace Mesh

section Setters

variable {N : Type} [DecidableEq N] (s : Mesh N) (i j a b : N)

theorem node_setNode (w : Whisper) (turned : Finset Hash) :
    (s.setNode i w turned).node a = if a = i then w else s.node a :=
  Function.update_apply ..

theorem lost_setNode (w : Whisper) (turned : Finset Hash) :
    (s.setNode i w turned).lost a = if a = i then
      s.lost i ∪ turned ∪ ((s.node i).envelopes.keys \ w.envelopes.keys) else s.lost a :=
  Function.update_apply ..

theorem update_update_apply {V : Type} (f : N → N → V) (v : V) :
    Function.update f i (Function.update (f i) j v) a b =
      if a = i ∧ b = j then v else f a b := by
  by_cases ha : a = i
  · subst ha
    simp [Function.update_apply]
  · simp [ha]

theorem loops_setLoop (l : Option Loop) :
    (s.setLoop i j l).loops a b = if a = i ∧ b = j then l else s.loops a b :=
  update_update_apply ..

theorem wire_setWire (packets : List Packet) :
    (s.setWire i j packets).wire a b = if a = i ∧ b = j then packets else s.wire a b :=
  update_update_apply ..

end Setters

/-- Every envelope in the network has come from `Send`. -/
structure Genuine {N : Type} (C : Crypto) (s : Mesh N) : Prop where
  node : ∀ i, (s.node i).Holds C (Envelope.Authentic C s.injected)
  loop : ∀ i j l, s.loops i j = some l → l.Holds (Envelope.Authentic C s.injected)
  wire : ∀ i j, ∀ packet ∈ s.wire i j, packet.Holds (Envelope.Authentic C s.injected)

theorem Genuine.bundle {N : Type} {C : Crypto} {s : Mesh N} (h : s.Genuine C) {i : N}
    {p : Peer} {order : List Hash} {e : Envelope} (he : e ∈ p.bundle C (s.node i) order) :
    e.Authentic C s.injected := by
  obtain ⟨⟨k, -, hlookup⟩, -⟩ := Peer.mem_bundle.mp he
  exact (h.node i).pooled k e hlookup

theorem start_genuine {N : Type} (C : Crypto) (cfg : N → Config) : (start cfg).Genuine C where
  node i :=
    { consistent := Whisper.new_consistent C (cfg i)
      pooled := by simp [start, new]
      queued := by simp [start, new] }
  loop i j l hl := by cases hl
  wire i j packet hpacket := by cases hpacket

section Genuine

variable {N : Type} [DecidableEq N] {C : Crypto} {s : Mesh N}

theorem Genuine.setNode (h : s.Genuine C) {i : N} {w : Whisper} (turned : Finset Hash)
    (hw : w.Holds C (Envelope.Authentic C s.injected)) : (s.setNode i w turned).Genuine C where
  node a := by
    rw [node_setNode]
    split
    · exact hw
    · exact h.node a
  loop := h.loop
  wire := h.wire

theorem Genuine.setLoop (h : s.Genuine C) (i j : N) {l : Option Loop}
    (hl : ∀ l', l = some l' → l'.Holds (Envelope.Authentic C s.injected)) :
    (s.setLoop i j l).Genuine C where
  node := h.node
  loop a b l' hl' := by
    rw [loops_setLoop] at hl'
    split at hl'
    · exact hl l' hl'
    · exact h.loop a b l' hl'
  wire := h.wire

theorem Genuine.setWire (h : s.Genuine C) (i j : N) {packets : List Packet}
    (hpackets : ∀ packet ∈ packets, packet.Holds (Envelope.Authentic C s.injected)) :
    (s.setWire i j packets).Genuine C where
  node := h.node
  loop := h.loop
  wire a b packet hpacket := by
    rw [wire_setWire] at hpacket
    split at hpacket
    · exact hpackets packet hpacket
    · exact h.wire a b packet hpacket

/-- A packet that is no bundle carries no envelopes for the pool. -/
theorem Genuine.transmit (h : s.Genuine C) (i j : N) {packet : Packet}
    (hcode : packet.code ≠ messagesCode) :
    (s.setWire i j (s.wire i j ++ [packet])).Genuine C := by
  refine h.setWire i j fun x hx => ?_
  obtain hx | hx := List.mem_append.mp hx
  · exact h.wire i j x hx
  · rw [List.mem_singleton.mp hx]
    exact fun hmessages => absurd hmessages hcode

theorem Genuine.send (h : s.Genuine C) (i : N) (now : UInt32) {e : Envelope}
    (he : e.HashSound C) : (s.send C i now e).Genuine C := by
  have hmore : s.injected ⊆ (s.send C i now e).injected := by
    show s.injected ⊆ ite _ _ _
    split
    · exact List.subset_append_left _ _
    · exact fun x hx => hx
  have hnode : ∀ a, (s.node a).Holds C (Envelope.Authentic C (s.send C i now e).injected) :=
    fun a => ⟨(h.node a).consistent, fun k x hx => ((h.node a).pooled k x hx).mono hmore,
      fun x hx => ((h.node a).queued x hx).mono hmore⟩
  refine ⟨fun a => ?_, fun a b l hl => ?_, fun a b packet hpacket hcode => ?_⟩
  · show ((s.setNode i ((s.node i).send C now e).1 ∅).node a).Holds C _
    rw [node_setNode]
    split
    · refine (hnode i).add (fun e' hcheck => ?_) false
      -- what the checks let through is injected
      have hsent : ((s.node i).send C now e).2 = none :=
        Whisper.send_eq_none_iff.mpr (Whisper.add_cached_iff.mpr ⟨e', hcheck⟩)
      have hinjected : (s.send C i now e).injected = s.injected ++ [e] := if_pos hsent
      have hauthentic : e.Authentic C (s.send C i now e).injected :=
        ⟨he, e, by simp [hinjected], rfl, rfl, rfl, rfl, rfl⟩
      exact hauthentic.check hcheck
    · exact hnode a
  · obtain ⟨hadded, hannounced⟩ := h.loop a b l hl
    exact ⟨fun x hx => (hadded x hx).mono hmore,
      fun x isP2P hx => (hannounced x isP2P hx).mono hmore⟩
  · obtain ⟨bundle, heq, hlen, hbundle⟩ := h.wire a b packet hpacket hcode
    exact ⟨bundle, heq, hlen, fun x hx => (hbundle x hx).mono hmore⟩

theorem Genuine.broadcast (h : s.Genuine C) {i j : N} {l : Loop} (hl : s.loops i j = some l)
    {order : List Hash} {written : Bool} (hlen : written = true →
      (Peer.bundlePacket (l.peer.bundle C (s.node i) order)).payload.length < 2 ^ 32) :
    (s.broadcast C i j l order written).Genuine C := by
  have hpackets : ∀ packet ∈ (l.peer.broadcast C (s.node i) order written).2.2,
      packet.Holds (Envelope.Authentic C s.injected) := by
    intro packet hpacket _
    obtain ⟨-, hwritten, rfl⟩ := Peer.broadcast_packet.mp hpacket
    exact ⟨_, rfl, hlen hwritten, fun e he => h.bundle he⟩
  have hnode : (l.peer.broadcast C (s.node i) order written).2.1.Holds C
      (Envelope.Authentic C s.injected) := by
    obtain ⟨-, heq⟩ | ⟨-, -, heq⟩ := l.peer.broadcast_cases C (s.node i) order written
    · rw [heq]
      exact h.node i
    · rw [heq]
      exact (h.node i).others rfl rfl (List.suffix_refl _)
  have hloop := h.loop i j l hl
  refine ((h.setNode ∅ hnode).setLoop i j ?_).setWire i j ?_
  · intro l' hl'
    cases hl'
    exact ⟨hloop.added, hloop.announced⟩
  · intro packet hpacket
    obtain hpacket | hpacket := List.mem_append.mp hpacket
    · exact h.wire i j packet hpacket
    · exact hpackets packet (Option.mem_toList.mp hpacket)

theorem Genuine.step (h : s.Genuine C) {a : MeshAction N} {t : Mesh N} (hstep : MeshStep C s a t) :
    t.Genuine C := by
  cases a with
  | send i now e =>
    obtain ⟨he, rfl⟩ := hstep
    exact h.send i now he
  | connect i j p q =>
    obtain ⟨-, -, -, rfl⟩ := hstep
    have hnew : ∀ p : Peer, ∀ l', some ({ peer := p } : Loop) = some l' →
        l'.Holds (Envelope.Authentic C s.injected) := by
      intro p l' hl'
      cases hl'
      exact ⟨fun e he => absurd he List.not_mem_nil, fun e isP2P he => absurd he List.not_mem_nil⟩
    exact (((h.setLoop i j (hnew p)).setLoop j i (hnew q)).setWire i j (by simp)).setWire j i
      (by simp)
  | disconnect i j =>
    cases hstep
    exact h.setLoop i j fun l' hl' => by cases hl'
  | broadcast i j order written =>
    obtain ⟨l, hl, -, hlen, rfl⟩ := hstep
    exact h.broadcast hl hlen
  | transmit i j packet =>
    obtain ⟨hcode, rfl⟩ := hstep
    exact h.transmit i j hcode
  | read i j =>
    obtain ⟨l, packet, rest, -, -, -, hwire, rfl⟩ := hstep
    have hheld : ∀ x ∈ packet :: rest, x.Holds (Envelope.Authentic C s.injected) := by
      rw [← hwire]
      exact h.wire j i
    refine (h.setLoop i j fun l' hl' => ?_).setWire j i fun x hx => ?_
    · cases hl'
      exact .read (hheld packet List.mem_cons_self) fun e he => he.received
    · exact hheld x (List.mem_cons_of_mem _ hx)
  | work i j now sync =>
    obtain ⟨l, hl, -, rfl⟩ := hstep
    obtain ⟨hnode, hloop⟩ := (h.loop i j l hl).work (h.node i) now
      (fun e e' he hcheck => he.check hcheck) sync
    refine (h.setNode _ hnode).setLoop i j fun l' hl' => ?_
    cases hl'
    exact hloop
  | expire i now seconds hashes =>
    obtain ⟨ho, w, hw, rfl⟩ := hstep
    exact h.setNode ∅ ((h.node i).expire ho hw)
  | expirePeer i j order =>
    obtain ⟨l, hl, -, rfl⟩ := hstep
    refine h.setLoop i j fun l' hl' => ?_
    cases hl'
    exact (h.loop i j l hl).of_subset fun x hx => hx
  | negotiate i j p =>
    obtain ⟨l, hl, -, rfl⟩ := hstep
    refine h.setLoop i j fun l' hl' => ?_
    cases hl'
    exact (h.loop i j l hl).of_subset fun x hx => hx
  | others i w =>
    obtain ⟨henv, hexp, hqueue, rfl⟩ := hstep
    exact h.setNode ∅ ((h.node i).others henv hexp hqueue)

theorem run_genuine {cfg : N → Config} {acts : List (MeshAction N)}
    (run : Run (MeshStep C) (start cfg) acts s) : s.Genuine C :=
  run.invariant (start_genuine C cfg) fun _ _ _ _ hs hstep => hs.step hstep

/-- Only a call of `Send` that succeeds injects an envelope. -/
theorem injected_cases {a : MeshAction N} {t : Mesh N} (h : MeshStep C s a t) :
    t.injected = s.injected ∨ ∃ i now e, a = .send i now e ∧ e.HashSound C ∧
      ((s.node i).send C now e).2 = none ∧ t.injected = s.injected ++ [e] := by
  cases a with
  | send i now e =>
    obtain ⟨he, rfl⟩ := h
    unfold send
    dsimp only
    split
    · rename_i hnone
      exact .inr ⟨i, now, e, rfl, he, hnone, rfl⟩
    · exact .inl rfl
  | connect i j p q =>
    obtain ⟨-, -, -, rfl⟩ := h
    exact .inl rfl
  | disconnect i j =>
    cases h
    exact .inl rfl
  | broadcast i j order written =>
    obtain ⟨l, -, -, -, rfl⟩ := h
    exact .inl rfl
  | transmit i j packet =>
    obtain ⟨-, rfl⟩ := h
    exact .inl rfl
  | read i j =>
    obtain ⟨l, packet, rest, -, -, -, -, rfl⟩ := h
    exact .inl rfl
  | work i j now sync =>
    obtain ⟨l, -, -, rfl⟩ := h
    exact .inl rfl
  | expire i now seconds hashes =>
    obtain ⟨-, w, -, rfl⟩ := h
    exact .inl rfl
  | expirePeer i j order =>
    obtain ⟨l, -, -, rfl⟩ := h
    exact .inl rfl
  | negotiate i j p =>
    obtain ⟨l, -, -, rfl⟩ := h
    exact .inl rfl
  | others i w =>
    obtain ⟨-, -, -, rfl⟩ := h
    exact .inl rfl

/-- In the run, `Send` has returned no error for the envelope at the node `i`. -/
def Accepted (C : Crypto) (cfg : N → Config) (acts : List (MeshAction N)) (i : N) (now : UInt32)
    (e : Envelope) : Prop :=
  ∃ before after s, acts = before ++ .send i now e :: after ∧
    Run (MeshStep C) (start cfg) before s ∧ ((s.node i).send C now e).2 = none

theorem run_injected {cfg : N → Config} {acts : List (MeshAction N)}
    (run : Run (MeshStep C) (start cfg) acts s) {e : Envelope} (he : e ∈ s.injected) :
    e.HashSound C ∧ ∃ i now, Accepted C cfg acts i now e := by
  obtain ⟨before, a, after, u, v, rfl, hbefore, hstep, -, hnew, hinjected⟩ :=
    run.turns (P := (e ∈ Mesh.injected ·)) (fun h => by cases h) he
  obtain hsame | ⟨i, now, e', rfl, hsound, hnone, hmore⟩ := injected_cases hstep
  · rw [hsame] at hinjected
    exact absurd hinjected hnew
  · rw [hmore] at hinjected
    obtain h | h := List.mem_append.mp hinjected
    · exact absurd h hnew
    · cases List.mem_singleton.mp h
      exact ⟨hsound, i, now, before, after, u, rfl, hbefore, hnone⟩

/-- Whatever the nodes do, in any order and over any connections: an envelope that a node has in its
pool, or in the queue for its filters, has the fields and the hash of one that `Send` has accepted
at some node. -/
theorem pooled_was_sent (C : Crypto) (cfg : N → Config) {acts : List (MeshAction N)} {s : Mesh N}
    (run : Run (MeshStep C) (start cfg) acts s) (i : N) :
    (∀ k e, (s.node i).envelopes.lookup k = some e →
      ∃ j now e₀, Accepted C cfg acts j now e₀ ∧ e.SameFields e₀ ∧ e.hash C = k ∧
        e₀.hash C = k) ∧
    ∀ e ∈ (s.node i).messageQueue, ∃ j now e₀, Accepted C cfg acts j now e₀ ∧
      e.SameFields e₀ ∧ e₀.hash C = e.hash C := by
  have hauthentic : ∀ e : Envelope, e.Authentic C s.injected →
      ∃ j now e₀, Accepted C cfg acts j now e₀ ∧ e.SameFields e₀ ∧ e₀.hash C = e.hash C := by
    rintro e ⟨hsound, e₀, he₀, hfields⟩
    obtain ⟨hsound₀, j, now, haccepted⟩ := run_injected run he₀
    refine ⟨j, now, e₀, haccepted, hfields, ?_⟩
    rw [hsound.hash_eq, hsound₀.hash_eq]
    show C.keccak256Hash e₀.bare.encode = C.keccak256Hash e.bare.encode
    rw [hfields.bare_eq]
  obtain ⟨hcons, hpooled, hqueued⟩ := (run_genuine run).node i
  refine ⟨fun k e hk => ?_, fun e he => hauthentic e (hqueued e he)⟩
  obtain ⟨j, now, e₀, haccepted, hfields, hhash⟩ := hauthentic e (hpooled k e hk)
  have hkey := (hcons.pooled k e hk).1
  exact ⟨j, now, e₀, haccepted, hfields, hkey, hhash.trans hkey⟩

end Genuine

/-- Two connected nodes, the first of which has sent the sample envelope. -/
def pairMesh : Mesh Bool :=
  ((start fun _ => {}).connect false true { id := 1 } { id := 2 }).send sampleCrypto false
    1600000000 sampleEnvelope

/-- The network after a broadcast of the first node, before the second one has read it. -/
def pairOffered : Mesh Bool :=
  pairMesh.broadcast sampleCrypto false true { peer := { id := 1 } }
    [sampleEnvelope.hash sampleCrypto] true

/-- The network after the second node has read the bundle. -/
def pairRead : Mesh Bool :=
  (pairOffered.setLoop true false (some (({ peer := { id := 2 } } : Loop).read sampleCrypto (new {})
    (Peer.bundlePacket [sampleEnvelope])))).setWire false true []

/-- The next job of the second node. -/
def pairWork (s : Mesh Bool) : Mesh Bool :=
  match s.loops true false with
  | none => s
  | some l => s.work sampleCrypto true false l 1600000000 none

/-- The network after the second node has handled the bundle. -/
def pairSettled : Mesh Bool := pairWork^[6] pairRead

theorem pairWork_step {s : Mesh Bool} (h : ((s.loops true false).map Loop.jobs).getD [] ≠ []) :
    MeshStep sampleCrypto s (.work true false 1600000000 none) (pairWork s) := by
  unfold pairWork
  cases hl : s.loops true false with
  | none =>
    rw [hl] at h
    exact absurd rfl h
  | some l =>
    rw [hl] at h
    exact ⟨l, hl, h, rfl⟩

theorem pairOffered_run : Run (MeshStep sampleCrypto) (start fun _ => {})
    [.connect false true { id := 1 } { id := 2 }, .send false 1600000000 sampleEnvelope,
      .broadcast false true [sampleEnvelope.hash sampleCrypto] true] pairOffered :=
  .cons ⟨by decide, rfl, rfl, rfl⟩ (.cons ⟨.inl rfl, rfl⟩ (.cons
    ⟨_, rfl, by decide +kernel, fun _ => by decide +kernel, rfl⟩ (.nil _)))

theorem pairSettled_run : Run (MeshStep sampleCrypto) (start fun _ => {})
    ([.connect false true { id := 1 } { id := 2 }, .send false 1600000000 sampleEnvelope,
      .broadcast false true [sampleEnvelope.hash sampleCrypto] true] ++
      .read true false :: List.replicate 6 (.work true false 1600000000 none)) pairSettled := by
  refine pairOffered_run.append (.cons (t := pairRead) ⟨{ peer := { id := 2 } },
    Peer.bundlePacket [sampleEnvelope], [], by decide +kernel, rfl, rfl, by decide +kernel, rfl⟩ ?_)
  refine .cons (pairWork_step (by decide +kernel)) (.cons (pairWork_step (by decide +kernel)) ?_)
  refine .cons (pairWork_step (by decide +kernel)) (.cons (pairWork_step (by decide +kernel)) ?_)
  exact .cons (pairWork_step (by decide +kernel)) (.cons (pairWork_step (by decide +kernel))
    (.nil _))

/-- The envelope that the second node has is the one that the first node has sent. -/
theorem pooled_was_sent_pair : ∃ e, (pairSettled.node true).envelopes.lookup
      (sampleEnvelope.hash sampleCrypto) = some e ∧ e.SameFields sampleEnvelope ∧
    ∃ s : Mesh Bool, ((s.node false).send sampleCrypto 1600000000 sampleEnvelope).2 = none := by
  have hpooled : sampleEnvelope.hash sampleCrypto ∈ (pairSettled.node true).envelopes := by
    decide +kernel
  obtain ⟨e, he⟩ := Finmap.mem_iff.mp hpooled
  obtain ⟨j, now, e₀, ⟨before, after, s, hacts, -, hnone⟩, hfields, -⟩ :=
    (pooled_was_sent sampleCrypto (fun _ => {}) pairSettled_run true).1 _ e he
  have hsend : MeshAction.send j now e₀ ∈ before ++ .send j now e₀ :: after := by simp
  rw [← hacts] at hsend
  simp only [List.replicate, List.cons_append, List.nil_append, List.mem_cons, reduceCtorEq,
    MeshAction.send.injEq, List.not_mem_nil, or_false, false_or] at hsend
  obtain ⟨rfl, rfl, rfl⟩ := hsend
  exact ⟨e, he, hfields, s, hnone⟩

end Mesh

end Whisperv6
