import Whisperv6.Echo

/-! What a peer is known to hold.  A hash becomes known when a bundle with it was written or when
`add` has accepted it from the peer, and `Peer.expire` should forget the hashes that have left the
pool. -/

namespace Whisperv6

open ProofKit

/-! ### What `expire` forgets -/

namespace Peer

/-- The known hashes after `expire` are those that are still pooled. -/
def ForgetsStale (p : Peer) (w : Whisper) (order : List Hash) : Prop :=
  (p.expire w order).known = p.known.filter (· ∈ w.envelopes)

/-- For one order, exactly when every stale hash is the one that is visited first. -/
theorem forgetsStale_order_iff {p : Peer} {w : Whisper} {order : List Hash}
    (ho : IsOrder p.known order) :
    p.ForgetsStale w order ↔ ∀ h ∈ order.tail, h ∈ w.envelopes := by
  have hiff : p.ForgetsStale w order ↔
      ∀ h ∈ p.known, (order.head? = some h → h ∈ w.envelopes) → h ∈ w.envelopes := by
    simp only [ForgetsStale, Finset.ext_iff, mem_known_expire_iff, Finset.mem_filter]
    constructor
    · intro hall h hknown hhead
      exact ((hall h).mp ⟨hknown, hhead⟩).2
    · intro hall h
      constructor
      · intro hleft
        exact ⟨hleft.1, hall h hleft.1 hleft.2⟩
      · intro hright
        exact ⟨hright.1, fun _ => hright.2⟩
  rw [hiff]
  obtain ⟨hnodup, hmem⟩ := ho
  cases order with
  | nil =>
    refine iff_of_true (fun h hknown => ?_) fun h hh => absurd hh List.not_mem_nil
    exact absurd ((hmem h).mpr hknown) List.not_mem_nil
  | cons k rest =>
    rw [List.nodup_cons] at hnodup
    rw [List.tail_cons]
    constructor
    · intro hall h hrest
      refine hall h ((hmem h).mp (List.mem_cons_of_mem _ hrest)) fun hhead => ?_
      rw [List.head?_cons, Option.some.injEq] at hhead
      exact absurd (hhead ▸ hrest) hnodup.1
    · intro hall h hknown hhead
      rcases List.mem_cons.mp ((hmem h).mpr hknown) with rfl | hrest
      · exact hhead rfl
      · exact hall h hrest

/-- `expire` forgets everything stale in an order exactly when every hash that is not visited first
is pooled, and it does so in all orders exactly when nothing is stale or at most one hash is
known. -/
theorem forgetsStale_iff (p : Peer) (w : Whisper) :
    (∀ order, IsOrder p.known order →
      (p.ForgetsStale w order ↔ ∀ h ∈ order.tail, h ∈ w.envelopes)) ∧
    ((∀ order, IsOrder p.known order → p.ForgetsStale w order) ↔
      (∀ h ∈ p.known, h ∈ w.envelopes) ∨ p.known.card ≤ 1) := by
  refine ⟨fun order ho => forgetsStale_order_iff ho, ?_, ?_⟩
  · intro hall
    by_contra hnot
    rw [not_or, not_forall] at hnot
    obtain ⟨⟨h, hh⟩, hcard⟩ := hnot
    obtain ⟨hknown, hstale⟩ := Classical.not_imp.mp hh
    -- An order that visits another known hash before the stale one.
    obtain ⟨k, hk, hne⟩ := Finset.exists_mem_ne (not_le.mp hcard) h
    obtain ⟨rest, ho, -⟩ := exists_isOrder_cons hk
    have hrest : h ∈ rest := by
      rcases List.mem_cons.mp (ho.mem.mpr hknown) with rfl | hrest
      · exact absurd rfl hne
      · exact hrest
    exact hstale ((forgetsStale_order_iff ho).mp (hall _ ho) h hrest)
  · rintro (hpooled | hcard) order ho
    · refine (forgetsStale_order_iff ho).mpr fun h hh => ?_
      exact hpooled h (ho.mem.mp (List.mem_of_mem_tail hh))
    · refine (forgetsStale_order_iff ho).mpr fun h hh => ?_
      have hlen := ho.length_eq
      match order, hlen, hh with
      | k :: j :: rest, hlen, _ =>
        rw [List.length_cons, List.length_cons] at hlen
        omega

theorem forgetsStale_iff_single : ({ id := 1, known := {1} } : Peer).ForgetsStale (new {}) [1] :=
  (forgetsStale_iff { id := 1, known := {1} } (new {})).2.mpr (.inr (by decide)) [1] (by decide)

/-- A peer that holds two hashes which have left the pool keeps one of them, whichever is visited
first. -/
theorem not_forgetsStale_pair :
    IsOrder ({ id := 1, known := {1, 2} } : Peer).known [1, 2] ∧
    ¬ ({ id := 1, known := {1, 2} } : Peer).ForgetsStale (new {}) [1, 2] ∧
    (({ id := 1, known := {1, 2} } : Peer).expire (new {}) [1, 2]).known = {2} ∧
    (({ id := 1, known := {1, 2} } : Peer).expire (new {}) [2, 1]).known = {1} := by
  have hfirst : (({ id := 1, known := {1, 2} } : Peer).expire (new {}) [1, 2]).known = {2} := by
    decide +kernel
  refine ⟨by decide, fun h => ?_, hfirst, by decide +kernel⟩
  rw [ForgetsStale, hfirst] at h
  have hmem : (2 : Hash) ∈ ({1, 2} : Finset Hash).filter (· ∈ (new {}).envelopes) := by
    rw [← h]
    exact Finset.mem_singleton_self 2
  exact absurd (Finset.mem_filter.mp hmem).2 Finmap.notMem_empty

end Peer

/-! ### How a hash becomes known -/

namespace Peer

/-- The pool has an envelope under the hash that the peer is not known to hold, and the envelope
meets what the peer asks for. -/
def Lacks (C : Crypto) (p : Peer) (w : Whisper) (h : Hash) : Prop :=
  ∃ e, w.envelopes.lookup h = some e ∧ h ∉ p.known ∧
    p.powRequirement.value.le (e.pow C) = true ∧ p.bloomMatch e = true

theorem mem_map_bundle_iff {C : Crypto} {p : Peer} {w : Whisper} {order : List Hash} {h : Hash}
    (hw : w.Consistent C) (ho : IsOrder w.envelopes.keys order) :
    h ∈ (p.bundle C w order).map (Envelope.hash C) ↔ p.Lacks C w h := by
  rw [List.mem_map]
  constructor
  · rintro ⟨e, he, rfl⟩
    obtain ⟨⟨k, -, hk⟩, hselects⟩ := mem_bundle.mp he
    obtain rfl : e.hash C = k := (hw.pooled k e hk).1
    exact ⟨e, hk, selects_iff.mp hselects⟩
  · rintro ⟨e, he, hunknown, hmeets⟩
    obtain rfl : e.hash C = h := (hw.pooled h e he).1
    exact ⟨e, mem_bundle_of_lookup ho he (selects_iff.mpr ⟨hunknown, hmeets⟩), rfl⟩

/-- The hashes of a bundle come in the order in which the pool is visited. -/
theorem map_bundle_sublist {C : Crypto} {p : Peer} {w : Whisper} (hw : w.Consistent C)
    (order : List Hash) : ((p.bundle C w order).map (Envelope.hash C)).Sublist order := by
  have hpooled : ((order.filterMap w.envelopes.lookup).map (Envelope.hash C)).Sublist order := by
    induction order with
    | nil => exact List.Sublist.slnil
    | cons k rest ih =>
      cases hk : w.envelopes.lookup k with
      | none =>
        rw [List.filterMap_cons, hk]
        exact ih.cons k
      | some e =>
        rw [List.filterMap_cons, hk, List.map_cons, (hw.pooled k e hk).1]
        exact ih.cons_cons k
  exact (List.filter_sublist.map _).trans hpooled

theorem sentEvents_hash (C : Crypto) (p : Peer) (bundle : List Envelope) :
    (p.sentEvents C bundle).map EnvelopeEvent.hash = bundle.map (Envelope.hash C) := by
  rw [sentEvents, List.map_map]
  rfl

/-- A broadcast whose write fails changes nothing; one whose write succeeds makes known exactly what
the peer lacks, with one event for each hash. -/
theorem broadcast_exact {C : Crypto} {p : Peer} {w : Whisper} {order : List Hash}
    (hw : w.Consistent C) (ho : IsOrder w.envelopes.keys order) :
    p.broadcast C w order false = (p, w, none) ∧
    (∀ h, h ∈ (p.broadcast C w order true).1.known ↔ h ∈ p.known ∨ p.Lacks C w h) ∧
    ∃ events, (p.broadcast C w order true).2.1 =
        { w with envelopeFeed := w.envelopeFeed ++ events } ∧
      (events.map EnvelopeEvent.hash).Nodup ∧
      (∀ h, h ∈ events.map EnvelopeEvent.hash ↔ p.Lacks C w h) ∧
      ∀ event ∈ events, event.event = .envelopeSent ∧ event.peer = p.id := by
  have hlacks : ∀ h, h ∈ (p.bundle C w order).map (Envelope.hash C) ↔ p.Lacks C w h :=
    fun h => mem_map_bundle_iff hw ho
  refine ⟨?_, ?_⟩
  · rcases p.broadcast_cases C w order false with ⟨-, heq⟩ | ⟨-, hwritten, -⟩
    · exact heq
    · cases hwritten
  · have hsucceeds : p.broadcast C w order true =
        ((p.bundle C w order).foldl (mark C) p,
          { w with envelopeFeed := w.envelopeFeed ++ p.sentEvents C (p.bundle C w order) },
          (p.broadcast C w order true).2.2) := by
      rcases p.broadcast_cases C w order true with ⟨hnone, heq⟩ | ⟨-, -, heq⟩
      · have hempty := hnone.resolve_right (by simp)
        rw [heq, hempty]
        simp [sentEvents]
      · rw [heq]
    rw [hsucceeds]
    refine ⟨fun h => ?_, p.sentEvents C (p.bundle C w order), rfl, ?_, fun h => ?_, ?_⟩
    · rw [mem_known_foldl_mark, hlacks]
    · rw [sentEvents_hash]
      exact (map_bundle_sublist hw order).nodup ho.1
    · rw [sentEvents_hash, hlacks]
    · intro event hevent
      obtain ⟨e, -, rfl⟩ := List.mem_map.mp hevent
      exact ⟨rfl, rfl⟩

end Peer

/-- A hash that is known after a peer was replaced was known before, or it is new to that peer. -/
theorem Net.known_setPeer_cases {n : Net} {i j : PeerRef} {p p' : Peer} {k : Hash}
    (hp : n.peers.lookup j = some p) (hk : k ∈ (n.setPeer j p').known i) :
    k ∈ n.known i ∨ i = j ∧ k ∈ p'.known ∧ k ∉ p.known := by
  rw [known_setPeer] at hk
  split at hk
  · rename_i hij
    subst hij
    rw [known_of_lookup hp]
    by_cases hold : k ∈ p.known
    · exact .inl hold
    · exact .inr ⟨rfl, hk, hold⟩
  · exact .inl hk

/-- A hash that is known after a step was known before, or the step marks it, or it is in a bundle
that was written to the peer. -/
theorem NetStep.known_cases {C : Crypto} {n n' : Net} {a : NetAction} (h : NetStep C n a n')
    {i : PeerRef} {k : Hash} (hk : k ∈ n'.known i) :
    k ∈ n.known i ∨ (∃ e, a = .mark i e ∧ k = e.hash C) ∨ ∃ bundle ∈ n'.sentTo i, k ∈ bundle := by
  cases a with
  | add now e isP2P =>
    cases h
    exact .inl hk
  | post event =>
    cases h
    exact .inl hk
  | mark j e =>
    obtain ⟨p, hp, rfl⟩ := h
    rcases Net.known_setPeer_cases hp hk with hold | ⟨rfl, hnew, hold⟩
    · exact .inl hold
    · exact .inr (.inl ⟨e, rfl, (Peer.mem_known_mark.mp hnew).resolve_right hold⟩)
  | expire now seconds hashes =>
    obtain ⟨-, w, -, rfl⟩ := h
    exact .inl hk
  | expirePeer j order =>
    obtain ⟨p, hp, -, rfl⟩ := h
    rcases Net.known_setPeer_cases hp hk with hold | ⟨rfl, hnew, hold⟩
    · exact .inl hold
    · exact absurd (Peer.mem_known_expire_iff.mp hnew).1 hold
  | broadcast j order written =>
    obtain ⟨p, hp, -, rfl⟩ := h
    rcases Net.known_setPeer_cases hp hk with hold | ⟨rfl, hnew, hold⟩
    · exact .inl hold
    · rcases p.broadcast_cases C n.whisper order written with ⟨-, heq⟩ | ⟨hne, hwritten, heq⟩
      · rw [heq] at hnew
        exact absurd hnew hold
      · have hsent := n.sent_broadcast C i p order written
        rw [if_pos ⟨hne, hwritten⟩] at hsent
        rw [heq] at hnew
        refine .inr (.inr ⟨_, ?_, (Peer.mem_known_foldl_mark.mp hnew).resolve_left hold⟩)
        rw [Net.sentTo_of_sent hsent, if_pos rfl]
        exact List.mem_append_right _ (List.mem_singleton.mpr rfl)
  | connect j id =>
    obtain ⟨hj, rfl⟩ := h
    rw [Net.known_setPeer] at hk
    split at hk
    · cases hk
    · exact .inl hk
  | negotiate j p' =>
    obtain ⟨p, hp, hsame, rfl⟩ := h
    rcases Net.known_setPeer_cases hp hk with hold | ⟨rfl, hnew, hold⟩
    · exact .inl hold
    · exact absurd (hsame ▸ hnew) hold
  | configure settings =>
    cases h
    exact .inl hk
  | processQueue =>
    obtain ⟨w, -, rfl⟩ := h
    exact .inl hk
  | processP2P =>
    obtain ⟨w, -, rfl⟩ := h
    exact .inl hk

/-- The hash was in a bundle that was written to the peer, or `add` has accepted it from the
peer. -/
def Hub.Exchanged (s : Hub) (i : PeerRef) (k : Hash) : Prop :=
  (∃ bundle ∈ s.net.sentTo i, k ∈ bundle) ∨ ⟨i, k, true⟩ ∈ s.received

theorem HubStep.exchanged_mono {C : Crypto} {s t : Hub} {a : HubAction} (h : HubStep C s a t)
    (hs : s.net.whisper.Consistent C) {i : PeerRef} {k : Hash} (hk : s.Exchanged i k) :
    t.Exchanged i k := by
  rcases hk with ⟨bundle, hbundle, hk⟩ | hreceived
  · refine .inl ⟨bundle, ?_, hk⟩
    rcases h.net_cases with heq | ⟨b, hstep, -⟩
    · rw [heq]
      exact hbundle
    rcases (hstep.peer_cases hs i).2 with heq | ⟨new, heq, -⟩
    · rw [heq]
      exact hbundle
    · rw [heq]
      exact List.mem_append_left _ hbundle
  · exact .inr (h.received_mono hreceived)

/-- Every known hash was exchanged, and every hash that a loop is about to mark was received. -/
structure Hub.Honest (C : Crypto) (s : Hub) : Prop where
  consistent : s.net.whisper.Consistent C
  known : ∀ i k, k ∈ s.net.known i → s.Exchanged i k
  pending : ∀ i k, s.Pending C i k → ⟨i, k, true⟩ ∈ s.received

theorem Hub.start_honest (C : Crypto) (cfg : Config) : (start (new cfg)).Honest C where
  consistent := Whisper.new_consistent C cfg
  known i k hk := by simp [start, Net.start, Net.known] at hk
  pending i k hk := by cases hk

theorem Hub.Honest.step {C : Crypto} {s t : Hub} {a : HubAction} (hs : s.Honest C)
    (h : HubStep C s a t) : t.Honest C := by
  refine ⟨h.consistent hs.consistent, fun i k hk => ?_, h.pending hs.pending⟩
  have hkeep : k ∈ s.net.known i → t.Exchanged i k := fun hold =>
    h.exchanged_mono hs.consistent (hs.known i k hold)
  -- Only the step `mark` of a loop marks a hash, and that loop has received it.
  have hnet : ∀ b, NetStep C s.net b t.net → (∀ e, b = .mark i e → s.Pending C i (e.hash C)) →
      t.Exchanged i k := by
    intro b hstep hmark
    rcases hstep.known_cases hk with hold | ⟨e, rfl, rfl⟩ | hsent
    · exact hkeep hold
    · exact .inr (h.received_mono (hs.pending _ _ (hmark e rfl)))
    · exact .inl hsent
  cases a with
  | send now e =>
    obtain ⟨net, hstep, rfl⟩ := h
    exact hnet _ hstep fun _ heq => nomatch heq
  | receive j now e =>
    obtain ⟨-, -, net, hstep, rfl⟩ := h
    exact hnet _ hstep fun _ heq => nomatch heq
  | post j =>
    obtain ⟨e, cached, p, net, -, -, hstep, rfl⟩ := h
    exact hnet _ hstep fun _ heq => nomatch heq
  | mark j =>
    obtain ⟨e, cached, net, hloop, hstep, rfl⟩ := h
    cases cached with
    | true =>
      rw [if_pos rfl] at hstep
      refine hnet _ hstep fun e' heq => ?_
      cases heq
      rw [Pending, hloop]
      rfl
    | false =>
      rw [if_neg Bool.false_ne_true] at hstep
      subst hstep
      exact hkeep hk
  | background b =>
    obtain ⟨hb, net, hstep, rfl⟩ := h
    refine hnet _ hstep fun e heq => ?_
    rw [heq] at hb
    cases hb

/-- In every run, every hash that a peer is known to hold was in a bundle whose write to that peer
succeeded, or `add` has accepted it from that peer.  A broadcast that fails leaves the known hashes
and the events as they are, and one that succeeds makes known exactly the pooled hashes that the
peer was not known to hold and whose envelopes meet its requirement and its filter, with one event
for each. -/
theorem Hub.known_means_exchanged (C : Crypto) (cfg : Config) {acts : List HubAction} {s : Hub}
    (run : Run (HubStep C) (start (new cfg)) acts s) :
    (∀ i k, k ∈ s.net.known i → s.Exchanged i k) ∧
    ∀ i p order t, s.net.peers.lookup i = some p →
      (HubStep C s (.background (.broadcast i order false)) t →
        (∀ j, t.net.known j = s.net.known j) ∧ t.net.whisper = s.net.whisper) ∧
      (HubStep C s (.background (.broadcast i order true)) t →
        (∀ k, k ∈ t.net.known i ↔ k ∈ s.net.known i ∨ p.Lacks C s.net.whisper k) ∧
        (∀ j, j ≠ i → t.net.known j = s.net.known j) ∧
        ∃ events, t.net.whisper =
            { s.net.whisper with envelopeFeed := s.net.whisper.envelopeFeed ++ events } ∧
          (events.map EnvelopeEvent.hash).Nodup ∧
          (∀ k, k ∈ events.map EnvelopeEvent.hash ↔ p.Lacks C s.net.whisper k) ∧
          ∀ event ∈ events, event.event = .envelopeSent ∧ event.peer = p.id) := by
  have hs : s.Honest C := run.invariant (start_honest C cfg) fun _ _ _ _ hs hstep => hs.step hstep
  refine ⟨hs.known, fun i p order t hp => ⟨fun h => ?_, fun h => ?_⟩⟩
  · obtain ⟨-, net, ⟨p', hp', ho, rfl⟩, rfl⟩ := h
    rw [hp] at hp'
    cases hp'
    have hfails := (Peer.broadcast_exact (p := p) hs.consistent ho).1
    refine ⟨fun j => ?_, ?_⟩
    · show (s.net.setPeer i (p.broadcast C s.net.whisper order false).1).known j = _
      rw [hfails, Net.known_setPeer]
      split
      · rename_i hij
        rw [hij, Net.known_of_lookup hp]
      · rfl
    · show (p.broadcast C s.net.whisper order false).2.1 = _
      rw [hfails]
  · obtain ⟨-, net, ⟨p', hp', ho, rfl⟩, rfl⟩ := h
    rw [hp] at hp'
    cases hp'
    obtain ⟨-, hknown, hevents⟩ := Peer.broadcast_exact (p := p) hs.consistent ho
    have hset : ∀ j, (s.net.broadcast C i p order true).known j =
        if j = i then (p.broadcast C s.net.whisper order true).1.known else s.net.known j :=
      fun j => s.net.known_setPeer i j _
    refine ⟨fun k => ?_, fun j hj => ?_, hevents⟩
    · rw [hset, if_pos rfl, hknown, Net.known_of_lookup hp]
    · rw [hset, if_neg hj]

theorem Hub.known_means_exchanged_marked :
    sampleEnvelope.hash sampleCrypto ∈ markedHub.net.known 0 ∧
    markedHub.Exchanged 0 (sampleEnvelope.hash sampleCrypto) := by
  have hknown : sampleEnvelope.hash sampleCrypto ∈ markedHub.net.known 0 := by decide +kernel
  have run : Run (HubStep sampleCrypto) (start (new {}))
      [.background (.connect 0 1), .receive 0 1600000000 sampleEnvelope, .post 0, .mark 0]
      markedHub := markedHub_run.mono fun _ _ _ h => h.1
  exact ⟨hknown, (known_means_exchanged sampleCrypto {} run).1 0 _ hknown⟩

end Whisperv6
