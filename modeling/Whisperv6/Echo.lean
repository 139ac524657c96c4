import Whisperv6.Loops

/-! What a peer has delivered, and the broadcasts to it.  An envelope is in the pool from `add` on
but marked only two steps later, and an envelope that `add` did not cache is not marked at all.  A
broadcast that sends neither sends nothing back. -/

namespace Whisperv6

open ProofKit

/-- The hash that a loop is about to mark. -/
def LoopState.pending (C : Crypto) : LoopState → Option Hash
  | .added e true => some (e.hash C)
  | .posted e true => some (e.hash C)
  | _ => none

namespace Hub

/-- The loop of the peer has read an envelope with the hash. -/
def Received (s : Hub) (i : PeerRef) (h : Hash) : Prop := ∃ cached, ⟨i, h, cached⟩ ∈ s.received

/-- The loop of the peer has read an envelope with the hash that `add` did not cache. -/
def Refused (s : Hub) (i : PeerRef) (h : Hash) : Prop := ⟨i, h, false⟩ ∈ s.received

/-- The loop of the peer is between `add` and the mark for an envelope with the hash. -/
def Pending (C : Crypto) (s : Hub) (i : PeerRef) (h : Hash) : Prop :=
  (s.loops i).pending C = some h

/-- A broadcast to the peer sends no envelope that its loop has read before. -/
def NoEcho (C : Crypto) (s : Hub) (i : PeerRef) (order : List Hash) : Prop :=
  ∀ written t hashes, HubStep C s (.background (.broadcast i order written)) t →
    t.net.sent = s.net.sent ++ [(i, hashes)] → ∀ h ∈ hashes, ¬ s.Received i h

end Hub

/-- A step that does not turn the clock back. -/
def TimedHubStep (C : Crypto) (s : Hub) (a : HubAction) (t : Hub) : Prop :=
  HubStep C s a t ∧ ∀ now, a.reading = some now → s.net.clock ≤ now

theorem HubStep.outbox {C : Crypto} {f : Hash → UInt32} {s t : Hub} {a : HubAction}
    (h : TimedHubStep C s a t) (hexpiry : ∀ e, a.added C = some e → f (e.hash C) = e.expiry)
    (hs : s.net.Filed C f) :
    t.net.Filed C f ∧ ∀ i, Outbox.Step (s.net.outbox f i) (t.net.outbox f i) := by
  obtain ⟨hstep, htimed⟩ := h
  rcases hstep.net_cases with heq | ⟨b, hb, hreading, hadded, -⟩
  · rw [heq]
    exact ⟨hs, fun i => .refl _⟩
  · have hadmissible : b.Admissible C f s.net :=
      ⟨fun now hnow => htimed now (hreading ▸ hnow), fun e he => hexpiry e (hadded ▸ he)⟩
    exact ⟨hb.filed hadmissible hs, hb.outbox hadmissible hs⟩

/-- What the loops are about to mark after one of them has moved. -/
theorem Hub.pending_iff {C : Crypto} {s t : Hub} {i j : PeerRef} {state : LoopState} {k : Hash}
    (h : t.loops = Function.update s.loops j state) :
    t.Pending C i k ↔ i = j ∧ state.pending C = some k ∨ i ≠ j ∧ s.Pending C i k := by
  rw [Pending, h]
  by_cases hij : i = j
  · subst hij
    simp
  · simp [hij, Pending]

/-- What a loop is about to mark after a step, it was about to mark before, or it has just read
it. -/
theorem HubStep.pending_cases {C : Crypto} {s t : Hub} {a : HubAction} (h : HubStep C s a t)
    {i : PeerRef} {k : Hash} (hk : t.Pending C i k) :
    s.Pending C i k ∨ ⟨i, k, true⟩ ∈ t.received := by
  cases a with
  | send now e =>
    obtain ⟨net, -, rfl⟩ := h
    exact .inl hk
  | receive j now e =>
    obtain ⟨-, -, net, -, rfl⟩ := h
    rcases (Hub.pending_iff rfl).mp hk with ⟨rfl, hadded⟩ | ⟨-, hold⟩
    · cases hcached : s.caches C now (e.received C) with
      | true =>
        rw [hcached] at hadded
        cases hadded
        exact .inr (List.mem_append_right _ (List.mem_singleton.mpr rfl))
      | false =>
        rw [hcached] at hadded
        cases hadded
    · exact .inl hold
  | post j =>
    obtain ⟨e, cached, p, net, hloop, -, -, rfl⟩ := h
    rcases (Hub.pending_iff rfl).mp hk with ⟨rfl, hposted⟩ | ⟨-, hold⟩
    · refine .inl ?_
      rw [Hub.Pending, hloop]
      cases cached with
      | true => exact hposted
      | false => cases hposted
    · exact .inl hold
  | mark j =>
    obtain ⟨e, cached, net, -, -, rfl⟩ := h
    rcases (Hub.pending_iff rfl).mp hk with ⟨rfl, hreading⟩ | ⟨-, hold⟩
    · cases hreading
    · exact .inl hold
  | background b =>
    obtain ⟨-, net, -, rfl⟩ := h
    exact .inl hk

theorem HubStep.received_mono {C : Crypto} {s t : Hub} {a : HubAction} (h : HubStep C s a t)
    {r : Receipt} (hr : r ∈ s.received) : r ∈ t.received := by
  cases a with
  | send now e =>
    obtain ⟨net, -, rfl⟩ := h
    exact hr
  | receive j now e =>
    obtain ⟨-, -, net, -, rfl⟩ := h
    exact List.mem_append_left _ hr
  | post j =>
    obtain ⟨e, cached, p, net, -, -, -, rfl⟩ := h
    exact hr
  | mark j =>
    obtain ⟨e, cached, net, -, -, rfl⟩ := h
    exact hr
  | background b =>
    obtain ⟨-, net, -, rfl⟩ := h
    exact hr

/-- What a loop is about to mark, it has read and `add` has cached. -/
theorem HubStep.pending {C : Crypto} {s t : Hub} {a : HubAction} (h : HubStep C s a t)
    (hs : ∀ i k, s.Pending C i k → ⟨i, k, true⟩ ∈ s.received) (i : PeerRef) (k : Hash)
    (hk : t.Pending C i k) : ⟨i, k, true⟩ ∈ t.received := by
  rcases h.pending_cases hk with hold | hnew
  · exact h.received_mono (hs i k hold)
  · exact hnew

/-- Each hash that a loop has read and `add` has cached is settled for the peer, or about to be
marked and still pooled unless it has expired. -/
structure Hub.Tracked (C : Crypto) (f : Hash → UInt32) (s : Hub) : Prop where
  filed : s.net.Filed C f
  cached : ∀ i h, ⟨i, h, true⟩ ∈ s.received → (s.net.outbox f i).Settled h ∨
    s.Pending C i h ∧ (h ∈ (s.net.outbox f i).pool ∨ h ∈ (s.net.outbox f i).retired)
  pending : ∀ i h, s.Pending C i h → ⟨i, h, true⟩ ∈ s.received

theorem Hub.start_tracked (C : Crypto) (f : Hash → UInt32) (cfg : Config) :
    (start (new cfg)).Tracked C f where
  filed := Net.start_filed C f cfg
  cached i h hmem := by cases hmem
  pending i h hp := by cases hp

/-- A step keeps what a receipt says, as long as it leaves the loop of the peer pending. -/
theorem Hub.Tracked.keeps {C : Crypto} {f : Hash → UInt32} {s t : Hub} {i : PeerRef} {h : Hash}
    (hs : s.Tracked C f) (hout : Outbox.Step (s.net.outbox f i) (t.net.outbox f i))
    (hmem : ⟨i, h, true⟩ ∈ s.received) (hpending : s.Pending C i h → t.Pending C i h) :
    (t.net.outbox f i).Settled h ∨
      t.Pending C i h ∧ (h ∈ (t.net.outbox f i).pool ∨ h ∈ (t.net.outbox f i).retired) := by
  rcases hs.cached i h hmem with hsettled | ⟨hp, hpool⟩
  · exact .inl (hsettled.step hout)
  · exact .inr ⟨hpending hp, hout.mem_pool_or_retired hpool⟩

theorem Hub.Tracked.receive {C : Crypto} {f : Hash → UInt32} {s t : Hub} {j : PeerRef}
    {now : UInt32} {e : Envelope} (hs : s.Tracked C f) (h : HubStep C s (.receive j now e) t)
    (hfiled : t.net.Filed C f)
    (hout : ∀ i, Outbox.Step (s.net.outbox f i) (t.net.outbox f i)) : t.Tracked C f := by
  refine ⟨hfiled, fun i k hk => ?_, h.pending hs.pending⟩
  obtain ⟨-, hreading, net, hnet, ht⟩ := h
  have hreceived : t.received =
      s.received ++ [⟨j, (e.received C).hash C, s.caches C now (e.received C)⟩] := by rw [ht]
  have hself : t.loops j = .added (e.received C) (s.caches C now (e.received C)) := by
    rw [ht]
    exact Function.update_self ..
  rw [hreceived, List.mem_append, List.mem_singleton] at hk
  rcases hk with hk | hk
  · refine hs.keeps (hout i) hk fun hp => ?_
    have hij : i ≠ j := by
      rintro rfl
      rw [Pending, hreading] at hp
      cases hp
    exact (pending_iff (by rw [ht])).mpr (.inr ⟨hij, hp⟩)
  · rw [Receipt.mk.injEq] at hk
    obtain ⟨rfl, rfl, hcached⟩ := hk
    refine .inr ⟨?_, .inl ?_⟩
    · rw [Pending, hself, ← hcached]
      rfl
    · show (e.received C).hash C ∈ t.net.whisper.envelopes
      rw [ht]
      cases hnet
      exact Whisper.mem_of_cached (by simpa [caches] using hcached.symm)

theorem Hub.Tracked.post {C : Crypto} {f : Hash → UInt32} {s t : Hub} {j : PeerRef}
    (hs : s.Tracked C f) (h : HubStep C s (.post j) t) (hfiled : t.net.Filed C f)
    (hout : ∀ i, Outbox.Step (s.net.outbox f i) (t.net.outbox f i)) : t.Tracked C f := by
  refine ⟨hfiled, fun i k hk => ?_, h.pending hs.pending⟩
  obtain ⟨e, cached, p, net, hloop, -, -, ht⟩ := h
  have hreceived : t.received = s.received := by rw [ht]
  rw [hreceived] at hk
  refine hs.keeps (hout i) hk fun hp => ?_
  refine (pending_iff (by rw [ht])).mpr ?_
  by_cases hij : i = j
  · subst hij
    rw [Pending, hloop] at hp
    refine .inl ⟨rfl, ?_⟩
    cases cached with
    | true => exact hp
    | false => cases hp
  · exact .inr ⟨hij, hp⟩

theorem Hub.Tracked.mark {C : Crypto} {f : Hash → UInt32} {s t : Hub} {j : PeerRef}
    (hs : s.Tracked C f) (h : HubStep C s (.mark j) t) (hfiled : t.net.Filed C f)
    (hout : ∀ i, Outbox.Step (s.net.outbox f i) (t.net.outbox f i)) : t.Tracked C f := by
  refine ⟨hfiled, fun i k hk => ?_, h.pending hs.pending⟩
  obtain ⟨e, cached, net, hloop, hnet, ht⟩ := h
  have hreceived : t.received = s.received := by rw [ht]
  rw [hreceived] at hk
  by_cases hij : i = j
  · subst hij
    rcases hs.cached i k hk with hsettled | ⟨hp, hpool⟩
    · exact .inl (hsettled.step (hout i))
    · refine .inl (Outbox.settled_of_known ?_ ((hout i).mem_pool_or_retired hpool))
      rw [Pending, hloop] at hp
      cases cached with
      | false => cases hp
      | true =>
        cases hp
        rw [if_pos rfl] at hnet
        obtain ⟨p, -, rfl⟩ := hnet
        show e.hash C ∈ t.net.known i
        rw [ht]
        show e.hash C ∈ (s.net.setPeer i (p.mark C e)).known i
        rw [Net.known_setPeer, if_pos rfl]
        exact Peer.mem_known_mark.mpr (.inl rfl)
  · exact hs.keeps (hout i) hk fun hp => (pending_iff (by rw [ht])).mpr (.inr ⟨hij, hp⟩)

theorem Hub.Tracked.step {C : Crypto} {f : Hash → UInt32} {s t : Hub} {a : HubAction}
    (hs : s.Tracked C f) (h : TimedHubStep C s a t)
    (hexpiry : ∀ e, a.added C = some e → f (e.hash C) = e.expiry) : t.Tracked C f := by
  obtain ⟨hfiled, hout⟩ := HubStep.outbox h hexpiry hs.filed
  obtain ⟨hstep, -⟩ := h
  cases a with
  | send now e =>
    obtain ⟨net, -, rfl⟩ := hstep
    exact ⟨hfiled, fun i k hk => hs.keeps (hout i) hk id, hs.pending⟩
  | receive j now e => exact hs.receive hstep hfiled hout
  | post j => exact hs.post hstep hfiled hout
  | mark j => exact hs.mark hstep hfiled hout
  | background b =>
    obtain ⟨-, net, -, rfl⟩ := hstep
    exact ⟨hfiled, fun i k hk => hs.keeps (hout i) hk id, hs.pending⟩

theorem Hub.run_tracked {C : Crypto} {f : Hash → UInt32} {cfg : Config} {acts : List HubAction}
    {s : Hub} (run : Run (TimedHubStep C) (start (new cfg)) acts s)
    (hexpiry : ∀ a ∈ acts, ∀ e, a.added C = some e → f (e.hash C) = e.expiry) :
    s.Tracked C f :=
  run.invariant (start_tracked C f cfg) fun _ a _ ha h hstep => h.step hstep (hexpiry a ha)

theorem HubStep.broadcast_iff {C : Crypto} {s : Hub} {i : PeerRef} {p : Peer}
    {order hashes : List Hash} (hp : s.net.peers.lookup i = some p)
    (ho : IsOrder s.net.whisper.envelopes.keys order) :
    (∃ written t, HubStep C s (.background (.broadcast i order written)) t ∧
      t.net.sent = s.net.sent ++ [(i, hashes)]) ↔
    p.bundle C s.net.whisper order ≠ [] ∧
      hashes = (p.bundle C s.net.whisper order).map (Envelope.hash C) := by
  constructor
  · rintro ⟨written, t, ⟨-, net, ⟨p', hp', -, rfl⟩, rfl⟩, hsent⟩
    rw [hp] at hp'
    cases hp'
    rw [Net.sent_broadcast] at hsent
    split at hsent
    · rename_i hwritten
      have hlast := List.append_cancel_left hsent
      rw [List.cons.injEq, Prod.mk.injEq] at hlast
      exact ⟨hwritten.1, hlast.1.2.symm⟩
    · exact absurd hsent (by simp)
  · rintro ⟨hne, rfl⟩
    refine ⟨true, _, ⟨rfl, _, ⟨p, hp, ho, rfl⟩, rfl⟩, ?_⟩
    exact (Net.sent_broadcast ..).trans (if_pos ⟨hne, rfl⟩)

/-- In every run in which the clock does not go back and the hashes do not collide, a broadcast
sends nothing back to the peer that delivered it exactly when, of the pooled envelopes that it
selects, none is between `add` and the mark in the loop of the peer, and none was delivered by the
peer without being cached. -/
theorem Hub.noEcho_iff (C : Crypto) (cfg : Config) {acts : List HubAction} {s : Hub}
    (run : Run (TimedHubStep C) (start (new cfg)) acts s)
    (hcollision : NoCollision C (acts.filterMap (HubAction.added C))) {i : PeerRef} {p : Peer}
    (hp : s.net.peers.lookup i = some p) {order : List Hash}
    (ho : IsOrder s.net.whisper.envelopes.keys order) :
    s.NoEcho C i order ↔ ∀ h e, s.net.whisper.envelopes.lookup h = some e →
      p.selects C e = true → ¬ s.Pending C i h ∧ ¬ s.Refused i h := by
  have hs := run_tracked run fun a ha e he =>
    hcollision.expiryOf (List.mem_filterMap.mpr ⟨a, ha, he⟩)
  constructor
  · intro hecho h e hpooled hselects
    have hmem : e ∈ p.bundle C s.net.whisper order :=
      Peer.mem_bundle_of_lookup ho hpooled hselects
    obtain ⟨written, t, hstep, hsent⟩ :=
      (HubStep.broadcast_iff hp ho).mpr ⟨List.ne_nil_of_mem hmem, rfl⟩
    have hnot : ¬ s.Received i h :=
      hecho written t _ hstep hsent h
        (List.mem_map.mpr ⟨e, hmem, (hs.filed.consistent.pooled h e hpooled).1⟩)
    refine ⟨fun hpending => ?_, fun hrefused => ?_⟩
    · exact hnot ⟨true, hs.pending i h hpending⟩
    · exact hnot ⟨false, hrefused⟩
  · intro hcond written t hashes hstep hsent h hh
    obtain ⟨-, rfl⟩ := (HubStep.broadcast_iff hp ho).mp ⟨written, t, hstep, hsent⟩
    obtain ⟨e, he, rfl⟩ := List.mem_map.mp hh
    obtain ⟨⟨k, -, hpooled⟩, hselects⟩ := Peer.mem_bundle.mp he
    obtain rfl := (hs.filed.consistent.pooled k e hpooled).1
    obtain ⟨hpending, hrefused⟩ := hcond _ e hpooled hselects
    rintro ⟨cached, hreceived⟩
    cases cached with
    | false => exact hrefused hreceived
    | true =>
      rcases hs.cached i _ hreceived with hsettled | ⟨hp', -⟩
      · have hknown := hsettled.mem_known (Finmap.mem_of_lookup_eq_some hpooled)
        apply (Peer.selects_iff.mp hselects).1
        rw [← Net.known_of_lookup hp]
        exact hknown
      · exact hpending hp'

/-- A node whose loop for peer 0 has given the sample envelope to `add`. -/
def addedHub : Hub :=
  let e := sampleEnvelope.received sampleCrypto
  let n := (Net.start (new {})).setPeer 0 { id := 1 }
  { net := { n with
      whisper := (n.whisper.add sampleCrypto 1600000000 e false).1, clock := 1600000000 }
    loops := Function.update (fun _ => .reading) 0 (.added e true)
    received := [⟨0, e.hash sampleCrypto, true⟩] }

theorem addedHub_run : Run (TimedHubStep sampleCrypto) (.start (new {}))
    [.background (.connect 0 1), .receive 0 1600000000 sampleEnvelope] addedHub := by
  let s : Hub := { net := (Net.start (new {})).setPeer 0 { id := 1 } }
  have hcached : s.caches sampleCrypto 1600000000 (sampleEnvelope.received sampleCrypto) =
      true := by decide +kernel
  refine .cons (t := s) ⟨⟨rfl, _, ⟨by decide +kernel, rfl⟩, rfl⟩, fun _ h => nomatch h⟩ ?_
  refine .cons ⟨⟨by decide +kernel, rfl, _, rfl, ?_⟩, by rintro _ ⟨⟩; decide⟩ (.nil _)
  rw [hcached]
  rfl

/-- The broadcast between `add` and the mark sends the envelope back. -/
theorem Hub.not_noEcho_added :
    Run (TimedHubStep sampleCrypto) (start (new {}))
      [.background (.connect 0 1), .receive 0 1600000000 sampleEnvelope] addedHub ∧
    ¬ addedHub.NoEcho sampleCrypto 0 [sampleEnvelope.hash sampleCrypto] := by
  refine ⟨addedHub_run, fun hecho => ?_⟩
  have hp : addedHub.net.peers.lookup 0 = some { id := 1 } := by decide +kernel
  have ho : IsOrder addedHub.net.whisper.envelopes.keys [sampleEnvelope.hash sampleCrypto] := by
    decide +kernel
  have hbundle : ({ id := 1 } : Peer).bundle sampleCrypto addedHub.net.whisper
      [sampleEnvelope.hash sampleCrypto] ≠ [] := by decide +kernel
  obtain ⟨written, t, hstep, hsent⟩ := (HubStep.broadcast_iff hp ho).mpr ⟨hbundle, rfl⟩
  refine hecho written t _ hstep hsent (sampleEnvelope.hash sampleCrypto) ?_ ⟨true, ?_⟩
  · decide +kernel
  · decide +kernel

/-- The same node after the event and the mark. -/
def markedHub : Hub :=
  let e := sampleEnvelope.received sampleCrypto
  let p : Peer := { id := 1 }
  let s : Hub := { addedHub with
    net := { addedHub.net with whisper.envelopeFeed :=
      addedHub.net.whisper.envelopeFeed ++ [Hub.receivedEvent sampleCrypto p e] }
    loops := Function.update addedHub.loops 0 (.posted e true) }
  { s with
    net := s.net.setPeer 0 (p.mark sampleCrypto e)
    loops := Function.update s.loops 0 .reading }

theorem markedHub_run : Run (TimedHubStep sampleCrypto) (.start (new {}))
    [.background (.connect 0 1), .receive 0 1600000000 sampleEnvelope, .post 0, .mark 0]
    markedHub := by
  have hsteps : Run (TimedHubStep sampleCrypto) addedHub [.post 0, .mark 0] markedHub := ?_
  · exact addedHub_run.append hsteps
  refine .cons ⟨⟨_, true, { id := 1 }, _, rfl, ?_, rfl, rfl⟩, fun _ h => nomatch h⟩ ?_
  · decide +kernel
  exact .cons ⟨⟨_, true, _, rfl, ⟨{ id := 1 }, by decide +kernel, rfl⟩, rfl⟩, fun _ h => nomatch h⟩
    (.nil _)

theorem Hub.noEcho_iff_marked :
    markedHub.Received 0 (sampleEnvelope.hash sampleCrypto) ∧
    markedHub.NoEcho sampleCrypto 0 [sampleEnvelope.hash sampleCrypto] := by
  refine ⟨⟨true, by decide +kernel⟩, ?_⟩
  have hp : markedHub.net.peers.lookup 0 =
      some (({ id := 1 } : Peer).mark sampleCrypto (sampleEnvelope.received sampleCrypto)) := by
    decide +kernel
  refine (noEcho_iff sampleCrypto {} markedHub_run ?_ hp (by decide +kernel)).mpr ?_
  · intro e he e' he' _
    rw [List.mem_singleton.mp he, List.mem_singleton.mp he']
  · rintro h e - -
    refine ⟨fun hpending => (nomatch hpending), fun hrefused => ?_⟩
    have hmem : (⟨0, h, false⟩ : Receipt) = _ := List.mem_singleton.mp hrefused
    cases hmem

end Whisperv6
