import Mathlib.Data.Fintype.EquivFin
import Whisperv6.Forwarding
import Whisperv6.Loops

/-! A light client forwards what it receives.  The mode reaches `add` as its argument on P2P
messages, which chooses the queue for the local filters; the envelope joins the pool all the same,
and `broadcast` sends the pool.  Only a node that pools no foreign envelope sends none. -/

namespace Whisperv6

open ProofKit

def Whisper.setLightClientMode (w : Whisper) (v : Bool) : Whisper :=
  { w with settings.lightClientMode := v }

/-- A step that leaves the node in light client mode. -/
def LightStep (C : Crypto) (s : Hub) (a : HubAction) (t : Hub) : Prop :=
  HubStep C s a t ∧ t.net.whisper.settings.lightClientMode = true

/-- Connections and broadcasts. -/
def HubAction.forwards : HubAction → Bool
  | .background (.connect ..) => true
  | .background (.broadcast ..) => true
  | _ => false

/-- Every hash in a bundle that was written to a peer was injected through `Send`. -/
def Hub.OnlyInjected (s : Hub) : Prop :=
  ∀ i, ∀ bundle ∈ s.net.sentTo i, ∀ h ∈ bundle, h ∈ s.injected

/-- A received envelope that is no news to the pool: `Send` has injected it before, or it does not
pass the checks of `add` at the clock reading `now`. -/
def Hub.Harmless (C : Crypto) (s : Hub) (now : UInt32) (e : Envelope) : Prop :=
  (e.received C).hash C ∈ s.injected ∨
    ∀ e', s.net.whisper.settings.check C now (e.received C) ≠ .ok (some e')

/-- A step in light client mode that receives no other envelopes. -/
def HarmlessStep (C : Crypto) (s : Hub) (a : HubAction) (t : Hub) : Prop :=
  LightStep C s a t ∧ ∀ i now e, a = .receive i now e → s.Harmless C now e

/-! ### What a step adds -/

/-- A hash is pooled already, or it is that of an envelope which `Send` injects or a loop caches. -/
theorem HubStep.mem_pool {C : Crypto} {s t : Hub} {a : HubAction} (h : HubStep C s a t)
    (hs : s.net.whisper.Consistent C) {k : Hash} (hk : k ∈ t.net.whisper.envelopes) :
    k ∈ s.net.whisper.envelopes ∨
    (∃ now e, a = .send now e ∧ k = e.hash C ∧ (s.net.whisper.send C now e).2 = none) ∨
    ∃ i now e, a = .receive i now e ∧ k = (e.received C).hash C ∧
      s.caches C now (e.received C) = true := by
  rcases h.net_cases with heq | ⟨b, hstep, -, -, hsource⟩
  · rw [heq] at hk
    exact .inl hk
  obtain ⟨e', he'⟩ := Finmap.mem_iff.mp hk
  rcases hstep.lookup hs he' with hold | ⟨e, isP2P, rfl, hhash, -, -, hcached⟩
  · exact .inl (Finmap.mem_of_lookup_eq_some hold)
  rcases hsource _ e isP2P rfl with ⟨ha, rfl⟩ | ⟨i, e', ha, rfl, rfl⟩
  · exact .inr (.inl ⟨_, e, ha, hhash, Whisper.send_eq_none_iff.mpr hcached⟩)
  · exact .inr (.inr ⟨i, _, e', ha, hhash, by simpa [Hub.caches] using hcached⟩)

theorem HubStep.injected_mono {C : Crypto} {s t : Hub} {a : HubAction} (h : HubStep C s a t)
    {k : Hash} (hk : k ∈ s.injected) : k ∈ t.injected := by
  cases a with
  | send now e =>
    obtain ⟨net, -, rfl⟩ := h
    show k ∈ if _ then _ else _
    split
    · exact List.mem_append_left _ hk
    · exact hk
  | receive i now e =>
    obtain ⟨-, -, net, -, rfl⟩ := h
    exact hk
  | post i =>
    obtain ⟨e, cached, p, net, -, -, -, rfl⟩ := h
    exact hk
  | mark i =>
    obtain ⟨e, cached, net, -, -, rfl⟩ := h
    exact hk
  | background b =>
    obtain ⟨-, net, -, rfl⟩ := h
    exact hk

theorem HubStep.mem_sentTo {C : Crypto} {s t : Hub} {a : HubAction} (h : HubStep C s a t)
    (hs : s.net.whisper.Consistent C) {i : PeerRef} {bundle : List Hash}
    (hbundle : bundle ∈ t.net.sentTo i) :
    bundle ∈ s.net.sentTo i ∨ ∀ k ∈ bundle, k ∈ s.net.whisper.envelopes := by
  rcases h.net_cases with heq | ⟨b, hstep, -⟩
  · rw [heq] at hbundle
    exact .inl hbundle
  rcases (hstep.peer_cases hs i).2 with heq | ⟨new, heq, hnew⟩
  · rw [heq] at hbundle
    exact .inl hbundle
  · rw [heq, List.mem_append, List.mem_singleton] at hbundle
    rcases hbundle with hold | rfl
    · exact .inl hold
    · exact .inr fun k hk => (hnew k hk).1

/-! ### Runs -/

/-- The node pools and has sent what was injected, and nothing else. -/
structure Hub.Own (C : Crypto) (s : Hub) : Prop where
  consistent : s.net.whisper.Consistent C
  pool : ∀ h ∈ s.net.whisper.envelopes, h ∈ s.injected
  sent : s.OnlyInjected

theorem Hub.start_own (C : Crypto) (cfg : Config) (light : Bool) :
    (start ((new cfg).setLightClientMode light)).Own C where
  consistent := (Whisper.new_consistent C cfg).congr rfl rfl
  pool h hh := absurd hh (Finmap.notMem_empty)
  sent i bundle hbundle := by simp [start, Net.start, Net.sentTo] at hbundle

theorem Hub.Own.step {C : Crypto} {s t : Hub} {a : HubAction} (hs : s.Own C)
    (h : HarmlessStep C s a t) : t.Own C := by
  obtain ⟨⟨hstep, -⟩, hharmless⟩ := h
  refine ⟨hstep.consistent hs.consistent, fun k hk => ?_, fun i bundle hbundle k hk => ?_⟩
  · rcases hstep.mem_pool hs.consistent hk with hold | ⟨now, e, rfl, rfl, hsend⟩ |
      ⟨i, now, e, rfl, rfl, hcached⟩
    · exact hstep.injected_mono (hs.pool k hold)
    · obtain ⟨net, -, rfl⟩ := hstep
      show e.hash C ∈ if _ then _ else _
      rw [if_pos hsend]
      simp
    · apply hstep.injected_mono
      refine (hharmless i now e rfl).resolve_right fun hrefused => ?_
      obtain ⟨e', hcheck⟩ := Whisper.add_cached_iff.mp (by simpa [caches] using hcached)
      exact hrefused e' hcheck
  · apply hstep.injected_mono
    rcases hstep.mem_sentTo hs.consistent hbundle with hold | hpool
    · exact hs.sent i bundle hold k hk
    · exact hs.pool k (hpool k hk)

theorem Peer.selects_new {C : Crypto} {s : Settings} {now : UInt32} {e e' : Envelope}
    (hcheck : s.check C now (e.received C) = .ok (some e')) (id : NodeID) :
    ({ id := id } : Peer).selects C e' = true := by
  refine selects_iff.mpr ⟨Finset.notMem_empty _, ?_, rfl⟩
  have hzero : (0 : Float64).value = .zero := by decide +kernel
  rw [(Settings.check_some_iff.mp hcheck).1, Envelope.pow_fill, hzero]
  obtain ⟨diff, hdiff⟩ := Envelope.pow_adjust_computed (C := C) (e := e.received C) rfl now
  rw [hdiff]
  exact (e.received C).zero_le_calculatePoW C diff

/-- A pooled hash that a new connection asks for is sent to it by the next broadcast. -/
theorem Hub.exists_forward {C : Crypto} {s : Hub} {k : Hash} {e : Envelope}
    (hs : s.net.whisper.Consistent C)
    (hlight : s.net.whisper.settings.lightClientMode = true)
    (hk : s.net.whisper.envelopes.lookup k = some e)
    (hselects : ({ id := 0 } : Peer).selects C e = true) :
    ∃ acts t, Run (LightStep C) s acts t ∧ (∀ a ∈ acts, a.forwards = true) ∧
      t.injected = s.injected ∧ ∃ i, ∃ bundle ∈ t.net.sentTo i, k ∈ bundle := by
  obtain ⟨i, hi⟩ := Infinite.exists_notMem_finset s.net.peers.keys
  obtain ⟨order, ho⟩ := exists_isOrder s.net.whisper.envelopes.keys
  let p : Peer := { id := 0 }
  let s' : Hub := { s with net := s.net.setPeer i p }
  let t : Hub := { s' with net := s'.net.broadcast C i p order true }
  have hmem : e ∈ p.bundle C s.net.whisper order := Peer.mem_bundle_of_lookup ho hk hselects
  have hconnect : LightStep C s (.background (.connect i 0)) s' :=
    ⟨⟨rfl, _, ⟨fun hmem => hi (Finmap.mem_keys.mpr hmem), rfl⟩, rfl⟩, hlight⟩
  have hbroadcast : LightStep C s' (.background (.broadcast i order true)) t := by
    refine ⟨⟨rfl, _, ⟨p, Finmap.lookup_insert _, ho, rfl⟩, rfl⟩, ?_⟩
    obtain ⟨feed, hw⟩ := s'.net.whisper_broadcast C i p order true
    show (s'.net.broadcast C i p order true).whisper.settings.lightClientMode = true
    rw [hw]
    exact hlight
  have hsent : t.net.sent =
      s'.net.sent ++ [(i, (p.bundle C s.net.whisper order).map (Envelope.hash C))] :=
    (Net.sent_broadcast ..).trans (if_pos ⟨List.ne_nil_of_mem hmem, rfl⟩)
  have hforwards : ∀ a ∈ [HubAction.background (.connect i 0),
      .background (.broadcast i order true)], a.forwards = true := by simp [HubAction.forwards]
  refine ⟨_, t, .cons hconnect (.cons hbroadcast (.nil _)), hforwards, rfl, i, ?_⟩
  rw [Net.sentTo_of_sent hsent, if_pos rfl]
  refine ⟨_, List.mem_append_right _ (List.mem_singleton.mpr rfl), ?_⟩
  exact List.mem_map.mpr ⟨e, hmem, (hs.pooled k e hk).1⟩

/-- A node in light client mode transmits only what was injected through `Send`, in every run in
which each received envelope was injected before or does not pass the checks of `add`.  The first
envelope that is neither can be forwarded: one connection and one broadcast later the node has sent
it. -/
theorem Hub.onlyInjected_iff (C : Crypto) (cfg : Config) {acts : List HubAction} {s : Hub}
    (run : Run (HarmlessStep C) (start ((new cfg).setLightClientMode true)) acts s) :
    s.OnlyInjected ∧ ∀ i now e t, LightStep C s (.receive i now e) t →
      ((∀ more u, Run (LightStep C) t more u → (∀ a ∈ more, a.forwards = true) →
        u.OnlyInjected) ↔ s.Harmless C now e) := by
  have hs : s.Own C := run.invariant (start_own C cfg true) fun _ _ _ _ h hstep => h.step hstep
  refine ⟨hs.sent, fun i now e t hreceive => ⟨?_, ?_⟩⟩
  · intro hsafe
    by_contra hnot
    rw [Harmless, not_or] at hnot
    obtain ⟨hinjected, hpass⟩ := hnot
    obtain ⟨e', hcheck⟩ := not_forall_not.mp hpass
    have hnew : (e.received C).hash C ∉ s.net.whisper.envelopes :=
      fun hmem => hinjected (hs.pool _ hmem)
    have hcached : (s.net.whisper.add C now (e.received C)
        s.net.whisper.settings.lightClientMode).2 = .ok true :=
      Whisper.add_cached_iff.mpr ⟨e', hcheck⟩
    obtain ⟨e'', hpooled⟩ := Finmap.mem_iff.mp (Whisper.mem_of_cached hcached)
    have hselects := Peer.selects_new (Whisper.add_pooled hnew hpooled).1 0
    rw [← hreceive.1.receive_spec.1] at hpooled
    obtain ⟨more, u, hrun, hmore, hsame, j, bundle, hbundle, hk⟩ :=
      exists_forward (hreceive.1.consistent hs.consistent) hreceive.2 hpooled hselects
    have hu := hsafe more u hrun hmore j bundle hbundle _ hk
    obtain ⟨⟨-, -, net, -, rfl⟩, -⟩ := hreceive
    rw [hsame] at hu
    exact hinjected hu
  · intro hharmless more u hrun hmore
    have ht : t.Own C := hs.step ⟨hreceive, fun i' now' e' heq => by cases heq; exact hharmless⟩
    have hu : u.Own C := hrun.invariant ht fun s a t ha h hstep =>
      h.step ⟨hstep, fun i' now' e' heq => by
        have := hmore a ha
        rw [heq] at this
        cases this⟩
    exact hu.sent

/-- A light client, and the same node after a connection and a call of `Send`. -/
def lightHub : Hub := .start ((new {}).setLightClientMode true)

def injectedHub : Hub :=
  let s : Hub := { lightHub with net := lightHub.net.setPeer 0 { id := 1 } }
  { s with
    net := { s.net with
      whisper := (s.net.whisper.add sampleCrypto 1600000000 sampleEnvelope false).1
      clock := 1600000000 }
    injected := [sampleEnvelope.hash sampleCrypto] }

theorem injectedHub_run : Run (HarmlessStep sampleCrypto) lightHub
    [.background (.connect 0 1), .send 1600000000 sampleEnvelope] injectedHub := by
  refine .cons ⟨⟨⟨rfl, _, ⟨by decide +kernel, rfl⟩, rfl⟩, rfl⟩, fun _ _ _ h => nomatch h⟩ ?_
  refine .cons ⟨⟨⟨_, rfl, ?_⟩, by decide +kernel⟩, fun _ _ _ h => nomatch h⟩ (.nil _)
  rw [if_pos (by decide +kernel)]
  rfl

theorem Hub.onlyInjected_iff_echoed :
    injectedHub.OnlyInjected ∧ injectedHub.Harmless sampleCrypto 1600000001 sampleEnvelope ∧
    ∀ t, LightStep sampleCrypto injectedHub (.receive 0 1600000001 sampleEnvelope) t →
      ∀ more u, Run (LightStep sampleCrypto) t more u → (∀ a ∈ more, a.forwards = true) →
        u.OnlyInjected := by
  obtain ⟨hown, hiff⟩ := Hub.onlyInjected_iff sampleCrypto {} injectedHub_run
  have hharmless : injectedHub.Harmless sampleCrypto 1600000001 sampleEnvelope :=
    .inl (by decide +kernel)
  exact ⟨hown, hharmless, fun t ht => (hiff 0 1600000001 sampleEnvelope t ht).mpr hharmless⟩

/-- A light client with two connections. -/
def connectedHub : Hub :=
  { lightHub with net := (lightHub.net.setPeer 0 { id := 1 }).setPeer 1 { id := 2 } }

/-- Peer 0 delivers an envelope, and the broadcast to peer 1 sends it on. -/
def forwardedHub : Hub :=
  let e := sampleEnvelope.received sampleCrypto
  let s := connectedHub
  let s : Hub := { s with
    net := { s.net with
      whisper := (s.net.whisper.add sampleCrypto 1600000000 e true).1, clock := 1600000000 }
    loops := Function.update s.loops 0 (.added e true)
    received := s.received ++ [⟨0, e.hash sampleCrypto, true⟩] }
  let p : Peer := { id := 1 }
  let s : Hub := { s with
    net := { s.net with whisper.envelopeFeed :=
      s.net.whisper.envelopeFeed ++ [Hub.receivedEvent sampleCrypto p e] }
    loops := Function.update s.loops 0 (.posted e true) }
  let s : Hub := { s with
    net := s.net.setPeer 0 (p.mark sampleCrypto e)
    loops := Function.update s.loops 0 .reading }
  { s with
    net := s.net.broadcast sampleCrypto 1 { id := 2 } [sampleEnvelope.hash sampleCrypto] true }

theorem Hub.not_onlyInjected_light :
    Run (LightStep sampleCrypto) (start ((new {}).setLightClientMode true))
      [.background (.connect 0 1), .background (.connect 1 2),
        .receive 0 1600000000 sampleEnvelope, .post 0, .mark 0,
        .background (.broadcast 1 [sampleEnvelope.hash sampleCrypto] true)] forwardedHub ∧
    forwardedHub.injected = [] ∧ ¬ forwardedHub.OnlyInjected := by
  have hcached : connectedHub.caches sampleCrypto 1600000000
      (sampleEnvelope.received sampleCrypto) = true := by decide +kernel
  refine ⟨?_, rfl, fun h => ?_⟩
  · refine .cons ⟨⟨rfl, _, ⟨by decide +kernel, rfl⟩, rfl⟩, rfl⟩ ?_
    refine .cons (t := connectedHub) ⟨⟨rfl, _, ⟨by decide +kernel, rfl⟩, rfl⟩, rfl⟩ ?_
    refine .cons ⟨⟨by decide +kernel, rfl, _, rfl, by rw [hcached]⟩, by decide +kernel⟩ ?_
    refine .cons ⟨⟨_, true, { id := 1 }, _, rfl, by decide +kernel, rfl, rfl⟩, ?_⟩ ?_
    · decide +kernel
    refine .cons ⟨⟨_, true, _, rfl, ⟨{ id := 1 }, by decide +kernel, rfl⟩, rfl⟩, ?_⟩ ?_
    · decide +kernel
    refine .cons ⟨⟨rfl, _, ⟨{ id := 2 }, ?_, by decide +kernel, rfl⟩, rfl⟩, ?_⟩ (.nil _)
    · decide +kernel
    · decide +kernel
  · have hsent : [sampleEnvelope.hash sampleCrypto] ∈ forwardedHub.net.sentTo 1 := by decide +kernel
    exact nomatch h 1 _ hsent _ (List.mem_singleton.mpr rfl)

end Whisperv6
