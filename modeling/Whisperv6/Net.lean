import Whisperv6.Peer
import Whisperv6.Pool
import Whisperv6.ProofKit.Outbox

/-! A node with the `Peer` objects of its connections.  Its goroutines work on the shared pool and
on the known hashes of each peer, one operation at a time and in any order. -/

namespace Whisperv6

open ProofKit

/-- The next message of `processQueue`, as far as the node is concerned. -/
def Whisper.processQueue (C : Crypto) (w : Whisper) : Option Whisper :=
  match w.messageQueue with
  | [] => none
  | e :: rest => some
      { w with
        messageQueue := rest
        envelopeFeed := w.envelopeFeed ++
          [{ event := .envelopeAvailable, topic := e.topic, hash := e.hash C }] }

/-- The next item of `processP2P`, as far as the node is concerned. -/
def Whisper.processP2P (C : Crypto) (w : Whisper) : Option Whisper :=
  match w.p2pMsgQueue with
  | [] => none
  | .envelope e :: rest => some
      { w with
        p2pMsgQueue := rest
        envelopeFeed := w.envelopeFeed ++
          [{ event := .envelopeAvailable, topic := e.topic, hash := e.hash C }] }
  | .event event :: rest => some
      { w with p2pMsgQueue := rest, envelopeFeed := w.envelopeFeed ++ [event] }

/-- A `*Peer`. -/
abbrev PeerRef := Nat

/-- The node, its `Peer` objects, the last clock reading, and the hashes of the bundles that were
written to each peer. -/
structure Net where
  whisper : Whisper
  peers : GoMap PeerRef Peer := ∅
  clock : UInt32 := 0
  sent : List (PeerRef × List Hash) := []

inductive NetAction
  | add (now : UInt32) (e : Envelope) (isP2P : Bool)
  | post (event : EnvelopeEvent)
  | mark (i : PeerRef) (e : Envelope)
  | expire (now : UInt32) (seconds : List UInt32) (hashes : UInt32 → List Hash)
  | expirePeer (i : PeerRef) (order : List Hash)
  | broadcast (i : PeerRef) (order : List Hash) (written : Bool)
  | connect (i : PeerRef) (id : NodeID)
  | negotiate (i : PeerRef) (p : Peer)
  | configure (settings : Settings)
  | processQueue
  | processP2P

namespace Net

def setPeer (n : Net) (i : PeerRef) (p : Peer) : Net := { n with peers := n.peers.insert i p }

/-- The node after a broadcast to the peer `p` under the reference `i`. -/
def broadcast (C : Crypto) (n : Net) (i : PeerRef) (p : Peer) (order : List Hash)
    (written : Bool) : Net :=
  let out := p.broadcast C n.whisper order written
  { n with
    whisper := out.2.1
    peers := n.peers.insert i out.1
    sent := if out.2.2.isSome then
        n.sent ++ [(i, (p.bundle C n.whisper order).map (Envelope.hash C))]
      else n.sent }

/-- The hashes that the peer under `i` is known to hold. -/
def known (n : Net) (i : PeerRef) : Finset Hash :=
  ((n.peers.lookup i).map Peer.known).getD ∅

/-- The bundles that were written to the peer under `i`. -/
def sentTo (n : Net) (i : PeerRef) : List (List Hash) :=
  (n.sent.filter fun x => x.1 = i).map Prod.snd

end Net

/-- The operations.  A handshake, and a packet that changes what the peer asks for, leave the known
hashes as they are; a new connection has none. -/
def NetStep (C : Crypto) (n : Net) : NetAction → Net → Prop
  | .add now e isP2P, n' =>
    n' = { n with whisper := (n.whisper.add C now e isP2P).1, clock := now }
  | .post event, n' =>
    n' = { n with whisper.envelopeFeed := n.whisper.envelopeFeed ++ [event] }
  | .mark i e, n' => ∃ p, n.peers.lookup i = some p ∧ n' = n.setPeer i (p.mark C e)
  | .expire now seconds hashes, n' =>
    n.whisper.Orders seconds hashes ∧
      ∃ w, n.whisper.expire now seconds hashes = some w ∧ n' = { n with whisper := w, clock := now }
  | .expirePeer i order, n' =>
    ∃ p, n.peers.lookup i = some p ∧ IsOrder p.known order ∧
      n' = n.setPeer i (p.expire n.whisper order)
  | .broadcast i order written, n' =>
    ∃ p, n.peers.lookup i = some p ∧ IsOrder n.whisper.envelopes.keys order ∧
      n' = n.broadcast C i p order written
  | .connect i id, n' => i ∉ n.peers ∧ n' = n.setPeer i { id := id }
  | .negotiate i p', n' =>
    ∃ p, n.peers.lookup i = some p ∧ p'.known = p.known ∧ n' = n.setPeer i p'
  | .configure settings, n' => n' = { n with whisper.settings := settings }
  | .processQueue, n' => ∃ w, n.whisper.processQueue C = some w ∧ n' = { n with whisper := w }
  | .processP2P, n' => ∃ w, n.whisper.processP2P C = some w ∧ n' = { n with whisper := w }

/-! ### Frames -/

namespace Net

theorem known_setPeer (n : Net) (i j : PeerRef) (p : Peer) :
    (n.setPeer i p).known j = if j = i then p.known else n.known j := by
  unfold known setPeer
  by_cases h : j = i
  · subst h
    simp
  · simp [h, Finmap.lookup_insert_of_ne]

theorem known_of_lookup {n : Net} {i : PeerRef} {p : Peer} (h : n.peers.lookup i = some p) :
    n.known i = p.known := by
  simp [known, h]

theorem mem_known_setPeer {n : Net} {i j : PeerRef} {p p' : Peer} {k : Hash}
    (hp : n.peers.lookup i = some p) (hkeep : k ∈ p.known → k ∈ p'.known) (hk : k ∈ n.known j) :
    k ∈ (n.setPeer i p').known j := by
  rw [known_setPeer]
  split
  · rename_i hij
    subst hij
    rw [known_of_lookup hp] at hk
    exact hkeep hk
  · exact hk

theorem sentTo_of_sent {n n' : Net} {i j : PeerRef} {bundle : List Hash}
    (h : n'.sent = n.sent ++ [(i, bundle)]) :
    n'.sentTo j = if i = j then n.sentTo j ++ [bundle] else n.sentTo j := by
  unfold sentTo
  rw [h, List.filter_append, List.map_append]
  by_cases hij : i = j <;> simp [hij]

end Net

theorem Whisper.processQueue_pools {C : Crypto} {w w' : Whisper} (h : w.processQueue C = some w') :
    w'.envelopes = w.envelopes ∧ w'.expirations = w.expirations := by
  unfold processQueue at h
  split at h
  · cases h
  · cases h
    exact ⟨rfl, rfl⟩

theorem Whisper.processP2P_pools {C : Crypto} {w w' : Whisper} (h : w.processP2P C = some w') :
    w'.envelopes = w.envelopes ∧ w'.expirations = w.expirations := by
  unfold processP2P at h
  split at h
  · cases h
  · cases h
    exact ⟨rfl, rfl⟩
  · cases h
    exact ⟨rfl, rfl⟩

/-- The clock reading of an action. -/
def NetAction.reading : NetAction → Option UInt32
  | .add now _ _ => some now
  | .expire now _ _ => some now
  | _ => none

/-- The envelope that an action gives to `add`. -/
def NetAction.added : NetAction → Option Envelope
  | .add _ e _ => some e
  | _ => none

theorem Net.whisper_broadcast (C : Crypto) (n : Net) (i : PeerRef) (p : Peer) (order : List Hash)
    (written : Bool) : ∃ envelopeFeed,
    (n.broadcast C i p order written).whisper = { n.whisper with envelopeFeed } := by
  unfold broadcast
  rcases p.broadcast_cases C n.whisper order written with ⟨-, heq⟩ | ⟨-, -, heq⟩
  · rw [heq]
    exact ⟨_, rfl⟩
  · rw [heq]
    exact ⟨_, rfl⟩

theorem Net.sent_broadcast (C : Crypto) (n : Net) (i : PeerRef) (p : Peer) (order : List Hash)
    (written : Bool) :
    (n.broadcast C i p order written).sent =
      if p.bundle C n.whisper order ≠ [] ∧ written = true then
        n.sent ++ [(i, (p.bundle C n.whisper order).map (Envelope.hash C))]
      else n.sent := by
  unfold broadcast
  rcases p.broadcast_cases C n.whisper order written with ⟨hnone, heq⟩ | ⟨hne, hwritten, heq⟩
  · rw [heq, if_neg]
    · rfl
    · rintro ⟨hne, hwritten⟩
      rw [hwritten] at hnone
      exact hnone.elim hne fun hfalse => nomatch hfalse
  · rw [heq, if_pos ⟨hne, hwritten⟩]
    rfl

/-- What a step does to the pools: nothing, unless it is an `add` or an `expire`. -/
theorem NetStep.pool_cases {C : Crypto} {n n' : Net} {a : NetAction} (h : NetStep C n a n')
    (hn : n.whisper.Consistent C) :
    (n'.whisper.envelopes = n.whisper.envelopes ∧
      n'.whisper.expirations = n.whisper.expirations ∧ n'.clock = n.clock) ∨
    (∃ e isP2P, a = .add n'.clock e isP2P ∧
      n'.whisper = (n.whisper.add C n'.clock e isP2P).1) ∨
    ∃ seconds hashes, a = .expire n'.clock seconds hashes ∧ n.whisper.Orders seconds hashes ∧
      n'.whisper = n.whisper.afterExpire n'.clock seconds hashes := by
  cases a with
  | add now e isP2P =>
    cases h
    exact .inr (.inl ⟨e, isP2P, rfl, rfl⟩)
  | expire now seconds hashes =>
    obtain ⟨ho, w, hw, rfl⟩ := h
    rw [(Whisper.expire_eq hn ho now).1] at hw
    cases hw
    exact .inr (.inr ⟨seconds, hashes, rfl, ho, rfl⟩)
  | post event =>
    cases h
    exact .inl ⟨rfl, rfl, rfl⟩
  | mark i e =>
    obtain ⟨p, -, rfl⟩ := h
    exact .inl ⟨rfl, rfl, rfl⟩
  | expirePeer i order =>
    obtain ⟨p, -, -, rfl⟩ := h
    exact .inl ⟨rfl, rfl, rfl⟩
  | broadcast i order written =>
    obtain ⟨p, -, -, rfl⟩ := h
    obtain ⟨feed, hw⟩ := n.whisper_broadcast C i p order written
    rw [hw]
    exact .inl ⟨rfl, rfl, rfl⟩
  | connect i id =>
    obtain ⟨-, rfl⟩ := h
    exact .inl ⟨rfl, rfl, rfl⟩
  | negotiate i p' =>
    obtain ⟨p, -, -, rfl⟩ := h
    exact .inl ⟨rfl, rfl, rfl⟩
  | configure settings =>
    cases h
    exact .inl ⟨rfl, rfl, rfl⟩
  | processQueue =>
    obtain ⟨w, hw, rfl⟩ := h
    obtain ⟨henv, hexp⟩ := Whisper.processQueue_pools hw
    exact .inl ⟨henv, hexp, rfl⟩
  | processP2P =>
    obtain ⟨w, hw, rfl⟩ := h
    obtain ⟨henv, hexp⟩ := Whisper.processP2P_pools hw
    exact .inl ⟨henv, hexp, rfl⟩

theorem Net.broadcast_spec {C : Crypto} {n : Net} {i : PeerRef} {p : Peer}
    (hn : n.whisper.Consistent C) (hp : n.peers.lookup i = some p) (order : List Hash)
    (written : Bool) (j : PeerRef) :
    (∀ k ∈ n.known j, k ∈ (n.broadcast C i p order written).known j) ∧
    ((n.broadcast C i p order written).sentTo j = n.sentTo j ∨
      ∃ bundle, (n.broadcast C i p order written).sentTo j = n.sentTo j ++ [bundle] ∧
        ∀ k ∈ bundle, k ∈ n.whisper.envelopes ∧ k ∉ n.known j ∧
          k ∈ (n.broadcast C i p order written).known j) := by
  have hknown : ∀ j, (n.broadcast C i p order written).known j =
      (n.setPeer i (p.broadcast C n.whisper order written).1).known j := fun _ => rfl
  rw [hknown]
  rcases p.broadcast_cases C n.whisper order written with ⟨-, heq⟩ | ⟨-, -, heq⟩
  · have hsent : (n.broadcast C i p order written).sent = n.sent := by simp [broadcast, heq]
    rw [heq]
    refine ⟨fun k hk => mem_known_setPeer hp id hk, .inl ?_⟩
    rw [sentTo, hsent, sentTo]
  · have hsent : (n.broadcast C i p order written).sent =
        n.sent ++ [(i, (p.bundle C n.whisper order).map (Envelope.hash C))] := by
      simp [broadcast, heq]
    rw [heq]
    refine ⟨fun k hk => mem_known_setPeer hp (Peer.mem_known_foldl_mark.mpr <| .inl ·) hk, ?_⟩
    rw [sentTo_of_sent hsent]
    split
    · rename_i hij
      subst hij
      refine .inr ⟨_, rfl, fun k hk => ?_⟩
      obtain ⟨e, he, rfl⟩ := List.mem_map.mp hk
      obtain ⟨⟨h, -, hlookup⟩, hselects⟩ := Peer.mem_bundle.mp he
      have hhash := (hn.pooled h e hlookup).1
      subst hhash
      refine ⟨Finmap.mem_of_lookup_eq_some hlookup, ?_, ?_⟩
      · rw [known_of_lookup hp]
        exact (Peer.selects_iff.mp hselects).1
      · rw [known_setPeer, if_pos rfl]
        exact Peer.mem_known_foldl_mark.mpr (.inr hk)
    · exact .inl rfl

/-- A step keeps the known hashes that are pooled, and it sends nothing or one bundle of pooled
hashes that the peer is not known to hold. -/
theorem NetStep.peer_cases {C : Crypto} {n n' : Net} {a : NetAction} (h : NetStep C n a n')
    (hn : n.whisper.Consistent C) (i : PeerRef) :
    (∀ k ∈ n.known i, k ∈ n'.whisper.envelopes → k ∈ n'.known i) ∧
    (n'.sentTo i = n.sentTo i ∨ ∃ bundle, n'.sentTo i = n.sentTo i ++ [bundle] ∧
      ∀ k ∈ bundle, k ∈ n.whisper.envelopes ∧ k ∉ n.known i ∧
        k ∈ n'.whisper.envelopes ∧ k ∈ n'.known i) := by
  cases a with
  | add now e isP2P =>
    cases h
    exact ⟨fun k hk _ => hk, .inl rfl⟩
  | expire now seconds hashes =>
    obtain ⟨-, w, -, rfl⟩ := h
    exact ⟨fun k hk _ => hk, .inl rfl⟩
  | post event =>
    cases h
    exact ⟨fun k hk _ => hk, .inl rfl⟩
  | mark j e =>
    obtain ⟨p, hp, rfl⟩ := h
    exact ⟨fun k hk _ => Net.mem_known_setPeer hp (Peer.mem_known_mark.mpr <| .inr ·) hk, .inl rfl⟩
  | expirePeer j order =>
    obtain ⟨p, hp, -, rfl⟩ := h
    exact ⟨fun k hk hpool => Net.mem_known_setPeer hp (Peer.mem_known_expire order · hpool) hk,
      .inl rfl⟩
  | broadcast j order written =>
    obtain ⟨p, hp, -, rfl⟩ := h
    obtain ⟨hkeep, hsent⟩ := Net.broadcast_spec hn hp order written i
    refine ⟨fun k hk _ => hkeep k hk, hsent.imp_right fun ⟨bundle, heq, hbundle⟩ => ?_⟩
    refine ⟨bundle, heq, fun k hk => ?_⟩
    obtain ⟨hpool, hunknown, hknown⟩ := hbundle k hk
    obtain ⟨feed, hw⟩ := n.whisper_broadcast C j p order written
    rw [hw]
    exact ⟨hpool, hunknown, hpool, hknown⟩
  | connect j id =>
    obtain ⟨hj, rfl⟩ := h
    refine ⟨fun k hk _ => ?_, .inl rfl⟩
    rw [Net.known_setPeer]
    split
    · rename_i hij
      subst hij
      simp [Net.known, Finmap.lookup_eq_none.mpr hj] at hk
    · exact hk
  | negotiate j p' =>
    obtain ⟨p, hp, hknown, rfl⟩ := h
    exact ⟨fun k hk _ => Net.mem_known_setPeer hp (hknown ▸ ·) hk, .inl rfl⟩
  | configure settings =>
    cases h
    exact ⟨fun k hk _ => hk, .inl rfl⟩
  | processQueue =>
    obtain ⟨w, hw, rfl⟩ := h
    exact ⟨fun k hk _ => hk, .inl rfl⟩
  | processP2P =>
    obtain ⟨w, hw, rfl⟩ := h
    exact ⟨fun k hk _ => hk, .inl rfl⟩

/-! ### The pool -/

/-- What `add` does to the pool: every pooled hash stays, and a new one is that of the envelope,
which is cached and has not expired. -/
theorem Whisper.lookup_add {C : Crypto} {w : Whisper} {now : UInt32} {e : Envelope} {isP2P : Bool} :
    (∀ k ∈ w.envelopes, k ∈ (w.add C now e isP2P).1.envelopes) ∧
    ∀ k e', (w.add C now e isP2P).1.envelopes.lookup k = some e' →
      w.envelopes.lookup k = some e' ∨
        k = e.hash C ∧ e'.expiry = e.expiry ∧ now ≤ e.expiry ∧
          (w.add C now e isP2P).2 = .ok true := by
  rcases add_cases C w now e isP2P with hsame | ⟨e'', -, hhash, hexpiry, hnow, -, hadd⟩
  · rw [hsame]
    exact ⟨fun k hk => hk, fun k e' hk => .inl hk⟩
  · have henv : (w.add C now e isP2P).1.envelopes = w.envelopes.insert (e.hash C) e'' := by
      rw [hadd, announce_envelopes, ← hhash]
      rfl
    rw [henv]
    refine ⟨fun k hk => Finmap.mem_insert.mpr (.inr hk), fun k e' hk => ?_⟩
    by_cases hkh : k = e.hash C
    · subst hkh
      rw [Finmap.lookup_insert] at hk
      cases hk
      exact .inr ⟨rfl, hexpiry, hnow, by rw [hadd]⟩
    · rw [Finmap.lookup_insert_of_ne _ hkh] at hk
      exact .inl hk

theorem Whisper.mem_of_cached {C : Crypto} {w : Whisper} {now : UInt32} {e : Envelope}
    {isP2P : Bool} (h : (w.add C now e isP2P).2 = .ok true) :
    e.hash C ∈ (w.add C now e isP2P).1.envelopes := by
  obtain ⟨e', hcheck⟩ := add_cached_iff.mp h
  obtain ⟨hhash, -⟩ := Settings.same_of_check hcheck
  unfold add
  rw [hcheck]
  dsimp only
  split
  · rename_i hmem
    exact hhash ▸ hmem
  · rw [announce_envelopes, ← hhash]
    exact Finmap.mem_insert.mpr (.inl rfl)

theorem NetStep.consistent {C : Crypto} {n n' : Net} {a : NetAction} (h : NetStep C n a n')
    (hn : n.whisper.Consistent C) : n'.whisper.Consistent C := by
  rcases h.pool_cases hn with ⟨henv, hexp, -⟩ | ⟨e, isP2P, -, hw⟩ | ⟨seconds, hashes, -, ho, hw⟩
  · exact hn.congr henv hexp
  · rw [hw]
    exact Whisper.add_consistent hn _ _ _
  · rw [hw]
    exact (Whisper.expire_eq hn ho _).2

/-- A pooled envelope was pooled before, or it is the one that the step gives to `add`, cached and
not expired. -/
theorem NetStep.lookup {C : Crypto} {n n' : Net} {a : NetAction} (h : NetStep C n a n')
    (hn : n.whisper.Consistent C) {k : Hash} {e' : Envelope}
    (hk : n'.whisper.envelopes.lookup k = some e') :
    n.whisper.envelopes.lookup k = some e' ∨
      ∃ e isP2P, a = .add n'.clock e isP2P ∧ k = e.hash C ∧ e'.expiry = e.expiry ∧
        n'.clock ≤ e.expiry ∧ (n.whisper.add C n'.clock e isP2P).2 = .ok true := by
  rcases h.pool_cases hn with ⟨henv, -⟩ | ⟨e, isP2P, ha, hw⟩ | ⟨seconds, hashes, -, ho, hw⟩
  · rw [henv] at hk
    exact .inl hk
  · rw [hw] at hk
    rcases Whisper.lookup_add.2 k e' hk with hold | ⟨hhash, hexpiry, hnow, hcached⟩
    · exact .inl hold
    · exact .inr ⟨e, isP2P, ha, hhash, hexpiry, hnow, hcached⟩
  · rw [hw, Whisper.lookup_afterExpire hn ho] at hk
    exact .inl (Option.filter_eq_some_iff.mp hk).1

theorem NetStep.expiry_of_notMem {C : Crypto} {n n' : Net} {a : NetAction} (h : NetStep C n a n')
    (hn : n.whisper.Consistent C) {k : Hash} {e : Envelope}
    (hk : n.whisper.envelopes.lookup k = some e) (hgone : k ∉ n'.whisper.envelopes) :
    e.expiry < n'.clock := by
  have hmem := Finmap.mem_of_lookup_eq_some hk
  rcases h.pool_cases hn with ⟨henv, -⟩ | ⟨e', isP2P, -, hw⟩ | ⟨seconds, hashes, -, ho, hw⟩
  · rw [henv] at hgone
    exact absurd hmem hgone
  · rw [hw] at hgone
    exact absurd (Whisper.lookup_add.1 k hmem) hgone
  · have hnone := Finmap.lookup_eq_none.mpr hgone
    rw [hw, Whisper.lookup_afterExpire hn ho, hk, Option.filter_some] at hnone
    by_contra hlt
    rw [if_pos (by simpa using hlt)] at hnone
    cases hnone

/-! ### The sender to one peer -/

/-- The envelopes of a run do not collide: those with the same hash expire in the same second. -/
def NoCollision (C : Crypto) (es : List Envelope) : Prop :=
  ∀ e ∈ es, ∀ e' ∈ es, e.hash C = e'.hash C → e.expiry = e'.expiry

/-- The second in which the envelopes of a hash expire. -/
def expiryOf (C : Crypto) (es : List Envelope) (h : Hash) : UInt32 :=
  ((es.find? fun e => e.hash C = h).map Envelope.expiry).getD 0

theorem NoCollision.expiryOf {C : Crypto} {es : List Envelope} (h : NoCollision C es)
    {e : Envelope} (he : e ∈ es) : expiryOf C es (e.hash C) = e.expiry := by
  unfold Whisperv6.expiryOf
  cases hfind : es.find? fun e' => e'.hash C = e.hash C with
  | none =>
    have := List.find?_eq_none.mp hfind e he
    simp at this
  | some e' =>
    have hhash : e'.hash C = e.hash C := by simpa using List.find?_some hfind
    exact h e' (List.mem_of_find?_eq_some hfind) e he hhash

/-- At the state `n`, the clock has not gone back and the envelope expires with its hash. -/
structure NetAction.Admissible (C : Crypto) (f : Hash → UInt32) (n : Net) (a : NetAction) :
    Prop where
  timed : ∀ now, a.reading = some now → n.clock ≤ now
  expiry : ∀ e, a.added = some e → f (e.hash C) = e.expiry

/-- The pools agree, and every envelope expires with its hash. -/
structure Net.Filed (C : Crypto) (f : Hash → UInt32) (n : Net) : Prop where
  consistent : n.whisper.Consistent C
  expiry : ∀ h e, n.whisper.envelopes.lookup h = some e → f h = e.expiry

/-- The sender to the peer under `i`: an item is retired when its last second is over. -/
def Net.outbox (f : Hash → UInt32) (n : Net) (i : PeerRef) : Outbox Hash where
  pool := { h | h ∈ n.whisper.envelopes }
  known := { h | h ∈ n.known i }
  retired := { h | f h < n.clock }
  sent := n.sentTo i

theorem NetStep.clock_le {C : Crypto} {f : Hash → UInt32} {n n' : Net} {a : NetAction}
    (h : NetStep C n a n') (ha : a.Admissible C f n) (hn : n.Filed C f) : n.clock ≤ n'.clock := by
  rcases h.pool_cases hn.consistent with ⟨-, -, hclock⟩ | ⟨e, isP2P, rfl, -⟩ |
    ⟨seconds, hashes, rfl, -⟩
  · rw [hclock]
    exact UInt32.le_refl _
  · exact ha.timed _ rfl
  · exact ha.timed _ rfl

theorem NetStep.filed {C : Crypto} {f : Hash → UInt32} {n n' : Net} {a : NetAction}
    (h : NetStep C n a n') (ha : a.Admissible C f n) (hn : n.Filed C f) : n'.Filed C f := by
  refine ⟨h.consistent hn.consistent, fun k e' hk => ?_⟩
  rcases h.lookup hn.consistent hk with hk | ⟨e, isP2P, rfl, rfl, hexpiry, -⟩
  · exact hn.expiry k e' hk
  · rw [hexpiry]
    exact ha.expiry e rfl

/-- Every step is one of the sender to each peer. -/
theorem NetStep.outbox {C : Crypto} {f : Hash → UInt32} {n n' : Net} {a : NetAction}
    (h : NetStep C n a n') (ha : a.Admissible C f n) (hn : n.Filed C f) (i : PeerRef) :
    Outbox.Step (n.outbox f i) (n'.outbox f i) := by
  obtain ⟨hkeep, hsent⟩ := h.peer_cases hn.consistent i
  refine ⟨fun k hk => UInt32.lt_of_lt_of_le hk (h.clock_le ha hn), ?_, ?_, hkeep, hsent⟩
  · intro k hk hnew
    obtain ⟨e', he'⟩ := Finmap.mem_iff.mp hk
    rcases h.lookup hn.consistent he' with hold | ⟨e, isP2P, rfl, rfl, -, hnow, -⟩
    · exact absurd (Finmap.mem_of_lookup_eq_some hold) hnew
    · show ¬ f (e.hash C) < n'.clock
      rw [ha.expiry e rfl]
      exact UInt32.not_lt.mpr hnow
  · intro k hk hgone
    obtain ⟨e, he⟩ := Finmap.mem_iff.mp hk
    show f k < n'.clock
    rw [hn.expiry k e he]
    exact h.expiry_of_notMem hn.consistent he hgone

end Whisperv6
