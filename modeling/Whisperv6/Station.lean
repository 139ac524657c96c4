import Whisperv6.BloomRange

/-! A node with its peers, on any input.  The API is called with any filter, peers send any status
packet and any packet after it, and the goroutines take their steps in any order.  Every function
that reads a bloom filter is the one with checked indices, so a run that ends has met no index out
of range. -/

namespace Whisperv6

open ProofKit

/-! ### The state -/

/-- An envelope that the node sends.  The field `bloom` is not exported, and only `Bloom` stores to
it. -/
structure LocalEnvelope where
  envelope : Envelope
  bloom : ∀ b, envelope.bloomCache = some b → ∃ topic, b = topicToBloom topic

/-- A `Peer` with its goroutine of `HandlePeer`; `greeted` tells that its handshake has succeeded,
and `advertised` is the last filter from the peer that the node has stored. -/
structure Client where
  loop : Loop
  greeted : Bool := false
  advertised : Option Bytes := none

/-- The node.  `stores` are the filters that the goroutines of `SetBloomFilter` have still to store
as the tolerated one, and `calls` the calls of `Subscribe`. -/
structure Station where
  whisper : Whisper
  stores : List Bytes := []
  filters : Filters := {}
  calls : Nat → Option Call := fun _ => none
  clients : PeerRef → Option Client := fun _ => none

inductive StationAction
  | setBloomFilter (bloom : Bytes)
  | storeBloom (k : Nat)
  | configure (settings : Settings)
  | subscribe (i : Nat) (rnd : Entropy) (r : FilterRef) (f : Filter)
  | compare (i : Nat)
  | load (i : Nat)
  | store (i : Nat)
  | unsubscribe (id : String)
  | connect (p : PeerRef) (id : NodeID)
  | trust (p : PeerRef)
  | handshake (p : PeerRef) (packet : Packet) (sent : Option GoError)
  | read (p : PeerRef) (packet : Packet)
  | work (p : PeerRef) (now : UInt32) (sync : Option GoError)
  | send (now : UInt32) (e : LocalEnvelope)
  | broadcast (p : PeerRef) (order : List Hash) (written : Bool)
  | expire (now : UInt32) (seconds : List UInt32) (hashes : UInt32 → List Hash)
  | expirePeer (p : PeerRef) (order : List Hash)
  | disconnect (p : PeerRef) (fault : Fault)

/-! ### The steps of a peer -/

namespace Client

/-- The handshake.  One that fails leaves what it has stored before the error. -/
def handshake (c : Client) (settings : Settings) (packet : Packet) (sent : Option GoError) :
    Client :=
  if c.greeted || c.loop.returned.isSome then c
  else
    let advertised := packet.requirements.2.or c.advertised
    match c.loop.peer.handshake settings packet sent with
    | .ok p => { loop := { c.loop with peer := p }, greeted := true, advertised }
    | .error err =>
      let p := match c.loop.peer.receiveStatus settings packet with
        | .ok p => p
        | .error _ => c.loop.peer.record packet.requirements
      { c with loop := { c.loop with peer := p }.leave (.error err), advertised }

/-- The message loop reads its next packet. -/
def read (C : Crypto) (w : Whisper) (c : Client) (packet : Packet) : Client :=
  if c.greeted && c.loop.returned.isNone && c.loop.jobs.isEmpty then
    { c with
      loop := c.loop.read C w packet
      advertised :=
        if (w.checkPacketSize packet).isNone then packet.exchangedBloom.or c.advertised
        else c.advertised }
  else c

end Client

/-! ### The steps of the node -/

namespace Station

def start (cfg : Config) : Station := { whisper := new cfg }

def bloom (s : Station) : Option Bytes := s.whisper.settings.bloomFilter

def tolerance (s : Station) : Option Bytes := s.whisper.settings.bloomFilterTolerance

def setCall (s : Station) (i : Nat) (c : Call) : Station :=
  { s with calls := Function.update s.calls i (some c) }

def setClient (s : Station) (p : PeerRef) (c : Client) : Station :=
  { s with clients := Function.update s.clients p (some c) }

def mapClient (s : Station) (p : PeerRef) (f : Client → Client) : Station :=
  match s.clients p with
  | some c => s.setClient p (f c)
  | none => s

def setBloomFilter (s : Station) (bloom : Bytes) : Station :=
  match checkBloomFilter bloom with
  | some _ => s
  | none =>
    { s with whisper.settings.bloomFilter := some bloom, stores := s.stores ++ [bloom] }

/-- One of the goroutines of `SetBloomFilter` ends its sleep. -/
def storeBloom (s : Station) (k : Nat) : Station :=
  match s.stores[k]? with
  | some bloom =>
    { s with
      whisper.settings.bloomFilterTolerance := some bloom
      stores := s.stores.eraseIdx k }
  | none => s

/-- The other setters. -/
def configure (s : Station) (settings : Settings) : Station :=
  { s with
    whisper.settings := { settings with
      bloomFilter := s.bloom
      bloomFilterTolerance := s.tolerance } }

/-- The part of `Subscribe` before `updateBloomFilter`. -/
def subscribe (C : Crypto) (s : Station) (i : Nat) (rnd : Entropy) (r : FilterRef) (f : Filter) :
    Station :=
  match s.calls i, s.filters.install C rnd r f with
  | some _, _ => s
  | none, (filters, .ok _) => { s with filters }.setCall i ⟨f, .installed⟩
  | none, (filters, .error _) => { s with filters }

def compare (s : Station) (i : Nat) : Option Station :=
  match s.calls i with
  | some ⟨f, .installed⟩ => do
    let aggregate ← Checked.aggregate f
    let covered ← Checked.bloomFilterMatch s.bloom aggregate
    return s.setCall i ⟨f, if covered then .returned else .mismatched⟩
  | _ => some s

/-- The second load of `updateBloomFilter`, where nil is an empty slice. -/
def load (s : Station) (i : Nat) : Station :=
  match s.calls i with
  | some ⟨f, .mismatched⟩ => s.setCall i ⟨f, .loaded (s.bloom.getD [])⟩
  | _ => s

def store (s : Station) (i : Nat) : Option Station :=
  match s.calls i with
  | some ⟨f, .loaded b⟩ => do
    let aggregate ← Checked.aggregate f
    let bloom ← Checked.addBloom b aggregate
    return (s.setBloomFilter bloom).setCall i ⟨f, .returned⟩
  | _ => some s

/-- `HandlePeer` registers a new `Peer`. -/
def connect (s : Station) (p : PeerRef) (id : NodeID) : Station :=
  match s.clients p with
  | some _ => s
  | none => s.setClient p { loop := { peer := newPeer id } }

/-- The reads of the filters of the node by the next of the jobs: only `add` has some. -/
def checkJob (C : Crypto) (s : Station) (now : UInt32) (jobs : List Job) : Option Unit :=
  match jobs with
  | .add e :: _ => (Checked.check C s.whisper.settings now e).map fun _ => ()
  | _ => some ()

/-- The next job of a message loop. -/
def work (C : Crypto) (s : Station) (p : PeerRef) (now : UInt32) (sync : Option GoError) :
    Option Station :=
  match s.clients p with
  | none => some s
  | some c => do
    s.checkJob C now c.loop.jobs
    let out := c.loop.work C now sync s.whisper
    return { s with whisper := out.1 }.setClient p { c with loop := out.2 }

def send (C : Crypto) (s : Station) (now : UInt32) (e : Envelope) : Option Station := do
  let _ ← Checked.check C s.whisper.settings now e
  return { s with whisper := (s.whisper.send C now e).1 }

/-- The broadcast to a peer, which starts after its handshake. -/
def broadcast (C : Crypto) (s : Station) (p : PeerRef) (order : List Hash) (written : Bool) :
    Option Station :=
  match s.clients p with
  | none => some s
  | some c =>
    if c.greeted then do
      let _ ← Checked.bundle C c.loop.peer s.whisper order
      let out := c.loop.peer.broadcast C s.whisper order written
      return { s with whisper := out.2.1 }.setClient p { c with loop.peer := out.1 }
    else some s

/-- `expire`.  That it finds the envelope of every hash is a matter of the pool. -/
def expire (s : Station) (now : UInt32) (seconds : List UInt32) (hashes : UInt32 → List Hash) :
    Station :=
  match s.whisper.expire now seconds hashes with
  | some w => { s with whisper := w }
  | none => s

/-- One step, where `none` is an index out of range.  A step that has no turn changes nothing. -/
def exec (C : Crypto) (s : Station) : StationAction → Option Station
  | .setBloomFilter bloom => some (s.setBloomFilter bloom)
  | .storeBloom k => some (s.storeBloom k)
  | .configure settings => some (s.configure settings)
  | .subscribe i rnd r f => some (s.subscribe C i rnd r f)
  | .compare i => s.compare i
  | .load i => some (s.load i)
  | .store i => s.store i
  | .unsubscribe id => some { s with filters := (s.filters.uninstall id).1 }
  | .connect p id => some (s.connect p id)
  | .trust p => some (s.mapClient p fun c => { c with loop.peer.trusted := true })
  | .handshake p packet sent =>
    some (s.mapClient p fun c => c.handshake s.whisper.settings packet sent)
  | .read p packet => some (s.mapClient p fun c => c.read C s.whisper packet)
  | .work p now sync => s.work C p now sync
  | .send now e => s.send C now e.envelope
  | .broadcast p order written => s.broadcast C p order written
  | .expire now seconds hashes => some (s.expire now seconds hashes)
  | .expirePeer p order =>
    some (s.mapClient p fun c => { c with loop.peer := c.loop.peer.expire s.whisper order })
  | .disconnect p fault => some (s.mapClient p fun c => { c with loop := c.loop.leave fault })

end Station

/-! ### The node keeps its filters in range -/

theorem LocalEnvelope.ranged (e : LocalEnvelope) : e.envelope.Ranged := by
  unfold Envelope.Ranged Envelope.bloom
  cases hcache : e.envelope.bloomCache with
  | none => exact length_topicToBloom _
  | some b =>
    obtain ⟨topic, rfl⟩ := e.bloom b hcache
    exact length_topicToBloom topic

/-- An envelope that was decoded has no cached filter. -/
theorem Envelope.ranged_of_received {C : Crypto} {e : Envelope} (h : e.received C = e) :
    e.Ranged := by
  rw [← h]
  exact length_topicToBloom _

theorem Settings.ranged_of_check {C : Crypto} {s : Settings} {now : UInt32} {e e' : Envelope}
    (h : s.check C now e = .ok (some e')) (he : e.Ranged) : e'.Ranged := by
  obtain ⟨rfl, -⟩ := check_some_iff.mp h
  show (e.adjust C now).bloom.length = bloomFilterSize
  rw [Envelope.bloom_adjust]
  exact he

namespace Whisper

/-- The filters of the node, and those of the envelopes in its pool, are in range. -/
structure Ranged (w : Whisper) : Prop where
  current : Whisperv6.Ranged w.settings.bloomFilter
  tolerated : Whisperv6.Ranged w.settings.bloomFilterTolerance
  pool : ∀ k e, w.envelopes.lookup k = some e → e.Ranged

/-- The filters of the node are as before, and the pool has gained no envelope but ones in
range. -/
structure Keeps (w w' : Whisper) : Prop where
  current : w'.settings.bloomFilter = w.settings.bloomFilter
  tolerated : w'.settings.bloomFilterTolerance = w.settings.bloomFilterTolerance
  pool : ∀ k e, w'.envelopes.lookup k = some e → w.envelopes.lookup k = some e ∨ e.Ranged

theorem Keeps.ranged {w w' : Whisper} (h : w.Keeps w') (hw : w.Ranged) : w'.Ranged where
  current := h.current ▸ hw.current
  tolerated := h.tolerated ▸ hw.tolerated
  pool k e he := (h.pool k e he).elim (hw.pool k e) id

/-- A change of neither the filters nor the pool. -/
theorem Keeps.of_eq {w w' : Whisper}
    (hcurrent : w'.settings.bloomFilter = w.settings.bloomFilter)
    (htolerated : w'.settings.bloomFilterTolerance = w.settings.bloomFilterTolerance)
    (hpool : w'.envelopes = w.envelopes) : w.Keeps w' :=
  ⟨hcurrent, htolerated, fun _ _ he => .inl (hpool ▸ he)⟩

theorem Keeps.refl (w : Whisper) : w.Keeps w := .of_eq rfl rfl rfl

theorem Keeps.trans {w₁ w₂ w₃ : Whisper} (h : w₁.Keeps w₂) (h' : w₂.Keeps w₃) : w₁.Keeps w₃ where
  current := h'.current.trans h.current
  tolerated := h'.tolerated.trans h.tolerated
  pool k e he := (h'.pool k e he).elim (h.pool k e) .inr

theorem keeps_insert (C : Crypto) (w : Whisper) {e : Envelope} (he : e.Ranged) :
    w.Keeps (w.insert C e) := by
  refine ⟨rfl, rfl, fun k e' hk => ?_⟩
  rcases lookup_insert_iff.mp hk with ⟨-, rfl⟩ | ⟨-, hk⟩
  · exact .inr he
  · exact .inl hk

theorem keeps_announce (C : Crypto) (w : Whisper) (e : Envelope) (isP2P : Bool) :
    w.Keeps (w.announce C e isP2P) := by
  obtain ⟨flag, h⟩ := w.announce_update C e isP2P
  rw [h]
  exact .of_eq rfl rfl rfl

theorem keeps_send (C : Crypto) (w : Whisper) (now : UInt32) {e : Envelope} (he : e.Ranged) :
    w.Keeps (w.send C now e).1 := by
  show w.Keeps (w.add C now e false).1
  rcases add_cases C w now e false with hsame | ⟨e', hcheck, -, -, -, -, hadd⟩
  · rw [hsame]
    exact .refl w
  · rw [hadd]
    exact (w.keeps_insert C (Settings.ranged_of_check hcheck he)).trans (keeps_announce ..)

theorem keeps_expireEnvelope {w w' : Whisper} {k : Hash} {stop : Bool}
    (h : expireEnvelope k w = some (stop, w')) : w.Keeps w' := by
  unfold expireEnvelope at h
  split at h
  · cases h
  · cases h
    refine ⟨rfl, rfl, fun _ _ hk => .inl ?_⟩
    exact (lookup_erase_iff.mp hk).2

theorem keeps_expireSecond {w w' : Whisper} {now t : UInt32} {hashes : UInt32 → List Hash}
    (h : expireSecond now hashes w t = some w') : w.Keeps w' := by
  unfold expireSecond at h
  split at h
  · obtain ⟨w₁, heach, rfl⟩ := Option.map_eq_some_iff.mp h
    have hw₁ : w.Keeps w₁ :=
      each_invariant (fun _ _ _ _ hs hcb => hs.trans (keeps_expireEnvelope hcb)) (.refl w) heach
    exact hw₁.trans (.of_eq rfl rfl rfl)
  · cases h
    exact .refl w

theorem keeps_expire {w w' : Whisper} {now : UInt32} {seconds : List UInt32}
    {hashes : UInt32 → List Hash} (h : w.expire now seconds hashes = some w') : w.Keeps w' := by
  have hrun : Run (fun s t s' => expireSecond now hashes s t = some s') _ seconds w' :=
    Run.of_foldlM (fun _ _ _ hstep => hstep) h
  refine hrun.invariant (.of_eq rfl rfl rfl) ?_
  intro s t s' _ hs hstep
  exact hs.trans (keeps_expireSecond hstep)

end Whisper

theorem Loop.Changes.keeps {C : Crypto} {now : UInt32} {w w' : Whisper} {jobs : List Job}
    (h : Changes C now w jobs w') (hjobs : ∀ e, Job.add e ∈ jobs → e.Ranged) : w.Keeps w' := by
  cases h with
  | same => exact .refl w
  | stored e e' hjob hcheck =>
    exact w.keeps_insert C (Settings.ranged_of_check hcheck (hjobs e hjob))
  | announced e isP2P => exact w.keeps_announce C e isP2P
  | _ => exact .of_eq rfl rfl rfl

theorem Peer.broadcast_keeps (C : Crypto) (p : Peer) (w : Whisper) (order : List Hash)
    (written : Bool) :
    w.Keeps (p.broadcast C w order written).2.1 ∧
      ∃ known, (p.broadcast C w order written).1 = { p with known := known } := by
  rcases p.broadcast_cases C w order written with ⟨-, heq⟩ | ⟨-, -, heq⟩
  · rw [heq]
    exact ⟨.refl w, _, rfl⟩
  · rw [heq]
    exact ⟨.of_eq rfl rfl rfl, p.foldl_mark_update C _⟩

/-! ### A peer keeps its filter in range -/

theorem Loop.read_follows {C : Crypto} {w : Whisper} {l : Loop} {packet : Packet}
    {advertised : Option Bytes} (h : l.peer.Follows advertised) :
    (l.read C w packet).peer.Follows
      (if (w.checkPacketSize packet).isNone then packet.exchangedBloom.or advertised
        else advertised) := by
  unfold read
  cases w.checkPacketSize packet with
  | some err => exact h
  | none =>
    show Peer.Follows _ (packet.exchangedBloom.or advertised)
    by_cases hcode : packet.code = bloomFilterExCode
    · have hjobs : ∀ p, packet.jobs C w p = .ok [] := by
        intro p
        rw [Packet.jobs, hcode]
        rfl
      rw [Packet.applyTo_bloom hcode]
      cases hbloom : packet.exchangedBloom with
      | none => exact h
      | some b =>
        dsimp only
        rw [hjobs]
        exact h.storeBloom fun b' hb' => .inl (Packet.exchangedBloom_length (hbloom.trans hb'))
    · have hnone : packet.exchangedBloom = none := if_neg hcode
      rw [hnone, Option.none_or]
      cases happly : packet.applyTo l.peer with
      | error err => exact h
      | ok p =>
        obtain ⟨hbloom, hfull⟩ := Packet.applyTo_other hcode happly
        dsimp only
        split
        · exact h
        · exact h.congr hbloom hfull

namespace Client

/-- The record of the peer is that of the filter it has advertised, and the envelopes that its
message loop has still to add are in range. -/
structure Ranged (c : Client) : Prop where
  peer : c.loop.peer.Follows c.advertised
  jobs : ∀ e, Job.add e ∈ c.loop.jobs → e.Ranged

theorem Ranged.handshake {c : Client} (h : c.Ranged) (settings : Settings) (packet : Packet)
    (sent : Option GoError) : (c.handshake settings packet sent).Ranged := by
  have hrecord : (c.loop.peer.record packet.requirements).Follows
      (packet.requirements.2.or c.advertised) := by
    refine Peer.Follows.storeBloom ?_ fun _ => Packet.requirements_length
    exact h.peer.congr rfl rfl
  have hstatus : ∀ p, c.loop.peer.receiveStatus settings packet = .ok p →
      p.Follows (packet.requirements.2.or c.advertised) := by
    intro p hp
    obtain ⟨confirms, rfl⟩ := Peer.receiveStatus_ok hp
    exact hrecord.congr rfl rfl
  unfold Client.handshake
  split
  · exact h
  dsimp only
  split
  · rename_i p hp
    exact ⟨hstatus p (Peer.handshake_ok hp), h.jobs⟩
  · refine ⟨?_, fun e he => by cases he⟩
    show Peer.Follows (match c.loop.peer.receiveStatus settings packet with
      | .ok p => p
      | .error _ => c.loop.peer.record packet.requirements) _
    split
    · exact hstatus _ ‹_›
    · exact hrecord

theorem Ranged.read {c : Client} (h : c.Ranged) (C : Crypto) (w : Whisper) (packet : Packet) :
    (c.read C w packet).Ranged := by
  unfold Client.read
  split
  · refine ⟨?_, fun e he => ?_⟩
    · exact Loop.read_follows h.peer
    · obtain ⟨p, -, hyields⟩ := Loop.mem_read_jobs he
      cases hyields with
      | add e hcode he => exact Envelope.ranged_of_received he
  · exact h

end Client

/-! ### Every state that is reached -/

namespace Station

/-- What a call of `Subscribe` relies on: after a mismatch the filter of the node is not nil, and a
filter that was loaded has 64 bytes. -/
def Fits (bloom : Option Bytes) : CallState → Prop
  | .mismatched => bloom ≠ none
  | .loaded b => b.length = bloomFilterSize
  | _ => True

structure Ranged (s : Station) : Prop where
  whisper : s.whisper.Ranged
  stores : ∀ b ∈ s.stores, b.length = bloomFilterSize
  calls : ∀ i c, s.calls i = some c → Fits s.bloom c.state
  clients : ∀ p c, s.clients p = some c → c.Ranged

namespace Ranged

variable {s : Station}

theorem start (cfg : Config) : (start cfg).Ranged where
  whisper := ⟨(fun _ h => by cases h), (fun _ h => by cases h), (fun _ _ h => by cases h)⟩
  stores _ h := by cases h
  calls _ _ h := by cases h
  clients _ _ h := by cases h

theorem setFilters (h : s.Ranged) (filters : Filters) : { s with filters }.Ranged :=
  ⟨h.whisper, h.stores, h.calls, h.clients⟩

theorem setCall (h : s.Ranged) (i : Nat) {c : Call} (hc : Fits s.bloom c.state) :
    (s.setCall i c).Ranged := by
  refine { h with calls := fun j c' hc' => ?_ }
  rcases update_some_iff.mp hc' with ⟨-, rfl⟩ | ⟨-, hc'⟩
  · exact hc
  · exact h.calls j c' hc'

theorem setClient (h : s.Ranged) (p : PeerRef) {c : Client} (hc : c.Ranged) :
    (s.setClient p c).Ranged := by
  refine { h with clients := fun q c' hc' => ?_ }
  rcases update_some_iff.mp hc' with ⟨-, rfl⟩ | ⟨-, hc'⟩
  · exact hc
  · exact h.clients q c' hc'

theorem mapClient (h : s.Ranged) (p : PeerRef) {f : Client → Client}
    (hf : ∀ c, c.Ranged → (f c).Ranged) : (s.mapClient p f).Ranged := by
  unfold Station.mapClient
  split
  · exact h.setClient p (hf _ (h.clients p _ ‹_›))
  · exact h

theorem setWhisper (h : s.Ranged) {w : Whisper} (hw : s.whisper.Keeps w) :
    { s with whisper := w }.Ranged where
  whisper := hw.ranged h.whisper
  stores := h.stores
  calls i c hc := by
    show Fits w.settings.bloomFilter c.state
    rw [hw.current]
    exact h.calls i c hc
  clients := h.clients

theorem setBloomFilter (h : s.Ranged) (bloom : Bytes) : (s.setBloomFilter bloom).Ranged := by
  unfold Station.setBloomFilter
  split
  · exact h
  · rename_i hcheck
    have hlen := checkBloomFilter_none.mp hcheck
    refine ⟨⟨fun b hb => ?_, h.whisper.tolerated, h.whisper.pool⟩, fun b hb => ?_,
      fun i c hc => ?_, h.clients⟩
    · cases hb
      exact hlen
    · rcases List.mem_append.mp hb with hb | hb
      · exact h.stores b hb
      · rw [List.mem_singleton.mp hb]
        exact hlen
    · -- a filter that is set is not nil
      have hfits := h.calls i c hc
      cases hstate : c.state with
      | mismatched => exact Option.some_ne_none bloom
      | loaded b =>
        rw [hstate] at hfits
        exact hfits
      | _ => trivial

theorem storeBloom (h : s.Ranged) (k : Nat) : (s.storeBloom k).Ranged := by
  unfold Station.storeBloom
  split
  · rename_i bloom hk
    refine ⟨⟨h.whisper.current, fun b hb => ?_, h.whisper.pool⟩, fun b hb => ?_, h.calls,
      h.clients⟩
    · cases hb
      exact h.stores _ (List.mem_of_getElem? hk)
    · exact h.stores b (List.mem_of_mem_eraseIdx hb)
  · exact h

theorem subscribe (h : s.Ranged) (C : Crypto) (i : Nat) (rnd : Entropy) (r : FilterRef)
    (f : Filter) : (s.subscribe C i rnd r f).Ranged := by
  unfold Station.subscribe
  split
  · exact h
  · exact (h.setFilters _).setCall i trivial
  · exact h.setFilters _

theorem load (h : s.Ranged) (i : Nat) : (s.load i).Ranged := by
  unfold Station.load
  split
  · rename_i f hcall
    refine h.setCall i ?_
    have hsome : s.bloom ≠ none := h.calls i _ hcall
    obtain ⟨b, hb⟩ := Option.ne_none_iff_exists'.mp hsome
    show (s.bloom.getD []).length = bloomFilterSize
    rw [hb]
    exact h.whisper.current b hb
  · exact h

theorem compare (h : s.Ranged) (i : Nat) : ∃ t, s.compare i = some t ∧ t.Ranged := by
  unfold Station.compare
  split
  · rename_i f hcall
    obtain ⟨haggregate, hlen⟩ := Checked.aggregate_eq f
    have hbloom : Whisperv6.Ranged s.bloom := h.whisper.current
    rw [haggregate, Option.bind_eq_bind, Option.bind_some, Checked.bloomFilterMatch_eq hbloom hlen]
    refine ⟨_, rfl, h.setCall i ?_⟩
    cases hmatch : bloomFilterMatch s.bloom f.aggregate with
    | true => trivial
    | false =>
      -- nil matches everything
      intro hnone
      rw [hnone] at hmatch
      cases hmatch
  · exact ⟨s, rfl, h⟩

theorem store (h : s.Ranged) (i : Nat) : ∃ t, s.store i = some t ∧ t.Ranged := by
  unfold Station.store
  split
  · rename_i f b hcall
    obtain ⟨haggregate, hlen⟩ := Checked.aggregate_eq f
    rw [haggregate, Option.bind_eq_bind, Option.bind_some,
      Checked.addBloom_eq (h.calls i _ hcall) hlen]
    exact ⟨_, rfl, (h.setBloomFilter _).setCall i trivial⟩
  · exact ⟨s, rfl, h⟩

theorem connect (h : s.Ranged) (p : PeerRef) (id : NodeID) : (s.connect p id).Ranged := by
  unfold Station.connect
  split
  · exact h
  · exact h.setClient p ⟨⟨rfl, rfl, fun _ hb => by cases hb⟩, fun _ he => by cases he⟩

theorem check_eq (h : s.Ranged) (C : Crypto) (now : UInt32) {e : Envelope} (he : e.Ranged) :
    Checked.check C s.whisper.settings now e = some (s.whisper.settings.check C now e) :=
  Checked.check_eq h.whisper.current h.whisper.tolerated he

theorem checkJob (h : s.Ranged) (C : Crypto) (now : UInt32) {jobs : List Job}
    (hjobs : ∀ e, Job.add e ∈ jobs → e.Ranged) : s.checkJob C now jobs = some () := by
  unfold Station.checkJob
  split
  · rename_i e rest
    rw [h.check_eq C now (hjobs e List.mem_cons_self)]
    rfl
  · rfl

theorem work (h : s.Ranged) (C : Crypto) (p : PeerRef) (now : UInt32) (sync : Option GoError) :
    ∃ t, s.work C p now sync = some t ∧ t.Ranged := by
  unfold Station.work
  split
  · exact ⟨s, rfl, h⟩
  rename_i c hclient
  have hc := h.clients p c hclient
  have hkeeps := (Loop.work_changes C now sync s.whisper c.loop).keeps hc.jobs
  have hleaves := Loop.work_leaves C now sync s.whisper c.loop
  rw [h.checkJob C now hc.jobs]
  refine ⟨_, rfl, (h.setWhisper hkeeps).setClient p ⟨?_, fun e he => ?_⟩⟩
  · obtain ⟨known, hpeer⟩ := hleaves.peer_eq
    exact hc.peer.of_known hpeer
  · rcases hleaves.mem_jobs he with hjob | hrest
    · exact hc.jobs e hjob
    · cases hrest

theorem send (h : s.Ranged) (C : Crypto) (now : UInt32) {e : Envelope} (he : e.Ranged) :
    ∃ t, s.send C now e = some t ∧ t.Ranged := by
  unfold Station.send
  rw [h.check_eq C now he]
  exact ⟨_, rfl, h.setWhisper (s.whisper.keeps_send C now he)⟩

theorem broadcast (h : s.Ranged) (C : Crypto) (p : PeerRef) (order : List Hash)
    (written : Bool) : ∃ t, s.broadcast C p order written = some t ∧ t.Ranged := by
  unfold Station.broadcast
  split
  · exact ⟨s, rfl, h⟩
  rename_i c hclient
  have hc := h.clients p c hclient
  split
  · rw [Checked.bundle_eq hc.peer.ranged h.whisper.pool]
    obtain ⟨hkeeps, known, hpeer⟩ := c.loop.peer.broadcast_keeps C s.whisper order written
    exact ⟨_, rfl, (h.setWhisper hkeeps).setClient p ⟨hc.peer.of_known hpeer, hc.jobs⟩⟩
  · exact ⟨s, rfl, h⟩

theorem expire (h : s.Ranged) (now : UInt32) (seconds : List UInt32)
    (hashes : UInt32 → List Hash) : (s.expire now seconds hashes).Ranged := by
  unfold Station.expire
  split
  · exact h.setWhisper (Whisper.keeps_expire ‹_›)
  · exact h

/-- A step from a state in range meets no index out of range, and leads to a state in range. -/
theorem exec (h : s.Ranged) (C : Crypto) (a : StationAction) :
    ∃ t, s.exec C a = some t ∧ t.Ranged := by
  cases a with
  | setBloomFilter bloom => exact ⟨_, rfl, h.setBloomFilter bloom⟩
  | storeBloom k => exact ⟨_, rfl, h.storeBloom k⟩
  | configure settings => exact ⟨_, rfl, h.setWhisper (.of_eq rfl rfl rfl)⟩
  | subscribe i rnd r f => exact ⟨_, rfl, h.subscribe C i rnd r f⟩
  | compare i => exact h.compare i
  | load i => exact ⟨_, rfl, h.load i⟩
  | store i => exact h.store i
  | unsubscribe id => exact ⟨_, rfl, h.setFilters _⟩
  | connect p id => exact ⟨_, rfl, h.connect p id⟩
  | trust p => exact ⟨_, rfl, h.mapClient p fun c hc => ⟨hc.peer.congr rfl rfl, hc.jobs⟩⟩
  | handshake p packet sent =>
    exact ⟨_, rfl, h.mapClient p fun c hc => hc.handshake _ packet sent⟩
  | read p packet => exact ⟨_, rfl, h.mapClient p fun c hc => hc.read C _ packet⟩
  | work p now sync => exact h.work C p now sync
  | send now e => exact h.send C now e.ranged
  | broadcast p order written => exact h.broadcast C p order written
  | expire now seconds hashes => exact ⟨_, rfl, h.expire now seconds hashes⟩
  | expirePeer p order =>
    exact ⟨_, rfl, h.mapClient p fun c hc => ⟨hc.peer.congr rfl rfl, hc.jobs⟩⟩
  | disconnect p fault =>
    exact ⟨_, rfl, h.mapClient p fun c hc => ⟨hc.peer, fun e he => by cases he⟩⟩

end Ranged

/-- The lengths of all filters of the node and of its peers, what the flag of a peer means, and that
`BloomFilterMatch`, `addBloom` and `bloomMatch` can read the filters. -/
structure InRange (s : Station) : Prop where
  current : ∀ b, s.bloom = some b → b.length = bloomFilterSize
  tolerated : ∀ b, s.tolerance = some b → b.length = bloomFilterSize
  peer : ∀ p c, s.clients p = some c → c.loop.peer.fullNode = false →
    c.loop.peer.bloomFilter.length = bloomFilterSize
  fullNode : ∀ p c, s.clients p = some c →
    (c.loop.peer.fullNode = true ↔
      ∀ b, c.advertised = some b → b = [] ∨ b = makeFullNodeBloom)
  bloomFilterMatch : ∀ topic,
    (Checked.bloomFilterMatch s.bloom (topicToBloom topic)).isSome ∧
      (Checked.bloomFilterMatch s.tolerance (topicToBloom topic)).isSome
  updateBloomFilter : ∀ f : Filter, ∃ aggregate, Checked.aggregate f = some aggregate ∧
    (Checked.bloomFilterMatch s.bloom aggregate).isSome ∧
    ∀ b, s.bloom = some b → (Checked.addBloom b aggregate).isSome
  bloomMatch : ∀ p c k e, s.clients p = some c → s.whisper.envelopes.lookup k = some e →
    (Checked.bloomMatch c.loop.peer e).isSome

theorem Ranged.inRange {s : Station} (h : s.Ranged) : s.InRange where
  current := h.whisper.current
  tolerated := h.whisper.tolerated
  peer p c hc := (h.clients p c hc).peer.ranged
  fullNode p c hc := (h.clients p c hc).peer.fullNode_iff
  bloomFilterMatch topic := by
    have hlen := length_topicToBloom topic
    constructor
    · exact Option.isSome_of_eq_some (Checked.bloomFilterMatch_eq h.whisper.current hlen)
    · exact Option.isSome_of_eq_some (Checked.bloomFilterMatch_eq h.whisper.tolerated hlen)
  updateBloomFilter f := by
    obtain ⟨haggregate, hlen⟩ := Checked.aggregate_eq f
    refine ⟨_, haggregate, ?_, fun b hb => ?_⟩
    · exact Option.isSome_of_eq_some (Checked.bloomFilterMatch_eq h.whisper.current hlen)
    · exact Option.isSome_of_eq_some (Checked.addBloom_eq (h.whisper.current b hb) hlen)
  bloomMatch p c k e hc he := by
    have hpeer := (h.clients p c hc).peer.ranged
    exact Option.isSome_of_eq_some (Checked.bloomMatch_eq hpeer (h.whisper.pool k e he))

/-- No sequence of calls, packets and steps of goroutines meets an index out of range, and in every
state that one leads to the filters have their lengths: those of the node are nil or have 64 bytes,
and that of a peer has 64 bytes unless the peer is a full node, which it is exactly when it has
advertised an empty filter or one of all ones, or none yet. -/
theorem bloom_accesses_in_range (C : Crypto) (cfg : Config) (acts : List StationAction) :
    ∃ s, acts.foldlM (exec C) (start cfg) = some s ∧ s.InRange := by
  obtain ⟨s, hrun, hs⟩ := foldlM_total (fun _ hs a => Ranged.exec hs C a) acts (Ranged.start cfg)
  exact ⟨s, hrun, hs.inRange⟩

end Station

end Whisperv6
