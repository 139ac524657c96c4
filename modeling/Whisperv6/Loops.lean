import Whisperv6.MessageLoop
import Whisperv6.Transmission

/-! The message loops of a node, with the calls of `Send`.  A loop handles a received envelope in
three steps, `add`, the event and the mark, and every other goroutine may work between them. -/

namespace Whisperv6

open ProofKit

/-- `Send`: the node after it and the error that it returns. -/
def Whisper.send (C : Crypto) (w : Whisper) (now : UInt32) (e : Envelope) :
    Whisper × Option GoError :=
  let (w', result) := w.add C now e false
  (w', match result with
    | .error err => some (err.value C w.settings now e)
    | .ok false => some (newError "failed to add envelope")
    | .ok true => none)

theorem Whisper.send_eq_none_iff {C : Crypto} {w : Whisper} {now : UInt32} {e : Envelope} :
    (w.send C now e).2 = none ↔ (w.add C now e false).2 = .ok true := by
  unfold send
  cases w.add C now e false with
  | mk w' result =>
    cases result with
    | error err => simp
    | ok cached => cases cached <;> simp

/-- Where the message loop of a peer is: before an envelope, after `add` has returned for it, or
after the event. -/
inductive LoopState
  | reading
  | added (e : Envelope) (cached : Bool)
  | posted (e : Envelope) (cached : Bool)

/-- An envelope that a loop has read, and whether `add` has cached it. -/
structure Receipt where
  peer : PeerRef
  hash : Hash
  cached : Bool
  deriving DecidableEq

/-- The node with its message loops.  `received` lists what the loops have read, and `injected` the
hashes for which `Send` has returned without an error. -/
structure Hub where
  net : Net
  loops : PeerRef → LoopState := fun _ => .reading
  received : List Receipt := []
  injected : List Hash := []

inductive HubAction
  | send (now : UInt32) (e : Envelope)
  | receive (i : PeerRef) (now : UInt32) (e : Envelope)
  | post (i : PeerRef)
  | mark (i : PeerRef)
  | background (a : NetAction)

/-- The operations of the goroutines that are no message loop. -/
def NetAction.isBackground : NetAction → Bool
  | .add .. => false
  | .post _ => false
  | .mark .. => false
  | _ => true

namespace Hub

def start (w : Whisper) : Hub := { net := .start w }

/-- What `add` returns for an envelope that a loop has read. -/
def caches (C : Crypto) (s : Hub) (now : UInt32) (e : Envelope) : Bool :=
  decide ((s.net.whisper.add C now e s.net.whisper.settings.lightClientMode).2 = .ok true)

/-- The event of a loop for an envelope that it has read. -/
def receivedEvent (C : Crypto) (p : Peer) (e : Envelope) : EnvelopeEvent :=
  { event := .envelopeReceived, topic := e.topic, hash := e.hash C, peer := p.id }

end Hub

/-- The steps: a call of `Send`, a step of a message loop, or an operation of another goroutine. -/
def HubStep (C : Crypto) (s : Hub) : HubAction → Hub → Prop
  | .send now e, t => ∃ net, NetStep C s.net (.add now e false) net ∧
    t = { s with
      net
      injected := if (s.net.whisper.send C now e).2 = none then s.injected ++ [e.hash C]
        else s.injected }
  | .receive i now e, t =>
    i ∈ s.net.peers ∧ s.loops i = .reading ∧
    ∃ net, NetStep C s.net
      (.add now (e.received C) s.net.whisper.settings.lightClientMode) net ∧
    t = { s with
      net
      loops := Function.update s.loops i (.added (e.received C) (s.caches C now (e.received C)))
      received := s.received ++ [⟨i, (e.received C).hash C, s.caches C now (e.received C)⟩] }
  | .post i, t => ∃ e cached p net, s.loops i = .added e cached ∧ s.net.peers.lookup i = some p ∧
    NetStep C s.net (.post (Hub.receivedEvent C p e)) net ∧
    t = { s with net, loops := Function.update s.loops i (.posted e cached) }
  | .mark i, t => ∃ e cached net, s.loops i = .posted e cached ∧
    (if cached then NetStep C s.net (.mark i e) net else net = s.net) ∧
    t = { s with net, loops := Function.update s.loops i .reading }
  | .background a, t => a.isBackground = true ∧ ∃ net, NetStep C s.net a net ∧ t = { s with net }

/-- The envelope that an action gives to `add`. -/
def HubAction.added (C : Crypto) : HubAction → Option Envelope
  | .send _ e => some e
  | .receive _ _ e => some (e.received C)
  | .background a => a.added
  | _ => none

def HubAction.reading : HubAction → Option UInt32
  | .send now _ => some now
  | .receive _ now _ => some now
  | .background a => a.reading
  | _ => none

/-- A step leaves the node, or it is one operation on it with the same clock reading and the same
envelope.  The operation is an `add` only for a call of `Send` or for an envelope that a loop
reads. -/
theorem HubStep.net_cases {C : Crypto} {s t : Hub} {a : HubAction} (h : HubStep C s a t) :
    t.net = s.net ∨ ∃ b, NetStep C s.net b t.net ∧ b.reading = a.reading ∧ b.added = a.added C ∧
      ∀ now e isP2P, b = .add now e isP2P →
        a = .send now e ∧ isP2P = false ∨
        ∃ i e', a = .receive i now e' ∧ e = e'.received C ∧
          isP2P = s.net.whisper.settings.lightClientMode := by
  cases a with
  | send now e =>
    obtain ⟨net, hstep, rfl⟩ := h
    refine .inr ⟨_, hstep, rfl, rfl, fun _ _ _ heq => ?_⟩
    cases heq
    exact .inl ⟨rfl, rfl⟩
  | receive i now e =>
    obtain ⟨-, -, net, hstep, rfl⟩ := h
    refine .inr ⟨_, hstep, rfl, rfl, fun _ _ _ heq => ?_⟩
    cases heq
    exact .inr ⟨i, e, rfl, rfl, rfl⟩
  | post i =>
    obtain ⟨e, cached, p, net, -, -, hstep, rfl⟩ := h
    exact .inr ⟨_, hstep, rfl, rfl, fun _ _ _ heq => nomatch heq⟩
  | mark i =>
    obtain ⟨e, cached, net, -, hstep, rfl⟩ := h
    cases cached with
    | true =>
      rw [if_pos rfl] at hstep
      exact .inr ⟨_, hstep, rfl, rfl, fun _ _ _ heq => nomatch heq⟩
    | false =>
      rw [if_neg Bool.false_ne_true] at hstep
      exact .inl hstep
  | background b =>
    obtain ⟨hb, net, hstep, rfl⟩ := h
    refine .inr ⟨_, hstep, rfl, rfl, fun _ _ _ heq => ?_⟩
    rw [heq] at hb
    cases hb

theorem HubStep.consistent {C : Crypto} {s t : Hub} {a : HubAction} (h : HubStep C s a t)
    (hs : s.net.whisper.Consistent C) : t.net.whisper.Consistent C := by
  rcases h.net_cases with heq | ⟨b, hstep, -⟩
  · rw [heq]
    exact hs
  · exact hstep.consistent hs

/-! ### A loop that is not interrupted -/

theorem HubStep.receive_spec {C : Crypto} {s t : Hub} {i : PeerRef} {now : UInt32} {e : Envelope}
    (h : HubStep C s (.receive i now e) t) :
    t.net.whisper = (s.net.whisper.add C now (e.received C)
      s.net.whisper.settings.lightClientMode).1 ∧
    t.net.peers = s.net.peers ∧
    t.loops i = .added (e.received C) (s.caches C now (e.received C)) := by
  obtain ⟨-, -, net, rfl, rfl⟩ := h
  exact ⟨rfl, rfl, Function.update_self ..⟩

theorem HubStep.post_spec {C : Crypto} {s t : Hub} {i : PeerRef} {e : Envelope} {cached : Bool}
    {p : Peer} (h : HubStep C s (.post i) t) (hloop : s.loops i = .added e cached)
    (hp : s.net.peers.lookup i = some p) :
    t.net.whisper = { s.net.whisper with
      envelopeFeed := s.net.whisper.envelopeFeed ++ [Hub.receivedEvent C p e] } ∧
    t.net.peers = s.net.peers ∧ t.loops i = .posted e cached := by
  obtain ⟨e', cached', p', net, hloop', hp', rfl, rfl⟩ := h
  rw [hloop] at hloop'
  rw [hp] at hp'
  cases hloop'
  cases hp'
  exact ⟨rfl, rfl, Function.update_self ..⟩

theorem HubStep.mark_spec {C : Crypto} {s t : Hub} {i : PeerRef} {e : Envelope} {cached : Bool}
    {p : Peer} (h : HubStep C s (.mark i) t) (hloop : s.loops i = .posted e cached)
    (hp : s.net.peers.lookup i = some p) :
    t.net.whisper = s.net.whisper ∧
    t.net.peers.lookup i = some (if cached then p.mark C e else p) := by
  obtain ⟨e', cached', net, hloop', hnet, rfl⟩ := h
  rw [hloop] at hloop'
  cases hloop'
  cases cached with
  | true =>
    rw [if_pos rfl] at hnet
    obtain ⟨p', hp', rfl⟩ := hnet
    rw [hp] at hp'
    cases hp'
    exact ⟨rfl, Finmap.lookup_insert _⟩
  | false =>
    rw [if_neg Bool.false_ne_true] at hnet
    subst hnet
    exact ⟨rfl, hp⟩

theorem Batch.receive_eq (C : Crypto) (b : Batch) (now : UInt32) (e : Envelope) :
    let out := b.whisper.add C now e b.whisper.settings.lightClientMode
    (b.receive C now e).whisper = { out.1 with
      envelopeFeed := out.1.envelopeFeed ++ [Hub.receivedEvent C b.peer e] } ∧
    (b.receive C now e).peer = if out.2 = .ok true then b.peer.mark C e else b.peer := by
  unfold receive
  cases b.whisper.add C now e b.whisper.settings.lightClientMode with
  | mk w result =>
    cases result with
    | error err => exact ⟨rfl, rfl⟩
    | ok cached => exact ⟨rfl, rfl⟩

/-- The three steps do to the node and to the peer what `Batch.receive` does. -/
theorem Hub.run_receive {C : Crypto} {s t : Hub} {i : PeerRef} {now : UInt32} {e : Envelope}
    {p : Peer} (hp : s.net.peers.lookup i = some p)
    (run : Run (HubStep C) s [.receive i now e, .post i, .mark i] t) :
    let b := Batch.receive C { whisper := s.net.whisper, peer := p } now (e.received C)
    t.net.whisper = b.whisper ∧ t.net.peers.lookup i = some b.peer := by
  cases run with | cons hreceive run =>
  cases run with | cons hpost run =>
  cases run with | cons hmark run =>
  cases run
  obtain ⟨hw, hpeers, hloop⟩ := hreceive.receive_spec
  obtain ⟨hw', hpeers', hloop'⟩ := hpost.post_spec hloop (hpeers ▸ hp)
  obtain ⟨hw'', hpeer⟩ := hmark.mark_spec hloop' (hpeers' ▸ hpeers ▸ hp)
  obtain ⟨hwhisper, hmarked⟩ := Batch.receive_eq C { whisper := s.net.whisper, peer := p } now
    (e.received C)
  refine ⟨?_, ?_⟩
  · rw [hw'', hw', hw, hwhisper]
  · simp [hpeer, hmarked, caches]

end Whisperv6
