import Whisperv6.BundleSize
import Whisperv6.Net

/-! At most once: however the operations of a node are interleaved, no hash is in two of the bundles
that were written to one `Peer` object.  The known hashes are pruned when they leave the pool, so
this rests on the clock: what has expired is never admitted again. -/

namespace Whisperv6

open ProofKit

/-- A step that does not turn the clock back. -/
def TimedStep (C : Crypto) (n : Net) (a : NetAction) (n' : Net) : Prop :=
  NetStep C n a n' ∧ ∀ now, a.reading = some now → n.clock ≤ now

namespace Net

/-- A node without connections. -/
def start (w : Whisper) : Net := { whisper := w }

theorem start_filed (C : Crypto) (f : Hash → UInt32) (cfg : Config) :
    (start (new cfg)).Filed C f :=
  ⟨Whisper.new_consistent C cfg, fun h e he => by simp [start, new] at he⟩

theorem start_once (f : Hash → UInt32) (w : Whisper) (i : PeerRef) :
    ((start w).outbox f i).Once :=
  ⟨fun batch hbatch => by simp [outbox, start, sentTo] at hbatch, List.Pairwise.nil⟩

theorem run_once {C : Crypto} {f : Hash → UInt32} {cfg : Config} {acts : List NetAction} {n : Net}
    (run : Run (TimedStep C) (start (new cfg)) acts n)
    (hexpiry : ∀ a ∈ acts, ∀ e, a.added = some e → f (e.hash C) = e.expiry) :
    n.Filed C f ∧ ∀ i, (n.outbox f i).Once := by
  refine run.invariant (P := fun n => n.Filed C f ∧ ∀ i, (n.outbox f i).Once)
    ⟨start_filed C f cfg, start_once f _⟩ ?_
  rintro n a n' ha ⟨hfiled, honce⟩ ⟨hstep, htimed⟩
  have hadmissible : a.Admissible C f n := ⟨htimed, hexpiry a ha⟩
  exact ⟨hstep.filed hadmissible hfiled,
    fun i => (honce i).step (hstep.outbox hadmissible hfiled i)⟩

/-- In every run in which the clock does not go back and the hashes do not collide, each hash is in
at most one of the bundles that were written to a `Peer` object. -/
theorem sent_at_most_once (C : Crypto) (cfg : Config) {acts : List NetAction} {n : Net}
    (run : Run (TimedStep C) (start (new cfg)) acts n)
    (hcollision : NoCollision C (acts.filterMap NetAction.added)) (i : PeerRef) :
    (n.sentTo i).Pairwise List.Disjoint := by
  have honce := run_once run fun a ha e he =>
    hcollision.expiryOf (List.mem_filterMap.mpr ⟨a, ha, he⟩)
  exact (honce.2 i).disjoint

/-- Two envelopes, one after the other, with a broadcast that fails and a pruning between them. -/
def resendActions : List NetAction :=
  let first := sampleEnvelope.hash pairCrypto
  let second := secondEnvelope.hash pairCrypto
  [.connect 0 1, .add 1600000000 sampleEnvelope false, .broadcast 0 [first] false,
    .broadcast 0 [first] true, .expirePeer 0 [first], .add 1600000001 secondEnvelope false,
    .broadcast 0 [second, first] true, .broadcast 0 [first, second] true]

def resendNet : Net :=
  let first := sampleEnvelope.hash pairCrypto
  let second := secondEnvelope.hash pairCrypto
  let p : Peer := { id := 1 }
  let n := (start (new {})).setPeer 0 p
  let n := { n with
    whisper := (n.whisper.add pairCrypto 1600000000 sampleEnvelope false).1, clock := 1600000000 }
  let n := n.broadcast pairCrypto 0 p [first] false
  let n := n.broadcast pairCrypto 0 p [first] true
  let p := p.mark pairCrypto sampleEnvelope
  let n := n.setPeer 0 (p.expire n.whisper [first])
  let n := { n with
    whisper := (n.whisper.add pairCrypto 1600000001 secondEnvelope false).1, clock := 1600000001 }
  let n := n.broadcast pairCrypto 0 p [second, first] true
  n.broadcast pairCrypto 0 (p.mark pairCrypto secondEnvelope) [first, second] true

theorem resendNet_run : Run (TimedStep pairCrypto) (start (new {})) resendActions resendNet := by
  let p : Peer := { id := 1 }
  let p' : Peer := p.mark pairCrypto sampleEnvelope
  refine .cons ⟨⟨by decide +kernel, rfl⟩, fun _ h => nomatch h⟩ ?_
  refine .cons ⟨rfl, by rintro _ ⟨⟩; decide⟩ ?_
  refine .cons ⟨⟨p, by decide +kernel, by decide +kernel, rfl⟩, fun _ h => nomatch h⟩ ?_
  refine .cons ⟨⟨p, by decide +kernel, by decide +kernel, rfl⟩, fun _ h => nomatch h⟩ ?_
  refine .cons ⟨⟨p', by decide +kernel, by decide +kernel, rfl⟩, fun _ h => nomatch h⟩ ?_
  refine .cons ⟨rfl, by rintro _ ⟨⟩; decide⟩ ?_
  refine .cons ⟨⟨p', by decide +kernel, by decide +kernel, rfl⟩, fun _ h => nomatch h⟩ ?_
  refine .cons ⟨⟨p'.mark pairCrypto secondEnvelope, by decide +kernel, by decide +kernel, rfl⟩,
    fun _ h => nomatch h⟩ (.nil _)

theorem sent_at_most_once_pair :
    resendNet.sentTo 0 =
      [[sampleEnvelope.hash pairCrypto], [secondEnvelope.hash pairCrypto]] ∧
    (resendNet.sentTo 0).Pairwise List.Disjoint := by
  refine ⟨by decide +kernel, sent_at_most_once pairCrypto {} resendNet_run ?_ 0⟩
  intro e he e' he' _
  have hmem : ∀ x ∈ resendActions.filterMap NetAction.added, x.expiry = 1600000050 := by
    decide +kernel
  rw [hmem e he, hmem e' he']

end Net

end Whisperv6
