import Whisperv6.Node

/-! The connection to one peer: what the peer asked for, the envelopes it is known to hold, and the
broadcast of the pool to it. -/

namespace Whisperv6

open ProofKit

structure Peer where
  id : NodeID
  trusted : Bool := false
  powRequirement : Float64 := 0
  bloomFilter : Bytes := makeFullNodeBloom
  fullNode : Bool := true
  confirmationsEnabled : Bool := false
  known : Finset Hash := ∅
  deriving DecidableEq

/-- `p2p.Msg`. -/
structure Packet where
  code : Nat
  size : UInt32
  payload : Bytes
  deriving DecidableEq

namespace Peer

def mark (C : Crypto) (p : Peer) (e : Envelope) : Peer :=
  { p with known := insert (e.hash C) p.known }

def marked (C : Crypto) (p : Peer) (e : Envelope) : Bool := decide (e.hash C ∈ p.known)

/-- `expire`, where `Each` visits the known hashes in the order `order`.  The callback returns
`true` after its first hash. -/
def expire (p : Peer) (w : Whisper) (order : List Hash) : Peer :=
  let unmark := each (fun h unmark =>
    some (true, if w.isEnvelopeCached h then unmark else h :: unmark)) order []
  { p with known := p.known.filter (· ∉ unmark.getD []) }

def bloomMatch (p : Peer) (e : Envelope) : Bool :=
  p.fullNode || bloomFilterMatch (some p.bloomFilter) e.bloom

def setBloomFilter (p : Peer) (bloom : Option Bytes) : Peer :=
  { p with bloomFilter := bloom.getD makeFullNodeBloom, fullNode := isFullNode bloom }

/-- The condition of `broadcast` on one envelope of the pool. -/
def selects (C : Crypto) (p : Peer) (e : Envelope) : Bool :=
  !p.marked C e && p.powRequirement.value.le (e.pow C) && p.bloomMatch e

/-- The bundle of `broadcast`, where `Envelopes` visits the pool in the order `order`. -/
def bundle (C : Crypto) (p : Peer) (w : Whisper) (order : List Hash) : List Envelope :=
  (order.filterMap w.envelopes.lookup).filter (p.selects C)

/-- The packet of `sendBundle`: one RLP list, with its length cut to 32 bits. -/
def bundlePacket (bundle : List Envelope) : Packet :=
  let data := Rlp.encodeList (bundle.map Envelope.encode)
  { code := messagesCode, size := UInt32.ofNat data.length, payload := data }

/-- The events of a broadcast that was written. -/
def sentEvents (C : Crypto) (p : Peer) (bundle : List Envelope) : List EnvelopeEvent :=
  let batch := C.keccak256Hash (bundlePacket bundle).payload
  bundle.map fun e =>
    { event := .envelopeSent, hash := e.hash C, peer := p.id,
      batch := if p.confirmationsEnabled then batch else 0 }

/-- `broadcast`, where `written` tells whether the write of the packet succeeds: the peer and the
node after it, with the packet that was written. -/
def broadcast (C : Crypto) (p : Peer) (w : Whisper) (order : List Hash) (written : Bool) :
    Peer × Whisper × Option Packet :=
  let bundle := p.bundle C w order
  if bundle.isEmpty || !written then (p, w, none)
  else (bundle.foldl (mark C) p,
    { w with envelopeFeed := w.envelopeFeed ++ p.sentEvents C bundle },
    some (bundlePacket bundle))

/-! ### What the operations do to the known hashes -/

theorem mem_known_mark {C : Crypto} {p : Peer} {e : Envelope} {h : Hash} :
    h ∈ (p.mark C e).known ↔ h = e.hash C ∨ h ∈ p.known := Finset.mem_insert

theorem mem_known_foldl_mark {C : Crypto} {p : Peer} {bundle : List Envelope} {h : Hash} :
    h ∈ (bundle.foldl (mark C) p).known ↔ h ∈ p.known ∨ h ∈ bundle.map (Envelope.hash C) := by
  induction bundle generalizing p with
  | nil => simp
  | cons e rest ih =>
    rw [List.foldl_cons, ih, mem_known_mark, List.map_cons, List.mem_cons]
    simp only [or_comm, or_left_comm]

theorem foldl_mark_update (C : Crypto) (p : Peer) (bundle : List Envelope) :
    ∃ known, bundle.foldl (mark C) p = { p with known := known } := by
  induction bundle generalizing p with
  | nil => exact ⟨p.known, rfl⟩
  | cons e rest ih => exact ih (p.mark C e)

/-- `expire` looks at the first hash that `Each` visits, and at no other. -/
theorem mem_known_expire_iff {p : Peer} {w : Whisper} {order : List Hash} {h : Hash} :
    h ∈ (p.expire w order).known ↔
      h ∈ p.known ∧ (order.head? = some h → h ∈ w.envelopes) := by
  unfold expire
  rw [Finset.mem_filter]
  refine and_congr_right fun _ => ?_
  cases order with
  | nil => simp [each]
  | cons k rest =>
    by_cases hk : k ∈ w.envelopes
    · simp only [each, Whisper.isEnvelopeCached, hk, decide_true, if_true, Option.getD_some,
        List.not_mem_nil, not_false_eq_true, List.head?_cons, Option.some.injEq, true_iff]
      rintro rfl
      exact hk
    · simp only [each, Whisper.isEnvelopeCached, hk, decide_false, Bool.false_eq_true, if_false,
        Option.getD_some, List.mem_singleton, List.head?_cons, Option.some.injEq]
      constructor
      · rintro hne rfl
        exact absurd rfl hne
      · rintro himp rfl
        exact hk (himp rfl)

theorem mem_known_expire {p : Peer} {w : Whisper} {h : Hash} (order : List Hash)
    (hknown : h ∈ p.known) (hpool : h ∈ w.envelopes) : h ∈ (p.expire w order).known :=
  mem_known_expire_iff.mpr ⟨hknown, fun _ => hpool⟩

/-! ### What a broadcast sends -/

theorem selects_iff {C : Crypto} {p : Peer} {e : Envelope} :
    p.selects C e = true ↔ e.hash C ∉ p.known ∧ p.powRequirement.value.le (e.pow C) = true ∧
      p.bloomMatch e = true := by
  simp [selects, marked, and_assoc]

theorem mem_bundle {C : Crypto} {p : Peer} {w : Whisper} {order : List Hash} {e : Envelope} :
    e ∈ p.bundle C w order ↔
      (∃ h ∈ order, w.envelopes.lookup h = some e) ∧ p.selects C e = true := by
  rw [bundle, List.mem_filter, List.mem_filterMap]

theorem mem_bundle_of_lookup {C : Crypto} {p : Peer} {w : Whisper} {order : List Hash} {h : Hash}
    {e : Envelope} (ho : IsOrder w.envelopes.keys order) (he : w.envelopes.lookup h = some e)
    (hselects : p.selects C e = true) : e ∈ p.bundle C w order := by
  have hkey : h ∈ w.envelopes.keys := Finmap.mem_keys.mpr (Finmap.mem_of_lookup_eq_some he)
  exact mem_bundle.mpr ⟨⟨h, ho.mem.mpr hkey, he⟩, hselects⟩

/-- A broadcast writes nothing and changes nothing, or writes one packet with the whole bundle. -/
theorem broadcast_cases (C : Crypto) (p : Peer) (w : Whisper) (order : List Hash)
    (written : Bool) :
    (p.bundle C w order = [] ∨ written = false) ∧
      p.broadcast C w order written = (p, w, none) ∨
    p.bundle C w order ≠ [] ∧ written = true ∧
      p.broadcast C w order written =
        ((p.bundle C w order).foldl (mark C) p,
          { w with envelopeFeed := w.envelopeFeed ++ p.sentEvents C (p.bundle C w order) },
          some (bundlePacket (p.bundle C w order))) := by
  unfold broadcast
  dsimp only
  split
  · rename_i h
    rw [Bool.or_eq_true, List.isEmpty_iff, Bool.not_eq_true'] at h
    exact .inl ⟨h, rfl⟩
  · rename_i h
    rw [Bool.or_eq_true, List.isEmpty_iff, Bool.not_eq_true', not_or, Bool.not_eq_false] at h
    exact .inr ⟨h.1, h.2, rfl⟩

theorem broadcast_packet {C : Crypto} {p : Peer} {w : Whisper} {order : List Hash}
    {written : Bool} {packet : Packet} :
    (p.broadcast C w order written).2.2 = some packet ↔
      p.bundle C w order ≠ [] ∧ written = true ∧ packet = bundlePacket (p.bundle C w order) := by
  rcases p.broadcast_cases C w order written with ⟨hnone, heq⟩ | ⟨hne, hwritten, heq⟩
  · rw [heq]
    refine iff_of_false (fun h => nomatch h) ?_
    rintro ⟨hne, hwritten, -⟩
    rw [hwritten] at hnone
    exact hnone.elim hne fun hfalse => nomatch hfalse
  · rw [heq]
    constructor
    · intro h
      exact ⟨hne, hwritten, (Option.some.inj h).symm⟩
    · rintro ⟨-, -, rfl⟩
      rfl

end Peer

end Whisperv6
