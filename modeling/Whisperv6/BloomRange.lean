import Whisperv6.Handshake
import Whisperv6.Jobs
import Whisperv6.Loops
import Whisperv6.SubscribeRace
import Whisperv6.TopicBits

/-! The bloom filters are slices, and `BloomFilterMatch` and `addBloom` read 64 bytes of them by
index, without a look at their length.  Here an index out of range is a panic, and none is reached:
whatever a node is told by its API and by its peers, its own filters are nil or have 64 bytes, and a
peer whose filter is empty is a full node, whose filter is not read. -/

namespace Whisperv6

open ProofKit

/-! ### The functions with checked indices -/

namespace Checked

/-- `BloomFilterMatch`, where `none` is an index out of range. -/
def bloomFilterMatch (filter : Option Bytes) (sample : Bytes) : Option Bool :=
  match filter with
  | none => some true
  | some filter => (List.range bloomFilterSize).allM fun i => do
    let f ← filter[i]?
    let s ← sample[i]?
    return (f ||| s) == f

def addBloom (a b : Bytes) : Option Bytes :=
  (List.range bloomFilterSize).mapM fun i => do
    return (← a[i]?) ||| (← b[i]?)

/-- The first loop of `updateBloomFilter`. -/
def aggregate (f : Filter) : Option Bytes :=
  f.topics.foldlM (fun aggregate t => addBloom aggregate (topicToBloom (bytesToTopic t)))
    (List.replicate bloomFilterSize 0)

/-- `bloomMatch`: the filter of a full node is not read. -/
def bloomMatch (p : Peer) (e : Envelope) : Option Bool :=
  if p.fullNode then some true else bloomFilterMatch (some p.bloomFilter) e.bloom

/-- The condition of `broadcast` on one envelope of the pool. -/
def selects (C : Crypto) (p : Peer) (e : Envelope) : Option Bool :=
  if !p.marked C e && p.powRequirement.value.le (e.pow C) then bloomMatch p e else some false

/-- The bundle of `broadcast`. -/
def bundle (C : Crypto) (p : Peer) (w : Whisper) (order : List Hash) : Option (List Envelope) :=
  (order.filterMap w.envelopes.lookup).filterM (selects C p)

/-- The checks of `add`. -/
def check (C : Crypto) (s : Settings) (now : UInt32) (e : Envelope) :
    Option (Except AddError (Option Envelope)) :=
  let sent := e.expiry - e.ttl
  if now < sent ∧ now < sent - defaultSyncAllowance then some (.error .inFuture)
  else
    let e := e.adjust C now
    if e.expiry < now then
      if e.expiry + defaultSyncAllowance * 2 < now then some (.error .veryOld)
      else some (.ok none)
    else if s.maxMsgSize < UInt32.ofNat e.size then some (.error .oversized)
    else if (e.pow C).lt s.getMinPow.value && (e.pow C).lt s.getMinPowTolerance.value then
      some (.error .lowPow)
    else do
      if !(← bloomFilterMatch s.bloomFilter e.bloom) then
        -- the tolerated filter is read only for an envelope that the current one refuses
        if !(← bloomFilterMatch s.bloomFilterTolerance e.bloom) then
          return .error .noBloomMatch
      return .ok (some (e.fill C))

end Checked

/-! ### Slices of 64 bytes -/

theorem getElem?_eq_getD {b : Bytes} (h : b.length = bloomFilterSize) {i : Nat}
    (hi : i ∈ List.range bloomFilterSize) : b[i]? = some (b.getD i 0) := by
  rw [List.mem_range, ← h] at hi
  rw [List.getD_eq_getElem?_getD, List.getElem?_eq_getElem hi, Option.getD_some]

/-- A filter of the node: nil, or 64 bytes. -/
def Ranged (filter : Option Bytes) : Prop := ∀ b, filter = some b → b.length = bloomFilterSize

/-- The bloom filter of an envelope has 64 bytes. -/
def Envelope.Ranged (e : Envelope) : Prop := e.bloom.length = bloomFilterSize

/-- The filter of a peer has 64 bytes, unless the peer is a full node. -/
def Peer.Ranged (p : Peer) : Prop :=
  p.fullNode = false → p.bloomFilter.length = bloomFilterSize

namespace Checked

theorem bloomFilterMatch_eq {filter : Option Bytes} {sample : Bytes} (hf : Ranged filter)
    (hs : sample.length = bloomFilterSize) :
    bloomFilterMatch filter sample = some (Whisperv6.bloomFilterMatch filter sample) := by
  cases filter with
  | none => rfl
  | some f =>
    unfold bloomFilterMatch Whisperv6.bloomFilterMatch
    refine allM_eq_some fun i hi => ?_
    rw [getElem?_eq_getD (hf f rfl) hi, getElem?_eq_getD hs hi]
    rfl

theorem addBloom_eq {a b : Bytes} (ha : a.length = bloomFilterSize)
    (hb : b.length = bloomFilterSize) : addBloom a b = some (Whisperv6.addBloom a b) := by
  refine mapM_eq_some fun i hi => ?_
  rw [getElem?_eq_getD ha hi, getElem?_eq_getD hb hi]
  rfl

theorem aggregate_eq (f : Filter) :
    aggregate f = some f.aggregate ∧ f.aggregate.length = bloomFilterSize := by
  refine foldlM_eq_some (P := fun b : Bytes => b.length = bloomFilterSize) (fun b hb t _ => ?_)
    List.length_replicate
  exact ⟨addBloom_eq hb (length_topicToBloom _), length_addBloom _ _⟩

theorem bloomMatch_eq {p : Peer} {e : Envelope} (hp : p.Ranged) (he : e.Ranged) :
    bloomMatch p e = some (p.bloomMatch e) := by
  unfold bloomMatch Peer.bloomMatch
  cases hfull : p.fullNode with
  | true => rfl
  | false =>
    rw [if_neg Bool.false_ne_true, Bool.false_or]
    refine bloomFilterMatch_eq (fun b hb => ?_) he
    cases hb
    exact hp hfull

-- an empty filter, which a peer may send, could not be read without the flag
example (e : Envelope) : bloomMatch { id := 0, bloomFilter := [], fullNode := false } e = none :=
  rfl

theorem selects_eq {C : Crypto} {p : Peer} {e : Envelope} (hp : p.Ranged) (he : e.Ranged) :
    selects C p e = some (p.selects C e) := by
  unfold selects Peer.selects
  rw [bloomMatch_eq hp he]
  cases !p.marked C e && p.powRequirement.value.le (e.pow C) <;> rfl

theorem bundle_eq {C : Crypto} {p : Peer} {w : Whisper} {order : List Hash} (hp : p.Ranged)
    (hw : ∀ k e, w.envelopes.lookup k = some e → e.Ranged) :
    bundle C p w order = some (p.bundle C w order) := by
  refine filterM_eq_some fun e he => selects_eq hp ?_
  obtain ⟨k, -, hk⟩ := List.mem_filterMap.mp he
  exact hw k e hk

theorem check_eq {C : Crypto} {s : Settings} {now : UInt32} {e : Envelope}
    (hcurrent : Ranged s.bloomFilter) (htolerated : Ranged s.bloomFilterTolerance)
    (he : e.Ranged) : check C s now e = some (s.check C now e) := by
  have hadjust : (e.adjust C now).bloom.length = bloomFilterSize := by
    rw [Envelope.bloom_adjust]
    exact he
  unfold check Settings.check
  simp only [bloomFilterMatch_eq hcurrent hadjust, bloomFilterMatch_eq htolerated hadjust,
    Option.bind_eq_bind, Option.bind_some]
  split
  · rfl
  split
  · split <;> rfl
  split
  · rfl
  split
  · rfl
  · cases Whisperv6.bloomFilterMatch s.bloomFilter (e.adjust C now).bloom <;>
      cases Whisperv6.bloomFilterMatch s.bloomFilterTolerance (e.adjust C now).bloom <;> rfl

end Checked

/-! ### What a peer advertises -/

/-- The filter of a status packet, if `handshake` stores it. -/
def statusBloom (c : Rlp.Cursor) : Option Bytes :=
  match (Rlp.Session.bytes c).1 with
  | .error _ => none
  | .ok bloom =>
    if bloom.length ≠ bloomFilterSize ∧ bloom.length ≠ 0 then none else some bloom

/-- The proof of work and the filter of a status packet, each if `handshake` stores it. -/
def statusRequirements (c : Rlp.Cursor) : Option Float64 × Option Bytes :=
  match Rlp.Session.uint 64 c with
  | (.error _, _) => (none, none)
  | (.ok powRaw, c) =>
    let pow : Float64 := BitVec.ofNat 64 powRaw
    if invalidPow pow then (none, none) else (some pow, statusBloom c)

/-- The same, from the first packet of a peer. -/
def Packet.requirements (packet : Packet) : Option Float64 × Option Bytes :=
  if packet.code ≠ statusCode then (none, none)
  else
    match Rlp.Session.list { stream := packet.stream } with
    | (.error _, _) => (none, none)
    | (.ok _, c) =>
      match Rlp.Session.uint 64 c with
      | (.error _, _) => (none, none)
      | (.ok peerVersion, c) =>
        if peerVersion ≠ protocolVersion then (none, none) else statusRequirements c

/-- The filter of a packet of the message loop, if the loop stores it. -/
def Packet.exchangedBloom (packet : Packet) : Option Bytes :=
  if packet.code = bloomFilterExCode then
    match Rlp.decodeByteSlice "[]uint8" packet.stream with
    | .error _ => none
    | .ok (bloom, _) => if bloom.length ≠ bloomFilterSize then none else some bloom
  else none

namespace Peer

/-- The peer after `setBloomFilter`, if there is a filter. -/
def storeBloom (p : Peer) (bloom : Option Bytes) : Peer :=
  match bloom with
  | none => p
  | some bloom => p.setBloomFilter (some bloom)

/-- The peer with what a status packet asks for. -/
def record (p : Peer) (requirements : Option Float64 × Option Bytes) : Peer :=
  { p with powRequirement := requirements.1.getD p.powRequirement }.storeBloom requirements.2

theorem receiveStatusBloom_ok {p p' : Peer} {c c' : Rlp.Cursor}
    (h : p.receiveStatusBloom c = .ok (p', c')) : p' = p.storeBloom (statusBloom c) := by
  unfold receiveStatusBloom at h
  unfold statusBloom
  rcases hbytes : Rlp.Session.bytes c with ⟨err | bloom, c₁⟩
  · rw [hbytes] at h
    cases h
    rfl
  · rw [hbytes] at h
    dsimp only at h ⊢
    split at h
    · cases h
    · rename_i hsize
      cases h
      rw [if_neg hsize]
      rfl

theorem receiveRequirements_ok {p p' : Peer} {c c' : Rlp.Cursor}
    (h : p.receiveRequirements c = .ok (p', c')) : p' = p.record (statusRequirements c) := by
  unfold receiveRequirements at h
  unfold statusRequirements
  rcases huint : Rlp.Session.uint 64 c with ⟨err | powRaw, c₁⟩
  · rw [huint] at h
    cases h
    rfl
  · rw [huint] at h
    dsimp only at h ⊢
    split at h
    · cases h
    · rename_i hpow
      rw [if_neg hpow]
      exact receiveStatusBloom_ok h

theorem receiveFlags_ok {p p' : Peer} {settings : Settings} {c : Rlp.Cursor}
    (h : p.receiveFlags settings c = .ok p') :
    ∃ confirms, p' = { p with confirmationsEnabled := confirms } := by
  unfold receiveFlags at h
  split at h
  split at h
  · cases h
  split at h
  · cases h
    split <;> exact ⟨_, rfl⟩
  · cases h
    exact ⟨_, rfl⟩

/-- A status packet that is accepted is stored with all that it asks for. -/
theorem receiveStatus_ok {p p' : Peer} {settings : Settings} {packet : Packet}
    (h : p.receiveStatus settings packet = .ok p') :
    ∃ confirms, p' = { p.record packet.requirements with confirmationsEnabled := confirms } := by
  unfold receiveStatus checkStatus at h
  unfold Packet.requirements
  by_cases hcode : packet.code ≠ statusCode
  · rw [if_pos hcode] at h
    cases h
  rw [if_neg hcode] at h ⊢
  dsimp only at h
  rcases hlist : Rlp.Session.list { stream := packet.stream } with ⟨err | size, c⟩
  · rw [hlist] at h
    cases h
  rw [hlist] at h
  dsimp only at h ⊢
  unfold receiveStatusFields at h
  rcases huint : Rlp.Session.uint 64 c with ⟨err | peerVersion, c₁⟩
  · rw [huint] at h
    cases h
  rw [huint] at h
  dsimp only at h ⊢
  split at h
  · cases h
  rename_i hversion
  rw [if_neg hversion]
  obtain ⟨⟨p₁, c₂⟩, hrequirements, hflags⟩ := bind_eq_ok.mp h
  rw [← receiveRequirements_ok hrequirements]
  exact receiveFlags_ok hflags

theorem handshake_ok {p p' : Peer} {settings : Settings} {packet : Packet}
    {sent : Option GoError} (h : p.handshake settings packet sent = .ok p') :
    p.receiveStatus settings packet = .ok p' := by
  obtain ⟨p₁, hstatus, hsent⟩ := bind_eq_ok.mp h
  cases sent with
  | some err => cases hsent
  | none =>
    cases hsent
    exact hstatus

/-- The filter and the flag of the peer are those of the filter that it has advertised last; without
one, those of a full node. -/
structure Follows (p : Peer) (advertised : Option Bytes) : Prop where
  bloomFilter : p.bloomFilter = advertised.getD makeFullNodeBloom
  fullNode : p.fullNode = isFullNode advertised
  length : ∀ b, advertised = some b → b.length = bloomFilterSize ∨ b = []

namespace Follows

variable {p p' : Peer} {advertised : Option Bytes}

theorem congr (h : p.Follows advertised) (hbloom : p'.bloomFilter = p.bloomFilter)
    (hfull : p'.fullNode = p.fullNode) : p'.Follows advertised :=
  ⟨hbloom.trans h.bloomFilter, hfull.trans h.fullNode, h.length⟩

theorem storeBloom (h : p.Follows advertised) {bloom : Option Bytes}
    (hlen : ∀ b, bloom = some b → b.length = bloomFilterSize ∨ b = []) :
    (p.storeBloom bloom).Follows (bloom.or advertised) := by
  cases bloom with
  | none => exact h
  | some b => exact ⟨rfl, rfl, hlen⟩

/-- Marking envelopes leaves the filter and the flag. -/
theorem of_known (h : p.Follows advertised) {known : Finset Hash}
    (hp : p' = { p with known := known }) : p'.Follows advertised := by
  subst hp
  exact h.congr rfl rfl

theorem ranged (h : p.Follows advertised) : p.Ranged := by
  intro hfull
  rw [h.fullNode] at hfull
  rw [h.bloomFilter]
  cases advertised with
  | none => cases hfull
  | some b =>
    rcases h.length b rfl with hlen | rfl
    · exact hlen
    · cases hfull

theorem fullNode_iff (h : p.Follows advertised) :
    p.fullNode = true ↔ ∀ b, advertised = some b → b = [] ∨ b = makeFullNodeBloom := by
  rw [h.fullNode]
  cases advertised with
  | none => simp [isFullNode]
  | some b =>
    simp only [isFullNode, List.all_eq_true, beq_iff_eq, Option.some.injEq, forall_eq']
    rcases h.length b rfl with hlen | rfl
    · have hne : b ≠ [] := by
        rintro rfl
        cases hlen
      rw [makeFullNodeBloom, List.eq_replicate_iff]
      simp [hne, hlen]
    · simp

end Follows

end Peer

theorem statusBloom_length {c : Rlp.Cursor} {b : Bytes} (h : statusBloom c = some b) :
    b.length = bloomFilterSize ∨ b = [] := by
  unfold statusBloom at h
  split at h
  · cases h
  split at h
  · cases h
  · rename_i hsize
    cases h
    rw [← List.length_eq_zero_iff]
    omega

theorem Packet.requirements_length {packet : Packet} {b : Bytes}
    (h : packet.requirements.2 = some b) : b.length = bloomFilterSize ∨ b = [] := by
  unfold requirements at h
  split at h
  · cases h
  split at h
  · cases h
  split at h
  · cases h
  split at h
  · cases h
  unfold statusRequirements at h
  split at h
  · cases h
  dsimp only at h
  split at h
  · cases h
  · exact statusBloom_length h

-- the status packet of a node that has never set a filter carries an empty one
example : (statusPacket 0 none false false).requirements.2 = some [] := by decide +kernel

/-- A packet with the code of a filter stores it, or ends the loop. -/
theorem Packet.applyTo_bloom {packet : Packet} {p : Peer}
    (hcode : packet.code = bloomFilterExCode) :
    packet.applyTo p = match packet.exchangedBloom with
      | some b => .ok (p.setBloomFilter (some b))
      | none => .error (newError "invalid bloom filter exchange message") := by
  unfold applyTo exchangedBloom Peer.receiveBloom
  rw [if_neg (by rw [hcode]; decide), if_pos hcode, if_pos hcode]
  cases Rlp.decodeByteSlice "[]uint8" packet.stream with
  | error err => rfl
  | ok x =>
    dsimp only
    split <;> rfl

/-- A packet with another code leaves the filter of the peer. -/
theorem Packet.applyTo_other {packet : Packet} {p p' : Peer}
    (hcode : packet.code ≠ bloomFilterExCode) (h : packet.applyTo p = .ok p') :
    p'.bloomFilter = p.bloomFilter ∧ p'.fullNode = p.fullNode := by
  unfold applyTo at h
  rw [if_neg hcode] at h
  split at h
  · unfold Peer.receivePow at h
    split at h
    · cases h
    dsimp only at h
    split at h <;> cases h
    exact ⟨rfl, rfl⟩
  · cases h
    exact ⟨rfl, rfl⟩

theorem Packet.exchangedBloom_length {packet : Packet} {b : Bytes}
    (h : packet.exchangedBloom = some b) : b.length = bloomFilterSize := by
  unfold exchangedBloom at h
  split at h
  · split at h
    · cases h
    split at h
    · cases h
    · rename_i hsize
      cases h
      omega
  · cases h

end Whisperv6
