import Whisperv6.Notification
import Whisperv6.ProofKit.RlpSession

/-! The status packets that two nodes exchange before anything else.  Only the version is mandatory
in a status packet.  Every field after it is optional, and the error of a field that is missing is
dropped, so the reader goes on with the stream as that error left it. -/

namespace Whisperv6

open ProofKit

/-! ### The packet of a node -/

/-- The items that `handshake` sends. -/
def Whisper.statusItems (w : Whisper) : List Bytes :=
  [Rlp.encodeUint protocolVersion, Rlp.encodeUint w.settings.getMinPow.toNat,
    Rlp.encodeString (w.settings.bloomFilter.getD []), encodeBool w.settings.lightClientMode,
    encodeBool !w.disableConfirmations]

/-- The packet that `handshake` sends. -/
def Whisper.statusPacket (w : Whisper) : Packet :=
  Whisperv6.statusPacket w.settings.getMinPow w.settings.bloomFilter w.settings.lightClientMode
    !w.disableConfirmations

/-- The packet of a node that sends the first `k` items only. -/
def Whisper.truncatedStatus (w : Whisper) (k : Nat) : Packet :=
  sendPacket statusCode (Rlp.encodeList (w.statusItems.take k))

theorem Whisper.truncatedStatus_five (w : Whisper) : w.truncatedStatus 5 = w.statusPacket := rfl

/-! ### Receiving -/

def newPeer (id : NodeID) : Peer := { id }

namespace Peer

/-- An error of `handshake`. -/
def statusError (p : Peer) (text : String) : GoError :=
  newError ("peer [" ++ hex (Hash.bytes p.id) ++ "]" ++ text)

/-- The part of `handshake` on the bloom filter. -/
def receiveStatusBloom (p : Peer) (c : Rlp.Cursor) : Except GoError (Peer × Rlp.Cursor) :=
  match Rlp.Session.bytes c with
  | (.error _, c) => .ok (p, c)
  | (.ok bloom, c) =>
    if bloom.length ≠ bloomFilterSize ∧ bloom.length ≠ 0 then
      .error (p.statusError (" sent bad status message: wrong bloom filter size " ++
        toString bloom.length))
    else .ok (p.setBloomFilter (some bloom), c)

/-- The part of `handshake` on the proof of work and the bloom filter.  Without the first of them,
the second is not looked for. -/
def receiveRequirements (p : Peer) (c : Rlp.Cursor) : Except GoError (Peer × Rlp.Cursor) :=
  match Rlp.Session.uint 64 c with
  | (.error _, c) => .ok (p, c)
  | (.ok powRaw, c) =>
    let pow : Float64 := BitVec.ofNat 64 powRaw
    if invalidPow pow then .error (p.statusError " sent bad status message: invalid pow")
    else receiveStatusBloom { p with powRequirement := pow } c

/-- The part of `handshake` on the two flags. -/
def receiveFlags (p : Peer) (settings : Settings) (c : Rlp.Cursor) : Except GoError Peer :=
  let (isRemotePeerLightNode, c) := Rlp.Session.bool c
  if isRemotePeerLightNode = .ok true ∧ settings.lightClientMode ∧
      settings.restrictConnectionBetweenLightClients then
    .error (p.statusError " is useless: two light client communication restricted")
  else
    match Rlp.Session.bool c with
    | (.ok confirmationsEnabled, _) =>
      .ok (if confirmationsEnabled then { p with confirmationsEnabled } else p)
    | (.error _, _) => .ok p

/-- The part of `handshake` after the version. -/
def receiveOptions (p : Peer) (settings : Settings) (c : Rlp.Cursor) : Except GoError Peer := do
  let (p, c) ← p.receiveRequirements c
  p.receiveFlags settings c

/-- The part of `handshake` after the start of the list. -/
def receiveStatusFields (p : Peer) (settings : Settings) (c : Rlp.Cursor) : Except GoError Peer :=
  match Rlp.Session.uint 64 c with
  | (.error err, _) =>
    .error (p.statusError (" sent bad status message (unable to decode version): " ++ err.text))
  | (.ok peerVersion, c) =>
    if peerVersion ≠ protocolVersion then
      .error (p.statusError (": protocol version mismatch " ++ toString peerVersion ++ " != " ++
        toString protocolVersion))
    else p.receiveOptions settings c

/-- The part of `handshake` on the packet from the peer. -/
def receiveStatus (p : Peer) (settings : Settings) (packet : Packet) : Except GoError Peer :=
  match p.checkStatus packet with
  | some err => .error err
  | none =>
    match Rlp.Session.list { stream := packet.stream } with
    | (.error err, _) => .error (p.statusError (" sent bad status message: " ++ err.text))
    | (.ok _, c) => p.receiveStatusFields settings c

/-- `handshake`, from the settings of the host, the packet that it has read, and the error with
which its own packet was sent. -/
def handshake (p : Peer) (settings : Settings) (packet : Packet) (sent : Option GoError) :
    Except GoError Peer := do
  let p ← p.receiveStatus settings packet
  match sent with
  | some err => .error (p.statusError (" failed to send status packet: " ++ err.text))
  | none => .ok p

/-! ### What each part makes of its fields -/

section Fields

variable {p : Peer} {s t u : Rlp.Stream} {pow : Float64} {bloom : Bytes} {light confirms : Bool}
  {settings : Settings}

theorem receiveStatusBloom_end (h : Rlp.checkEnd s = .error .endOfList) :
    p.receiveStatusBloom { stream := s } = .ok (p, { stream := s }) := by
  rw [receiveStatusBloom, Rlp.Session.bytes_end h]

theorem receiveStatusBloom_reads (hlen : bloom.length = bloomFilterSize ∨ bloom = [])
    (h : s.Reads (Rlp.encodeString bloom) t) :
    p.receiveStatusBloom { stream := s } =
      .ok (p.setBloomFilter (some bloom), { stream := t }) := by
  have hshort : bloom.length < 2 ^ 64 := by
    obtain hlen | rfl := hlen
    · rw [hlen]
      decide
    · decide
  have hsize : ¬(bloom.length ≠ bloomFilterSize ∧ bloom.length ≠ 0) := by
    obtain hlen | rfl := hlen
    · exact fun hne => hne.1 hlen
    · exact fun hne => hne.2 rfl
  rw [receiveStatusBloom, Rlp.Session.bytes_follows s bloom t (Rlp.bytes_ok.mpr ⟨hshort, h⟩)]
  exact if_neg hsize

theorem receiveRequirements_end (h : Rlp.checkEnd s = .error .endOfList) :
    p.receiveRequirements { stream := s } = .ok (p, { stream := s }) := by
  rw [receiveRequirements, Rlp.Session.uint_end h]

theorem receiveRequirements_reads (hpow : invalidPow pow = false)
    (h : s.Reads (Rlp.encodeUint pow.toNat) t) :
    p.receiveRequirements { stream := s } =
      receiveStatusBloom { p with powRequirement := pow } { stream := t } := by
  have huint := (Rlp.uint_ok (n := 8) (by omega) (by omega)).mpr ⟨pow.isLt, h⟩
  rw [receiveRequirements, Rlp.Session.uint_follows 64 s pow.toNat t huint]
  simp [hpow]

theorem receiveRequirements_invalid (hpow : invalidPow pow = true)
    (h : s.Reads (Rlp.encodeUint pow.toNat) t) :
    p.receiveRequirements { stream := s } =
      .error (p.statusError " sent bad status message: invalid pow") := by
  have huint := (Rlp.uint_ok (n := 8) (by omega) (by omega)).mpr ⟨pow.isLt, h⟩
  rw [receiveRequirements, Rlp.Session.uint_follows 64 s pow.toNat t huint]
  simp [hpow]

theorem bool_reads (h : s.Reads (encodeBool light) t) :
    Rlp.Session.bool { stream := s } = (.ok light, { stream := t }) := by
  refine Rlp.Session.bool_follows s light t (Rlp.bool_ok.mpr ?_)
  cases light <;> exact h

theorem receiveFlags_end (h : Rlp.checkEnd s = .error .endOfList) :
    p.receiveFlags settings { stream := s } = .ok p := by
  simp [receiveFlags, Rlp.Session.bool_end h]

/-- The connection is not one between two light clients, or the host takes those too. -/
def Unrestricted (settings : Settings) (light : Bool) : Prop :=
  ¬(light ∧ settings.lightClientMode ∧ settings.restrictConnectionBetweenLightClients)

instance : Decidable (Unrestricted settings light) := inferInstanceAs (Decidable (¬_))

theorem receiveFlags_light (hlight : Unrestricted settings light)
    (h : s.Reads (encodeBool light) t) (hend : Rlp.checkEnd t = .error .endOfList) :
    p.receiveFlags settings { stream := s } = .ok p := by
  simp only [receiveFlags, bool_reads h, Rlp.Session.bool_end hend]
  rw [if_neg (by simpa [Unrestricted] using hlight)]

theorem receiveFlags_restricted (hlight : ¬Unrestricted settings light)
    (h : s.Reads (encodeBool light) t) (p' : Peer) :
    p.receiveFlags settings { stream := s } ≠ .ok p' := by
  have hboth := not_not.mp hlight
  simp only [receiveFlags, bool_reads h]
  rw [if_pos (by simpa using hboth)]
  exact nofun

theorem receiveFlags_both (hlight : Unrestricted settings light)
    (h : s.Reads (encodeBool light) t) (h' : t.Reads (encodeBool confirms) u) :
    p.receiveFlags settings { stream := s } =
      .ok (if confirms then { p with confirmationsEnabled := confirms } else p) := by
  simp only [receiveFlags, bool_reads h, bool_reads h']
  rw [if_neg (by simpa [Unrestricted] using hlight)]

end Fields

end Peer

/-! ### A status packet arrives -/

/-- The stream over a packet that was sent, at the start of its list: it reads the items, and then
it is at the end of the list. -/
theorem list_sendPacket (code : Nat) {items : List Bytes}
    (hlen : (Rlp.encodeList items).length < 2 ^ 32) :
    ∃ s t n, Rlp.Session.list { stream := (sendPacket code (Rlp.encodeList items)).stream } =
        (.ok n, { stream := s }) ∧
      s.Reads items.flatten t ∧ Rlp.checkEnd t = .error .endOfList := by
  obtain ⟨t, hreads⟩ := reads_sendPacket code hlen
  obtain ⟨u, hhead, hcontents⟩ := Rlp.Stream.reads_append.mp hreads
  have hshort : items.flatten.length < 2 ^ 64 := by
    rw [Rlp.encodeList, List.length_append] at hlen
    omega
  exact ⟨_, _, _, Rlp.Session.list_follows _ _ _
    (Rlp.list_ok.mpr ⟨hshort, u, hhead, hcontents.allows.room, rfl⟩), hcontents.inside,
    Rlp.checkEnd_skip⟩

namespace Whisper

/-- What a peer record holds after the first `k` items of the status of `w`. -/
def told (w : Whisper) (k : Nat) (p : Peer) : Peer :=
  { p with
    powRequirement := if 2 ≤ k then w.settings.getMinPow else p.powRequirement
    bloomFilter := if 3 ≤ k then w.settings.bloomFilter.getD [] else p.bloomFilter
    fullNode := if 3 ≤ k then isFullNode (some (w.settings.bloomFilter.getD [])) else p.fullNode
    confirmationsEnabled :=
      if 5 ≤ k ∧ !w.disableConfirmations then true else p.confirmationsEnabled }

/-- The filter is nil or has the size that `SetBloomFilter` checks. -/
def ValidBloom (w : Whisper) : Prop :=
  ∀ f, w.settings.bloomFilter = some f → f.length = bloomFilterSize

/-- The values that a node can have set. -/
structure ValidStatus (w : Whisper) : Prop where
  pow : invalidPow w.settings.getMinPow = false
  bloom : w.ValidBloom

theorem ValidBloom.length {w : Whisper} (h : w.ValidBloom) :
    (w.settings.bloomFilter.getD []).length = bloomFilterSize ∨
      w.settings.bloomFilter.getD [] = [] := by
  cases hbloom : w.settings.bloomFilter with
  | none => exact .inr rfl
  | some f => exact .inl (h f hbloom)

theorem ValidBloom.length_items {w : Whisper} (h : w.ValidBloom) (k : Nat) :
    (Rlp.encodeList (w.statusItems.take k)).length < 2 ^ 32 := by
  have hpow := Rlp.uintSize_le (i := w.settings.getMinPow.toNat) w.settings.getMinPow.isLt
  have hbool : ∀ b, (encodeBool b).length = 1 := by decide
  have hversion : (Rlp.encodeUint protocolVersion).length = 1 := by decide
  have hbloom : (Rlp.encodeString (w.settings.bloomFilter.getD [])).length ≤ 73 := by
    have hlen : (w.settings.bloomFilter.getD []).length ≤ 64 := by
      obtain hlen | hlen := h.length
      · exact le_of_eq hlen
      · simp [hlen]
    have := Rlp.stringSize_le (b := w.settings.bloomFilter.getD []) (by omega)
    rw [Rlp.length_encodeString]
    omega
  have hitems : w.statusItems.flatten.length ≤ 85 := by
    simp only [statusItems, List.flatten_cons, List.flatten_nil, List.length_append,
      List.length_nil, hbool, hversion, Rlp.length_encodeUint w.settings.getMinPow.toNat]
    omega
  have htake : (w.statusItems.take k).flatten.length ≤ w.statusItems.flatten.length :=
    (List.take_sublist k w.statusItems).flatten.length_le
  have := @Rlp.length_encodeList_le (w.statusItems.take k) (by omega)
  omega

/-- What the record of a peer holds after the options of a status, cut after its item `k`. -/
theorem receiveOptions_told {w : Whisper} (hw : w.ValidStatus) {settings : Settings} {k : Nat}
    (hlight : 4 ≤ k → Peer.Unrestricted settings w.settings.lightClientMode) (p : Peer)
    {s t : Rlp.Stream} (hreads : s.Reads (w.statusItems.tail.take (k - 1)).flatten t)
    (hend : Rlp.checkEnd t = .error .endOfList) :
    p.receiveOptions settings { stream := s } = .ok (w.told k p) := by
  -- One case for each number of options that are there.
  obtain hk | rfl | rfl | rfl | hk : k ≤ 1 ∨ k = 2 ∨ k = 3 ∨ k = 4 ∨ 5 ≤ k := by omega
  · rw [show k - 1 = 0 by omega] at hreads
    obtain rfl := Rlp.Stream.reads_nil.mp hreads
    rw [Peer.receiveOptions, Peer.receiveRequirements_end hend]
    refine (Peer.receiveFlags_end hend).trans ?_
    simp [told, show ¬2 ≤ k by omega, show ¬3 ≤ k by omega, show ¬5 ≤ k by omega]
  · obtain ⟨u, hpow, hrest⟩ := Rlp.Stream.reads_append.mp hreads
    obtain rfl := Rlp.Stream.reads_nil.mp hrest
    rw [Peer.receiveOptions, Peer.receiveRequirements_reads hw.pow hpow,
      Peer.receiveStatusBloom_end hend]
    exact Peer.receiveFlags_end hend
  · obtain ⟨u, hpow, hrest⟩ := Rlp.Stream.reads_append.mp hreads
    obtain ⟨v, hbloom, hrest⟩ := Rlp.Stream.reads_append.mp hrest
    obtain rfl := Rlp.Stream.reads_nil.mp hrest
    rw [Peer.receiveOptions, Peer.receiveRequirements_reads hw.pow hpow,
      Peer.receiveStatusBloom_reads hw.bloom.length hbloom]
    exact Peer.receiveFlags_end hend
  · obtain ⟨u, hpow, hrest⟩ := Rlp.Stream.reads_append.mp hreads
    obtain ⟨v, hbloom, hrest⟩ := Rlp.Stream.reads_append.mp hrest
    obtain ⟨v', hflag, hrest⟩ := Rlp.Stream.reads_append.mp hrest
    obtain rfl := Rlp.Stream.reads_nil.mp hrest
    rw [Peer.receiveOptions, Peer.receiveRequirements_reads hw.pow hpow,
      Peer.receiveStatusBloom_reads hw.bloom.length hbloom]
    exact Peer.receiveFlags_light (hlight le_rfl) hflag hend
  · rw [List.take_of_length_le (by simp [statusItems]; omega)] at hreads
    obtain ⟨u, hpow, hrest⟩ := Rlp.Stream.reads_append.mp hreads
    obtain ⟨v, hbloom, hrest⟩ := Rlp.Stream.reads_append.mp hrest
    obtain ⟨v', hflag, hrest⟩ := Rlp.Stream.reads_append.mp hrest
    obtain ⟨v'', hconfirms, -⟩ := Rlp.Stream.reads_append.mp hrest
    rw [Peer.receiveOptions, Peer.receiveRequirements_reads hw.pow hpow,
      Peer.receiveStatusBloom_reads hw.bloom.length hbloom]
    refine (Peer.receiveFlags_both (hlight (by omega)) hflag hconfirms).trans ?_
    simp only [told, if_pos (show 2 ≤ k by omega), if_pos (show 3 ≤ k by omega)]
    cases w.disableConfirmations <;> simp [hk, Peer.setBloomFilter]

/-- The version of a status is read, and then its options. -/
theorem handshake_options {w : Whisper} (hw : w.ValidBloom) {k : Nat} (hk : 1 ≤ k) :
    ∃ s t, s.Reads (w.statusItems.tail.take (k - 1)).flatten t ∧
      Rlp.checkEnd t = .error .endOfList ∧
      ∀ (p : Peer) (settings : Settings), p.handshake settings (w.truncatedStatus k) none =
        p.receiveOptions settings { stream := s } := by
  obtain ⟨s, t, n, hlist, hreads, hend⟩ := list_sendPacket statusCode (hw.length_items k)
  obtain ⟨k, rfl⟩ : ∃ j, k = j + 1 := ⟨k - 1, by omega⟩
  obtain ⟨u, hversion, hoptions⟩ := Rlp.Stream.reads_append.mp hreads
  have huint := (Rlp.uint_ok (n := 8) (by omega) (by omega)).mpr
    ⟨show protocolVersion < 256 ^ 8 by decide, hversion⟩
  refine ⟨u, t, hoptions, hend, fun p settings => ?_⟩
  have hstatus : p.receiveStatus settings (w.truncatedStatus (k + 1)) =
      p.receiveOptions settings { stream := u } := by
    have hcheck : p.checkStatus (w.truncatedStatus (k + 1)) = none := rfl
    rw [Peer.receiveStatus, hcheck]
    dsimp only [truncatedStatus]
    rw [hlist]
    dsimp only
    rw [Peer.receiveStatusFields, Rlp.Session.uint_follows 64 s _ u huint]
    rfl
  rw [Peer.handshake, hstatus]
  cases p.receiveOptions settings { stream := u } <;> rfl

/-- `handshake` takes every status that ends after an item. -/
theorem handshake_told {w : Whisper} (hw : w.ValidStatus) {settings : Settings} {k : Nat}
    (hk : 1 ≤ k) (hlight : 4 ≤ k → Peer.Unrestricted settings w.settings.lightClientMode)
    (p : Peer) : p.handshake settings (w.truncatedStatus k) none = .ok (w.told k p) := by
  obtain ⟨s, t, hreads, hend, hoptions⟩ := handshake_options hw.bloom hk
  rw [hoptions, receiveOptions_told hw hlight p hreads hend]

/-- A handshake that has succeeded is not one between two light clients that the host refuses. -/
theorem unrestricted_of_handshake {w : Whisper} (hw : w.ValidStatus) {settings : Settings}
    {p p' : Peer} (h : p.handshake settings w.statusPacket none = .ok p') :
    Peer.Unrestricted settings w.settings.lightClientMode := by
  obtain ⟨s, t, hreads, -, hoptions⟩ := handshake_options hw.bloom (k := 5) (by decide)
  obtain ⟨u, hpow, hrest⟩ := Rlp.Stream.reads_append.mp hreads
  obtain ⟨v, hbloom, hrest⟩ := Rlp.Stream.reads_append.mp hrest
  obtain ⟨v', hflag, -⟩ := Rlp.Stream.reads_append.mp hrest
  by_contra hlight
  rw [← truncatedStatus_five, hoptions, Peer.receiveOptions,
    Peer.receiveRequirements_reads hw.pow hpow,
    Peer.receiveStatusBloom_reads hw.bloom.length hbloom] at h
  exact Peer.receiveFlags_restricted hlight hflag p' h

/-- The record of a node after its status. -/
theorem handshake_eq {w : Whisper} (hw : w.ValidStatus) {settings : Settings} {p p' : Peer}
    (h : p.handshake settings w.statusPacket none = .ok p') : p' = w.told 5 p := by
  have htold := handshake_told hw (k := 5) (by decide) (fun _ => unrestricted_of_handshake hw h) p
  rw [truncatedStatus_five, h] at htold
  exact Except.ok.inj htold

/-- A record that has read the filter of `w` matches what `w` matches.  A nil filter arrives as an
empty one, and the flag of a full node stands for it. -/
theorem bloomMatch_told {w : Whisper} (hw : w.ValidStatus) {k : Nat} (hk : 3 ≤ k) (p : Peer)
    (e : Envelope) :
    (w.told k p).bloomMatch e = bloomFilterMatch w.settings.bloomFilter e.bloom := by
  have hfields : (w.told k p).bloomMatch e =
      (isFullNode (some (w.settings.bloomFilter.getD [])) ||
        bloomFilterMatch (some (w.settings.bloomFilter.getD [])) e.bloom) := by
    simp only [Peer.bloomMatch, told, if_pos hk]
  rw [hfields]
  cases hbloom : w.settings.bloomFilter with
  | none => rfl
  | some f =>
    cases hfull : isFullNode (some f) with
    | false => simp [hfull]
    | true => simp [hfull, bloomFilterMatch_of_isFullNode (hw.bloom f hbloom) hfull]

/-- The status of `A` arrives at `B` as `A` has it, and a status that ends after one of its fields
arrives with the defaults of `newPeer` in place of the fields that are missing. -/
theorem status_round_trip {A B : Whisper} (hA : A.ValidStatus) (id : NodeID) :
    (Peer.Unrestricted B.settings A.settings.lightClientMode →
      ∃ p, (newPeer id).handshake B.settings A.statusPacket none = .ok p ∧
        p.powRequirement = A.settings.getMinPow ∧
        (∀ e, p.bloomMatch e = bloomFilterMatch A.settings.bloomFilter e.bloom) ∧
        p.confirmationsEnabled = !A.disableConfirmations) ∧
    ∀ k, 1 ≤ k → (4 ≤ k → Peer.Unrestricted B.settings A.settings.lightClientMode) →
      ∃ p, (newPeer id).handshake B.settings (A.truncatedStatus k) none = .ok p ∧
        p.powRequirement = (if 2 ≤ k then A.settings.getMinPow else 0) ∧
        (∀ e, p.bloomMatch e =
          if 3 ≤ k then bloomFilterMatch A.settings.bloomFilter e.bloom else true) ∧
        p.confirmationsEnabled = if 5 ≤ k then !A.disableConfirmations else false := by
  refine ⟨fun hlight => ?_, fun k hk hlight => ?_⟩
  · refine ⟨A.told 5 (newPeer id), ?_, rfl, bloomMatch_told hA (by decide) _, ?_⟩
    · rw [← truncatedStatus_five]
      exact handshake_told hA (by decide) (fun _ => hlight) _
    · simp [told, newPeer]
  · refine ⟨A.told k (newPeer id), handshake_told hA hk hlight _, rfl, fun e => ?_, ?_⟩
    · by_cases hthree : 3 ≤ k
      · rw [if_pos hthree, bloomMatch_told hA hthree]
      · rw [if_neg hthree]
        simp [Peer.bloomMatch, told, newPeer, hthree]
    · by_cases hfive : 5 ≤ k <;> simp [told, newPeer, hfive]

/-- A light client with a requirement of 0.5 and a filter. -/
def lightNode : Whisper :=
  let w := new { minimumAcceptedPOW := 0x3FE0000000000000#64 }
  { w with
    settings.lightClientMode := true
    settings.bloomFilter := some (List.replicate bloomFilterSize 1) }

theorem status_round_trip_light :
    lightNode.ValidStatus ∧ Peer.Unrestricted (new {}).settings true ∧
      ∃ p, (newPeer 7).handshake (new {}).settings lightNode.statusPacket none = .ok p ∧
        p.powRequirement = 0x3FE0000000000000#64 ∧
        (∀ e, p.bloomMatch e = bloomFilterMatch lightNode.settings.bloomFilter e.bloom) ∧
        p.confirmationsEnabled = true := by
  have hvalid : lightNode.ValidStatus := by
    refine ⟨by decide +kernel, fun f hf => ?_⟩
    cases hf
    decide +kernel
  have hlight : Peer.Unrestricted (new {}).settings true := by decide
  exact ⟨hvalid, hlight, (status_round_trip hvalid 7).1 hlight⟩

end Whisper

end Whisperv6
