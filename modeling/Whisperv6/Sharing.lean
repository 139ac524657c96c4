import Whisperv6.Admission

/-! The pool, the queues and the archive of a node hold pointers, and `add` fills the caches of the
envelope that its argument points to.  Here the node is modelled with these pointers.  `add` either
leaves all of them or adds its argument everywhere.  For an argument that the node does not hold
yet it is the `add` on values; of one that it holds it may change the proof of work. -/

namespace Whisperv6

open ProofKit

/-! ### The checks on an envelope in memory -/

namespace Envelope

/-- The envelope after a call of `Hash`. -/
def fillHash (C : Crypto) (e : Envelope) : Envelope := { e with hashCache := e.hash C }

/-- The envelope after a call of `Bloom`. -/
def fillBloom (e : Envelope) : Envelope := { e with bloomCache := some e.bloom }

/-- The two envelopes differ in their caches only, and have the same hash and bloom filter. -/
structure Recached (C : Crypto) (e e' : Envelope) : Prop where
  fields : e' = { e with
    powCache := e'.powCache, hashCache := e'.hashCache, bloomCache := e'.bloomCache }
  hash : e'.hash C = e.hash C
  bloom : e'.bloom = e.bloom

namespace Recached

variable {C : Crypto} {e e' e'' : Envelope}

theorem trans (h : Recached C e e') (h' : Recached C e' e'') : Recached C e e'' := by
  refine ⟨?_, h'.hash.trans h.hash, h'.bloom.trans h.bloom⟩
  rw [h'.fields, h.fields]

theorem expiry (h : Recached C e e') : e'.expiry = e.expiry := by rw [h.fields]

theorem size (h : Recached C e e') : e'.size = e.size := by rw [h.fields]; rfl

theorem pow (h : Recached C e e') (hpow : e'.powCache = e.powCache) : e'.pow C = e.pow C := by
  have hcalculated : (e'.calculatePoW C 0).powCache = (e.calculatePoW C 0).powCache := by
    rw [h.fields]
    rfl
  unfold Envelope.pow fillPoW
  rw [hpow]
  split
  · exact hcalculated
  · exact hpow

end Recached

variable (C : Crypto) (e : Envelope)

theorem hash_fillHash : (e.fillHash C).hash C = e.hash C := by
  have hfill := e.hash_fill C
  rwa [hash] at hfill ⊢

theorem fillPoW_eq : e.fillPoW C = { e with powCache := e.pow C } := by
  unfold pow fillPoW
  split <;> rfl

theorem pow_fillPoW : (e.fillPoW C).pow C = e.pow C := pow_of_powCache (e.pow_ne_zero C)

theorem recached_fillHash : Recached C e (e.fillHash C) := ⟨rfl, hash_fillHash C e, rfl⟩

theorem recached_fillBloom : Recached C e e.fillBloom := ⟨rfl, rfl, rfl⟩

theorem recached_fillPoW : Recached C e (e.fillPoW C) := by
  rw [fillPoW_eq]
  exact ⟨rfl, rfl, rfl⟩

theorem recached_adjust (now : UInt32) : Recached C e (e.adjust C now) := by
  rw [adjust_eq]
  exact ⟨rfl, rfl, rfl⟩

end Envelope

/-- The checks of `add` as they run on the envelope that its argument points to: what they leave
there, and `true` for an envelope that passes.  Every exit also logs or returns the hash. -/
def Settings.checkObject (C : Crypto) (s : Settings) (now : UInt32) (e : Envelope) :
    Envelope × Except AddError Bool :=
  let sent := e.expiry - e.ttl
  if now < sent ∧ now < sent - defaultSyncAllowance then (e.fillHash C, .error .inFuture)
  else
    let e := e.adjust C now
    if e.expiry < now then
      if e.expiry + defaultSyncAllowance * 2 < now then (e.fillHash C, .error .veryOld)
      else (e.fillHash C, .ok false)
    else if s.maxMsgSize < UInt32.ofNat e.size then (e.fillHash C, .error .oversized)
    else
      let pow := e.pow C
      let e := e.fillPoW C
      if pow.lt s.getMinPow.value && pow.lt s.getMinPowTolerance.value then
        (e.fillHash C, .error .lowPow)
      else
        let bloom := e.bloom
        let e := e.fillBloom
        if !bloomFilterMatch s.bloomFilter bloom &&
            !bloomFilterMatch s.bloomFilterTolerance bloom then
          (e.fillHash C, .error .noBloomMatch)
        else (e.fillHash C, .ok true)

namespace Settings

/-- The envelope is so far from the future that `add` returns before it computes the proof of
work. -/
def FarFuture (now : UInt32) (e : Envelope) : Prop :=
  now < e.expiry - e.ttl ∧ now < e.expiry - e.ttl - defaultSyncAllowance

instance (now : UInt32) (e : Envelope) : Decidable (FarFuture now e) :=
  inferInstanceAs (Decidable (_ ∧ _))

/-- What the checks leave in memory. -/
structure Leaves (C : Crypto) (now : UInt32) (e e' : Envelope) : Prop where
  recached : e.Recached C e'
  pow : e'.pow C = if FarFuture now e then e.pow C else (e.adjust C now).pow C

/-- A result of the checks in memory against one of the checks on values: they say the same, and
what is left in memory is the envelope that the checks on values return. -/
structure Agrees (C : Crypto) (now : UInt32) (e : Envelope)
    (out : Envelope × Except AddError Bool) (checked : Except AddError (Option Envelope)) :
    Prop where
  leaves : Leaves C now e out.1
  result : out.2 = checked.map Option.isSome
  passed : ∀ e', checked = .ok (some e') → out.1 = e'

section

variable {C : Crypto} {now : UInt32} {e e' : Envelope}

theorem Agrees.ite {c : Prop} [Decidable c] {out out' : Envelope × Except AddError Bool}
    {checked checked' : Except AddError (Option Envelope)} (hpos : c → Agrees C now e out checked)
    (hneg : ¬ c → Agrees C now e out' checked') :
    Agrees C now e (if c then out else out') (if c then checked else checked') := by
  split
  · exact hpos ‹_›
  · exact hneg ‹_›

theorem leaves_fillHash (hnear : ¬ FarFuture now e) (h : (e.adjust C now).Recached C e')
    (hpow : e'.pow C = (e.adjust C now).pow C) : Leaves C now e (e'.fillHash C) := by
  have hfill := e'.recached_fillHash C
  refine ⟨((e.recached_adjust C now).trans h).trans hfill, ?_⟩
  rw [if_neg hnear, hfill.pow rfl, hpow]

theorem checkObject_agrees (C : Crypto) (s : Settings) (now : UInt32) (e : Envelope) :
    Agrees C now e (s.checkObject C now e) (s.check C now e) := by
  have hself : (e.adjust C now).Recached C (e.adjust C now) := ⟨rfl, rfl, rfl⟩
  have hpow := (e.adjust C now).recached_fillPoW C
  have hbloom := hpow.trans (((e.adjust C now).fillPoW C).recached_fillBloom C)
  have hpow_eq := (e.adjust C now).pow_fillPoW C
  have hbloom_eq : ((e.adjust C now).fillPoW C).fillBloom.pow C = (e.adjust C now).pow C :=
    ((Envelope.recached_fillBloom C _).pow rfl).trans hpow_eq
  unfold checkObject check
  dsimp only
  rw [hpow.bloom]
  refine .ite (fun hfar => ?_) fun hnear => ?_
  · have hfill := e.recached_fillHash C
    exact ⟨⟨hfill, (hfill.pow rfl).trans (if_pos hfar).symm⟩, rfl, nofun⟩
  have hleft := leaves_fillHash hnear hself rfl
  refine .ite (fun _ => .ite (fun _ => ?_) fun _ => ?_) fun _ => .ite (fun _ => ?_) fun _ => ?_
  · exact ⟨hleft, rfl, nofun⟩
  · exact ⟨hleft, rfl, nofun⟩
  · exact ⟨hleft, rfl, nofun⟩
  refine .ite (fun _ => ?_) fun _ => .ite (fun _ => ?_) fun _ => ?_
  · exact ⟨leaves_fillHash hnear hpow hpow_eq, rfl, nofun⟩
  · exact ⟨leaves_fillHash hnear hbloom hbloom_eq, rfl, nofun⟩
  · refine ⟨leaves_fillHash hnear hbloom hbloom_eq, rfl, fun e' h => ?_⟩
    cases h
    rw [Envelope.fillPoW_eq]
    rfl

end

end Settings

/-! ### The node with its pointers -/

/-- The address of an envelope. -/
abbrev EnvelopeRef := Nat

/-- What `p2pMsgQueue` carries, with the addresses of envelopes. -/
inductive P2PRef
  | envelope (r : EnvelopeRef)
  | event (e : EnvelopeEvent)
  deriving DecidableEq

def P2PRef.item (load : EnvelopeRef → Envelope) : P2PRef → P2PItem
  | .envelope r => .envelope (load r)
  | .event e => .event e

/-- `Whisper`, where the pool, the queues and the archive hold the addresses of envelopes in
`memory`. -/
structure SharedWhisper where
  memory : Memory Envelope
  settings : Settings
  envelopes : GoMap Hash EnvelopeRef := ∅
  expirations : GoMap UInt32 (Finset Hash) := ∅
  messageQueue : List EnvelopeRef := []
  p2pMsgQueue : List P2PRef := []
  stats : Statistics := {}
  mailServer : Bool := false
  archived : List EnvelopeRef := []
  disableConfirmations : Bool
  envelopeFeed : List EnvelopeEvent := []

namespace SharedWhisper

/-- The node that one sees through the pointers. -/
def value (s : SharedWhisper) : Whisper where
  settings := s.settings
  envelopes := mapValues s.memory.load s.envelopes
  expirations := s.expirations
  messageQueue := s.messageQueue.map s.memory.load
  p2pMsgQueue := s.p2pMsgQueue.map (P2PRef.item s.memory.load)
  stats := s.stats
  mailServer := s.mailServer
  archived := s.archived.map s.memory.load
  disableConfirmations := s.disableConfirmations
  envelopeFeed := s.envelopeFeed

/-- The envelope at `r` becomes `e`. -/
def write (s : SharedWhisper) (r : EnvelopeRef) (e : Envelope) : SharedWhisper :=
  { s with memory := s.memory.store r e }

def checkOverflow (s : SharedWhisper) : SharedWhisper :=
  let queueSize := s.messageQueue.length
  if queueSize = messageQueueLimit then { s with settings.overflow := true }
  else if queueSize ≤ messageQueueLimit / 2 then { s with settings.overflow := false }
  else s

def postEvent (s : SharedWhisper) (r : EnvelopeRef) (isP2P : Bool) : SharedWhisper :=
  if isP2P then { s with p2pMsgQueue := s.p2pMsgQueue ++ [.envelope r] }
  else { s.checkOverflow with messageQueue := s.messageQueue ++ [r] }

/-- The part of `add` under the pool lock, for a hash that is not cached. -/
def insert (C : Crypto) (s : SharedWhisper) (r : EnvelopeRef) : SharedWhisper :=
  let e := s.memory.load r
  { s with
    envelopes := s.envelopes.insert (e.hash C) r
    expirations := s.expirations.insert e.expiry
      (Insert.insert (e.hash C) ((s.expirations.lookup e.expiry).getD ∅)) }

/-- The end of `add`: the mail server, if there is one, archives the envelope. -/
def archive (C : Crypto) (s : SharedWhisper) (r : EnvelopeRef) : SharedWhisper :=
  let e := s.memory.load r
  if s.mailServer then
    { s with
      archived := s.archived ++ [r]
      envelopeFeed := s.envelopeFeed ++
        [{ event := .mailServerEnvelopeArchived, topic := e.topic, hash := e.hash C }] }
  else s

/-- The part of `add` after the pool lock, for a hash that was not cached. -/
def announce (C : Crypto) (s : SharedWhisper) (r : EnvelopeRef) (isP2P : Bool) : SharedWhisper :=
  let s := { s with stats.memoryUsed := s.stats.memoryUsed + (s.memory.load r).size }
  (s.postEvent r isP2P).archive C r

/-- `add` for the envelope at `r`. -/
def add (C : Crypto) (s : SharedWhisper) (now : UInt32) (r : EnvelopeRef) (isP2P : Bool) :
    SharedWhisper × Except AddError Bool :=
  let checked := s.settings.checkObject C now (s.memory.load r)
  let s := s.write r checked.1
  match checked.2 with
  | .error err => (s, .error err)
  | .ok false => (s, .ok false)
  | .ok true =>
    if checked.1.hash C ∈ s.envelopes then (s, .ok true)
    else ((s.insert C r).announce C r isP2P, .ok true)

/-- `Send` for the envelope at `r`. -/
def send (C : Crypto) (s : SharedWhisper) (now : UInt32) (r : EnvelopeRef) :
    SharedWhisper × Option GoError :=
  let (s', result) := s.add C now r false
  (s', match result with
    | .error err => some (err.value C s.settings now (s.memory.load r))
    | .ok false => some (newError "failed to add envelope")
    | .ok true => none)

/-- Some pointer of the node is `r`. -/
def Holds (s : SharedWhisper) (r : EnvelopeRef) : Prop :=
  (∃ h, s.envelopes.lookup h = some r) ∨ r ∈ s.messageQueue ∨ .envelope r ∈ s.p2pMsgQueue ∨
    r ∈ s.archived

/-! ### The operations seen through the pointers -/

section

variable (C : Crypto) (s : SharedWhisper) (r : EnvelopeRef) (isP2P : Bool)

theorem value_checkOverflow : s.checkOverflow.value = s.value.checkOverflow := by
  simp only [checkOverflow, Whisper.checkOverflow, value, List.length_map]
  split
  · rfl
  · split <;> rfl

theorem checkOverflow_update : ∃ flag, s.checkOverflow = { s with settings.overflow := flag } := by
  unfold checkOverflow
  dsimp only
  split
  · exact ⟨true, rfl⟩
  · split
    · exact ⟨false, rfl⟩
    · exact ⟨s.settings.overflow, rfl⟩

theorem postEvent_update :
    ∃ flag, s.postEvent r isP2P =
      { s with
        settings.overflow := flag
        messageQueue := if isP2P then s.messageQueue else s.messageQueue ++ [r]
        p2pMsgQueue := if isP2P then s.p2pMsgQueue ++ [.envelope r] else s.p2pMsgQueue } := by
  cases isP2P with
  | true => exact ⟨s.settings.overflow, rfl⟩
  | false =>
    obtain ⟨flag, h⟩ := s.checkOverflow_update
    refine ⟨flag, ?_⟩
    simp only [postEvent, h]
    rfl

theorem announce_update :
    ∃ flag feed, s.announce C r isP2P =
      { s with
        settings.overflow := flag
        stats.memoryUsed := s.stats.memoryUsed + (s.memory.load r).size
        messageQueue := if isP2P then s.messageQueue else s.messageQueue ++ [r]
        p2pMsgQueue := if isP2P then s.p2pMsgQueue ++ [.envelope r] else s.p2pMsgQueue
        archived := if s.mailServer then s.archived ++ [r] else s.archived
        envelopeFeed := feed } := by
  obtain ⟨flag, h⟩ := { s with
    stats.memoryUsed := s.stats.memoryUsed + (s.memory.load r).size }.postEvent_update r isP2P
  unfold announce archive
  dsimp only at h ⊢
  rw [h]
  dsimp only
  split
  · exact ⟨flag, _, rfl⟩
  · exact ⟨flag, _, rfl⟩

theorem value_postEvent :
    (s.postEvent r isP2P).value = s.value.postEvent (s.memory.load r) isP2P := by
  cases isP2P with
  | true => simp [postEvent, Whisper.postEvent, value, P2PRef.item]
  | false =>
    obtain ⟨flag, h⟩ := s.checkOverflow_update
    have hvalue := s.value_checkOverflow
    simp only [postEvent, Whisper.postEvent, Bool.false_eq_true, if_false, ← hvalue, h]
    simp [value]

theorem value_insert : (s.insert C r).value = s.value.insert C (s.memory.load r) := by
  simp only [insert, Whisper.insert, value, mapValues_insert]

theorem value_archive : (s.archive C r).value = s.value.archive C (s.memory.load r) := by
  unfold archive Whisper.archive
  have hserver : s.value.mailServer = s.mailServer := rfl
  dsimp only
  rw [hserver]
  split
  · simp [value]
  · rfl

theorem value_announce :
    (s.announce C r isP2P).value = s.value.announce C (s.memory.load r) isP2P := by
  let s' := { s with stats.memoryUsed := s.stats.memoryUsed + (s.memory.load r).size }
  have hmemory : (s'.postEvent r isP2P).memory = s.memory := by
    obtain ⟨flag, h⟩ := s'.postEvent_update r isP2P
    rw [h]
  have harchive := (s'.postEvent r isP2P).value_archive C r
  rw [hmemory, s'.value_postEvent r isP2P] at harchive
  exact harchive

end

/-- A write to an envelope that the node does not hold is not seen. -/
theorem value_write {s : SharedWhisper} {r : EnvelopeRef} (h : ¬ s.Holds r) (e : Envelope) :
    (s.write r e).value = s.value := by
  have hload : ∀ r', r' ≠ r → (s.memory.store r e).load r' = s.memory.load r' :=
    fun r' hr => s.memory.load_store_of_ne hr e
  simp only [Holds, not_or, not_exists] at h
  obtain ⟨henvelopes, hqueue, hp2p, harchived⟩ := h
  have h1 : mapValues (s.memory.store r e).load s.envelopes = mapValues s.memory.load s.envelopes :=
    mapValues_congr fun k r' hk => hload r' fun hr => henvelopes k (hr ▸ hk)
  have h2 : s.messageQueue.map (s.memory.store r e).load = s.messageQueue.map s.memory.load :=
    List.map_congr_left fun r' hr' => hload r' fun hr => hqueue (hr ▸ hr')
  have h3 : s.p2pMsgQueue.map (P2PRef.item (s.memory.store r e).load) =
      s.p2pMsgQueue.map (P2PRef.item s.memory.load) := by
    refine List.map_congr_left fun x hx => ?_
    cases x with
    | envelope r' =>
      have hr : r' ≠ r := fun hr => hp2p (hr ▸ hx)
      rw [P2PRef.item, P2PRef.item, hload r' hr]
    | event ev => rfl
  have h4 : s.archived.map (s.memory.store r e).load = s.archived.map s.memory.load :=
    List.map_congr_left fun r' hr' => hload r' fun hr => harchived (hr ▸ hr')
  simp only [value, write, h1, h2, h3, h4]

/-! ### `add` on pointers -/

section

variable (C : Crypto) (s : SharedWhisper) (now : UInt32) (r : EnvelopeRef) (isP2P : Bool)

/-- What the checks leave at the address `r`. -/
def checked : Envelope := (s.settings.checkObject C now (s.memory.load r)).1

theorem add_snd : (s.add C now r isP2P).2 =
    (s.value.add C now (s.memory.load r) isP2P).2 := by
  rw [Whisper.add_snd]
  refine .trans ?_ (s.settings.checkObject_agrees C now (s.memory.load r)).result
  unfold add
  dsimp only
  split
  · rename_i h
    exact h.symm
  · rename_i h
    exact h.symm
  · rename_i h
    rw [h]
    split <;> rfl

theorem hash_checked : (s.checked C now r).hash C = (s.memory.load r).hash C :=
  (s.settings.checkObject_agrees C now (s.memory.load r)).leaves.recached.hash

/-- The pointers stay, or the envelope has passed the checks and its hash is new. -/
theorem add_cases :
    (s.add C now r isP2P).1 = s.write r (s.checked C now r) ∧
      ((s.add C now r isP2P).2 = .ok true → (s.memory.load r).hash C ∈ s.envelopes) ∨
    (s.add C now r isP2P).2 = .ok true ∧ (s.memory.load r).hash C ∉ s.envelopes ∧
      (s.add C now r isP2P).1 =
        ((s.write r (s.checked C now r)).insert C r).announce C r isP2P := by
  rw [← s.hash_checked C now r]
  unfold add
  dsimp only
  split
  · exact .inl ⟨rfl, nofun⟩
  · exact .inl ⟨rfl, nofun⟩
  · split
    · rename_i hmem
      exact .inl ⟨rfl, fun _ => hmem⟩
    · rename_i hnew
      exact .inr ⟨rfl, hnew, rfl⟩

end

section

variable {C : Crypto} {s : SharedWhisper} {now : UInt32} {r : EnvelopeRef} {isP2P : Bool}

theorem memory_add : (s.add C now r isP2P).1.memory = s.memory.store r (s.checked C now r) := by
  obtain ⟨hsame, -⟩ | ⟨-, -, hadd⟩ := s.add_cases C now r isP2P
  · rw [hsame]
    rfl
  · obtain ⟨flag, feed, h⟩ :=
      ((s.write r (s.checked C now r)).insert C r).announce_update C r isP2P
    rw [hadd, h]
    rfl

/-- For an envelope that the node does not hold, `add` is the one on values. -/
theorem value_add (hfree : ¬ s.Holds r) : (s.add C now r isP2P).1.value =
    (s.value.add C now (s.memory.load r) isP2P).1 := by
  have hwrite := value_write hfree (s.checked C now r)
  have hsnd := s.add_snd C now r isP2P
  have hmem : (s.memory.load r).hash C ∈ s.value.envelopes ↔
      (s.memory.load r).hash C ∈ s.envelopes := mem_mapValues
  obtain ⟨hsame, hcached⟩ | ⟨hok, hnew, hadd⟩ := s.add_cases C now r isP2P
  · rw [hsame, hwrite]
    by_cases hok : (s.add C now r isP2P).2 = .ok true
    · exact (Whisper.add_of_mem (hmem.mpr (hcached hok))).symm
    · exact (Whisper.add_of_not_cached (hsnd ▸ hok)).symm
  · rw [hsnd] at hok
    obtain ⟨e', hcheck⟩ := Whisper.add_cached_iff.mp hok
    have he' : s.checked C now r = e' :=
      (s.settings.checkObject_agrees C now (s.memory.load r)).passed e' hcheck
    have hload : (s.write r (s.checked C now r)).memory.load r = e' := by
      rw [write, Memory.load_store_self, he']
    have hload' : ((s.write r (s.checked C now r)).insert C r).memory.load r = e' := hload
    rw [hadd, value_announce, value_insert, hload', hload, hwrite,
      Whisper.add_of_notMem hcheck fun h => hnew (hmem.mp h)]

theorem send_eq_none_iff : (s.send C now r).2 = none ↔ (s.add C now r false).2 = .ok true := by
  unfold send
  cases s.add C now r false with
  | mk s' result =>
    cases result with
    | error err => simp
    | ok cached => cases cached <;> simp

theorem mem_of_cached (h : (s.add C now r isP2P).2 = .ok true) :
    (s.memory.load r).hash C ∈ (s.add C now r isP2P).1.envelopes := by
  obtain ⟨hsame, hmem⟩ | ⟨-, -, hadd⟩ := s.add_cases C now r isP2P
  · rw [hsame]
    exact hmem h
  · obtain ⟨flag, feed, hannounce⟩ :=
      ((s.write r (s.checked C now r)).insert C r).announce_update C r isP2P
    rw [hadd, hannounce]
    show _ ∈ s.envelopes.insert (((s.write r (s.checked C now r)).memory.load r).hash C) r
    rw [write, Memory.load_store_self, hash_checked, Finmap.mem_insert]
    exact .inl rfl

end

/-- The two nodes hold the same pointers, and differ in what is in memory only. -/
def SamePointers (s s' : SharedWhisper) : Prop := s' = { s with memory := s'.memory }

/-- The envelope at `r` joins the node: the pool, the set of its expiry second, the statistics, one
of the two queues and, with a mail server, the archive. -/
structure Admits (C : Crypto) (s : SharedWhisper) (r : EnvelopeRef) (isP2P : Bool)
    (s' : SharedWhisper) : Prop where
  envelopes : s'.envelopes = s.envelopes.insert ((s.memory.load r).hash C) r
  absent : (s.memory.load r).hash C ∉ s.value.second (s.memory.load r).expiry
  bucket : s'.value.second (s.memory.load r).expiry =
    Insert.insert ((s.memory.load r).hash C) (s.value.second (s.memory.load r).expiry)
  buckets : ∀ t, t ≠ (s.memory.load r).expiry →
    s'.expirations.lookup t = s.expirations.lookup t
  stats : s'.stats =
    { s.stats with memoryUsed := s.stats.memoryUsed + (s.memory.load r).size }
  messageQueue : s'.messageQueue = if isP2P then s.messageQueue else s.messageQueue ++ [r]
  p2pMsgQueue : s'.p2pMsgQueue =
    if isP2P then s.p2pMsgQueue ++ [.envelope r] else s.p2pMsgQueue
  archived : s'.archived = if s.mailServer then s.archived ++ [r] else s.archived

section

variable {C : Crypto} {s : SharedWhisper} {now : UInt32} {r : EnvelopeRef} {isP2P : Bool}

theorem samePointers_add
    (h : (s.add C now r isP2P).2 ≠ .ok true ∨ (s.memory.load r).hash C ∈ s.envelopes) :
    s.SamePointers (s.add C now r isP2P).1 := by
  obtain ⟨hsame, -⟩ | ⟨hok, hnew, -⟩ := s.add_cases C now r isP2P
  · rw [hsame]
    rfl
  · exact (h.elim (fun h => h hok) hnew).elim

theorem admits_add (hs : s.value.Consistent C) (hok : (s.add C now r isP2P).2 = .ok true)
    (hnew : (s.memory.load r).hash C ∉ s.envelopes) :
    s.Admits C r isP2P (s.add C now r isP2P).1 := by
  obtain ⟨-, hmem⟩ | ⟨-, -, hadd⟩ := s.add_cases C now r isP2P
  · exact absurd (hmem hok) hnew
  let s' := s.write r (s.checked C now r)
  have hload : s'.memory.load r = s.checked C now r := s.memory.load_store_self r _
  have hleaves := (s.settings.checkObject_agrees C now (s.memory.load r)).leaves.recached
  have hhash : (s'.memory.load r).hash C = (s.memory.load r).hash C := hload ▸ hleaves.hash
  have hexpiry : (s'.memory.load r).expiry = (s.memory.load r).expiry := hload ▸ hleaves.expiry
  have hsize : (s'.memory.load r).size = (s.memory.load r).size := hload ▸ hleaves.size
  obtain ⟨flag, feed, hannounce⟩ := (s'.insert C r).announce_update C r isP2P
  rw [hannounce] at hadd
  have hexpirations : (s.add C now r isP2P).1.expirations =
      s.expirations.insert (s.memory.load r).expiry (Insert.insert ((s.memory.load r).hash C)
        (s.value.second (s.memory.load r).expiry)) := by
    rw [hadd, ← hhash, ← hexpiry]
    rfl
  refine ⟨?_, fun h => hnew (mem_mapValues.mp (hs.mem_envelopes h)), ?_, ?_, ?_, ?_, ?_, ?_⟩
  · rw [hadd, ← hhash]
    rfl
  · show ((s.add C now r isP2P).1.expirations.lookup _).getD ∅ = _
    rw [hexpirations, Finmap.lookup_insert]
    rfl
  · intro t ht
    rw [hexpirations, Finmap.lookup_insert_of_ne _ ht]
  · rw [hadd, ← hsize]
    rfl
  · rw [hadd]
    rfl
  · rw [hadd]
    rfl
  · rw [hadd]
    rfl

end

/-- `add` writes to the caches of its argument only, and of what they stand for it changes at most
the proof of work.  It either leaves all the pointers of the node or it admits its argument, whose
hash was not pooled, everywhere.  It reports success exactly for the envelopes that pass the
checks, and so does `Send`.  For an argument that the node does not hold, it is the `add` on
values. -/
theorem add_all_or_nothing (C : Crypto) (s : SharedWhisper) (hs : s.value.Consistent C)
    (now : UInt32) (r : EnvelopeRef) (isP2P : Bool) :
    (∃ e', (s.add C now r isP2P).1.memory = s.memory.store r e' ∧
      Settings.Leaves C now (s.memory.load r) e') ∧
    ((s.add C now r isP2P).2 ≠ .ok true → s.SamePointers (s.add C now r isP2P).1) ∧
    ((s.add C now r isP2P).2 = .ok true →
      (s.memory.load r).hash C ∈ (s.add C now r isP2P).1.envelopes ∧
      ((s.memory.load r).hash C ∈ s.envelopes → s.SamePointers (s.add C now r isP2P).1) ∧
      ((s.memory.load r).hash C ∉ s.envelopes → s.Admits C r isP2P (s.add C now r isP2P).1)) ∧
    ((s.add C now r isP2P).2 = .ok true ↔ s.settings.Passes C now (s.memory.load r)) ∧
    ((s.send C now r).2 = none ↔ s.settings.Passes C now (s.memory.load r)) ∧
    ((s.send C now r).2 = none → (s.memory.load r).hash C ∈ (s.send C now r).1.envelopes) ∧
    (¬ s.Holds r →
      (s.add C now r isP2P).2 = (s.value.add C now (s.memory.load r) isP2P).2 ∧
      (s.add C now r isP2P).1.value = (s.value.add C now (s.memory.load r) isP2P).1 ∧
      ((s.add C now r isP2P).2 ≠ .ok true ∨ (s.memory.load r).hash C ∈ s.envelopes →
        (s.add C now r isP2P).1.value = s.value)) := by
  have hpasses : ∀ isP2P, (s.add C now r isP2P).2 = .ok true ↔
      s.settings.Passes C now (s.memory.load r) := by
    intro isP2P
    rw [add_snd]
    exact Whisper.add_cached_iff_passes
  refine ⟨⟨_, memory_add, (s.settings.checkObject_agrees C now _).leaves⟩,
    fun h => samePointers_add (.inl h),
    fun hok => ⟨mem_of_cached hok, fun h => samePointers_add (.inr h), admits_add hs hok⟩,
    hpasses isP2P, send_eq_none_iff.trans (hpasses false),
    fun h => mem_of_cached (send_eq_none_iff.mp h),
    fun hfree => ⟨s.add_snd C now r isP2P, value_add hfree, fun h => ?_⟩⟩
  obtain ⟨hsame, -⟩ | ⟨hok, hnew, -⟩ := s.add_cases C now r isP2P
  · rw [hsame, value_write hfree]
  · exact (h.elim (fun h => h hok) hnew).elim

/-- A new node, with the sample envelope in memory. -/
def sharedNode : SharedWhisper where
  memory := { next := 1, load := fun _ => sampleEnvelope }
  settings := (new {}).settings
  disableConfirmations := false

theorem sharedNode_free (r : EnvelopeRef) : ¬ sharedNode.Holds r := by
  simp [Holds, sharedNode]

theorem sharedNode_consistent : sharedNode.value.Consistent sampleCrypto :=
  Whisper.new_consistent _ _

theorem add_all_or_nothing_sample :
    sharedNode.Admits sampleCrypto 0 false
        (sharedNode.add sampleCrypto 1600000000 0 false).1 ∧
    (sharedNode.add sampleCrypto 1600000000 0 false).1.value =
      ((new {}).add sampleCrypto 1600000000 sampleEnvelope false).1 := by
  have hok : (sharedNode.add sampleCrypto 1600000000 0 false).2 = .ok true := by decide +kernel
  obtain ⟨-, -, hcached, -, -, -, hvalue⟩ :=
    add_all_or_nothing sampleCrypto sharedNode sharedNode_consistent 1600000000 0 false
  exact ⟨(hcached hok).2.2 (by decide +kernel), (hvalue (sharedNode_free 0)).2.1⟩

/-- The node has admitted the envelope five seconds before it was created. -/
def earlyNode : SharedWhisper := (sharedNode.add sampleCrypto 1599999995 0 false).1

/-- The same node, when the required proof of work has been raised to 1. -/
def strictNode : SharedWhisper :=
  { earlyNode with
    settings.minPow := some 0x3FF0000000000000
    settings.minPowTolerance := some 0x3FF0000000000000 }

/-- The proof of work of the pooled envelope. -/
def pooledPow (s : SharedWhisper) : Option FloatVal :=
  (s.value.envelopes.lookup (sampleEnvelope.hash sampleCrypto)).map Envelope.powCache

/-- A second call for the pooled envelope, while it is from the future, changes the envelope in the
pool: one that returns no error, and one that fails. -/
theorem pooled_pow_changes :
    earlyNode.value.Consistent sampleCrypto ∧ strictNode.value.Consistent sampleCrypto ∧
    (earlyNode.send sampleCrypto 1599999999 0).2 = none ∧
    (earlyNode.send sampleCrypto 1599999999 0).1.pooledPow ≠ earlyNode.pooledPow ∧
    (strictNode.add sampleCrypto 1599999999 0 false).2 = .error .lowPow ∧
    (strictNode.add sampleCrypto 1599999999 0 false).1.pooledPow ≠ strictNode.pooledPow := by
  have hconsistent : earlyNode.value.Consistent sampleCrypto := by
    rw [earlyNode, value_add (sharedNode_free 0)]
    exact Whisper.add_consistent sharedNode_consistent ..
  refine ⟨hconsistent, hconsistent.congr rfl rfl, ?_, ?_, ?_, ?_⟩
  · decide +kernel
  · decide +kernel
  · decide +kernel
  · decide +kernel

end SharedWhisper

end Whisperv6
