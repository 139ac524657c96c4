import Whisperv6.Peer
import Whisperv6.Pool

/-! The message loop on a packet of envelopes: each envelope goes through `add`, an error that is no
`TimeSyncError` ends the connection, and a confirmation lists the errors by code. -/

namespace Whisperv6

open ProofKit

/-- The methods of the interface type `TimeSyncError`, which is declared as `error`. -/
def timeSyncErrorMethods : List String := ["Error"]

structure EnvelopeError where
  hash : Hash
  code : Nat
  description : String
  deriving DecidableEq

/-- `ErrorToEnvelopeError`: the type switch takes its case under the rule of a type assertion. -/
def errorToEnvelopeError (hash : Hash) (err : GoError) : EnvelopeError where
  hash := hash
  code := if (typeAssert timeSyncErrorMethods err).isSome then envelopeTimeNotSynced
    else envelopeOtherError
  description := err.text

/-- The variables of the loop over the envelopes of a packet. -/
structure Batch where
  whisper : Whisper
  peer : Peer
  trouble : Bool := false
  envelopeErrors : List EnvelopeError := []

/-- One envelope of a packet, at the clock reading `now`. -/
def Batch.receive (C : Crypto) (b : Batch) (now : UInt32) (e : Envelope) : Batch :=
  let (w, result) := b.whisper.add C now e b.whisper.settings.lightClientMode
  let b := match result with
    | .error err =>
      let err := err.value C b.whisper.settings now e
      { b with
        trouble := b.trouble || (typeAssert timeSyncErrorMethods err).isNone
        envelopeErrors := b.envelopeErrors ++ [errorToEnvelopeError (e.hash C) err] }
    | .ok _ => b
  { b with
    whisper := { w with
      envelopeFeed := w.envelopeFeed ++
        [{ event := .envelopeReceived, topic := e.topic, hash := e.hash C, peer := b.peer.id }] }
    peer := if result = .ok true then b.peer.mark C e else b.peer }

def Batch.receiveAll (C : Crypto) (b : Batch) (batch : List (UInt32 × Envelope)) : Batch :=
  batch.foldl (fun b x => b.receive C x.1 x.2) b

/-- The check of `runMessageLoop` on the size of a packet: the error with which it returns. -/
def Whisper.checkPacketSize (w : Whisper) (packet : Packet) : Option GoError :=
  if w.settings.maxMsgSize < packet.size then some (newError "oversized message received")
  else none

/-- What the loop leaves after a packet: the confirmation that it sends, with the hash of the
batch, and the error with which it returns and ends the connection. -/
structure Outcome where
  whisper : Whisper
  peer : Peer
  confirmation : Option (Hash × List EnvelopeError)
  returned : Option GoError

/-- The case `messagesCode` of `runMessageLoop` on a packet with the bytes `data`, which decode to
the envelopes of `batch`; each comes with the clock reading of its `add`. -/
def handleMessages (C : Crypto) (w : Whisper) (p : Peer) (data : Bytes)
    (batch : List (UInt32 × Envelope)) : Outcome :=
  let b := Batch.receiveAll C { whisper := w, peer := p } batch
  { whisper := b.whisper
    peer := b.peer
    confirmation :=
      if w.disableConfirmations then none else some (C.keccak256Hash data, b.envelopeErrors)
    returned := if b.trouble then some (newError "invalid envelope") else none }

/-! ### The errors of a packet -/

/-- The error is built as a `TimeSyncError`. -/
def AddError.isTimeSync : AddError → Bool
  | .inFuture => true
  | .veryOld => true
  | .oversized => false
  | .lowPow => false
  | .noBloomMatch => false

/-- The code that the confirmation should give to an error. -/
def AddError.code (err : AddError) : Nat :=
  if err.isTimeSync then envelopeTimeNotSynced else envelopeOtherError

/-- The errors that `add` returns for the envelopes of a packet, one after another. -/
def addErrors (C : Crypto) : Whisper → List (UInt32 × Envelope) → List (Envelope × AddError)
  | _, [] => []
  | w, (now, e) :: rest =>
    let (w', result) := w.add C now e w.settings.lightClientMode
    match result with
    | .error err => (e, err) :: addErrors C w' rest
    | .ok _ => addErrors C w' rest

/-- What the loop should make of the errors: it keeps the connection when all are
`TimeSyncError`s, it returns an error when one is not, and the confirmation has their codes. -/
def ClassifiesErrors (C : Crypto) (w : Whisper) (p : Peer) (data : Bytes)
    (batch : List (UInt32 × Envelope)) : Prop :=
  let out := handleMessages C w p data batch
  let errors := addErrors C w batch
  (out.returned = none ↔ ∀ x ∈ errors, x.2.isTimeSync = true) ∧
  (out.returned = some (newError "invalid envelope") ↔ ∃ x ∈ errors, x.2.isTimeSync = false) ∧
  ∀ hash list, out.confirmation = some (hash, list) →
    list.map (fun x => (x.hash, x.code)) = errors.map fun x => (x.1.hash C, x.2.code)

/-- The type assertion succeeds on every error of `add`, however it was built. -/
theorem AddError.typeAssert_value (C : Crypto) (s : Settings) (now : UInt32) (e : Envelope)
    (err : AddError) :
    typeAssert timeSyncErrorMethods (err.value C s now e) = some (err.value C s now e) := by
  cases err <;> rfl

/-- The envelope passes the time checks of `add` at the clock reading `now`, but it is too large for
the settings, its proof of work is too low, or its topic does not match the bloom filter. -/
def Settings.Refuses (C : Crypto) (s : Settings) (now : UInt32) (e : Envelope) : Prop :=
  ¬ (now < e.expiry - e.ttl ∧ now < e.expiry - e.ttl - defaultSyncAllowance) ∧ now ≤ e.expiry ∧
  (s.maxMsgSize < UInt32.ofNat e.size ∨
    (((e.adjust C now).pow C).lt s.getMinPow.value = true ∧
      ((e.adjust C now).pow C).lt s.getMinPowTolerance.value = true) ∨
    (bloomFilterMatch s.bloomFilter e.bloom = false ∧
      bloomFilterMatch s.bloomFilterTolerance e.bloom = false))

theorem Settings.refuses_iff {C : Crypto} {s : Settings} {now : UInt32} {e : Envelope} :
    s.Refuses C now e ↔ ∃ err, s.check C now e = .error err ∧ err.isTimeSync = false := by
  unfold Refuses check
  dsimp only
  rw [Envelope.bloom_adjust, Envelope.expiry_adjust, Envelope.size_adjust]
  by_cases hfuture : now < e.expiry - e.ttl ∧ now < e.expiry - e.ttl - defaultSyncAllowance
  · rw [if_pos hfuture]
    simp [hfuture, AddError.isTimeSync]
  rw [if_neg hfuture]
  by_cases hexpiry : e.expiry < now
  · rw [if_pos hexpiry]
    have hnot : ¬ now ≤ e.expiry := UInt32.not_le.mpr hexpiry
    split <;> simp [hnot, AddError.isTimeSync]
  rw [if_neg hexpiry]
  have hnow : now ≤ e.expiry := UInt32.not_lt.mp hexpiry
  by_cases hsize : s.maxMsgSize < UInt32.ofNat e.size
  · rw [if_pos hsize]
    simp [hfuture, hnow, hsize, AddError.isTimeSync]
  rw [if_neg hsize]
  split
  · rename_i hpow
    rw [Bool.and_eq_true] at hpow
    simp [hfuture, hnow, hpow, AddError.isTimeSync]
  rename_i hpow
  rw [Bool.and_eq_true] at hpow
  split
  · rename_i hbloom
    rw [Bool.and_eq_true, Bool.not_eq_true', Bool.not_eq_true'] at hbloom
    simp [hfuture, hnow, hbloom, AddError.isTimeSync]
  · rename_i hbloom
    rw [Bool.and_eq_true, Bool.not_eq_true', Bool.not_eq_true'] at hbloom
    refine iff_of_false ?_ ?_
    · rintro ⟨-, -, h | h | h⟩
      · exact hsize h
      · exact hpow h
      · exact hbloom h
    · rintro ⟨err, h, -⟩
      cases h

/-! ### `add` and the settings -/

theorem Settings.check_overflow (C : Crypto) (s : Settings) (flag : Bool) (now : UInt32)
    (e : Envelope) : { s with overflow := flag }.check C now e = s.check C now e := rfl

/-- Settings that differ in the overflow flag at most. -/
def Settings.Agree (s s' : Settings) : Prop := ∃ flag, s' = { s with overflow := flag }

theorem Settings.Agree.refl (s : Settings) : s.Agree s := ⟨s.overflow, rfl⟩

theorem Settings.Agree.trans {s s' s'' : Settings} (h : s.Agree s') (h' : s'.Agree s'') :
    s.Agree s'' := by
  obtain ⟨flag, rfl⟩ := h
  obtain ⟨flag', rfl⟩ := h'
  exact ⟨flag', rfl⟩

theorem Settings.Agree.check {s s' : Settings} (h : s.Agree s') (C : Crypto) (now : UInt32)
    (e : Envelope) : s'.check C now e = s.check C now e := by
  obtain ⟨flag, rfl⟩ := h
  exact s.check_overflow C flag now e

theorem Whisper.announce_settings (C : Crypto) (w : Whisper) (e : Envelope) (isP2P : Bool) :
    w.settings.Agree (w.announce C e isP2P).settings := by
  obtain ⟨flag, h⟩ := announce_update C w e isP2P
  exact ⟨flag, by rw [h]⟩

theorem Whisper.add_settings (C : Crypto) (w : Whisper) (now : UInt32) (e : Envelope)
    (isP2P : Bool) : w.settings.Agree (w.add C now e isP2P).1.settings := by
  rcases add_cases C w now e isP2P with hsame | ⟨e', -, -, -, -, -, hadd⟩
  · rw [hsame]
    exact Settings.Agree.refl _
  · rw [hadd]
    exact announce_settings C (w.insert C e') e' isP2P

/-! ### The loop -/

/-- The errors of the checks on the envelopes of a packet. -/
def checkErrors (C : Crypto) (s : Settings) (batch : List (UInt32 × Envelope)) :
    List (Envelope × AddError) :=
  batch.filterMap fun x =>
    match s.check C x.1 x.2 with
    | .error err => some (x.2, err)
    | .ok _ => none

theorem mem_checkErrors {C : Crypto} {s : Settings} {batch : List (UInt32 × Envelope)}
    {e : Envelope} {err : AddError} :
    (e, err) ∈ checkErrors C s batch ↔
      ∃ now, (now, e) ∈ batch ∧ s.check C now e = .error err := by
  rw [checkErrors, List.mem_filterMap]
  constructor
  · rintro ⟨⟨now, e'⟩, hmem, h⟩
    cases hcheck : s.check C now e' with
    | error err' =>
      rw [hcheck] at h
      cases h
      exact ⟨now, hmem, hcheck⟩
    | ok r =>
      rw [hcheck] at h
      cases h
  · rintro ⟨now, hmem, hcheck⟩
    exact ⟨(now, e), hmem, by rw [hcheck]⟩

theorem addErrors_eq {C : Crypto} {w : Whisper} {s : Settings} (hs : s.Agree w.settings)
    (batch : List (UInt32 × Envelope)) : addErrors C w batch = checkErrors C s batch := by
  induction batch generalizing w with
  | nil => rfl
  | cons x rest ih =>
    obtain ⟨now, e⟩ := x
    have hnext := hs.trans (w.add_settings C now e w.settings.lightClientMode)
    have herr : ∀ err, (w.add C now e w.settings.lightClientMode).2 = .error err ↔
        w.settings.check C now e = .error err := fun _ => Whisper.add_error_iff
    rw [hs.check C now e] at herr
    rw [addErrors, checkErrors, List.filterMap_cons]
    cases hadd : w.add C now e w.settings.lightClientMode with
    | mk w' result =>
      rw [hadd] at hnext herr
      cases result with
      | error err =>
        rw [(herr err).mp rfl]
        dsimp only
        rw [ih hnext, checkErrors]
      | ok b =>
        have hok : ∀ err, s.check C now e ≠ .error err := fun err h => nomatch (herr err).mpr h
        dsimp only
        rw [ih hnext, checkErrors]
        cases hcheck : s.check C now e with
        | error err => exact absurd hcheck (hok err)
        | ok r => rfl

/-- One envelope: the loop sees no trouble, and an error of the checks is listed with the code of
a `TimeSyncError`. -/
theorem Batch.receive_spec {C : Crypto} {b : Batch} {s : Settings}
    (hs : s.Agree b.whisper.settings) (now : UInt32) (e : Envelope) :
    s.Agree (b.receive C now e).whisper.settings ∧
    (b.receive C now e).trouble = b.trouble ∧
    (b.receive C now e).envelopeErrors.map (fun x => (x.hash, x.code)) =
      b.envelopeErrors.map (fun x => (x.hash, x.code)) ++
        (checkErrors C s [(now, e)]).map fun x => (x.1.hash C, envelopeTimeNotSynced) := by
  have hnext := hs.trans (b.whisper.add_settings C now e b.whisper.settings.lightClientMode)
  have herr : ∀ err, (b.whisper.add C now e b.whisper.settings.lightClientMode).2 = .error err ↔
      b.whisper.settings.check C now e = .error err := fun _ => Whisper.add_error_iff
  rw [hs.check C now e] at herr
  unfold receive
  cases hadd : b.whisper.add C now e b.whisper.settings.lightClientMode with
  | mk w' result =>
    rw [hadd] at hnext herr
    cases result with
    | error err =>
      refine ⟨hnext, ?_, ?_⟩
      · simp [AddError.typeAssert_value]
      · have hcheck := (herr err).mp rfl
        simp [checkErrors, hcheck, errorToEnvelopeError, AddError.typeAssert_value]
    | ok cached =>
      refine ⟨hnext, rfl, ?_⟩
      cases hcheck : s.check C now e with
      | error err => exact nomatch (herr err).mpr hcheck
      | ok r => simp [checkErrors, hcheck]

theorem Batch.receiveAll_spec {C : Crypto} {b : Batch} {s : Settings}
    (hs : s.Agree b.whisper.settings) (batch : List (UInt32 × Envelope)) :
    (b.receiveAll C batch).trouble = b.trouble ∧
    (b.receiveAll C batch).envelopeErrors.map (fun x => (x.hash, x.code)) =
      b.envelopeErrors.map (fun x => (x.hash, x.code)) ++
        (checkErrors C s batch).map fun x => (x.1.hash C, envelopeTimeNotSynced) := by
  induction batch generalizing b with
  | nil => simp [receiveAll, checkErrors]
  | cons x rest ih =>
    obtain ⟨hnext, htrouble, herrors⟩ := receive_spec hs x.1 x.2 (C := C)
    obtain ⟨htrouble', herrors'⟩ := ih hnext
    have hsplit : checkErrors C s (x :: rest) =
        checkErrors C s [x] ++ checkErrors C s rest := by
      rw [checkErrors, checkErrors, checkErrors, ← List.filterMap_append]
      rfl
    refine ⟨htrouble'.trans htrouble, ?_⟩
    rw [hsplit, List.map_append, ← List.append_assoc, ← herrors, ← herrors']
    rfl

/-- The loop returns no error after any packet: the assertion to `TimeSyncError` holds for every
error. -/
theorem handleMessages_returned (C : Crypto) (w : Whisper) (p : Peer) (data : Bytes)
    (batch : List (UInt32 × Envelope)) : (handleMessages C w p data batch).returned = none := by
  have h := (Batch.receiveAll_spec (b := { whisper := w, peer := p }) (C := C)
    (Settings.Agree.refl w.settings) batch).1
  simp [handleMessages, h]

/-- Where the loop classifies the errors of a packet, no envelope fails a check with an error
that is no `TimeSyncError`. -/
theorem ClassifiesErrors.isTimeSync {C : Crypto} {w : Whisper} {p : Peer} {data : Bytes}
    {batch : List (UInt32 × Envelope)} (h : ClassifiesErrors C w p data batch) {now : UInt32}
    {e : Envelope} {err : AddError} (hmem : (now, e) ∈ batch)
    (hcheck : w.settings.check C now e = .error err) : err.isTimeSync = true := by
  refine h.1.mp (handleMessages_returned C w p data batch) (e, err) ?_
  rw [addErrors_eq (Settings.Agree.refl w.settings)]
  exact mem_checkErrors.mpr ⟨now, hmem, hcheck⟩

/-- The loop classifies the errors of a packet exactly when every envelope in it that passes the
time checks also passes the checks on size, proof of work and bloom filter. -/
theorem classifiesErrors_iff (C : Crypto) (w : Whisper) (p : Peer) (data : Bytes)
    (batch : List (UInt32 × Envelope)) :
    ClassifiesErrors C w p data batch ↔
      ∀ now e, (now, e) ∈ batch → ¬ w.settings.Refuses C now e := by
  constructor
  · intro h now e hmem hrefuses
    obtain ⟨err, hcheck, hfalse⟩ := Settings.refuses_iff.mp hrefuses
    rw [h.isTimeSync hmem hcheck] at hfalse
    cases hfalse
  intro h
  have hs := Settings.Agree.refl w.settings
  have hreturned := handleMessages_returned C w p data batch
  have hall : ∀ x ∈ addErrors C w batch, x.2.isTimeSync = true := by
    rintro ⟨e, err⟩ hx
    rw [addErrors_eq hs] at hx
    obtain ⟨now, hmem, hcheck⟩ := mem_checkErrors.mp hx
    by_contra hfalse
    exact h now e hmem (Settings.refuses_iff.mpr ⟨err, hcheck, by simpa using hfalse⟩)
  refine ⟨iff_of_true hreturned hall, iff_of_false ?_ ?_, ?_⟩
  · rw [hreturned]
    exact fun h => nomatch h
  · rintro ⟨x, hx, hfalse⟩
    rw [hall x hx] at hfalse
    cases hfalse
  · intro hash list hconf
    have hlist := (Batch.receiveAll_spec (b := { whisper := w, peer := p }) (C := C) hs batch).2
    unfold handleMessages at hconf
    dsimp only at hconf
    split at hconf
    · cases hconf
    cases hconf
    rw [hlist, ← addErrors_eq hs]
    refine List.map_congr_left fun x hx => ?_
    rw [AddError.code, if_pos (hall x hx)]

/-- An envelope above the size limit of the node leaves the connection open. -/
theorem not_classifiesErrors_oversized :
    ¬ ClassifiesErrors sampleCrypto (new { maxMessageSize := 22 }) { id := 1 }
      (Rlp.encodeList [sampleEnvelope.encode])
      [(1600000000, sampleEnvelope.received sampleCrypto)] := by
  intro h
  have hcheck : (new { maxMessageSize := 22 }).settings.check sampleCrypto 1600000000
      (sampleEnvelope.received sampleCrypto) = .error .oversized := by decide +kernel
  exact absurd (h.isTimeSync (List.mem_singleton.mpr rfl) hcheck) (by decide)

end Whisperv6
