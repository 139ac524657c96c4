import Whisperv6.Admission
import Whisperv6.Api
import Whisperv6.Loops
import Whisperv6.MailServer

/-! `Post`, the call of the API that sends a message: the keys are looked up, the message is padded,
signed, encrypted and sealed, and the envelope goes to one peer or into the pool.  A call that fails
changes nothing, and a call that succeeds returns the hash of an envelope with what was asked. -/

namespace Whisperv6

open ProofKit

def errTooLowPoW : GoError := newError "message rejected, PoW too low"

structure NewMessage where
  symKeyID : Bytes := []
  publicKey : Bytes := []
  sig : Bytes := []
  ttl : UInt32 := 0
  topic : TopicType := Vector.replicate 4 0
  payload : Bytes := []
  padding : Bytes := []
  powTime : UInt32 := 0
  powTarget : Float64 := 0
  targetPeer : Bytes := []
  deriving DecidableEq

namespace NewMessage

def symKeyGiven (req : NewMessage) : Bool := 0 < req.symKeyID.length

def pubKeyGiven (req : NewMessage) : Bool := 0 < req.publicKey.length

/-- Both kinds of keys are given, or none. -/
def symAsym (req : NewMessage) : Bool :=
  (req.symKeyGiven && req.pubKeyGiven) || (!req.symKeyGiven && !req.pubKeyGiven)

/-- The lifetime that `Wrap` gives the envelope. -/
def lifetime (req : NewMessage) : UInt32 := if req.ttl = 0 then defaultTTL else req.ttl

end NewMessage

/-! ### The envelope -/

namespace Api

section Compose

variable (C : Crypto) (kdf : Pbkdf2) (unmarshalPubkey : Bytes → Option PublicKey) (api : Api)
  (req : NewMessage)

/-- The key that signs the message. -/
def signKey : Except GoError (Option PrivateKey) :=
  if 0 < req.sig.length then (api.keys.getPrivateKey kdf req.sig).map some else .ok none

/-- The symmetric key, for which a topic is mandatory. -/
def sealKey : Except GoError (Option Bytes) :=
  if req.symKeyGiven then
    if req.topic = Vector.replicate 4 0 then .error errNoTopics
    else
      match api.keys.getSymKey req.symKeyID with
      | .error err => .error err
      | .ok key =>
        if !validateDataIntegrity key aesKeyLength then .error errInvalidSymmetricKey
        else .ok (some key)
  else .ok none

/-- The public key of the recipient. -/
def recipient : Except GoError (Option PublicKey) :=
  if req.pubKeyGiven then
    match unmarshalPubkey req.publicKey with
    | none => .error errInvalidPublicKey
    | some pub => .ok (some pub)
  else .ok none

/-- The part of `Post` that looks up the keys. -/
def messageParams : Except GoError MessageParams :=
  if req.symAsym then .error errSymAsym
  else do
    let src ← api.signKey kdf req
    let keySym ← api.sealKey req
    let dst ← recipient unmarshalPubkey req
    pure
      { src, keySym, dst
        ttl := req.ttl
        payload := req.payload
        padding := req.padding
        workTime := req.powTime
        pow := req.powTarget
        topic := req.topic }

/-- The part of `Post` up to `Wrap`, with what is drawn for the padding and for the encryption, the
clock, and the rounds that `Seal` has time for. -/
def compose (rnd rnd' : Entropy) (now : Int) (rounds : Nat) :
    Except Fault (MessageParams × Envelope) :=
  match api.messageParams kdf unmarshalPubkey req with
  | .error err => .error (.error err)
  | .ok params => do
    let msg ← SentMessage.newSentMessage rnd params
    let env ← msg.wrap C rnd' params now rounds
    pure (params, env)

end Compose

end Api

/-! ### The sending -/

/-- `getPeer`, whose loop visits the peers in the order of the list. -/
def getPeer (peers : List Peer) (peerID : NodeID) : Except GoError Peer :=
  match peers.find? (fun p => p.id = peerID) with
  | some p => .ok p
  | none => .error (newError ("Could not find peer with ID: " ++ hex (Hash.bytes peerID)))

/-- What a call of `Post` leaves: the node, the packet that it writes to a peer, and what it
returns. -/
structure PostResult where
  whisper : Whisper
  written : Option (Peer × Packet) := none
  returned : Except Fault Bytes

namespace Whisper

/-- `SendP2PMessage` of one envelope, where `sent` is the error of the write. -/
def sendP2PMessage (C : Crypto) (w : Whisper) (peers : List Peer) (peerID : NodeID)
    (env : Envelope) (sent : Option GoError) : PostResult :=
  match getPeer peers peerID with
  | .error err => { whisper := w, returned := .error (.error err) }
  | .ok p =>
    match sent with
    | some err => { whisper := w, returned := .error (.error err) }
    | none =>
      { whisper := w
        written := some (p, sendP2PDirect [env])
        returned := .ok (env.hash C).bytes }

/-- The last part of `Post`: the envelope goes to the target peer, or to `Send`, for which the
target of the proof of work has to meet the requirement of the node. -/
def dispatch (C : Crypto) (parseNode : Bytes → Except GoError NodeID) (w : Whisper)
    (peers : List Peer) (req : NewMessage) (env : Envelope) (now : UInt32)
    (sent : Option GoError) : PostResult :=
  if 0 < req.targetPeer.length then
    match parseNode req.targetPeer with
    | .error err =>
      { whisper := w
        returned := .error (.error (newError ("failed to parse target peer: " ++ err.text))) }
    | .ok id => w.sendP2PMessage C peers id env sent
  else if req.powTarget.value.lt w.settings.getMinPow.value then
    { whisper := w, returned := .error (.error errTooLowPoW) }
  else
    match w.send C now env with
    | (w', none) => { whisper := w', returned := .ok (env.hash C).bytes }
    | (w', some err) => { whisper := w', returned := .error (.error err) }

end Whisper

/-- What the surroundings give to a call of `Post`: what is drawn for the padding and for the
encryption, the clock at `Wrap` and at `Send`, the rounds that `Seal` has time for, and the error of
a write to a peer. -/
structure Surroundings where
  rnd : Entropy
  rnd' : Entropy
  wrapped : Int
  rounds : Nat
  now : UInt32
  sent : Option GoError

/-- `Post`.  The function `parseNode` is `enode.Parse` with the identifier of its result. -/
def Api.post (C : Crypto) (kdf : Pbkdf2) (unmarshalPubkey : Bytes → Option PublicKey)
    (parseNode : Bytes → Except GoError NodeID) (api : Api) (w : Whisper) (peers : List Peer)
    (req : NewMessage) (x : Surroundings) : PostResult :=
  match api.compose C kdf unmarshalPubkey req x.rnd x.rnd' x.wrapped x.rounds with
  | .error fault => { whisper := w, returned := .error fault }
  | .ok (_, env) => w.dispatch C parseNode peers req env x.now x.sent

/-! ### What the envelope is -/

/-- The parameters are those of the request: it names exactly one key that encrypts, and the signer
if it names one. -/
structure NewMessage.Describes (req : NewMessage) (kdf : Pbkdf2)
    (unmarshalPubkey : Bytes → Option PublicKey) (keys : KeyStore) (params : MessageParams) :
    Prop where
  ttl : params.ttl = req.ttl
  topic : params.topic = req.topic
  payload : params.payload = req.payload
  padding : params.padding = req.padding
  pow : params.pow = req.powTarget
  workTime : params.workTime = req.powTime
  signer : (req.sig = [] ∧ params.src = none) ∨
    ∃ key, keys.getPrivateKey kdf req.sig = .ok key ∧ params.src = some key
  encrypted : (∃ key, keys.getSymKey req.symKeyID = .ok key ∧ params.keySym = some key ∧
      params.dst = none) ∨
    ∃ pub, unmarshalPubkey req.publicKey = some pub ∧ params.dst = some pub ∧ params.keySym = none

section Compose

variable {C : Crypto} {kdf : Pbkdf2} {unmarshalPubkey : Bytes → Option PublicKey} {api : Api}
  {req : NewMessage} {params : MessageParams}

theorem Api.signKey_ok {src : Option PrivateKey} (h : api.signKey kdf req = .ok src) :
    (req.sig = [] ∧ src = none) ∨
      ∃ key, api.keys.getPrivateKey kdf req.sig = .ok key ∧ src = some key := by
  unfold signKey at h
  split at h
  · cases hkey : api.keys.getPrivateKey kdf req.sig with
    | error err =>
      rw [hkey] at h
      cases h
    | ok key =>
      rw [hkey] at h
      cases h
      exact .inr ⟨key, rfl, rfl⟩
  · rename_i hlength
    cases h
    exact .inl ⟨List.length_eq_zero_iff.mp (Nat.eq_zero_of_not_pos hlength), rfl⟩

theorem Api.sealKey_ok {keySym : Option Bytes} (h : api.sealKey req = .ok keySym) :
    (req.symKeyGiven = false ∧ keySym = none) ∨
      req.symKeyGiven = true ∧ ∃ key, api.keys.getSymKey req.symKeyID = .ok key ∧
        keySym = some key := by
  unfold sealKey at h
  split at h
  · rename_i hgiven
    split at h
    · cases h
    · split at h
      · cases h
      · rename_i key hkey
        split at h
        · cases h
        · cases h
          exact .inr ⟨hgiven, key, hkey, rfl⟩
  · rename_i hgiven
    cases h
    exact .inl ⟨Bool.eq_false_iff.mpr hgiven, rfl⟩

theorem Api.recipient_ok {dst : Option PublicKey} (h : recipient unmarshalPubkey req = .ok dst) :
    (req.pubKeyGiven = false ∧ dst = none) ∨
      req.pubKeyGiven = true ∧ ∃ pub, unmarshalPubkey req.publicKey = some pub ∧
        dst = some pub := by
  unfold recipient at h
  split at h
  · rename_i hgiven
    split at h
    · cases h
    · rename_i pub hpub
      cases h
      exact .inr ⟨hgiven, pub, hpub, rfl⟩
  · rename_i hgiven
    cases h
    exact .inl ⟨Bool.eq_false_iff.mpr hgiven, rfl⟩

theorem Api.messageParams_ok (h : api.messageParams kdf unmarshalPubkey req = .ok params) :
    req.Describes kdf unmarshalPubkey api.keys params := by
  unfold messageParams at h
  split at h
  · cases h
  rename_i hone
  obtain ⟨src, hsrc, h⟩ := bind_eq_ok.mp h
  obtain ⟨keySym, hsym, h⟩ := bind_eq_ok.mp h
  obtain ⟨dst, hdst, h⟩ := bind_eq_ok.mp h
  cases h
  refine ⟨rfl, rfl, rfl, rfl, rfl, rfl, signKey_ok hsrc, ?_⟩
  -- exactly one of the two keys is given
  obtain ⟨hnosym, rfl⟩ | ⟨hsymGiven, key, hkey, rfl⟩ := sealKey_ok hsym
  · obtain ⟨hnopub, rfl⟩ | ⟨-, pub, hpub, rfl⟩ := recipient_ok hdst
    · simp [NewMessage.symAsym, hnosym, hnopub] at hone
    · exact .inr ⟨pub, hpub, rfl, rfl⟩
  · obtain ⟨-, rfl⟩ | ⟨hpubGiven, -⟩ := recipient_ok hdst
    · exact .inl ⟨key, hkey, rfl, rfl⟩
    · simp [NewMessage.symAsym, hsymGiven, hpubGiven] at hone

theorem Envelope.sealEnvelope_hashCache {e e' : Envelope} {rounds : Nat}
    (h : e.sealEnvelope C params rounds = .ok e') : e'.hashCache = e.hashCache := by
  have hpostpone : (e.postpone params).hashCache = e.hashCache := by
    unfold postpone
    split <;> rfl
  unfold sealEnvelope at h
  dsimp only at h
  split at h
  · cases h
    rfl
  · split at h
    · cases h
    · cases h
      exact hpostpone

theorem SentMessage.wrap_fields {rnd : Entropy} {msg : SentMessage} {now : Int} {rounds : Nat}
    {e : Envelope} (h : msg.wrap C rnd params now rounds = .ok e) :
    e.topic = params.topic ∧ e.ttl = (if params.ttl = 0 then defaultTTL else params.ttl) ∧
      e.HashSound C := by
  unfold wrap at h
  dsimp only at h
  split at h
  · cases h
  · split at h
    · cases h
    · obtain ⟨-, httl, htopic⟩ := Envelope.sealEnvelope_ok h
      exact ⟨htopic, httl, .inl (Envelope.sealEnvelope_hashCache h)⟩

/-- The envelope that the request gives rise to: its fields, its parameters, and that every filter
which holds the key reads out of it what was put in, as does, where the envelope opens to nothing
else, every filter that opens it. -/
structure NewMessage.Makes (C : Crypto) (kdf : Pbkdf2)
    (unmarshalPubkey : Bytes → Option PublicKey) (keys : KeyStore) (req : NewMessage)
    (params : MessageParams) (e : Envelope) : Prop where
  describes : req.Describes kdf unmarshalPubkey keys params
  topic : e.topic = req.topic
  ttl : e.ttl = req.lifetime
  hashSound : e.HashSound C
  opens : req.payload.length < 2 ^ 24 → ∀ f : Filter, f.Holds params → C.Lawful params f →
    RoundTrips C params e f
  reads : req.payload.length < 2 ^ 24 → e.Binds C params → C.Signs params → ∀ f : Filter,
    (e.decrypt C f).isSome = true → RoundTrips C params e f

theorem Api.compose_ok {rnd rnd' : Entropy} {now : Int} {rounds : Nat} {e : Envelope}
    (h : api.compose C kdf unmarshalPubkey req rnd rnd' now rounds = .ok (params, e)) :
    req.Makes C kdf unmarshalPubkey api.keys params e := by
  unfold compose at h
  split at h
  · cases h
  · rename_i params' hparams
    obtain ⟨msg, hmsg, h⟩ := bind_eq_ok.mp h
    obtain ⟨env, hwrap, h⟩ := bind_eq_ok.mp h
    cases h
    have hdescribes := messageParams_ok hparams
    obtain ⟨htopic, httl, hsound⟩ := SentMessage.wrap_fields hwrap
    constructor
    · exact hdescribes
    · exact htopic.trans hdescribes.topic
    · rw [httl, hdescribes.ttl]
      rfl
    · exact hsound
    · intro hshort f hholds hlaws
      exact roundTrips_of_short hmsg hwrap hholds hlaws (hdescribes.payload ▸ hshort)
    · intro hshort hbinds hsigns f hopen
      exact roundTrips_of_binds hmsg hwrap hbinds hsigns hopen (hdescribes.payload ▸ hshort)

theorem SentMessage.newSentMessage_panic {rnd : Entropy}
    (h : newSentMessage rnd params = .error .panic) : 2 ^ 32 ≤ params.payload.length := by
  by_contra hshort
  have hk : getSizeOfPayloadSizeField params.payload ≤ 4 :=
    (getSizeOfPayloadSizeField_le_iff (by decide)).mpr (Nat.lt_of_not_le hshort)
  unfold newSentMessage at h
  rw [addPayloadSizeField_eq rfl hk] at h
  dsimp only [appendPadding] at h
  split at h
  · cases h
  · split at h
    · cases h
    · split at h <;> cases h

theorem Envelope.sealEnvelope_ne_panic (e : Envelope) (options : MessageParams) (rounds : Nat) :
    e.sealEnvelope C options rounds ≠ .error .panic := by
  intro h
  unfold sealEnvelope at h
  dsimp only at h
  split at h
  · cases h
  · split at h <;> cases h

/-- `Wrap` does not panic on a message that has a byte for the flags. -/
theorem SentMessage.wrap_ne_panic {rnd : Entropy} {msg : SentMessage} (hraw : msg.raw ≠ [])
    (now : Int) (rounds : Nat) : msg.wrap C rnd params now rounds ≠ .error .panic := by
  have hsign : ∀ p : MessageParams, msg.signFor C p ≠ .error .panic := by
    intro p h
    unfold signFor at h
    split at h
    · unfold sign at h
      split at h
      · rename_i hnil
        exact hraw hnil
      · split at h
        · cases h
        · dsimp only at h
          split at h <;> cases h
    · cases h
  have hencrypt : ∀ (m : SentMessage) (p : MessageParams), m.encrypt C rnd p ≠ .error .panic := by
    intro m p h
    unfold encrypt at h
    split at h
    · unfold encryptAsymmetric at h
      split at h
      · cases h
      · split at h <;> cases h
    · unfold encryptSymmetric at h
      split at h
      · cases h
      · split at h
        · cases h
        · split at h <;> cases h
    · cases h
  intro h
  unfold wrap at h
  dsimp only at h
  split at h
  · rename_i fault hfault
    cases h
    exact hsign _ hfault
  · split at h
    · rename_i fault hfault
      cases h
      exact hencrypt _ _ hfault
    · exact Envelope.sealEnvelope_ne_panic _ _ _ h

/-- Only a payload whose length does not fit into 32 bits leads to a panic. -/
theorem Api.compose_panic {rnd rnd' : Entropy} {now : Int} {rounds : Nat}
    (h : api.compose C kdf unmarshalPubkey req rnd rnd' now rounds = .error .panic) :
    2 ^ 32 ≤ req.payload.length := by
  unfold compose at h
  split at h
  · cases h
  · rename_i params hparams
    obtain hmsg | ⟨msg, hmsg, h⟩ := bind_eq_error.mp h
    · rw [← (messageParams_ok hparams).payload]
      exact SentMessage.newSentMessage_panic hmsg
    · obtain ⟨-, padding, -, -, hraw⟩ := SentMessage.newSentMessage_ok hmsg
      have hne : msg.raw ≠ [] := by
        rw [hraw]
        exact List.cons_ne_nil _ _
      obtain hwrap | ⟨env, -, h⟩ := bind_eq_error.mp h
      · exact absurd hwrap (SentMessage.wrap_ne_panic hne now rounds)
      · cases h

end Compose

/-! ### What the call leaves -/

section Post

variable {C : Crypto} {w : Whisper} {peers : List Peer} {req : NewMessage} {e : Envelope}

theorem getPeer_ok {peerID : NodeID} {p : Peer} (h : getPeer peers peerID = .ok p) :
    p ∈ peers ∧ p.id = peerID := by
  unfold getPeer at h
  split at h
  · rename_i p' hfind
    cases h
    exact ⟨List.mem_of_find?_eq_some hfind, by simpa using List.find?_some hfind⟩
  · cases h

/-- `Send` fails and leaves the node as it is, or the envelope is in the pool. -/
theorem Whisper.send_cases (C : Crypto) (w : Whisper) (now : UInt32) (e : Envelope) :
    (∃ err, w.send C now e = (w, some err)) ∨
      (w.send C now e).2 = none ∧ e.hash C ∈ (w.send C now e).1.envelopes := by
  cases hresult : (w.send C now e).2 with
  | none => exact .inr ⟨rfl, mem_of_cached (send_eq_none_iff.mp hresult)⟩
  | some err =>
    refine .inl ⟨err, Prod.ext ?_ hresult⟩
    apply add_of_not_cached
    intro hcached
    rw [send_eq_none_iff.mpr hcached] at hresult
    cases hresult

/-- Where the envelope of a call that succeeds has gone: to the peer that the request names, or, if
it names none, into the pool of a node whose requirement the target of the proof of work meets. -/
inductive NewMessage.Sent (C : Crypto) (parseNode : Bytes → Except GoError NodeID)
    (req : NewMessage) (w : Whisper) (peers : List Peer) (e : Envelope) (now : UInt32)
    (out : PostResult) : Prop
  | direct (id : NodeID) (p : Peer) (htarget : req.targetPeer ≠ [])
      (hparse : parseNode req.targetPeer = .ok id) (hp : p ∈ peers) (hid : p.id = id)
      (hwhisper : out.whisper = w) (hwritten : out.written = some (p, sendP2PDirect [e]))
  | pooled (htarget : req.targetPeer = [])
      (hpow : req.powTarget.value.lt w.settings.getMinPow.value = false)
      (hsend : w.send C now e = (out.whisper, none)) (hmem : e.hash C ∈ out.whisper.envelopes)
      (hwritten : out.written = none)

theorem Whisper.dispatch_cases (C : Crypto) (parseNode : Bytes → Except GoError NodeID)
    (w : Whisper) (peers : List Peer) (req : NewMessage) (e : Envelope) (now : UInt32)
    (sent : Option GoError) :
    (∃ err, w.dispatch C parseNode peers req e now sent =
      { whisper := w, returned := .error (.error err) }) ∨
    (w.dispatch C parseNode peers req e now sent).returned = .ok (e.hash C).bytes ∧
      req.Sent C parseNode w peers e now (w.dispatch C parseNode peers req e now sent) := by
  unfold dispatch
  split
  · rename_i htarget
    split
    · exact .inl ⟨_, rfl⟩
    · rename_i id hparse
      unfold sendP2PMessage
      split
      · exact .inl ⟨_, rfl⟩
      · rename_i p hp
        obtain ⟨hmem, hid⟩ := getPeer_ok hp
        split
        · exact .inl ⟨_, rfl⟩
        · exact .inr ⟨rfl, .direct id p (List.ne_nil_of_length_pos htarget) hparse hmem hid rfl rfl⟩
  · rename_i htarget
    have hnil : req.targetPeer = [] :=
      List.length_eq_zero_iff.mp (Nat.eq_zero_of_not_pos htarget)
    split
    · exact .inl ⟨_, rfl⟩
    · rename_i hpow
      obtain ⟨err, hsend⟩ | ⟨hsend, hmem⟩ := send_cases C w now e
      · rw [hsend]
        exact .inl ⟨_, rfl⟩
      · cases hout : w.send C now e with
        | mk w' result =>
          rw [hout] at hsend hmem
          cases hsend
          exact .inr ⟨rfl, .pooled hnil (Bool.eq_false_iff.mpr hpow) hout hmem rfl⟩

end Post

namespace Api

/-- For every request and whatever the surroundings give, `Post` fails and changes nothing, or it
returns the hash of an envelope that has what the request asks for, which has gone to the peer that
the request names or into the pool, and which every filter with the key opens to the payload, the
padding and the signer of the request.  It panics only on a payload of `2 ^ 32` bytes or more. -/
theorem post_all_or_nothing (C : Crypto) (kdf : Pbkdf2)
    (unmarshalPubkey : Bytes → Option PublicKey) (parseNode : Bytes → Except GoError NodeID)
    (api : Api) (w : Whisper) (peers : List Peer) (req : NewMessage) (x : Surroundings) :
    let out := api.post C kdf unmarshalPubkey parseNode w peers req x
    (∃ fault, out.returned = .error fault ∧ out.whisper = w ∧ out.written = none ∧
      (fault = .panic → 2 ^ 32 ≤ req.payload.length)) ∨
    ∃ params e, out.returned = .ok (e.hash C).bytes ∧
      req.Makes C kdf unmarshalPubkey api.keys params e ∧
      req.Sent C parseNode w peers e x.now out := by
  dsimp only
  unfold post
  split
  · rename_i fault hcompose
    refine .inl ⟨fault, rfl, rfl, rfl, fun hpanic => ?_⟩
    rw [hpanic] at hcompose
    exact compose_panic hcompose
  · rename_i params e hcompose
    obtain ⟨err, hfail⟩ | ⟨hok, hsent⟩ :=
      w.dispatch_cases C parseNode peers req e x.now x.sent
    · rw [hfail]
      exact .inl ⟨.error err, rfl, rfl, rfl, Fault.noConfusion⟩
    · exact .inr ⟨params, e, hok, compose_ok hcompose, hsent⟩

end Api

end Whisperv6
