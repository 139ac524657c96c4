import Whisperv6.Message

/-! Filters: how one decides whether it is interested in an envelope or a message, the collection
of installed filters with its index by topic, and the notification of the filters about an
envelope.  Filters are held by reference, since the index is a set of pointers. -/

namespace Whisperv6

open ProofKit

/-- `Filter`, with the messages of a memory store by envelope hash. -/
structure Filter where
  src : Option PublicKey := none
  keyAsym : Option PrivateKey := none
  keySym : Option Bytes := none
  topics : List Bytes := []
  pow : Float64 := 0
  allowP2P : Bool := false
  symKeyHash : Hash := 0
  id : String := ""
  messages : GoMap Hash ReceivedMessage := ∅
  deriving DecidableEq

namespace Filter

def expectsAsymmetricEncryption (f : Filter) : Bool := f.keyAsym.isSome

def expectsSymmetricEncryption (f : Filter) : Bool := f.keySym.isSome

/-- The second part of `MatchMessage`: the key of the filter is the one that opened the message. -/
def matchKey (f : Filter) (msg : ReceivedMessage) : Bool :=
  if f.expectsAsymmetricEncryption && msg.isAsymmetricEncryption then
    isPubKeyEqual (f.keyAsym.map PrivateKey.publicKey) msg.dst
  else if f.expectsSymmetricEncryption && msg.isSymmetricEncryption then
    f.symKeyHash == msg.symKeyHash
  else false

def matchMessage (f : Filter) (msg : ReceivedMessage) : Bool :=
  if FloatVal.zero.lt f.pow.value && msg.pow.lt f.pow.value then false else f.matchKey msg

/-- `MatchEnvelope`, which reads the cached proof of work. -/
def matchEnvelope (f : Filter) (e : Envelope) : Bool :=
  f.pow.value.le .zero || f.pow.value.le e.powCache

/-- The check of `NotifyWatchers` on the signer. -/
def accepts (f : Filter) (msg : ReceivedMessage) : Bool :=
  f.src.isNone || isPubKeyEqual msg.src f.src

/-- The fields that `Install` writes. -/
def register (C : Crypto) (f : Filter) (id : String) : Filter :=
  { f with
    id := id
    symKeyHash := match f.keySym with
      | some key => C.keccak256Hash key
      | none => f.symKeyHash }

/-- `Trigger`, with the `Add` of the memory store. -/
def trigger (f : Filter) (msg : ReceivedMessage) : Filter :=
  if msg.envelopeHash ∈ f.messages then f
  else { f with messages := f.messages.insert msg.envelopeHash msg }

end Filter

/-! ### Opening an envelope -/

/-- `ecies.ErrInvalidPublicKey`. -/
def errInvalidPublicKey : GoError := newError "ecies: invalid public key"

namespace Envelope

def openAsymmetric (C : Crypto) (e : Envelope) (key : PrivateKey) :
    Except Fault ReceivedMessage :=
  match ReceivedMessage.decryptAsymmetric C { raw := e.data } key with
  | .ok msg => .ok msg
  | .error (.error err) =>
    if err = errInvalidPublicKey then .error (.error err)
    else .error (.error (newError ("unable to open envelope, decrypt failed: " ++ err.text)))
  | .error .panic => .error .panic

def openSymmetric (C : Crypto) (e : Envelope) (key : Bytes) : Except Fault ReceivedMessage :=
  ReceivedMessage.decryptSymmetric C { raw := e.data } key

/-- The first part of `Open`: the envelope decrypted with the key of the filter. -/
def decrypt (C : Crypto) (e : Envelope) (watcher : Filter) : Option ReceivedMessage :=
  match watcher.keyAsym, watcher.keySym with
  | some _, some _ => none
  | some key, none =>
    (e.openAsymmetric C key).toOption.map fun msg => { msg with dst := some key.publicKey }
  | none, some key =>
    (e.openSymmetric C key).toOption.map fun msg => { msg with symKeyHash := C.keccak256Hash key }
  | none, none => none

/-- Decryption starts from a message that has only the data of the envelope. -/
theorem decrypt_frame {C : Crypto} {e : Envelope} {f : Filter} {m : ReceivedMessage}
    (h : e.decrypt C f = some m) :
    (∃ key raw, f.keyAsym = some key ∧ f.keySym = none ∧
      m = { raw := raw, dst := some key.publicKey }) ∨
    ∃ key raw salt, f.keyAsym = none ∧ f.keySym = some key ∧
      m = { raw := raw, salt := salt, symKeyHash := C.keccak256Hash key } := by
  unfold decrypt at h
  split at h
  · cases h
  · rename_i key hasym hsym
    obtain ⟨x, hx, rfl⟩ := Option.map_eq_some_iff.mp h
    unfold openAsymmetric at hx
    split at hx
    · rename_i hdecrypt
      obtain ⟨raw, rfl⟩ := ReceivedMessage.decryptAsymmetric_frame hdecrypt
      cases hx
      exact .inl ⟨key, raw, hasym, hsym, rfl⟩
    · split at hx <;> cases hx
    · cases hx
  · rename_i key hasym hsym
    obtain ⟨x, hx, rfl⟩ := Option.map_eq_some_iff.mp h
    cases hopen : e.openSymmetric C key with
    | error fault =>
      rw [hopen] at hx
      cases hx
    | ok x' =>
      rw [hopen] at hx
      cases hx
      obtain ⟨raw, salt, rfl⟩ := ReceivedMessage.decryptSymmetric_frame hopen
      exact .inr ⟨key, raw, salt, hasym, hsym, rfl⟩
  · cases h

theorem decrypt_src {C : Crypto} {e : Envelope} {f : Filter} {m : ReceivedMessage}
    (h : e.decrypt C f = some m) : m.src = none := by
  obtain ⟨key, raw, -, -, rfl⟩ | ⟨key, raw, salt, -, -, rfl⟩ := decrypt_frame h
  · rfl
  · rfl

/-- The fields of a message that `Open` takes from the envelope. -/
def describe (C : Crypto) (e : Envelope) (msg : ReceivedMessage) : ReceivedMessage :=
  { msg with
    topic := e.topic
    pow := e.pow C
    ttl := e.ttl
    sent := e.expiry - e.ttl
    envelopeHash := e.hash C }

/-- `Open`, for a filter that is not nil.  It has no panics: `openFault_eq` compares it with the
version that keeps those of what it calls. -/
def openEnvelope (C : Crypto) (e : Envelope) (watcher : Filter) : Option ReceivedMessage :=
  (e.decrypt C watcher).bind fun msg =>
    match msg.validateAndParse C with
    | .ok (some msg) => some (e.describe C msg)
    | _ => none

/-- The first part of `Open`, which ignores the errors of the two calls and not their panics. -/
def decryptFault (C : Crypto) (e : Envelope) (watcher : Filter) :
    Except Fault (Option ReceivedMessage) :=
  match watcher.keyAsym, watcher.keySym with
  | some _, some _ => .ok none
  | some key, none =>
    (ignoreError (e.openAsymmetric C key)).map
      (Option.map fun msg => { msg with dst := some key.publicKey })
  | none, some key =>
    (ignoreError (e.openSymmetric C key)).map
      (Option.map fun msg => { msg with symKeyHash := C.keccak256Hash key })
  | none, none => .ok none

/-- `Open`, for a filter that is not nil, with the panics of what it calls. -/
def openFault (C : Crypto) (e : Envelope) (watcher : Filter) :
    Except Fault (Option ReceivedMessage) := do
  match ← e.decryptFault C watcher with
  | none => .ok none
  | some msg =>
    match ← msg.validateAndParse C with
    | none => .ok none
    | some msg => .ok (some (e.describe C msg))

/-- The envelope after `Open` has returned a message: it caches its proof of work and hash. -/
def opened (C : Crypto) (e : Envelope) : Envelope :=
  { e.fillPoW C with hashCache := e.hash C }

end Envelope

/-! ### The collection of filters -/

/-- A pointer to a filter. -/
abbrev FilterRef := Nat

/-- `Filters`, with the filters that the pointers lead to. -/
structure Filters where
  heap : FilterRef → Filter := fun _ => {}
  watchers : GoMap String FilterRef := ∅
  topicMatcher : GoMap TopicType (Finset FilterRef) := ∅
  allTopicsMatcher : Finset FilterRef := ∅

def generateRandomID (rnd : Entropy) : Except GoError String :=
  match generateSecureRandomData rnd keyIDSize with
  | .error err => .error err
  | .ok buf =>
    if !validateDataIntegrity buf keyIDSize then
      .error (newError
        "error in generateRandomID: crypto/rand failed to generate random data")
    else .ok (hex buf)

namespace Filters

/-- The filters listed under a topic. -/
def atTopic (fs : Filters) (topic : TopicType) : Finset FilterRef :=
  (fs.topicMatcher.lookup topic).getD ∅

def addTopicMatcher (fs : Filters) (r : FilterRef) : Filters :=
  if (fs.heap r).topics.length = 0 then
    { fs with allTopicsMatcher := insert r fs.allTopicsMatcher }
  else
    { fs with
      topicMatcher := (fs.heap r).topics.foldl (fun m t =>
        m.insert (bytesToTopic t) (insert r ((m.lookup (bytesToTopic t)).getD ∅)))
        fs.topicMatcher }

def removeFromTopicMatchers (fs : Filters) (r : FilterRef) : Filters :=
  { fs with
    allTopicsMatcher := fs.allTopicsMatcher.erase r
    topicMatcher := (fs.heap r).topics.foldl (fun m t =>
      match m.lookup (bytesToTopic t) with
      | none => m
      | some s => m.insert (bytesToTopic t) (s.erase r)) fs.topicMatcher }

/-- `Install` of the filter `watcher` at the address `r`. -/
def install (C : Crypto) (fs : Filters) (rnd : Entropy) (r : FilterRef) (watcher : Filter) :
    Filters × Except GoError String :=
  if watcher.keySym.isSome && watcher.keyAsym.isSome then
    (fs, .error (newError "filters must choose between symmetric and asymmetric keys"))
  else
    match generateRandomID rnd with
    | .error err => (fs, .error err)
    | .ok id =>
      if id ∈ fs.watchers then (fs, .error (newError "failed to generate unique ID"))
      else
        let fs :=
          { fs with
            heap := Function.update fs.heap r (watcher.register C id)
            watchers := fs.watchers.insert id r }
        (fs.addTopicMatcher r, .ok id)

def uninstall (fs : Filters) (id : String) : Filters × Bool :=
  match fs.watchers.lookup id with
  | some r => ({ fs.removeFromTopicMatchers r with watchers := fs.watchers.erase id }, true)
  | none => (fs, false)

def get (fs : Filters) (id : String) : Option FilterRef := fs.watchers.lookup id

/-- An order of the slice that `getWatchersByTopic` returns: first the filters without topics, then
those listed under the topic, each in the order of a loop over a map. -/
def WatcherOrder (fs : Filters) (topic : TopicType) (order : List FilterRef) : Prop :=
  ∃ all listed, IsOrder fs.allTopicsMatcher all ∧ IsOrder (fs.atTopic topic) listed ∧
    order = all ++ listed

end Filters

/-! ### Notification -/

/-- The variables of the loop of `NotifyWatchers`, with the filters triggered so far. -/
structure Notice where
  env : Envelope
  msg : Option ReceivedMessage := none
  triggered : List (FilterRef × ReceivedMessage) := []

namespace Notice

/-- The match of one filter: with the message once the envelope is open, and with the envelope
before, which the filter then tries to open. -/
def tryMatch (C : Crypto) (s : Notice) (watcher : Filter) : Notice × Bool :=
  match s.msg with
  | some msg => (s, watcher.matchMessage msg)
  | none =>
    if watcher.matchEnvelope s.env then
      match s.env.openEnvelope C watcher with
      | some msg => ({ s with env := s.env.opened C, msg := some msg }, true)
      | none => (s, true)
    else (s, false)

/-- One round of the loop. -/
def visit (C : Crypto) (fs : Filters) (p2pMessage : Bool) (s : Notice) (r : FilterRef) : Notice :=
  let watcher := fs.heap r
  if p2pMessage && !watcher.allowP2P then s
  else
    let (s, matched) := s.tryMatch C watcher
    match s.msg with
    | none => s
    | some msg =>
      if matched then
        let msg := { msg with p2p := p2pMessage }
        if watcher.accepts msg then
          { s with msg := some msg, triggered := s.triggered ++ [(r, msg)] }
        else { s with msg := some msg }
      else s

end Notice

namespace Filters

/-- The loop of `NotifyWatchers` over the candidates in the order `order`. -/
def notice (C : Crypto) (fs : Filters) (env : Envelope) (p2pMessage : Bool)
    (order : List FilterRef) : Notice :=
  order.foldl (Notice.visit C fs p2pMessage) { env := env }

/-- The filters that `NotifyWatchers` triggers, one after another. -/
def triggered (C : Crypto) (fs : Filters) (env : Envelope) (p2pMessage : Bool)
    (order : List FilterRef) : List FilterRef :=
  (fs.notice C env p2pMessage order).triggered.map Prod.fst

/-- `NotifyWatchers`: the stores of the triggered filters take the message. -/
def notifyWatchers (C : Crypto) (fs : Filters) (env : Envelope) (p2pMessage : Bool)
    (order : List FilterRef) : Filters :=
  (fs.notice C env p2pMessage order).triggered.foldl (fun fs x =>
    { fs with heap := Function.update fs.heap x.1 ((fs.heap x.1).trigger x.2) }) fs

end Filters

end Whisperv6
