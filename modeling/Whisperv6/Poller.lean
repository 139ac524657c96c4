import Whisperv6.Api
import Whisperv6.Identities
import Whisperv6.Polling
import Whisperv6.SymKeys

/-! The API of a node over a whole run: filters are made from criteria, envelopes are notified, and
the messages are read by `GetFilterMessages` or by the goroutine of a subscription.  Whatever the
order of these, each message that is returned is one of a notified envelope, and it meets the
criteria that the filter was made from. -/

namespace Whisperv6

open ProofKit

/-! ### The calls -/

namespace Api

variable (C : Crypto) (api : Api)

/-- `Retrieve` on the filter at the address `r`, and the conversion of what it returns. -/
def take (r : FilterRef) (order : List Hash) : Api × Except Fault (List Message) :=
  let (filters, received) := api.subscriber.filters.retrieve r order
  ({ api with subscriber := { api.subscriber with filters } }, toMessage C received)

def getFilterMessages (id : String) (order : List Hash) : Api × Except Fault (List Message) :=
  match api.subscriber.filters.get id with
  | none => (api, .error (.error (newError "filter not found")))
  | some r => api.take C r order

/-- A tick of the goroutine of `Messages`, with the messages that it passes to the notifier. -/
def tick (id : String) (order : List Hash) : Api × Except Fault (List Message) :=
  match api.subscriber.filters.get id with
  | none => (api, .ok [])
  | some r => api.take C r order

/-- `Unsubscribe`, which `UninstallFilter`, `DeleteMessageFilter` and the end of a subscription also
call. -/
def unsubscribe (id : String) : Api × Option GoError :=
  let (subscriber, err) := api.subscriber.unsubscribe id
  ({ api with subscriber }, err)

/-- `processQueue` notifies the filters about an envelope. -/
def notify (e : Envelope) (p2p : Bool) (order : List FilterRef) : Api :=
  { api with
    subscriber :=
      { api.subscriber with
        filters := api.subscriber.filters.notifyWatchers C e p2p order } }

end Api

/-- `Subscribe` of a filter returns an error, or adds the filter under a new identifier. -/
theorem Api.subscribe_cases (C : Crypto) (api : Api) (rnd : Entropy) (r : FilterRef)
    (m : Memory Bytes) (f : Filter) :
    (∃ err, api.subscribe C rnd r (.ok (m, f)) = ({ api with memory := m }, .error err)) ∨
    ∃ id tuning subscribed, id ∉ api.subscriber.filters.watchers ∧
      (f.keySym = none ∨ f.keyAsym = none) ∧
      api.subscribe C rnd r (.ok (m, f)) =
        ({ api with
            memory := m
            subscriber :=
              { tuning, subscribed
                filters := api.subscriber.filters.enlist id r (f.register C id) } }, .ok id) := by
  have hcall : api.subscribe C rnd r (.ok (m, f)) =
      ({ api with memory := m, subscriber := (api.subscriber.subscribe C rnd r f).1 },
        (api.subscriber.subscribe C rnd r f).2) := rfl
  rw [hcall]
  unfold Subscriber.subscribe
  rcases Filters.install_cases C api.subscriber.filters rnd r f with
    ⟨err, heq⟩ | ⟨id, hid, hkeys, heq⟩
  · rw [heq]
    exact .inl ⟨err, rfl⟩
  · rw [heq]
    exact .inr ⟨id, _, _, hid, hkeys, rfl⟩

theorem Api.newMessageFilterFilter_empty {kdf : Pbkdf2}
    {unmarshalPubkey : Bytes → Option PublicKey} {api : Api} {crit : Criteria} {m : Memory Bytes}
    {f : Filter} (h : api.newMessageFilterFilter kdf unmarshalPubkey crit = .ok (m, f)) :
    f.messages = ∅ := by
  unfold newMessageFilterFilter at h
  split at h
  · cases h
  · obtain ⟨src, -, h⟩ := bind_eq_ok.mp h
    obtain ⟨keySym, -, h⟩ := bind_eq_ok.mp h
    obtain ⟨keyAsym, -, h⟩ := bind_eq_ok.mp h
    cases h
    rfl

theorem Api.messagesFilter_empty {C : Crypto} {kdf : Pbkdf2}
    {unmarshalPubkey : Bytes → Option PublicKey} {api : Api} {crit : Criteria} {supported : Bool}
    {m : Memory Bytes} {f : Filter}
    (h : api.messagesFilter C kdf unmarshalPubkey crit supported = .ok (m, f)) :
    f.messages = ∅ := by
  unfold messagesFilter at h
  split at h
  · cases h
  split at h
  · cases h
  obtain ⟨src, -, h⟩ := bind_eq_ok.mp h
  obtain ⟨⟨m', refs⟩, -, h⟩ := bind_eq_ok.mp h
  obtain ⟨f₁, hf₁, h⟩ := bind_eq_ok.mp h
  obtain ⟨f₂, hf₂, h⟩ := bind_eq_ok.mp h
  cases h
  rw [listenSym_ok rfl hf₁] at hf₂
  rw [listenAsym_ok rfl hf₂]

/-! ### Runs -/

/-- What a client asked for: the criteria, and the keys that the node had then. -/
structure Asked where
  crit : Criteria
  keys : KeyStore

/-- The criteria that the filter of `Messages` has: only the last topic is left. -/
def Criteria.lastTopic (crit : Criteria) : Criteria :=
  { crit with topics := crit.topics.getLast?.toList }

/-- A call that reads messages: what the filter was asked for, if there is one, and what is
returned. -/
structure Poll where
  asked : Option Asked
  result : Except Fault (List Message)

/-- The API with the history of the calls: what the filters under the identifiers were asked for,
the envelopes that the filters were notified about, with the mark of a direct message, and the calls
that read messages. -/
structure Poller where
  api : Api
  asked : GoMap String Asked := ∅
  notified : List (Envelope × Bool) := []
  polls : List Poll := []

inductive PollAction
  | keyCall (a : KeyAction)
  | symKeyCall (a : SymKeyAction)
  | newMessageFilter (crit : Criteria) (rnd : Entropy) (r : FilterRef)
  | messages (crit : Criteria) (supported : Bool) (rnd : Entropy) (r : FilterRef)
  | unsubscribe (id : String)
  | notify (e : Envelope) (p2p : Bool) (order : List FilterRef)
  | getFilterMessages (id : String) (order : List Hash)
  | tick (id : String) (order : List Hash)

namespace Poller

abbrev filters (s : Poller) : Filters := s.api.subscriber.filters

/-- The state after a call that makes a filter. -/
def made (s : Poller) (crit : Criteria) (out : Api × Except GoError String) : Poller :=
  match out with
  | (api, .ok id) => { s with api, asked := s.asked.insert id ⟨crit, s.api.keys⟩ }
  | (api, .error _) => { s with api }

/-- The state after a call that reads messages. -/
def polled (s : Poller) (id : String) (out : Api × Except Fault (List Message)) : Poller :=
  { s with api := out.1, polls := s.polls ++ [⟨s.asked.lookup id, out.2⟩] }

end Poller

/-- One call.  A new filter gets an address of its own, and the loops over maps take some order. -/
def PollStep (C : Crypto) (kdf : Pbkdf2) (unmarshalPubkey : Bytes → Option PublicKey)
    (s : Poller) : PollAction → Poller → Prop
  | .keyCall a, t => ∃ keys, KeyStep kdf s.api.keys a keys ∧
      t = { s with api := { s.api with keys } }
  | .symKeyCall a, t => ∃ keys, SymKeyStep kdf s.api.keys a keys ∧
      t = { s with api := { s.api with keys } }
  | .newMessageFilter crit rnd r, t =>
    ¬ s.filters.Installed r ∧
      t = s.made crit (s.api.newMessageFilter C kdf unmarshalPubkey crit rnd r)
  | .messages crit supported rnd r, t =>
    ¬ s.filters.Installed r ∧
      t = s.made crit.lastTopic (s.api.messages C kdf unmarshalPubkey crit supported rnd r)
  | .unsubscribe id, t => t = { s with api := (s.api.unsubscribe id).1, asked := s.asked.erase id }
  | .notify e p2p order, t =>
    s.filters.WatcherOrder e.topic order ∧
      t = { s with api := s.api.notify C e p2p order, notified := s.notified ++ [(e, p2p)] }
  | .getFilterMessages id order, t =>
    (∀ r, s.filters.get id = some r → IsOrder (s.filters.heap r).messages.keys order) ∧
      t = s.polled id (s.api.getFilterMessages C id order)
  | .tick id order, t =>
    ∃ r, s.filters.get id = some r ∧ IsOrder (s.filters.heap r).messages.keys order ∧
      t = s.polled id (s.api.tick C id order)

/-! ### Keys -/

/-- The public keys of the stored private keys can be marshalled. -/
def KeyStore.Marshals (keys : KeyStore) : Prop :=
  ∀ id key, keys.privateKeys.lookup id = some key → (fromECDSAPub key.publicKey).isSome

section Keys

variable {kdf : Pbkdf2} {keys keys' : KeyStore}

theorem fromECDSAPub_of_hexPublicKey {pub : PublicKey} {name : Bytes}
    (h : hexPublicKey pub = some name) : (fromECDSAPub pub).isSome := by
  obtain ⟨b, hb, -⟩ := Option.map_eq_some_iff.mp h
  rw [hb]
  rfl

theorem KeyStore.Marshals.insert (h : keys.Marshals) {key : PrivateKey}
    (hkey : (fromECDSAPub key.publicKey).isSome) (id : Bytes) :
    Marshals { keys with privateKeys := keys.privateKeys.insert id key } := by
  intro id' key' hlookup
  rcases lookup_insert_iff.mp hlookup with ⟨-, rfl⟩ | ⟨-, hold⟩
  · exact hkey
  · exact h id' key' hold

/-- The calls that store a key marshal its public key first, for the identifier. -/
theorem KeyStore.Marshals.step (h : keys.Marshals) {a : KeyAction}
    (hstep : KeyStep kdf keys a keys') : keys'.Marshals := by
  cases a with
  | newKeyPair first second =>
    obtain ⟨result, hcall⟩ := hstep
    unfold newKeyPair at hcall
    split at hcall
    · cases hcall
      exact h
    · obtain ⟨name, hname, hcall⟩ := Option.map_eq_some_iff.mp hcall
      split at hcall
      · cases hcall
        exact h
      · split at hcall
        · cases hcall
          exact h
        · cases hcall
          exact h.insert (fromECDSAPub_of_hexPublicKey hname) _
  | addKeyPair key =>
    obtain ⟨result, hcall⟩ := hstep
    obtain ⟨name, hname, hcall⟩ := Option.map_eq_some_iff.mp hcall
    split at hcall
    · cases hcall
      exact h
    · split at hcall
      · cases hcall
        exact h
      · cases hcall
        exact h.insert (fromECDSAPub_of_hexPublicKey hname) _
  | selectKeyPair key =>
    obtain ⟨result, hcall⟩ := hstep
    obtain ⟨name, hname, hcall⟩ := Option.map_eq_some_iff.mp hcall
    split at hcall
    · cases hcall
      exact h
    · cases hcall
      intro id' key' hlookup
      rcases lookup_insert_iff.mp hlookup with ⟨-, rfl⟩ | ⟨-, hold⟩
      · exact fromECDSAPub_of_hexPublicKey hname
      · cases hold
  | deleteKeyPair name =>
    cases hstep
    unfold deleteKeyPair
    split
    · exact h
    · split
      · exact fun id' key' hlookup => h id' key' (lookup_erase_iff.mp hlookup).2
      · exact h
  | deleteKeyPairs =>
    cases hstep
    intro id' key' hlookup
    cases hlookup

theorem KeyStore.Marshals.symStep (h : keys.Marshals) {a : SymKeyAction}
    (hstep : SymKeyStep kdf keys a keys') : keys'.Marshals := by
  have heffect := a.effect kdf keys
  rw [← show keys' = a.apply kdf keys from hstep] at heffect
  cases heffect with
  | failed => exact h
  | put id key => exact h
  | deleted id => exact h

theorem KeyStore.Marshals.stored (h : keys.Marshals) {crit : Criteria} {key : PrivateKey}
    (hkey : crit.storedAsym kdf keys = some key) : (fromECDSAPub key.publicKey).isSome := by
  unfold Criteria.storedAsym at hkey
  split at hkey
  · cases hget : keys.getPrivateKey kdf crit.privateKeyID with
    | error err =>
      rw [hget] at hkey
      cases hkey
    | ok key' =>
      rw [hget] at hkey
      cases hkey
      unfold getPrivateKey at hget
      split at hget
      · cases hget
      · split at hget
        · cases hget
        · rename_i hlookup
          cases hget
          exact h _ _ hlookup
  · cases hkey

end Keys

/-! ### Criteria -/

section Criteria

variable {C : Crypto} {kdf : Pbkdf2} {unmarshalPubkey : Bytes → Option PublicKey}
  {n : Envelope × Bool}
  {f : Filter} {a : Asked} {m : ReceivedMessage} {x : Message}

/-- The filter has what was asked for, and topics only of the criteria. -/
structure Asked.Fits (kdf : Pbkdf2) (unmarshalPubkey : Bytes → Option PublicKey) (a : Asked)
    (f : Filter) : Prop where
  requests : a.crit.Requests kdf unmarshalPubkey a.keys f
  topics : ∀ topic, (f.topics = [] ∨ ∃ t ∈ f.topics, bytesToTopic t = topic) →
    a.crit.topics = [] ∨ topic ∈ a.crit.topics

/-- The message that is returned, `x`, meets the criteria: its topic is one of theirs, its signer
and its recipient are theirs, `m` was opened with a key that has the hash of theirs, its proof of
work is not below their bound, and it is direct only if they allow it. -/
structure Asked.Admits (C : Crypto) (kdf : Pbkdf2) (unmarshalPubkey : Bytes → Option PublicKey)
    (a : Asked) (m : ReceivedMessage) (x : Message) : Prop where
  topic : a.crit.topics = [] ∨ x.topic ∈ a.crit.topics
  signer : a.crit.sig = [] ∨
    ∃ pub, unmarshalPubkey a.crit.sig = some pub ∧ marshalKey (some pub) = .ok x.sig
  key : (∃ key, a.crit.storedAsym kdf a.keys = some key ∧
      marshalKey (some key.publicKey) = .ok x.dst) ∨
    ∃ key, a.crit.storedSym a.keys = some key ∧ x.dst = [] ∧ m.symKeyHash = C.keccak256Hash key
  pow : ¬ (FloatVal.zero.lt a.crit.minPow.value = true ∧ x.pow.lt a.crit.minPow.value = true)
  direct : x.p2p = true → a.crit.allowP2P = true

theorem Asked.Fits.store (h : a.Fits kdf unmarshalPubkey f)
    (messages : GoMap Hash ReceivedMessage) :
    a.Fits kdf unmarshalPubkey { f with messages } :=
  ⟨⟨h.requests.src, h.requests.keySym, h.requests.keyAsym, h.requests.pow, h.requests.allowP2P⟩,
    h.topics⟩

theorem Asked.Fits.register (h : a.Fits kdf unmarshalPubkey f) (id : String) :
    a.Fits kdf unmarshalPubkey (f.register C id) :=
  ⟨⟨h.requests.src, h.requests.keySym, h.requests.keyAsym, h.requests.pow, h.requests.allowP2P⟩,
    h.topics⟩

theorem Criteria.signer_cases {crit : Criteria} {src : Option PublicKey}
    (h : crit.signer unmarshalPubkey = .ok src) :
    crit.sig = [] ∨ ∃ pub, unmarshalPubkey crit.sig = some pub ∧ src = some pub := by
  unfold signer at h
  split at h
  · right
    cases hpub : unmarshalPubkey crit.sig with
    | none =>
      rw [hpub] at h
      cases h
    | some pub =>
      rw [hpub] at h
      cases h
      exact ⟨pub, rfl, rfl⟩
  · rename_i hlength
    exact .inl (List.length_eq_zero_iff.mp (Nat.eq_zero_of_not_pos hlength))

/-- What a filter asks for meets the criteria that it was made from. -/
theorem Asked.Fits.admits (h : a.Fits kdf unmarshalPubkey f) (hsuits : f.Suits C m)
    (hfrom : m.From C n) (hreports : x.Reports C n.1 m) : a.Admits C kdf unmarshalPubkey m x := by
  have htopic : m.topic = x.topic ∧ m.pow = x.pow := by
    obtain ⟨g, m₀, -, hopen, rfl⟩ := hfrom
    obtain ⟨htopic, -, -, hpow, -⟩ := Envelope.openEnvelope_fields hopen
    exact ⟨htopic.trans hreports.topic.symm, hpow.trans hreports.pow.symm⟩
  constructor
  · rw [← htopic.1]
    exact h.topics m.topic hsuits.topic
  · rcases Criteria.signer_cases h.requests.src with hnone | ⟨pub, hpub, hsrc⟩
    · exact .inl hnone
    · refine .inr ⟨pub, hpub, ?_⟩
      rw [← hsrc, ← hsuits.signer.resolve_left (by rw [hsrc]; exact Option.some_ne_none pub)]
      exact hreports.sig
  · rcases hsuits.key with ⟨key, hkey, hdst⟩ | ⟨key, hkey, hdst, hhash⟩
    · refine .inl ⟨key, h.requests.keyAsym.symm.trans hkey, ?_⟩
      rw [← hdst]
      exact hreports.dst
    · refine .inr ⟨key, h.requests.keySym.symm.trans hkey, ?_, hhash⟩
      have hbytes := hreports.dst
      rw [hdst, marshalKey] at hbytes
      exact (Except.ok.inj hbytes).symm
  · rw [← h.requests.pow, ← htopic.2]
    exact hsuits.pow
  · intro hdirect
    rw [hreports.p2p] at hdirect
    rw [← h.requests.allowP2P]
    exact hsuits.direct hdirect

end Criteria

/-! ### The invariant -/

namespace Poller

/-- What a call that reads messages may return. -/
def Answers (C : Crypto) (kdf : Pbkdf2) (unmarshalPubkey : Bytes → Option PublicKey)
    (ns : List (Envelope × Bool)) (p : Poll) : Prop :=
  (p.asked = none ∧ p.result = .error (.error (newError "filter not found"))) ∨
  ∃ a messages, p.asked = some a ∧ p.result = .ok messages ∧
    ∀ x ∈ messages, ∃ n ∈ ns, ∃ m, m.From C n ∧ x.Reports C n.1 m ∧
      a.Admits C kdf unmarshalPubkey m x

structure Sound (C : Crypto) (kdf : Pbkdf2) (unmarshalPubkey : Bytes → Option PublicKey)
    (s : Poller) : Prop where
  indexed : s.filters.Indexed C
  told : s.filters.Told C s.notified
  keys : s.api.keys.Marshals
  asked : ∀ id r, s.filters.get id = some r →
    ∃ a, s.asked.lookup id = some a ∧ a.Fits kdf unmarshalPubkey (s.filters.heap r)
  gone : ∀ id, s.filters.get id = none → s.asked.lookup id = none
  polls : ∀ p ∈ s.polls, Answers C kdf unmarshalPubkey s.notified p

variable {C : Crypto} {kdf : Pbkdf2} {unmarshalPubkey : Bytes → Option PublicKey} {s t : Poller}
  {acts : List PollAction}

theorem Answers.mono {ns ns' : List (Envelope × Bool)} {p : Poll}
    (h : Answers C kdf unmarshalPubkey ns p) (hsub : ns ⊆ ns') :
    Answers C kdf unmarshalPubkey ns' p := by
  rcases h with hnone | ⟨a, messages, hasked, hresult, hall⟩
  · exact .inl hnone
  · refine .inr ⟨a, messages, hasked, hresult, fun x hx => ?_⟩
    obtain ⟨n, hn, hx⟩ := hall x hx
    exact ⟨n, hsub hn, hx⟩

/-- The stores may change. -/
theorem Sound.stores {fs : Filters} (h : s.Sound C kdf unmarshalPubkey)
    (hstores : s.filters.StoresOnly fs) {ns : List (Envelope × Bool)}
    (hsub : s.notified ⊆ ns) (htold : fs.Told C ns) :
    Sound C kdf unmarshalPubkey
      { s with
        api := { s.api with subscriber := { s.api.subscriber with filters := fs } }
        notified := ns } := by
  refine ⟨hstores.indexed h.indexed, htold, h.keys, fun id r hid => ?_, fun id hid => ?_,
    fun p hp => (h.polls p hp).mono hsub⟩
  · have hget : fs.watchers.lookup id = some r := hid
    rw [hstores.watchers] at hget
    obtain ⟨a, ha, hfits⟩ := h.asked id r hget
    obtain ⟨messages, heq⟩ := hstores.heap r
    refine ⟨a, ha, ?_⟩
    show a.Fits kdf unmarshalPubkey (fs.heap r)
    rw [heq]
    exact hfits.store messages
  · have hget : fs.watchers.lookup id = none := hid
    rw [hstores.watchers] at hget
    exact h.gone id hget

/-- A filter with an empty store is added under a new identifier. -/
theorem Sound.enlist (h : s.Sound C kdf unmarshalPubkey) {a : Asked} {id : String} {r : FilterRef}
    {f : Filter} (hnew : ¬ s.filters.Installed r) (hid : id ∉ s.filters.watchers)
    (hone : f.keySym = none ∨ f.keyAsym = none) (hempty : f.messages = ∅)
    (hmarshals : f.Marshals) (hfits : a.Fits kdf unmarshalPubkey f) {api : Api}
    (hkeys : api.keys = s.api.keys)
    (hfilters : api.subscriber.filters = s.filters.enlist id r (f.register C id)) :
    Sound C kdf unmarshalPubkey { s with api, asked := s.asked.insert id a } := by
  have htold : (f.register C id).Told C s.notified := by
    refine ⟨hmarshals, fun k m hm => ?_⟩
    have hlookup : f.messages.lookup k = some m := hm
    rw [hempty] at hlookup
    cases hlookup
  have hheap : ∀ r', s.filters.Installed r' →
      (s.filters.enlist id r (f.register C id)).heap r' = s.filters.heap r' := by
    intro r' hr'
    have hne : r' ≠ r := fun heq => hnew (heq ▸ hr')
    rw [Filters.enlist_heap, Function.update_of_ne hne]
  constructor
  · show api.subscriber.filters.Indexed C
    rw [hfilters]
    refine Filters.enlist_indexed h.indexed hnew hid hone fun key hkey => ?_
    have hsym : f.keySym = some key := hkey
    rw [Filter.register, hsym]
  · intro r'
    show (api.subscriber.filters.heap r').Told C s.notified
    rw [hfilters, Filters.enlist_heap]
    exact h.told.update htold r'
  · show api.keys.Marshals
    rw [hkeys]
    exact h.keys
  · intro id' r' hid'
    have hget : api.subscriber.filters.watchers.lookup id' = some r' := hid'
    show ∃ a', (s.asked.insert id a).lookup id' = some a' ∧
      a'.Fits kdf unmarshalPubkey (api.subscriber.filters.heap r')
    rw [hfilters, Filters.enlist_watchers] at hget
    rw [hfilters]
    rcases lookup_insert_iff.mp hget with ⟨rfl, rfl⟩ | ⟨hne, hold⟩
    · refine ⟨a, Finmap.lookup_insert _, ?_⟩
      rw [Filters.enlist_heap, Function.update_self]
      exact hfits.register id'
    · obtain ⟨a', ha', hfits'⟩ := h.asked id' r' hold
      refine ⟨a', lookup_insert_iff.mpr (.inr ⟨hne, ha'⟩), ?_⟩
      rw [hheap r' ⟨id', hold⟩]
      exact hfits'
  · intro id' hid'
    have hget : api.subscriber.filters.watchers.lookup id' = none := hid'
    rw [hfilters, Filters.enlist_watchers] at hget
    have hne : id' ≠ id := by
      rintro rfl
      rw [Finmap.lookup_insert] at hget
      cases hget
    rw [Finmap.lookup_insert_of_ne _ hne] at hget
    show (s.asked.insert id a).lookup id' = none
    rw [Finmap.lookup_insert_of_ne _ hne]
    exact h.gone id' hget
  · exact h.polls

/-- A call that makes a filter from criteria. -/
theorem Sound.made (h : s.Sound C kdf unmarshalPubkey) {crit : Criteria} {rnd : Entropy}
    {r : FilterRef} (hnew : ¬ s.filters.Installed r)
    {made : Except GoError (Memory Bytes × Filter)}
    (hmade : ∀ m f, made = .ok (m, f) → f.messages = ∅ ∧
      Asked.Fits kdf unmarshalPubkey ⟨crit, s.api.keys⟩ f) :
    (s.made crit (s.api.subscribe C rnd r made)).Sound C kdf unmarshalPubkey := by
  cases hm : made with
  | error err => exact h
  | ok x =>
    obtain ⟨m, f⟩ := x
    obtain ⟨hempty, hfits⟩ := hmade m f hm
    have hmarshals : f.Marshals := fun key hkey =>
      h.keys.stored (hfits.requests.keyAsym.symm.trans hkey)
    rcases s.api.subscribe_cases C rnd r m f with ⟨err, hcall⟩ |
      ⟨id, tuning, subscribed, hid, hkeys, hcall⟩
    · rw [hcall]
      exact ⟨h.indexed, h.told, h.keys, h.asked, h.gone, h.polls⟩
    · rw [hcall]
      exact h.enlist hnew hid hkeys hempty hmarshals hfits rfl rfl

/-- A call that reads messages. -/
theorem Sound.polled (h : s.Sound C kdf unmarshalPubkey) (hcurve : C.RecoversPoints) {id : String}
    {r : FilterRef} (hr : s.filters.get id = some r) (order : List Hash) :
    (s.polled id (s.api.take C r order)).Sound C kdf unmarshalPubkey := by
  obtain ⟨⟨messages, hrest, -⟩, hall⟩ := (s.filters.heap r).retrieve_popped order
  have hstores : s.filters.StoresOnly (s.filters.retrieve r order).1 := by
    show s.filters.StoresOnly
      { s.filters with
        heap := Function.update s.filters.heap r ((s.filters.heap r).retrieve order).1 }
    rw [hrest]
    exact .update s.filters r messages
  have hs := h.stores hstores (List.Subset.refl _) (h.told.update ((h.told r).retrieve order))
  obtain ⟨a, ha, hfits⟩ := h.asked id r hr
  obtain ⟨out, hout, hreports⟩ := toMessage_ok hcurve (f := s.filters.heap r) fun m hm => by
    obtain ⟨k, hk⟩ := hall m hm
    exact (h.told r).stored k m hk
  refine ⟨hs.indexed, hs.told, hs.keys, hs.asked, hs.gone, fun p hp => ?_⟩
  rcases List.mem_append.mp hp with hp | hp
  · exact h.polls p hp
  · rw [List.mem_singleton.mp hp]
    refine .inr ⟨a, out, ha, hout, fun x hx => ?_⟩
    obtain ⟨n, hn, m, hfrom, hsuits, hx⟩ := hreports x hx
    exact ⟨n, hn, m, hfrom, hx, hfits.admits hsuits hfrom hx⟩

theorem watchers_uninstall (fs : Filters) (id : String) :
    (fs.uninstall id).1.watchers = fs.watchers.erase id := by
  unfold Filters.uninstall
  split
  · rfl
  · rename_i hnone
    refine (Finmap.ext_lookup fun id' => ?_).symm
    by_cases hid : id' = id
    · rw [hid, Finmap.lookup_erase, hnone]
    · rw [Finmap.lookup_erase_ne hid]

theorem Sound.unsubscribe (h : s.Sound C kdf unmarshalPubkey) (id : String) :
    Sound C kdf unmarshalPubkey
      { s with api := (s.api.unsubscribe id).1, asked := s.asked.erase id } := by
  have hfilters : (s.api.unsubscribe id).1.subscriber.filters = (s.filters.uninstall id).1 := by
    unfold Api.unsubscribe Subscriber.unsubscribe
    dsimp only
    split <;> (rename_i heq; rw [heq])
  have hheap := s.filters.heap_uninstall id
  constructor
  · show (s.api.unsubscribe id).1.subscriber.filters.Indexed C
    rw [hfilters]
    exact Filters.uninstall_indexed h.indexed
  · intro r
    show ((s.api.unsubscribe id).1.subscriber.filters.heap r).Told C s.notified
    rw [hfilters, hheap]
    exact h.told r
  · exact h.keys
  · intro id' r hid
    have hget : (s.api.unsubscribe id).1.subscriber.filters.watchers.lookup id' = some r := hid
    rw [hfilters, watchers_uninstall] at hget
    obtain ⟨hne, hold⟩ := lookup_erase_iff.mp hget
    obtain ⟨a, ha, hfits⟩ := h.asked id' r hold
    refine ⟨a, lookup_erase_iff.mpr ⟨hne, ha⟩, ?_⟩
    show a.Fits kdf unmarshalPubkey ((s.api.unsubscribe id).1.subscriber.filters.heap r)
    rw [hfilters, hheap]
    exact hfits
  · intro id' hid
    have hget : (s.api.unsubscribe id).1.subscriber.filters.watchers.lookup id' = none := hid
    rw [hfilters, watchers_uninstall] at hget
    show (s.asked.erase id).lookup id' = none
    by_cases hne : id' = id
    · rw [hne, Finmap.lookup_erase]
    · rw [Finmap.lookup_erase_ne hne] at hget ⊢
      exact h.gone id' hget
  · exact h.polls

/-- The topics of the filter of `Messages` are all the last one. -/
theorem messages_fits {api : Api} {crit : Criteria} {supported : Bool} {m : Memory Bytes}
    {f : Filter} (h : api.messagesFilter C kdf unmarshalPubkey crit supported = .ok (m, f)) :
    Asked.Fits kdf unmarshalPubkey ⟨crit.lastTopic, api.keys⟩ f := by
  obtain ⟨hrequests, htopics⟩ := Api.messagesFilter_ok h
  refine ⟨⟨hrequests.src, hrequests.keySym, hrequests.keyAsym, hrequests.pow, hrequests.allowP2P⟩,
    fun topic ht => ?_⟩
  show crit.topics.getLast?.toList = [] ∨ topic ∈ crit.topics.getLast?.toList
  rw [htopics] at ht
  rcases crit.topics.eq_nil_or_concat with hnil | ⟨init, last, hlast⟩
  · rw [hnil]
    exact .inl rfl
  · rw [hlast, List.concat_eq_append, List.getLast?_concat] at ht ⊢
    rcases ht with ht | ⟨t, ht, rfl⟩
    · simp at ht
    · have hlast' := List.eq_of_mem_replicate ht
      rw [hlast', Option.map_some, Option.getD_some, Envelope.bytesToTopic_toList]
      exact .inr (List.mem_singleton_self last)

theorem newMessageFilter_fits {api : Api} {crit : Criteria} {m : Memory Bytes} {f : Filter}
    (h : api.newMessageFilterFilter kdf unmarshalPubkey crit = .ok (m, f)) :
    Asked.Fits kdf unmarshalPubkey ⟨crit, api.keys⟩ f := by
  obtain ⟨hrequests, htopics⟩ := Api.newMessageFilterFilter_ok h
  refine ⟨hrequests, fun topic ht => ?_⟩
  rw [htopics, List.map_eq_nil_iff] at ht
  rcases ht with hnil | ⟨t, ht, rfl⟩
  · exact .inl hnil
  · obtain ⟨t', ht', rfl⟩ := List.mem_map.mp ht
    rw [Envelope.bytesToTopic_toList]
    exact .inr ht'

theorem Sound.step (h : s.Sound C kdf unmarshalPubkey) (hcurve : C.RecoversPoints) {a : PollAction}
    (hstep : PollStep C kdf unmarshalPubkey s a t) : t.Sound C kdf unmarshalPubkey := by
  cases a with
  | keyCall a =>
    obtain ⟨keys, hkeys, rfl⟩ := hstep
    exact ⟨h.indexed, h.told, h.keys.step hkeys, h.asked, h.gone, h.polls⟩
  | symKeyCall a =>
    obtain ⟨keys, hkeys, rfl⟩ := hstep
    exact ⟨h.indexed, h.told, h.keys.symStep hkeys, h.asked, h.gone, h.polls⟩
  | newMessageFilter crit rnd r =>
    obtain ⟨hnew, rfl⟩ := hstep
    exact h.made hnew fun m f hmade => ⟨Api.newMessageFilterFilter_empty hmade,
      newMessageFilter_fits hmade⟩
  | messages crit supported rnd r =>
    obtain ⟨hnew, rfl⟩ := hstep
    exact h.made hnew fun m f hmade => ⟨Api.messagesFilter_empty hmade, messages_fits hmade⟩
  | unsubscribe id =>
    cases hstep
    exact h.unsubscribe id
  | notify e p2p order =>
    obtain ⟨ho, rfl⟩ := hstep
    have htold : s.filters.Told C (s.notified ++ [(e, p2p)]) := fun r =>
      (h.told r).mono (List.subset_append_left _ _)
    exact h.stores (s.filters.storesOnly_notifyWatchers e p2p order) (List.subset_append_left _ _)
      (htold.notifyWatchers h.indexed (List.mem_append_right _ (List.mem_singleton_self _)) ho)
  | getFilterMessages id order =>
    obtain ⟨-, rfl⟩ := hstep
    cases hr : s.filters.get id with
    | none =>
      have hcall : s.api.getFilterMessages C id order =
          (s.api, .error (.error (newError "filter not found"))) := by
        rw [Api.getFilterMessages, hr]
      rw [hcall]
      refine ⟨h.indexed, h.told, h.keys, h.asked, h.gone, fun p hp => ?_⟩
      rcases List.mem_append.mp hp with hp | hp
      · exact h.polls p hp
      · rw [List.mem_singleton.mp hp]
        exact .inl ⟨h.gone id hr, rfl⟩
    | some r =>
      have hcall : s.api.getFilterMessages C id order = s.api.take C r order := by
        rw [Api.getFilterMessages, hr]
      rw [hcall]
      exact h.polled hcurve hr order
  | tick id order =>
    obtain ⟨r, hr, -, rfl⟩ := hstep
    have hcall : s.api.tick C id order = s.api.take C r order := by
      rw [Api.tick, hr]
    rw [hcall]
    exact h.polled hcurve hr order

theorem start_sound (C : Crypto) (kdf : Pbkdf2) (unmarshalPubkey : Bytes → Option PublicKey)
    (tuning : Tuning) :
    Sound C kdf unmarshalPubkey { api := { subscriber := { tuning } } } := by
  refine ⟨Filters.empty_indexed C, fun r => ⟨?_, ?_⟩, ?_, ?_, ?_, ?_⟩
  · intro key hkey
    cases hkey
  · intro k m hm
    cases hm
  · intro id key hkey
    cases hkey
  · intro id r hid
    cases hid
  · exact fun _ _ => rfl
  · exact fun p hp => absurd hp List.not_mem_nil

/-- In every order of the calls, a call that reads messages returns an error only for an identifier
without a filter, and never panics; and each message that it returns tells truly of an envelope that
the filters were notified about, and meets the criteria that the filter was made from. -/
theorem polls_meet_criteria (C : Crypto) (hcurve : C.RecoversPoints) (kdf : Pbkdf2)
    (unmarshalPubkey : Bytes → Option PublicKey) (tuning : Tuning) {acts : List PollAction}
    {s : Poller} (run : Run (PollStep C kdf unmarshalPubkey)
      { api := { subscriber := { tuning } } } acts s) :
    ∀ p ∈ s.polls,
      (p.asked = none ∧ p.result = .error (.error (newError "filter not found"))) ∨
      ∃ a messages, p.asked = some a ∧ p.result = .ok messages ∧
        ∀ x ∈ messages, ∃ n ∈ s.notified, ∃ m, m.From C n ∧ x.Reports C n.1 m ∧
          a.Admits C kdf unmarshalPubkey m x :=
  (run.invariant (start_sound C kdf unmarshalPubkey tuning)
    fun _ _ _ _ h hstep => h.step hcurve hstep).polls

def sampleKdf : Pbkdf2 := fun _ _ _ => []

/-- The identifier that is drawn as bytes `b`. -/
def sampleID (b : UInt8) : String := hex (List.replicate keyIDSize b)

def sampleAsked : Criteria :=
  { symKeyID := goString (sampleID 3), topics := [shortEnvelope.topic] }

/-- A key is added, a filter made for it, the filter notified about an envelope, and its messages
read. -/
def samplePollActions : List PollAction :=
  [.symKeyCall (.addSymKeyDirect (some topicKey) (idEntropy 1)),
    .newMessageFilter sampleAsked (idEntropy 4) 0, .notify shortEnvelope false [0],
    .getFilterMessages (sampleID 6) [shortEnvelope.hash tagCrypto]]

/-- The states of this run. -/
def keyedPoller : Poller where
  api :=
    { subscriber := .start Subscriber.closedSettings {}
      keys := (({} : KeyStore).addSymKeyDirect (some topicKey) (idEntropy 1)).1 }

def filteringPoller : Poller :=
  keyedPoller.made sampleAsked
    (keyedPoller.api.newMessageFilter tagCrypto sampleKdf (fun _ => none) sampleAsked
      (idEntropy 4) 0)

def notifiedPoller : Poller :=
  { filteringPoller with
    api := filteringPoller.api.notify tagCrypto shortEnvelope false [0]
    notified := [(shortEnvelope, false)] }

def samplePoller : Poller :=
  notifiedPoller.polled (sampleID 6)
    (notifiedPoller.api.getFilterMessages tagCrypto (sampleID 6)
      [shortEnvelope.hash tagCrypto])

theorem samplePoller_run : Run (PollStep tagCrypto sampleKdf fun _ => none)
    { api := { subscriber := { tuning := { settings := Subscriber.closedSettings, clock := 0 } } } }
    samplePollActions samplePoller := by
  have hmade : PollStep tagCrypto sampleKdf (fun _ => none) keyedPoller
      (.newMessageFilter sampleAsked (idEntropy 4) 0) filteringPoller := by
    refine ⟨?_, rfl⟩
    decide +kernel
  have hnotify : PollStep tagCrypto sampleKdf (fun _ => none) filteringPoller
      (.notify shortEnvelope false [0]) notifiedPoller := by
    refine ⟨⟨[], [0], ?_, ?_, rfl⟩, rfl⟩ <;> decide +kernel
  have hpoll : PollStep tagCrypto sampleKdf (fun _ => none) notifiedPoller
      (.getFilterMessages (sampleID 6) [shortEnvelope.hash tagCrypto]) samplePoller := by
    refine ⟨fun r hr => ?_, rfl⟩
    have hget : notifiedPoller.filters.get (sampleID 6) = some 0 := by decide +kernel
    cases hget.symm.trans hr
    decide +kernel
  exact .cons ⟨_, rfl, rfl⟩ (.cons hmade (.cons hnotify (.cons hpoll (.nil _))))

theorem polls_meet_criteria_sample :
    ∃ a x, samplePoller.polls = [⟨some a, .ok [x]⟩] ∧ ∃ n ∈ samplePoller.notified, ∃ m,
      m.From tagCrypto n ∧ x.Reports tagCrypto n.1 m ∧
        a.Admits tagCrypto sampleKdf (fun _ => none) m x := by
  have hcurve : tagCrypto.RecoversPoints := by
    intro h sig pub hpub
    cases hpub
    decide +kernel
  obtain ⟨p, hp⟩ : ∃ p, samplePoller.polls = [p] := ⟨_, rfl⟩
  have hone : samplePoller.polls.map (fun p => p.result.toOption.map List.length) = [some 1] := by
    decide +kernel
  rw [hp] at hone ⊢
  have hpoll := polls_meet_criteria tagCrypto hcurve sampleKdf _ _ samplePoller_run p
    (hp ▸ List.mem_singleton_self p)
  obtain ⟨asked, result⟩ := p
  rcases hpoll with ⟨-, hresult⟩ | ⟨a, messages, rfl, rfl, hall⟩
  · cases hresult
    cases hone
  · have hlength : messages.length = 1 := by
      have hsome := List.cons.inj hone
      exact Option.some.inj hsome.1
    obtain ⟨x, rfl⟩ := List.length_eq_one_iff.mp hlength
    exact ⟨a, x, rfl, hall x (List.mem_singleton_self x)⟩

end Poller

end Whisperv6
