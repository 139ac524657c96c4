import Whisperv6.KeyStore
import Whisperv6.Subscription
import Whisperv6.WireFormat

/-! The two calls of the API that install a filter for given criteria.  `NewMessageFilter` copies
every topic.  `Messages` keeps slices of the variable of its loop, of which there is one for the
whole loop, so in the end every slice holds the last topic. -/

namespace Whisperv6

open ProofKit

/-! ### The calls -/

def errSymAsym : GoError := newError "specify either a symmetric or an asymmetric key"
def errInvalidSymmetricKey : GoError := newError "invalid symmetric key"
def Api.errInvalidPublicKey : GoError := newError "invalid public key"
def errInvalidSigningPubKey : GoError := newError "invalid signing public key"
def errNoTopics : GoError := newError "missing topic(s)"
def errNotificationsUnsupported : GoError := newError "notifications not supported"

structure Criteria where
  symKeyID : Bytes := []
  privateKeyID : Bytes := []
  sig : Bytes := []
  minPow : Float64 := 0
  topics : List TopicType := []
  allowP2P : Bool := false

namespace Criteria

def symKeyGiven (crit : Criteria) : Bool := 0 < crit.symKeyID.length

def privateKeyGiven (crit : Criteria) : Bool := 0 < crit.privateKeyID.length

/-- Both kinds of keys are given, or none. -/
def symAsym (crit : Criteria) : Bool :=
  (crit.symKeyGiven && crit.privateKeyGiven) || (!crit.symKeyGiven && !crit.privateKeyGiven)

/-- The signer, where `unmarshalPubkey` gives `none` for bytes that are no point of the curve. -/
def signer (unmarshalPubkey : Bytes → Option PublicKey) (crit : Criteria) :
    Except GoError (Option PublicKey) :=
  if 0 < crit.sig.length then
    match unmarshalPubkey crit.sig with
    | none => .error errInvalidSigningPubKey
    | some pub => .ok (some pub)
  else .ok none

end Criteria

/-- The loop of `Messages` over the topics from the index `i` on.  Its variable is at the address
`bt`, and `refs` are the slices so far, by the addresses of their arrays. -/
def sliceTopics (bt : Nat) : (m : Memory Bytes) → (i : Nat) → (topics : List TopicType) →
    (refs : List Nat) → Except GoError (Memory Bytes × List Nat)
  | m, _, [], refs => .ok (m, refs)
  | m, i, topic :: topics, refs =>
    let m := m.store bt topic.toList
    if (m.load bt).length = 0 ∨ 4 < (m.load bt).length then
      .error (newError ("subscribe: topic " ++ toString i ++ " has wrong size: " ++
        toString (m.load bt).length))
    else sliceTopics bt m (i + 1) topics (refs ++ [bt])

/-- The loop of `NewMessageFilter` over the topics: an array for each, to which it is copied. -/
def copyTopics : (m : Memory Bytes) → (topics : List TopicType) → (refs : List Nat) →
    Memory Bytes × List Nat
  | m, [], refs => (m, refs)
  | m, topic :: topics, refs =>
    let (m, r) := m.alloc (List.replicate topicLength 0)
    let m := m.store r (topic.toList.take topicLength ++ (m.load r).drop topic.toList.length)
    copyTopics m topics (refs ++ [r])

/-- A node with the API. -/
structure Api where
  subscriber : Subscriber
  keys : KeyStore := {}
  memory : Memory Bytes := { next := 0, load := fun _ => [] }

namespace Api

section Calls

variable (C : Crypto) (kdf : Pbkdf2) (unmarshalPubkey : Bytes → Option PublicKey) (api : Api)
  (crit : Criteria)

/-- The symmetric key of the criteria, which both calls check. -/
def symKey : Except GoError Bytes :=
  match api.keys.getSymKey crit.symKeyID with
  | .error err => .error err
  | .ok key =>
    if !validateDataIntegrity key aesKeyLength then .error errInvalidSymmetricKey else .ok key

/-- The part of `Messages` for a symmetric key. -/
def listenSym (filter : Filter) : Except GoError Filter :=
  if crit.symKeyGiven then
    if filter.topics.length = 0 then .error errNoTopics
    else do
      let key ← api.symKey crit
      pure { filter with keySym := some key, symKeyHash := C.keccak256Hash key }
  else pure filter

/-- The part of `Messages` for a private key. -/
def listenAsym (filter : Filter) : Except GoError Filter :=
  if crit.privateKeyGiven then
    match api.keys.getPrivateKey kdf crit.privateKeyID with
    | .error _ => .error errInvalidPublicKey
    | .ok key => pure { filter with keyAsym := some key }
  else pure filter

/-- `Messages` up to `Subscribe`; `supported` says whether the connection takes notifications.
Nothing writes to the arrays of the topics later, so the filter has what they hold now. -/
def messagesFilter (supported : Bool) : Except GoError (Memory Bytes × Filter) :=
  if !supported then .error errNotificationsUnsupported
  else if crit.symAsym then .error errSymAsym
  else do
    let src ← crit.signer unmarshalPubkey
    let (m, bt) := api.memory.alloc (List.replicate topicLength 0)
    let (m, refs) ← sliceTopics bt m 0 crit.topics []
    let filter ← api.listenSym C crit
      { src, topics := refs.map m.load, pow := crit.minPow, allowP2P := crit.allowP2P }
    let filter ← api.listenAsym kdf crit filter
    pure (m, filter)

/-- The part of `NewMessageFilter` for a symmetric key. -/
def keySym : Except GoError (Option Bytes) :=
  if crit.symKeyGiven then (api.symKey crit).map some else .ok none

/-- The part of `NewMessageFilter` for a private key. -/
def keyAsym : Except GoError (Option PrivateKey) :=
  if crit.privateKeyGiven then (api.keys.getPrivateKey kdf crit.privateKeyID).map some
  else .ok none

/-- `NewMessageFilter` up to `Subscribe`. -/
def newMessageFilterFilter : Except GoError (Memory Bytes × Filter) :=
  if crit.symAsym then .error errSymAsym
  else do
    let src ← crit.signer unmarshalPubkey
    let keySym ← api.keySym crit
    let keyAsym ← api.keyAsym kdf crit
    let (m, refs) := copyTopics api.memory crit.topics []
    pure (m,
      { src, keySym, keyAsym, pow := crit.minPow, allowP2P := crit.allowP2P,
        topics := refs.map m.load })

/-- `Subscribe` of the filter that a call has made, at the address `r`. -/
def subscribe (rnd : Entropy) (r : FilterRef) (made : Except GoError (Memory Bytes × Filter)) :
    Api × Except GoError String :=
  match made with
  | .error err => (api, .error err)
  | .ok (m, filter) =>
    let (s, result) := api.subscriber.subscribe C rnd r filter
    ({ api with subscriber := s, memory := m }, result)

/-- `Messages`, with the identifier of the filter that the subscription polls. -/
def messages (supported : Bool) (rnd : Entropy) (r : FilterRef) : Api × Except GoError String :=
  api.subscribe C rnd r (api.messagesFilter C kdf unmarshalPubkey crit supported)

def newMessageFilter (rnd : Entropy) (r : FilterRef) : Api × Except GoError String :=
  api.subscribe C rnd r (api.newMessageFilterFilter kdf unmarshalPubkey crit)

end Calls

end Api

/-! ### The topics -/

theorem sliceTopics_ok (bt : Nat) (topics : List TopicType) (m : Memory Bytes) (i : Nat)
    (refs : List Nat) :
    ∃ m', sliceTopics bt m i topics refs = .ok (m', refs ++ List.replicate topics.length bt) ∧
      m'.load bt = (topics.getLast?.map Vector.toList).getD (m.load bt) := by
  induction topics generalizing m i refs with
  | nil => exact ⟨m, by simp [sliceTopics], rfl⟩
  | cons topic topics ih =>
    obtain ⟨m', hloop, hlast⟩ := ih (m.store bt topic.toList) (i + 1) (refs ++ [bt])
    refine ⟨m', ?_, ?_⟩
    · rw [sliceTopics, if_neg (by simp), hloop]
      simp [List.replicate_succ]
    · rw [hlast, Memory.load_store_self, List.getLast?_cons]
      cases topics.getLast? <;> rfl

theorem copyTopics_load (topics : List TopicType) (m : Memory Bytes) (refs : List Nat)
    (hrefs : ∀ r ∈ refs, r < m.next) :
    (copyTopics m topics refs).2.map (copyTopics m topics refs).1.load =
      refs.map m.load ++ topics.map Vector.toList := by
  induction topics generalizing m refs with
  | nil => simp [copyTopics]
  | cons topic topics ih =>
    have hold : ∀ v v', refs.map ((m.alloc v).1.store m.next v').load = refs.map m.load := by
      intro v v'
      apply List.map_congr_left
      intro r hr
      have hlt := hrefs r hr
      rw [Memory.load_store_of_ne _ (Nat.ne_of_lt hlt), Memory.load_alloc_of_lt _ hlt]
    rw [copyTopics, ih]
    · rw [List.map_append, Memory.alloc_snd, hold]
      simp [topicLength]
    · intro r hr
      rcases List.mem_append.mp hr with hr | hr
      · exact Nat.lt_succ_of_lt (hrefs r hr)
      · rw [List.mem_singleton.mp hr]
        exact Nat.lt_succ_self m.next

/-! ### The filters -/

namespace Criteria

/-- The symmetric key that the criteria name. -/
def storedSym (crit : Criteria) (keys : KeyStore) : Option Bytes :=
  if crit.symKeyGiven then (keys.getSymKey crit.symKeyID).toOption else none

/-- The private key that the criteria name. -/
def storedAsym (crit : Criteria) (kdf : Pbkdf2) (keys : KeyStore) : Option PrivateKey :=
  if crit.privateKeyGiven then (keys.getPrivateKey kdf crit.privateKeyID).toOption else none

/-- The filter has the signer, the keys and the options of the criteria. -/
structure Requests (crit : Criteria) (kdf : Pbkdf2) (unmarshalPubkey : Bytes → Option PublicKey)
    (keys : KeyStore) (f : Filter) : Prop where
  src : crit.signer unmarshalPubkey = .ok f.src
  keySym : f.keySym = crit.storedSym keys
  keyAsym : f.keyAsym = crit.storedAsym kdf keys
  pow : f.pow = crit.minPow
  allowP2P : f.allowP2P = crit.allowP2P

end Criteria

namespace Api

variable {C : Crypto} {kdf : Pbkdf2} {unmarshalPubkey : Bytes → Option PublicKey} {api : Api}
  {crit : Criteria} {m : Memory Bytes} {f : Filter}

theorem symKey_ok {key : Bytes} (h : api.symKey crit = .ok key) :
    api.keys.getSymKey crit.symKeyID = .ok key := by
  unfold symKey at h
  split at h
  · cases h
  · split at h
    · cases h
    · cases h
      assumption

theorem listenSym_ok {filter : Filter} (hnone : filter.keySym = none)
    (h : api.listenSym C crit filter = .ok f) :
    f = { filter with keySym := crit.storedSym api.keys, symKeyHash := f.symKeyHash } := by
  unfold listenSym at h
  unfold Criteria.storedSym
  split at h
  · rename_i hgiven
    split at h
    · cases h
    · obtain ⟨key, hkey, h⟩ := bind_eq_ok.mp h
      cases h
      rw [if_pos hgiven, symKey_ok hkey]
      rfl
  · rename_i hgiven
    cases h
    rw [if_neg hgiven, ← hnone]

theorem listenAsym_ok {filter : Filter} (hnone : filter.keyAsym = none)
    (h : api.listenAsym kdf crit filter = .ok f) :
    f = { filter with keyAsym := crit.storedAsym kdf api.keys } := by
  unfold listenAsym at h
  unfold Criteria.storedAsym
  split at h
  · rename_i hgiven
    split at h
    · cases h
    · rename_i key hkey
      cases h
      rw [if_pos hgiven, hkey]
      rfl
  · rename_i hgiven
    cases h
    rw [if_neg hgiven, ← hnone]

/-- In the filter of `Messages` every topic is the last one. -/
theorem messagesFilter_ok {supported : Bool}
    (h : api.messagesFilter C kdf unmarshalPubkey crit supported = .ok (m, f)) :
    crit.Requests kdf unmarshalPubkey api.keys f ∧
      f.topics = List.replicate crit.topics.length
        ((crit.topics.getLast?.map Vector.toList).getD (List.replicate topicLength 0)) := by
  unfold messagesFilter at h
  split at h
  · cases h
  split at h
  · cases h
  obtain ⟨src, hsrc, h⟩ := bind_eq_ok.mp h
  obtain ⟨⟨m', refs⟩, hloop, h⟩ := bind_eq_ok.mp h
  obtain ⟨f₁, hf₁, h⟩ := bind_eq_ok.mp h
  obtain ⟨f₂, hf₂, h⟩ := bind_eq_ok.mp h
  cases h
  obtain ⟨m'', hslice, hlast⟩ := sliceTopics_ok api.memory.next crit.topics
    (api.memory.alloc (List.replicate topicLength 0)).1 0 []
  cases hslice.symm.trans hloop
  rw [listenSym_ok rfl hf₁] at hf₂
  rw [listenAsym_ok rfl hf₂]
  refine ⟨⟨hsrc, rfl, rfl, rfl, rfl⟩, ?_⟩
  show List.map m.load _ = _
  rw [List.nil_append, List.map_replicate, hlast, Memory.load_alloc_self]

theorem keySym_ok {key : Option Bytes} (h : api.keySym crit = .ok key) :
    key = crit.storedSym api.keys := by
  unfold keySym at h
  unfold Criteria.storedSym
  split at h
  · cases hkey : api.symKey crit with
    | error err =>
      rw [hkey] at h
      cases h
    | ok k =>
      rw [hkey] at h
      cases h
      rw [if_pos ‹_›, symKey_ok hkey]
      rfl
  · cases h
    rw [if_neg ‹_›]

theorem keyAsym_ok {key : Option PrivateKey} (h : api.keyAsym kdf crit = .ok key) :
    key = crit.storedAsym kdf api.keys := by
  unfold keyAsym at h
  unfold Criteria.storedAsym
  split at h
  · cases hkey : api.keys.getPrivateKey kdf crit.privateKeyID with
    | error err =>
      rw [hkey] at h
      cases h
    | ok k =>
      rw [hkey] at h
      cases h
      rw [if_pos ‹_›]
      rfl
  · cases h
    rw [if_neg ‹_›]

theorem newMessageFilterFilter_ok
    (h : api.newMessageFilterFilter kdf unmarshalPubkey crit = .ok (m, f)) :
    crit.Requests kdf unmarshalPubkey api.keys f ∧ f.topics = crit.topics.map Vector.toList := by
  unfold newMessageFilterFilter at h
  split at h
  · cases h
  · obtain ⟨src, hsrc, h⟩ := bind_eq_ok.mp h
    obtain ⟨keySym, hsym, h⟩ := bind_eq_ok.mp h
    obtain ⟨keyAsym, hasym, h⟩ := bind_eq_ok.mp h
    cases h
    exact ⟨⟨hsrc, keySym_ok hsym, keyAsym_ok hasym, rfl, rfl⟩,
      copyTopics_load crit.topics api.memory [] (by simp)⟩

end Api

/-! ### What the node does with them -/

/-- The filter at `r` lists the topics of the criteria, one by one; the envelopes of these topics,
and for no topics all envelopes, are matched against it, and no others; and the bits of these
topics, and no others, were joined to the advertised filter. -/
structure Criteria.Installs (crit : Criteria) (s : Subscriber) (r : FilterRef) : Prop where
  topics : (s.filters.heap r).topics = crit.topics.map Vector.toList
  matched : ∀ topic order, s.filters.WatcherOrder topic order →
    (r ∈ order ↔ crit.topics = [] ∨ topic ∈ crit.topics)
  aggregate : ∀ bloom, bloomFilterMatch bloom (s.filters.heap r).aggregate = true ↔
    ∀ topic ∈ crit.topics, bloomFilterMatch bloom (topicToBloom topic) = true
  covered : bloomFilterMatch s.tuning.settings.bloomFilter (s.filters.heap r).aggregate = true

namespace Subscriber

variable {C : Crypto} {s : Subscriber} {rnd : Entropy} {r : FilterRef} {f : Filter} {id : String}

theorem heap_subscribe (hok : (s.subscribe C rnd r f).2 = .ok id) :
    (s.subscribe C rnd r f).1.filters.heap r = f.register C id := by
  rw [(subscribe_ok hok).2, Filters.enlist_heap, Function.update_self]

theorem watchers_subscribe (hs : s.filters.Indexed C) (hnew : ¬ s.filters.Installed r)
    (hok : (s.subscribe C rnd r f).2 = .ok id) {topic : TopicType} {order : List FilterRef}
    (ho : (s.subscribe C rnd r f).1.filters.WatcherOrder topic order) :
    r ∈ order ↔ f.topics = [] ∨ ∃ t ∈ f.topics, bytesToTopic t = topic := by
  obtain ⟨all, listed, hall, hlisted, rfl⟩ := ho
  rw [List.mem_append, hall.mem, hlisted.mem, (subscribe_ok hok).2, Filters.mem_enlist_all,
    Filters.mem_enlist_atTopic, hs.wildcard, hs.listed]
  simp [hnew, Filter.register]

theorem installs_subscribe {crit : Criteria} (hs : s.filters.Indexed C)
    (hnew : ¬ s.filters.Installed r) (hok : (s.subscribe C rnd r f).2 = .ok id) :
    crit.Installs (s.subscribe C rnd r f).1 r ↔ f.topics = crit.topics.map Vector.toList := by
  have hheap := heap_subscribe hok
  constructor
  · intro h
    have htopics := h.topics
    rw [hheap] at htopics
    exact htopics
  · intro htopics
    refine ⟨?_, ?_, ?_, ?_⟩
    · rw [hheap]
      exact htopics
    · intro topic order ho
      rw [watchers_subscribe hs hnew hok ho, htopics]
      simp [Envelope.bytesToTopic_toList]
    · intro bloom
      rw [hheap, Filter.match_aggregate]
      show (∀ t ∈ f.topics, _) ↔ _
      rw [htopics]
      simp [Envelope.bytesToTopic_toList]
    · rw [hheap, (subscribe_ok hok).1]
      exact s.tuning.updateBloomFilter_covers f

end Subscriber

namespace Api

variable {C : Crypto} {kdf : Pbkdf2} {unmarshalPubkey : Bytes → Option PublicKey} {api : Api}
  {crit : Criteria}

theorem subscribe_ok {rnd : Entropy} {r : FilterRef} {id : String}
    {made : Except GoError (Memory Bytes × Filter)} (h : (api.subscribe C rnd r made).2 = .ok id) :
    ∃ m f, made = .ok (m, f) ∧ (api.subscriber.subscribe C rnd r f).2 = .ok id ∧
      (api.subscribe C rnd r made).1.subscriber = (api.subscriber.subscribe C rnd r f).1 := by
  cases made with
  | error err => cases h
  | ok made => exact ⟨made.1, made.2, rfl, h, rfl⟩

end Api

/-- The last topic repeated is the list itself exactly when all its topics are equal. -/
theorem replicate_last_iff (topics : List TopicType) (b : Bytes) :
    List.replicate topics.length ((topics.getLast?.map Vector.toList).getD b) =
        topics.map Vector.toList ↔
      ∀ t ∈ topics, ∀ t' ∈ topics, t = t' := by
  rcases topics.eq_nil_or_concat with rfl | ⟨init, last, rfl⟩
  · simp
  · rw [List.concat_eq_append, List.getLast?_concat, eq_comm, List.eq_replicate_iff]
    simp only [List.length_map, true_and, List.forall_mem_map, Option.map_some, Option.getD_some,
      Vector.toList_inj]
    constructor
    · intro h t ht t' ht'
      rw [h t ht, h t' ht']
    · intro h t ht
      exact h t ht last (by simp)

/-- What the criteria ask of a filter beside the topics. -/
def Filter.options (f : Filter) :
    Option PublicKey × Option Bytes × Option PrivateKey × Float64 × Bool :=
  (f.src, f.keySym, f.keyAsym, f.pow, f.allowP2P)

theorem Criteria.Requests.options_eq {crit : Criteria} {kdf : Pbkdf2}
    {unmarshalPubkey : Bytes → Option PublicKey} {keys : KeyStore} {f g : Filter}
    (hf : crit.Requests kdf unmarshalPubkey keys f)
    (hg : crit.Requests kdf unmarshalPubkey keys g) : f.options = g.options := by
  have hsrc : f.src = g.src := Except.ok.inj (hf.src.symm.trans hg.src)
  rw [Filter.options, hsrc, hf.keySym, hf.keyAsym, hf.pow, hf.allowP2P, ← hg.keySym, ← hg.keyAsym,
    ← hg.pow, ← hg.allowP2P]
  rfl

namespace Api

/-- Where both calls succeed, `NewMessageFilter` installs what was asked, and `Messages` does so
exactly when the topics are all equal; else the last topic is the only one that its filter gets.
The keys, the signer, the bound and the flag are the same. -/
theorem installs_requested_iff (C : Crypto) (kdf : Pbkdf2)
    (unmarshalPubkey : Bytes → Option PublicKey) (crit : Criteria) {api api' : Api}
    (hkeys : api'.keys = api.keys) {supported : Bool} {rnd rnd' : Entropy} {r r' : FilterRef}
    (hs : api.subscriber.filters.Indexed C) (hnew : ¬ api.subscriber.filters.Installed r)
    (hs' : api'.subscriber.filters.Indexed C) (hnew' : ¬ api'.subscriber.filters.Installed r')
    {id id' : String} (hok : (api.messages C kdf unmarshalPubkey crit supported rnd r).2 = .ok id)
    (hok' : (api'.newMessageFilter C kdf unmarshalPubkey crit rnd' r').2 = .ok id') :
    let s := (api.messages C kdf unmarshalPubkey crit supported rnd r).1.subscriber
    let s' := (api'.newMessageFilter C kdf unmarshalPubkey crit rnd' r').1.subscriber
    crit.Installs s' r' ∧
    (crit.Installs s r ↔ ∀ t ∈ crit.topics, ∀ t' ∈ crit.topics, t = t') ∧
    (∀ topic order, s.filters.WatcherOrder topic order →
      (r ∈ order ↔ crit.topics = [] ∨ crit.topics.getLast? = some topic)) ∧
    (s.filters.heap r).options = (s'.filters.heap r').options := by
  obtain ⟨m, f, hmade, hsub, heq⟩ := subscribe_ok hok
  obtain ⟨m', f', hmade', hsub', heq'⟩ := subscribe_ok hok'
  obtain ⟨hreq, htopics⟩ := messagesFilter_ok hmade
  obtain ⟨hreq', htopics'⟩ := newMessageFilterFilter_ok hmade'
  dsimp only
  rw [messages, newMessageFilter, heq, heq']
  refine ⟨?_, ?_, ?_, ?_⟩
  · exact (Subscriber.installs_subscribe hs' hnew' hsub').mpr htopics'
  · rw [Subscriber.installs_subscribe hs hnew hsub, htopics]
    exact replicate_last_iff _ _
  · intro topic order ho
    rw [Subscriber.watchers_subscribe hs hnew hsub ho, htopics]
    rcases crit.topics.eq_nil_or_concat with hnil | ⟨init, last, hlast⟩
    · simp [hnil]
    · rw [hlast, List.concat_eq_append, List.getLast?_concat]
      simp [Envelope.bytesToTopic_toList]
  · rw [Subscriber.heap_subscribe hsub, Subscriber.heap_subscribe hsub']
    rw [hkeys] at hreq'
    show f.options = f'.options
    exact hreq.options_eq hreq'

/-- A node with an empty bloom filter and one symmetric key, under the name `k`. -/
def sample : Api where
  subscriber := .start Subscriber.closedSettings {}
  keys := { symKeys := Finmap.insert [107] (some (List.replicate aesKeyLength 5)) ∅ }

/-- Criteria for the key of the sample. -/
def sampleCriteria (topics : List TopicType) : Criteria := { symKeyID := [107], topics }

theorem installs_requested_iff_repeated :
    let kdf : Pbkdf2 := fun _ _ _ => []
    let crit := sampleCriteria [bytesToTopic [1], bytesToTopic [1]]
    crit.Installs (sample.messages sampleCrypto kdf (fun _ => none) crit true constantEntropy
      0).1.subscriber 0 ∧
    crit.Installs (sample.newMessageFilter sampleCrypto kdf (fun _ => none) crit constantEntropy
      0).1.subscriber 0 := by
  intro kdf crit
  have hindexed : sample.subscriber.filters.Indexed sampleCrypto := Filters.empty_indexed _
  have hnew : ¬ sample.subscriber.filters.Installed 0 := by decide +kernel
  have hok : (sample.messages sampleCrypto kdf (fun _ => none) crit true constantEntropy 0).2 =
      .ok (hex (List.replicate 32 3)) := by decide +kernel
  have hok' : (sample.newMessageFilter sampleCrypto kdf (fun _ => none) crit constantEntropy 0).2 =
      .ok (hex (List.replicate 32 3)) := by decide +kernel
  obtain ⟨hfilter, hmessages, -⟩ := installs_requested_iff sampleCrypto kdf (fun _ => none) crit
    rfl hindexed hnew hindexed hnew hok hok'
  exact ⟨hmessages.mpr (by simp [crit, sampleCriteria]), hfilter⟩

/-- Two topics: `Messages` makes a filter with the second one twice, so the first one neither leads
to the filter nor is covered by the advertised bits. -/
theorem not_installs_requested :
    let kdf : Pbkdf2 := fun _ _ _ => []
    let crit := sampleCriteria [bytesToTopic [8, 8, 8], bytesToTopic [9, 9, 9]]
    let made := sample.messages sampleCrypto kdf (fun _ => none) crit true constantEntropy 0
    let made' := sample.newMessageFilter sampleCrypto kdf (fun _ => none) crit constantEntropy 0
    made.2 = .ok (hex (List.replicate 32 3)) ∧ made'.2 = .ok (hex (List.replicate 32 3)) ∧
    (made.1.subscriber.filters.heap 0).topics = [[9, 9, 9, 0], [9, 9, 9, 0]] ∧
    (made'.1.subscriber.filters.heap 0).topics = [[8, 8, 8, 0], [9, 9, 9, 0]] ∧
    0 ∉ made.1.subscriber.filters.allTopicsMatcher ∧
    0 ∉ made.1.subscriber.filters.atTopic (bytesToTopic [8, 8, 8]) ∧
    bloomFilterMatch made.1.subscriber.tuning.settings.bloomFilter
      (topicToBloom (bytesToTopic [8, 8, 8])) = false ∧
    ¬ crit.Installs made.1.subscriber 0 := by
  intro kdf crit made made'
  have htopics : (made.1.subscriber.filters.heap 0).topics = [[9, 9, 9, 0], [9, 9, 9, 0]] := by
    decide +kernel
  refine ⟨by decide +kernel, by decide +kernel, htopics, by decide +kernel, by decide +kernel,
    by decide +kernel, by decide +kernel, fun h => ?_⟩
  have hasked := h.topics
  rw [htopics] at hasked
  revert hasked
  decide +kernel

end Api

end Whisperv6
