import Whisperv6.FilterIndex
import Whisperv6.Grace

/-! Subscriptions.  `Subscribe` installs a filter and joins the bits of its topics to the bloom
filter that the node advertises; `Unsubscribe` removes the filter and leaves the bits.  So the
advertised filter only grows, and the tolerated one, an earlier value of it, is never needed.  A
filter without topics takes part in every topic but adds no bits. -/

namespace Whisperv6

open ProofKit

/-! ### The calls -/

/-- The first loop of `updateBloomFilter`: the bits of all topics of a filter. -/
def Filter.aggregate (f : Filter) : Bytes :=
  f.topics.foldl (fun aggregate t => addBloom aggregate (topicToBloom (bytesToTopic t)))
    (List.replicate bloomFilterSize 0)

def Tuning.updateBloomFilter (s : Tuning) (f : Filter) : Tuning :=
  if !bloomFilterMatch s.settings.bloomFilter f.aggregate then
    (s.setBloomFilter (addBloom (s.settings.bloomFilter.getD []) f.aggregate)).1
  else s

/-- The settings and the filters of a node; `subscribed` lists the filters of all `Subscribe` calls
that have succeeded. -/
structure Subscriber where
  tuning : Tuning
  filters : Filters := {}
  subscribed : List Filter := []

namespace Subscriber

def subscribe (C : Crypto) (s : Subscriber) (rnd : Entropy) (r : FilterRef) (f : Filter) :
    Subscriber × Except GoError String :=
  match s.filters.install C rnd r f with
  | (filters, .ok id) =>
    ({ tuning := s.tuning.updateBloomFilter f, filters, subscribed := s.subscribed ++ [f] }, .ok id)
  | (filters, .error err) => ({ s with filters }, .error err)

def unsubscribe (s : Subscriber) (id : String) : Subscriber × Option GoError :=
  match s.filters.uninstall id with
  | (filters, true) => ({ s with filters }, none)
  | (filters, false) => ({ s with filters }, some (newError "Unsubscribe: Invalid ID"))

end Subscriber

inductive SubscribeAction
  | subscribe (rnd : Entropy) (r : FilterRef) (f : Filter)
  | unsubscribe (id : String)
  | storeBloom

/-- One call, or the store of a tolerated filter by the goroutine of an earlier one. -/
def SubscribeStep (C : Crypto) (s : Subscriber) (a : SubscribeAction) (t : Subscriber) : Prop :=
  match a with
  | .subscribe rnd r f => t = (s.subscribe C rnd r f).1
  | .unsubscribe id => t = (s.unsubscribe id).1
  | .storeBloom => t = { s with tuning := s.tuning.storeBloom }

/-- A step updates the settings for a filter that it adds, stores a tolerated value, or leaves the
settings. -/
theorem SubscribeStep.inv {C : Crypto} {s t : Subscriber} {a : SubscribeAction}
    (h : SubscribeStep C s a t) :
    (∃ f, t.tuning = s.tuning.updateBloomFilter f ∧ t.subscribed = s.subscribed ++ [f]) ∨
      (t.tuning = s.tuning ∨ t.tuning = s.tuning.storeBloom) ∧ t.subscribed = s.subscribed := by
  cases a with
  | subscribe rnd r f =>
    subst h
    unfold Subscriber.subscribe
    split
    · exact .inl ⟨f, rfl, rfl⟩
    · exact .inr ⟨.inl rfl, rfl⟩
  | unsubscribe id =>
    subst h
    unfold Subscriber.unsubscribe
    split <;> exact .inr ⟨.inl rfl, rfl⟩
  | storeBloom =>
    subst h
    exact .inr ⟨.inr rfl, rfl⟩

/-! ### The advertised filter grows -/

/-- `new` covers `old`, and is nil exactly when `old` is. -/
def Grows (old new : Option Bytes) : Prop :=
  match old with
  | none => new = none
  | some b => new ≠ none ∧ bloomFilterMatch new b = true

theorem Grows.refl (b : Option Bytes) : Grows b b := by
  cases b with
  | none => rfl
  | some b => exact ⟨by simp, bloomFilterMatch_self b⟩

theorem Grows.matches {old new : Option Bytes} (h : Grows old new) {sample : Bytes}
    (hs : bloomFilterMatch old sample = true) : bloomFilterMatch new sample = true := by
  cases old with
  | none =>
    have hnew : new = none := h
    rw [hnew]
    rfl
  | some b => exact bloomFilterMatch_trans h.2 hs

/-- What `old` matches, `new` matches. -/
def Below (old new : Option Bytes) : Prop :=
  ∀ sample, bloomFilterMatch old sample = true → bloomFilterMatch new sample = true

instance : IsTrans (Option Bytes) Below := ⟨fun _ _ _ hab hbc x hx => hbc x (hab x hx)⟩

theorem Grows.below {old new : Option Bytes} (h : Grows old new) : Below old new :=
  fun _ hs => h.matches hs

theorem foldl_addBloom_match {filter : Option Bytes} (topics : List Bytes) (b : Bytes) :
    bloomFilterMatch filter
        (topics.foldl (fun b t => addBloom b (topicToBloom (bytesToTopic t))) b) = true ↔
      bloomFilterMatch filter b = true ∧
        ∀ t ∈ topics, bloomFilterMatch filter (topicToBloom (bytesToTopic t)) = true := by
  induction topics generalizing b with
  | nil => simp
  | cons t topics ih =>
    rw [List.foldl_cons, ih, bloomFilterMatch_addBloom, and_assoc, List.forall_mem_cons]

theorem bloomFilterMatch_zero (filter : Option Bytes) :
    bloomFilterMatch filter (List.replicate bloomFilterSize 0) = true := by
  cases filter with
  | none => rfl
  | some f =>
    rw [bloomFilterMatch_some]
    intro i _
    rw [getD_replicate_zero]
    exact UInt8.or_zero

/-- A filter matches an aggregate exactly when it matches every topic. -/
theorem Filter.match_aggregate {filter : Option Bytes} (f : Filter) :
    bloomFilterMatch filter f.aggregate = true ↔
      ∀ t ∈ f.topics, bloomFilterMatch filter (topicToBloom (bytesToTopic t)) = true := by
  rw [aggregate, foldl_addBloom_match]
  simp [bloomFilterMatch_zero]

namespace Tuning

/-- The two ends of `updateBloomFilter`: the filter has the bits already, or it is set to the
union. -/
theorem updateBloomFilter_cases (s : Tuning) (f : Filter) :
    (bloomFilterMatch s.settings.bloomFilter f.aggregate = true ∧ s.updateBloomFilter f = s) ∨
      ∃ b, s.settings.bloomFilter = some b ∧
        s.updateBloomFilter f = (s.setBloomFilter (addBloom b f.aggregate)).1 := by
  unfold updateBloomFilter
  cases hmatch : bloomFilterMatch s.settings.bloomFilter f.aggregate with
  | true => exact .inl ⟨rfl, rfl⟩
  | false =>
    cases hbloom : s.settings.bloomFilter with
    | none =>
      rw [hbloom] at hmatch
      cases hmatch
    | some b => exact .inr ⟨b, rfl, by simp⟩

theorem bloomLine_addBloom (s : Tuning) (a b : Bytes) :
    (s.setBloomFilter (addBloom a b)).1.bloomLine =
      { s.bloomLine with
        toLagging := s.bloomLine.toLagging.assign (s.bloomLine.clock + syncAllowance)
          (some (addBloom a b))
        log := s.bloomLine.log ++ [(s.bloomLine.clock, some (addBloom a b))] } :=
  s.bloomLine_setBloomFilter (checkBloomFilter_none.mpr (length_addBloom a b))

theorem bloomFilter_addBloom (s : Tuning) (a b : Bytes) :
    (s.setBloomFilter (addBloom a b)).1.settings.bloomFilter = some (addBloom a b) :=
  congrArg (fun line => line.current) (s.bloomLine_addBloom a b)

theorem updateBloomFilter_grows (s : Tuning) (f : Filter) :
    Grows s.settings.bloomFilter (s.updateBloomFilter f).settings.bloomFilter := by
  rcases s.updateBloomFilter_cases f with ⟨-, heq⟩ | ⟨b, hb, heq⟩
  · rw [heq]
    exact .refl _
  · rw [heq, bloomFilter_addBloom, hb]
    exact ⟨by simp, addBloom_match_left b _⟩

theorem tolerance_updateBloomFilter (s : Tuning) (f : Filter) :
    (s.updateBloomFilter f).settings.bloomFilterTolerance = s.settings.bloomFilterTolerance := by
  rcases s.updateBloomFilter_cases f with ⟨-, heq⟩ | ⟨b, -, heq⟩
  · rw [heq]
  · rw [heq]
    exact congrArg (fun line => line.copied) (s.bloomLine_addBloom b f.aggregate)

theorem updateBloomFilter_covers (s : Tuning) (f : Filter) :
    bloomFilterMatch (s.updateBloomFilter f).settings.bloomFilter f.aggregate = true := by
  rcases s.updateBloomFilter_cases f with ⟨hmatch, heq⟩ | ⟨b, -, heq⟩
  · rw [heq]
    exact hmatch
  · rw [heq, bloomFilter_addBloom]
    exact addBloom_match_right b _

theorem updateBloomFilter_rising {s : Tuning} (h : s.bloomLine.Rising Below) (f : Filter) :
    (s.updateBloomFilter f).bloomLine.Rising Below := by
  rcases s.updateBloomFilter_cases f with ⟨-, heq⟩ | ⟨b, hb, heq⟩
  · rw [heq]
    exact h
  · have hgrows := s.updateBloomFilter_grows f
    rw [heq, bloomFilter_addBloom] at hgrows
    rw [heq, bloomLine_addBloom]
    exact Lagging.Rising.assign h _ hgrows.below (Grows.refl _).below

@[simp] theorem bloomFilter_storeBloom (s : Tuning) :
    s.storeBloom.settings.bloomFilter = s.settings.bloomFilter := by
  unfold storeBloom
  split <;> rfl

end Tuning

/-! ### Runs -/

section Runs

variable {C : Crypto} {s t : Subscriber} {a : SubscribeAction}

theorem SubscribeStep.grows (h : SubscribeStep C s a t) :
    Grows s.tuning.settings.bloomFilter t.tuning.settings.bloomFilter := by
  rcases h.inv with ⟨f, htuning, -⟩ | ⟨htuning | htuning, -⟩
  · rw [htuning]
    exact s.tuning.updateBloomFilter_grows f
  · rw [htuning]
    exact .refl _
  · rw [htuning, Tuning.bloomFilter_storeBloom]
    exact .refl _

theorem SubscribeStep.rising (h : SubscribeStep C s a t) (hs : s.tuning.bloomLine.Rising Below) :
    t.tuning.bloomLine.Rising Below := by
  rcases h.inv with ⟨f, htuning, -⟩ | ⟨htuning | htuning, -⟩
  · rw [htuning]
    exact Tuning.updateBloomFilter_rising hs f
  · rw [htuning]
    exact hs
  · rw [htuning, Tuning.bloomLine_storeBloom]
    exact hs.follow

/-- Every topic of a filter that was subscribed is covered by the advertised filter. -/
def Subscriber.Covered (s : Subscriber) : Prop :=
  ∀ f ∈ s.subscribed, bloomFilterMatch s.tuning.settings.bloomFilter f.aggregate = true

theorem SubscribeStep.covered (h : SubscribeStep C s a t) (hs : s.Covered) : t.Covered := by
  intro f hf
  have hold : f ∈ s.subscribed →
      bloomFilterMatch t.tuning.settings.bloomFilter f.aggregate = true :=
    fun hmem => h.grows.matches (hs f hmem)
  rcases h.inv with ⟨g, htuning, hsub⟩ | ⟨-, hsub⟩
  · rw [hsub, List.mem_append, List.mem_singleton] at hf
    rcases hf with hmem | rfl
    · exact hold hmem
    · rw [htuning]
      exact s.tuning.updateBloomFilter_covers f
  · exact hold (hsub ▸ hf)

end Runs

namespace Subscriber

/-- A node with the settings `settings` and the filters `filters`, with no store pending. -/
def start (settings : Settings) (filters : Filters) : Subscriber :=
  { tuning := { settings, clock := 0 }, filters }

/-- The bloom check of `add`. -/
def Accepts (s : Subscriber) (e : Envelope) : Prop :=
  bloomFilterMatch s.tuning.settings.bloomFilter e.bloom = true ∨
    bloomFilterMatch s.tuning.settings.bloomFilterTolerance e.bloom = true

theorem run_covered {C : Crypto} {tuning : Tuning} {filters : Filters}
    {acts : List SubscribeAction} {s : Subscriber}
    (run : Run (SubscribeStep C) { tuning, filters } acts s) : s.Covered :=
  run.invariant (P := Covered) (by simp [Covered]) fun _ _ _ _ hs hstep => hstep.covered hs

theorem run_rising {C : Crypto} {tuning : Tuning} {filters : Filters}
    (hrising : tuning.bloomLine.Rising Below) {acts : List SubscribeAction} {s : Subscriber}
    (run : Run (SubscribeStep C) { tuning, filters } acts s) :
    s.tuning.bloomLine.Rising Below :=
  run.invariant (P := fun s => s.tuning.bloomLine.Rising Below) hrising
    fun _ _ _ _ hs hstep => hstep.rising hs

/-- Only the store of a tolerated filter takes something away from what the bloom check accepts. -/
theorem accepts_call {C : Crypto} {s t : Subscriber} {a : SubscribeAction}
    (h : SubscribeStep C s a t) (hcall : a ≠ .storeBloom) {e : Envelope} (haccepts : s.Accepts e) :
    t.Accepts e := by
  have htolerated : t.tuning.settings.bloomFilterTolerance =
      s.tuning.settings.bloomFilterTolerance := by
    cases a with
    | subscribe rnd r f =>
      subst h
      unfold subscribe
      split
      · exact Tuning.tolerance_updateBloomFilter s.tuning f
      · rfl
    | unsubscribe id =>
      subst h
      unfold unsubscribe
      split <;> rfl
    | storeBloom => exact absurd rfl hcall
  rcases haccepts with hfilter | htolerance
  · exact .inl (h.grows.matches hfilter)
  · exact .inr (htolerated ▸ htolerance)

/-- Whatever the settings, the pending stores and the filters at the start, along all runs: the
advertised filter only grows; it covers every topic that a subscribed filter lists; what the bloom
check accepts it goes on accepting after every call, and also after every delayed store where the
tolerated and the pending filters were at first covered by the advertised one, each by the next; and
`add` does not reject for a bloom mismatch an envelope of a topic that a subscribed filter lists. -/
theorem topics_stay_covered (C : Crypto) (tuning : Tuning) (filters : Filters)
    {acts : List SubscribeAction} {s : Subscriber}
    (run : Run (SubscribeStep C) { tuning, filters } acts s) :
    (∀ a t, SubscribeStep C s a t →
      Grows s.tuning.settings.bloomFilter t.tuning.settings.bloomFilter) ∧
    (∀ f ∈ s.subscribed, ∀ topic ∈ f.topics,
      bloomFilterMatch s.tuning.settings.bloomFilter (topicToBloom (bytesToTopic topic)) = true) ∧
    (∀ a t, SubscribeStep C s a t → a ≠ .storeBloom ∨ tuning.bloomLine.Rising Below →
      ∀ e, s.Accepts e → t.Accepts e) ∧
    ∀ f ∈ s.subscribed, ∀ topic ∈ f.topics, ∀ (w : Whisper) (now : UInt32) (e : Envelope)
      (isP2P : Bool), w.settings = s.tuning.settings → e.bloom = topicToBloom e.topic →
      e.topic = bytesToTopic topic → (w.add C now e isP2P).2 ≠ .error .noBloomMatch := by
  have hcovers : ∀ f ∈ s.subscribed, ∀ topic ∈ f.topics,
      bloomFilterMatch s.tuning.settings.bloomFilter (topicToBloom (bytesToTopic topic)) = true :=
    fun f hf => f.match_aggregate.mp (run_covered run f hf)
  refine ⟨fun a t h => h.grows, hcovers, fun a t hstep hkept e haccepts => ?_, ?_⟩
  · rcases hkept with hcall | hrising
    · exact accepts_call hstep hcall haccepts
    · have htolerated := (run_rising hrising run).copied_le
      exact .inl (hstep.grows.matches (haccepts.elim id (htolerated _)))
  · intro f hf topic htopic w now e isP2P hw hbloom he herr
    have hno := (Settings.check_noBloomMatch (Whisper.add_error_iff.mp herr)).1
    rw [hw, hbloom, he, hcovers f hf topic htopic] at hno
    cases hno

/-- A node that has just set an empty bloom filter: every filter is tolerated until the goroutine of
the call stores the empty one. -/
def closingTuning : Tuning :=
  ((Tuning.start {} 0).setBloomFilter (List.replicate bloomFilterSize 0)).1

/-- The settings of a node that has set an empty bloom filter. -/
def closedSettings : Settings := closingTuning.storeBloom.settings

theorem topics_stay_covered_sample :
    let s := (start closedSettings {}).subscribe sampleCrypto constantEntropy 0 Filters.sampleFilter
    sampleEnvelope.topic = bytesToTopic [1, 2, 3, 4, 5] ∧
    bloomFilterMatch s.1.tuning.settings.bloomFilter (topicToBloom (bytesToTopic [9])) = true ∧
    (s.1.Accepts sampleEnvelope →
      { s.1 with tuning := s.1.tuning.storeBloom }.Accepts sampleEnvelope) ∧
    ({ new {} with settings := s.1.tuning.settings }.add sampleCrypto 1600000000 sampleEnvelope
      false).2 ≠ .error .noBloomMatch := by
  intro s
  have run : Run (SubscribeStep sampleCrypto) (start closedSettings {})
      [.subscribe constantEntropy 0 Filters.sampleFilter] s.1 := .cons rfl (.nil _)
  have hmem : Filters.sampleFilter ∈ s.1.subscribed := by decide +kernel
  have hrising : (start closedSettings {}).tuning.bloomLine.Rising Below := by
    refine List.pairwise_pair.mpr fun sample h => ?_
    exact h
  obtain ⟨-, hcovers, haccepts, hadd⟩ :=
    topics_stay_covered sampleCrypto (start closedSettings {}).tuning {} run
  exact ⟨by decide +kernel, hcovers _ hmem [9] (by decide),
    haccepts .storeBloom _ rfl (.inr hrising) _,
    hadd _ hmem [1, 2, 3, 4, 5] (by decide) _ _ _ _ rfl rfl (by decide +kernel)⟩

/-- The delayed store of the node that has just set an empty bloom filter takes back what the bloom
check accepted before. -/
theorem tolerated_then_refused :
    Run (SubscribeStep sampleCrypto) { tuning := closingTuning } [] { tuning := closingTuning } ∧
    SubscribeStep sampleCrypto { tuning := closingTuning } .storeBloom
      { tuning := closingTuning.storeBloom } ∧
    Accepts { tuning := closingTuning } sampleEnvelope ∧
    ¬ Accepts { tuning := closingTuning.storeBloom } sampleEnvelope ∧
    ({ new {} with settings := closingTuning.settings }.add sampleCrypto 1600000000 sampleEnvelope
      false).2 = .ok true ∧
    ({ new {} with settings := closingTuning.storeBloom.settings }.add sampleCrypto 1600000000
      sampleEnvelope false).2 = .error .noBloomMatch := by
  refine ⟨.nil _, rfl, .inr rfl, ?_, by decide +kernel, by decide +kernel⟩
  unfold Accepts
  decide +kernel

/-! ### Filters without topics -/

theorem subscribe_ok {C : Crypto} {s : Subscriber} {rnd : Entropy} {r : FilterRef} {f : Filter}
    {id : String} (h : (s.subscribe C rnd r f).2 = .ok id) :
    (s.subscribe C rnd r f).1.tuning = s.tuning.updateBloomFilter f ∧
      (s.subscribe C rnd r f).1.filters = s.filters.enlist id r (f.register C id) := by
  rcases s.filters.install_cases C rnd r f with ⟨err, heq⟩ | ⟨id', -, -, heq⟩
  · simp only [subscribe, heq] at h
    cases h
  · have hcall : s.subscribe C rnd r f =
        ({ tuning := s.tuning.updateBloomFilter f
           filters := s.filters.enlist id' r (f.register C id')
           subscribed := s.subscribed ++ [f] }, .ok id') := by
      simp only [subscribe, heq]
    rw [hcall] at h ⊢
    cases h
    exact ⟨rfl, rfl⟩

end Subscriber

/-- An envelope that expires now, with TTL 0: its proof of work is infinite. -/
def probe (topic : TopicType) (data : Bytes) (now : UInt32) : Envelope where
  expiry := now
  ttl := 0
  topic
  data
  nonce := 0

theorem check_probe (C : Crypto) {s : Settings} (now : UInt32) {topic : TopicType} {data : Bytes}
    (hsize : UInt32.ofNat (probe topic data now).size ≤ s.maxMsgSize)
    (hfilter : bloomFilterMatch s.bloomFilter (topicToBloom topic) = false)
    (htolerated : bloomFilterMatch s.bloomFilterTolerance (topicToBloom topic) = false) :
    s.check C now (probe topic data now) = .error .noBloomMatch := by
  have hsent : ¬ now < now - (0 : UInt32) := by simp
  have hexpiry : ¬ (probe topic data now).expiry < now := UInt32.lt_irrefl now
  have hadjust : (probe topic data now).adjust C now = probe topic data now := if_neg hsent
  have hpow : (probe topic data now).pow C = .inf false :=
    Envelope.powOf_zero C.float (Envelope.leadingZeros_le C _ _)
      (probe topic data now).length_rlpWithoutNonce_pos
  have hinf : ∀ v : FloatVal, (FloatVal.inf false).lt v = false := by
    intro v
    cases v <;> rfl
  have hbloom : (probe topic data now).bloom = topicToBloom topic := rfl
  unfold Settings.check
  dsimp only
  rw [hadjust, hpow, hinf, hbloom, hfilter, htolerated, if_neg fun h => hsent h.1,
    if_neg hexpiry, if_neg (UInt32.not_lt.mpr hsize)]
  rfl

namespace Subscriber

/-- After `Subscribe` of a filter without topics, which then takes part in every topic: no envelope
is rejected for a bloom mismatch exactly when no topic falls into a gap of the advertised and the
tolerated filter; for a settled node, exactly when its filter is nil or full. -/
theorem wildcard_iff (C : Crypto) (s : Subscriber) (rnd : Entropy) (r : FilterRef) (f : Filter)
    (hf : f.topics = []) {id : String} (hok : (s.subscribe C rnd r f).2 = .ok id) :
    let t := (s.subscribe C rnd r f).1
    let AllAccepted := ∀ (w : Whisper) (now : UInt32) (e : Envelope) (isP2P : Bool),
      w.settings = t.tuning.settings → e.bloom = topicToBloom e.topic →
      (w.add C now e isP2P).2 ≠ .error .noBloomMatch
    (∀ topic order, t.filters.WatcherOrder topic order → r ∈ order) ∧
    (AllAccepted ↔
      ¬TopicGap s.tuning.settings.bloomFilter s.tuning.settings.bloomFilterTolerance) ∧
    (s.tuning.settings.bloomFilterTolerance = s.tuning.settings.bloomFilter →
      (AllAccepted ↔ bloomFilterMatch s.tuning.settings.bloomFilter makeFullNodeBloom = true)) := by
  intro t AllAccepted
  obtain ⟨htuning, hfilters⟩ := subscribe_ok hok
  -- the aggregate of no topics is covered by every filter
  have hsame : t.tuning = s.tuning := by
    have hmatch : bloomFilterMatch s.tuning.settings.bloomFilter f.aggregate = true := by
      rw [f.match_aggregate, hf]
      simp
    exact htuning.trans (if_neg (by simp [hmatch]))
  have hiff : AllAccepted ↔
      ¬TopicGap s.tuning.settings.bloomFilter s.tuning.settings.bloomFilterTolerance := by
    rw [topicGap_iff]
    constructor
    · rintro hall ⟨topic, hfilter, htolerated⟩
      -- with this length of the data the size wraps to 0 and passes every limit
      obtain ⟨data, hdata⟩ : ∃ data : Bytes, data.length = 2 ^ 32 - envelopeHeaderLength :=
        ⟨List.replicate _ 0, List.length_replicate⟩
      let e := probe topic data 0
      have hsize : UInt32.ofNat e.size ≤ t.tuning.settings.maxMsgSize := by
        have hwrap : e.size = 2 ^ 32 := by
          show envelopeHeaderLength + data.length = 2 ^ 32
          rw [hdata]
          decide
        rw [hwrap]
        exact UInt32.zero_le
      have hcheck : t.tuning.settings.check C 0 e = .error .noBloomMatch :=
        check_probe C 0 hsize (hsame ▸ hfilter) (hsame ▸ htolerated)
      refine hall { new {} with settings := t.tuning.settings } 0 e false rfl rfl ?_
      rw [Whisper.add, hcheck]
    · intro hgap w now e isP2P hw hbloom herr
      have hno := Settings.check_noBloomMatch (Whisper.add_error_iff.mp herr)
      rw [hw, hbloom, hsame] at hno
      exact hgap ⟨e.topic, hno⟩
  refine ⟨?_, hiff, fun hsettled => ?_⟩
  · rintro topic order ⟨all, listed, hall, -, rfl⟩
    have hmem : r ∈ t.filters.allTopicsMatcher := by
      rw [hfilters, Filters.mem_enlist_all]
      exact .inl ⟨rfl, hf⟩
    exact List.mem_append_left _ (hall.mem.mpr hmem)
  · rw [hiff, hsettled, topicGap_self, Bool.not_eq_false]

/-- A node that has set the full bloom filter. -/
def fullNode : Subscriber :=
  start ((Tuning.start {} 0).setBloomFilter makeFullNodeBloom).1.storeBloom.settings {}

theorem wildcard_iff_sample :
    let t := (fullNode.subscribe sampleCrypto constantEntropy 0 {}).1
    ∀ (now : UInt32) (e : Envelope) (isP2P : Bool), e.bloom = topicToBloom e.topic →
      ({ new {} with settings := t.tuning.settings }.add sampleCrypto now e isP2P).2 ≠
        .error .noBloomMatch := by
  intro t now e isP2P he
  have hok : (fullNode.subscribe sampleCrypto constantEntropy 0 {}).2 =
      .ok (hex (List.replicate 32 3)) := by decide +kernel
  obtain ⟨-, -, hsettled⟩ := wildcard_iff sampleCrypto fullNode constantEntropy 0 {} rfl hok
  exact (hsettled (by decide +kernel)).mpr (by decide +kernel) _ now e isP2P rfl he

/-- A filter without topics on the node with the empty bloom filter: every topic leads to the
filter, but the envelope is rejected before. -/
theorem wildcard_rejected :
    let s := (start closedSettings {}).subscribe sampleCrypto constantEntropy 0 {}
    s.2 = .ok (hex (List.replicate 32 3)) ∧ s.1.filters.allTopicsMatcher = {0} ∧
    sampleEnvelope.bloom = topicToBloom sampleEnvelope.topic ∧
    ({ new {} with settings := s.1.tuning.settings }.add sampleCrypto 1600000000 sampleEnvelope
      false).2 = .error .noBloomMatch := by
  decide +kernel

end Subscriber

end Whisperv6
