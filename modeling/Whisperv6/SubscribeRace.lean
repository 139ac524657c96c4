import Whisperv6.Subscription

/-! `Subscribe` calls that run concurrently.  `updateBloomFilter` loads the advertised filter,
compares it, loads it again and stores the union with its own bits, with no lock across these steps.
A store that another call's store has overtaken writes back a filter without the other call's
bits. -/

namespace Whisperv6

open ProofKit

/-! ### The steps of a call -/

/-- Where a `Subscribe` call is: the filter is installed; the advertised filter lacks some of the
bits; it was loaded again; the call has returned. -/
inductive CallState
  | installed
  | mismatched
  | loaded (bloom : Bytes)
  | returned
  deriving DecidableEq

structure Call where
  filter : Filter
  state : CallState
  deriving DecidableEq

/-- A node with the `Subscribe` calls in progress or done. -/
structure Race where
  node : Subscriber
  calls : Nat → Option Call := fun _ => none

inductive RaceAction
  | install (i : Nat) (rnd : Entropy) (r : FilterRef) (f : Filter)
  | compare (i : Nat)
  | load (i : Nat)
  | store (i : Nat)
  | storeBloom

namespace Race

def bloom (s : Race) : Option Bytes := s.node.tuning.settings.bloomFilter

def setCall (s : Race) (i : Nat) (c : Call) : Race :=
  { s with calls := Function.update s.calls i (some c) }

/-- One atomic step, `none` when it is not the turn of the call. -/
def apply (C : Crypto) (s : Race) : RaceAction → Option Race
  | .install i rnd r f =>
    match s.calls i, s.node.filters.install C rnd r f with
    | some _, _ => none
    | none, (filters, .ok _) =>
      some ({ s with
        node.filters := filters
        node.subscribed := s.node.subscribed ++ [f] }.setCall i ⟨f, .installed⟩)
    | none, (filters, .error _) => some { s with node.filters := filters }
  | .compare i =>
    match s.calls i with
    | some ⟨f, .installed⟩ =>
      some (s.setCall i
        ⟨f, if bloomFilterMatch s.bloom f.aggregate then .returned else .mismatched⟩)
    | _ => none
  | .load i =>
    match s.calls i with
    | some ⟨f, .mismatched⟩ => some (s.setCall i ⟨f, .loaded (s.bloom.getD [])⟩)
    | _ => none
  | .store i =>
    match s.calls i with
    | some ⟨f, .loaded b⟩ =>
      some ({ s with
        node.tuning := (s.node.tuning.setBloomFilter (addBloom b f.aggregate)).1 }.setCall i
          ⟨f, .returned⟩)
    | _ => none
  | .storeBloom => some { s with node.tuning := s.node.tuning.storeBloom }

/-- The union that the call `i` is about to store covers the filter that it replaces. -/
def keeps (s : Race) (i : Nat) : Bool :=
  match s.calls i, s.bloom with
  | some ⟨f, .loaded b⟩, some current =>
    bloomFilterMatch (some (addBloom b f.aggregate)) current
  | _, _ => true

/-- `apply`, refusing a store that does not cover the filter that it replaces. -/
def applyKeeping (C : Crypto) (s : Race) : RaceAction → Option Race
  | .store i => if s.keeps i then s.apply C (.store i) else none
  | a => s.apply C a

end Race

def RaceStep (C : Crypto) (s : Race) (a : RaceAction) (t : Race) : Prop := s.apply C a = some t

/-- One step, where a store covers the filter that it replaces. -/
def KeepingStep (C : Crypto) (s : Race) (a : RaceAction) (t : Race) : Prop :=
  s.applyKeeping C a = some t

theorem keepingStep_iff {C : Crypto} {s t : Race} {a : RaceAction} :
    KeepingStep C s a t ↔ RaceStep C s a t ∧ ∀ i, a = .store i → s.keeps i = true := by
  cases a with
  | store i => simp [KeepingStep, RaceStep, Race.applyKeeping, and_comm]
  | _ => simp [KeepingStep, RaceStep, Race.applyKeeping]

theorem RaceStep.store_eq {C : Crypto} {s t : Race} {i : Nat} (h : RaceStep C s (.store i) t) :
    ∃ f b, s.calls i = some ⟨f, .loaded b⟩ ∧ t.bloom = some (addBloom b f.aggregate) ∧
      t.calls = (s.setCall i ⟨f, .returned⟩).calls := by
  unfold RaceStep at h
  simp only [Race.apply] at h
  split at h
  · rename_i f b hcall
    cases h
    exact ⟨f, b, hcall, Tuning.bloomFilter_addBloom _ _ _, rfl⟩
  · cases h

/-- A step leaves the calls and the filter; moves one call that has not returned and leaves the
filter; or stores the union of a call. -/
theorem RaceStep.inv {C : Crypto} {s t : Race} {a : RaceAction} (h : RaceStep C s a t) :
    (t.calls = s.calls ∧ t.bloom = s.bloom) ∨
    (∃ i c, (∀ f, s.calls i ≠ some ⟨f, .returned⟩) ∧ t.calls = (s.setCall i c).calls ∧
      t.bloom = s.bloom ∧
      (c.state = .returned → bloomFilterMatch s.bloom c.filter.aggregate = true) ∧
      ∀ b, c.state = .loaded b → b = s.bloom.getD []) ∨
    ∃ i f b, a = .store i ∧ s.calls i = some ⟨f, .loaded b⟩ ∧
      t.calls = (s.setCall i ⟨f, .returned⟩).calls ∧
      t.bloom = some (addBloom b f.aggregate) := by
  cases a with
  | install i rnd r f =>
    unfold RaceStep at h
    simp only [Race.apply] at h
    split at h
    · cases h
    · rename_i hnone _
      cases h
      exact .inr (.inl ⟨i, ⟨f, .installed⟩, by simp [hnone], rfl, rfl, by simp, by simp⟩)
    · cases h
      exact .inl ⟨rfl, rfl⟩
  | compare i =>
    unfold RaceStep at h
    simp only [Race.apply] at h
    split at h
    · rename_i f hcall
      cases h
      refine .inr (.inl ⟨i, _, by simp [hcall], rfl, rfl, ?_, ?_⟩)
      · simp
      · intro b
        dsimp only
        split <;> simp
    · cases h
  | load i =>
    unfold RaceStep at h
    simp only [Race.apply] at h
    split at h
    · rename_i f hcall
      cases h
      exact .inr (.inl ⟨i, _, by simp [hcall], rfl, rfl, by simp, by simp⟩)
    · cases h
  | store i =>
    obtain ⟨f, b, hcall, hstored, hcalls⟩ := h.store_eq
    exact .inr (.inr ⟨i, f, b, rfl, hcall, hcalls, hstored⟩)
  | storeBloom =>
    cases h
    exact .inl ⟨rfl, Tuning.bloomFilter_storeBloom _⟩

/-! ### Unions -/

/-- `g` covers the filter `b₀` and the bits of every call that has returned. -/
def Above (b₀ : Bytes) (calls : Nat → Option Call) (g : Option Bytes) : Prop :=
  bloomFilterMatch g b₀ = true ∧
    ∀ i f, calls i = some ⟨f, .returned⟩ → bloomFilterMatch g f.aggregate = true

/-- The filter `current` is the union of `b₀` and the bits of the calls that have returned, and what
a call has loaded lies between `b₀` and that union. -/
structure Joined (b₀ current : Bytes) (calls : Nat → Option Call) : Prop where
  above : Above b₀ calls (some current)
  least : ∀ g, Above b₀ calls g → bloomFilterMatch g current = true
  loaded : ∀ i f b, calls i = some ⟨f, .loaded b⟩ →
    bloomFilterMatch (some b) b₀ = true ∧ ∀ g, Above b₀ calls g → bloomFilterMatch g b = true

section Joined

variable {b₀ current : Bytes} {calls : Nat → Option Call} {i : Nat} {c : Call}

/-- A call that has not returned may move: what covers the calls afterwards covered them before. -/
theorem Above.of_update {g : Option Bytes} (hi : ∀ f, calls i ≠ some ⟨f, .returned⟩)
    (h : Above b₀ (Function.update calls i (some c)) g) : Above b₀ calls g := by
  refine ⟨h.1, fun j f hj => h.2 j f ?_⟩
  rw [Function.update_of_ne, hj]
  intro hij
  exact hi f (hij ▸ hj)

theorem Joined.update (h : Joined b₀ current calls) (hi : ∀ f, calls i ≠ some ⟨f, .returned⟩)
    (hreturned : c.state = .returned → bloomFilterMatch (some current) c.filter.aggregate = true)
    (hloaded : ∀ b, c.state = .loaded b → b = current) :
    Joined b₀ current (Function.update calls i (some c)) := by
  have hof : ∀ g, Above b₀ (Function.update calls i (some c)) g → Above b₀ calls g :=
    fun g => Above.of_update hi
  refine ⟨⟨h.above.1, fun j f hj => ?_⟩, fun g hg => h.least g (hof g hg), fun j f b hj => ?_⟩
  · rcases update_some_iff.mp hj with ⟨-, rfl⟩ | ⟨-, hj⟩
    · exact hreturned rfl
    · exact h.above.2 j f hj
  · rcases update_some_iff.mp hj with ⟨-, rfl⟩ | ⟨-, hj⟩
    · obtain rfl : b = current := hloaded b rfl
      exact ⟨h.above.1, fun g hg => h.least g (hof g hg)⟩
    · obtain ⟨hstart, hleast⟩ := h.loaded j f b hj
      exact ⟨hstart, fun g hg => hleast g (hof g hg)⟩

theorem Joined.store {f : Filter} {b : Bytes} (h : Joined b₀ current calls)
    (hi : calls i = some ⟨f, .loaded b⟩)
    (hkeeps : bloomFilterMatch (some (addBloom b f.aggregate)) current = true) :
    Joined b₀ (addBloom b f.aggregate) (Function.update calls i (some ⟨f, .returned⟩)) := by
  have hof : ∀ g, Above b₀ (Function.update calls i (some ⟨f, .returned⟩)) g → Above b₀ calls g :=
    fun g => Above.of_update (by simp [hi])
  obtain ⟨hstart, hleast⟩ := h.loaded i f b hi
  refine ⟨⟨bloomFilterMatch_trans hkeeps h.above.1, fun j f' hj => ?_⟩, fun g hg => ?_,
    fun j f' b' hj => ?_⟩
  · rcases update_some_iff.mp hj with ⟨-, heq⟩ | ⟨-, hj⟩
    · cases heq
      exact addBloom_match_right b _
    · exact bloomFilterMatch_trans hkeeps (h.above.2 j f' hj)
  · exact bloomFilterMatch_addBloom.mpr
      ⟨hleast g (hof g hg), hg.2 i f (Function.update_self ..)⟩
  · rcases update_some_iff.mp hj with ⟨-, heq⟩ | ⟨-, hj⟩
    · cases heq
    · obtain ⟨hstart', hleast'⟩ := h.loaded j f' b' hj
      exact ⟨hstart', fun g hg => hleast' g (hof g hg)⟩

end Joined

/-! ### Runs -/

namespace Race

/-- A node with the settings `settings` and the filters `filters`, and no calls yet. -/
def start (settings : Settings) (filters : Filters) : Race := { node := .start settings filters }

/-- The advertised filter covers every topic of every call that has returned. -/
def AllCovered (s : Race) : Prop :=
  ∀ i f, s.calls i = some ⟨f, .returned⟩ → ∀ topic ∈ f.topics,
    bloomFilterMatch s.bloom (topicToBloom (bytesToTopic topic)) = true

theorem allCovered_iff {s : Race} : s.AllCovered ↔
    ∀ i f, s.calls i = some ⟨f, .returned⟩ → bloomFilterMatch s.bloom f.aggregate = true := by
  constructor
  · exact fun h i f hi => f.match_aggregate.mpr (h i f hi)
  · exact fun h i f hi => f.match_aggregate.mp (h i f hi)

theorem step_joined {C : Crypto} {b₀ : Bytes} {s t : Race} {a : RaceAction}
    (h : KeepingStep C s a t) (hs : ∃ current, s.bloom = some current ∧ Joined b₀ current s.calls) :
    ∃ current, t.bloom = some current ∧ Joined b₀ current t.calls := by
  obtain ⟨current, hbloom, hjoined⟩ := hs
  obtain ⟨hstep, hkeeps⟩ := keepingStep_iff.mp h
  rcases hstep.inv with ⟨hcalls, hsame⟩ | ⟨i, c, hi, hcalls, hsame, hreturned, hloaded⟩ |
    ⟨i, f, b, ha, hcall, hcalls, hstored⟩
  · exact ⟨current, hsame.trans hbloom, hcalls ▸ hjoined⟩
  · rw [hbloom] at hreturned hloaded
    refine ⟨current, hsame.trans hbloom, ?_⟩
    rw [hcalls]
    exact hjoined.update hi hreturned hloaded
  · refine ⟨_, hstored, ?_⟩
    rw [hcalls]
    refine hjoined.store hcall ?_
    simpa only [keeps, hcall, hbloom] using hkeeps i ha

theorem run_joined {C : Crypto} {settings : Settings} {filters : Filters} {b₀ : Bytes}
    (hb₀ : settings.bloomFilter = some b₀) {acts : List RaceAction} {s : Race}
    (run : Run (KeepingStep C) (start settings filters) acts s) :
    ∃ current, s.bloom = some current ∧ Joined b₀ current s.calls := by
  refine run.invariant (P := fun s => ∃ current, s.bloom = some current ∧
    Joined b₀ current s.calls) ⟨b₀, hb₀, ?_⟩ fun _ _ _ _ hs hstep => step_joined hstep hs
  refine ⟨⟨bloomFilterMatch_self b₀, fun i f hi => ?_⟩, fun g hg => hg.1, fun i f b hi => ?_⟩
  · cases hi
  · cases hi

/-- As long as every store has covered the filter that it replaced, the topics of all calls that
have returned are covered; and the next store keeps them covered exactly when it covers the filter
that it replaces. -/
theorem no_bits_lost_iff (C : Crypto) (settings : Settings) (filters : Filters) {b₀ : Bytes}
    (hb₀ : settings.bloomFilter = some b₀) {acts : List RaceAction} {s : Race}
    (run : Run (KeepingStep C) (start settings filters) acts s) :
    s.AllCovered ∧ ∀ i t, RaceStep C s (.store i) t → (t.AllCovered ↔ s.keeps i = true) := by
  obtain ⟨current, hbloom, hjoined⟩ := run_joined hb₀ run
  refine ⟨allCovered_iff.mpr (hbloom ▸ hjoined.above.2), fun i t hstep => ?_⟩
  constructor
  · intro hall
    obtain ⟨f, b, hcall, hstored, hcalls⟩ := hstep.store_eq
    obtain ⟨hstart, -⟩ := hjoined.loaded i f b hcall
    simp only [keeps, hcall, hbloom]
    -- the stored union covers the start and the calls that had returned, so it covers their union
    refine hjoined.least _ ⟨bloomFilterMatch_trans (addBloom_match_left b _) hstart, ?_⟩
    intro j g hj
    have hji : j ≠ i := by
      intro hji
      rw [hji, hcall] at hj
      cases hj
    have hj' : t.calls j = some ⟨g, .returned⟩ := by
      rw [hcalls]
      exact update_some_iff.mpr (.inr ⟨hji, hj⟩)
    rw [← hstored]
    exact allCovered_iff.mp hall j g hj'
  · intro hkeeps
    have hkeeping : KeepingStep C s (.store i) t := by
      refine keepingStep_iff.mpr ⟨hstep, fun j hj => ?_⟩
      cases hj
      exact hkeeps
    obtain ⟨after, hafter, hjoined'⟩ := step_joined hkeeping ⟨current, hbloom, hjoined⟩
    exact allCovered_iff.mpr (hafter ▸ hjoined'.above.2)

/-- A call whose steps are not interleaved with others is the sequential `Subscribe`. -/
theorem subscribe_alone (C : Crypto) (s : Race) {i : Nat} (hi : s.calls i = none) (rnd : Entropy)
    (r : FilterRef) (f : Filter) :
    ∃ acts t, Run (RaceStep C) s acts t ∧ t.node = (s.node.subscribe C rnd r f).1 := by
  rcases s.node.filters.install_cases C rnd r f with ⟨err, heq⟩ | ⟨id, -, -, heq⟩
  · refine ⟨[.install i rnd r f], s, .cons ?_ (.nil _), ?_⟩
    · simp [RaceStep, apply, hi, heq]
    · simp [Subscriber.subscribe, heq]
  · let s₁ : Race :=
      { s with
        node.filters := s.node.filters.enlist id r (f.register C id)
        node.subscribed := s.node.subscribed ++ [f] }.setCall i ⟨f, .installed⟩
    have hinstall : RaceStep C s (.install i rnd r f) s₁ := by simp [RaceStep, apply, hi, heq, s₁]
    have hcall : s₁.calls i = some ⟨f, .installed⟩ := Function.update_self ..
    have hnode : (s.node.subscribe C rnd r f).1 =
        { s₁.node with tuning := s₁.node.tuning.updateBloomFilter f } := by
      simp only [Subscriber.subscribe, heq]
      rfl
    rw [hnode, Tuning.updateBloomFilter]
    cases hmatch : bloomFilterMatch s₁.bloom f.aggregate with
    | true =>
      refine ⟨[.install i rnd r f, .compare i], s₁.setCall i ⟨f, .returned⟩,
        .cons hinstall (.cons ?_ (.nil _)), ?_⟩
      · simp [RaceStep, apply, hcall, hmatch]
      · rw [if_neg (by simpa [bloom] using hmatch)]
        rfl
    | false =>
      let s₂ := s₁.setCall i ⟨f, .mismatched⟩
      let s₃ := s₂.setCall i ⟨f, .loaded (s₂.bloom.getD [])⟩
      have hcompare : RaceStep C s₁ (.compare i) s₂ := by
        simp [RaceStep, apply, hcall, hmatch, s₂]
      have hload : RaceStep C s₂ (.load i) s₃ := by
        have hcall₂ : s₂.calls i = some ⟨f, .mismatched⟩ := Function.update_self ..
        simp [RaceStep, apply, hcall₂, s₃]
      have hcall₃ : s₃.calls i = some ⟨f, .loaded (s₂.bloom.getD [])⟩ := Function.update_self ..
      let s₄ : Race :=
        { s₃ with
          node.tuning := (s₃.node.tuning.setBloomFilter
            (addBloom (s₂.bloom.getD []) f.aggregate)).1 }.setCall i ⟨f, .returned⟩
      have hstore : RaceStep C s₃ (.store i) s₄ := by simp [RaceStep, apply, hcall₃, s₄]
      refine ⟨[.install i rnd r f, .compare i, .load i, .store i], s₄,
        .cons hinstall (.cons hcompare (.cons hload (.cons hstore (.nil _)))), ?_⟩
      rw [if_pos (by simpa [bloom] using hmatch)]
      rfl

/-- A filter that lists one topic. -/
def topicFilter (topic : Bytes) : Filter := { topics := [topic] }

/-- Two calls load the empty filter one after the other and then store: the second store drops the
bits of the first call. -/
def lostActions : List RaceAction :=
  [.install 0 (idEntropy 1) 0 (topicFilter [1, 2, 3, 4]),
    .install 1 (idEntropy 4) 1 (topicFilter [9]), .compare 0, .load 0, .compare 1, .load 1,
    .store 0, .store 1]

theorem lostActions_isSome :
    (lostActions.foldlM (apply sampleCrypto) (start Subscriber.closedSettings {})).isSome := by
  decide +kernel

/-- Both calls have returned, and the topic of the first is not covered. -/
theorem bits_lost :
    ∃ s, Run (RaceStep sampleCrypto) (start Subscriber.closedSettings {}) lostActions s ∧
      s.calls 0 = some ⟨topicFilter [1, 2, 3, 4], .returned⟩ ∧
      s.calls 1 = some ⟨topicFilter [9], .returned⟩ ∧
      bloomFilterMatch s.bloom (topicToBloom (bytesToTopic [1, 2, 3, 4])) = false := by
  refine ⟨_, Run.of_foldlM (fun _ _ _ h => h) (Option.some_get lostActions_isSome).symm, ?_⟩
  decide +kernel

/-- Two calls compare with the empty filter, but the second one loads it after the store of the
first; its store is still to come. -/
def keptActions : List RaceAction :=
  [.install 0 (idEntropy 1) 0 (topicFilter [1, 2, 3, 4]),
    .install 1 (idEntropy 4) 1 (topicFilter [9]), .compare 1, .compare 0, .load 0, .store 0,
    .load 1]

theorem keptActions_store_isSome :
    ((keptActions.foldlM (applyKeeping sampleCrypto) (start Subscriber.closedSettings {})).bind
      (apply sampleCrypto · (.store 1))).isSome := by
  decide +kernel

/-- The store of the second call covers the filter that it replaces, so that the topics of both
calls are covered when both have returned. -/
theorem no_bits_lost_iff_sample :
    ∃ s t, Run (KeepingStep sampleCrypto) (start Subscriber.closedSettings {}) keptActions s ∧
      RaceStep sampleCrypto s (.store 1) t ∧ s.AllCovered ∧ s.keeps 1 = true ∧
      t.calls 0 = some ⟨topicFilter [1, 2, 3, 4], .returned⟩ ∧
      t.calls 1 = some ⟨topicFilter [9], .returned⟩ ∧ t.AllCovered := by
  obtain ⟨t, ht⟩ := Option.isSome_iff_exists.mp keptActions_store_isSome
  obtain ⟨s, hs, hstore⟩ := Option.bind_eq_some_iff.mp ht
  have run : Run (KeepingStep sampleCrypto) (start Subscriber.closedSettings {}) keptActions s :=
    .of_foldlM (fun _ _ _ h => h) hs
  obtain ⟨hcovered, hiff⟩ := no_bits_lost_iff sampleCrypto Subscriber.closedSettings {} rfl run
  have hkeeps : s.keeps 1 = true := by
    have heval : ∀ s ∈ keptActions.foldlM (applyKeeping sampleCrypto)
        (start Subscriber.closedSettings {}), s.keeps 1 = true := by decide +kernel
    exact heval s hs
  have hcalls : ∀ t ∈ (keptActions.foldlM (applyKeeping sampleCrypto)
      (start Subscriber.closedSettings {})).bind (apply sampleCrypto · (.store 1)),
      t.calls 0 = some ⟨topicFilter [1, 2, 3, 4], .returned⟩ ∧
      t.calls 1 = some ⟨topicFilter [9], .returned⟩ := by decide +kernel
  obtain ⟨hzero, hone⟩ := hcalls t ht
  exact ⟨s, t, run, hstore, hcovered, hkeeps, hzero, hone, (hiff 1 t hstore).mpr hkeeps⟩

end Race

end Whisperv6
