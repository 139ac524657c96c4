import Whisperv6.Pool
import Whisperv6.ProofKit.Lagging

/-! The proof of work and the bloom filter that a node requires of envelopes, and the older values
of both that it still tolerates.  A setter stores the new value at once, and a goroutine stores it
as the tolerated value when the allowance for synchronization is over. -/

namespace Whisperv6

open ProofKit

/-! ### The setters -/

/-- The check of `SetMinimumPoW`, with its error. -/
def checkMinimumPoW (val : Float64) : Option GoError :=
  if val.value.lt .zero then some (newError ("invalid PoW: " ++ val.value.format)) else none

/-- The check of `SetBloomFilter`, with its error. -/
def checkBloomFilter (bloom : Bytes) : Option GoError :=
  if bloom.length ≠ bloomFilterSize then
    some (newError ("invalid bloom filter size: " ++ toString bloom.length))
  else none

theorem checkBloomFilter_none {bloom : Bytes} :
    checkBloomFilter bloom = none ↔ bloom.length = bloomFilterSize := by
  simp [checkBloomFilter]

/-- The field `syncAllowance` as `New` sets it, in seconds. -/
def syncAllowance : ℚ := defaultSyncAllowance.toNat

/-- The settings of a node at the time `clock`.  `powStores` and `bloomStores` are the stores of
tolerated values that the goroutines of the setters have still to make, with their times; `powCalls`
and `bloomCalls` are the calls of the setters that succeeded, with theirs. -/
structure Tuning where
  settings : Settings
  clock : ℚ
  powStores : List (ℚ × Float64) := []
  bloomStores : List (ℚ × Option Bytes) := []
  powCalls : List (ℚ × Float64) := []
  bloomCalls : List (ℚ × Option Bytes) := []

namespace Tuning

/-- The node that `New` returns at the time `t₀`. -/
def start (cfg : Config) (t₀ : ℚ) : Tuning := { settings := (new cfg).settings, clock := t₀ }

def setMinimumPoW (s : Tuning) (val : Float64) : Tuning × Option GoError :=
  match checkMinimumPoW val with
  | some err => (s, some err)
  | none =>
    ({ s with
        settings.minPow := some val
        powStores := s.powStores ++ [(s.clock + syncAllowance, val)]
        powCalls := s.powCalls ++ [(s.clock, val)] }, none)

def setBloomFilter (s : Tuning) (bloom : Bytes) : Tuning × Option GoError :=
  match checkBloomFilter bloom with
  | some err => (s, some err)
  | none =>
    ({ s with
        settings.bloomFilter := some bloom
        bloomStores := s.bloomStores ++ [(s.clock + syncAllowance, some bloom)]
        bloomCalls := s.bloomCalls ++ [(s.clock, some bloom)] }, none)

/-- The first of the goroutines that `SetMinimumPoW` started ends its sleep. -/
def storePow (s : Tuning) : Tuning :=
  match s.powStores with
  | [] => s
  | x :: rest => { s with settings.minPowTolerance := some x.2, powStores := rest }

/-- The first of the goroutines that `SetBloomFilter` started ends its sleep. -/
def storeBloom (s : Tuning) : Tuning :=
  match s.bloomStores with
  | [] => s
  | x :: rest => { s with settings.bloomFilterTolerance := x.2, bloomStores := rest }

end Tuning

inductive TuningAction
  | setMinimumPoW (val : Float64)
  | setBloomFilter (bloom : Bytes)
  | storePow
  | storeBloom
  | wait (t : ℚ)

def Tuning.apply (s : Tuning) : TuningAction → Tuning
  | .setMinimumPoW val => (s.setMinimumPoW val).1
  | .setBloomFilter bloom => (s.setBloomFilter bloom).1
  | .storePow => s.storePow
  | .storeBloom => s.storeBloom
  | .wait t => { s with clock := t }

/-- One step: the tolerated values are stored in the order of the calls, at any time. -/
def TuningStep (s : Tuning) (a : TuningAction) (t : Tuning) : Prop :=
  t = s.apply a ∧
    match a with
    | .wait u => s.clock ≤ u
    | _ => True

/-- One step where each tolerated value is stored exactly when it is due. -/
def PunctualStep (s : Tuning) (a : TuningAction) (t : Tuning) : Prop :=
  TuningStep s a t ∧
    match a with
    | .storePow => ∃ val rest, s.powStores = (s.clock, val) :: rest
    | .storeBloom => ∃ bloom rest, s.bloomStores = (s.clock, bloom) :: rest
    | .wait u => (∀ x ∈ s.powStores, u ≤ x.1) ∧ ∀ x ∈ s.bloomStores, u ≤ x.1
    | _ => True

/-! ### The two lagging settings -/

namespace Tuning

/-- The required proof of work, which the tolerated one follows. -/
def powLine (s : Tuning) : Timeline ℚ Float64 where
  current := s.settings.getMinPow
  copied := s.settings.getMinPowTolerance
  pending := s.powStores
  clock := s.clock
  log := s.powCalls

/-- The advertised bloom filter, which the tolerated one follows. -/
def bloomLine (s : Tuning) : Timeline ℚ (Option Bytes) where
  current := s.settings.bloomFilter
  copied := s.settings.bloomFilterTolerance
  pending := s.bloomStores
  clock := s.clock
  log := s.bloomCalls

theorem powLine_setMinimumPoW (s : Tuning) {val : Float64} (h : checkMinimumPoW val = none) :
    (s.setMinimumPoW val).1.powLine =
      { s.powLine with
        toLagging := s.powLine.toLagging.assign (s.powLine.clock + syncAllowance) val
        log := s.powLine.log ++ [(s.powLine.clock, val)] } := by
  simp only [setMinimumPoW, h]
  rfl

theorem setMinimumPoW_refused (s : Tuning) {val : Float64} {err : GoError}
    (h : checkMinimumPoW val = some err) : (s.setMinimumPoW val).1 = s := by
  simp only [setMinimumPoW, h]

theorem bloomLine_setBloomFilter (s : Tuning) {bloom : Bytes} (h : checkBloomFilter bloom = none) :
    (s.setBloomFilter bloom).1.bloomLine =
      { s.bloomLine with
        toLagging := s.bloomLine.toLagging.assign (s.bloomLine.clock + syncAllowance) (some bloom)
        log := s.bloomLine.log ++ [(s.bloomLine.clock, some bloom)] } := by
  simp only [setBloomFilter, h]
  rfl

theorem setBloomFilter_refused (s : Tuning) {bloom : Bytes} {err : GoError}
    (h : checkBloomFilter bloom = some err) : (s.setBloomFilter bloom).1 = s := by
  simp only [setBloomFilter, h]

@[simp] theorem powLine_storePow (s : Tuning) :
    s.storePow.powLine = { s.powLine with toLagging := s.powLine.toLagging.follow } := by
  cases h : s.powStores with
  | nil => simp [storePow, Lagging.follow, powLine, h]
  | cons x rest =>
    simp only [storePow, Lagging.follow, powLine, h]
    rfl

@[simp] theorem bloomLine_storeBloom (s : Tuning) :
    s.storeBloom.bloomLine = { s.bloomLine with toLagging := s.bloomLine.toLagging.follow } := by
  cases h : s.bloomStores with
  | nil => simp [storeBloom, Lagging.follow, bloomLine, h]
  | cons x rest => simp only [storeBloom, Lagging.follow, bloomLine, h]

end Tuning

/-- The proof of work that an action puts in force. -/
def TuningAction.minPow : TuningAction → Option Float64
  | .setMinimumPoW val => if checkMinimumPoW val = none then some val else none
  | _ => none

/-- The bloom filter that an action puts in force. -/
def TuningAction.bloomFilter : TuningAction → Option (Option Bytes)
  | .setBloomFilter bloom => if checkBloomFilter bloom = none then some (some bloom) else none
  | _ => none

theorem TuningStep.clock_le {s t : Tuning} {a : TuningAction} (h : TuningStep s a t) :
    s.clock ≤ t.clock := by
  obtain ⟨rfl, hclock⟩ := h
  cases a with
  | wait u => exact hclock
  | setMinimumPoW val =>
    show s.clock ≤ (s.setMinimumPoW val).1.clock
    unfold Tuning.setMinimumPoW
    split <;> exact le_rfl
  | setBloomFilter bloom =>
    show s.clock ≤ (s.setBloomFilter bloom).1.clock
    unfold Tuning.setBloomFilter
    split <;> exact le_rfl
  | storePow =>
    show s.clock ≤ s.storePow.clock
    unfold Tuning.storePow
    split <;> exact le_rfl
  | storeBloom =>
    show s.clock ≤ s.storeBloom.clock
    unfold Tuning.storeBloom
    split <;> exact le_rfl

/-- A setting with the tolerated value that follows it: its timeline, the value that an action puts
in force, and the action with which the tolerated value follows. -/
structure LaggingSetting (V : Type) where
  line : Tuning → Timeline ℚ V
  assigned : TuningAction → Option V
  store : TuningAction
  clock : ∀ s, (line s).clock = s.clock
  start : ∀ cfg t₀, (line (Tuning.start cfg t₀)).pending = [] ∧
    (line (Tuning.start cfg t₀)).log = []
  apply_assigned : ∀ s {a v}, assigned a = some v → line (s.apply a) =
    { line s with
      toLagging := (line s).toLagging.assign ((line s).clock + syncAllowance) v
      log := (line s).log ++ [((line s).clock, v)] }
  apply_store : ∀ s, line (s.apply store) =
    { line s with toLagging := (line s).toLagging.follow }
  apply_other : ∀ s {a}, assigned a = none → a ≠ store →
    line (s.apply a) = { line s with clock := (s.apply a).clock }
  line_clock : ∀ s t, line { s with clock := t } = { line s with clock := t }
  punctual : ∀ {s t}, PunctualStep s store t → ∃ v rest, (line s).pending = (s.clock, v) :: rest

/-- The required proof of work. -/
def powSetting : LaggingSetting Float64 where
  line := Tuning.powLine
  assigned := TuningAction.minPow
  store := .storePow
  clock _ := rfl
  start _ _ := ⟨rfl, rfl⟩
  apply_assigned s a v h := by
    cases a with
    | setMinimumPoW val =>
      simp only [TuningAction.minPow, Option.ite_none_right_eq_some, Option.some.injEq] at h
      obtain ⟨hval, rfl⟩ := h
      exact s.powLine_setMinimumPoW hval
    | _ => cases h
  apply_store := Tuning.powLine_storePow
  apply_other s a h hstore := by
    cases a with
    | setMinimumPoW val =>
      cases hval : checkMinimumPoW val with
      | none => simp [TuningAction.minPow, hval] at h
      | some err => simp only [Tuning.apply, s.setMinimumPoW_refused hval, Tuning.powLine]
    | setBloomFilter bloom =>
      simp only [Tuning.apply, Tuning.setBloomFilter]
      split <;> rfl
    | storePow => exact absurd rfl hstore
    | storeBloom =>
      simp only [Tuning.apply, Tuning.storeBloom]
      split <;> rfl
    | wait u => rfl
  line_clock _ _ := rfl
  punctual h := h.2

/-- The advertised bloom filter. -/
def bloomSetting : LaggingSetting (Option Bytes) where
  line := Tuning.bloomLine
  assigned := TuningAction.bloomFilter
  store := .storeBloom
  clock _ := rfl
  start _ _ := ⟨rfl, rfl⟩
  apply_assigned s a v h := by
    cases a with
    | setBloomFilter bloom =>
      simp only [TuningAction.bloomFilter, Option.ite_none_right_eq_some, Option.some.injEq] at h
      obtain ⟨hlen, rfl⟩ := h
      exact s.bloomLine_setBloomFilter hlen
    | _ => cases h
  apply_store := Tuning.bloomLine_storeBloom
  apply_other s a h hstore := by
    cases a with
    | setMinimumPoW val =>
      simp only [Tuning.apply, Tuning.setMinimumPoW]
      split <;> rfl
    | setBloomFilter bloom =>
      cases hlen : checkBloomFilter bloom with
      | none => simp [TuningAction.bloomFilter, hlen] at h
      | some err => simp only [Tuning.apply, s.setBloomFilter_refused hlen, Tuning.bloomLine]
    | storePow =>
      simp only [Tuning.apply, Tuning.storePow]
      split <;> rfl
    | storeBloom => exact absurd rfl hstore
    | wait u => rfl
  line_clock _ _ := rfl
  punctual h := h.2

namespace LaggingSetting

variable {V : Type} (k : LaggingSetting V) {due : ℚ → ℚ → Prop} {s t : Tuning} {a : TuningAction}

theorem moves (h : TuningStep s a t)
    (hdue : a = k.store → ∀ x rest, (k.line s).pending = x :: rest → due x.1 (k.line s).clock) :
    (k.line s).Moves syncAllowance due (k.assigned a) (k.line t) := by
  have hclock := h.clock_le
  obtain ⟨rfl, -⟩ := h
  cases hv : k.assigned a with
  | some v =>
    rw [k.apply_assigned s hv]
    exact .assign v
  | none =>
    by_cases ha : a = k.store
    · rw [ha, k.apply_store]
      exact .follow (hdue ha)
    · rw [k.apply_other s hv ha]
      exact .wait (by rwa [k.clock])

theorem moves_any (h : TuningStep s a t) :
    (k.line s).Moves syncAllowance (fun _ _ => True) (k.assigned a) (k.line t) :=
  k.moves h fun _ _ _ _ => trivial

theorem moves_punctual (h : PunctualStep s a t) :
    (k.line s).Moves syncAllowance Eq (k.assigned a) (k.line t) := by
  refine k.moves h.1 ?_
  rintro rfl x rest hx
  obtain ⟨v, rest', hstores⟩ := k.punctual h
  rw [hstores] at hx
  rw [k.clock, ← (List.cons.inj hx).1]

end LaggingSetting

/-! ### What `add` rejects -/

section Check

variable {C : Crypto} {now : UInt32} {e : Envelope}

/-- Where the tolerated proof of work is the required one, nothing below it is admitted. -/
theorem Whisper.add_below {w : Whisper} (isP2P : Bool)
    (heq : w.settings.getMinPowTolerance = w.settings.getMinPow)
    (hbelow : ((e.adjust C now).pow C).lt w.settings.getMinPow.value = true) :
    (w.add C now e isP2P).1 = w ∧ (w.add C now e isP2P).2 ≠ .ok true := by
  have hrefused : (w.add C now e isP2P).2 ≠ .ok true := by
    intro hok
    obtain ⟨e', hcheck⟩ := add_cached_iff.mp hok
    obtain ⟨-, -, -, -, hpow, -⟩ := Settings.check_some_iff.mp hcheck
    rw [heq, or_self, hbelow] at hpow
    cases hpow
  exact ⟨add_of_not_cached hrefused, hrefused⟩

end Check

/-! ### Settled settings -/

/-- The tolerated values are the required ones, so that nothing with less than the required proof of
work is admitted. -/
structure Settings.Settled (s : Settings) : Prop where
  minPow : s.getMinPowTolerance = s.getMinPow
  bloomFilter : s.bloomFilterTolerance = s.bloomFilter
  add : ∀ (C : Crypto) (w : Whisper) (now : UInt32) (e : Envelope) (isP2P : Bool), w.settings = s →
    ((e.adjust C now).pow C).lt s.getMinPow.value = true → (w.add C now e isP2P).2 ≠ .ok true

theorem Settings.settled_iff {s : Settings} :
    s.Settled ↔
      s.getMinPowTolerance = s.getMinPow ∧ s.bloomFilterTolerance = s.bloomFilter := by
  constructor
  · intro h
    exact ⟨h.minPow, h.bloomFilter⟩
  · rintro ⟨hpow, hbloom⟩
    refine ⟨hpow, hbloom, ?_⟩
    rintro C w now e isP2P rfl hbelow
    exact (Whisper.add_below isP2P hpow hbelow).2

namespace Tuning

/-- With no store pending, the tolerated values are the required ones exactly when the node was
configured with the default proof of work or `SetMinimumPoW` has succeeded once: `New` stores no
tolerated proof of work, and the default stands for it. -/
theorem settled_of_no_store (cfg : Config) (t₀ : ℚ) {acts : List TuningAction} {s : Tuning}
    (run : Run TuningStep (start cfg t₀) acts s) (hpow : s.powStores = [])
    (hbloom : s.bloomStores = []) :
    s.settings.Settled ↔
      cfg.minimumAcceptedPOW = defaultMinimumPoW ∨
        ∃ val, .setMinimumPoW val ∈ acts ∧ val.value.lt .zero = false := by
  have hpows : s.settings.getMinPowTolerance = s.settings.getMinPow ↔ _ :=
    Timeline.settled_iff powLine TuningAction.minPow
      (fun _ _ _ h => powSetting.moves_any h) run rfl hpow
  have hblooms : s.settings.bloomFilterTolerance = s.settings.bloomFilter ↔ _ :=
    Timeline.settled_iff bloomLine TuningAction.bloomFilter
      (fun _ _ _ h => bloomSetting.moves_any h) run rfl hbloom
  have hstart : (start cfg t₀).settings.bloomFilterTolerance =
      (start cfg t₀).settings.bloomFilter := rfl
  rw [Settings.settled_iff]
  constructor
  · rintro ⟨heq, -⟩
    rcases hpows.mp heq with hcfg | ⟨a, ha, v, hv⟩
    · exact .inl hcfg.symm
    · cases a with
      | setMinimumPoW val =>
        refine .inr ⟨val, ha, ?_⟩
        by_contra hneg
        simp [TuningAction.minPow, checkMinimumPoW, hneg] at hv
      | _ => cases hv
  · intro h
    refine ⟨hpows.mpr ?_, hblooms.mpr (.inl hstart)⟩
    rcases h with hcfg | ⟨val, hval, hpos⟩
    · exact .inl hcfg.symm
    · exact .inr ⟨_, hval, val, by simp [TuningAction.minPow, checkMinimumPoW, hpos]⟩

/-- A node that requires a proof of work of 0.5. -/
def halfConfig : Config := { minimumAcceptedPOW := 0x3FE0000000000000#64 }

theorem settled_of_no_store_sample :
    let s := ((start halfConfig 0).setMinimumPoW 0x3FE0000000000000#64).1.storePow
    s.powStores = [] ∧ s.bloomStores = [] ∧ s.settings.Settled := by
  intro s
  have run : Run TuningStep (start halfConfig 0)
      [.setMinimumPoW 0x3FE0000000000000#64, .storePow] s :=
    .cons ⟨rfl, trivial⟩ (.cons ⟨rfl, trivial⟩ (.nil _))
  have hpow : s.powStores = [] := by decide +kernel
  have hbloom : s.bloomStores = [] := by decide +kernel
  exact ⟨hpow, hbloom, (settled_of_no_store halfConfig 0 run hpow hbloom).mpr
    (.inr ⟨0x3FE0000000000000#64, by simp, by decide +kernel⟩)⟩

/-- Right after `New` the node of the configuration above requires 0.5 but tolerates 0.2, and admits
an envelope with a proof of work of 0.3. -/
theorem new_not_settled :
    let s := start halfConfig 0
    let now : UInt32 := 1600000000
    Run TuningStep (start halfConfig 0) [] s ∧ s.powStores = [] ∧ s.bloomStores = [] ∧
    s.settings.getMinPow = 0x3FE0000000000000#64 ∧
    s.settings.getMinPowTolerance = defaultMinimumPoW ∧ ¬s.settings.Settled ∧
    ((sampleEnvelope.adjust sampleCrypto now).pow sampleCrypto).lt s.settings.getMinPow.value =
      true ∧
    ((new halfConfig).add sampleCrypto now sampleEnvelope false).2 = .ok true := by
  refine ⟨.nil _, rfl, rfl, rfl, rfl, fun h => ?_, by decide +kernel, by decide +kernel⟩
  exact absurd h.minPow (by decide +kernel)

end Tuning

end Whisperv6
