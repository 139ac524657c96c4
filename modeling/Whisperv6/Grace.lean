import Whisperv6.Tolerance

/-! The grace period after a change of the requirements: what met a proof of work or a bloom filter
that was in force a short time ago should still be accepted.  A node keeps one older value of each,
the one of a whole allowance ago, so a value that was in force only for a part of the allowance may
be forgotten. -/

namespace Whisperv6

open ProofKit

/-! ### The two requirements -/

/-- The required proof of work; a NaN requires nothing. -/
def powRequirement : Requirement Float64 FloatVal where
  Meets val pow := pow.lt val.value = false
  hardest val := if val.value = .nan then .inf true else val.value
  meets_hardest val := by
    split
    · rename_i hnan
      rw [hnan]
      rfl
    · exact FloatVal.lt_irrefl _
  meets_of_hardest {v w x} hx hw := by
    split at hw
    · exact FloatVal.not_lt_of_negInf hw
    · rename_i hnan
      exact FloatVal.not_lt_trans hnan hx hw

/-- The advertised bloom filter. -/
def bloomRequirement : Requirement (Option Bytes) Bytes where
  Meets filter sample := bloomFilterMatch filter sample = true
  hardest filter := filter.getD makeFullNodeBloom
  meets_hardest filter := by
    cases filter with
    | none => rfl
    | some f => exact bloomFilterMatch_self f
  meets_of_hardest {v w x} hx hw := by
    cases v with
    | none => exact bloomFilterMatch_of_full hw x
    | some f => exact bloomFilterMatch_trans hw hx

namespace Tuning

/-- `u` is one of the last `syncAllowance` seconds, since the node was made at `t₀`. -/
def Recent (t₀ : ℚ) (s : Tuning) (u : ℚ) : Prop :=
  t₀ ≤ u ∧ s.clock - syncAllowance ≤ u ∧ u ≤ s.clock

/-- The value of `MinPow()` at the time `u`. -/
def minPowAt (cfg : Config) (s : Tuning) (u : ℚ) : Float64 :=
  valueAt cfg.minimumAcceptedPOW s.powCalls u

/-- The value of `BloomFilter()` at the time `u`. -/
def bloomFilterAt (s : Tuning) (u : ℚ) : Option Bytes := valueAt none s.bloomCalls u

/-- The stores that were due are made. -/
def Prompt (s : Tuning) : Prop := s.powLine.Prompt ∧ s.bloomLine.Prompt

/-- `add` rejects for low proof of work nothing that meets a recent requirement. -/
def PowGrace (cfg : Config) (t₀ : ℚ) (s : Tuning) : Prop :=
  ∀ u, s.Recent t₀ u → ∀ (C : Crypto) (w : Whisper) (now : UInt32) (e : Envelope) (isP2P : Bool),
    w.settings = s.settings →
    ((e.adjust C now).pow C).lt (s.minPowAt cfg u).value = false →
    (w.add C now e isP2P).2 ≠ .error .lowPow

/-- `add` rejects for a bloom mismatch nothing that matches a recent filter. -/
def BloomGrace (t₀ : ℚ) (s : Tuning) : Prop :=
  ∀ u, s.Recent t₀ u → ∀ (C : Crypto) (w : Whisper) (now : UInt32) (e : Envelope) (isP2P : Bool),
    w.settings = s.settings → bloomFilterMatch (s.bloomFilterAt u) e.bloom = true →
    (w.add C now e isP2P).2 ≠ .error .noBloomMatch

/-- A recent proof of work is less than both the present one and the one of an allowance ago, for
which the default stands in the first seconds of the node. -/
def PowDip (cfg : Config) (t₀ : ℚ) (s : Tuning) : Prop :=
  powRequirement.Dip syncAllowance t₀ cfg.minimumAcceptedPOW defaultMinimumPoW s.powLine

/-- A recent filter is covered neither by the present one nor by the one of an allowance ago. -/
def BloomDip (t₀ : ℚ) (s : Tuning) : Prop :=
  bloomRequirement.Dip syncAllowance t₀ none none s.bloomLine

section Grace

variable {cfg : Config} {t₀ : ℚ} {acts : List TuningAction} {s : Tuning}

/-- The tolerated value of a setting has followed it on time. -/
theorem onTime {V : Type} (k : LaggingSetting V) (run : Run PunctualStep (start cfg t₀) acts s) :
    (k.line s).OnTime syncAllowance (k.line (start cfg t₀)).current
      (k.line (start cfg t₀)).copied := by
  obtain ⟨hpending, hlog⟩ := k.start cfg t₀
  exact Timeline.onTime_run k.line k.assigned (fun _ _ _ h => k.moves_punctual h) run
    (Timeline.onTime_of_new hpending hlog)

theorem powLine_onTime (run : Run PunctualStep (start cfg t₀) acts s) :
    s.powLine.OnTime syncAllowance cfg.minimumAcceptedPOW defaultMinimumPoW :=
  onTime powSetting run

theorem bloomLine_onTime (run : Run PunctualStep (start cfg t₀) acts s) :
    s.bloomLine.OnTime syncAllowance none none := onTime bloomSetting run

/-- Once the clock has moved on, the value of a setting at a time is the one that it had then. -/
theorem valueAt_clock {V : Type} (k : LaggingSetting V)
    (run : Run PunctualStep (start cfg t₀) acts s) {t : ℚ} (ht : s.clock < t)
    {more : List TuningAction} {s' : Tuning}
    (later : Run PunctualStep { s with clock := t } more s') :
    valueAt (k.line (start cfg t₀)).current (k.line s').log s.clock = (k.line s).current := by
  have hlater := Timeline.valueAt_run k.line k.assigned (fun _ _ _ h => k.moves_punctual h) later
    (k.line (start cfg t₀)).current (u := s.clock) (by rwa [k.line_clock])
  rw [hlater, k.line_clock s t, ← k.clock s]
  exact (onTime k run).current_eq.symm

/-- Once the clock has moved on, the values at a time are those that the node had when it did. -/
theorem requirements_at (run : Run PunctualStep (start cfg t₀) acts s) {t : ℚ} (ht : s.clock < t)
    {more : List TuningAction} {s' : Tuning}
    (later : Run PunctualStep { s with clock := t } more s') :
    s'.minPowAt cfg s.clock = s.settings.getMinPow ∧
      s'.bloomFilterAt s.clock = s.settings.bloomFilter :=
  ⟨valueAt_clock powSetting run ht later, valueAt_clock bloomSetting run ht later⟩

/-- In a run where the tolerated values are stored on time, what met a recent requirement meets the
present or the tolerated one exactly when there was no dip, and then `add` does not reject it for
that requirement. -/
theorem grace_unless_dip (cfg : Config) (t₀ : ℚ) {acts : List TuningAction} {s : Tuning}
    (run : Run PunctualStep (start cfg t₀) acts s) (hprompt : s.Prompt) :
    ((∀ u, s.Recent t₀ u → ∀ pow : FloatVal, pow.lt (s.minPowAt cfg u).value = false →
        pow.lt s.settings.getMinPow.value = false ∨
        pow.lt s.settings.getMinPowTolerance.value = false) ↔ ¬s.PowDip cfg t₀) ∧
    ((∀ u, s.Recent t₀ u → ∀ sample, bloomFilterMatch (s.bloomFilterAt u) sample = true →
        bloomFilterMatch s.settings.bloomFilter sample = true ∨
        bloomFilterMatch s.settings.bloomFilterTolerance sample = true) ↔ ¬s.BloomDip t₀) ∧
    (¬s.PowDip cfg t₀ → s.PowGrace cfg t₀) ∧ (¬s.BloomDip t₀ → s.BloomGrace t₀) := by
  have hpow : (∀ u, s.Recent t₀ u → ∀ pow : FloatVal, pow.lt (s.minPowAt cfg u).value = false →
      pow.lt s.settings.getMinPow.value = false ∨
      pow.lt s.settings.getMinPowTolerance.value = false) ↔ ¬s.PowDip cfg t₀ := by
    rw [PowDip, ← powRequirement.grace_iff t₀ (powLine_onTime run) hprompt.1]
    simp only [Recent, and_imp]
    rfl
  have hbloom : (∀ u, s.Recent t₀ u → ∀ sample,
      bloomFilterMatch (s.bloomFilterAt u) sample = true →
      bloomFilterMatch s.settings.bloomFilter sample = true ∨
      bloomFilterMatch s.settings.bloomFilterTolerance sample = true) ↔ ¬s.BloomDip t₀ := by
    rw [BloomDip, ← bloomRequirement.grace_iff t₀ (bloomLine_onTime run) hprompt.2]
    simp only [Recent, and_imp]
    rfl
  refine ⟨hpow, hbloom, fun hdip u hu C w now e isP2P hw hmeets herr => ?_,
    fun hdip u hu C w now e isP2P hw hmeets herr => ?_⟩
  · have hlow := Settings.check_lowPow (Whisper.add_error_iff.mp herr)
    rw [hw] at hlow
    rcases hpow.mpr hdip u hu _ hmeets with h | h
    · exact Bool.false_ne_true (h.symm.trans hlow.2.1)
    · exact Bool.false_ne_true (h.symm.trans hlow.2.2)
  · have hno := Settings.check_noBloomMatch (Whisper.add_error_iff.mp herr)
    rw [hw] at hno
    rcases hbloom.mpr hdip u hu _ hmeets with h | h
    · exact Bool.false_ne_true (hno.1.symm.trans h)
    · exact Bool.false_ne_true (hno.2.symm.trans h)

end Grace

/-- The actions of a node whose requirement is raised to 1, lowered to 0.2 and raised again. -/
def powDipActions : List TuningAction :=
  [.setMinimumPoW 0x3FF0000000000000#64, .wait 1599999960, .storePow, .wait 1599999992,
    .setMinimumPoW defaultMinimumPoW, .wait 1599999997, .setMinimumPoW 0x3FF0000000000000#64,
    .wait 1600000000]

/-- The actions of a node that narrows its bloom filter, opens it and narrows it again. -/
def bloomDipActions : List TuningAction :=
  [.setBloomFilter (List.replicate 64 0), .wait 1599999960, .storeBloom, .wait 1599999992,
    .setBloomFilter makeFullNodeBloom, .wait 1599999997, .setBloomFilter (List.replicate 64 0),
    .wait 1600000000]

/-- The node may take the action, if each tolerated value is to be stored when it is due. -/
def punctual (s : Tuning) : TuningAction → Bool
  | .storePow => s.powStores.head?.any fun x => x.1 = s.clock
  | .storeBloom => s.bloomStores.head?.any fun x => x.1 = s.clock
  | .wait u => decide (s.clock ≤ u) && s.powStores.all (fun x => u ≤ x.1) &&
    s.bloomStores.all fun x => u ≤ x.1
  | _ => true

def allPunctual : Tuning → List TuningAction → Bool
  | _, [] => true
  | s, a :: acts => s.punctual a && (s.apply a).allPunctual acts

theorem exists_of_head?_any {V : Type} {stores : List (ℚ × V)} {clock : ℚ}
    (h : (stores.head?.any fun x => x.1 = clock) = true) :
    ∃ v rest, stores = (clock, v) :: rest := by
  cases stores with
  | nil => cases h
  | cons x rest =>
    have hx : x.1 = clock := by simpa using h
    exact ⟨x.2, rest, by rw [← hx]⟩

theorem punctualStep {s : Tuning} {a : TuningAction} (h : s.punctual a = true) :
    PunctualStep s a (s.apply a) := by
  cases a with
  | setMinimumPoW val => exact ⟨⟨rfl, trivial⟩, trivial⟩
  | setBloomFilter bloom => exact ⟨⟨rfl, trivial⟩, trivial⟩
  | storePow => exact ⟨⟨rfl, trivial⟩, exists_of_head?_any h⟩
  | storeBloom => exact ⟨⟨rfl, trivial⟩, exists_of_head?_any h⟩
  | wait u =>
    simp only [punctual, Bool.and_eq_true, decide_eq_true_eq, List.all_eq_true] at h
    exact ⟨⟨rfl, h.1.1⟩, h.1.2, h.2⟩

/-- The run of a list of actions. -/
theorem run_foldl {acts : List TuningAction} {s : Tuning} (h : s.allPunctual acts = true) :
    Run PunctualStep s acts (acts.foldl apply s) := by
  induction acts generalizing s with
  | nil => exact .nil _
  | cons a acts ih =>
    rw [allPunctual, Bool.and_eq_true] at h
    exact .cons (punctualStep h.1) (ih h.2)

/-- The sample envelope met the requirement in force five seconds ago, and is rejected. -/
theorem dip_rejected :
    let t₀ : ℚ := 1599999950
    let s := powDipActions.foldl apply (start {} t₀)
    let s' := bloomDipActions.foldl apply (start {} t₀)
    (Run PunctualStep (start {} t₀) powDipActions s ∧ s.Prompt ∧ s.Recent t₀ 1599999995 ∧
      ((sampleEnvelope.adjust sampleCrypto 1600000000).pow sampleCrypto).lt
        (s.minPowAt {} 1599999995).value = false ∧
      ({ new {} with settings := s.settings }.add sampleCrypto 1600000000 sampleEnvelope false).2 =
        .error .lowPow ∧ ¬s.PowGrace {} t₀) ∧
    (Run PunctualStep (start {} t₀) bloomDipActions s' ∧ s'.Prompt ∧ s'.Recent t₀ 1599999995 ∧
      bloomFilterMatch (s'.bloomFilterAt 1599999995) sampleEnvelope.bloom = true ∧
      ({ new {} with settings := s'.settings }.add sampleCrypto 1600000000 sampleEnvelope false).2 =
        .error .noBloomMatch ∧ ¬s'.BloomGrace t₀) := by
  intro t₀ s s'
  have hrecent : s.Recent t₀ 1599999995 := by
    refine ⟨?_, ?_, ?_⟩
    all_goals decide +kernel
  have hmeets : ((sampleEnvelope.adjust sampleCrypto 1600000000).pow sampleCrypto).lt
      (s.minPowAt {} 1599999995).value = false := by decide +kernel
  have hlow : ({ new {} with settings := s.settings }.add sampleCrypto 1600000000 sampleEnvelope
      false).2 = .error .lowPow := by decide +kernel
  have hrecent' : s'.Recent t₀ 1599999995 := by
    refine ⟨?_, ?_, ?_⟩
    all_goals decide +kernel
  have hmatch : bloomFilterMatch (s'.bloomFilterAt 1599999995) sampleEnvelope.bloom = true := by
    decide +kernel
  have hno : ({ new {} with settings := s'.settings }.add sampleCrypto 1600000000 sampleEnvelope
      false).2 = .error .noBloomMatch := by decide +kernel
  refine ⟨⟨run_foldl (by decide +kernel), ⟨?_, ?_⟩, hrecent, hmeets, hlow, ?_⟩,
    ⟨run_foldl (by decide +kernel), ⟨?_, ?_⟩, hrecent', hmatch, hno, ?_⟩⟩
  case refine_3 =>
    intro hgrace
    exact hgrace _ hrecent _ { new {} with settings := s.settings } _ _ _ rfl hmeets hlow
  case refine_6 =>
    intro hgrace
    exact hgrace _ hrecent' _ { new {} with settings := s'.settings } _ _ _ rfl hmatch hno
  all_goals
    unfold Timeline.Prompt
    decide +kernel

/-- A node that has raised its requirement once still accepts what met the old one. -/
theorem grace_unless_dip_sample :
    let s := [TuningAction.wait 1, .setMinimumPoW 0x3FF0000000000000#64, .wait 5].foldl apply
      (start {} 0)
    s.Prompt ∧ s.PowGrace {} 0 ∧ s.BloomGrace 0 := by
  intro s
  have hrun : Run PunctualStep (start {} 0)
      [.wait 1, .setMinimumPoW 0x3FF0000000000000#64, .wait 5] s := run_foldl (by decide +kernel)
  have hprompt : s.Prompt := by
    constructor
    all_goals
      unfold Timeline.Prompt
      decide +kernel
  obtain ⟨-, -, hpow, hbloom⟩ := grace_unless_dip {} 0 hrun hprompt
  refine ⟨hprompt, hpow ?_, hbloom ?_⟩
  · rintro ⟨u, -, -, -, hcurrent, htolerated⟩
    have hlog : s.powLine.log = [(1, 0x3FF0000000000000#64)] := by decide +kernel
    have hclock : s.powLine.clock = 5 := rfl
    have hdelay : syncAllowance = 10 := by decide +kernel
    rw [hlog, hclock] at hcurrent htolerated
    by_cases hu : (1 : ℚ) ≤ u
    · refine hcurrent ?_
      have hvalue : ∀ v ≥ (1 : ℚ), valueAt defaultMinimumPoW [((1 : ℚ), 0x3FF0000000000000#64)] v =
          0x3FF0000000000000#64 := by
        intro v hv
        simp [valueAt, hv]
      rw [hvalue u hu, hvalue 5 (by decide +kernel)]
      exact powRequirement.meets_hardest _
    · refine htolerated ?_
      have hvalue : ∀ v < (1 : ℚ), valueAt defaultMinimumPoW [((1 : ℚ), 0x3FF0000000000000#64)] v =
          defaultMinimumPoW := by
        intro v hv
        simp [valueAt, hv]
      rw [hdelay, hvalue u (not_le.mp hu), hvalue (5 - 10) (by decide +kernel)]
      exact powRequirement.meets_hardest _
  · rintro ⟨u, -, -, -, hcurrent, -⟩
    have hlog : s.bloomLine.log = [] := by decide +kernel
    rw [hlog] at hcurrent
    exact hcurrent (bloomRequirement.meets_hardest none)

end Tuning

end Whisperv6
