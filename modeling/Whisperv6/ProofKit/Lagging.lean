import Mathlib.Algebra.Order.Group.Defs
import Mathlib.Algebra.Order.Sub.Basic
import Mathlib.Order.Defs.Unbundled
import Whisperv6.ProofKit.Runs

/-! A value with a copy that lags behind it.  Each assignment to the value is copied some time
later, and the copies are made in the order of the assignments.  On a clock, an assignment is copied
a fixed delay after it was made; the value and the copy are then the values that the history of the
assignments gives for the present and for a delay ago. -/

namespace Whisperv6.ProofKit

variable {T V X : Type}

/-- The value of the last assignment in a log, and `base` when there is none. -/
def lastValue (base : V) (log : List (T × V)) : V := log.foldl (fun _ x => x.2) base

@[simp] theorem lastValue_nil (base : V) : lastValue base ([] : List (T × V)) = base := rfl

@[simp] theorem lastValue_cons (base : V) (x : T × V) (log : List (T × V)) :
    lastValue base (x :: log) = lastValue x.2 log := rfl

@[simp] theorem lastValue_concat (base : V) (log : List (T × V)) (x : T × V) :
    lastValue base (log ++ [x]) = x.2 := by
  simp [lastValue]

/-! ### Copies in order -/

/-- A value, its copy, and the assignments still to be copied, each with the time it is due. -/
structure Lagging (T V : Type) where
  current : V
  copied : V
  pending : List (T × V) := []

namespace Lagging

def assign (s : Lagging T V) (due : T) (v : V) : Lagging T V :=
  { s with current := v, pending := s.pending ++ [(due, v)] }

/-- The oldest assignment still to be copied is copied. -/
def follow (s : Lagging T V) : Lagging T V :=
  match s.pending with
  | [] => s
  | x :: rest => { s with copied := x.2, pending := rest }

/-- The copy will equal the value once the pending assignments are copied. -/
def Tracks (s : Lagging T V) : Prop := lastValue s.copied s.pending = s.current

theorem tracks_assign (s : Lagging T V) (due : T) (v : V) : (s.assign due v).Tracks := by
  simp [Tracks, assign]

theorem Tracks.follow {s : Lagging T V} (h : s.Tracks) : s.follow.Tracks := by
  unfold Lagging.follow
  cases hp : s.pending with
  | nil => exact h
  | cons x rest =>
    unfold Tracks at h ⊢
    rw [hp] at h
    exact h

theorem Tracks.settled {s : Lagging T V} (h : s.Tracks) (hp : s.pending = []) :
    s.copied = s.current := by
  unfold Tracks at h
  rwa [hp] at h

/-- From the copy over the pending assignments to the value, each is below the next ones. -/
def Rising (r : V → V → Prop) (s : Lagging T V) : Prop :=
  (s.copied :: s.pending.map Prod.snd ++ [s.current]).Pairwise r

section Rising

variable {r : V → V → Prop} {s : Lagging T V}

theorem Rising.copied_le (h : s.Rising r) : r s.copied s.current := by
  unfold Rising at h
  rw [List.pairwise_append] at h
  exact h.2.2 _ (by simp) _ (by simp)

theorem Rising.assign [IsTrans V r] (h : s.Rising r) (due : T) {v : V} (hv : r s.current v)
    (hrefl : r v v) : (s.assign due v).Rising r := by
  unfold Rising at h ⊢
  rw [List.pairwise_append] at h
  obtain ⟨hold, -, hbelow⟩ := h
  -- every entry of the old list is below the old value, hence below the new one
  have hnew : ∀ x ∈ s.copied :: s.pending.map Prod.snd, r x v :=
    fun x hx => trans_of r (hbelow x hx _ (by simp)) hv
  have hlist : s.copied :: (s.pending ++ [(due, v)]).map Prod.snd ++ [v] =
      (s.copied :: s.pending.map Prod.snd) ++ [v, v] := by simp
  rw [Lagging.assign, hlist, List.pairwise_append]
  refine ⟨hold, by simpa using hrefl, fun x hx y hy => ?_⟩
  have hy' : y = v := by simpa using hy
  rw [hy']
  exact hnew x hx

theorem Rising.follow (h : s.Rising r) : s.follow.Rising r := by
  unfold Lagging.follow
  cases hp : s.pending with
  | nil => exact h
  | cons x rest =>
    unfold Rising at h ⊢
    rw [hp] at h
    exact (List.pairwise_cons.mp h).2

end Rising

end Lagging

/-! ### Copies after a fixed delay -/

section Timed

variable [AddCommGroup T] [LinearOrder T]

/-- The value at the time `u` by the history `log`: that of the last assignment made at `u` or
before. -/
def valueAt (base : V) (log : List (T × V)) (u : T) : V :=
  lastValue base (log.filter fun x => decide (x.1 ≤ u))

/-- A lagging value with a clock and the history of the assignments. -/
structure Timeline (T V : Type) extends Lagging T V where
  clock : T
  log : List (T × V) := []

namespace Timeline

/-- The copies made so far are those of the assignments made a delay `d` ago or earlier; `base` and
`first` are the value and the copy before any assignment. -/
structure OnTime (d : T) (base first : V) (s : Timeline T V) : Prop where
  current : s.current = lastValue base s.log
  past : ∀ x ∈ s.log, x.1 ≤ s.clock
  copies : ∃ made, s.log = made ++ s.pending.map (fun x => (x.1 - d, x.2)) ∧
    s.copied = lastValue first made ∧ ∀ x ∈ made, x.1 + d ≤ s.clock

/-- No copy is due. -/
def Prompt (s : Timeline T V) : Prop := ∀ x ∈ s.pending, s.clock < x.1

variable {d : T} {base first : V} {s : Timeline T V}

/-- Before any assignment, the copies are on time. -/
theorem onTime_of_new (hpending : s.pending = []) (hlog : s.log = []) :
    s.OnTime d s.current s.copied := by
  refine ⟨by rw [hlog, lastValue_nil], by simp [hlog], [], by simp [hlog, hpending], rfl, by simp⟩

/-- One move of the value, with the value that it assigns.  A copy is made when `due` holds of the
time for it and the clock. -/
inductive Moves (d : T) (due : T → T → Prop) (s : Timeline T V) :
    Option V → Timeline T V → Prop
  | wait {t : T} (h : s.clock ≤ t) : Moves d due s none { s with clock := t }
  | assign (v : V) : Moves d due s (some v)
      { s with
        toLagging := s.toLagging.assign (s.clock + d) v
        log := s.log ++ [(s.clock, v)] }
  | follow (h : ∀ x rest, s.pending = x :: rest → due x.1 s.clock) :
      Moves d due s none { s with toLagging := s.toLagging.follow }

section Moves

variable {due : T → T → Prop} {o : Option V} {t : Timeline T V}

theorem Moves.tracks (h : s.Moves d due o t) (hs : s.Tracks) : t.Tracks := by
  cases h with
  | wait h => exact hs
  | assign v => exact Lagging.tracks_assign _ _ _
  | follow h => exact hs.follow

theorem Moves.tracks_of_some {v : V} (h : s.Moves d due (some v) t) : t.Tracks := by
  cases h with
  | assign v => exact Lagging.tracks_assign _ _ _

theorem Moves.same (h : s.Moves d due none t) (hp : s.pending = []) :
    t.toLagging = s.toLagging := by
  cases h with
  | wait h => rfl
  | follow h => simp [Lagging.follow, hp]

theorem Moves.onTime (h : s.Moves d Eq o t) (hs : s.OnTime d base first) :
    t.OnTime d base first := by
  obtain ⟨made, hlog, hcopied, hmade⟩ := hs.copies
  cases h with
  | wait ht =>
    exact ⟨hs.current, fun x hx => (hs.past x hx).trans ht,
      made, hlog, hcopied, fun x hx => (hmade x hx).trans ht⟩
  | assign v =>
    refine ⟨by simp [Lagging.assign], fun x hx => ?_, made, ?_, hcopied, hmade⟩
    · rcases List.mem_append.mp hx with hx | hx
      · exact hs.past x hx
      · rw [List.mem_singleton.mp hx]
    · simp [Lagging.assign, hlog]
  | follow hdue =>
    cases hp : s.pending with
    | nil =>
      have hsame : s.toLagging.follow = s.toLagging := by simp only [Lagging.follow, hp]
      rw [hsame]
      exact hs
    | cons x rest =>
      -- the copy made now is that of the assignment made a delay ago
      have hx : x.1 = s.clock := hdue x rest hp
      have hfollow : s.toLagging.follow =
          { s.toLagging with copied := x.2, pending := rest } := by
        simp only [Lagging.follow, hp]
      rw [hp] at hlog
      rw [hfollow]
      refine ⟨hs.current, hs.past, made ++ [(x.1 - d, x.2)], by simp [hlog], by simp, ?_⟩
      intro y hy
      rcases List.mem_append.mp hy with hy | hy
      · exact hmade y hy
      · rw [List.mem_singleton.mp hy, sub_add_cancel, hx]

/-- A move leaves the history of the times before it as it is. -/
theorem Moves.valueAt_past (h : s.Moves d due o t) (base : V) {u : T} (hu : u < s.clock) :
    valueAt base t.log u = valueAt base s.log u ∧ u < t.clock := by
  cases h with
  | wait ht => exact ⟨rfl, hu.trans_le ht⟩
  | assign v => exact ⟨by simp [valueAt, hu], hu⟩
  | follow hdue => exact ⟨rfl, hu⟩

end Moves

/-! ### Runs of a system with a lagging value -/

section Runs

variable {S A : Type} {step : S → A → S → Prop} (line : S → Timeline T V) (assigned : A → Option V)
  {due : T → T → Prop} {acts : List A} {s₀ s₁ : S}

theorem tracks_run (hmoves : ∀ s a t, step s a t → (line s).Moves d due (assigned a) (line t))
    (run : Run step s₀ acts s₁) (h : (line s₀).Tracks) : (line s₁).Tracks :=
  run.invariant (P := fun s => (line s).Tracks) h
    fun s a t _ hs hstep => (hmoves s a t hstep).tracks hs

/-- After an assignment the copy tracks the value. -/
theorem tracks_of_mem
    (hmoves : ∀ s a t, step s a t → (line s).Moves d due (assigned a) (line t))
    (run : Run step s₀ acts s₁) {a : A} (ha : a ∈ acts) {v : V} (hv : assigned a = some v) :
    (line s₁).Tracks := by
  induction run with
  | nil => simp at ha
  | cons hstep hrest ih =>
    rcases List.mem_cons.mp ha with rfl | ha
    · exact tracks_run line assigned hmoves hrest (Moves.tracks_of_some (hv ▸ hmoves _ _ _ hstep))
    · exact ih ha

/-- Between states with nothing pending, the copy ends equal to the value exactly when it began so
or there was an assignment. -/
theorem settled_iff (hmoves : ∀ s a t, step s a t → (line s).Moves d due (assigned a) (line t))
    (run : Run step s₀ acts s₁) (h₀ : (line s₀).pending = []) (h₁ : (line s₁).pending = []) :
    (line s₁).copied = (line s₁).current ↔
      (line s₀).copied = (line s₀).current ∨ ∃ a ∈ acts, ∃ v, assigned a = some v := by
  constructor
  · intro heq
    by_cases hany : ∃ a ∈ acts, ∃ v, assigned a = some v
    · exact .inr hany
    · have hsame : (line s₁).toLagging = (line s₀).toLagging := by
        refine run.invariant (P := fun s => (line s).toLagging = (line s₀).toLagging) rfl ?_
        intro s a t ha hs hstep
        have hnone : assigned a = none := by
          cases ho : assigned a with
          | none => rfl
          | some v => exact absurd ⟨a, ha, v, ho⟩ hany
        have hmove := hmoves s a t hstep
        rw [hnone] at hmove
        rw [hmove.same (by rw [hs, h₀]), hs]
      rw [hsame] at heq
      exact .inl heq
  · rintro (heq | ⟨a, ha, v, hv⟩)
    · have htracks : (line s₀).Tracks := by
        unfold Lagging.Tracks
        rw [h₀]
        exact heq
      exact (tracks_run line assigned hmoves run htracks).settled h₁
    · exact (tracks_of_mem line assigned hmoves run ha hv).settled h₁

theorem onTime_run (hmoves : ∀ s a t, step s a t → (line s).Moves d Eq (assigned a) (line t))
    (run : Run step s₀ acts s₁) (h : (line s₀).OnTime d base first) :
    (line s₁).OnTime d base first :=
  run.invariant (P := fun s => (line s).OnTime d base first) h
    fun s a t _ hs hstep => (hmoves s a t hstep).onTime hs

theorem valueAt_run (hmoves : ∀ s a t, step s a t → (line s).Moves d due (assigned a) (line t))
    (run : Run step s₀ acts s₁) (base : V) {u : T} (hu : u < (line s₀).clock) :
    valueAt base (line s₁).log u = valueAt base (line s₀).log u := by
  refine (run.invariant (P := fun s => valueAt base (line s).log u =
    valueAt base (line s₀).log u ∧ u < (line s).clock) ⟨rfl, hu⟩ ?_).1
  intro s a t _ hs hstep
  obtain ⟨hvalue, hclock⟩ := (hmoves s a t hstep).valueAt_past base hs.2
  exact ⟨hvalue.trans hs.1, hclock⟩

end Runs

theorem OnTime.current_eq (h : s.OnTime d base first) :
    s.current = valueAt base s.log s.clock := by
  rw [h.current, valueAt, List.filter_eq_self.mpr fun x hx => decide_eq_true (h.past x hx)]

/-- When no copy is due, the copy is the value of a delay ago. -/
theorem OnTime.copied_eq [IsOrderedAddMonoid T] (h : s.OnTime d base first) (hprompt : s.Prompt) :
    s.copied = valueAt first s.log (s.clock - d) := by
  obtain ⟨made, hlog, hcopied, hmade⟩ := h.copies
  have hold : made.filter (fun x => decide (x.1 ≤ s.clock - d)) = made :=
    List.filter_eq_self.mpr fun x hx => decide_eq_true (le_sub_iff_add_le.mpr (hmade x hx))
  have hnew : (s.pending.map fun x => (x.1 - d, x.2)).filter
      (fun x => decide (x.1 ≤ s.clock - d)) = [] := by
    refine List.filter_eq_nil_iff.mpr fun x hx => ?_
    obtain ⟨y, hy, rfl⟩ := List.mem_map.mp hx
    simpa using hprompt y hy
  rw [hcopied, valueAt, hlog, List.filter_append, hold, hnew, List.append_nil]

end Timeline

/-! ### Requirements -/

/-- A requirement that samples have to meet.  `hardest v` is, among the samples that meet `v`, one
that every other requirement accepts last. -/
structure Requirement (V X : Type) where
  Meets : V → X → Prop
  hardest : V → X
  meets_hardest : ∀ v, Meets v (hardest v)
  meets_of_hardest : ∀ {v w x}, Meets v x → Meets w (hardest v) → Meets w x

namespace Requirement

variable (R : Requirement V X)

/-- All that meets `v` meets one of two requirements exactly when its hardest sample does. -/
theorem covered_iff (v a b : V) :
    (∀ x, R.Meets v x → R.Meets a x ∨ R.Meets b x) ↔
      R.Meets a (R.hardest v) ∨ R.Meets b (R.hardest v) := by
  constructor
  · intro h
    exact h _ (R.meets_hardest v)
  · intro h x hx
    exact h.imp (R.meets_of_hardest hx) (R.meets_of_hardest hx)

/-- The value in force at some time since `since`, by the history of a requirement, is weaker than
both the value now and the copy of a delay ago. -/
def Dip (d since : T) (base first : V) (s : Timeline T V) : Prop :=
  ∃ u, since ≤ u ∧ s.clock - d ≤ u ∧ u ≤ s.clock ∧
    ¬R.Meets (valueAt base s.log s.clock) (R.hardest (valueAt base s.log u)) ∧
    ¬R.Meets (valueAt first s.log (s.clock - d)) (R.hardest (valueAt base s.log u))

/-- When no copy is due, what met the requirement at some time of the last delay meets the value or
the copy, exactly when there is no dip. -/
theorem grace_iff [IsOrderedAddMonoid T] {d : T} (since : T) {base first : V} {s : Timeline T V}
    (h : s.OnTime d base first) (hprompt : s.Prompt) :
    (∀ u, since ≤ u → s.clock - d ≤ u → u ≤ s.clock →
        ∀ x, R.Meets (valueAt base s.log u) x → R.Meets s.current x ∨ R.Meets s.copied x) ↔
      ¬R.Dip d since base first s := by
  rw [Dip, ← h.current_eq, ← h.copied_eq hprompt]
  constructor
  · rintro hgrace ⟨u, hsince, hfrom, hto, hcurrent, hcopied⟩
    rcases (R.covered_iff _ _ _).mp (hgrace u hsince hfrom hto) with hmeets | hmeets
    · exact hcurrent hmeets
    · exact hcopied hmeets
  · intro hdip u hsince hfrom hto
    refine (R.covered_iff _ _ _).mpr ?_
    by_contra hno
    rw [not_or] at hno
    exact hdip ⟨u, hsince, hfrom, hto, hno.1, hno.2⟩

end Requirement

end Timed

end Whisperv6.ProofKit
