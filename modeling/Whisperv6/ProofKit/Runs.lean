import Mathlib.Logic.Relation

/-! Runs of a labelled transition system, and the rule that carries an invariant along them. -/

namespace Whisperv6.ProofKit

variable {S A : Type}

/-- `Run step s acts t`: from `s`, the actions `acts` lead to `t`, one step each. -/
inductive Run (step : S → A → S → Prop) : S → List A → S → Prop
  | nil (s : S) : Run step s [] s
  | cons {s t u : S} {a : A} {acts : List A} :
      step s a t → Run step t acts u → Run step s (a :: acts) u

namespace Run

variable {step : S → A → S → Prop} {s t u : S} {acts more : List A}

theorem append (h : Run step s acts t) (h' : Run step t more u) :
    Run step s (acts ++ more) u := by
  induction h with
  | nil => exact h'
  | cons hstep _ ih => exact .cons hstep (ih h')

theorem mono {step' : S → A → S → Prop} (h : Run step s acts t)
    (himp : ∀ s a t, step s a t → step' s a t) : Run step' s acts t := by
  induction h with
  | nil => exact .nil _
  | cons hstep _ ih => exact .cons (himp _ _ _ hstep) ih

/-- What holds at the start and is kept by every step on the actions of a run holds at its end. -/
theorem invariant {P : S → Prop} (h : Run step s acts t) (hs : P s)
    (hstep : ∀ s a t, a ∈ acts → P s → step s a t → P t) : P t := by
  induction h with
  | nil => exact hs
  | cons hfirst _ ih =>
    refine ih (hstep _ _ _ (by simp) hs hfirst) fun s a t ha => hstep s a t ?_
    exact List.mem_cons_of_mem _ ha

/-- The rule for what is said of a state and of the actions that have led to it. -/
theorem history {P : List A → S → Prop} (h : Run step s acts t) (hs : P [] s)
    (hstep : ∀ past u a v, Run step s past u → P past u → step u a v → P (past ++ [a]) v) :
    P acts t := by
  suffices hall : ∀ past u acts t, Run step s past u → P past u → Run step u acts t →
      P (past ++ acts) t from hall [] s acts t (.nil s) hs h
  intro past u acts t hpast hu hrest
  induction hrest generalizing past with
  | nil =>
    rw [List.append_nil]
    exact hu
  | cons hfirst _ ih =>
    rw [List.append_cons]
    exact ih _ (hpast.append (.cons hfirst (.nil _))) (hstep past _ _ _ hpast hu hfirst)

/-- What does not hold at the start of a run and holds at its end begins to hold at some step. -/
theorem turns {P : S → Prop} (h : Run step s acts t) (hs : ¬ P s) (ht : P t) :
    ∃ before a after u v, acts = before ++ a :: after ∧ Run step s before u ∧ step u a v ∧
      Run step v after t ∧ ¬ P u ∧ P v := by
  induction h with
  | nil => exact absurd ht hs
  | cons hfirst hrest ih =>
    rename_i s s' t a acts
    by_cases hs' : P s'
    · exact ⟨[], a, acts, s, s', rfl, .nil s, hfirst, hrest, hs, hs'⟩
    · obtain ⟨before, b, after, u, v, rfl, hbefore, hstep⟩ := ih hs' ht
      exact ⟨a :: before, b, after, u, v, rfl, .cons hfirst hbefore, hstep⟩

/-- The steps of a function that computes the next state, one after another. -/
theorem of_foldlM {f : S → A → Option S} (hf : ∀ s a t, f s a = some t → step s a t)
    (h : acts.foldlM f s = some t) : Run step s acts t := by
  induction acts generalizing s with
  | nil =>
    cases h
    exact .nil _
  | cons a acts ih =>
    obtain ⟨s', hs', hrest⟩ := Option.bind_eq_some_iff.mp h
    exact .cons (hf _ _ _ hs') (ih hrest)

end Run

/-! ### The last of some actions -/

/-- Some action of the list is in `P`, and none after it is in `Q`. -/
def Since (P Q : A → Prop) (acts : List A) : Prop :=
  ∃ before a after, acts = before ++ a :: after ∧ P a ∧ ∀ b ∈ after, ¬ Q b

theorem Since.mono {P P' Q : A → Prop} {acts : List A} (h : Since P Q acts)
    (himp : ∀ a, P a → P' a) : Since P' Q acts := by
  obtain ⟨before, a, after, heq, ha, hafter⟩ := h
  exact ⟨before, a, after, heq, himp a ha, hafter⟩

theorem since_cons {P Q : A → Prop} {a : A} {acts : List A} :
    Since P Q (a :: acts) ↔ (P a ∧ ∀ b ∈ acts, ¬ Q b) ∨ Since P Q acts := by
  constructor
  · rintro ⟨before, b, after, heq, hb, hafter⟩
    cases before with
    | nil =>
      cases heq
      exact .inl ⟨hb, hafter⟩
    | cons c before =>
      cases heq
      exact .inr ⟨before, b, after, rfl, hb, hafter⟩
  · rintro (⟨ha, hafter⟩ | ⟨before, b, after, rfl, hb, hafter⟩)
    · exact ⟨[], a, acts, rfl, ha, hafter⟩
    · exact ⟨a :: before, b, after, rfl, hb, hafter⟩

namespace Run

variable {step : S → A → S → Prop} {s t : S} {acts : List A} {P : S → Prop} {puts drops : A → Prop}

/-- What holds at the end of a run was put by some action and not dropped since, or it has held from
the start. -/
theorem since_or (run : Run step s acts t)
    (hstep : ∀ s a t, a ∈ acts → step s a t → P t → puts a ∨ P s ∧ ¬ drops a) (ht : P t) :
    Since puts drops acts ∨ P s ∧ ∀ b ∈ acts, ¬ drops b := by
  induction run with
  | nil s => exact .inr ⟨ht, by simp⟩
  | cons hfirst _ ih =>
    rename_i s s' t a acts _
    rw [since_cons]
    rcases ih (fun s b t hb => hstep s b t (List.mem_cons_of_mem _ hb)) ht with hlast | ⟨hs', hkept⟩
    · exact .inl (.inr hlast)
    · rcases hstep s a s' List.mem_cons_self hfirst hs' with hput | ⟨hs, hkeep⟩
      · exact .inl (.inl ⟨hput, hkept⟩)
      · refine .inr ⟨hs, fun b hb => ?_⟩
        rcases List.mem_cons.mp hb with rfl | hb
        · exact hkeep
        · exact hkept b hb

/-- What some action has put and none has dropped since holds at the end. -/
theorem of_since (run : Run step s acts t)
    (hput : ∀ s a t, a ∈ acts → step s a t → puts a → P t)
    (hkeep : ∀ s a t, a ∈ acts → step s a t → ¬ drops a → P s → P t)
    (h : Since puts drops acts) : P t := by
  induction run with
  | nil s =>
    obtain ⟨before, a, after, heq, -⟩ := h
    simp at heq
  | cons hfirst hrest ih =>
    rename_i s s' t a acts
    rcases since_cons.mp h with ⟨ha, hafter⟩ | hlast
    · refine hrest.invariant (hput s a s' List.mem_cons_self hfirst ha) fun u b u' hb hu hstep => ?_
      exact hkeep u b u' (List.mem_cons_of_mem _ hb) hstep (hafter b hb) hu
    · exact ih (fun u b u' hb => hput u b u' (List.mem_cons_of_mem _ hb))
        (fun u b u' hb => hkeep u b u' (List.mem_cons_of_mem _ hb)) hlast

end Run

/-! ### Logs -/

/-- What a list that only grows has gained. -/
def gained {α : Type} (before after : List α) : List α := after.drop before.length

theorem append_gained {α : Type} {before after : List α} (h : before <+: after) :
    before ++ gained before after = after := by
  obtain ⟨new, rfl⟩ := h
  rw [gained, List.drop_left]

theorem gained_append {α : Type} (before new : List α) : gained before (before ++ new) = new :=
  List.drop_left

theorem gained_self {α : Type} (xs : List α) : gained xs xs = [] := by simp [gained]

end Whisperv6.ProofKit
