import Mathlib.Data.List.Basic

/-! Machines that take a state and an input to the next state and at most one output, and one
machine as seen through another: some inputs and outputs are hidden, the others are those of the
other machine. -/

namespace Whisperv6.ProofKit

namespace Mealy

section Machines

variable {S A O : Type} (step : S → A → S × Option O)

/-- The state after the inputs. -/
def after (s : S) (inputs : List A) : S := inputs.foldl (fun s a => (step s a).1) s

/-- The outputs, in order. -/
def outputs : S → List A → List O
  | _, [] => []
  | s, a :: inputs => (step s a).2.toList ++ outputs (step s a).1 inputs

theorem after_append (s : S) (inputs more : List A) :
    after step s (inputs ++ more) = after step (after step s inputs) more :=
  List.foldl_append

theorem outputs_append (s : S) (inputs more : List A) :
    outputs step s (inputs ++ more) =
      outputs step s inputs ++ outputs step (after step s inputs) more := by
  induction inputs generalizing s with
  | nil => rfl
  | cons a inputs ih =>
    rw [List.cons_append, outputs, outputs, ih, List.append_assoc]
    rfl

end Machines

section Projections

variable {S A O S' A' O' : Type}

/-- From the states in `holds` on, the machine `step` seen through `view` is the machine `step'`,
where `input` and `output` give what is seen of an input and of an output. -/
structure Projects (step : S → A → S × Option O) (step' : S' → A' → S' × Option O')
    (holds : S → Prop) (view : S → S') (input : A → Option A') (output : O → Option O') : Prop where
  keeps : ∀ s a, holds s → holds (step s a).1
  hidden : ∀ s a, holds s → input a = none →
    view (step s a).1 = view s ∧ (step s a).2.bind output = none
  shown : ∀ s a b, holds s → input a = some b →
    view (step s a).1 = (step' (view s) b).1 ∧ (step s a).2.bind output = (step' (view s) b).2

variable {step : S → A → S × Option O} {step' : S' → A' → S' × Option O'} {holds : S → Prop}
  {view : S → S'} {input : A → Option A'} {output : O → Option O'}

theorem Projects.after (h : Projects step step' holds view input output) {s : S} (hs : holds s)
    (inputs : List A) :
    view (Mealy.after step s inputs) = Mealy.after step' (view s) (inputs.filterMap input) := by
  induction inputs generalizing s with
  | nil => rfl
  | cons a inputs ih =>
    have hrest := ih (h.keeps s a hs)
    cases ha : input a with
    | none =>
      rw [(h.hidden s a hs ha).1] at hrest
      rw [List.filterMap_cons_none ha]
      exact hrest
    | some b =>
      rw [(h.shown s a b hs ha).1] at hrest
      rw [List.filterMap_cons_some ha]
      exact hrest

theorem Projects.outputs (h : Projects step step' holds view input output) {s : S} (hs : holds s)
    (inputs : List A) :
    (Mealy.outputs step s inputs).filterMap output =
      Mealy.outputs step' (view s) (inputs.filterMap input) := by
  have hone : ∀ o : Option O, o.toList.filterMap output = (o.bind output).toList := by
    intro o
    cases o with
    | none => rfl
    | some o => cases ho : output o <;> simp [ho]
  induction inputs generalizing s with
  | nil => rfl
  | cons a inputs ih =>
    have hrest := ih (h.keeps s a hs)
    rw [Mealy.outputs, List.filterMap_append, hone]
    cases ha : input a with
    | none =>
      obtain ⟨hview, hout⟩ := h.hidden s a hs ha
      rw [hview] at hrest
      rw [List.filterMap_cons_none ha, hout, hrest]
      rfl
    | some b =>
      obtain ⟨hview, hout⟩ := h.shown s a b hs ha
      rw [hview] at hrest
      rw [List.filterMap_cons_some ha, hout, hrest]
      rfl

end Projections

end Mealy

end Whisperv6.ProofKit
