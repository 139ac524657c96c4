import Mathlib.Data.List.Basic

/-! A search through a list of candidates that keeps the best one so far, replaces it only by a
better one, and ends at the first candidate that reaches a goal. -/

namespace Whisperv6.ProofKit

variable {α : Type} (score : α → Nat) (goal : Nat)

/-- The search, from the candidate `found` with the score `best`.  The last component tells whether
the goal was reached, where the goal 0 is none. -/
def seek : List α → (found : α) → (best : Nat) → α × Nat × Bool
  | [], found, best => (found, best, false)
  | x :: rest, found, best =>
    if score x > best then
      if 0 < goal && goal ≤ score x then (x, score x, true) else seek rest x (score x)
    else seek rest found best

variable {score goal}

/-- The search ends at the first candidate that reaches the goal. -/
theorem seek_of_find {xs : List α} {x : α} (hfind : xs.find? (goal ≤ score ·) = some x)
    (found : α) {best : Nat} (hbest : best < goal) :
    seek score goal xs found best = (x, score x, true) := by
  induction xs generalizing found best with
  | nil => simp at hfind
  | cons y rest ih =>
    rw [List.find?_cons] at hfind
    rw [seek]
    by_cases hy : goal ≤ score y
    · have hreached : (0 < goal && decide (goal ≤ score y)) = true := by simp [hy]; omega
      simp only [hy, decide_true, Option.some.injEq] at hfind
      rw [if_pos (by omega), if_pos hreached, hfind]
    · simp only [hy, decide_false] at hfind
      by_cases hbetter : score y > best
      · rw [if_pos hbetter, if_neg (by simp [hy])]
        exact ih hfind y (by omega)
      · rw [if_neg hbetter]
        exact ih hfind found hbest

/-- Without a candidate that reaches the goal, the search goes through them all and stays below
it. -/
theorem seek_of_lt {xs : List α} (hlt : ∀ x ∈ xs, score x < goal) (found : α) {best : Nat}
    (hbest : best < goal) :
    ∃ y b, b < goal ∧ seek score goal xs found best = (y, b, false) := by
  induction xs generalizing found best with
  | nil => exact ⟨found, best, hbest, rfl⟩
  | cons y rest ih =>
    have hy := hlt y (List.mem_cons_self ..)
    have hrest : ∀ x ∈ rest, score x < goal := fun x hx => hlt x (List.mem_cons_of_mem y hx)
    rw [seek]
    by_cases hbetter : score y > best
    · rw [if_pos hbetter, if_neg (by simp; omega)]
      exact ih hrest y hy
    · rw [if_neg hbetter]
      exact ih hrest found hbest

/-- Without a goal, the search ends with the first candidate of the highest score, unless none is
better than the one it started from. -/
theorem seek_zero (score : α → Nat) (xs : List α) (found : α) (best : Nat) :
    (∀ x ∈ xs, score x ≤ best) ∧ seek score 0 xs found best = (found, best, false) ∨
    ∃ x, best < score x ∧ (∀ y ∈ xs, score y ≤ score x) ∧
      xs.find? (score x ≤ score ·) = some x ∧ seek score 0 xs found best = (x, score x, false) := by
  induction xs generalizing found best with
  | nil => exact .inl ⟨by simp, rfl⟩
  | cons y rest ih =>
    by_cases hbetter : score y > best
    · have hstep : seek score 0 (y :: rest) found best = seek score 0 rest y (score y) := by
        rw [seek, if_pos hbetter, if_neg (by simp)]
      right
      rcases ih y (score y) with ⟨hle, hseek⟩ | ⟨x, hlt, hmax, hfind, hseek⟩
      · refine ⟨y, hbetter, ?_, ?_, hstep.trans hseek⟩
        · simpa using hle
        · rw [List.find?_cons]
          simp
      · refine ⟨x, by omega, ?_, ?_, hstep.trans hseek⟩
        · simpa using ⟨by omega, hmax⟩
        · rw [List.find?_cons, ← hfind]
          simp [Nat.not_le.mpr hlt]
    · have hstep : seek score 0 (y :: rest) found best = seek score 0 rest found best := by
        rw [seek, if_neg hbetter]
      rcases ih found best with ⟨hle, hseek⟩ | ⟨x, hlt, hmax, hfind, hseek⟩
      · left
        exact ⟨by simpa using ⟨by omega, hle⟩, hstep.trans hseek⟩
      · right
        refine ⟨x, hlt, by simpa using ⟨by omega, hmax⟩, ?_, hstep.trans hseek⟩
        rw [List.find?_cons, ← hfind]
        simp [show ¬ score x ≤ score y by omega]

end Whisperv6.ProofKit
