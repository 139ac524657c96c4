import Whisperv6.ProofKit.Go

/-! A loop over a list that waits for a first element with some property, and keeps elements by one
rule there and by another rule after it.  Which elements it keeps depends on the order of the list
only through the elements that precede each other. -/

namespace Whisperv6.ProofKit

variable {α : Type}

/-- The elements that the loop keeps: nothing before the first element that opens, that element if
`first` holds, and the elements after it for which `later` holds. -/
def scan (opens first later : α → Bool) : List α → List α
  | [] => []
  | a :: rest =>
    if opens a then (if first a then [a] else []) ++ rest.filter later
    else scan opens first later rest

/-- An element with the property `P` stands before `a` in the list. -/
def Preceded (P : α → Prop) : List α → α → Prop
  | [], _ => False
  | x :: rest, a => (P x ∧ a ∈ rest) ∨ Preceded P rest a

variable {P : α → Prop} {a : α}

theorem Preceded.mem {order : List α} (h : Preceded P order a) : a ∈ order := by
  induction order with
  | nil => cases h
  | cons x rest ih =>
    rcases h with ⟨-, h⟩ | h
    · exact List.mem_cons_of_mem _ h
    · exact List.mem_cons_of_mem _ (ih h)

theorem Preceded.exists {order : List α} (h : Preceded P order a) : ∃ g ∈ order, P g := by
  induction order with
  | nil => cases h
  | cons x rest ih =>
    rcases h with ⟨h, -⟩ | h
    · exact ⟨x, List.mem_cons_self, h⟩
    · obtain ⟨g, hg, hP⟩ := ih h
      exact ⟨g, List.mem_cons_of_mem _ hg, hP⟩

theorem preceded_append {l l' : List α} :
    Preceded P (l ++ l') a ↔ Preceded P l a ∨ ((∃ g ∈ l, P g) ∧ a ∈ l') ∨ Preceded P l' a := by
  induction l with
  | nil => simp [Preceded]
  | cons x rest ih =>
    simp only [List.cons_append, Preceded, ih, List.mem_append, List.exists_mem_cons_iff,
      and_or_left, or_and_right, or_assoc, or_left_comm]

/-- The first element of a list without repetitions is not preceded. -/
theorem not_preceded_cons {rest : List α} (h : a ∉ rest) : ¬ Preceded P (a :: rest) a := by
  rintro (⟨-, hmem⟩ | hrest)
  · exact h hmem
  · exact h hrest.mem

/-- What the loop keeps, when the two rules agree on the elements that open. -/
theorem mem_scan {opens first later : α → Bool} {order : List α}
    (hfirst : ∀ x ∈ order, opens x = true → first x = later x) :
    a ∈ scan opens first later order ↔
      a ∈ order ∧ later a = true ∧ (opens a = true ∨ Preceded (opens · = true) order a) := by
  induction order with
  | nil => simp [scan]
  | cons x rest ih =>
    have ih := ih fun y hy => hfirst y (List.mem_cons_of_mem _ hy)
    rw [scan]
    by_cases hx : opens x = true
    · rw [if_pos hx, List.mem_append, List.mem_filter, List.mem_cons]
      have hkeep : a ∈ (if first x = true then [x] else []) ↔ a = x ∧ later x = true := by
        rw [hfirst x List.mem_cons_self hx]
        split <;> simp_all
      rw [hkeep]
      constructor
      · rintro (⟨rfl, hlater⟩ | ⟨hmem, hlater⟩)
        · exact ⟨.inl rfl, hlater, .inl hx⟩
        · exact ⟨.inr hmem, hlater, .inr (.inl ⟨hx, hmem⟩)⟩
      · rintro ⟨rfl | hmem, hlater, -⟩
        · exact .inl ⟨rfl, hlater⟩
        · exact .inr ⟨hmem, hlater⟩
    · rw [if_neg hx, ih]
      constructor
      · rintro ⟨hmem, hlater, h⟩
        exact ⟨List.mem_cons_of_mem _ hmem, hlater, h.imp_right .inr⟩
      · rintro ⟨hmem, hlater, h⟩
        rcases h with hopens | ⟨hx', -⟩ | hpre
        · refine ⟨?_, hlater, .inl hopens⟩
          rcases List.mem_cons.mp hmem with rfl | hmem
          · exact absurd hopens hx
          · exact hmem
        · exact absurd hx' hx
        · exact ⟨hpre.mem, hlater, .inr hpre⟩

end Whisperv6.ProofKit
