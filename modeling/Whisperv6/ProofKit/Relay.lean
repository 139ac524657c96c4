import Mathlib.Data.List.Count
import Mathlib.Logic.Function.Basic

/-! A relay takes items, holds them in its hand and gives them on.  What is in its hand may be lost,
and it may refuse an item that it is offered; after that it takes none any more.  So what it has
given is at every time a prefix of what it was offered.  While it holds an item, calls are made for
it, each at most once. -/

namespace Whisperv6.ProofKit

/-- `lost` are the items that were dropped or refused. -/
structure Relay (A : Type) where
  offered : List A := []
  given : List A := []
  hand : List A := []
  lost : List A := []

namespace Relay

variable {A : Type} {r r' : Relay A}

/-- What a relay may do in one step. -/
inductive Move (r : Relay A) : Relay A → Prop
  | rest : Move r r
  | take (a : A) (hhand : r.hand = []) (hlost : r.lost = []) :
      Move r { r with offered := r.offered ++ [a], hand := [a] }
  | give (a : A) (hhand : r.hand = [a]) : Move r { r with given := r.given ++ [a], hand := [] }
  | drop (a : A) (hhand : r.hand = [a]) : Move r { r with hand := [], lost := a :: r.lost }
  | refuse (a : A) (hhand : r.hand = []) :
      Move r { r with offered := r.offered ++ [a], lost := r.lost ++ [a] }

/-- Nothing is missing and nothing is there twice: an item was given, is in the hand or was lost, in
this order. -/
def InOrder (r : Relay A) : Prop := r.offered = r.given ++ r.hand ++ r.lost

theorem InOrder.move (h : r.InOrder) (hmove : r.Move r') : r'.InOrder := by
  have hoffered : r.offered = r.given ++ r.hand ++ r.lost := h
  cases hmove with
  | rest => exact h
  | take a hempty hlost => simp [InOrder, hoffered, hempty, hlost]
  | give a hone => simp [InOrder, hoffered, hone]
  | drop a hone => simp [InOrder, hoffered, hone]
  | refuse a hempty => simp [InOrder, hoffered, hempty]

theorem InOrder.isPrefix (h : r.InOrder) : r.given <+: r.offered := by
  rw [h, List.append_assoc]
  exact List.prefix_append _ _

end Relay

/-! ### Calls for each item -/

/-- The number of items so far, the calls that may still be made for the last one, and those that
were made, each with the number of the item. -/
structure Tally (C : Type) where
  items : Nat
  owed : C → Bool
  made : List (Nat × C)

namespace Tally

variable {C : Type} [DecidableEq C] {must : C → Prop} {r r' : Tally C}

/-- One step: the next item comes when nothing is owed for the last one; a call is made; or a call
is waived that need not be made. -/
inductive Move (must : C → Prop) (r : Tally C) : Tally C → Prop
  | next (hnone : ∀ c, r.owed c = false) :
      Move must r { r with items := r.items + 1, owed := fun _ => true }
  | make (c : C) (howed : r.owed c = true) :
      Move must r { r with
        owed := Function.update r.owed c false, made := r.made ++ [(r.items - 1, c)] }
  | waive {owed : C → Bool} (hless : ∀ c, owed c = true → r.owed c = true)
      (hmust : ∀ c, must c → owed c = r.owed c) : Move must r { r with owed }

/-- Each call is made at most once for each item, and those that must be made are made once as soon
as they are not owed. -/
structure Exact (must : C → Prop) (r : Tally C) : Prop where
  items : ∀ c, r.owed c = true → 0 < r.items
  below : ∀ e ∈ r.made, e.1 < r.items
  once : ∀ e, r.made.count e ≤ 1
  owed : ∀ c, r.owed c = true → (r.items - 1, c) ∉ r.made
  must : ∀ i < r.items, ∀ c, must c → (i + 1 = r.items → r.owed c = false) → (i, c) ∈ r.made

theorem Exact.move (h : r.Exact must) (hmove : r.Move must r') : r'.Exact must := by
  cases hmove with
  | next hnone =>
    refine ⟨fun _ _ => Nat.succ_pos _, fun e he => Nat.lt_succ_of_lt (h.below e he), h.once, ?_, ?_⟩
    · intro c _ hmem
      exact Nat.lt_irrefl _ (h.below _ hmem)
    · intro i hi c hmust hpaid
      rcases Nat.lt_succ_iff_lt_or_eq.mp hi with hold | rfl
      · exact h.must i hold c hmust fun _ => hnone c
      · exact absurd (hpaid rfl) (by simp)
  | make c howed =>
    have hpos := h.items c howed
    refine ⟨fun d _ => hpos, ?_, ?_, ?_, ?_⟩
    · intro e he
      rcases List.mem_append.mp he with hold | hnew
      · exact h.below e hold
      · rw [List.mem_singleton.mp hnew]
        exact Nat.sub_lt hpos Nat.one_pos
    · intro e
      rw [List.count_append]
      by_cases he : e = (r.items - 1, c)
      · rw [he, List.count_eq_zero.mpr (h.owed c howed)]
        simp
      · have hother : [(r.items - 1, c)].count e = 0 := by
          rw [List.count_eq_zero, List.mem_singleton]
          exact he
        rw [hother]
        exact h.once e
    · intro d hd hmem
      have hne : d ≠ c := by
        rintro rfl
        simp at hd
      have hd' : r.owed d = true := (Function.update_of_ne hne _ _).symm.trans hd
      rcases List.mem_append.mp hmem with hold | hnew
      · exact h.owed d hd' hold
      · exact hne (congrArg Prod.snd (List.mem_singleton.mp hnew))
    · intro i hi d hmust hpaid
      by_cases hlast : (i, d) = (r.items - 1, c)
      · rw [hlast]
        exact List.mem_append_right _ List.mem_cons_self
      · refine List.mem_append_left _ (h.must i hi d hmust fun hi' => ?_)
        have hne : d ≠ c := by
          rintro rfl
          exact hlast (by rw [← hi']; rfl)
        exact (Function.update_of_ne hne _ _).symm.trans (hpaid hi')
  | waive hless hmust =>
    refine ⟨fun c hc => h.items c (hless c hc), h.below, h.once, fun c hc => h.owed c (hless c hc),
      fun i hi c hc hpaid => h.must i hi c hc fun hi' => ?_⟩
    rw [← hmust c hc]
    exact hpaid hi'

end Tally

end Whisperv6.ProofKit
