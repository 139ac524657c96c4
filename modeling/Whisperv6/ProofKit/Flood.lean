import Mathlib.Data.Set.Basic
import Mathlib.Logic.Relation

/-! Flooding.  Nodes hold items and offer them over links; each end of a link keeps the items that
the other end is known to have, so that it offers none of them again.  A state is described by sets
only, and a step by inclusions between them, so that any protocol that keeps such records can be
read as a flood. -/

namespace Whisperv6.ProofKit

/-- `lost i` are the items that `i` has turned away or has held and dropped, `transit i j` those on
the way from `i` to `j`, `known i j` those that `i` takes `j` to have, and `heard i j` those that
`i` has from `j` and will take it to have.  `up i j` tells that `j` still reads what `i` sends. -/
structure Flood (N K : Type) where
  pool : N → Set K
  lost : N → Set K
  known : N → N → Set K
  heard : N → N → Set K
  transit : N → N → Set K
  up : N → N → Prop

namespace Flood

variable {N K : Type}

/-- The items that the node has dealt with. -/
def seen (s : Flood N K) (i : N) : Set K := s.pool i ∪ s.lost i

/-- What a step can do.  An item is on the way only from a node that holds it, it is heard only by
arriving, and it is taken to be known when it is sent or was heard.  A link that stays up loses
nothing; one that comes up starts with nothing known. -/
structure Step (s t : Flood N K) : Prop where
  pool : ∀ i, s.pool i ⊆ t.seen i
  lost : ∀ i, s.lost i ⊆ t.lost i
  transit : ∀ i j, t.transit i j ⊆ s.transit i j ∪ s.pool i
  heard : ∀ i j, t.heard i j ⊆ s.heard i j ∪ s.transit j i
  known : ∀ i j, t.known i j ⊆ s.known i j ∪ s.heard i j ∪ t.transit i j
  kept : ∀ i j, t.up i j →
    t.known i j = ∅ ∨ s.up i j ∧ s.transit i j ⊆ t.transit i j ∪ t.seen j

theorem Step.seen {s t : Flood N K} (h : Step s t) (i : N) : s.seen i ⊆ t.seen i := by
  apply Set.union_subset (h.pool i)
  exact (h.lost i).trans Set.subset_union_right

/-- What is on the way is from a node that has dealt with it, what was heard is from one too, and
what the other end of a link that is up is taken to have is on the way to it or dealt with there. -/
structure Sound (s : Flood N K) : Prop where
  transit : ∀ i j, s.transit i j ⊆ s.seen i
  heard : ∀ i j, s.heard i j ⊆ s.seen j
  known : ∀ i j, s.up i j → s.known i j ⊆ s.transit i j ∪ s.seen j

theorem Sound.step {s t : Flood N K} (hs : s.Sound) (h : Step s t) : t.Sound where
  transit i j k hk := by
    obtain hk | hk := h.transit i j hk
    · exact h.seen i (hs.transit i j hk)
    · exact h.pool i hk
  heard i j k hk := by
    obtain hk | hk := h.heard i j hk
    · exact h.seen j (hs.heard i j hk)
    · exact h.seen j (hs.transit j i hk)
  known i j hup k hk := by
    obtain hnone | ⟨hold, hkept⟩ := h.kept i j hup
    · rw [hnone] at hk
      exact hk.elim
    obtain (hk | hk) | hk := h.known i j hk
    · obtain hk | hk := hs.known i j hold hk
      · exact hkept hk
      · exact .inr (h.seen j hk)
    · exact .inr (h.seen j (hs.heard i j hk))
    · exact .inl hk

/-- Nothing is on the way from `i` to `j`, which still reads, and `i` has no item in `wanted` left
to offer. -/
structure Settled (s : Flood N K) (wanted : Set K) (i j : N) : Prop where
  up : s.up i j
  transit : s.transit i j = ∅
  offered : s.pool i ∩ wanted ⊆ s.known i j

/-- Over a settled link, every item that is wanted has been dealt with at the other end. -/
theorem Sound.settled {s : Flood N K} (hs : s.Sound) {wanted : Set K} {i j : N}
    (h : s.Settled wanted i j) : s.pool i ∩ wanted ⊆ s.seen j := by
  intro k hk
  obtain hk | hk := hs.known i j h.up (h.offered hk)
  · rw [h.transit] at hk
    exact hk.elim
  · exact hk

/-- An item of a node is held wherever settled links lead over nodes that have not lost it. -/
theorem Sound.reaches {s : Flood N K} (hs : s.Sound) {k : K} {i j : N}
    (hpath : Relation.ReflTransGen (fun a b => s.Settled {k} a b ∧ k ∉ s.lost b) i j)
    (hi : k ∈ s.pool i) : k ∈ s.pool j := by
  induction hpath with
  | refl => exact hi
  | tail _ hlink ih => exact (hs.settled hlink.1 ⟨ih, rfl⟩).resolve_right hlink.2

end Flood

end Whisperv6.ProofKit
