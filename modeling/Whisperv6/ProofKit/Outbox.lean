import Mathlib.Data.List.Basic
import Mathlib.Data.Set.Basic

/-! A sender that draws its batches from a pool.  A batch holds items of the pool that are not known
to be sent.  An item that has left the pool may be forgotten, since it is retired and never returns
to the pool. -/

namespace Whisperv6.ProofKit

structure Outbox (K : Type) where
  pool : Set K
  known : Set K
  retired : Set K
  sent : List (List K)

namespace Outbox

variable {K : Type} {s t : Outbox K} {k : K}

/-- What a step may change. -/
structure Step (s t : Outbox K) : Prop where
  retires : s.retired ⊆ t.retired
  admits : ∀ k ∈ t.pool, k ∉ s.pool → k ∉ t.retired
  drops : ∀ k ∈ s.pool, k ∉ t.pool → k ∈ t.retired
  keeps : ∀ k ∈ s.known, k ∈ t.pool → k ∈ t.known
  sends : t.sent = s.sent ∨ ∃ batch, t.sent = s.sent ++ [batch] ∧
    ∀ k ∈ batch, k ∈ s.pool ∧ k ∉ s.known ∧ k ∈ t.pool ∧ k ∈ t.known

theorem Step.refl (s : Outbox K) : Step s s where
  retires := subset_rfl
  admits _ hk hnot := absurd hk hnot
  drops _ hk hnot := absurd hk hnot
  keeps _ hk _ := hk
  sends := .inl rfl

/-- The item is known as long as it is in the pool, and does not return to the pool. -/
def Settled (s : Outbox K) (k : K) : Prop :=
  k ∈ s.pool ∧ k ∈ s.known ∨ k ∉ s.pool ∧ k ∈ s.retired

theorem Settled.mem_known (h : s.Settled k) (hpool : k ∈ s.pool) : k ∈ s.known := by
  rcases h with ⟨-, hknown⟩ | ⟨hnot, -⟩
  · exact hknown
  · exact absurd hpool hnot

theorem settled_of_known (hknown : k ∈ s.known) (h : k ∈ s.pool ∨ k ∈ s.retired) :
    s.Settled k := by
  by_cases hpool : k ∈ s.pool
  · exact .inl ⟨hpool, hknown⟩
  · exact .inr ⟨hpool, h.resolve_left hpool⟩

theorem Step.mem_pool_or_retired (h : Step s t) (hk : k ∈ s.pool ∨ k ∈ s.retired) :
    k ∈ t.pool ∨ k ∈ t.retired := by
  by_cases hpool : k ∈ t.pool
  · exact .inl hpool
  rcases hk with hk | hk
  · exact .inr (h.drops k hk hpool)
  · exact .inr (h.retires hk)

theorem Settled.step (hk : s.Settled k) (h : Step s t) : t.Settled k := by
  rcases hk with ⟨hpool, hknown⟩ | ⟨hpool, hretired⟩
  · by_cases hpool' : k ∈ t.pool
    · exact .inl ⟨hpool', h.keeps k hknown hpool'⟩
    · exact .inr ⟨hpool', h.drops k hpool hpool'⟩
  · refine .inr ⟨fun hpool' => ?_, h.retires hretired⟩
    exact h.admits k hpool' hpool (h.retires hretired)

/-- No item is in two of the batches, and every item that was sent is settled. -/
structure Once (s : Outbox K) : Prop where
  settled : ∀ batch ∈ s.sent, ∀ k ∈ batch, s.Settled k
  disjoint : s.sent.Pairwise List.Disjoint

theorem Once.step (hs : s.Once) (h : Step s t) : t.Once := by
  have hold : ∀ batch ∈ s.sent, ∀ k ∈ batch, t.Settled k :=
    fun batch hbatch k hk => (hs.settled batch hbatch k hk).step h
  rcases h.sends with hsent | ⟨batch, hsent, hbatch⟩
  · constructor
    · rw [hsent]; exact hold
    · rw [hsent]; exact hs.disjoint
  constructor
  · intro b hb k hk
    rw [hsent, List.mem_append, List.mem_singleton] at hb
    rcases hb with hb | rfl
    · exact hold b hb k hk
    · exact .inl (hbatch k hk).2.2
  · rw [hsent, List.pairwise_append]
    refine ⟨hs.disjoint, List.pairwise_singleton _ _, ?_⟩
    intro b hb b' hb' k hk hk'
    rw [List.mem_singleton] at hb'
    subst hb'
    obtain ⟨hpool, hunknown, -⟩ := hbatch k hk'
    exact hunknown ((hs.settled b hb k hk).mem_known hpool)

end Outbox

end Whisperv6.ProofKit
