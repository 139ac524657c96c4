import Mathlib.Data.List.Nodup
import Mathlib.Data.Set.Insert

/-! A receiver of items that may come any number of times.  An item that comes is queued unless the
pool holds it; later it is taken from the queue and goes to a store or not; and from time to time
the store is handed over and emptied.  An item that has left the pool is retired, and a retired item
is not queued. -/

namespace Whisperv6.ProofKit

/-- `accepted` are the items that went to the store when they were taken from the queue. -/
@[ext] structure Inbox (K : Type) where
  pool : Set K
  retired : Set K
  queue : List K
  taken : List K
  accepted : Set K
  stored : Set K
  returned : List K

namespace Inbox

variable {K : Type} {s t : Inbox K} {k : K}

inductive Step (s : Inbox K) : Inbox K → Prop
  | refresh {pool retired : Set K} (hretired : s.retired ⊆ retired) (hpool : pool ⊆ s.pool)
      (hdrops : ∀ k ∈ s.pool, k ∉ pool → k ∈ retired) : Step s { s with pool, retired }
  | enqueue {retired : Set K} {k : K} (hretired : s.retired ⊆ retired) (hnew : k ∉ s.pool)
      (hlive : k ∉ retired) :
      Step s { s with pool := insert k s.pool, retired, queue := s.queue ++ [k] }
  | skip {k : K} {rest : List K} (hqueue : s.queue = k :: rest) :
      Step s { s with queue := rest, taken := s.taken ++ [k] }
  | store {k : K} {rest : List K} (hqueue : s.queue = k :: rest) :
      Step s { s with
        queue := rest, taken := s.taken ++ [k], accepted := insert k s.accepted
        stored := insert k s.stored }
  | hand {order : List K} (hnodup : order.Nodup) (horder : ∀ k, k ∈ order ↔ k ∈ s.stored) :
      Step s { s with stored := ∅, returned := s.returned ++ order }

theorem Step.refl (s : Inbox K) : Step s s := by
  have h : Step s { s with pool := s.pool, retired := s.retired } :=
    .refresh subset_rfl subset_rfl fun _ hk hnot => absurd hk hnot
  exact h

/-- Every item was queued once, and is in the pool as long as it is not retired; what was accepted
is either stored or was returned, once. -/
structure Once (s : Inbox K) : Prop where
  live : ∀ k ∈ s.taken ++ s.queue, k ∈ s.pool ∨ k ∈ s.retired
  nodup : (s.taken ++ s.queue).Nodup
  accepted : ∀ k ∈ s.accepted, k ∈ s.taken
  stored : ∀ k ∈ s.stored, k ∈ s.accepted ∧ k ∉ s.returned
  returned : ∀ k ∈ s.returned, k ∈ s.accepted
  kept : ∀ k ∈ s.accepted, k ∈ s.stored ∨ k ∈ s.returned
  once : s.returned.Nodup

/-- The items that were queued are taken in turn. -/
theorem taken_append {rest : List K} (h : s.queue = k :: rest) :
    (s.taken ++ [k]) ++ rest = s.taken ++ s.queue := by
  rw [h, List.append_assoc, List.singleton_append]

/-- An item at the head of the queue was not taken before. -/
theorem Once.notMem_taken (h : s.Once) {rest : List K} (hqueue : s.queue = k :: rest) :
    k ∉ s.taken := by
  have hnodup := h.nodup
  rw [hqueue] at hnodup
  exact fun hk => List.disjoint_of_nodup_append hnodup hk List.mem_cons_self

theorem Once.step (h : s.Once) (hstep : Step s t) : t.Once := by
  cases hstep with
  | @refresh pool retired hretired hpool hdrops =>
    refine ⟨fun k hk => ?_, h.nodup, h.accepted, h.stored, h.returned, h.kept, h.once⟩
    by_cases hmem : k ∈ pool
    · exact .inl hmem
    rcases h.live k hk with hold | hold
    · exact .inr (hdrops k hold hmem)
    · exact .inr (hretired hold)
  | @enqueue retired k hretired hnew hlive =>
    have happend : s.taken ++ (s.queue ++ [k]) = (s.taken ++ s.queue) ++ [k] :=
      (List.append_assoc ..).symm
    -- a retired item is not admitted, so the item was not queued before
    have hfresh : k ∉ s.taken ++ s.queue := fun hk =>
      (h.live k hk).elim hnew fun hold => hlive (hretired hold)
    refine ⟨fun j hj => ?_, ?_, h.accepted, h.stored, h.returned, h.kept, h.once⟩
    · rw [happend, List.mem_append, List.mem_singleton] at hj
      rcases hj with hj | rfl
      · exact (h.live j hj).imp (Set.mem_insert_of_mem _) (hretired ·)
      · exact .inl (Set.mem_insert _ _)
    · rw [happend]
      exact h.nodup.append (List.nodup_singleton k) (List.disjoint_singleton.mpr hfresh)
  | @skip k rest hqueue =>
    refine ⟨?_, ?_, fun j hj => ?_, h.stored, h.returned, h.kept, h.once⟩
    · rw [taken_append hqueue]
      exact h.live
    · rw [taken_append hqueue]
      exact h.nodup
    · exact List.mem_append_left _ (h.accepted j hj)
  | @store k rest hqueue =>
    have hnot := h.notMem_taken hqueue
    refine ⟨?_, ?_, fun j hj => ?_, fun j hj => ?_, fun j hj => ?_, fun j hj => ?_, h.once⟩
    · rw [taken_append hqueue]
      exact h.live
    · rw [taken_append hqueue]
      exact h.nodup
    · rcases hj with rfl | hj
      · exact List.mem_append_right _ (List.mem_singleton_self j)
      · exact List.mem_append_left _ (h.accepted j hj)
    · rcases hj with rfl | hj
      · exact ⟨Set.mem_insert _ _, fun hret => hnot (h.accepted j (h.returned j hret))⟩
      · exact ⟨Set.mem_insert_of_mem _ (h.stored j hj).1, (h.stored j hj).2⟩
    · exact Set.mem_insert_of_mem _ (h.returned j hj)
    · rcases hj with rfl | hj
      · exact .inl (Set.mem_insert _ _)
      · exact (h.kept j hj).imp_left (Set.mem_insert_of_mem _)
  | @hand order hnodup horder =>
    refine ⟨h.live, h.nodup, h.accepted, fun j hj => hj.elim, fun j hj => ?_, fun j hj => ?_, ?_⟩
    · rcases List.mem_append.mp hj with hj | hj
      · exact h.returned j hj
      · exact (h.stored j ((horder j).mp hj)).1
    · refine .inr (List.mem_append.mpr ?_)
      exact (h.kept j hj).symm.imp_right (horder j).mpr
    · refine h.once.append hnodup fun j hret hj => ?_
      exact (h.stored j ((horder j).mp hj)).2 hret

/-- An item is returned at most once, and one that was accepted is either in the store or was
returned, once. -/
theorem Once.count_returned [DecidableEq K] (h : s.Once) (k : K) :
    s.returned.count k ≤ 1 ∧ (k ∈ s.accepted →
      k ∈ s.stored ∧ s.returned.count k = 0 ∨ k ∉ s.stored ∧ s.returned.count k = 1) := by
  refine ⟨List.nodup_iff_count_le_one.mp h.once k, fun hk => ?_⟩
  by_cases hstored : k ∈ s.stored
  · exact .inl ⟨hstored, List.count_eq_zero.mpr (h.stored k hstored).2⟩
  · have hret := (h.kept k hk).resolve_left hstored
    exact .inr ⟨hstored, List.count_eq_one_of_mem h.once hret⟩

end Inbox

end Whisperv6.ProofKit
