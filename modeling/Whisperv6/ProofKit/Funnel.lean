import Mathlib.Data.List.Basic
import Mathlib.Logic.Function.Basic

/-! Several producers that share one queue with one consumer.  A producer is fed a batch of items
at a time and puts them on the queue one by one, while the others put theirs.  The consumer holds
the item that it has taken until it releases it.  The items of one producer are released in the
order in which it was fed them. -/

namespace Whisperv6.ProofKit

/-- An item with the producer that put it and the number of the batch it was fed in; items that come
from elsewhere have no stamp. -/
abbrev Stamped (I A : Type) := Option (I × Nat) × A

/-- `pending` are the items of the last batch that a producer has not put yet. -/
@[ext]
structure Funnel (I A : Type) where
  batches : I → List (List A)
  pending : I → List A
  queue : List (Stamped I A)
  held : Option (Stamped I A)
  released : List (Stamped I A)

namespace Funnel

variable {I A : Type} [DecidableEq I]

/-- The items of the producer `i`, with the numbers of their batches. -/
def of (i : I) (xs : List (Stamped I A)) : List (Nat × A) :=
  xs.filterMap fun x =>
    match x.1 with
    | some (j, k) => if j = i then some (k, x.2) else none
    | none => none

/-- The items of batches, with the numbers of the batches from `k` on. -/
def numbered : (k : Nat) → List (List A) → List (Nat × A)
  | _, [] => []
  | k, batch :: rest => batch.map (Prod.mk k) ++ numbered (k + 1) rest

section Lists

variable {i : I} {xs ys : List (Stamped I A)}

@[simp] theorem of_nil : of i ([] : List (Stamped I A)) = [] := rfl

@[simp] theorem of_append : of i (xs ++ ys) = of i xs ++ of i ys := List.filterMap_append

theorem of_cons (x : Stamped I A) : of i (x :: xs) = of i [x] ++ of i xs :=
  @of_append _ _ _ i [x] xs

@[simp] theorem of_self (k : Nat) (a : A) : of i [(some (i, k), a)] = [(k, a)] := by
  simp [of]

theorem of_other {j : I} (h : j ≠ i) (k : Nat) (a : A) : of i [(some (j, k), a)] = [] := by
  simp [of, h]

@[simp] theorem of_unstamped (a : A) : of i [((none : Option (I × Nat)), a)] = [] := rfl

theorem numbered_append (k : Nat) (bs cs : List (List A)) :
    numbered k (bs ++ cs) = numbered k bs ++ numbered (k + bs.length) cs := by
  induction bs generalizing k with
  | nil => rfl
  | cons b bs ih =>
    rw [List.cons_append, numbered, ih, numbered, List.append_assoc, List.length_cons,
      Nat.add_right_comm, Nat.add_assoc]

theorem map_numbered (k : Nat) (bs : List (List A)) :
    (numbered k bs).map Prod.snd = bs.flatten := by
  induction bs generalizing k with
  | nil => rfl
  | cons b bs ih => simp [numbered, ih, Function.comp_def]

theorem number_bounds {k : Nat} {bs : List (List A)} {x : Nat × A} (h : x ∈ numbered k bs) :
    k ≤ x.1 ∧ x.1 < k + bs.length := by
  induction bs generalizing k with
  | nil => cases h
  | cons b bs ih =>
    rw [numbered, List.mem_append] at h
    rw [List.length_cons]
    obtain h | h := h
    · obtain ⟨a, -, rfl⟩ := List.mem_map.mp h
      dsimp only
      omega
    · have := ih h
      omega

/-- A list has one split at an element that is the only one with a property. -/
theorem split_at_only {P : A → Prop} {a b c d : List A} {x y : A} (h : a ++ x :: b = c ++ y :: d)
    (hx : P x) (hc : ∀ z ∈ c, ¬P z) (hd : ∀ z ∈ d, ¬P z) : a = c ∧ x = y := by
  induction c generalizing a with
  | nil =>
    cases a with
    | nil =>
      cases h
      exact ⟨rfl, rfl⟩
    | cons a₀ a =>
      rw [List.cons_append, List.nil_append, List.cons.injEq] at h
      exact absurd hx (hd x (by rw [← h.2]; simp))
  | cons c₀ c ih =>
    cases a with
    | nil =>
      rw [List.nil_append, List.cons_append, List.cons.injEq] at h
      exact absurd hx (by rw [h.1]; exact hc c₀ (by simp))
    | cons a₀ a =>
      rw [List.cons_append, List.cons_append, List.cons.injEq] at h
      obtain ⟨rfl, rfl⟩ := ih h.2 fun z hz => hc z (by simp [hz])
      exact ⟨by rw [h.1], rfl⟩

end Lists

/-! ### Steps -/

inductive Step (s : Funnel I A) : Funnel I A → Prop
  | skip : Step s s
  | feed (i : I) (batch : List A) (h : s.pending i = []) :
      Step s { s with
        batches := Function.update s.batches i (s.batches i ++ [batch])
        pending := Function.update s.pending i batch }
  | put (i : I) (a : A) (rest : List A) (h : s.pending i = a :: rest) :
      Step s { s with
        pending := Function.update s.pending i rest
        queue := s.queue ++ [(some (i, (s.batches i).length - 1), a)] }
  | insert (a : A) : Step s { s with queue := s.queue ++ [(none, a)] }
  | take (x : Stamped I A) (rest : List (Stamped I A)) (hfree : s.held = none)
      (hqueue : s.queue = x :: rest) : Step s { s with queue := rest, held := some x }
  | release (x : Stamped I A) (hheld : s.held = some x) :
      Step s { s with held := none, released := s.released ++ [x] }

/-- No item is lost, doubled or overtaken by another one of its producer. -/
def Conserved (s : Funnel I A) : Prop :=
  ∀ i, of i s.released ++ of i s.held.toList ++ of i s.queue ++
    (s.pending i).map (Prod.mk ((s.batches i).length - 1)) = numbered 0 (s.batches i)

theorem Step.conserved {s t : Funnel I A} (h : Step s t) (hs : s.Conserved) : t.Conserved := by
  intro i
  have hi := hs i
  cases h with
  | skip => exact hi
  | feed j batch hidle =>
    dsimp only
    by_cases hij : i = j
    · subst hij
      rw [hidle, List.map_nil, List.append_nil] at hi
      rw [Function.update_self, Function.update_self, hi, numbered_append]
      simp [numbered]
    · rw [Function.update_of_ne hij, Function.update_of_ne hij, hi]
  | put j a rest hpending =>
    dsimp only
    by_cases hij : i = j
    · subst hij
      rw [Function.update_self, of_append, of_self, ← hi, hpending]
      simp
    · rw [Function.update_of_ne hij, of_append, of_other (Ne.symm hij), List.append_nil, hi]
  | insert a =>
    dsimp only
    rw [of_append, of_unstamped, List.append_nil, hi]
  | take x rest hfree hqueue =>
    rw [hfree, hqueue, of_cons] at hi
    simpa using hi
  | release x hheld =>
    rw [hheld] at hi
    simpa using hi

/-- An item of a batch that has no other items comes after the items of the batches before. -/
theorem Conserved.before_single {s : Funnel I A} (hs : s.Conserved) {i : I} {k : Nat} {a : A}
    {batch : List A} {pre post : List (Stamped I A)} (hbatch : (s.batches i)[k]? = some batch)
    (hsingle : batch.length ≤ 1) (hreleased : s.released = pre ++ (some (i, k), a) :: post) :
    batch = [a] ∧ (of i pre).map Prod.snd = ((s.batches i).take k).flatten := by
  have hi := hs i
  obtain ⟨hk, hget⟩ := List.getElem?_eq_some_iff.mp hbatch
  have hsplit : s.batches i = (s.batches i).take k ++ batch :: (s.batches i).drop (k + 1) := by
    rw [← hget, List.getElem_cons_drop, List.take_append_drop]
  have hlen : ((s.batches i).take k).length = k := List.length_take_of_le (Nat.le_of_lt hk)
  rw [hreleased, of_append, of_cons, of_self, hsplit, numbered_append, hlen, numbered] at hi
  simp only [List.append_assoc, List.cons_append, List.nil_append, Nat.zero_add] at hi
  -- the numbers of the other items differ from `k`
  have hbefore : ∀ z ∈ numbered 0 ((s.batches i).take k), z.1 ≠ k := by
    intro z hz heq
    have := number_bounds hz
    omega
  have hafter : ∀ z ∈ numbered (k + 1) ((s.batches i).drop (k + 1)), z.1 ≠ k := by
    intro z hz heq
    have := number_bounds hz
    omega
  match batch, hsingle with
  | [], _ =>
    have hmem : (k, a) ∈ numbered 0 ((s.batches i).take k) ++
        numbered (k + 1) ((s.batches i).drop (k + 1)) := by
      have hall := congrArg ((k, a) ∈ ·) hi
      simpa using hall
    obtain hmem | hmem := List.mem_append.mp hmem
    · exact absurd rfl (hbefore _ hmem)
    · exact absurd rfl (hafter _ hmem)
  | [b], _ =>
    rw [List.map_cons, List.map_nil, List.cons_append, List.nil_append] at hi
    obtain ⟨hpre, hitem⟩ := split_at_only (P := fun x => x.1 = k) hi rfl hbefore hafter
    have hab : a = b := congrArg Prod.snd hitem
    refine ⟨by rw [hab], ?_⟩
    rw [hpre, map_numbered]

end Funnel

end Whisperv6.ProofKit
