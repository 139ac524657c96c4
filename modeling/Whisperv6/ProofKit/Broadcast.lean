import Mathlib.Data.Multiset.AddSub
import Mathlib.Logic.Function.Basic

/-! Values that are sent one after another to whoever is present.  A round is one value on its way:
it goes to the members, those who were present when the round began, in any order, and a member who
leaves before its turn does not get it.  Others may join during a round and are no members of it.
Whoever is present several times gets the value as often. -/

namespace Whisperv6.ProofKit

namespace Broadcast

/-- `pending` are the members who have neither received the value nor left, `left` are those who
have left before their turn, and `count` is the number of deliveries. -/
structure Round (K : Type) where
  number : Nat
  members : Multiset K
  pending : Multiset K
  left : Multiset K
  count : Nat

end Broadcast

/-- `received` has the values that each one got, with the numbers of their rounds. -/
structure Broadcast (K V : Type) where
  present : Multiset K
  sent : List V
  round : Option (Broadcast.Round K)
  received : K → List (Nat × V)
  finished : List (Broadcast.Round K)

namespace Broadcast

variable {K V : Type}

/-- How often `k` has got the value of the round `n`. -/
def got (received : K → List (Nat × V)) (n : Nat) (k : K) : Nat :=
  ((received k).map Prod.fst).count n

section

variable [DecidableEq K]

/-- Every member has got the value of the round, is pending or has left, and `count` has counted
those who got it. -/
structure Round.Exact (received : K → List (Nat × V)) (r : Round K) : Prop where
  shares : ∀ k, r.members.count k =
    got received r.number k + r.pending.count k + r.left.count k
  total : r.members.card = r.count + r.pending.card + r.left.card

/-- Everyone gets the values in the order of the rounds, and every round is exact. -/
structure Exact (b : Broadcast K V) : Prop where
  ordered : ∀ k, ((b.received k).map Prod.fst).Pairwise (· ≤ ·)
  values : ∀ k, ∀ x ∈ b.received k, b.sent[x.1]? = some x.2
  number : ∀ r, b.round = some r → r.number + 1 = b.sent.length
  round : ∀ r, b.round = some r → r.Exact b.received
  before : ∀ r ∈ b.finished, r.number < b.sent.length ∧
    ∀ r', b.round = some r' → r.number < r'.number
  done : ∀ r ∈ b.finished, r.pending = 0
  finished : ∀ r ∈ b.finished, r.Exact b.received

/-- The number of a round is not that of a value to come. -/
theorem Exact.lt_of_mem {b : Broadcast K V} (h : b.Exact) {n : Nat} {k : K}
    (hn : n ∈ (b.received k).map Prod.fst) : n < b.sent.length := by
  obtain ⟨x, hx, rfl⟩ := List.mem_map.mp hn
  exact (List.getElem?_eq_some_iff.mp (h.values k x hx)).1

/-- What is known of a round depends on who got its value only. -/
theorem Round.Exact.congr {received received' : K → List (Nat × V)} {r : Round K}
    (h : r.Exact received) (hgot : ∀ k, got received' r.number k = got received r.number k) :
    r.Exact received' := by
  refine ⟨fun k => ?_, h.total⟩
  rw [hgot]
  exact h.shares k

theorem Exact.begin {b : Broadcast K V} (h : b.Exact) (v : V) :
    Exact { b with
      sent := b.sent ++ [v]
      round := some
        { number := b.sent.length
          members := b.present
          pending := b.present
          left := 0
          count := 0 } } := by
  have hnone : ∀ k, got b.received b.sent.length k = 0 := fun k =>
    List.count_eq_zero.mpr fun hk => Nat.lt_irrefl _ (h.lt_of_mem hk)
  refine ⟨h.ordered, fun k x hx => ?_, fun r hr => ?_, fun r hr => ?_, fun r hr => ?_, h.done,
    h.finished⟩
  · have hx := h.values k x hx
    have hlt := (List.getElem?_eq_some_iff.mp hx).1
    rw [List.getElem?_append_left hlt]
    exact hx
  · cases hr
    simp
  · cases hr
    exact ⟨fun k => by simp [hnone], by simp⟩
  · have hlt := (h.before r hr).1
    dsimp only
    rw [List.length_append, List.length_singleton]
    refine ⟨by omega, fun r' hr' => ?_⟩
    cases hr'
    exact hlt

theorem Exact.finish {b : Broadcast K V} {r : Round K} (h : b.Exact) (hround : b.round = some r)
    (hdone : r.pending = 0) :
    Exact { b with round := none, finished := b.finished ++ [r] } := by
  have hnone : ∀ {P : Round K → Prop} r', none = some r' → P r' := by
    intro P r' hr'
    cases hr'
  -- what holds of the rounds before holds of this one too
  have hall : ∀ {P : Round K → Prop}, (∀ r' ∈ b.finished, P r') → P r →
      ∀ r' ∈ b.finished ++ [r], P r' := by
    intro P hold hlast r' hr'
    obtain hr' | hr' := List.mem_append.mp hr'
    · exact hold r' hr'
    · rw [List.mem_singleton.mp hr']
      exact hlast
  have hnumber := h.number r hround
  refine ⟨h.ordered, h.values, hnone, hnone, ?_, hall h.done hdone,
    hall h.finished (h.round r hround)⟩
  exact hall (fun r' hr' => ⟨(h.before r' hr').1, hnone⟩) ⟨by show _ < b.sent.length; omega, hnone⟩

/-- A member leaves before its turn. -/
def Round.leave (k : K) (r : Round K) : Round K :=
  { r with pending := r.pending.erase k, left := k ::ₘ r.left }

/-- The value of a round goes to one of its members. -/
def Round.deliver (k : K) (r : Round K) : Round K :=
  { r with pending := r.pending.erase k, count := r.count + 1 }

/-- `received` after `k` has got the value `v` of the round `n`. -/
def give (received : K → List (Nat × V)) (n : Nat) (k : K) (v : V) : K → List (Nat × V) :=
  Function.update received k (received k ++ [(n, v)])

/-- Whoever leaves and is not pending changes nothing in the round. -/
inductive Step (b : Broadcast K V) : Broadcast K V → Prop
  | rest : Step b b
  | join (k : K) : Step b { b with present := k ::ₘ b.present }
  | depart (k : K) : Step b { b with present := b.present.erase k }
  | leave (r : Round K) (k : K) (hround : b.round = some r) (hk : k ∈ r.pending) :
      Step b { b with present := b.present.erase k, round := some (r.leave k) }
  | begin (v : V) (hidle : b.round = none) :
      Step b { b with
        sent := b.sent ++ [v]
        round := some
          { number := b.sent.length
            members := b.present
            pending := b.present
            left := 0
            count := 0 } }
  | deliver (r : Round K) (k : K) (v : V) (hround : b.round = some r) (hk : k ∈ r.pending)
      (hv : b.sent[r.number]? = some v) :
      Step b { b with
        received := give b.received r.number k v
        round := some (r.deliver k) }
  | finish (r : Round K) (hround : b.round = some r) (hdone : r.pending = 0) :
      Step b { b with round := none, finished := b.finished ++ [r] }

variable {b b' : Broadcast K V} {received : K → List (Nat × V)} {r : Round K} {k : K} {v : V}

/-- One of the members that are pending, and the others. -/
theorem count_erase_add {s : Multiset K} (hk : k ∈ s) (j : K) :
    s.count j = (s.erase k).count j + if j = k then 1 else 0 := by
  conv_lhs => rw [← Multiset.cons_erase hk]
  rw [Multiset.count_cons]

theorem Round.Exact.leave (h : r.Exact received) (hk : k ∈ r.pending) :
    (r.leave k).Exact received := by
  constructor
  · intro j
    have hshares := h.shares j
    have hpending := count_erase_add hk j
    simp only [Round.leave, Multiset.count_cons]
    omega
  · have htotal := h.total
    have hpending := Multiset.card_erase_add_one hk
    simp only [Round.leave, Multiset.card_cons]
    omega

theorem got_give (n m : Nat) (j : K) :
    got (give received m k v) n j = got received n j + if j = k ∧ n = m then 1 else 0 := by
  unfold got give
  by_cases h : j = k
  · subst h
    rw [Function.update_self, List.map_append, List.count_append]
    by_cases hn : n = m
    · simp [hn]
    · simp [hn, Ne.symm hn]
  · rw [Function.update_of_ne h]
    simp [h]

theorem Round.Exact.deliver (h : r.Exact received) (hk : k ∈ r.pending) :
    (r.deliver k).Exact (give received r.number k v) := by
  constructor
  · intro j
    have hshares := h.shares j
    have hpending := count_erase_add hk j
    simp only [Round.deliver, got_give, and_true]
    omega
  · have htotal := h.total
    have hpending := Multiset.card_erase_add_one hk
    simp only [Round.deliver]
    omega

/-- This is the last round, so its value comes last. -/
theorem Exact.ordered_give (h : b.Exact) (hround : b.round = some r) (j : K) :
    ((give b.received r.number k v j).map Prod.fst).Pairwise (· ≤ ·) := by
  unfold give
  by_cases hjk : j = k
  · subst hjk
    rw [Function.update_self, List.map_append, List.pairwise_append]
    refine ⟨h.ordered j, List.pairwise_singleton _ _, fun n hn m hm => ?_⟩
    have hlt := h.lt_of_mem hn
    have hnumber := h.number r hround
    have hm : m = r.number := List.mem_singleton.mp hm
    omega
  · rw [Function.update_of_ne hjk]
    exact h.ordered j

theorem Exact.deliver (h : b.Exact) (hround : b.round = some r) (hk : k ∈ r.pending)
    (hv : b.sent[r.number]? = some v) :
    Exact { b with
      received := give b.received r.number k v
      round := some (r.deliver k) } := by
  refine ⟨h.ordered_give hround, fun j x hx => ?_, fun r' hr' => ?_, fun r' hr' => ?_,
    fun r' hr' => ?_, h.done, fun r' hr' => ?_⟩
  · simp only [give] at hx
    by_cases hjk : j = k
    · subst hjk
      rw [Function.update_self, List.mem_append, List.mem_singleton] at hx
      obtain hx | rfl := hx
      · exact h.values j x hx
      · exact hv
    · rw [Function.update_of_ne hjk] at hx
      exact h.values j x hx
  · cases hr'
    exact h.number r hround
  · cases hr'
    exact (h.round r hround).deliver hk
  · obtain ⟨hlt, hbefore⟩ := h.before r' hr'
    refine ⟨hlt, fun r₂ hr₂ => ?_⟩
    cases hr₂
    exact hbefore r hround
  · have hne : r'.number ≠ r.number := Nat.ne_of_lt ((h.before r' hr').2 r hround)
    refine (h.finished r' hr').congr fun j => ?_
    rw [got_give, if_neg fun heq => hne heq.2, Nat.add_zero]

theorem Exact.leave (h : b.Exact) (hround : b.round = some r) (hk : k ∈ r.pending) :
    Exact { b with present := b.present.erase k, round := some (r.leave k) } := by
  refine ⟨h.ordered, h.values, fun r' hr' => ?_, fun r' hr' => ?_, fun r' hr' => ?_, h.done,
    h.finished⟩
  · cases hr'
    exact h.number r hround
  · cases hr'
    exact (h.round r hround).leave hk
  · refine ⟨(h.before r' hr').1, fun r₂ hr₂ => ?_⟩
    cases hr₂
    exact (h.before r' hr').2 r hround

theorem Exact.step (h : b.Exact) (hstep : Step b b') : b'.Exact := by
  cases hstep with
  | rest => exact h
  | join k => exact ⟨h.ordered, h.values, h.number, h.round, h.before, h.done, h.finished⟩
  | depart k => exact ⟨h.ordered, h.values, h.number, h.round, h.before, h.done, h.finished⟩
  | leave r k hround hk => exact h.leave hround hk
  | begin v => exact h.begin v
  | deliver r k v hround hk hv => exact h.deliver hround hk hv
  | finish r hround hdone => exact h.finish hround hdone

end

end Broadcast

end Whisperv6.ProofKit
