import Mathlib.Algebra.BigOperators.Group.Finset.Basic
import Mathlib.Algebra.GroupWithZero.Nat
import Mathlib.Data.Finmap

/-! What a model of a Go program uses of the language and its runtime: byte slices, maps and sets
with the orders in which a loop may visit them, loops that may panic, variables, and errors with the
type assertions on them. -/

namespace Whisperv6.ProofKit

/-- The contents of a byte slice. -/
abbrev Bytes := List UInt8

/-! ### Maps and sets -/

/-- A map from `K` to `V`. -/
abbrev GoMap (K V : Type) := Finmap fun _ : K => V

theorem lookup_insert_iff {K V : Type} [DecidableEq K] {m : GoMap K V} {k k' : K} {v v' : V} :
    (m.insert k v).lookup k' = some v' ↔ k' = k ∧ v' = v ∨ k' ≠ k ∧ m.lookup k' = some v' := by
  by_cases h : k' = k
  · subst h
    rw [Finmap.lookup_insert, Option.some.injEq]
    simp [eq_comm]
  · rw [Finmap.lookup_insert_of_ne _ h]
    simp [h]

theorem lookup_erase_iff {K V : Type} [DecidableEq K] {m : GoMap K V} {k k' : K} {v : V} :
    (m.erase k).lookup k' = some v ↔ k' ≠ k ∧ m.lookup k' = some v := by
  by_cases h : k' = k
  · subst h
    simp
  · rw [Finmap.lookup_erase_ne h]
    simp [h]

theorem erase_of_notMem {K V : Type} [DecidableEq K] {m : GoMap K V} {k : K} (h : k ∉ m) :
    m.erase k = m := by
  apply Finmap.ext_lookup
  intro j
  by_cases hj : j = k
  · rw [hj, Finmap.lookup_erase, Finmap.lookup_eq_none.mpr h]
  · rw [Finmap.lookup_erase_ne hj]

/-- A table of optional values after one entry is set. -/
theorem update_some_iff {K V : Type} [DecidableEq K] {m : K → Option V} {k k' : K} {v v' : V} :
    Function.update m k (some v) k' = some v' ↔ k' = k ∧ v' = v ∨ k' ≠ k ∧ m k' = some v' := by
  by_cases h : k' = k
  · subst h
    rw [Function.update_self, Option.some.injEq]
    simp [eq_comm]
  · rw [Function.update_of_ne h]
    simp [h]

theorem mem_getD_empty {K : Type} {o : Option (Finset K)} {k : K} :
    k ∈ o.getD ∅ ↔ ∃ s, o = some s ∧ k ∈ s := by
  cases o with
  | none => simp
  | some s => simp

/-- The map without the keys of a list. -/
def eraseAll {K V : Type} [DecidableEq K] (m : GoMap K V) (keys : List K) : GoMap K V :=
  keys.foldl (fun m k => m.erase k) m

theorem lookup_eraseAll {K V : Type} [DecidableEq K] (m : GoMap K V) (keys : List K) (k : K) :
    (eraseAll m keys).lookup k = if k ∈ keys then none else m.lookup k := by
  induction keys generalizing m with
  | nil => simp [eraseAll]
  | cons a rest ih =>
    have hstep : eraseAll m (a :: rest) = eraseAll (m.erase a) rest := rfl
    rw [hstep, ih]
    by_cases ha : k = a
    · subst ha
      simp
    · simp [ha, Finmap.lookup_erase_ne ha]

/-- The map with `f` applied to its values. -/
def mapValues {K V W : Type} (f : V → W) (m : GoMap K V) : GoMap K W where
  entries := m.entries.map (Sigma.map id fun _ => f)
  nodupKeys := by
    rw [← Multiset.nodup_keys, Multiset.keys, Multiset.map_map]
    exact Multiset.nodup_keys.mpr m.nodupKeys

@[simp] theorem lookup_mapValues {K V W : Type} [DecidableEq K] (f : V → W) (m : GoMap K V)
    (k : K) : (mapValues f m).lookup k = (m.lookup k).map f :=
  m.induction_on fun s => List.dlookup_map₂ (l := s.entries) (f := fun _ => f) k

@[simp] theorem mem_mapValues {K V W : Type} [DecidableEq K] {f : V → W} {m : GoMap K V} {k : K} :
    k ∈ mapValues f m ↔ k ∈ m := by
  rw [← Finmap.lookup_isSome, ← Finmap.lookup_isSome, lookup_mapValues, Option.isSome_map]

theorem mapValues_insert {K V W : Type} [DecidableEq K] (f : V → W) (m : GoMap K V) (k : K)
    (v : V) : mapValues f (m.insert k v) = (mapValues f m).insert k (f v) := by
  apply Finmap.ext_lookup
  intro k'
  by_cases hk : k' = k
  · subst hk
    simp
  · simp [Finmap.lookup_insert_of_ne, hk]

theorem mapValues_congr {K V W : Type} [DecidableEq K] {f g : V → W} {m : GoMap K V}
    (h : ∀ k v, m.lookup k = some v → f v = g v) : mapValues f m = mapValues g m := by
  apply Finmap.ext_lookup
  intro k
  rw [lookup_mapValues, lookup_mapValues]
  exact Option.map_congr fun v hv => h k v hv

/-- `order` lists the elements of `s` once each: an order in which a `range` loop over a map with
keys `s` may visit them. -/
def IsOrder {K : Type} (s : Finset K) (order : List K) : Prop :=
  order.Nodup ∧ ∀ k, k ∈ order ↔ k ∈ s

instance {K : Type} [DecidableEq K] (s : Finset K) (order : List K) :
    Decidable (IsOrder s order) :=
  decidable_of_iff (order.Nodup ∧ order.toFinset = s) (by simp [IsOrder, Finset.ext_iff])

theorem IsOrder.mem {K : Type} {s : Finset K} {order : List K} (h : IsOrder s order) {k : K} :
    k ∈ order ↔ k ∈ s := h.2 k

theorem exists_isOrder {K : Type} (s : Finset K) : ∃ order, IsOrder s order :=
  ⟨s.toList, s.nodup_toList, fun _ => Finset.mem_toList⟩

theorem IsOrder.length_eq {K : Type} {s : Finset K} {order : List K} (h : IsOrder s order) :
    order.length = s.card := by
  classical
  have hs : order.toFinset = s := by
    ext k
    rw [List.mem_toFinset, h.mem]
  rw [← hs, List.toFinset_card_of_nodup h.1]

/-- A loop may visit any element first. -/
theorem exists_isOrder_cons {K : Type} {s : Finset K} {k : K} (h : k ∈ s) :
    ∃ rest, IsOrder s (k :: rest) ∧ k ∉ rest := by
  classical
  obtain ⟨rest, hnodup, hmem⟩ := exists_isOrder (s.erase k)
  have hk : k ∉ rest := by rw [hmem]; exact Finset.notMem_erase k s
  refine ⟨rest, ⟨List.nodup_cons.mpr ⟨hk, hnodup⟩, fun j => ?_⟩, hk⟩
  rw [List.mem_cons, hmem, Finset.mem_erase]
  constructor
  · rintro (rfl | ⟨-, hj⟩)
    · exact h
    · exact hj
  · intro hj
    by_cases hjk : j = k
    · exact .inl hjk
    · exact .inr ⟨hjk, hj⟩

theorem IsOrder.filter {K : Type} {s : Finset K} {order : List K} (h : IsOrder s order)
    (q : K → Bool) : IsOrder (s.filter fun k => q k = true) (order.filter q) := by
  refine ⟨h.1.filter q, fun k => ?_⟩
  rw [List.mem_filter, Finset.mem_filter, h.mem]

theorem IsOrder.sum_map {K : Type} [DecidableEq K] {s : Finset K} {order : List K}
    (h : IsOrder s order) (f : K → Nat) : (order.map f).sum = ∑ k ∈ s, f k := by
  have hs : order.toFinset = s := by
    ext k
    rw [List.mem_toFinset, h.mem]
  rw [← hs, List.sum_toFinset f h.1]

/-- The `Each` of a set, in the order `order`: the callback takes an element and the state, and
the loop stops as soon as the callback returns `true`.  `none` is a panic of the callback. -/
def each {α σ : Type} (cb : α → σ → Option (Bool × σ)) : List α → σ → Option σ
  | [], s => some s
  | a :: rest, s =>
    match cb a s with
    | none => none
    | some (true, s') => some s'
    | some (false, s') => each cb rest s'

/-- What the callback keeps holds after the loop, also after one that stops early. -/
theorem each_invariant {α σ : Type} {cb : α → σ → Option (Bool × σ)} {P : σ → Prop}
    (hcb : ∀ a s b s', P s → cb a s = some (b, s') → P s') {l : List α} {s s' : σ} (hs : P s)
    (h : each cb l s = some s') : P s' := by
  induction l generalizing s with
  | nil =>
    cases h
    exact hs
  | cons a rest ih =>
    rw [each] at h
    split at h
    · cases h
    · rename_i ht
      cases h
      exact hcb a s true _ hs ht
    · rename_i t ht
      exact ih (hcb a s false t hs ht) h

/-! ### Loops that may panic

A loop whose body reads slices by index is a loop in `Option`, where `none` is a panic. -/

section Panics

variable {α β σ : Type} {l : List α}

theorem allM_eq_some {p : α → Option Bool} {q : α → Bool} (h : ∀ a ∈ l, p a = some (q a)) :
    l.allM p = some (l.all q) := by
  induction l with
  | nil => rfl
  | cons a rest ih =>
    have hrest := ih fun b hb => h b (List.mem_cons_of_mem _ hb)
    rw [List.allM, h a List.mem_cons_self, List.all_cons]
    cases q a with
    | false => rfl
    | true => exact hrest

theorem mapM_eq_some {f : α → Option β} {g : α → β} (h : ∀ a ∈ l, f a = some (g a)) :
    l.mapM f = some (l.map g) := by
  induction l with
  | nil => rfl
  | cons a rest ih =>
    rw [List.mapM_cons, h a List.mem_cons_self, ih fun b hb => h b (List.mem_cons_of_mem _ hb)]
    rfl

theorem filterAuxM_eq_some {p : α → Option Bool} {q : α → Bool} (h : ∀ a ∈ l, p a = some (q a))
    (acc : List α) : l.filterAuxM p acc = some ((l.filter q).reverse ++ acc) := by
  induction l generalizing acc with
  | nil => rfl
  | cons a rest ih =>
    rw [List.filterAuxM, h a List.mem_cons_self]
    refine (ih (fun b hb => h b (List.mem_cons_of_mem _ hb)) _).trans ?_
    cases hq : q a <;> simp [hq]

theorem filterM_eq_some {p : α → Option Bool} {q : α → Bool} (h : ∀ a ∈ l, p a = some (q a)) :
    l.filterM p = some (l.filter q) := by
  rw [List.filterM, filterAuxM_eq_some h]
  simp

/-- An accumulator with a property on which the body does not panic. -/
theorem foldlM_eq_some {f : σ → α → Option σ} {g : σ → α → σ} {P : σ → Prop}
    (h : ∀ s, P s → ∀ a ∈ l, f s a = some (g s a) ∧ P (g s a)) {s : σ} (hs : P s) :
    l.foldlM f s = some (l.foldl g s) ∧ P (l.foldl g s) := by
  induction l generalizing s with
  | nil => exact ⟨rfl, hs⟩
  | cons a rest ih =>
    obtain ⟨hf, hg⟩ := h s hs a List.mem_cons_self
    rw [List.foldlM_cons, hf]
    exact ih (fun t ht b hb => h t ht b (List.mem_cons_of_mem _ hb)) hg

/-- Steps that do not panic on the states with a property, and keep it, lead from such a state to
such a state. -/
theorem foldlM_total {f : σ → α → Option σ} {P : σ → Prop}
    (h : ∀ s, P s → ∀ a, ∃ t, f s a = some t ∧ P t) (l : List α) {s : σ} (hs : P s) :
    ∃ t, l.foldlM f s = some t ∧ P t := by
  induction l generalizing s with
  | nil => exact ⟨s, rfl, hs⟩
  | cons a rest ih =>
    obtain ⟨t, hf, ht⟩ := h s hs a
    rw [List.foldlM_cons, hf]
    exact ih ht

end Panics

/-! ### Variables -/

/-- The variables of a program by their addresses, of which those from `next` on are not in use. -/
structure Memory (V : Type) where
  next : Nat
  load : Nat → V

namespace Memory

variable {V : Type}

/-- A new variable. -/
def alloc (m : Memory V) (v : V) : Memory V × Nat :=
  ({ next := m.next + 1, load := Function.update m.load m.next v }, m.next)

def store (m : Memory V) (r : Nat) (v : V) : Memory V :=
  { m with load := Function.update m.load r v }

@[simp] theorem alloc_snd (m : Memory V) (v : V) : (m.alloc v).2 = m.next := rfl

@[simp] theorem load_alloc_self (m : Memory V) (v : V) : (m.alloc v).1.load m.next = v :=
  Function.update_self ..

@[simp] theorem load_store_self (m : Memory V) (r : Nat) (v : V) : (m.store r v).load r = v :=
  Function.update_self ..

theorem load_store_of_ne (m : Memory V) {r r' : Nat} (h : r' ≠ r) (v : V) :
    (m.store r v).load r' = m.load r' := Function.update_of_ne h ..

theorem load_alloc_of_lt (m : Memory V) {r : Nat} (h : r < m.next) (v : V) :
    (m.alloc v).1.load r = m.load r := Function.update_of_ne (Nat.ne_of_lt h) ..

end Memory

/-! ### Errors -/

/-- A dynamic type with the names of its methods. -/
structure GoType where
  name : String
  methods : List String
  deriving DecidableEq

/-- A non-nil value of the interface type `error`: its dynamic type and what `Error()` returns. -/
structure GoError where
  dynamic : GoType
  text : String
  deriving DecidableEq

/-- The type that `errors.New` and `fmt.Errorf` without `%w` return. -/
def errorString : GoType := ⟨"*errors.errorString", ["Error"]⟩

/-- `errors.New(text)`, and `fmt.Errorf` of the formatted text. -/
def newError (text : String) : GoError := ⟨errorString, text⟩

/-- The dynamic type implements the interface with the methods `methods`. -/
def GoType.implements (t : GoType) (methods : List String) : Bool :=
  methods.all fun m => decide (m ∈ t.methods)

/-- The type assertion `err.(I)` for an interface type `I`: it holds when the dynamic type of the
value implements `I`, whatever type the value was converted to before. -/
def typeAssert (methods : List String) (err : GoError) : Option GoError :=
  if err.dynamic.implements methods then some err else none

/-- How a call may end without a result: with an error value, or with a run-time panic. -/
inductive Fault
  | error (err : GoError)
  | panic
  deriving DecidableEq

/-- A result whose error value the caller ignores: nothing is left of it then, but a panic stays. -/
def ignoreError {α : Type} : Except Fault α → Except Fault (Option α)
  | .ok a => .ok (some a)
  | .error (.error _) => .ok none
  | .error .panic => .error .panic

theorem ignoreError_eq {α : Type} {x : Except Fault α} (h : x ≠ .error .panic) :
    ignoreError x = .ok x.toOption := by
  cases x with
  | ok a => rfl
  | error fault =>
    cases fault with
    | error err => rfl
    | panic => exact absurd rfl h

theorem bind_eq_ok {ε α β : Type} {x : Except ε α} {f : α → Except ε β} {b : β} :
    x >>= f = .ok b ↔ ∃ a, x = .ok a ∧ f a = .ok b := by
  cases x with
  | error err => simp [bind, Except.bind]
  | ok a => simp [bind, Except.bind]

theorem bind_eq_error {ε α β : Type} {x : Except ε α} {f : α → Except ε β} {err : ε} :
    x >>= f = .error err ↔ x = .error err ∨ ∃ a, x = .ok a ∧ f a = .error err := by
  cases x with
  | error err' => simp [bind, Except.bind]
  | ok a => simp [bind, Except.bind]

/-! ### Formatting -/

/-- One hexadecimal digit. -/
def hexDigit (n : Nat) : Char := Nat.digitChar (n % 16)

/-- `%x` of a byte slice. -/
def hex (b : Bytes) : String :=
  String.ofList (b.flatMap fun x => [hexDigit (x.toNat / 16), hexDigit x.toNat])

end Whisperv6.ProofKit
