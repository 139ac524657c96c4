import Whisperv6.Doc

/-! Topics and the bloom filters made from them. -/

namespace Whisperv6

open ProofKit

/-- `TopicType`: four bytes. -/
abbrev TopicType := Vector UInt8 4

/-- `BytesToTopic`: the first four bytes, with zeros after a shorter slice. -/
def bytesToTopic (b : Bytes) : TopicType := Vector.ofFn fun i => b.getD i 0

/-- Bit `j` of the last byte of a topic moves index `j` to the upper half of the filter. -/
def bloomIndex (topic : TopicType) (j : Fin 3) : Nat :=
  let index := topic[j].toNat
  if topic[3] &&& (1 <<< UInt8.ofNat j) != 0 then index + 256 else index

/-- `TopicToBloom`.  Each of the three steps assigns the byte at its index; it does not join the
bit to the bits already there. -/
def topicToBloom (topic : TopicType) : Bytes :=
  (List.finRange 3).foldl
    (fun b j => b.set (bloomIndex topic j / 8) (1 <<< UInt8.ofNat (bloomIndex topic j % 8)))
    (List.replicate bloomFilterSize 0)

/-- `BloomFilterMatch`: a nil filter matches everything; otherwise each byte of the filter covers
the byte of the sample at the same index.  A byte past the end of a slice reads as 0. -/
def bloomFilterMatch (filter : Option Bytes) (sample : Bytes) : Bool :=
  match filter with
  | none => true
  | some f => (List.range bloomFilterSize).all fun i =>
      (f.getD i 0 ||| sample.getD i 0) == f.getD i 0

def addBloom (a b : Bytes) : Bytes :=
  (List.range bloomFilterSize).map fun i => a.getD i 0 ||| b.getD i 0

/-- `isFullNode`: a nil filter, or one whose bytes are all 255. -/
def isFullNode (bloom : Option Bytes) : Bool :=
  match bloom with
  | none => true
  | some b => b.all (· == 255)

def makeFullNodeBloom : Bytes := List.replicate bloomFilterSize 0xFF

/-! ### The order of the filters -/

theorem bloomFilterMatch_some {f sample : Bytes} :
    bloomFilterMatch (some f) sample = true ↔
      ∀ i, i < bloomFilterSize → f.getD i 0 ||| sample.getD i 0 = f.getD i 0 := by
  simp [bloomFilterMatch]

theorem bloomFilterMatch_self (f : Bytes) : bloomFilterMatch (some f) f = true := by
  rw [bloomFilterMatch_some]
  intro i _
  exact UInt8.or_self

theorem bloomFilterMatch_trans {f : Option Bytes} {g sample : Bytes}
    (hfg : bloomFilterMatch f g = true) (hgs : bloomFilterMatch (some g) sample = true) :
    bloomFilterMatch f sample = true := by
  cases f with
  | none => rfl
  | some f =>
    rw [bloomFilterMatch_some] at hfg hgs ⊢
    intro i hi
    calc f.getD i 0 ||| sample.getD i 0
        = (f.getD i 0 ||| g.getD i 0) ||| sample.getD i 0 := by rw [hfg i hi]
      _ = f.getD i 0 ||| (g.getD i 0 ||| sample.getD i 0) := UInt8.or_assoc _ _ _
      _ = f.getD i 0 := by rw [hgs i hi, hfg i hi]

@[simp] theorem length_addBloom (a b : Bytes) : (addBloom a b).length = bloomFilterSize := by
  simp [addBloom]

theorem getD_addBloom (a b : Bytes) {i : Nat} (hi : i < bloomFilterSize) :
    (addBloom a b).getD i 0 = a.getD i 0 ||| b.getD i 0 := by
  rw [List.getD_eq_getElem?_getD, List.getElem?_eq_getElem (by simpa using hi)]
  simp [addBloom]

/-- `addBloom` is the least filter that covers both of its arguments. -/
theorem bloomFilterMatch_addBloom {f : Option Bytes} {a b : Bytes} :
    bloomFilterMatch f (addBloom a b) = true ↔
      bloomFilterMatch f a = true ∧ bloomFilterMatch f b = true := by
  cases f with
  | none => simp [bloomFilterMatch]
  | some f =>
    simp only [bloomFilterMatch_some]
    constructor
    · intro h
      refine ⟨fun i hi => ?_, fun i hi => ?_⟩
      · rw [← h i hi, getD_addBloom a b hi]
        grind
      · rw [← h i hi, getD_addBloom a b hi]
        grind
    · rintro ⟨ha, hb⟩ i hi
      rw [getD_addBloom a b hi, ← UInt8.or_assoc, ha i hi, hb i hi]

theorem addBloom_match_left (a b : Bytes) : bloomFilterMatch (some (addBloom a b)) a = true :=
  (bloomFilterMatch_addBloom.mp (bloomFilterMatch_self _)).1

theorem addBloom_match_right (a b : Bytes) : bloomFilterMatch (some (addBloom a b)) b = true :=
  (bloomFilterMatch_addBloom.mp (bloomFilterMatch_self _)).2

theorem getD_makeFullNodeBloom {i : Nat} (hi : i < bloomFilterSize) :
    makeFullNodeBloom.getD i 0 = 255 := by
  rw [List.getD_eq_getElem?_getD, makeFullNodeBloom, List.getElem?_replicate, if_pos hi]
  rfl

/-- A filter that matches the full filter matches every sample. -/
theorem bloomFilterMatch_of_full {f : Option Bytes}
    (h : bloomFilterMatch f makeFullNodeBloom = true) (sample : Bytes) :
    bloomFilterMatch f sample = true := by
  refine bloomFilterMatch_trans h (bloomFilterMatch_some.mpr fun i hi => ?_)
  rw [getD_makeFullNodeBloom hi]
  exact UInt8.neg_one_or

/-- A filter of 64 bytes whose bytes are all 255 matches every sample. -/
theorem bloomFilterMatch_of_isFullNode {f : Bytes} (hlen : f.length = bloomFilterSize)
    (h : isFullNode (some f) = true) (sample : Bytes) :
    bloomFilterMatch (some f) sample = true := by
  simp only [isFullNode, List.all_eq_true, beq_iff_eq] at h
  simp only [bloomFilterMatch, List.all_eq_true, List.mem_range, beq_iff_eq]
  intro i hi
  have hget : f.getD i 0 = 255 := by
    rw [List.getD_eq_getElem?_getD, List.getElem?_eq_getElem (by omega), Option.getD_some]
    exact h _ (List.getElem_mem _)
  rw [hget]
  exact UInt8.neg_one_or

/-! ### The bits of a topic -/

/-- The bytes `b` after the steps of `TopicToBloom` for the bits `l`. -/
def setBits (b : Bytes) (l : List Nat) : Bytes :=
  l.foldl (fun b n => b.set (n / 8) (1 <<< UInt8.ofNat (n % 8))) b

theorem topicToBloom_eq (topic : TopicType) :
    topicToBloom topic = setBits (List.replicate bloomFilterSize 0)
      [bloomIndex topic 0, bloomIndex topic 1, bloomIndex topic 2] := rfl

/-- Each byte is as before, or holds the one bit of the last step for it. -/
theorem getD_setBits (b : Bytes) (l : List Nat) {k : Nat} (hk : k < b.length) :
    (∀ n ∈ l, n / 8 ≠ k) ∧ (setBits b l).getD k 0 = b.getD k 0 ∨
      ∃ n ∈ l, n / 8 = k ∧ (setBits b l).getD k 0 = 1 <<< UInt8.ofNat (n % 8) := by
  induction l generalizing b with
  | nil => exact .inl ⟨by simp, rfl⟩
  | cons n l ih =>
    show (_ ∧ (setBits (b.set (n / 8) _) l).getD k 0 = _) ∨
      ∃ m ∈ n :: l, m / 8 = k ∧ (setBits (b.set (n / 8) _) l).getD k 0 = _
    rcases ih (b.set (n / 8) (1 <<< UInt8.ofNat (n % 8))) (by simpa using hk) with
      ⟨hrest, hget⟩ | ⟨m, hm, hmk, hget⟩
    · rw [hget, List.getD_eq_getElem?_getD, List.getElem?_set]
      by_cases hn : n / 8 = k
      · refine .inr ⟨n, by simp, hn, ?_⟩
        rw [if_pos hn, if_pos (by omega)]
        rfl
      · refine .inl ⟨?_, ?_⟩
        · simpa [hn] using hrest
        · rw [if_neg hn, ← List.getD_eq_getElem?_getD]
    · exact .inr ⟨m, List.mem_cons_of_mem _ hm, hmk, hget⟩

/-- The filter with the one bit `i`. -/
def bloomBit (i : Nat) : Bytes := setBits (List.replicate bloomFilterSize 0) [i]

theorem getD_replicate_zero (k : Nat) :
    (List.replicate bloomFilterSize (0 : UInt8)).getD k 0 = 0 := by
  rw [List.getD_eq_getElem?_getD, List.getElem?_replicate]
  split <;> rfl

theorem bloomFilterMatch_bloomBit {f : Bytes} {i : Nat} (hi : i < 8 * bloomFilterSize) :
    bloomFilterMatch (some f) (bloomBit i) = true ↔
      f.getD (i / 8) 0 ||| 1 <<< UInt8.ofNat (i % 8) = f.getD (i / 8) 0 := by
  have hlen : i / 8 < (List.replicate bloomFilterSize (0 : UInt8)).length := by
    rw [List.length_replicate]
    omega
  have hget : (bloomBit i).getD (i / 8) 0 = 1 <<< UInt8.ofNat (i % 8) := by
    rcases getD_setBits _ [i] hlen with ⟨hno, -⟩ | ⟨n, hn, -, hget⟩
    · exact absurd rfl (hno i (by simp))
    · rw [List.mem_singleton] at hn
      rw [bloomBit, hget, hn]
  rw [bloomFilterMatch_some]
  constructor
  · intro h
    have h' := h (i / 8) (by omega)
    rwa [hget] at h'
  · intro h k hk
    by_cases hki : i / 8 = k
    · rw [← hki, hget]
      exact h
    · rcases getD_setBits (List.replicate bloomFilterSize 0) [i] (k := k) (by simpa using hk) with
        ⟨-, hzero⟩ | ⟨n, hn, hnk, -⟩
      · rw [bloomBit, hzero, getD_replicate_zero]
        exact UInt8.or_zero
      · rw [List.mem_singleton] at hn
        exact absurd (hn ▸ hnk) hki

/-- A filter that does not match a topic misses a bit that the topic has. -/
theorem exists_missing_bit {filter : Option Bytes} {topic : TopicType}
    (h : bloomFilterMatch filter (topicToBloom topic) = false) :
    ∃ i < 8 * bloomFilterSize, bloomFilterMatch filter (bloomBit i) = false ∧
      (topicToBloom topic).getD (i / 8) 0 = 1 <<< UInt8.ofNat (i % 8) := by
  cases filter with
  | none => cases h
  | some f =>
    have hnot : ¬ ∀ k, k < bloomFilterSize →
        f.getD k 0 ||| (topicToBloom topic).getD k 0 = f.getD k 0 := by
      rw [← bloomFilterMatch_some, h]
      exact Bool.false_ne_true
    obtain ⟨k, hk⟩ := not_forall.mp hnot
    obtain ⟨hk, hor⟩ := Classical.not_imp.mp hk
    rw [topicToBloom_eq] at hor ⊢
    rcases getD_setBits (List.replicate bloomFilterSize 0) _ (k := k) (by simpa using hk) with
      ⟨-, hzero⟩ | ⟨n, hn, hnk, hget⟩
    · rw [hzero, getD_replicate_zero] at hor
      exact absurd UInt8.or_zero hor
    · subst hnk
      have hlt : n < 8 * bloomFilterSize := by omega
      refine ⟨n, hlt, ?_, hget⟩
      rw [← Bool.not_eq_true, bloomFilterMatch_bloomBit hlt, ← hget]
      exact hor

/-- The topic whose bits are `i` and `j`. -/
def topicOf (i j : Nat) : TopicType :=
  #v[UInt8.ofNat i, UInt8.ofNat j, UInt8.ofNat j, UInt8.ofNat (i / 256 + 6 * (j / 256))]

theorem bloomIndex_topicOf {i j : Nat} (hi : i < 8 * bloomFilterSize)
    (hj : j < 8 * bloomFilterSize) :
    bloomIndex (topicOf i j) 0 = i ∧ bloomIndex (topicOf i j) 1 = j ∧
      bloomIndex (topicOf i j) 2 = j := by
  have hsize : 8 * bloomFilterSize = 512 := rfl
  -- the last byte of the topic says which of the bits are in the upper half
  have hlast : ∀ a b : Fin 2,
      ((UInt8.ofNat (a + 6 * b) &&& (1 <<< UInt8.ofNat (0 : Fin 3)) != 0) = decide (a.val = 1)) ∧
      ((UInt8.ofNat (a + 6 * b) &&& (1 <<< UInt8.ofNat (1 : Fin 3)) != 0) = decide (b.val = 1)) ∧
      ((UInt8.ofNat (a + 6 * b) &&& (1 <<< UInt8.ofNat (2 : Fin 3)) != 0) =
        decide (b.val = 1)) := by
    decide
  obtain ⟨h0, h1, h2⟩ := hlast ⟨i / 256, by omega⟩ ⟨j / 256, by omega⟩
  have hindex : ∀ n, n < 512 →
      (if decide (n / 256 = 1) then (UInt8.ofNat n).toNat + 256 else (UInt8.ofNat n).toNat) =
        n := by
    intro n hn
    rw [UInt8.toNat_ofNat']
    by_cases h : n / 256 = 1
    · rw [if_pos (by simpa using h)]
      omega
    · rw [if_neg (by simpa using h)]
      omega
  refine ⟨?_, ?_, ?_⟩
  · exact (if_congr (by rw [← h0]; rfl) rfl rfl).trans (hindex i hi)
  · exact (if_congr (by rw [← h1]; rfl) rfl rfl).trans (hindex j hj)
  · exact (if_congr (by rw [← h2]; rfl) rfl rfl).trans (hindex j hj)

/-- A filter that matches the topic of two bits, not in one byte unless they are the same, has both
bits. -/
theorem match_bits_of_topicOf {filter : Option Bytes} {i j : Nat} (hi : i < 8 * bloomFilterSize)
    (hj : j < 8 * bloomFilterSize) (hij : i = j ∨ i / 8 ≠ j / 8)
    (h : bloomFilterMatch filter (topicToBloom (topicOf i j)) = true) :
    bloomFilterMatch filter (bloomBit i) = true ∧ bloomFilterMatch filter (bloomBit j) = true := by
  obtain ⟨h0, h1, h2⟩ := bloomIndex_topicOf hi hj
  have htopic : topicToBloom (topicOf i j) =
      setBits (List.replicate bloomFilterSize 0) [i, j, j] := by
    rw [topicToBloom_eq, h0, h1, h2]
  -- the byte of either bit holds that bit
  have hbyte : ∀ n ∈ [i, j, j],
      (topicToBloom (topicOf i j)).getD (n / 8) 0 = 1 <<< UInt8.ofNat (n % 8) := by
    intro n hn
    have hlen : n / 8 < (List.replicate bloomFilterSize (0 : UInt8)).length := by
      have hn' : n = i ∨ n = j := by simpa using hn
      rw [List.length_replicate]
      omega
    rw [htopic]
    rcases getD_setBits _ [i, j, j] hlen with ⟨hno, -⟩ | ⟨m, hm, hmn, hget⟩
    · exact absurd rfl (hno n hn)
    · have hsame : m = n := by
        have hm' : m = i ∨ m = j := by simpa using hm
        have hn' : n = i ∨ n = j := by simpa using hn
        omega
      rw [hget, hsame]
  cases filter with
  | none => exact ⟨rfl, rfl⟩
  | some f =>
    rw [bloomFilterMatch_some] at h
    rw [bloomFilterMatch_bloomBit hi, bloomFilterMatch_bloomBit hj, ← hbyte i (by simp),
      ← hbyte j (by simp)]
    exact ⟨h _ (by omega), h _ (by omega)⟩

/-- Two filters miss bits that one topic can have together: `TopicToBloom` sets one bit in a
byte. -/
def TopicGap (filter tolerated : Option Bytes) : Prop :=
  ∃ i j, i < 8 * bloomFilterSize ∧ j < 8 * bloomFilterSize ∧ (i = j ∨ i / 8 ≠ j / 8) ∧
    bloomFilterMatch filter (bloomBit i) = false ∧ bloomFilterMatch tolerated (bloomBit j) = false

/-- Some topic matches neither of two filters exactly when there is a gap. -/
theorem topicGap_iff {filter tolerated : Option Bytes} :
    TopicGap filter tolerated ↔
      ∃ topic, bloomFilterMatch filter (topicToBloom topic) = false ∧
        bloomFilterMatch tolerated (topicToBloom topic) = false := by
  constructor
  · rintro ⟨i, j, hi, hj, hij, hfilter, htolerated⟩
    refine ⟨topicOf i j, ?_, ?_⟩
    · rw [← Bool.not_eq_true]
      intro h
      exact Bool.false_ne_true (hfilter.symm.trans (match_bits_of_topicOf hi hj hij h).1)
    · rw [← Bool.not_eq_true]
      intro h
      exact Bool.false_ne_true (htolerated.symm.trans (match_bits_of_topicOf hi hj hij h).2)
  · rintro ⟨topic, hfilter, htolerated⟩
    obtain ⟨i, hi, hfilter, higet⟩ := exists_missing_bit hfilter
    obtain ⟨j, hj, htolerated, hjget⟩ := exists_missing_bit htolerated
    refine ⟨i, j, hi, hj, ?_, hfilter, htolerated⟩
    by_cases hbyte : i / 8 = j / 8
    · -- one byte of the topic holds one bit
      rw [hbyte, hjget] at higet
      have hshift : ∀ a b : Fin 8,
          (1 : UInt8) <<< UInt8.ofNat a = 1 <<< UInt8.ofNat b → a.val = b.val := by decide
      have hmod := hshift ⟨j % 8, by omega⟩ ⟨i % 8, by omega⟩ higet
      dsimp only at hmod
      omega
    · exact .inr hbyte

theorem or_full_of_bits {x : UInt8} (h : ∀ b, b < 8 → x ||| 1 <<< UInt8.ofNat b = x) :
    x ||| 255 = x := by
  have hbits : (255 : UInt8) = (List.range 8).foldl (fun y b => y ||| 1 <<< UInt8.ofNat b) 0 := by
    decide
  have hfold : ∀ (l : List Nat) (y : UInt8), (∀ b ∈ l, b < 8) → x ||| y = x →
      x ||| l.foldl (fun y b => y ||| 1 <<< UInt8.ofNat b) y = x := by
    intro l
    induction l with
    | nil => exact fun y _ hy => hy
    | cons b l ih =>
      intro y hl hy
      refine ih _ (fun c hc => hl c (List.mem_cons_of_mem _ hc)) ?_
      rw [← UInt8.or_assoc, hy, h b (hl b List.mem_cons_self)]
  rw [hbits]
  exact hfold _ 0 (by simp) UInt8.or_zero

/-- For one filter, the gaps are the bits it misses. -/
theorem topicGap_self {filter : Option Bytes} :
    TopicGap filter filter ↔ bloomFilterMatch filter makeFullNodeBloom = false := by
  constructor
  · rintro ⟨i, -, -, -, -, hmiss, -⟩
    rw [← Bool.not_eq_true]
    intro hfull
    exact Bool.false_ne_true (hmiss.symm.trans (bloomFilterMatch_of_full hfull _))
  · intro hfull
    cases filter with
    | none => cases hfull
    | some f =>
      by_contra hgap
      -- a filter without gaps has all bits of each byte
      have hbit : ∀ k, k < bloomFilterSize → ∀ b, b < 8 →
          f.getD k 0 ||| 1 <<< UInt8.ofNat b = f.getD k 0 := by
        intro k hk b hb
        have hlt : 8 * k + b < 8 * bloomFilterSize := by omega
        have hmatch : bloomFilterMatch (some f) (bloomBit (8 * k + b)) = true := by
          rw [← Bool.not_eq_false]
          intro hmiss
          exact hgap ⟨_, _, hlt, hlt, .inl rfl, hmiss, hmiss⟩
        rw [bloomFilterMatch_bloomBit hlt] at hmatch
        rwa [show (8 * k + b) / 8 = k by omega, show (8 * k + b) % 8 = b by omega] at hmatch
      have hall : bloomFilterMatch (some f) makeFullNodeBloom = true := by
        rw [bloomFilterMatch_some]
        intro k hk
        rw [getD_makeFullNodeBloom hk]
        exact or_full_of_bits (hbit k hk)
      rw [hall] at hfull
      cases hfull

end Whisperv6
