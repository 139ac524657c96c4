import Whisperv6.Bloom
import Whisperv6.ProofKit.Bits

/-! The bits of the bloom filter of a topic, against the three bits that the topic stands for.
`TopicToBloom` assigns the bytes of the filter, so of two bits in one byte it keeps the later. -/

namespace Whisperv6

open ProofKit

/-- The position that byte `j` of a topic stands for: bit `j` of the last byte adds 256. -/
def topicPosition (topic : TopicType) (j : Fin 3) : Nat :=
  (topic.get j.castSucc).toNat + 256 * ((topic.get (Fin.last 3)).toNat.testBit j).toNat

theorem bloomIndex_eq (topic : TopicType) (j : Fin 3) :
    bloomIndex topic j = topicPosition topic j := by
  unfold bloomIndex topicPosition
  dsimp only
  have hbyte : topic.get j.castSucc = topic[j] := rfl
  have hlast : topic.get (Fin.last 3) = topic[3] := rfl
  rw [and_shift_bne_zero topic[3] (by omega : j.val < 8), hbyte, hlast]
  cases topic[3].toNat.testBit j <;> rfl

theorem topicPosition_lt (topic : TopicType) (j : Fin 3) :
    topicPosition topic j < 8 * bloomFilterSize := by
  have hbyte := (topic.get j.castSucc).toNat_lt
  have hbit := Bool.toNat_le ((topic.get (Fin.last 3)).toNat.testBit j)
  have hsize : 8 * bloomFilterSize = 512 := rfl
  unfold topicPosition
  omega

/-- The positions of a topic, in the order of its bytes. -/
def topicPositions (topic : TopicType) : List Nat :=
  [topicPosition topic 0, topicPosition topic 1, topicPosition topic 2]

theorem mem_topicPositions {topic : TopicType} {p : Nat} :
    p ∈ topicPositions topic ↔ ∃ j, p = topicPosition topic j := by
  simp [topicPositions, Fin.exists_fin_succ]

theorem topicToBloom_positions (topic : TopicType) :
    topicToBloom topic = setBits (List.replicate bloomFilterSize 0) (topicPositions topic) := by
  rw [topicToBloom_eq, bloomIndex_eq, bloomIndex_eq, bloomIndex_eq]
  rfl

theorem length_setBits (b : Bytes) (l : List Nat) : (setBits b l).length = b.length := by
  induction l generalizing b with
  | nil => rfl
  | cons n l ih => exact (ih _).trans List.length_set

/-- The bits that `TopicToBloom` leaves in a byte: those of the last step for it. -/
theorem bitAt_setBits (l : List Nat) {p : Nat} (hp : p < 8 * bloomFilterSize) :
    (∀ n ∈ l, n / 8 ≠ p / 8) ∧ bitAt (setBits (List.replicate bloomFilterSize 0) l) p = false ∨
      ∃ n ∈ l, n / 8 = p / 8 ∧ ∀ q, q / 8 = p / 8 →
        bitAt (setBits (List.replicate bloomFilterSize 0) l) q = decide (q = n) := by
  have hlen : p / 8 < (List.replicate bloomFilterSize (0 : UInt8)).length := by
    rw [List.length_replicate]
    omega
  rcases getD_setBits _ l hlen with ⟨hnone, hget⟩ | ⟨n, hn, hbyte, hget⟩
  · refine .inl ⟨hnone, bitAt_of_zero ?_⟩
    rw [hget, getD_replicate_zero]
  · refine .inr ⟨n, hn, hbyte, fun q hq => bitAt_of_shift (by omega) ?_⟩
    rw [hbyte]
    exact hget

theorem bitAt_bloomBit {i p : Nat} (hp : p < 8 * bloomFilterSize) :
    bitAt (bloomBit i) p = decide (p = i) := by
  unfold bloomBit
  rcases bitAt_setBits [i] hp with ⟨hnone, hbit⟩ | ⟨n, hn, -, hbits⟩
  · have hother : p ≠ i := fun h => hnone i List.mem_cons_self (by rw [h])
    rw [hbit, decide_eq_false hother]
  · rw [List.mem_singleton] at hn
    rw [hbits p rfl, hn]

theorem bitAt_addBloom (a b : Bytes) {p : Nat} (hp : p < 8 * bloomFilterSize) :
    bitAt (addBloom a b) p = (bitAt a p || bitAt b p) :=
  bitAt_of_or (getD_addBloom a b (by omega))

/-- The filter that joins the three bits of a topic. -/
def positionsUnion (topic : TopicType) : Bytes :=
  addBloom (addBloom (bloomBit (topicPosition topic 0)) (bloomBit (topicPosition topic 1)))
    (bloomBit (topicPosition topic 2))

theorem bitAt_positionsUnion (topic : TopicType) {p : Nat} (hp : p < 8 * bloomFilterSize) :
    bitAt (positionsUnion topic) p = true ↔ ∃ j, p = topicPosition topic j := by
  rw [positionsUnion, bitAt_addBloom _ _ hp, bitAt_addBloom _ _ hp, bitAt_bloomBit hp,
    bitAt_bloomBit hp, bitAt_bloomBit hp, ← mem_topicPositions]
  simp [topicPositions, or_assoc]

/-- The filter of the topic has 64 bytes, and exactly the bits at the three positions. -/
def BloomExact (topic : TopicType) : Prop :=
  (topicToBloom topic).length = bloomFilterSize ∧
  ∀ p, p < 8 * bloomFilterSize →
    (bitAt (topicToBloom topic) p = true ↔ ∃ j, p = topicPosition topic j)

theorem length_topicToBloom (topic : TopicType) :
    (topicToBloom topic).length = bloomFilterSize := by
  rw [topicToBloom_positions, length_setBits, List.length_replicate]

theorem bloomExact_iff_union (topic : TopicType) :
    BloomExact topic ↔ topicToBloom topic = positionsUnion topic := by
  constructor
  · intro h
    apply eq_of_bitAt
    · rw [length_topicToBloom, positionsUnion, length_addBloom]
    · intro p hp
      rw [length_topicToBloom] at hp
      rw [Bool.eq_iff_iff, h.2 p hp, bitAt_positionsUnion topic hp]
  · intro h
    refine ⟨length_topicToBloom topic, fun p hp => ?_⟩
    rw [h]
    exact bitAt_positionsUnion topic hp

/-- The filter of a topic has exactly the three bits, and is the union of their filters, when no two
of them share a byte; two bits in one byte have to be one bit. -/
theorem bloomExact_iff (topic : TopicType) :
    (BloomExact topic ↔ ∀ j k, topicPosition topic j / 8 = topicPosition topic k / 8 →
      topicPosition topic j = topicPosition topic k) ∧
    (BloomExact topic ↔ topicToBloom topic = positionsUnion topic) := by
  refine ⟨⟨fun hexact j k hbyte => ?_, fun hbytes => ?_⟩, bloomExact_iff_union topic⟩
  · -- the byte of the two bits holds one bit, and both are in it
    have hbits := hexact.2
    rw [topicToBloom_positions] at hbits
    rcases bitAt_setBits (topicPositions topic) (topicPosition_lt topic j) with
      ⟨hnone, -⟩ | ⟨n, -, -, hone⟩
    · exact absurd rfl (hnone _ (mem_topicPositions.mpr ⟨j, rfl⟩))
    · have hj := (hbits _ (topicPosition_lt topic j)).mpr ⟨j, rfl⟩
      have hk := (hbits _ (topicPosition_lt topic k)).mpr ⟨k, rfl⟩
      rw [hone _ rfl, decide_eq_true_iff] at hj
      rw [hone _ hbyte.symm, decide_eq_true_iff] at hk
      rw [hj, hk]
  · refine ⟨length_topicToBloom topic, fun p hp => ?_⟩
    rw [topicToBloom_positions]
    rcases bitAt_setBits (topicPositions topic) hp with ⟨hnone, hbit⟩ | ⟨n, hn, hbyte, hone⟩
    · rw [hbit]
      refine iff_of_false Bool.false_ne_true fun h => ?_
      exact hnone p (mem_topicPositions.mpr h) rfl
    · obtain ⟨j, rfl⟩ := mem_topicPositions.mp hn
      rw [hone p rfl, decide_eq_true_iff]
      constructor
      · exact fun h => ⟨j, h⟩
      · rintro ⟨k, rfl⟩
        exact hbytes k j hbyte.symm

/-- The bits 0 and 1 share a byte, and the filter of the topic has lost the first. -/
theorem not_bloomExact_adjacent :
    ¬ BloomExact #v[0, 1, 8, 0] ∧ bitAt (topicToBloom #v[0, 1, 8, 0]) 0 = false ∧
      topicPosition #v[0, 1, 8, 0] 0 = 0 := by
  have hlost : bitAt (topicToBloom #v[0, 1, 8, 0]) 0 = false := by decide
  refine ⟨fun h => ?_, hlost, rfl⟩
  have hset := (h.2 0 (by decide)).mpr ⟨0, rfl⟩
  rw [hlost] at hset
  cases hset

end Whisperv6
