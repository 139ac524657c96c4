import Whisperv6.ProofKit.Go

/-! The encoding rules of RLP: byte strings, unsigned integers and lists, each with the length of
its encoding. -/

namespace Whisperv6.ProofKit.Rlp

/-- The least number of bytes, at least one, that hold the 64-bit integer `i`. -/
def intsize (i : Nat) : Nat :=
  if i < 2 ^ 8 then 1
  else if i < 2 ^ 16 then 2
  else if i < 2 ^ 24 then 3
  else if i < 2 ^ 32 then 4
  else if i < 2 ^ 40 then 5
  else if i < 2 ^ 48 then 6
  else if i < 2 ^ 56 then 7
  else 8

/-- The integer `i` in big endian byte order, in the least number of bytes. -/
def putint (i : Nat) : Bytes :=
  (List.range (intsize i)).reverse.map fun k => UInt8.ofNat (i / 256 ^ k)

/-- The size of the header of a list or string whose contents have the given size. -/
def headsize (size : Nat) : Nat := if size < 56 then 1 else 1 + intsize size

/-- The header of a list or string whose contents have the given size. -/
def puthead (smalltag largetag : UInt8) (size : Nat) : Bytes :=
  if size < 56 then [smalltag + UInt8.ofNat size]
  else (largetag + UInt8.ofNat (intsize size)) :: putint size

/-- A byte string: a byte below 128 is its own encoding. -/
def encodeString (b : Bytes) : Bytes :=
  match b with
  | [x] => if x ≤ 0x7F then [x] else puthead 0x80 0xB7 1 ++ [x]
  | b => puthead 0x80 0xB7 b.length ++ b

/-- An unsigned integer: the empty string for 0, a byte for a value below 128. -/
def encodeUint (i : Nat) : Bytes :=
  if i = 0 then [0x80]
  else if i < 128 then [UInt8.ofNat i]
  else (0x80 + UInt8.ofNat (intsize i)) :: putint i

/-- A list, from the encodings of its elements. -/
def encodeList (items : List Bytes) : Bytes :=
  puthead 0xC0 0xF7 items.flatten.length ++ items.flatten

/-! ### Lengths -/

/-- The length of the encoding of a byte string. -/
def stringSize (b : Bytes) : Nat :=
  match b with
  | [x] => if x ≤ 0x7F then 1 else 2
  | b => headsize b.length + b.length

/-- The length of the encoding of an unsigned integer. -/
def uintSize (i : Nat) : Nat := if i < 128 then 1 else 1 + intsize i

/-- The length of the encoding of a list whose elements take `size` bytes together. -/
def listSize (size : Nat) : Nat := headsize size + size

@[simp] theorem length_putint (i : Nat) : (putint i).length = intsize i := by simp [putint]

@[simp] theorem length_puthead (s l : UInt8) (size : Nat) :
    (puthead s l size).length = headsize size := by
  unfold puthead headsize
  split
  · rfl
  · simp [Nat.add_comm]

theorem length_encodeString (b : Bytes) : (encodeString b).length = stringSize b := by
  unfold encodeString stringSize
  split
  · split
    · rfl
    · simp [headsize]
  · simp

theorem length_encodeUint (i : Nat) : (encodeUint i).length = uintSize i := by
  unfold encodeUint uintSize
  by_cases h0 : i = 0
  · simp [h0]
  · by_cases h1 : i < 128
    · simp [h0, h1]
    · simp [h0, h1, Nat.add_comm]

theorem length_encodeList (items : List Bytes) :
    (encodeList items).length = listSize (items.map List.length).sum := by
  simp [encodeList, listSize, List.length_flatten]

theorem stringSize_of_length_ne_one {b : Bytes} (h : b.length ≠ 1) :
    stringSize b = headsize b.length + b.length := by
  unfold stringSize
  split
  · simp at h
  · rfl

theorem headsize_pos (size : Nat) : 0 < headsize size := by
  unfold headsize
  split <;> omega

theorem length_flatten_le (items : List Bytes) :
    items.flatten.length ≤ (encodeList items).length := by
  rw [encodeList, List.length_append]
  omega

theorem length_le_of_mem {items : List Bytes} {b : Bytes} (h : b ∈ items) :
    b.length ≤ (encodeList items).length :=
  (List.sublist_flatten_of_mem h).length_le.trans (length_flatten_le items)

theorem length_encodeList_pos (items : List Bytes) : 0 < (encodeList items).length := by
  rw [length_encodeList]
  have := headsize_pos (items.map List.length).sum
  unfold listSize
  omega

end Whisperv6.ProofKit.Rlp
