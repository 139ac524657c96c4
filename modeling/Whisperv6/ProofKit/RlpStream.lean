import Whisperv6.ProofKit.ByteString
import Whisperv6.ProofKit.Rlp

/-! Decoding of RLP from a stream with a limit, which refuses every encoding that is not canonical.
Each reader is described by one equivalence: it returns a value exactly when the stream goes on with
the encoding of that value. -/

namespace Whisperv6.ProofKit.Rlp

/-! ### The stream -/

inductive Error
  | eof
  | unexpectedEOF
  | endOfList
  | expectedString
  | expectedList
  | canonInt
  | canonSize
  | elemTooLarge
  | valueTooLarge
  | moreThanOneValue
  | notInList
  | notAtEOL
  | uintOverflow
  | invalidBool (num : Nat)
  | decode (msg typ : String) (ctx : List String)
  deriving DecidableEq

/-- What `Error()` returns. -/
def Error.text : Error → String
  | .eof => "EOF"
  | .unexpectedEOF => "unexpected EOF"
  | .endOfList => "rlp: end of list"
  | .expectedString => "rlp: expected String or Byte"
  | .expectedList => "rlp: expected List"
  | .canonInt => "rlp: non-canonical integer format"
  | .canonSize => "rlp: non-canonical size information"
  | .elemTooLarge => "rlp: element is larger than containing list"
  | .valueTooLarge => "rlp: value size exceeds available input length"
  | .moreThanOneValue => "rlp: input contains more than one value"
  | .notInList => "rlp: call of ListEnd outside of any list"
  | .notAtEOL => "rlp: call of ListEnd not positioned at EOL"
  | .uintOverflow => "rlp: uint overflow"
  | .invalidBool num => "rlp: invalid boolean value: " ++ toString num
  | .decode msg typ ctx =>
    "rlp: " ++ msg ++ " for " ++ typ ++
      if ctx = [] then "" else ", decoding into " ++ String.join ctx.reverse

/-- A stream with a limit: the unread input, the bytes that may still be read, and the position and
size of each open list, the innermost first. -/
structure Stream where
  input : Bytes
  remaining : Nat
  stack : List (Nat × Nat) := []
  deriving DecidableEq

abbrev Reader := StateT Stream (Except Error)

/-- The part of `willRead` on the innermost list. -/
def enterList (n : Nat) : Reader Unit := fun s =>
  match s.stack with
  | [] => .ok ((), s)
  | (pos, size) :: rest =>
    if size - pos < n then .error .elemTooLarge
    else .ok ((), { s with stack := (pos + n, size) :: rest })

def willRead (n : Nat) : Reader Unit := do
  enterList n
  fun s =>
    if s.remaining < n then .error .valueTooLarge
    else .ok ((), { s with remaining := s.remaining - n })

def readByte : Reader UInt8 := do
  willRead 1
  fun s =>
    match s.input with
    | [] => .error .unexpectedEOF
    | b :: rest => .ok (b, { s with input := rest })

def readFull (n : Nat) : Reader Bytes := do
  willRead n
  fun s =>
    if s.input.length < n then .error .unexpectedEOF
    else .ok (s.input.take n, { s with input := s.input.drop n })

/-- The number that bytes stand for, the highest first. -/
def beValue (b : Bytes) : Nat := leValue b.reverse

def readUint (size : Nat) : Reader Nat :=
  match size with
  | 0 => pure 0
  | 1 => do
    let b ← readByte
    pure b.toNat
  | size => do
    let buf ← readFull size
    if buf.head? = some 0 then throw .canonSize else pure (beValue buf)

/-- The value ahead: a byte that is its own encoding, or a string or list with the size of its
contents. -/
inductive Kind
  | byte (b : UInt8)
  | string (size : Nat)
  | list (size : Nat)
  deriving DecidableEq

/-- The first byte of a value.  At the top level, the end of the input is no error in the value. -/
def readTag : Reader UInt8 := fun s =>
  match readByte s with
  | .ok r => .ok r
  | .error err =>
    if s.stack = [] ∧ (err = .unexpectedEOF ∨ err = .valueTooLarge) then .error .eof
    else .error err

/-- The size of a value whose tag announces a size of `n` bytes. -/
def readSize (n : Nat) : Reader Nat := do
  let size ← readUint n
  if size < 56 then throw .canonSize else pure size

def readKind : Reader Kind := do
  let b ← readTag
  if b < 0x80 then pure (.byte b)
  else if b < 0xB8 then pure (.string (b - 0x80).toNat)
  else if b < 0xC0 then do
    let size ← readSize (b - 0xB7).toNat
    pure (.string size)
  else if b < 0xF8 then pure (.list (b - 0xC0).toNat)
  else do
    let size ← readSize (b - 0xF7).toNat
    pure (.list size)

def Kind.size : Kind → Nat
  | .byte _ => 0
  | .string size => size
  | .list size => size

/-- The size of a value fits into the list or the input that is left. -/
def checkSize (size : Nat) : Reader Unit := fun s =>
  match s.stack with
  | [] => if s.remaining < size then .error .valueTooLarge else .ok ((), s)
  | (pos, total) :: _ => if total - pos < size then .error .elemTooLarge else .ok ((), s)

/-- The position of the stream is not at the end of the innermost list. -/
def checkEnd : Reader Unit := fun s =>
  match s.stack with
  | [] => .ok ((), s)
  | (pos, size) :: _ => if pos = size then .error .endOfList else .ok ((), s)

/-- `Kind`, with the header of the value read.  The package keeps the result for the next call; here
it is passed to the reader of the contents. -/
def kind : Reader Kind := do
  checkEnd
  let k ← readKind
  checkSize k.size
  pure k

/-! ### Values -/

def bytes : Reader Bytes := do
  match ← kind with
  | .byte b => pure [b]
  | .string size =>
    let b ← readFull size
    if size = 1 ∧ (b.headD 0) < 128 then throw .canonSize else pure b
  | .list _ => throw .expectedString

def uint (maxbits : Nat) : Reader Nat := do
  match ← kind with
  | .byte b => if b = 0 then throw .canonInt else pure b.toNat
  | .string size =>
    if maxbits / 8 < size then throw .uintOverflow
    else
      let v ← fun s => match readUint size s with
        | .ok r => .ok r
        | .error err => .error (if err = .canonSize then .canonInt else err)
      if 0 < size ∧ v < 128 then throw .canonSize else pure v
  | .list _ => throw .expectedString

/-- `Raw`: the contents with a new header in front of them. -/
def raw : Reader Bytes := do
  match ← kind with
  | .byte b => pure [b]
  | .string size =>
    let b ← readFull size
    pure (puthead 0x80 0xB7 size ++ b)
  | .list size =>
    let b ← readFull size
    pure (puthead 0xC0 0xF7 size ++ b)

def list : Reader Nat := do
  match ← kind with
  | .list size => fun s => .ok (size, { s with stack := (0, size) :: s.stack })
  | _ => throw .expectedList

def listEnd : Reader Unit := fun s =>
  match s.stack with
  | [] => .error .notInList
  | (pos, size) :: rest =>
    if pos ≠ size then .error .notAtEOL
    else .ok ((), { s with
      stack := match rest with
        | [] => []
        | (pos', size') :: rest => (pos' + size, size') :: rest })

/-! ### Decoders of types -/

def wrapStreamError (typ : String) : Error → Error
  | .canonInt => .decode "non-canonical integer (leading zero bytes)" typ []
  | .canonSize => .decode "non-canonical size information" typ []
  | .expectedList => .decode "expected input list" typ []
  | .expectedString => .decode "expected input string or byte" typ []
  | .uintOverflow => .decode "input string too long" typ []
  | .notAtEOL => .decode "input list has too many elements" typ []
  | err => err

def addErrorContext (ctx : String) : Error → Error
  | .decode msg typ ctxs => .decode msg typ (ctxs ++ [ctx])
  | err => err

/-- The reader with its errors changed. -/
def mapError {α : Type} (f : Error → Error) (d : Reader α) : Reader α := fun s =>
  match d s with
  | .ok r => .ok r
  | .error err => .error (f err)

def decodeUint (typ : String) (bits : Nat) : Reader Nat :=
  mapError (wrapStreamError typ) (uint bits)

def decodeByteSlice (typ : String) : Reader Bytes := mapError (wrapStreamError typ) bytes

/-- `decodeByteArray`, for an array of `n` bytes with `n` at least 2. -/
def decodeByteArray (typ : String) (n : Nat) : Reader Bytes := do
  match ← kind with
  | .byte _ => throw (.decode "input string too short" typ [])
  | .string size =>
    if n < size then throw (.decode "input string too long" typ [])
    else if size < n then throw (.decode "input string too short" typ [])
    else readFull n
  | .list _ => throw (wrapStreamError typ .expectedString)

/-- A field of a struct, with the errors that the decoder of the struct makes of those of the
field. -/
def decodeField {α : Type} (typ field : String) (d : Reader α) : Reader α :=
  mapError (fun err => if err = .endOfList then .decode "too few elements" typ []
    else addErrorContext ("." ++ field) err) d

/-- A struct whose fields are read by `fields`. -/
def decodeStruct {α : Type} (typ : String) (fields : Reader α) : Reader α := do
  let _ ← mapError (wrapStreamError typ) list
  let x ← fields
  mapError (wrapStreamError typ) listEnd
  pure x

/-- The type of the target, which `Decode` adds to an error about one of its parts. -/
def addTarget (typ : String) : Error → Error
  | .decode msg typ' ctxs =>
    .decode msg typ' (if ctxs = [] then [] else ctxs ++ ["(" ++ typ ++ ")"])
  | err => err

/-- `DecodeBytes` into a target of the type `typ`: one value that takes all the bytes. -/
def decodeBytes {α : Type} (typ : String) (d : Reader α) (b : Bytes) : Except Error α :=
  match mapError (addTarget typ) d { input := b, remaining := b.length } with
  | .error err => .error err
  | .ok (x, s) => if 0 < s.input.length then .error .moreThanOneValue else .ok x

/-! ### Canonical integers -/

theorem putint_eq (i : Nat) : putint i = (leBytes (intsize i) i).reverse := by
  rw [leBytes_eq_map, putint, List.map_reverse]

theorem intsize_spec {i : Nat} (hpos : 0 < i) (h : i < 2 ^ 64) :
    ∃ k < 8, intsize i = k + 1 ∧ 256 ^ k ≤ i ∧ i < 256 ^ (k + 1) := by
  unfold intsize
  by_cases h1 : i < 2 ^ 8
  · exact ⟨0, by decide, if_pos h1, hpos, h1⟩
  rw [if_neg h1]
  by_cases h2 : i < 2 ^ 16
  · exact ⟨1, by decide, if_pos h2, not_lt.mp h1, h2⟩
  rw [if_neg h2]
  by_cases h3 : i < 2 ^ 24
  · exact ⟨2, by decide, if_pos h3, not_lt.mp h2, h3⟩
  rw [if_neg h3]
  by_cases h4 : i < 2 ^ 32
  · exact ⟨3, by decide, if_pos h4, not_lt.mp h3, h4⟩
  rw [if_neg h4]
  by_cases h5 : i < 2 ^ 40
  · exact ⟨4, by decide, if_pos h5, not_lt.mp h4, h5⟩
  rw [if_neg h5]
  by_cases h6 : i < 2 ^ 48
  · exact ⟨5, by decide, if_pos h6, not_lt.mp h5, h6⟩
  rw [if_neg h6]
  by_cases h7 : i < 2 ^ 56
  · exact ⟨6, by decide, if_pos h7, not_lt.mp h6, h7⟩
  rw [if_neg h7]
  exact ⟨7, by decide, rfl, not_lt.mp h7, h⟩

theorem intsize_eq {i k : Nat} (hk : k < 8) (hlow : 256 ^ k ≤ i) (hhigh : i < 256 ^ (k + 1)) :
    intsize i = k + 1 := by
  have hpos : 0 < i := (Nat.pow_pos (by omega)).trans_le hlow
  have hbound : (256 : Nat) ^ (k + 1) ≤ 256 ^ 8 := Nat.pow_le_pow_right (by omega) (by omega)
  obtain ⟨m, -, hm, hmlow, hmhigh⟩ := intsize_spec hpos (hhigh.trans_le hbound)
  have hkm : k < m + 1 := (Nat.pow_lt_pow_iff_right (by omega)).mp (hlow.trans_lt hmhigh)
  have hmk : m < k + 1 := (Nat.pow_lt_pow_iff_right (by omega)).mp (hmlow.trans_lt hhigh)
  omega

theorem beValue_cons (x : UInt8) (rest : Bytes) :
    beValue (x :: rest) = 256 ^ rest.length * x.toNat + beValue rest := by
  rw [beValue, List.reverse_cons, leValue_append, List.length_reverse, leValue, leValue, beValue,
    Nat.mul_zero, Nat.add_zero, Nat.add_comm]

theorem beValue_lt (b : Bytes) : beValue b < 256 ^ b.length := by
  rw [beValue, ← List.length_reverse]
  exact leValue_lt _

theorem beValue_putint {i : Nat} (hpos : 0 < i) (h : i < 2 ^ 64) : beValue (putint i) = i := by
  obtain ⟨k, -, hk, -, hlt⟩ := intsize_spec hpos h
  rw [beValue, putint_eq, List.reverse_reverse, leValue_leBytes, hk]
  exact Nat.mod_eq_of_lt hlt

/-- Bytes without a leading zero are the shortest ones for their value. -/
theorem putint_beValue {x : UInt8} {rest : Bytes} (hx : x ≠ 0) (hlen : rest.length < 8) :
    intsize (beValue (x :: rest)) = rest.length + 1 ∧ putint (beValue (x :: rest)) = x :: rest := by
  have hpos : 0 < x.toNat := by
    rcases Nat.eq_zero_or_pos x.toNat with h | h
    · exact absurd (UInt8.toNat_inj.mp h) hx
    · exact h
  have hlow : 256 ^ rest.length ≤ beValue (x :: rest) := by
    rw [beValue_cons]
    have := Nat.le_mul_of_pos_right (256 ^ rest.length) hpos
    omega
  have hsize : intsize (beValue (x :: rest)) = rest.length + 1 :=
    intsize_eq hlen hlow (beValue_lt (x :: rest))
  refine ⟨hsize, ?_⟩
  have hle := leBytes_leValue (x :: rest).reverse
  rw [List.length_reverse, List.length_cons] at hle
  rw [putint_eq, hsize, beValue, hle, List.reverse_reverse]

/-- The shortest bytes of a positive number have no leading zero. -/
theorem putint_cons {i : Nat} (hpos : 0 < i) (h : i < 2 ^ 64) :
    ∃ x rest, putint i = x :: rest ∧ x ≠ 0 ∧ rest.length < 8 ∧ intsize i = rest.length + 1 := by
  obtain ⟨k, hk, hsize, hlow, -⟩ := intsize_spec hpos h
  have hlen := length_putint i
  cases hput : putint i with
  | nil =>
    rw [hput, List.length_nil] at hlen
    omega
  | cons x rest =>
    rw [hput, List.length_cons, hsize] at hlen
    have hrest : rest.length = k := by omega
    refine ⟨x, rest, rfl, ?_, by omega, by omega⟩
    rintro rfl
    have hval := beValue_putint hpos h
    have hlt := beValue_lt rest
    rw [hput, beValue_cons, UInt8.toNat_zero, Nat.mul_zero, Nat.zero_add] at hval
    rw [hval, hrest] at hlt
    omega

/-! ### What a reader consumes -/

theorem bind_ok {α β : Type} {d : Reader α} {f : α → Reader β} {s : Stream} {r : β × Stream} :
    (d >>= f) s = .ok r ↔ ∃ a t, d s = .ok (a, t) ∧ f a t = .ok r := by
  show (d s >>= fun x => f x.1 x.2) = .ok r ↔ _
  rw [bind_eq_ok]
  exact ⟨fun ⟨x, h⟩ => ⟨x.1, x.2, h⟩, fun ⟨a, t, h⟩ => ⟨(a, t), h⟩⟩

theorem pure_ok {α : Type} {a b : α} {s t : Stream} :
    (pure a : Reader α) s = .ok (b, t) ↔ b = a ∧ t = s := by
  show Except.ok (a, s) = .ok (b, t) ↔ _
  rw [Except.ok.injEq, Prod.mk.injEq]
  exact and_congr eq_comm eq_comm

theorem throw_ok {α : Type} {err : Error} {s : Stream} {r : α × Stream} :
    (throw err : Reader α) s = .ok r ↔ False := by
  show Except.error err = .ok r ↔ False
  simp

theorem mapError_ok {α : Type} {f : Error → Error} {d : Reader α} {s : Stream} {r : α × Stream} :
    mapError f d s = .ok r ↔ d s = .ok r := by
  unfold mapError
  cases d s <;> simp

namespace Stream

/-- The stream after `n` more bytes. -/
def skip (s : Stream) (n : Nat) : Stream where
  input := s.input.drop n
  remaining := s.remaining - n
  stack := s.stack.modifyHead fun top => (top.1 + n, top.2)

/-- The innermost list and the limit have `n` more bytes. -/
def Allows (s : Stream) (n : Nat) : Prop :=
  n ≤ s.remaining ∧ ∀ top ∈ s.stack.head?, n ≤ top.2 - top.1

/-- The stream goes on with the bytes `b`, and is `t` after them. -/
structure Reads (s : Stream) (b : Bytes) (t : Stream) : Prop where
  allows : s.Allows b.length
  input : s.input = b ++ t.input
  after : t = s.skip b.length

theorem skip_zero (s : Stream) : s.skip 0 = s := by
  obtain ⟨input, remaining, stack⟩ := s
  cases stack <;> rfl

theorem skip_skip (s : Stream) (m n : Nat) : (s.skip m).skip n = s.skip (m + n) := by
  obtain ⟨input, remaining, stack⟩ := s
  simp only [skip, List.drop_drop, Nat.sub_sub, List.modifyHead_modifyHead]
  cases stack <;> simp [Nat.add_assoc]

theorem allows_skip {s : Stream} {m n : Nat} (h : s.Allows m) :
    (s.skip m).Allows n ↔ s.Allows (m + n) := by
  obtain ⟨input, remaining, stack⟩ := s
  obtain ⟨hremaining, htop⟩ := h
  unfold Allows skip
  cases stack with
  | nil =>
    simp
    dsimp only at hremaining
    omega
  | cons top rest =>
    simp at htop hremaining ⊢
    omega

theorem reads_nil {s t : Stream} : s.Reads [] t ↔ t = s := by
  constructor
  · intro h
    rw [h.after, List.length_nil, skip_zero]
  · rintro rfl
    refine ⟨⟨Nat.zero_le _, fun _ _ => Nat.zero_le _⟩, rfl, (skip_zero _).symm⟩

theorem reads_append {s u : Stream} {a b : Bytes} :
    s.Reads (a ++ b) u ↔ ∃ t, s.Reads a t ∧ t.Reads b u := by
  constructor
  · rintro ⟨hallows, hinput, hafter⟩
    rw [List.length_append] at hallows hafter
    rw [List.append_assoc] at hinput
    have ha : s.Allows a.length :=
      ⟨(Nat.le_add_right _ _).trans hallows.1,
        fun top htop => (Nat.le_add_right _ _).trans (hallows.2 top htop)⟩
    have hskip : (s.skip a.length).input = b ++ u.input := by
      show s.input.drop a.length = _
      rw [hinput, List.drop_left]
    exact ⟨s.skip a.length, ⟨ha, hskip ▸ hinput, rfl⟩, (allows_skip ha).mpr hallows, hskip,
      hafter.trans (skip_skip ..).symm⟩
  · rintro ⟨t, ⟨ha, hinput, rfl⟩, hb, hinput', rfl⟩
    refine ⟨?_, ?_, ?_⟩
    · rw [List.length_append]
      exact (allows_skip ha).mp hb
    · rw [hinput, hinput', List.append_assoc]
    · rw [skip_skip, List.length_append]

theorem reads_cons {s u : Stream} {x : UInt8} {b : Bytes} :
    s.Reads (x :: b) u ↔ ∃ t, s.Reads [x] t ∧ t.Reads b u := reads_append (a := [x])

end Stream

theorem willRead_ok {n : Nat} {s t : Stream} {u : Unit} :
    willRead n s = .ok (u, t) ↔ s.Allows n ∧ t = { s.skip n with input := s.input } := by
  obtain ⟨input, remaining, stack⟩ := s
  unfold willRead
  rw [bind_ok]
  constructor
  · rintro ⟨_, s', henter, hlimit⟩
    unfold enterList at henter
    cases stack with
    | nil =>
      cases henter
      dsimp only at hlimit
      split at hlimit
      · cases hlimit
      · rename_i hle
        cases hlimit
        exact ⟨⟨not_lt.mp hle, fun top htop => by simp at htop⟩, rfl⟩
    | cons top rest =>
      dsimp only at henter
      split at henter
      · cases henter
      · rename_i htop
        cases henter
        dsimp only at hlimit
        split at hlimit
        · cases hlimit
        · rename_i hle
          cases hlimit
          refine ⟨⟨not_lt.mp hle, fun top' htop' => ?_⟩, rfl⟩
          cases htop'
          exact not_lt.mp htop
  · rintro ⟨⟨hremaining, htop⟩, rfl⟩
    have hlimit : ¬ remaining < n := not_lt.mpr hremaining
    cases stack with
    | nil => exact ⟨(), _, rfl, by simp [hlimit, Stream.skip]⟩
    | cons top rest =>
      have hroom : ¬ top.2 - top.1 < n := not_lt.mpr (htop top rfl)
      refine ⟨(), ⟨input, remaining, (top.1 + n, top.2) :: rest⟩, ?_, ?_⟩
      · simp [enterList, hroom]
      · simp [hlimit, Stream.skip]

theorem readFull_ok {n : Nat} {b : Bytes} {s t : Stream} :
    readFull n s = .ok (b, t) ↔ b.length = n ∧ s.Reads b t := by
  unfold readFull
  rw [bind_ok]
  constructor
  · rintro ⟨_, s', hwill, h⟩
    obtain ⟨hallows, rfl⟩ := willRead_ok.mp hwill
    dsimp only at h
    split at h
    · cases h
    · rename_i hlen
      cases h
      have htake : (s.input.take n).length = n := by
        rw [List.length_take]
        omega
      refine ⟨htake, ?_, ?_, ?_⟩
      · rwa [htake]
      · exact (List.take_append_drop n s.input).symm
      · rw [htake]
        rfl
  · rintro ⟨rfl, hallows, hinput, rfl⟩
    refine ⟨(), _, willRead_ok.mpr ⟨hallows, rfl⟩, ?_⟩
    dsimp only
    have hlen : ¬ s.input.length < b.length := by
      rw [hinput, List.length_append]
      omega
    have htake : s.input.take b.length = b := by rw [hinput, List.take_left]
    rw [if_neg hlen, htake]
    rfl

theorem readByte_ok {b : UInt8} {s t : Stream} :
    readByte s = .ok (b, t) ↔ s.Reads [b] t := by
  unfold readByte
  rw [bind_ok]
  constructor
  · rintro ⟨_, s', hwill, h⟩
    obtain ⟨hallows, rfl⟩ := willRead_ok.mp hwill
    dsimp only at h
    split at h
    · cases h
    · rename_i x rest hinput
      cases h
      refine ⟨hallows, hinput, ?_⟩
      simp [Stream.skip, hinput]
  · rintro ⟨hallows, hinput, hafter⟩
    refine ⟨(), _, willRead_ok.mpr ⟨hallows, rfl⟩, ?_⟩
    dsimp only
    rw [hinput, hafter]
    simp [Stream.skip, hinput]

/-- An integer of `n` bytes, which have no leading zero if they are more than one. -/
theorem readUint_ok {n v : Nat} {s t : Stream} :
    readUint n s = .ok (v, t) ↔
      ∃ b, b.length = n ∧ (2 ≤ n → b.head? ≠ some 0) ∧ v = beValue b ∧ s.Reads b t := by
  unfold readUint
  split
  · rw [pure_ok]
    constructor
    · rintro ⟨rfl, rfl⟩
      exact ⟨[], rfl, by simp, rfl, Stream.reads_nil.mpr rfl⟩
    · rintro ⟨b, hlen, -, rfl, hreads⟩
      rw [List.length_eq_zero_iff] at hlen
      subst hlen
      exact ⟨rfl, Stream.reads_nil.mp hreads⟩
  · rw [bind_ok]
    constructor
    · rintro ⟨b, t', hbyte, h⟩
      obtain ⟨rfl, rfl⟩ := pure_ok.mp h
      exact ⟨[b], rfl, by simp, by simp [beValue, leValue], readByte_ok.mp hbyte⟩
    · rintro ⟨b, hlen, -, rfl, hreads⟩
      obtain ⟨x, rfl⟩ := List.length_eq_one_iff.mp hlen
      exact ⟨x, t, readByte_ok.mpr hreads, pure_ok.mpr ⟨by simp [beValue, leValue], rfl⟩⟩
  · rename_i hzero hone
    have htwo : 2 ≤ n := by
      rcases n with _ | _ | n
      · exact absurd rfl hzero
      · exact absurd rfl hone
      · omega
    rw [bind_ok]
    constructor
    · rintro ⟨b, t', hfull, h⟩
      obtain ⟨hlen, hreads⟩ := readFull_ok.mp hfull
      split at h
      · exact (throw_ok.mp h).elim
      · rename_i hhead
        obtain ⟨rfl, rfl⟩ := pure_ok.mp h
        exact ⟨b, hlen, fun _ => hhead, rfl, hreads⟩
    · rintro ⟨b, hlen, hhead, rfl, hreads⟩
      refine ⟨b, t, readFull_ok.mpr ⟨hlen, hreads⟩, ?_⟩
      rw [if_neg (hhead htwo)]
      rfl

/-- A positive integer is read from its shortest bytes only. -/
theorem readUint_pos {n v : Nat} {s t : Stream} (hn : n ≤ 8) (hv : 0 < v) :
    readUint n s = .ok (v, t) ↔ v < 2 ^ 64 ∧ intsize v = n ∧ s.Reads (putint v) t := by
  rw [readUint_ok]
  constructor
  · rintro ⟨b, rfl, hhead, rfl, hreads⟩
    cases b with
    | nil => simp [beValue, leValue] at hv
    | cons x rest =>
      have hx : x ≠ 0 := by
        rintro rfl
        cases rest with
        | nil => simp [beValue, leValue] at hv
        | cons y rest => exact hhead (by simp) rfl
      rw [List.length_cons] at hn ⊢
      have hlen : rest.length < 8 := by omega
      obtain ⟨hsize, hput⟩ := putint_beValue hx hlen
      have hbound : (256 : Nat) ^ (x :: rest).length ≤ 256 ^ 8 :=
        Nat.pow_le_pow_right (by omega) (by simpa using hn)
      exact ⟨(beValue_lt (x :: rest)).trans_le hbound, hsize, hput.symm ▸ hreads⟩
  · rintro ⟨hlt, rfl, hreads⟩
    obtain ⟨x, rest, hput, hx, -, -⟩ := putint_cons hv hlt
    refine ⟨putint v, length_putint v, fun _ => ?_, (beValue_putint hv hlt).symm, hreads⟩
    rw [hput]
    simpa using hx

theorem readSize_ok {n size : Nat} {s t : Stream} (hn : n ≤ 8) :
    readSize n s = .ok (size, t) ↔
      56 ≤ size ∧ size < 2 ^ 64 ∧ intsize size = n ∧ s.Reads (putint size) t := by
  unfold readSize
  rw [bind_ok]
  constructor
  · rintro ⟨v, t', hread, h⟩
    split at h
    · exact (throw_ok.mp h).elim
    · rename_i hsize
      obtain ⟨rfl, rfl⟩ := pure_ok.mp h
      exact ⟨by omega, (readUint_pos hn (by omega)).mp hread⟩
  · rintro ⟨hsize, h⟩
    refine ⟨size, t, (readUint_pos hn (by omega)).mpr h, ?_⟩
    rw [if_neg (by omega)]
    rfl

theorem readTag_ok {b : UInt8} {s t : Stream} : readTag s = .ok (b, t) ↔ s.Reads [b] t := by
  rw [← readByte_ok]
  unfold readTag
  cases readByte s with
  | ok r => rfl
  | error err =>
    dsimp only
    split <;> simp

/-! ### Headers -/

/-- The header of a value. -/
def Kind.head : Kind → Bytes
  | .byte b => [b]
  | .string size => puthead 0x80 0xB7 size
  | .list size => puthead 0xC0 0xF7 size

/-- A value that the header can announce. -/
def Kind.Canonical : Kind → Prop
  | .byte b => b < 0x80
  | .string size => size < 2 ^ 64
  | .list size => size < 2 ^ 64

theorem puthead_small {small large : UInt8} {size : Nat} (h : size < 56) :
    puthead small large size = [small + UInt8.ofNat size] := if_pos h

theorem puthead_large {small large : UInt8} {size : Nat} (h : 56 ≤ size) :
    puthead small large size = (large + UInt8.ofNat (intsize size)) :: putint size :=
  if_neg (by omega)

theorem intsize_le {i : Nat} (hpos : 0 < i) (h : i < 2 ^ 64) : 1 ≤ intsize i ∧ intsize i ≤ 8 := by
  obtain ⟨k, hk, hsize, -⟩ := intsize_spec hpos h
  omega

theorem toNat_add_ofNat {b : UInt8} {n : Nat} (h : b.toNat + n < 256) :
    (b + UInt8.ofNat n).toNat = b.toNat + n ∧ (b + UInt8.ofNat n - b).toNat = n := by
  have hn : (UInt8.ofNat n).toNat = n := UInt8.toNat_ofNat_of_lt' (by show n < 256; omega)
  constructor
  · rw [UInt8.toNat_add, hn]
    omega
  · rw [UInt8.add_comm, UInt8.add_sub_cancel, hn]

section Header

variable {small large b : UInt8} {size : Nat} {s t u : Stream}

/-- A tag that holds the size of the contents. -/
theorem reads_small (htag : s.Reads [b] u) (hle : small.toNat ≤ b.toNat)
    (hlt : b.toNat < small.toNat + 56) :
    (b - small).toNat < 2 ^ 64 ∧ s.Reads (puthead small large (b - small).toNat) u := by
  have hsub : (b - small).toNat = b.toNat - small.toNat :=
    UInt8.toNat_sub_of_le _ _ (UInt8.le_iff_toNat_le.mpr hle)
  refine ⟨by omega, ?_⟩
  rw [puthead_small (by omega), UInt8.ofNat_toNat, UInt8.add_comm, UInt8.sub_add_cancel]
  exact htag

/-- A tag that holds the number of bytes of the size. -/
theorem reads_large (htag : s.Reads [b] u) (hle : large.toNat ≤ b.toNat)
    (hlt : b.toNat ≤ large.toNat + 8)
    (hread : readSize (b - large).toNat u = .ok (size, t)) :
    size < 2 ^ 64 ∧ s.Reads (puthead small large size) t := by
  have hsub : (b - large).toNat = b.toNat - large.toNat :=
    UInt8.toNat_sub_of_le _ _ (UInt8.le_iff_toNat_le.mpr hle)
  obtain ⟨hsize, hbound, hint, hreads⟩ := (readSize_ok (by omega)).mp hread
  refine ⟨hbound, ?_⟩
  rw [puthead_large hsize, hint, UInt8.ofNat_toNat, UInt8.add_comm, UInt8.sub_add_cancel]
  exact Stream.reads_cons.mpr ⟨u, htag, hreads⟩

/-- The tag of a header, from which the size or the number of its bytes is read back. -/
theorem reads_puthead (hsmall : small.toNat + 56 ≤ 256) (hlarge : large.toNat + 8 < 256)
    (hsize : size < 2 ^ 64) (h : s.Reads (puthead small large size) t) :
    ∃ b u, s.Reads [b] u ∧
      (u = t ∧ b.toNat < small.toNat + 56 ∧ small.toNat ≤ b.toNat ∧ (b - small).toNat = size ∨
        b.toNat ≤ large.toNat + 8 ∧ large.toNat < b.toNat ∧
          readSize (b - large).toNat u = .ok (size, t)) := by
  by_cases hlt : size < 56
  · rw [puthead_small hlt] at h
    obtain ⟨hadd, hsub⟩ := toNat_add_ofNat (b := small) (n := size) (by omega)
    exact ⟨_, t, h, .inl ⟨rfl, by omega, by omega, hsub⟩⟩
  · have hint := intsize_le (by omega) hsize
    rw [puthead_large (by omega)] at h
    obtain ⟨u, htag, hreads⟩ := Stream.reads_cons.mp h
    obtain ⟨hadd, hsub⟩ := toNat_add_ofNat (b := large) (n := intsize size) (by omega)
    refine ⟨_, u, htag, .inr ⟨by omega, by omega, ?_⟩⟩
    rw [hsub]
    exact (readSize_ok (by omega)).mpr ⟨by omega, hsize, rfl, hreads⟩

end Header

theorem readKind_ok {k : Kind} {s t : Stream} :
    readKind s = .ok (k, t) ↔ k.Canonical ∧ s.Reads k.head t := by
  unfold readKind
  simp only [bind_ok, readTag_ok, UInt8.lt_iff_toNat_lt, UInt8.reduceToNat]
  constructor
  · rintro ⟨b, u, htag, h⟩
    have hb := b.toNat_lt
    split at h
    · obtain ⟨rfl, rfl⟩ := pure_ok.mp h
      exact ⟨UInt8.lt_iff_toNat_lt.mpr (by assumption), htag⟩
    split at h
    · obtain ⟨rfl, rfl⟩ := pure_ok.mp h
      exact reads_small htag (by simp; omega) (by simp; omega)
    split at h
    · obtain ⟨size, v, hread, h⟩ := bind_ok.mp h
      obtain ⟨rfl, rfl⟩ := pure_ok.mp h
      exact reads_large htag (by simp; omega) (by simp; omega) hread
    split at h
    · obtain ⟨rfl, rfl⟩ := pure_ok.mp h
      exact reads_small htag (by simp; omega) (by simp; omega)
    · obtain ⟨size, v, hread, h⟩ := bind_ok.mp h
      obtain ⟨rfl, rfl⟩ := pure_ok.mp h
      exact reads_large htag (by simp; omega) (by simp; omega) hread
  · rintro ⟨hcanonical, hreads⟩
    cases k with
    | byte b =>
      have hlt : b.toNat < 128 := UInt8.lt_iff_toNat_lt.mp hcanonical
      refine ⟨b, t, hreads, ?_⟩
      rw [if_pos hlt]
      rfl
    | string size =>
      obtain ⟨b, u, htag, h⟩ := reads_puthead (by decide) (by decide) hcanonical hreads
      refine ⟨b, u, htag, ?_⟩
      simp only [UInt8.reduceToNat] at h
      rcases h with ⟨rfl, hlt, hle, hsub⟩ | ⟨hle, hlt, hread⟩
      · rw [if_neg (by omega), if_pos (by omega), pure_ok]
        exact ⟨by rw [hsub], rfl⟩
      · rw [if_neg (by omega), if_neg (by omega), if_pos (by omega), bind_ok]
        exact ⟨size, t, hread, rfl⟩
    | list size =>
      obtain ⟨b, u, htag, h⟩ := reads_puthead (by decide) (by decide) hcanonical hreads
      refine ⟨b, u, htag, ?_⟩
      simp only [UInt8.reduceToNat] at h
      rcases h with ⟨rfl, hlt, hle, hsub⟩ | ⟨hle, hlt, hread⟩
      · rw [if_neg (by omega), if_neg (by omega), if_neg (by omega), if_pos (by omega), pure_ok]
        exact ⟨by rw [hsub], rfl⟩
      · rw [if_neg (by omega), if_neg (by omega), if_neg (by omega), if_neg (by omega), bind_ok]
        exact ⟨size, t, hread, rfl⟩

/-- The contents that a header announces fit into the innermost list, or else into the input. -/
def Stream.Room (s : Stream) (n : Nat) : Prop :=
  match s.stack with
  | [] => n ≤ s.remaining
  | top :: _ => n ≤ top.2 - top.1

theorem Stream.Allows.room {s : Stream} {n : Nat} (h : s.Allows n) : s.Room n := by
  unfold Room
  split
  · exact h.1
  · rename_i top rest hstack
    exact h.2 top (by rw [hstack]; rfl)

theorem checkSize_ok {size : Nat} {s t : Stream} {u : Unit} :
    checkSize size s = .ok (u, t) ↔ s.Room size ∧ t = s := by
  unfold checkSize Stream.Room
  cases s.stack with
  | nil =>
    dsimp only
    split
    · simp
      omega
    · simp [eq_comm]
      omega
  | cons top rest =>
    dsimp only
    split
    · simp
      omega
    · simp [eq_comm]
      omega

theorem checkEnd_ok {s t u : Stream} {b : Bytes} {x : Unit} (hb : b ≠ [])
    (h : s.Reads b u) : checkEnd s = .ok (x, t) ↔ t = s := by
  have hpos : 0 < b.length := List.length_pos_iff.mpr hb
  unfold checkEnd
  split
  · simp [eq_comm]
  · rename_i pos size rest hstack
    have hroom := h.allows.2 (pos, size) (by rw [hstack]; rfl)
    dsimp only at hroom
    rw [if_neg (by omega)]
    simp [eq_comm]

theorem Kind.head_ne_nil (k : Kind) : k.head ≠ [] := by
  cases k with
  | byte b => simp [head]
  | string size => exact List.length_pos_iff.mp (by simp [head, headsize_pos])
  | list size => exact List.length_pos_iff.mp (by simp [head, headsize_pos])

theorem checkEnd_self {s t : Stream} {u : Unit} (h : checkEnd s = .ok (u, t)) : t = s := by
  unfold checkEnd at h
  split at h
  · cases h
    rfl
  · split at h <;> cases h
    rfl

theorem kind_ok {k : Kind} {s t : Stream} :
    kind s = .ok (k, t) ↔ k.Canonical ∧ s.Reads k.head t ∧ t.Room k.size := by
  unfold kind
  simp only [bind_ok, pure_ok, readKind_ok, checkSize_ok]
  constructor
  · rintro ⟨_, s', hend, k', t', ⟨hcanonical, hreads⟩, _, t'', ⟨hroom, rfl⟩, rfl, rfl⟩
    obtain rfl := checkEnd_self hend
    exact ⟨hcanonical, hreads, hroom⟩
  · rintro ⟨hcanonical, hreads, hroom⟩
    exact ⟨(), s, (checkEnd_ok k.head_ne_nil hreads).mpr rfl, k, t, ⟨hcanonical, hreads⟩, (), t,
      ⟨hroom, rfl⟩, rfl, rfl⟩

/-! ### Values -/

theorem encodeString_eq {b : Bytes} (h : ¬ (b.length = 1 ∧ b.headD 0 < 128)) :
    encodeString b = puthead 0x80 0xB7 b.length ++ b := by
  unfold encodeString
  split
  · rename_i x
    rw [if_neg]
    · rfl
    · intro hle
      exact h ⟨rfl, UInt8.lt_iff_toNat_lt.mpr (Nat.lt_succ_of_le (UInt8.le_iff_toNat_le.mp hle))⟩
  · rfl

theorem bytes_ok {b : Bytes} {s t : Stream} :
    bytes s = .ok (b, t) ↔ b.length < 2 ^ 64 ∧ s.Reads (encodeString b) t := by
  unfold bytes
  rw [bind_ok]
  constructor
  · rintro ⟨k, u, hkind, h⟩
    obtain ⟨hcanonical, hreads, -⟩ := kind_ok.mp hkind
    cases k with
    | byte x =>
      obtain ⟨rfl, rfl⟩ := pure_ok.mp h
      have hle : x ≤ 0x7F := UInt8.le_iff_toNat_le.mpr
        (Nat.le_of_lt_succ (UInt8.lt_iff_toNat_lt.mp hcanonical))
      refine ⟨by simp, ?_⟩
      rw [encodeString, if_pos hle]
      exact hreads
    | string size =>
      obtain ⟨b', u', hfull, h⟩ := bind_ok.mp h
      obtain ⟨rfl, hcontents⟩ := readFull_ok.mp hfull
      split at h
      · exact (throw_ok.mp h).elim
      · rename_i hsingle
        obtain ⟨rfl, rfl⟩ := pure_ok.mp h
        refine ⟨hcanonical, ?_⟩
        rw [encodeString_eq hsingle]
        exact Stream.reads_append.mpr ⟨u, hreads, hcontents⟩
    | list size => exact (throw_ok.mp h).elim
  · rintro ⟨hlen, hreads⟩
    by_cases hsingle : b.length = 1 ∧ b.headD 0 < 128
    · obtain ⟨x, rfl⟩ := List.length_eq_one_iff.mp hsingle.1
      have hlt : x < 0x80 := hsingle.2
      have hle : x ≤ 0x7F := UInt8.le_iff_toNat_le.mpr
        (Nat.le_of_lt_succ (UInt8.lt_iff_toNat_lt.mp hlt))
      rw [encodeString, if_pos hle] at hreads
      refine ⟨.byte x, t, kind_ok.mpr ⟨hlt, hreads, ?_⟩, rfl⟩
      exact Stream.Allows.room ⟨Nat.zero_le _, fun _ _ => Nat.zero_le _⟩
    · rw [encodeString_eq hsingle] at hreads
      obtain ⟨u, hhead, hcontents⟩ := Stream.reads_append.mp hreads
      refine ⟨.string b.length, u, kind_ok.mpr ⟨hlen, hhead, hcontents.allows.room⟩, ?_⟩
      rw [bind_ok]
      refine ⟨b, t, readFull_ok.mpr ⟨rfl, hcontents⟩, ?_⟩
      rw [if_neg hsingle]
      rfl

theorem encodeUint_of_byte {b : UInt8} (hzero : b ≠ 0) (hlt : b < 0x80) :
    encodeUint b.toNat = [b] := by
  have hpos : b.toNat ≠ 0 := fun h => hzero (UInt8.toNat_inj.mp h)
  have hnat : b.toNat < 128 := UInt8.lt_iff_toNat_lt.mp hlt
  rw [encodeUint, if_neg hpos, if_pos hnat, UInt8.ofNat_toNat]

theorem encodeUint_large {v : Nat} (h : 128 ≤ v) (hv : v < 2 ^ 64) :
    encodeUint v = puthead 0x80 0xB7 (intsize v) ++ putint v := by
  have hint := intsize_le (by omega) hv
  rw [encodeUint, if_neg (by omega), if_neg (by omega), puthead_small (by omega)]
  rfl

theorem intsize_le_iff {v n : Nat} (hpos : 0 < v) (h : v < 2 ^ 64) :
    intsize v ≤ n ↔ v < 256 ^ n := by
  obtain ⟨k, -, hsize, hlow, hhigh⟩ := intsize_spec hpos h
  rw [hsize]
  constructor
  · intro hle
    exact hhigh.trans_le (Nat.pow_le_pow_right (by omega) hle)
  · intro hlt
    exact (Nat.pow_lt_pow_iff_right (by omega)).mp (hlow.trans_lt hlt)

theorem uintSize_le_of_lt {i k : Nat} (hpos : 0 < k) (hk : k ≤ 8) (h : i < 256 ^ k) :
    uintSize i ≤ 1 + k := by
  have hbound : (256 : Nat) ^ k ≤ 256 ^ 8 := Nat.pow_le_pow_right (by omega) hk
  unfold uintSize
  split
  · omega
  · have := (intsize_le_iff (by omega) (h.trans_le hbound)).mpr h
    omega

theorem headsize_le_of_lt {size k : Nat} (hpos : 0 < k) (hk : k ≤ 8) (h : size < 256 ^ k) :
    headsize size ≤ 1 + k := by
  have hbound : (256 : Nat) ^ k ≤ 256 ^ 8 := Nat.pow_le_pow_right (by omega) hk
  unfold headsize
  split
  · omega
  · have := (intsize_le_iff (by omega) (h.trans_le hbound)).mpr h
    omega

theorem stringSize_le_headsize (b : Bytes) : stringSize b ≤ headsize b.length + b.length := by
  unfold stringSize
  split
  · split <;> simp [headsize]
  · exact Nat.le_refl _

theorem uintSize_le {i : Nat} (h : i < 2 ^ 64) : uintSize i ≤ 9 :=
  uintSize_le_of_lt (k := 8) (by decide) (by decide) h

theorem headsize_le {size : Nat} (h : size < 2 ^ 64) : headsize size ≤ 9 :=
  headsize_le_of_lt (k := 8) (by decide) (by decide) h

theorem stringSize_le {b : Bytes} (h : b.length < 2 ^ 64) : stringSize b ≤ 9 + b.length :=
  (stringSize_le_headsize b).trans (Nat.add_le_add_right (headsize_le h) _)

theorem length_encodeList_le {items : List Bytes} (h : items.flatten.length < 2 ^ 64) :
    (encodeList items).length ≤ 9 + items.flatten.length := by
  have hhead := headsize_le h
  rw [encodeList, List.length_append, length_puthead]
  omega

theorem length_le_stringSize (b : Bytes) : b.length ≤ stringSize b := by
  unfold stringSize
  split
  · split <;> simp
  · omega

/-- An integer is read from its encoding only. -/
theorem uint_sound {n v : Nat} {s t : Stream} (hn : 1 ≤ n) (hn' : n ≤ 8)
    (h : uint (8 * n) s = .ok (v, t)) : v < 256 ^ n ∧ s.Reads (encodeUint v) t := by
  have hdiv : 8 * n / 8 = n := by omega
  have hbyte : (256 : Nat) ^ 1 ≤ 256 ^ n := Nat.pow_le_pow_right (by omega) hn
  unfold uint at h
  rw [bind_ok, hdiv] at h
  obtain ⟨k, u, hkind, h⟩ := h
  obtain ⟨hcanonical, hreads, -⟩ := kind_ok.mp hkind
  cases k with
  | byte b =>
    dsimp only at h
    split at h
    · exact (throw_ok.mp h).elim
    · rename_i hzero
      obtain ⟨rfl, rfl⟩ := pure_ok.mp h
      have hb := b.toNat_lt
      refine ⟨by omega, ?_⟩
      rw [encodeUint_of_byte hzero hcanonical]
      exact hreads
  | string size =>
    dsimp only at h
    split at h
    · exact (throw_ok.mp h).elim
    rename_i hsize
    obtain ⟨v', u', hread, h⟩ := bind_ok.mp h
    have hread : readUint size u = .ok (v', u') := by
      cases hr : readUint size u with
      | error err =>
        rw [hr] at hread
        cases hread
      | ok r =>
        rw [hr] at hread
        exact hread
    split at h
    · exact (throw_ok.mp h).elim
    rename_i hlow
    obtain ⟨rfl, rfl⟩ := pure_ok.mp h
    by_cases hempty : size = 0
    · subst hempty
      obtain ⟨rfl, rfl⟩ := pure_ok.mp hread
      exact ⟨Nat.pow_pos (by omega), hreads⟩
    · have hlarge : 128 ≤ v := by omega
      obtain ⟨hv, rfl, hcontents⟩ := (readUint_pos (by omega) (by omega)).mp hread
      refine ⟨(intsize_le_iff (by omega) hv).mp (by omega), ?_⟩
      rw [encodeUint_large hlarge hv]
      exact Stream.reads_append.mpr ⟨u, hreads, hcontents⟩
  | list size => exact (throw_ok.mp h).elim

/-- An integer below 128 is the empty string or a byte of its own. -/
theorem uint_of_small {bits v : Nat} {s t : Stream} (hv : v < 128)
    (hreads : s.Reads (encodeUint v) t) : uint bits s = .ok (v, t) := by
  have hroom : t.Room 0 := Stream.Allows.room ⟨Nat.zero_le _, fun _ _ => Nat.zero_le _⟩
  unfold uint
  rw [bind_ok]
  by_cases hzero : v = 0
  · subst hzero
    refine ⟨.string 0, t, kind_ok.mpr ⟨by simp [Kind.Canonical], hreads, hroom⟩, ?_⟩
    dsimp only
    rw [if_neg (Nat.not_lt_zero _)]
    rfl
  · have hnat : (UInt8.ofNat v).toNat = v := UInt8.toNat_ofNat_of_lt' (by show v < 256; omega)
    rw [encodeUint, if_neg hzero, if_pos hv] at hreads
    refine ⟨.byte (UInt8.ofNat v), t, kind_ok.mpr ⟨?_, hreads, hroom⟩, ?_⟩
    · show UInt8.ofNat v < 0x80
      rw [UInt8.lt_iff_toNat_lt, hnat]
      exact hv
    · dsimp only
      rw [if_neg, pure_ok, hnat]
      · exact ⟨rfl, rfl⟩
      · intro h
        rw [← UInt8.toNat_inj, hnat] at h
        exact hzero h

/-- A larger one is a string of the bytes that it needs. -/
theorem uint_of_large {n v : Nat} {s t : Stream} (hn : n ≤ 8) (hlarge : 128 ≤ v)
    (hv : v < 256 ^ n) (hreads : s.Reads (encodeUint v) t) : uint (8 * n) s = .ok (v, t) := by
  have hdiv : 8 * n / 8 = n := by omega
  have hv64 : v < 2 ^ 64 := hv.trans_le (Nat.pow_le_pow_right (by omega) hn)
  have hint := intsize_le (by omega) hv64
  have hle : intsize v ≤ n := (intsize_le_iff (by omega) hv64).mpr hv
  rw [encodeUint_large hlarge hv64] at hreads
  obtain ⟨u, hhead, hcontents⟩ := Stream.reads_append.mp hreads
  have hroom := hcontents.allows.room
  rw [length_putint] at hroom
  unfold uint
  rw [bind_ok, hdiv]
  refine ⟨.string (intsize v), u, kind_ok.mpr ⟨?_, hhead, hroom⟩, ?_⟩
  · show intsize v < 2 ^ 64
    omega
  · dsimp only
    rw [if_neg (by omega), bind_ok]
    refine ⟨v, t, ?_, ?_⟩
    · rw [(readUint_pos (by omega) (by omega)).mpr ⟨hv64, rfl, hcontents⟩]
    · rw [if_neg (by omega)]
      rfl

/-- An integer of at most `n` bytes. -/
theorem uint_ok {n v : Nat} {s t : Stream} (hn : 1 ≤ n) (hn' : n ≤ 8) :
    uint (8 * n) s = .ok (v, t) ↔ v < 256 ^ n ∧ s.Reads (encodeUint v) t := by
  constructor
  · exact uint_sound hn hn'
  · intro h
    obtain ⟨hv, hreads⟩ := h
    by_cases hsmall : v < 128
    · exact uint_of_small hsmall hreads
    · exact uint_of_large hn' (by omega) hv hreads

theorem decodeByteArray_ok {typ : String} {n : Nat} {b : Bytes} {s t : Stream} (hn : 2 ≤ n)
    (hn' : n < 2 ^ 64) :
    decodeByteArray typ n s = .ok (b, t) ↔ b.length = n ∧ s.Reads (encodeString b) t := by
  unfold decodeByteArray
  rw [bind_ok]
  constructor
  · rintro ⟨k, u, hkind, h⟩
    obtain ⟨-, hreads, -⟩ := kind_ok.mp hkind
    cases k with
    | byte x => exact (throw_ok.mp h).elim
    | string size =>
      dsimp only at h
      split at h
      · exact (throw_ok.mp h).elim
      split at h
      · exact (throw_ok.mp h).elim
      have hsize : size = n := by omega
      obtain ⟨rfl, hcontents⟩ := readFull_ok.mp h
      refine ⟨rfl, ?_⟩
      rw [encodeString_eq (by omega)]
      exact Stream.reads_append.mpr ⟨u, hsize ▸ hreads, hcontents⟩
    | list size => exact (throw_ok.mp h).elim
  · rintro ⟨rfl, hreads⟩
    rw [encodeString_eq (by omega)] at hreads
    obtain ⟨u, hhead, hcontents⟩ := Stream.reads_append.mp hreads
    refine ⟨.string b.length, u, kind_ok.mpr ⟨hn', hhead, hcontents.allows.room⟩, ?_⟩
    dsimp only
    rw [if_neg (by omega), if_neg (by omega)]
    exact readFull_ok.mpr ⟨rfl, hcontents⟩

/-! ### Lists -/

theorem raw_reads {b : Bytes} {s t : Stream} (h : raw s = .ok (b, t)) : s.Reads b t := by
  obtain ⟨k, u, hkind, h⟩ := bind_ok.mp h
  obtain ⟨-, hreads, -⟩ := kind_ok.mp hkind
  cases k with
  | byte x =>
    obtain ⟨rfl, rfl⟩ := pure_ok.mp h
    exact hreads
  | string size =>
    obtain ⟨b', u', hfull, h⟩ := bind_ok.mp h
    obtain ⟨rfl, rfl⟩ := pure_ok.mp h
    exact Stream.reads_append.mpr ⟨u, hreads, (readFull_ok.mp hfull).2⟩
  | list size =>
    obtain ⟨b', u', hfull, h⟩ := bind_ok.mp h
    obtain ⟨rfl, rfl⟩ := pure_ok.mp h
    exact Stream.reads_append.mpr ⟨u, hreads, (readFull_ok.mp hfull).2⟩

theorem raw_of_reads {items : List Bytes} {s t : Stream} (hlen : items.flatten.length < 2 ^ 64)
    (h : s.Reads (encodeList items) t) : raw s = .ok (encodeList items, t) := by
  obtain ⟨u, hhead, hcontents⟩ := Stream.reads_append.mp h
  refine bind_ok.mpr ⟨.list items.flatten.length, u,
    kind_ok.mpr ⟨hlen, hhead, hcontents.allows.room⟩, ?_⟩
  exact bind_ok.mpr ⟨items.flatten, t, readFull_ok.mpr ⟨rfl, hcontents⟩, rfl⟩

theorem list_ok {n : Nat} {s t : Stream} :
    list s = .ok (n, t) ↔ n < 2 ^ 64 ∧ ∃ u, s.Reads (puthead 0xC0 0xF7 n) u ∧ u.Room n ∧
      t = { u with stack := (0, n) :: u.stack } := by
  unfold list
  rw [bind_ok]
  constructor
  · rintro ⟨k, u, hkind, h⟩
    obtain ⟨hcanonical, hreads, hroom⟩ := kind_ok.mp hkind
    cases k with
    | byte b => exact (throw_ok.mp h).elim
    | string size => exact (throw_ok.mp h).elim
    | list size =>
      cases h
      exact ⟨hcanonical, u, hreads, hroom, rfl⟩
  · rintro ⟨hn, u, hreads, hroom, rfl⟩
    exact ⟨.list n, u, kind_ok.mpr ⟨hn, hreads, hroom⟩, rfl⟩

/-- The contents of a list are read inside it as they are outside. -/
theorem Stream.Reads.inside {u t : Stream} {b : Bytes} (h : u.Reads b t) :
    Stream.Reads { u with stack := (0, b.length) :: u.stack } b
      (Stream.skip { u with stack := (0, b.length) :: u.stack } b.length) := by
  refine ⟨⟨h.allows.1, fun top htop => ?_⟩, ?_, rfl⟩
  · cases htop
    exact le_refl _
  · show u.input = b ++ u.input.drop b.length
    rw [h.input, List.drop_left]

/-- Inside a list of `n` bytes that has room in the stream, exactly its contents are read. -/
theorem listEnd_ok {n : Nat} {b : Bytes} {u w t : Stream} {x : Unit} (hroom : u.Room n)
    (h : Stream.Reads { u with stack := (0, n) :: u.stack } b w) :
    listEnd w = .ok (x, t) ↔ b.length = n ∧ u.Reads b t := by
  obtain ⟨⟨hremaining, htop⟩, hinput, rfl⟩ := h
  obtain ⟨input, remaining, stack⟩ := u
  have hle : b.length ≤ n := htop (0, n) rfl
  dsimp only at hremaining hinput
  simp only [listEnd, Stream.skip, List.modifyHead_cons, Nat.zero_add]
  constructor
  · intro hend
    split at hend
    · cases hend
    rename_i hlen
    obtain rfl : b.length = n := not_not.mp hlen
    cases hend
    refine ⟨rfl, ⟨hremaining, fun top htop' => ?_⟩, ?_, ?_⟩
    · cases stack with
      | nil => cases htop'
      | cons top' rest =>
        cases htop'
        exact hroom
    · exact hinput
    · cases stack <;> rfl
  · rintro ⟨rfl, -, -, rfl⟩
    rw [if_neg (not_not.mpr rfl)]
    cases stack <;> rfl

/-- A struct is read from a list whose contents the fields are read from. -/
theorem decodeStruct_of_reads {α : Type} {typ : String} {fields : Reader α} {items : List Bytes}
    {x : α} (hfields : ∀ u v, u.Reads items.flatten v → fields u = .ok (x, v)) {s t : Stream}
    (hlen : items.flatten.length < 2 ^ 64) (h : s.Reads (encodeList items) t) :
    decodeStruct typ fields s = .ok (x, t) := by
  obtain ⟨u, hhead, hcontents⟩ := Stream.reads_append.mp h
  have hinside := hcontents.inside
  unfold decodeStruct
  simp only [bind_ok, mapError_ok, pure_ok]
  exact ⟨_, _, list_ok.mpr ⟨hlen, u, hhead, hcontents.allows.room, rfl⟩, x, _,
    hfields _ _ hinside, (), t, (listEnd_ok hcontents.allows.room hinside).mpr ⟨rfl, hcontents⟩,
    rfl, rfl⟩

/-- A struct is read from the list of its fields only, when its fields are read from their
encodings only. -/
theorem decodeStruct_ok {α : Type} {typ : String} {fields : Reader α} {P : α → Prop}
    {items : α → List Bytes} (hfields : ∀ s x t,
      fields s = .ok (x, t) ↔ P x ∧ s.Reads (items x).flatten t) {x : α} {s t : Stream} :
    decodeStruct typ fields s = .ok (x, t) ↔
      P x ∧ (items x).flatten.length < 2 ^ 64 ∧ s.Reads (encodeList (items x)) t := by
  constructor
  · intro h
    unfold decodeStruct at h
    simp only [bind_ok, mapError_ok, pure_ok] at h
    obtain ⟨n, v, hlist, x', w, hx, _, w', hend, rfl, rfl⟩ := h
    obtain ⟨hn, u, hhead, hroom, rfl⟩ := list_ok.mp hlist
    obtain ⟨hP, hreads⟩ := (hfields _ _ _).mp hx
    obtain ⟨rfl, hcontents⟩ := (listEnd_ok hroom hreads).mp hend
    exact ⟨hP, hn, Stream.reads_append.mpr ⟨u, hhead, hcontents⟩⟩
  · rintro ⟨hP, hlen, hreads⟩
    exact decodeStruct_of_reads (fun u v hu => (hfields u x v).mpr ⟨hP, hu⟩) hlen hreads

theorem decodeBytes_ok {α : Type} {typ : String} {d : Reader α} {b : Bytes} {x : α} :
    decodeBytes typ d b = .ok x ↔
      ∃ t : Stream, t.input = [] ∧ d { input := b, remaining := b.length } = .ok (x, t) := by
  unfold decodeBytes
  simp only [← mapError_ok (f := addTarget typ) (d := d)]
  cases mapError (addTarget typ) d { input := b, remaining := b.length } with
  | error err => simp
  | ok r =>
    dsimp only
    split
    · rename_i hpos
      simp only [reduceCtorEq, false_iff]
      rintro ⟨t, hnil, heq⟩
      cases heq
      simp [hnil] at hpos
    · rename_i hpos
      have hnil : r.2.input = [] := List.length_eq_zero_iff.mp (by omega)
      constructor
      · intro h
        cases h
        exact ⟨r.2, hnil, rfl⟩
      · rintro ⟨t, -, heq⟩
        cases heq
        rfl

/-- At the top level, a stream reads all its bytes and nothing else. -/
theorem reads_all {b c : Bytes} :
    (∃ t : Stream, t.input = [] ∧ Stream.Reads { input := b, remaining := b.length } c t) ↔
      b = c := by
  constructor
  · rintro ⟨t, hnil, hreads⟩
    have hinput := hreads.input
    rw [hnil, List.append_nil] at hinput
    exact hinput
  · rintro rfl
    refine ⟨_, ?_, ⟨le_refl _, fun top htop => ?_⟩, ?_, rfl⟩
    · exact List.drop_length
    · cases htop
    · show b = b ++ b.drop b.length
      rw [List.drop_length, List.append_nil]

end Whisperv6.ProofKit.Rlp
