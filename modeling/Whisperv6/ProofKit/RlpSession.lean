import Whisperv6.ProofKit.RlpSlice

/-! A caller of an RLP stream that goes on reading after an error.  What the stream has read stays
read, and the header of a value that was refused stays cached, so the next call sees it again.
Where a `Reader` returns a value, the session returns it too and leaves the same stream. -/

namespace Whisperv6.ProofKit.Rlp

/-- The stream with what `Kind` has cached: the value ahead, or the error of its header. -/
structure Cursor where
  stream : Stream
  ahead : Option (Except Error Kind) := none

/-- What a call returns, and the stream after it. -/
abbrev Session (α : Type) := ExceptT Error (StateM Cursor) α

namespace Session

/-- The part of `willRead` on the innermost list. -/
def enterList (n : Nat) : Session Unit := fun c =>
  match c.stream.stack with
  | [] => (.ok (), { c with ahead := none })
  | (pos, size) :: rest =>
    if size - pos < n then (.error .elemTooLarge, { c with ahead := none })
    else (.ok (), { stream := { c.stream with stack := (pos + n, size) :: rest } })

/-- The part of `willRead` on the limit. -/
def spend (n : Nat) : Session Unit := fun c =>
  if c.stream.remaining < n then (.error .valueTooLarge, c)
  else (.ok (), { c with stream.remaining := c.stream.remaining - n })

def willRead (n : Nat) : Session Unit := do
  enterList n
  spend n

def readByte : Session UInt8 := do
  willRead 1
  fun c =>
    match c.stream.input with
    | [] => (.error .unexpectedEOF, c)
    | b :: rest => (.ok b, { c with stream.input := rest })

/-- `readFull`: an input that ends too early is read to its end. -/
def readFull (n : Nat) : Session Bytes := do
  willRead n
  fun c =>
    if c.stream.input.length < n then (.error .unexpectedEOF, { c with stream.input := [] })
    else (.ok (c.stream.input.take n), { c with stream.input := c.stream.input.drop n })

/-- The next call of `Kind` reads a new header. -/
def rearm : Session Unit := fun c => (.ok (), { c with ahead := none })

def readUint (size : Nat) : Session Nat :=
  match size with
  | 0 => do
    rearm
    pure 0
  | 1 => do
    let b ← readByte
    pure b.toNat
  | size => do
    let buf ← readFull size
    if buf.head? = some 0 then throw .canonSize else pure (beValue buf)

/-- The first byte of a value. -/
def readTag : Session UInt8 := fun c =>
  match readByte c with
  | (.ok b, c') => (.ok b, c')
  | (.error err, c') =>
    (.error (if c.stream.stack = [] ∧ (err = .unexpectedEOF ∨ err = .valueTooLarge) then .eof
      else err), c')

def readSize (n : Nat) : Session Nat := do
  let size ← readUint n
  if size < 56 then throw .canonSize else pure size

def readKind : Session Kind := do
  let b ← readTag
  if b < 0x80 then pure (.byte b)
  else if b < 0xB8 then pure (.string (b - 0x80).toNat)
  else if b < 0xC0 then do
    let size ← readSize (b - 0xB7).toNat
    pure (.string size)
  else if b < 0xF8 then pure (.list (b - 0xC0).toNat)
  else do
    let size ← readSize (b - 0xF7).toNat
    pure (.list size)

/-- The checks of `Kind` on the size of the value ahead. -/
def checkSize (s : Stream) (k : Kind) : Except Error Kind :=
  match Rlp.checkSize k.size s with
  | .ok _ => .ok k
  | .error err => .error err

/-- `Kind`: the header is read once, and what it gave is cached. -/
def kind : Session Kind := fun c =>
  match c.ahead with
  | some result => (result, c)
  | none =>
    match checkEnd c.stream with
    | .error err => (.error err, c)
    | .ok _ =>
      let (result, c') := readKind c
      let result := result.bind (checkSize c'.stream)
      (result, { c' with ahead := some result })

/-- An error of `readUint` in an integer. -/
def adjustCanon {α : Type} (d : Session α) : Session α := fun c =>
  match d c with
  | (.ok x, c') => (.ok x, c')
  | (.error err, c') => (.error (if err = .canonSize then .canonInt else err), c')

def uint (maxbits : Nat) : Session Nat := do
  match ← kind with
  | .byte b =>
    if b = 0 then throw .canonInt
    else
      rearm
      pure b.toNat
  | .string size =>
    if maxbits / 8 < size then throw .uintOverflow
    else
      let v ← adjustCanon (readUint size)
      if 0 < size ∧ v < 128 then throw .canonSize else pure v
  | .list _ => throw .expectedString

def bool : Session Bool := do
  match ← uint 8 with
  | 0 => pure false
  | 1 => pure true
  | num => throw (.invalidBool num)

def bytes : Session Bytes := do
  match ← kind with
  | .byte b =>
    rearm
    pure [b]
  | .string size =>
    let b ← readFull size
    if size = 1 ∧ (b.headD 0) < 128 then throw .canonSize else pure b
  | .list _ => throw .expectedString

def list : Session Nat := do
  match ← kind with
  | .list size => fun c =>
    (.ok size, { stream := { c.stream with stack := (0, size) :: c.stream.stack } })
  | _ => throw .expectedList

/-! ### Where a reader succeeds -/

/-- With nothing cached, the session returns what the reader returns and leaves the same stream. -/
def Follows {α : Type} (d : Session α) (r : Reader α) : Prop :=
  ∀ s x t, r s = .ok (x, t) → d { stream := s } = (.ok x, { stream := t })

/-- The same, whatever is cached. -/
def Consumes {α : Type} (d : Session α) (r : Reader α) : Prop :=
  ∀ s ahead x t, r s = .ok (x, t) → d { stream := s, ahead } = (.ok x, { stream := t })

section Rules

variable {α β : Type} {d d' : Session α} {r r' : Reader α} {f : α → Session β} {g : α → Reader β}

theorem bind_eq {c c' : Cursor} {a : α} (h : d c = (.ok a, c')) : (d >>= f) c = f a c' := by
  show ExceptT.bindCont f (d c).1 (d c).2 = f a c'
  rw [h]
  rfl

theorem bind_error {c c' : Cursor} {err : Error} (h : d c = (.error err, c')) :
    (d >>= f) c = (.error err, c') := by
  show ExceptT.bindCont f (d c).1 (d c).2 = _
  rw [h]
  rfl

theorem Consumes.follows (h : Consumes d r) : Follows d r := fun s x t => h s none x t

theorem Consumes.bind (h : Consumes d r) (hf : ∀ a, Follows (f a) (g a)) :
    Consumes (d >>= f) (r >>= g) := by
  intro s ahead x t hx
  obtain ⟨a, u, hd, hg⟩ := bind_ok.mp hx
  rw [bind_eq (h s ahead a u hd)]
  exact hf a u x t hg

theorem Follows.pure (x : α) : Follows (Pure.pure x) (Pure.pure x) := by
  intro s y t h
  obtain ⟨rfl, rfl⟩ := pure_ok.mp h
  rfl

theorem Follows.throw (err : Error) : Follows d (throw err) :=
  fun _ _ _ h => (throw_ok.mp h).elim

theorem Follows.ite {p : Prop} [Decidable p] (h : Follows d r) (h' : Follows d' r') :
    Follows (if p then d else d') (if p then r else r') := by
  split
  · exact h
  · exact h'

end Rules

theorem enterList_consumes (n : Nat) : Consumes (enterList n) (Rlp.enterList n) := by
  rintro ⟨input, remaining, stack⟩ ahead x t h
  cases stack with
  | nil =>
    cases h
    rfl
  | cons top rest =>
    simp only [Rlp.enterList] at h
    split at h
    · cases h
    · rename_i hroom
      cases h
      simp only [enterList, if_neg hroom]

theorem willRead_consumes (n : Nat) : Consumes (willRead n) (Rlp.willRead n) := by
  refine (enterList_consumes n).bind fun _ s x t h => ?_
  split at h
  · cases h
  · rename_i hlimit
    cases h
    simp only [spend, if_neg hlimit]

theorem readByte_consumes : Consumes readByte Rlp.readByte := by
  refine (willRead_consumes 1).bind fun _ s x t h => ?_
  split at h
  · cases h
  · rename_i b rest hinput
    cases h
    simp only [hinput]

theorem readFull_consumes (n : Nat) : Consumes (readFull n) (Rlp.readFull n) := by
  refine (willRead_consumes n).bind fun _ s x t h => ?_
  split at h
  · cases h
  · rename_i hlen
    cases h
    simp only [if_neg hlen]

theorem readUint_consumes (n : Nat) : Consumes (readUint n) (Rlp.readUint n) := by
  match n with
  | 0 =>
    intro s ahead x t h
    obtain ⟨rfl, rfl⟩ := pure_ok.mp h
    rfl
  | 1 => exact readByte_consumes.bind fun b => .pure _
  | n + 2 => exact (readFull_consumes (n + 2)).bind fun buf => .ite (.throw _) (.pure _)

theorem readTag_consumes : Consumes readTag Rlp.readTag := by
  intro s ahead x t h
  have hbyte : Rlp.readByte s = .ok (x, t) := by
    unfold Rlp.readTag at h
    split at h
    · rename_i r hr
      cases h
      exact hr
    · split at h <;> cases h
  rw [readTag, readByte_consumes s ahead x t hbyte]

theorem readSize_consumes (n : Nat) : Consumes (readSize n) (Rlp.readSize n) :=
  (readUint_consumes n).bind fun _ => .ite (.throw _) (.pure _)

theorem readKind_consumes : Consumes readKind Rlp.readKind :=
  readTag_consumes.bind fun _ => .ite (.pure _) <| .ite (.pure _) <|
    .ite ((readSize_consumes _).bind fun _ => .pure _).follows <| .ite (.pure _)
      ((readSize_consumes _).bind fun _ => .pure _).follows

/-- `Kind` leaves the value ahead cached. -/
theorem kind_eq {s t : Stream} {k : Kind} (h : Rlp.kind s = .ok (k, t)) :
    kind { stream := s } = (.ok k, { stream := t, ahead := some (.ok k) }) := by
  unfold Rlp.kind at h
  simp only [bind_ok, pure_ok] at h
  obtain ⟨_, u, hend, k', u', hkind, _, u'', hsize, rfl, rfl⟩ := h
  obtain rfl := checkEnd_self hend
  obtain ⟨-, rfl⟩ := checkSize_ok.mp hsize
  simp only [kind, hend, readKind_consumes _ none _ _ hkind, Except.bind, checkSize, hsize]

theorem adjustCanon_consumes {α : Type} {d : Session α} {r : Reader α} (h : Consumes d r) :
    Consumes (adjustCanon d) r := by
  intro s ahead x t hx
  rw [adjustCanon, h s ahead x t hx]

theorem uint_follows (maxbits : Nat) : Follows (uint maxbits) (Rlp.uint maxbits) := by
  intro s x t h
  obtain ⟨k, u, hkind, h⟩ := bind_ok.mp h
  rw [uint, bind_eq (kind_eq hkind)]
  cases k with
  | byte b =>
    dsimp only at h ⊢
    split at h
    · exact (throw_ok.mp h).elim
    · rename_i hzero
      obtain ⟨rfl, rfl⟩ := pure_ok.mp h
      rw [if_neg hzero]
      rfl
  | string size =>
    dsimp only at h ⊢
    split at h
    · exact (throw_ok.mp h).elim
    · rename_i hsize
      rw [if_neg hsize]
      obtain ⟨v, u', hread, h⟩ := bind_ok.mp h
      have hread : Rlp.readUint size u = .ok (v, u') := by
        split at hread <;> cases hread
        assumption
      rw [bind_eq (adjustCanon_consumes (readUint_consumes size) u _ v u' hread)]
      split at h
      · exact (throw_ok.mp h).elim
      · rename_i hlow
        obtain ⟨rfl, rfl⟩ := pure_ok.mp h
        rw [if_neg hlow]
        rfl
  | list size => exact (throw_ok.mp h).elim

theorem bool_follows : Follows bool Rlp.bool := by
  intro s x t h
  obtain ⟨num, u, huint, h⟩ := bind_ok.mp h
  rw [bool, bind_eq (uint_follows 8 s num u huint)]
  split at h
  · obtain ⟨rfl, rfl⟩ := pure_ok.mp h
    rfl
  · obtain ⟨rfl, rfl⟩ := pure_ok.mp h
    rfl
  · exact (throw_ok.mp h).elim

theorem bytes_follows : Follows bytes Rlp.bytes := by
  intro s x t h
  obtain ⟨k, u, hkind, h⟩ := bind_ok.mp h
  rw [bytes, bind_eq (kind_eq hkind)]
  cases k with
  | byte b =>
    obtain ⟨rfl, rfl⟩ := pure_ok.mp h
    rfl
  | string size =>
    obtain ⟨b, u', hread, h⟩ := bind_ok.mp h
    dsimp only
    rw [bind_eq (readFull_consumes size u _ b u' hread)]
    split at h
    · exact (throw_ok.mp h).elim
    · rename_i hcanon
      obtain ⟨rfl, rfl⟩ := pure_ok.mp h
      rw [if_neg hcanon]
      rfl
  | list size => exact (throw_ok.mp h).elim

theorem list_follows : Follows list Rlp.list := by
  intro s x t h
  obtain ⟨k, u, hkind, h⟩ := bind_ok.mp h
  rw [list, bind_eq (kind_eq hkind)]
  cases k with
  | byte b => exact (throw_ok.mp h).elim
  | string size => exact (throw_ok.mp h).elim
  | list size =>
    cases h
    rfl

/-! ### At the end of a list -/

/-- At the end of a list every call returns the same error and leaves the stream as it is. -/
theorem kind_end {s : Stream} (h : checkEnd s = .error .endOfList) :
    kind { stream := s } = (.error .endOfList, { stream := s }) := by
  simp only [kind, h]

theorem uint_end {maxbits : Nat} {s : Stream} (h : checkEnd s = .error .endOfList) :
    uint maxbits { stream := s } = (.error .endOfList, { stream := s }) := bind_error (kind_end h)

theorem bool_end {s : Stream} (h : checkEnd s = .error .endOfList) :
    bool { stream := s } = (.error .endOfList, { stream := s }) := bind_error (uint_end h)

theorem bytes_end {s : Stream} (h : checkEnd s = .error .endOfList) :
    bytes { stream := s } = (.error .endOfList, { stream := s }) := bind_error (kind_end h)

end Session

end Whisperv6.ProofKit.Rlp
