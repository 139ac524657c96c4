import Whisperv6.ProofKit.RlpStream

/-! Booleans and slices in an RLP stream, and the uniqueness of what a stream reads: no encoding is
the beginning of another one. -/

namespace Whisperv6.ProofKit.Rlp

/-! ### Decoders -/

def bool : Reader Bool := do
  match ← uint 8 with
  | 0 => pure false
  | 1 => pure true
  | num => throw (.invalidBool num)

def decodeBool (typ : String) : Reader Bool := mapError (wrapStreamError typ) bool

/-- The elements of a slice, numbered from `i` on, up to the end of the list.  Every element takes a
byte at least, so the number of bytes in the input is fuel enough. -/
def decodeSliceElems {α : Type} (d : Reader α) : (fuel i : Nat) → Reader (List α)
  | 0, _ => throw .unexpectedEOF
  | fuel + 1, i => fun s =>
    match d s with
    | .error .endOfList => .ok ([], s)
    | .error err => .error (addErrorContext ("[" ++ toString i ++ "]") err)
    | .ok (x, t) =>
      match decodeSliceElems d fuel (i + 1) t with
      | .error err => .error err
      | .ok (xs, u) => .ok (x :: xs, u)

/-- The contents of a slice whose list has `size` bytes. -/
def decodeSliceContents {α : Type} (d : Reader α) (size : Nat) : Reader (List α) :=
  if size = 0 then pure [] else fun s => decodeSliceElems d (s.input.length + 1) 0 s

/-- `decodeListSlice`, where `d` decodes an element. -/
def decodeSlice {α : Type} (typ : String) (d : Reader α) : Reader (List α) := do
  let size ← mapError (wrapStreamError typ) list
  let xs ← decodeSliceContents d size
  listEnd
  pure xs

/-! ### Booleans -/

theorem bool_ok {b : Bool} {s t : Stream} :
    bool s = .ok (b, t) ↔ s.Reads (encodeUint b.toNat) t := by
  unfold bool
  simp only [bind_ok, uint_ok (n := 1) (by omega) (by omega)]
  constructor
  · rintro ⟨num, u, ⟨-, hreads⟩, h⟩
    split at h
    · obtain ⟨rfl, rfl⟩ := pure_ok.mp h
      exact hreads
    · obtain ⟨rfl, rfl⟩ := pure_ok.mp h
      exact hreads
    · exact (throw_ok.mp h).elim
  · intro hreads
    refine ⟨b.toNat, t, ⟨?_, hreads⟩, ?_⟩
    · cases b <;> decide
    · cases b <;> rfl

/-! ### Slices -/

section Slice

variable {α : Type} {d : Reader α} {P : α → Prop} {enc : α → Bytes}

theorem decodeSliceElems_reads (hd : ∀ s x t, d s = .ok (x, t) → P x ∧ s.Reads (enc x) t)
    {fuel i : Nat} {xs : List α} {s t : Stream}
    (h : decodeSliceElems d fuel i s = .ok (xs, t)) :
    (∀ x ∈ xs, P x) ∧ s.Reads (xs.map enc).flatten t := by
  induction fuel generalizing i xs s with
  | zero => cases h
  | succ fuel ih =>
    rw [decodeSliceElems] at h
    dsimp only at h
    split at h
    · cases h
      exact ⟨by simp, Stream.reads_nil.mpr rfl⟩
    · cases h
    · rename_i x u hx
      split at h
      · cases h
      · rename_i xs u' hxs
        cases h
        obtain ⟨hP, hreads⟩ := hd s x u hx
        obtain ⟨hPs, hrest⟩ := ih hxs
        refine ⟨by simpa using ⟨hP, hPs⟩, ?_⟩
        rw [List.map_cons, List.flatten_cons]
        exact Stream.reads_append.mpr ⟨u, hreads, hrest⟩

theorem decodeSliceElems_of_reads (hd : ∀ s x t, P x → s.Reads (enc x) t → d s = .ok (x, t))
    (hend : ∀ s, checkEnd s = .error .endOfList → d s = .error .endOfList) {xs : List α}
    (hP : ∀ x ∈ xs, P x) {fuel i : Nat} (hfuel : xs.length < fuel) {s t : Stream}
    (h : s.Reads (xs.map enc).flatten t) (ht : checkEnd t = .error .endOfList) :
    decodeSliceElems d fuel i s = .ok (xs, t) := by
  induction xs generalizing fuel i s with
  | nil =>
    obtain ⟨fuel, rfl⟩ : ∃ n, fuel = n + 1 := ⟨fuel - 1, by simp at hfuel; omega⟩
    obtain rfl := Stream.reads_nil.mp h
    rw [decodeSliceElems]
    dsimp only
    rw [hend _ ht]
  | cons x rest ih =>
    obtain ⟨fuel, rfl⟩ : ∃ n, fuel = n + 1 := ⟨fuel - 1, by simp at hfuel; omega⟩
    rw [List.map_cons, List.flatten_cons] at h
    obtain ⟨u, hx, hrest⟩ := Stream.reads_append.mp h
    have hfirst := hd s x u (hP x (by simp)) hx
    have hothers : decodeSliceElems d fuel (i + 1) u = .ok (rest, t) :=
      ih (fun y hy => hP y (by simp [hy])) (by simp at hfuel; omega) hrest
    rw [decodeSliceElems]
    dsimp only
    rw [hfirst]
    dsimp only
    rw [hothers]

theorem length_le_flatten (hne : ∀ x, P x → enc x ≠ []) {xs : List α} (hP : ∀ x ∈ xs, P x) :
    xs.length ≤ (xs.map enc).flatten.length := by
  induction xs with
  | nil => simp
  | cons x rest ih =>
    have hrest := ih fun y hy => hP y (by simp [hy])
    have hx := List.length_pos_iff.mpr (hne x (hP x (by simp)))
    simp only [List.map_cons, List.flatten_cons, List.length_append, List.length_cons]
    omega

/-- The end of a list whose contents have been read. -/
theorem checkEnd_skip {u : Stream} {n : Nat} :
    checkEnd (Stream.skip { u with stack := (0, n) :: u.stack } n) = .error .endOfList := by
  simp [checkEnd, Stream.skip]

/-- A slice is read from the list of its elements only, when its elements are read from their
encodings only. -/
theorem decodeSlice_ok (hd : ∀ s x t, d s = .ok (x, t) ↔ P x ∧ s.Reads (enc x) t)
    (hend : ∀ s, checkEnd s = .error .endOfList → d s = .error .endOfList)
    (hne : ∀ x, P x → enc x ≠ []) {typ : String} {xs : List α} {s t : Stream} :
    decodeSlice typ d s = .ok (xs, t) ↔
      (∀ x ∈ xs, P x) ∧ (xs.map enc).flatten.length < 2 ^ 64 ∧
        s.Reads (encodeList (xs.map enc)) t := by
  unfold decodeSlice
  simp only [bind_ok, mapError_ok, pure_ok]
  constructor
  · rintro ⟨n, v, hlist, xs', w, hxs, _, w', hlistEnd, rfl, rfl⟩
    obtain ⟨hn, u, hhead, hroom, rfl⟩ := list_ok.mp hlist
    have helems : (∀ x ∈ xs, P x) ∧
        Stream.Reads { u with stack := (0, n) :: u.stack } (xs.map enc).flatten w := by
      unfold decodeSliceContents at hxs
      split at hxs
      · obtain ⟨rfl, rfl⟩ := pure_ok.mp hxs
        exact ⟨by simp, Stream.reads_nil.mpr rfl⟩
      · exact decodeSliceElems_reads (fun s x t => (hd s x t).mp) hxs
    obtain ⟨hlen, hcontents⟩ := (listEnd_ok hroom helems.2).mp hlistEnd
    subst hlen
    exact ⟨helems.1, hn, Stream.reads_append.mpr ⟨u, hhead, hcontents⟩⟩
  · rintro ⟨hP, hlen, hreads⟩
    obtain ⟨u, hhead, hcontents⟩ := Stream.reads_append.mp hreads
    have hinside := hcontents.inside
    refine ⟨_, _, list_ok.mpr ⟨hlen, u, hhead, hcontents.allows.room, rfl⟩, xs, _, ?_, (), t,
      (listEnd_ok hcontents.allows.room hinside).mpr ⟨rfl, hcontents⟩, rfl, rfl⟩
    have hcount := length_le_flatten hne hP
    unfold decodeSliceContents
    split
    · rename_i hempty
      obtain rfl : xs = [] := List.length_eq_zero_iff.mp (by omega)
      exact pure_ok.mpr ⟨rfl, Stream.skip_zero _⟩
    · refine decodeSliceElems_of_reads (fun s x t hx hr => (hd s x t).mpr ⟨hx, hr⟩) hend hP ?_
        hinside checkEnd_skip
      have hinput := congrArg List.length hcontents.input
      rw [List.length_append] at hinput
      show xs.length < u.input.length + 1
      omega

end Slice

theorem kind_end {s : Stream} (h : checkEnd s = .error .endOfList) :
    kind s = .error .endOfList := by
  show (checkEnd s >>= _) = _
  rw [h]
  rfl

theorem raw_end {s : Stream} (h : checkEnd s = .error .endOfList) : raw s = .error .endOfList := by
  show (kind s >>= _) = _
  rw [kind_end h]
  rfl

/-- A struct at the end of a list is no error of the struct. -/
theorem decodeStruct_end {α : Type} {typ : String} {fields : Reader α} {s : Stream}
    (h : checkEnd s = .error .endOfList) :
    decodeStruct typ fields s = .error .endOfList := by
  have hlist : list s = .error .endOfList := by
    show (kind s >>= _) = _
    rw [kind_end h]
    rfl
  show (mapError (wrapStreamError typ) list s >>= _) = _
  rw [mapError, hlist]
  rfl

/-! ### Uniqueness -/

/-- A stream reads one string only. -/
theorem Stream.Reads.string_unique {s t u : Stream} {a b : Bytes} (ha : a.length < 2 ^ 64)
    (hb : b.length < 2 ^ 64) (hs : s.Reads (encodeString a) t) (hs' : s.Reads (encodeString b) u) :
    a = b ∧ t = u := by
  have hfirst := bytes_ok.mpr ⟨ha, hs⟩
  have hsecond := bytes_ok.mpr ⟨hb, hs'⟩
  rw [hfirst] at hsecond
  cases hsecond
  exact ⟨rfl, rfl⟩

/-- A stream reads one list only. -/
theorem Stream.Reads.list_unique {s t u : Stream} {xs ys : List Bytes}
    (hx : xs.flatten.length < 2 ^ 64) (hy : ys.flatten.length < 2 ^ 64)
    (hs : s.Reads (encodeList xs) t) (hs' : s.Reads (encodeList ys) u) :
    xs.flatten = ys.flatten ∧ t = u := by
  obtain ⟨v, hhead, hcontents⟩ := reads_append.mp hs
  obtain ⟨v', hhead', hcontents'⟩ := reads_append.mp hs'
  have hfirst := list_ok.mpr ⟨hx, v, hhead, hcontents.allows.room, rfl⟩
  have hsecond := list_ok.mpr ⟨hy, v', hhead', hcontents'.allows.room, rfl⟩
  rw [hfirst, Except.ok.injEq, Prod.mk.injEq, Stream.mk.injEq] at hsecond
  obtain ⟨hlen, hinput, -⟩ := hsecond
  rw [hcontents.input, hcontents'.input] at hinput
  have hflatten := List.append_inj_left hinput hlen
  refine ⟨hflatten, ?_⟩
  have hsame : encodeList xs = encodeList ys := by rw [encodeList, encodeList, hflatten]
  rw [hs.after, hs'.after, hsame]

/-- A stream that reads a string reads no list. -/
theorem Stream.Reads.string_not_list {s t u : Stream} {a : Bytes} {xs : List Bytes}
    (ha : a.length < 2 ^ 64) (hx : xs.flatten.length < 2 ^ 64) (hs : s.Reads (encodeString a) t)
    (hs' : s.Reads (encodeList xs) u) : False := by
  obtain ⟨v, hhead, hcontents⟩ := reads_append.mp hs'
  obtain ⟨k, w, hkind, hstring⟩ := bind_ok.mp (bytes_ok.mpr ⟨ha, hs⟩)
  obtain ⟨k', w', hkind', hlist⟩ :=
    bind_ok.mp (list_ok.mpr ⟨hx, v, hhead, hcontents.allows.room, rfl⟩)
  rw [hkind] at hkind'
  cases hkind'
  cases k with
  | byte b => exact throw_ok.mp hlist
  | string size => exact throw_ok.mp hlist
  | list size => exact throw_ok.mp hstring

/-- A sequence of strings is determined by its encodings in a row. -/
theorem encodeStrings_inj {xs ys : List Bytes} (hx : ∀ x ∈ xs, x.length < 2 ^ 64)
    (hy : ∀ y ∈ ys, y.length < 2 ^ 64)
    (h : (xs.map encodeString).flatten = (ys.map encodeString).flatten) : xs = ys := by
  have hne : ∀ x : Bytes, encodeString x ≠ [] := by
    intro x hnil
    have hlen := length_encodeString x
    rw [hnil] at hlen
    unfold stringSize at hlen
    split at hlen
    · split at hlen <;> cases hlen
    · have := headsize_pos x.length
      simp at hlen
      omega
  induction xs generalizing ys with
  | nil =>
    cases ys with
    | nil => rfl
    | cons y rest => exact absurd (List.append_eq_nil_iff.mp h.symm).1 (hne y)
  | cons x rest ih =>
    cases ys with
    | nil => exact absurd (List.append_eq_nil_iff.mp h).1 (hne x)
    | cons y rest' =>
      simp only [List.map_cons, List.flatten_cons] at h
      obtain ⟨s, t, hreads⟩ : ∃ s t : Stream,
          s.Reads (encodeString x ++ (rest.map encodeString).flatten) t := by
        obtain ⟨t, -, hreads⟩ := reads_all.mpr
          (rfl : encodeString x ++ (rest.map encodeString).flatten = _)
        exact ⟨_, t, hreads⟩
      have hreads' := hreads
      rw [h] at hreads'
      obtain ⟨u, hxs, -⟩ := Stream.reads_append.mp hreads
      obtain ⟨u', hys, -⟩ := Stream.reads_append.mp hreads'
      obtain ⟨rfl, -⟩ := hxs.string_unique (hx x (by simp)) (hy y (by simp)) hys
      have hrest := List.append_cancel_left h
      rw [ih (fun z hz => hx z (by simp [hz])) (fun z hz => hy z (by simp [hz])) hrest]

/-- The bytes of an unsigned integer, without leading zeros. -/
def uintBytes (i : Nat) : Bytes := if i = 0 then [] else putint i

theorem encodeUint_eq {i : Nat} (h : i < 2 ^ 64) : encodeUint i = encodeString (uintBytes i) := by
  unfold uintBytes
  by_cases hzero : i = 0
  · subst hzero
    rfl
  rw [if_neg hzero]
  by_cases hsmall : i < 128
  · have hput : putint i = [UInt8.ofNat i] := by
      have hsize : intsize i = 1 := by
        rw [intsize, if_pos (by omega)]
      simp [putint, hsize]
    have hle : UInt8.ofNat i ≤ 0x7F := by
      rw [UInt8.le_iff_toNat_le, UInt8.toNat_ofNat_of_lt' (by show i < 256; omega)]
      show i ≤ 127
      omega
    rw [hput, encodeUint, if_neg hzero, if_pos hsmall, encodeString, if_pos hle]
  · have hlen := length_putint i
    have hint := intsize_le (by omega) h
    rw [encodeUint_large (by omega) h, encodeString_eq, hlen]
    rintro ⟨hone, hhead⟩
    -- One byte that is its own encoding would be a number below 128.
    obtain ⟨x, hx⟩ := List.length_eq_one_iff.mp hone
    have hval := beValue_putint (by omega) h
    rw [hx] at hval hhead
    have hlt := UInt8.lt_iff_toNat_lt.mp hhead
    simp [beValue, leValue] at hval
    simp at hlt
    omega

theorem length_uintBytes_le {i : Nat} (h : i < 2 ^ 64) : (uintBytes i).length ≤ 8 := by
  unfold uintBytes
  split
  · simp
  · rw [length_putint]
    exact (intsize_le (by omega) h).2

end Whisperv6.ProofKit.Rlp
