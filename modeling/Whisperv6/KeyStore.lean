import Mathlib.Data.Nat.Digits.Defs
import Whisperv6.Filter
import Whisperv6.ProofKit.Runs

/-! The stores of private and symmetric keys.  Keys are stored under identifiers; the calls on
private keys, and one on symmetric keys, also take other names and derive the identifier from them.
A name is taken for an identifier when it has the length of one. -/

namespace Whisperv6

open ProofKit

/-! ### Identifiers -/

/-- `pbkdf2.Key` without salt and with SHA-256, from the password, the number of iterations and the
length of the result. -/
abbrev Pbkdf2 := Bytes → Nat → Nat → Bytes

def makeDeterministicID (kdf : Pbkdf2) (input : Bytes) (keyLen : Nat) : Except GoError Bytes :=
  let buf := kdf input 4096 keyLen
  if !validateDataIntegrity buf keyIDSize then
    .error (newError "error in GenerateDeterministicID: failed to generate key")
  else .ok (goString (hex buf))

def toDeterministicID (kdf : Pbkdf2) (id : Bytes) (expectedLen : Nat) : Except GoError Bytes :=
  if id.length ≠ expectedLen * 2 then makeDeterministicID kdf id expectedLen else .ok id

/-! ### Public keys -/

/-- `big.Int.Bytes`: the absolute value in big endian order, in the least number of bytes. -/
def bigBytes (n : ℤ) : Bytes := (Nat.digits 256 n.natAbs).reverse.map UInt8.ofNat

/-- `copy(ret[stop-len(src):], src)`; `none` is an index out of range. -/
def copyUpTo (ret : Bytes) (stop : Nat) (src : Bytes) : Option Bytes :=
  if stop < src.length then none
  else some (ret.take (stop - src.length) ++ src ++ ret.drop stop)

/-- `elliptic.Marshal` on a curve with 32-byte coordinates. -/
def marshal (x y : ℤ) : Option Bytes := do
  let ret ← copyUpTo (4 :: List.replicate 64 0) 33 (bigBytes x)
  copyUpTo ret 65 (bigBytes y)

def fromECDSAPub (pub : PublicKey) : Option Bytes :=
  match pub.x, pub.y with
  | some x, some y => marshal x y
  | _, _ => some []

def toHex (b : Bytes) : String := "0x" ++ if (hex b).length = 0 then "0" else hex b

/-- `common.ToHex(crypto.FromECDSAPub(pub))`; `none` is a panic, on coordinates of more bytes than
the curve has. -/
def hexPublicKey (pub : PublicKey) : Option Bytes :=
  (fromECDSAPub pub).map fun b => goString (toHex b)

def validatePrivateKey (k : PrivateKey) : Bool :=
  nonZero k.d && validatePublicKey (some k.publicKey)

/-! ### Private keys -/

/-- The two key stores of a node.  An entry of `symKeys` may be nil. -/
structure KeyStore where
  privateKeys : GoMap Bytes PrivateKey := ∅
  symKeys : GoMap Bytes (Option Bytes) := ∅
  deriving DecidableEq

/-- The first part of `NewKeyPair`, from the results of the two calls of `GenerateKey`. -/
def generateKeyPair (first second : Except GoError PrivateKey) : Except GoError PrivateKey :=
  let retry : Except GoError PrivateKey :=
    match second with
    | .error err => .error err
    | .ok key =>
      if !validatePrivateKey key then .error (newError "failed to generate valid key") else .ok key
  match first with
  | .error _ => retry
  | .ok key => if !validatePrivateKey key then retry else .ok key

namespace KeyStore

/-- `NewKeyPair`; `none` is a panic, as in the calls below. -/
def newKeyPair (kdf : Pbkdf2) (s : KeyStore) (first second : Except GoError PrivateKey) :
    Option (KeyStore × Except GoError Bytes) :=
  match generateKeyPair first second with
  | .error err => some (s, .error err)
  | .ok key =>
    (hexPublicKey key.publicKey).map fun name =>
      match toDeterministicID kdf name keyIDSize with
      | .error err => (s, .error err)
      | .ok id =>
        if id ∈ s.privateKeys then (s, .error (newError "failed to generate unique ID"))
        else ({ s with privateKeys := s.privateKeys.insert id key }, .ok id)

def deleteKeyPair (kdf : Pbkdf2) (s : KeyStore) (key : Bytes) : KeyStore × Bool :=
  match toDeterministicID kdf key keyIDSize with
  | .error _ => (s, false)
  | .ok deterministicID =>
    if deterministicID ∈ s.privateKeys then
      ({ s with privateKeys := s.privateKeys.erase deterministicID }, true)
    else (s, false)

def hasKeyPair (kdf : Pbkdf2) (s : KeyStore) (id : Bytes) : Bool :=
  match toDeterministicID kdf id keyIDSize with
  | .error _ => false
  | .ok deterministicID => decide (deterministicID ∈ s.privateKeys)

def getPrivateKey (kdf : Pbkdf2) (s : KeyStore) (id : Bytes) : Except GoError PrivateKey :=
  match toDeterministicID kdf id keyIDSize with
  | .error err => .error err
  | .ok deterministicID =>
    match s.privateKeys.lookup deterministicID with
    | none => .error (newError "invalid id")
    | some key => .ok key

def addKeyPair (kdf : Pbkdf2) (s : KeyStore) (key : PrivateKey) :
    Option (KeyStore × Except GoError Bytes) :=
  (hexPublicKey key.publicKey).map fun name =>
    match makeDeterministicID kdf name keyIDSize with
    | .error err => (s, .error err)
    | .ok id =>
      if s.hasKeyPair kdf id then (s, .ok id)
      else ({ s with privateKeys := s.privateKeys.insert id key }, .ok id)

def selectKeyPair (kdf : Pbkdf2) (s : KeyStore) (key : PrivateKey) :
    Option (KeyStore × Option GoError) :=
  (hexPublicKey key.publicKey).map fun name =>
    match makeDeterministicID kdf name keyIDSize with
    | .error err => (s, some err)
    | .ok id => ({ s with privateKeys := Finmap.insert id key ∅ }, none)

def deleteKeyPairs (s : KeyStore) : KeyStore := { s with privateKeys := ∅ }

end KeyStore

/-! ### Symmetric keys -/

/-- The errors of `AddSymKey`.  The text of the second one holds the name, which is any string. -/
inductive AddSymKeyError
  | failed (err : GoError)
  | alreadyExists (id : Bytes)
  deriving DecidableEq

def AddSymKeyError.text : AddSymKeyError → Bytes
  | .failed err => goString err.text
  | .alreadyExists id => goString "key already exists: " ++ id

namespace KeyStore

/-- `whisper.symKeys[id]`, where `none` is nil. -/
def symKey (s : KeyStore) (id : Bytes) : Option Bytes := (s.symKeys.lookup id).join

def hasSymKey (s : KeyStore) (id : Bytes) : Bool := (s.symKey id).isSome

def getSymKey (s : KeyStore) (id : Bytes) : Except GoError Bytes :=
  match s.symKey id with
  | some key => .ok key
  | none => .error (newError "non-existent key ID")

def deleteSymKey (s : KeyStore) (id : Bytes) : KeyStore × Bool :=
  if (s.symKey id).isSome then ({ s with symKeys := s.symKeys.erase id }, true) else (s, false)

/-- The last part of the calls that store a key: an error if the identifier is taken. -/
def putSymKey {ε : Type} (s : KeyStore) (id : Bytes) (key : Option Bytes) (taken : ε) :
    KeyStore × Except ε Bytes :=
  if (s.symKey id).isSome then (s, .error taken)
  else ({ s with symKeys := s.symKeys.insert id key }, .ok id)

/-- The identifier of a new key, with the error that the calls make of that of
`GenerateRandomID`. -/
def newSymKeyID (rnd : Entropy) : Except GoError Bytes :=
  match generateRandomID rnd with
  | .error err => .error (newError ("failed to generate ID: " ++ err.text))
  | .ok id => .ok (goString id)

/-- `GenerateSymKey`, from what is drawn for the key and for its identifier. -/
def generateSymKey (s : KeyStore) (rnd rndID : Entropy) : KeyStore × Except GoError Bytes :=
  match generateSecureRandomData rnd aesKeyLength with
  | .error err => (s, .error err)
  | .ok key =>
    if !validateDataIntegrity key aesKeyLength then
      (s, .error (newError
        "error in GenerateSymKey: crypto/rand failed to generate random data"))
    else
      match newSymKeyID rndID with
      | .error err => (s, .error err)
      | .ok id => s.putSymKey id (some key) (newError "failed to generate unique ID")

def addSymKey (kdf : Pbkdf2) (s : KeyStore) (id : Bytes) (key : Option Bytes) :
    KeyStore × Except AddSymKeyError Bytes :=
  match toDeterministicID kdf id keyIDSize with
  | .error err => (s, .error (.failed err))
  | .ok deterministicID => s.putSymKey deterministicID key (.alreadyExists id)

def addSymKeyDirect (s : KeyStore) (key : Option Bytes) (rnd : Entropy) :
    KeyStore × Except GoError Bytes :=
  if (key.getD []).length ≠ aesKeyLength then
    (s, .error (newError ("wrong key size: " ++ toString (key.getD []).length)))
  else
    match newSymKeyID rnd with
    | .error err => (s, .error err)
    | .ok id => s.putSymKey id key (newError "failed to generate unique ID")

def addSymKeyFromPassword (kdf : Pbkdf2) (s : KeyStore) (password : Bytes) (rnd : Entropy) :
    KeyStore × Except GoError Bytes :=
  match newSymKeyID rnd with
  | .error err => (s, .error err)
  | .ok id =>
    if s.hasSymKey id then (s, .error (newError "failed to generate unique ID"))
    else s.putSymKey id (some (kdf password 65356 aesKeyLength))
      (newError "critical error: failed to generate unique ID")

end KeyStore

/-! ### The forms of a name -/

theorem goString_ofList (l : List Char) :
    goString (String.ofList l) = l.flatMap String.utf8EncodeChar := by
  unfold goString
  simp [String.toUTF8, String.ofList, List.utf8Encode]

theorem goString_append (s t : String) : goString (s ++ t) = goString s ++ goString t := by
  unfold goString
  simp

/-- The byte of a hexadecimal digit. -/
def hexByte (n : Nat) : UInt8 :=
  if n % 16 < 10 then UInt8.ofNat (48 + n % 16) else UInt8.ofNat (87 + n % 16)

theorem hexByte_inj {m n : Nat} (h : hexByte m = hexByte n) : m % 16 = n % 16 := by
  have hdigit : ∀ m < 16, ∀ n < 16, hexByte m = hexByte n → m = n := by decide
  refine hdigit _ (Nat.mod_lt m (by decide)) _ (Nat.mod_lt n (by decide)) ?_
  simpa [hexByte] using h

theorem utf8_hexDigit (n : Nat) : String.utf8EncodeChar (hexDigit n) = [hexByte n] := by
  have h : ∀ d < 16, String.utf8EncodeChar (Nat.digitChar d) =
      [if d < 10 then UInt8.ofNat (48 + d) else UInt8.ofNat (87 + d)] := by decide
  exact h (n % 16) (Nat.mod_lt n (by decide))

theorem goString_hex (b : Bytes) :
    goString (hex b) = b.flatMap fun x => [hexByte (x.toNat / 16), hexByte x.toNat] := by
  rw [hex, goString_ofList, List.flatMap_assoc]
  simp [utf8_hexDigit]

theorem length_goString_hex (b : Bytes) : (goString (hex b)).length = b.length * 2 := by
  rw [goString_hex]
  induction b with
  | nil => rfl
  | cons x b ih =>
    rw [List.flatMap_cons, List.length_append, ih, List.length_cons]
    simp
    omega

theorem goString_hex_injective : Function.Injective fun b => goString (hex b) := by
  have hbyte : ∀ x y : UInt8, hexByte (x.toNat / 16) = hexByte (y.toNat / 16) →
      hexByte x.toNat = hexByte y.toNat → x = y := by
    intro x y hhigh hlow
    have hhigh := hexByte_inj hhigh
    have hlow := hexByte_inj hlow
    have hx := x.toNat_lt
    have hy := y.toNat_lt
    exact UInt8.toNat_inj.mp (by omega)
  intro b c h
  dsimp only at h
  rw [goString_hex, goString_hex] at h
  induction b generalizing c with
  | nil =>
    cases c with
    | nil => rfl
    | cons y c => simp at h
  | cons x b ih =>
    cases c with
    | nil => simp at h
    | cons y c =>
      simp only [List.flatMap_cons, List.cons_append, List.nil_append, List.cons.injEq] at h
      rw [hbyte x y h.1 h.2.1, ih h.2.2]

theorem length_copyUpTo {ret ret' src : Bytes} {stop : Nat} (hstop : stop ≤ ret.length)
    (h : copyUpTo ret stop src = some ret') : ret'.length = ret.length := by
  unfold copyUpTo at h
  split at h
  · cases h
  · cases h
    simp only [List.length_append, List.length_take, List.length_drop]
    omega

theorem length_marshal {x y : ℤ} {b : Bytes} (h : marshal x y = some b) : b.length = 65 := by
  obtain ⟨ret, hx, hy⟩ := Option.bind_eq_some_iff.mp h
  have hret : ret.length = 65 := length_copyUpTo (by simp) hx
  rw [length_copyUpTo (by omega) hy, hret]

theorem goString_toHex {b : Bytes} (h : b ≠ []) :
    goString (toHex b) = goString "0x" ++ goString (hex b) := by
  have hlong : ¬ (hex b).length = 0 := by
    intro hzero
    have hlen := length_goString_hex b
    rw [String.length_eq_zero_iff.mp hzero, show (goString "").length = 0 by decide] at hlen
    exact h (List.length_eq_zero_iff.mp (by omega))
  rw [toHex, goString_append, if_neg hlong]

/-- The hexadecimal form of a public key does not have the length of an identifier. -/
theorem length_hexPublicKey {pub : PublicKey} {name : Bytes} (h : hexPublicKey pub = some name) :
    name.length ≠ keyIDSize * 2 := by
  obtain ⟨b, hb, rfl⟩ := Option.map_eq_some_iff.mp h
  have hlen : b = [] ∨ b.length = 65 := by
    unfold fromECDSAPub at hb
    split at hb
    · exact .inr (length_marshal hb)
    · cases hb
      exact .inl rfl
  rcases hlen with rfl | hlen
  · decide
  · have hne : b ≠ [] := List.ne_nil_of_length_pos (by omega)
    have hstart : (goString "0x").length = 2 := by decide
    have hid : keyIDSize * 2 = 64 := rfl
    rw [goString_toHex hne, List.length_append, length_goString_hex, hlen, hstart]
    omega

/-! ### Deriving identifiers -/

/-- The identifier that is derived from a name. -/
def idOf (kdf : Pbkdf2) (name : Bytes) : Bytes := goString (hex (kdf name 4096 keyIDSize))

/-- The identifier that the calls use for a name: names of its length are taken for identifiers. -/
def canonical (kdf : Pbkdf2) (name : Bytes) : Bytes :=
  if name.length ≠ keyIDSize * 2 then idOf kdf name else name

/-- What is assumed of the derivation: 32 bytes that are not all zero, and different ones for the
different inputs that are used. -/
structure Derives (kdf : Pbkdf2) (inputs : Set Bytes) : Prop where
  length : ∀ b, (kdf b 4096 keyIDSize).length = keyIDSize
  nonzero : ∀ b, ∃ x ∈ kdf b 4096 keyIDSize, x ≠ 0
  injective : Set.InjOn (fun b => kdf b 4096 keyIDSize) inputs

section Derivation

variable {kdf : Pbkdf2} {inputs : Set Bytes} {name n : Bytes}

theorem makeDeterministicID_ok (h : Derives kdf inputs) (name : Bytes) :
    makeDeterministicID kdf name keyIDSize = .ok (idOf kdf name) := by
  obtain ⟨x, hx, hne⟩ := h.nonzero name
  have hsome : containsOnlyZeros (kdf name 4096 keyIDSize) = false := by
    rw [containsOnlyZeros, List.all_eq_false]
    exact ⟨x, hx, by simpa using hne⟩
  have hvalid : validateDataIntegrity (kdf name 4096 keyIDSize) keyIDSize = true := by
    simp [validateDataIntegrity, h.length, hsome]
  simp [makeDeterministicID, hvalid, idOf]

theorem toDeterministicID_ok (h : Derives kdf inputs) (name : Bytes) :
    toDeterministicID kdf name keyIDSize = .ok (canonical kdf name) := by
  unfold toDeterministicID canonical
  split
  · exact makeDeterministicID_ok h name
  · rfl

theorem length_idOf (h : Derives kdf inputs) (name : Bytes) :
    (idOf kdf name).length = keyIDSize * 2 := by
  rw [idOf, length_goString_hex, h.length]

theorem canonical_idOf (h : Derives kdf inputs) (name : Bytes) :
    canonical kdf (idOf kdf name) = idOf kdf name :=
  if_neg (not_not.mpr (length_idOf h name))

theorem idOf_inj (h : Derives kdf inputs) (hname : name ∈ inputs) (hn : n ∈ inputs)
    (heq : idOf kdf n = idOf kdf name) : n = name :=
  h.injective hn hname (goString_hex_injective heq)

/-- A name stands for the key with the public key `name` when it is that public key or the
identifier of it. -/
theorem canonical_eq_iff (h : Derives kdf inputs) (hname : name ∈ inputs)
    (hlen : name.length ≠ keyIDSize * 2) (hn : n.length ≠ keyIDSize * 2 → n ∈ inputs) :
    canonical kdf n = idOf kdf name ↔ n = name ∨ n = idOf kdf name := by
  unfold canonical
  split
  · rename_i hlong
    constructor
    · exact fun heq => .inl (idOf_inj h hname (hn hlong) heq)
    · rintro (rfl | rfl)
      · rfl
      · exact absurd (length_idOf h name) hlong
  · rename_i hid
    constructor
    · exact .inr
    · rintro (rfl | heq)
      · exact absurd hlen hid
      · exact heq

end Derivation

end Whisperv6
