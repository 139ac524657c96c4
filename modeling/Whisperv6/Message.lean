import Whisperv6.Envelope
import Whisperv6.ProofKit.ByteString

/-! Messages: the plaintext that a sender builds, signs, encrypts and wraps into an envelope, and
the plaintext that a receiver decrypts and parses. -/

namespace Whisperv6

open ProofKit

/-- What the random sources give to one call: `crypto/rand` and `math/rand` for a buffer of each
length, and the bytes that ECIES draws. -/
structure Entropy where
  crand : (n : Nat) → Except GoError (Vector UInt8 n)
  mrand : (n : Nat) → Except GoError (Vector UInt8 n)
  ecies : Bytes

/-! ### Helpers -/

def containsOnlyZeros (data : Bytes) : Bool := data.all (· == 0)

def validateDataIntegrity (k : Bytes) (expectedSize : Nat) : Bool :=
  k.length == expectedSize && !(decide (3 < expectedSize) && containsOnlyZeros k)

def bytesToUintLittleEndian (b : Bytes) : UInt64 :=
  (b.foldl (fun (acc : UInt64 × UInt64) x => (acc.1 + x.toUInt64 * acc.2, acc.2 * 256)) (0, 1)).1

/-- `generateSecureRandomData`: the two random sources, joined by exclusive or. -/
def generateSecureRandomData (rnd : Entropy) (length : Nat) : Except GoError Bytes :=
  match rnd.crand length with
  | .error err => .error err
  | .ok x =>
    if !validateDataIntegrity x.toList length then
      .error (newError "crypto/rand failed to generate secure random data")
    else
      match rnd.mrand length with
      | .error err => .error err
      | .ok y =>
        if !validateDataIntegrity y.toList length then
          .error (newError "math/rand failed to generate secure random data")
        else
          let res := List.zipWith (· ^^^ ·) x.toList y.toList
          if !validateDataIntegrity res length then
            .error (newError "failed to generate secure random data")
          else .ok res

/-- `aes.NewCipher`, which accepts three lengths of keys. -/
def aesNewCipher (key : Bytes) : Except GoError Unit :=
  if key.length = 16 ∨ key.length = 24 ∨ key.length = 32 then .ok ()
  else .error (newError ("crypto/aes: invalid key size " ++ toString key.length))

def isMessageSigned (flags : UInt8) : Bool := (flags &&& signatureFlag) != 0

/-- The loop of `getSizeOfPayloadSizeField`. -/
def sizeLoop (i s : Nat) : Nat :=
  if 256 ≤ i then sizeLoop (i / 256) (s + 1) else s

def getSizeOfPayloadSizeField (payload : Bytes) : Nat := sizeLoop payload.length 1

/-- `binary.LittleEndian.PutUint32`. -/
def putUint32 (n : UInt32) : Bytes := leBytes 4 n.toNat

/-! ### Sending -/

structure SentMessage where
  raw : Bytes
  deriving DecidableEq

namespace SentMessage

def addPayloadSizeField (msg : SentMessage) (payload : Bytes) : Except Fault SentMessage :=
  let fieldSize := getSizeOfPayloadSizeField payload
  match slice (putUint32 (UInt32.ofNat payload.length)) 0 fieldSize with
  | .error fault => .error fault
  | .ok field => .ok { raw := (msg.raw ++ field).modifyHead (· ||| UInt8.ofNat fieldSize) }

/-- The size of the random padding, which fills the plaintext up to a multiple of 256. -/
def paddingSize (params : MessageParams) : Nat :=
  let rawSize := flagsLength + getSizeOfPayloadSizeField params.payload + params.payload.length +
    if params.src.isSome then signatureLength else 0
  padSizeLimit - rawSize % padSizeLimit

def appendPadding (rnd : Entropy) (msg : SentMessage) (params : MessageParams) :
    Except Fault SentMessage :=
  if params.padding.length ≠ 0 then .ok { raw := msg.raw ++ params.padding }
  else
    match rnd.crand (paddingSize params) with
    | .error err => .error (.error err)
    | .ok pad =>
      if !validateDataIntegrity pad.toList (paddingSize params) then
        .error (.error (newError
          ("failed to generate random padding of size " ++ toString (paddingSize params))))
      else .ok { raw := msg.raw ++ pad.toList }

def newSentMessage (rnd : Entropy) (params : MessageParams) : Except Fault SentMessage :=
  match addPayloadSizeField { raw := [0] } params.payload with
  | .error fault => .error fault
  | .ok msg => appendPadding rnd { raw := msg.raw ++ params.payload } params

/-- `sign`.  A message whose flags already have the signature bit is left as it is. -/
def sign (C : Crypto) (msg : SentMessage) (key : PrivateKey) : Except Fault SentMessage :=
  match msg.raw with
  | [] => .error .panic
  | flags :: rest =>
    if isMessageSigned flags then .ok msg
    else
      let raw := (flags ||| signatureFlag) :: rest
      match C.sign (C.keccak256Hash raw) key with
      | .error err => .error (.error err)
      | .ok signature => .ok { raw := raw ++ signature }

def encryptAsymmetric (C : Crypto) (rnd : Entropy) (msg : SentMessage) (key : PublicKey) :
    Except Fault SentMessage :=
  if !validatePublicKey (some key) then
    .error (.error (newError "invalid public key provided for asymmetric encryption"))
  else
    match C.eciesEncrypt rnd.ecies key msg.raw with
    | .error err => .error (.error err)
    | .ok encrypted => .ok { raw := encrypted }

/-- `encryptSymmetric`: the salt follows the encrypted text. -/
def encryptSymmetric (C : Crypto) (rnd : Entropy) (msg : SentMessage) (key : Bytes) :
    Except Fault SentMessage :=
  if !validateDataIntegrity key aesKeyLength then
    .error (.error (newError
      ("invalid key provided for symmetric encryption, size: " ++ toString key.length)))
  else
    match aesNewCipher key with
    | .error err => .error (.error err)
    | .ok _ =>
      match generateSecureRandomData rnd aesNonceLength with
      | .error err => .error (.error err)
      | .ok salt => .ok { raw := C.aesgcmSeal key salt msg.raw ++ salt }

/-- The signature in `Wrap`, if the options name a signer. -/
def signFor (C : Crypto) (msg : SentMessage) (options : MessageParams) :
    Except Fault SentMessage :=
  match options.src with
  | some key => msg.sign C key
  | none => .ok msg

/-- The encryption in `Wrap`, by the key that the options name. -/
def encrypt (C : Crypto) (rnd : Entropy) (msg : SentMessage) (options : MessageParams) :
    Except Fault SentMessage :=
  match options.dst, options.keySym with
  | some key, _ => msg.encryptAsymmetric C rnd key
  | none, some key => msg.encryptSymmetric C rnd key
  | none, none => .error (.error (newError
      "unable to encrypt the message: neither symmetric nor assymmetric key provided"))

/-- `Wrap`, with the clock `now` in seconds and the number of rounds that `Seal` has time for. -/
def wrap (C : Crypto) (rnd : Entropy) (msg : SentMessage) (options : MessageParams) (now : Int)
    (rounds : Nat) : Except Fault Envelope :=
  let options := { options with ttl := if options.ttl = 0 then defaultTTL else options.ttl }
  match msg.signFor C options with
  | .error fault => .error fault
  | .ok msg =>
    match msg.encrypt C rnd options with
    | .error fault => .error fault
    | .ok msg =>
      (Envelope.newEnvelope options.ttl options.topic msg.raw now).sealEnvelope C options rounds

end SentMessage

/-! ### Receiving -/

structure ReceivedMessage where
  raw : Bytes
  payload : Bytes := []
  padding : Bytes := []
  signature : Bytes := []
  salt : Bytes := []
  pow : FloatVal := .zero
  sent : UInt32 := 0
  ttl : UInt32 := 0
  src : Option PublicKey := none
  dst : Option PublicKey := none
  topic : TopicType := Vector.replicate 4 0
  symKeyHash : Hash := 0
  envelopeHash : Hash := 0
  p2p : Bool := false
  deriving DecidableEq

namespace ReceivedMessage

def isSymmetricEncryption (msg : ReceivedMessage) : Bool := msg.symKeyHash != 0

def isAsymmetricEncryption (msg : ReceivedMessage) : Bool := msg.dst.isSome

def decryptSymmetric (C : Crypto) (msg : ReceivedMessage) (key : Bytes) :
    Except Fault ReceivedMessage :=
  if msg.raw.length < aesNonceLength then
    .error (.error (newError "missing salt or invalid payload in symmetric message"))
  else do
    let salt ← slice msg.raw (msg.raw.length - aesNonceLength) msg.raw.length
    match aesNewCipher key with
    | .error err => .error (.error err)
    | .ok _ =>
      let text ← slice msg.raw 0 (msg.raw.length - aesNonceLength)
      match C.aesgcmOpen key salt text with
      | .error err => .error (.error err)
      | .ok decrypted => .ok { msg with raw := decrypted, salt := salt }

def decryptAsymmetric (C : Crypto) (msg : ReceivedMessage) (key : PrivateKey) :
    Except Fault ReceivedMessage :=
  match C.eciesDecrypt key msg.raw with
  | .error err => .error (.error err)
  | .ok decrypted => .ok { msg with raw := decrypted }

/-- `hash`: what the signature covers. -/
def hash (C : Crypto) (msg : ReceivedMessage) : Except Fault Hash := do
  let flags ← index msg.raw 0
  if isMessageSigned flags then
    let covered ← slice msg.raw 0 (msg.raw.length - signatureLength)
    .ok (C.keccak256Hash covered)
  else .ok (C.keccak256Hash msg.raw)

/-- `SigToPubKey`, which recovers from a panic and then returns nil. -/
def sigToPubKey (C : Crypto) (msg : ReceivedMessage) : Option PublicKey :=
  match msg.hash C with
  | .error _ => none
  | .ok h => C.sigToPub h msg.signature

/-- The first part of `ValidateAndParse`: the signature of a signed message, with the end of what
is before it. -/
def parseSignature (C : Crypto) (msg : ReceivedMessage) (flags : UInt8) :
    Except Fault (Option (ReceivedMessage × Int)) :=
  if isMessageSigned flags then
    let stop : Int := msg.raw.length - signatureLength
    if stop ≤ 1 then .ok none
    else do
      let signature ← slice msg.raw stop (stop + signatureLength)
      let msg := { msg with signature := signature }
      match msg.sigToPubKey C with
      | none => .ok none
      | some src => .ok (some ({ msg with src := some src }, stop))
  else .ok (some (msg, msg.raw.length))

/-- The second part of `ValidateAndParse`: the payload and the padding before `stop`. -/
def parsePayload (msg : ReceivedMessage) (flags : UInt8) (stop : Int) :
    Except Fault (Option ReceivedMessage) :=
  let sizeOfPayloadSizeField : Int := (flags &&& sizeMask).toNat
  if sizeOfPayloadSizeField ≠ 0 then
    let beg := 1 + sizeOfPayloadSizeField
    if stop < beg then .ok none
    else do
      let field ← slice msg.raw 1 beg
      let payloadSize : Int := (bytesToUintLittleEndian field).toNat
      if stop < beg + payloadSize then .ok none
      else
        let payload ← slice msg.raw beg (beg + payloadSize)
        let padding ← slice msg.raw (beg + payloadSize) stop
        .ok (some { msg with payload := payload, padding := padding })
  else do
    let padding ← slice msg.raw 1 stop
    .ok (some { msg with padding := padding })

/-- `ValidateAndParse`, where `none` is the result `false`. -/
def validateAndParse (C : Crypto) (msg : ReceivedMessage) :
    Except Fault (Option ReceivedMessage) :=
  if msg.raw.length < 1 then .ok none
  else do
    let flags ← index msg.raw 0
    match ← msg.parseSignature C flags with
    | none => .ok none
    | some (msg, stop) => msg.parsePayload flags stop

theorem decryptSymmetric_frame {C : Crypto} {msg m : ReceivedMessage} {key : Bytes}
    (h : msg.decryptSymmetric C key = .ok m) :
    ∃ raw salt, m = { msg with raw := raw, salt := salt } := by
  unfold decryptSymmetric at h
  split at h
  · cases h
  · obtain ⟨salt, -, h⟩ := bind_eq_ok.mp h
    split at h
    · cases h
    · obtain ⟨text, -, h⟩ := bind_eq_ok.mp h
      split at h
      · cases h
      · cases h
        exact ⟨_, salt, rfl⟩

theorem decryptAsymmetric_frame {C : Crypto} {msg m : ReceivedMessage} {key : PrivateKey}
    (h : msg.decryptAsymmetric C key = .ok m) : ∃ raw, m = { msg with raw := raw } := by
  unfold decryptAsymmetric at h
  split at h
  · cases h
  · cases h
    exact ⟨_, rfl⟩

theorem parseSignature_frame {C : Crypto} {msg m : ReceivedMessage} {flags : UInt8} {stop : Int}
    (h : msg.parseSignature C flags = .ok (some (m, stop))) :
    ∃ signature src, m = { msg with signature := signature, src := src } := by
  unfold parseSignature at h
  split at h
  · dsimp only at h
    split at h
    · cases h
    · obtain ⟨signature, -, h⟩ := bind_eq_ok.mp h
      split at h
      · cases h
      · cases h
        exact ⟨signature, _, rfl⟩
  · cases h
    exact ⟨msg.signature, msg.src, rfl⟩

theorem parsePayload_frame {msg m : ReceivedMessage} {flags : UInt8} {stop : Int}
    (h : msg.parsePayload flags stop = .ok (some m)) :
    ∃ payload padding, m = { msg with payload := payload, padding := padding } := by
  unfold parsePayload at h
  dsimp only at h
  split at h
  · split at h
    · cases h
    · obtain ⟨field, -, h⟩ := bind_eq_ok.mp h
      split at h
      · cases h
      · obtain ⟨payload, -, h⟩ := bind_eq_ok.mp h
        obtain ⟨padding, -, h⟩ := bind_eq_ok.mp h
        cases h
        exact ⟨payload, padding, rfl⟩
  · obtain ⟨padding, -, h⟩ := bind_eq_ok.mp h
    cases h
    exact ⟨msg.payload, padding, rfl⟩

theorem validateAndParse_cons {C : Crypto} {msg : ReceivedMessage} {flags : UInt8} {rest : Bytes}
    (hraw : msg.raw = flags :: rest) :
    msg.validateAndParse C = msg.parseSignature C flags >>= fun
      | none => .ok none
      | some (msg, stop) => msg.parsePayload flags stop := by
  have hindex : index msg.raw 0 = .ok flags := by rw [hraw]; rfl
  have hpos : ¬ msg.raw.length < 1 := by rw [hraw, List.length_cons]; omega
  unfold validateAndParse
  rw [if_neg hpos, hindex]
  rfl

theorem validateAndParse_some {C : Crypto} {msg m : ReceivedMessage}
    (h : msg.validateAndParse C = .ok (some m)) :
    ∃ flags rest signed stop, msg.raw = flags :: rest ∧
      msg.parseSignature C flags = .ok (some (signed, stop)) ∧
      signed.parsePayload flags stop = .ok (some m) := by
  cases hraw : msg.raw with
  | nil =>
    unfold validateAndParse at h
    rw [hraw] at h
    cases h
  | cons flags rest =>
    rw [validateAndParse_cons hraw] at h
    obtain ⟨parsed, hsig, h⟩ := bind_eq_ok.mp h
    cases parsed with
    | none => cases h
    | some x => exact ⟨flags, rest, x.1, x.2, rfl, hsig, h⟩

theorem validateAndParse_frame {C : Crypto} {msg m : ReceivedMessage}
    (h : msg.validateAndParse C = .ok (some m)) :
    ∃ signature src payload padding, m =
      { msg with signature := signature, src := src, payload := payload, padding := padding } := by
  obtain ⟨flags, rest, signed, stop, -, hsig, hpay⟩ := validateAndParse_some h
  obtain ⟨signature, src, rfl⟩ := parseSignature_frame hsig
  obtain ⟨payload, padding, rfl⟩ := parsePayload_frame hpay
  exact ⟨signature, src, payload, padding, rfl⟩

end ReceivedMessage

end Whisperv6
