import Whisperv6.ProofKit.Go
import Whisperv6.ProofKit.Rounding

/-! The constants of the Whisper protocol, the 256-bit hashes and node identifiers, and the
cryptographic functions that the protocol calls, with the arithmetic of its floats. -/

namespace Whisperv6

open ProofKit

/-! ### Packet codes -/

def statusCode : Nat := 0
def messagesCode : Nat := 1
def powRequirementCode : Nat := 2
def bloomFilterExCode : Nat := 3
def batchAcknowledgedCode : Nat := 11
def messageResponseCode : Nat := 12
def p2pSyncRequestCode : Nat := 123
def p2pSyncResponseCode : Nat := 124
def p2pRequestCompleteCode : Nat := 125
def p2pRequestCode : Nat := 126
def p2pMessageCode : Nat := 127

/-! ### Sizes and limits -/

/-- The mask that extracts the size of the payload size field from the flags. -/
def sizeMask : UInt8 := 3
def signatureFlag : UInt8 := 4
def topicLength : Nat := 4
def signatureLength : Nat := 65
def aesKeyLength : Nat := 32
def aesNonceLength : Nat := 12
def keyIDSize : Nat := 32
def bloomFilterSize : Nat := 64
def flagsLength : Nat := 1
def envelopeHeaderLength : Nat := 20
def maxMessageSize : UInt32 := 10 * 1024 * 1024
def defaultMaxMessageSize : UInt32 := 1024 * 1024
/-- `0.2`, the float nearest to it. -/
def defaultMinimumPoW : Float64 := 0x3FC999999999999A#64
def padSizeLimit : Nat := 256
def messageQueueLimit : Nat := 1024
def defaultTTL : UInt32 := 50
def defaultSyncAllowance : UInt32 := 10
def maxLimitInSyncMailRequest : UInt32 := 1000
def maxLimitInMessagesRequest : UInt32 := 1000
/-- `iota + 1` at the 36th constant of the block. -/
def envelopeTimeNotSynced : Nat := 36
def envelopeOtherError : Nat := 37

/-! ### Hashes and keys -/

/-- The bytes of a Go string. -/
def goString (s : String) : Bytes := s.toUTF8.data.toList

/-- `common.Hash`, 32 bytes; the zero hash stands for a hash that is not set. -/
abbrev Hash := BitVec 256

/-- `enode.ID`, 32 bytes. -/
abbrev NodeID := BitVec 256

/-- The bytes of a hash. -/
def Hash.bytes (h : Hash) : Bytes :=
  (List.range 32).reverse.map fun k => UInt8.ofNat (h.toNat / 256 ^ k)

/-- `Hash.Hex()`. -/
def Hash.hex (h : Hash) : String := "0x" ++ ProofKit.hex h.bytes

/-- `ecdsa.PublicKey`: the coordinates of a point, each a pointer that may be nil. -/
structure PublicKey where
  x : Option ℤ
  y : Option ℤ
  deriving DecidableEq

/-- `ecdsa.PrivateKey`. -/
structure PrivateKey where
  publicKey : PublicKey
  d : Option ℤ
  deriving DecidableEq

/-- `k.Sign() != 0` for a non-nil integer. -/
def nonZero : Option ℤ → Bool
  | none => false
  | some n => n != 0

/-- `ValidatePublicKey`, where `none` is the nil pointer. -/
def validatePublicKey : Option PublicKey → Bool
  | none => false
  | some k => nonZero k.x && nonZero k.y

def isPubKeyEqual (a b : Option PublicKey) : Bool :=
  validatePublicKey a && validatePublicKey b && decide (a = b)

/-- The cryptographic functions of the libraries: Keccak-256, AES-GCM, ECIES and ECDSA on
secp256k1.  `aesgcmSeal` and `aesgcmOpen` take the key, the nonce and the text; `eciesEncrypt` takes
the bytes drawn from the random source, the public key and the text; `sigToPub` gives `none` for a
signature from which no key is recovered.  `float` is the arithmetic that the proof of work is
computed with: that of the machine, unless another one is put in its place. -/
structure Crypto where
  keccak256Hash : Bytes → Hash
  aesgcmSeal : Bytes → Bytes → Bytes → Bytes
  aesgcmOpen : Bytes → Bytes → Bytes → Except GoError Bytes
  eciesEncrypt : Bytes → PublicKey → Bytes → Except GoError Bytes
  eciesDecrypt : PrivateKey → Bytes → Except GoError Bytes
  sign : Hash → PrivateKey → Except GoError Bytes
  sigToPub : Hash → Bytes → Option PublicKey
  float : Arithmetic := .float64

end Whisperv6
