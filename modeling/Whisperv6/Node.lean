import Mathlib.Data.Finset.Card
import Whisperv6.Envelope

/-! The state of a Whisper node, with the operations that admit an envelope to the pool and that
expire the envelopes in it.  Metrics and log lines are left out.  A clock reading is the 32-bit
number of seconds that the node computes from its time source. -/

namespace Whisperv6

open ProofKit

structure Config where
  maxMessageSize : UInt32 := defaultMaxMessageSize
  minimumAcceptedPOW : Float64 := defaultMinimumPoW
  restrictConnectionBetweenLightClients : Bool := true
  disableConfirmations : Bool := false

/-- The settings that may change at run time; `none` is a key that was never stored or holds
nil. -/
structure Settings where
  maxMsgSize : UInt32
  overflow : Bool
  minPow : Option Float64
  minPowTolerance : Option Float64
  bloomFilter : Option Bytes
  bloomFilterTolerance : Option Bytes
  lightClientMode : Bool
  restrictConnectionBetweenLightClients : Bool
  deriving DecidableEq

structure Statistics where
  messagesCleared : Int := 0
  memoryCleared : Int := 0
  memoryUsed : Int := 0
  cycles : Int := 0
  totalMessagesCleared : Int := 0
  deriving DecidableEq

def Statistics.reset (s : Statistics) : Statistics :=
  { s with
    cycles := s.cycles + 1
    totalMessagesCleared := s.totalMessagesCleared + s.messagesCleared
    memoryCleared := 0
    messagesCleared := 0 }

inductive EventType
  | envelopeSent
  | envelopeExpired
  | envelopeReceived
  | envelopeAvailable
  | mailServerEnvelopeArchived
  | batchAcknowledged
  | mailServerRequestSent
  | mailServerRequestCompleted
  | mailServerSyncFinished
  deriving DecidableEq

/-- `EnvelopeError` as a node decodes it.  A Go string holds any bytes. -/
structure ReportedError where
  hash : Hash
  code : UInt64
  description : Bytes
  deriving DecidableEq

/-- `MailServerResponse`, with the text of its error. -/
structure MailServerResponse where
  lastEnvelopeHash : Hash := 0
  cursor : Bytes := []
  error : Option Bytes := none
  deriving DecidableEq

/-- The field `Data` of an event. -/
inductive EventData
  | nil
  | errors (errors : List ReportedError)
  | sync (cursor error : Bytes)
  | mailServer (response : MailServerResponse)
  deriving DecidableEq

structure EnvelopeEvent where
  event : EventType
  topic : TopicType := Vector.replicate 4 0
  hash : Hash := 0
  batch : Hash := 0
  peer : NodeID := 0
  data : EventData := .nil
  deriving DecidableEq

/-- What `p2pMsgQueue` carries: envelopes, and events about requests. -/
inductive P2PItem
  | envelope (e : Envelope)
  | event (e : EnvelopeEvent)
  deriving DecidableEq

/-- `Whisper`.  `archived` lists the envelopes given to the mail server, and `envelopeFeed` the
events sent to the feed. -/
structure Whisper where
  settings : Settings
  envelopes : GoMap Hash Envelope := ∅
  expirations : GoMap UInt32 (Finset Hash) := ∅
  messageQueue : List Envelope := []
  p2pMsgQueue : List P2PItem := []
  stats : Statistics := {}
  mailServer : Bool := false
  archived : List Envelope := []
  disableConfirmations : Bool
  envelopeFeed : List EnvelopeEvent := []
  deriving DecidableEq

def new (cfg : Config) : Whisper where
  settings :=
    { maxMsgSize := cfg.maxMessageSize
      overflow := false
      minPow := some cfg.minimumAcceptedPOW
      minPowTolerance := none
      bloomFilter := none
      bloomFilterTolerance := none
      lightClientMode := false
      restrictConnectionBetweenLightClients := cfg.restrictConnectionBetweenLightClients }
  disableConfirmations := cfg.disableConfirmations

namespace Settings

def getMinPow (s : Settings) : Float64 := s.minPow.getD defaultMinimumPoW

def getMinPowTolerance (s : Settings) : Float64 := s.minPowTolerance.getD defaultMinimumPoW

end Settings

/-- The errors of `add`, by the return statement that builds them. -/
inductive AddError
  | inFuture
  | veryOld
  | oversized
  | lowPow
  | noBloomMatch
  deriving DecidableEq

/-- The envelope after the first step of `add`: for one from the future, the proof of work is
computed for the time difference plus one second for latency. -/
def Envelope.adjust (C : Crypto) (e : Envelope) (now : UInt32) : Envelope :=
  let sent := e.expiry - e.ttl
  if now < sent then e.calculatePoW C (sent - now + 1) else e

theorem Envelope.adjust_eq (C : Crypto) (e : Envelope) (now : UInt32) :
    e.adjust C now = { e with powCache := (e.adjust C now).powCache } := by
  unfold adjust
  dsimp only
  split <;> rfl

@[simp] theorem Envelope.expiry_adjust (C : Crypto) (e : Envelope) (now : UInt32) :
    (e.adjust C now).expiry = e.expiry := by rw [adjust_eq]

@[simp] theorem Envelope.hash_adjust (C : Crypto) (e : Envelope) (now : UInt32) :
    (e.adjust C now).hash C = e.hash C := by rw [adjust_eq]; rfl

@[simp] theorem Envelope.bloom_adjust (C : Crypto) (e : Envelope) (now : UInt32) :
    (e.adjust C now).bloom = e.bloom := by rw [adjust_eq]; rfl

@[simp] theorem Envelope.size_adjust (C : Crypto) (e : Envelope) (now : UInt32) :
    (e.adjust C now).size = e.size := by rw [adjust_eq]; rfl

/-- The checks of `add` on an envelope at the clock reading `now`: an error, `none` for an expired
envelope that is dropped without one, or the envelope as the checks leave it, with its proof of
work, bloom filter and hash cached. -/
def Settings.check (C : Crypto) (s : Settings) (now : UInt32) (e : Envelope) :
    Except AddError (Option Envelope) :=
  let sent := e.expiry - e.ttl
  if now < sent ∧ now < sent - defaultSyncAllowance then .error .inFuture
  else
    let e := e.adjust C now
    if e.expiry < now then
      if e.expiry + defaultSyncAllowance * 2 < now then .error .veryOld else .ok none
    else if s.maxMsgSize < UInt32.ofNat e.size then .error .oversized
    else if (e.pow C).lt s.getMinPow.value && (e.pow C).lt s.getMinPowTolerance.value then
      .error .lowPow
    else if !bloomFilterMatch s.bloomFilter e.bloom &&
        !bloomFilterMatch s.bloomFilterTolerance e.bloom then .error .noBloomMatch
    else .ok (some (e.fill C))

/-- The conversion of an error to `TimeSyncError`, an interface type: the dynamic value stays. -/
def timeSyncError (err : GoError) : GoError := err

/-- The error value that `add` returns. -/
def AddError.value (C : Crypto) (s : Settings) (now : UInt32) (e : Envelope) : AddError → GoError
  | .inFuture => timeSyncError (newError "envelope from future")
  | .veryOld => timeSyncError (newError "very old envelope")
  | .oversized => newError ("huge messages are not allowed [" ++ hex (e.hash C).bytes ++ "]")
  | .lowPow => newError ("envelope with low PoW received: PoW=" ++
      ((e.adjust C now).pow C).format ++ ", hash=[" ++ (e.hash C).hex ++ "]")
  | .noBloomMatch => newError ("envelope does not match bloom filter, hash=[" ++
      (e.hash C).hex ++ "], bloom: \n" ++ hex (s.bloomFilter.getD []) ++ " \n" ++ hex e.bloom ++
      " \n" ++ hex e.topic.toList)

namespace Whisper

def checkOverflow (w : Whisper) : Whisper :=
  let queueSize := w.messageQueue.length
  if queueSize = messageQueueLimit then { w with settings.overflow := true }
  else if queueSize ≤ messageQueueLimit / 2 then { w with settings.overflow := false }
  else w

def postEvent (w : Whisper) (e : Envelope) (isP2P : Bool) : Whisper :=
  if isP2P then { w with p2pMsgQueue := w.p2pMsgQueue ++ [.envelope e] }
  else { w.checkOverflow with messageQueue := w.messageQueue ++ [e] }

/-- The part of `add` under the pool lock, for a hash that is not cached: the envelope joins the
pool and the set of its expiry second. -/
def insert (C : Crypto) (w : Whisper) (e : Envelope) : Whisper :=
  { w with
    envelopes := w.envelopes.insert (e.hash C) e
    expirations := w.expirations.insert e.expiry
      (Insert.insert (e.hash C) ((w.expirations.lookup e.expiry).getD ∅)) }

/-- The end of `add`: the mail server, if there is one, archives the envelope. -/
def archive (C : Crypto) (w : Whisper) (e : Envelope) : Whisper :=
  if w.mailServer then
    { w with
      archived := w.archived ++ [e]
      envelopeFeed := w.envelopeFeed ++
        [{ event := .mailServerEnvelopeArchived, topic := e.topic, hash := e.hash C }] }
  else w

/-- The part of `add` after the pool lock, for a hash that was not cached: the statistics, the
queue for the local filters, and the mail server. -/
def announce (C : Crypto) (w : Whisper) (e : Envelope) (isP2P : Bool) : Whisper :=
  let w := { w with stats.memoryUsed := w.stats.memoryUsed + e.size }
  (w.postEvent e isP2P).archive C e

/-- `add`, for an envelope that the node does not hold: the pointers that it holds are modelled
apart.  `.ok false` is an envelope dropped without an error, and `.ok true` one that the pool holds,
from now on or already. -/
def add (C : Crypto) (w : Whisper) (now : UInt32) (e : Envelope) (isP2P : Bool) :
    Whisper × Except AddError Bool :=
  match w.settings.check C now e with
  | .error err => (w, .error err)
  | .ok none => (w, .ok false)
  | .ok (some e) =>
    if e.hash C ∈ w.envelopes then (w, .ok true)
    else ((w.insert C e).announce C e isP2P, .ok true)

/-- The callback of `expire` on one hash: nil for the envelope is a panic. -/
def expireEnvelope (h : Hash) (w : Whisper) : Option (Bool × Whisper) :=
  match w.envelopes.lookup h with
  | none => none
  | some e => some (false,
      { w with
        envelopes := w.envelopes.erase h
        envelopeFeed := w.envelopeFeed ++ [{ event := .envelopeExpired, hash := h }]
        stats.messagesCleared := w.stats.messagesCleared + 1
        stats.memoryCleared := w.stats.memoryCleared + e.size
        stats.memoryUsed := w.stats.memoryUsed - e.size })

/-- The body of the loop of `expire`, for one expiry second and an order of its hashes. -/
def expireSecond (now : UInt32) (hashes : UInt32 → List Hash) (w : Whisper) (expiry : UInt32) :
    Option Whisper :=
  if expiry < now then
    (each expireEnvelope (hashes expiry) w).map fun w =>
      { w with expirations := w.expirations.erase expiry }
  else some w

/-- `expire`, where the loops visit the expiry seconds in the order `seconds` and the hashes of
each second in the order `hashes`. -/
def expire (w : Whisper) (now : UInt32) (seconds : List UInt32) (hashes : UInt32 → List Hash) :
    Option Whisper :=
  seconds.foldlM (expireSecond now hashes) { w with stats := w.stats.reset }

/-- Orders in which the loops of `expire` may visit the pool. -/
structure Orders (w : Whisper) (seconds : List UInt32) (hashes : UInt32 → List Hash) : Prop where
  seconds : IsOrder w.expirations.keys seconds
  hashes : ∀ t s, w.expirations.lookup t = some s → IsOrder s (hashes t)

def isEnvelopeCached (w : Whisper) (h : Hash) : Bool := decide (h ∈ w.envelopes)

end Whisper

end Whisperv6
