import Whisperv6.Peer
import Whisperv6.RateLimiter
import Whisperv6.ProofKit.Relay

/-! The decorator of the rate limiter, which stands between a connection and the run loop of a peer.
A reader takes packets from the connection, counts them and hands them to the run loop through a
pipe; a writer takes the packets of the run loop from the pipe and writes them to the connection.
The first error that one of the goroutines reports ends the call and closes the pipe, while the
goroutines go on until they see it. -/

namespace Whisperv6

open ProofKit

/-! ### The goroutines -/

/-- The address and the identifier of the peer; both are empty for a nil peer. -/
structure PeerNames where
  ip : String := ""
  peerID : Bytes := []

inductive HandlerCall
  | incProcessed
  | incExceedIPLimit
  | incExceedPeerLimit
  deriving DecidableEq

/-- Where the reader is: at `rw.ReadMsg`; with a packet before `IncProcessed`, before `throttleIP`,
after it, before `throttlePeer` and after it; at `in.WriteMsg`, in its `select` and waiting for the
payload to be read; with an error to report, and at its end, when `lost` was in its hand. -/
inductive Reader
  | reading
  | read (packet : Packet)
  | counted (packet : Packet)
  | ipHalted (packet : Packet)
  | ipChecked (packet : Packet)
  | peerHalted (packet : Packet)
  | checked (packet : Packet)
  | sending (packet : Packet)
  | waiting
  | failed (lost : Option Packet) (err : GoError)
  | done (lost : Option Packet)

/-- Where the writer is: at `in.ReadMsg` and in its `select`; with a packet of a goroutine of the
run loop before `rw.WriteMsg` and in it; with an error to report, and at its end. -/
inductive Writer
  | reading
  | receiving
  | took (sender : Nat) (packet : Packet)
  | writing (sender : Nat) (packet : Packet)
  | failed (lost : Option Packet) (err : GoError)
  | done (lost : Option Packet)
  deriving DecidableEq

/-- What a goroutine of the run loop does with the pipe. -/
inductive PipeCall
  | idle
  | receiving
  | sending (packet : Packet)
  | waiting (packet : Packet)

/-- The function of the run loop: it runs, has a result to report, or has reported it. -/
inductive RunLoopState
  | running
  | returned (result : Option GoError)
  | done

/-- `decorate` itself: it waits for a result, has one, and closes the pipe in two steps. -/
inductive DecorateState
  | waiting
  | returned (result : Option GoError)
  | closing (result : Option GoError)
  | done (result : Option GoError)
  deriving DecidableEq

/-- `errC` has one slot.  The pipe is `closed` when its counter says so and `closing` when its
channel is closed.  The other fields are records: the packets read from the connection and by the
run loop; the `WriteMsg` calls of the run loop with the goroutines that made them, those of them
whose packet the writer took and those that failed; the `rw.WriteMsg` calls and those that
succeeded; the calls of the handler, each with the number of the packet in the hand of the
reader. -/
structure Decorator where
  limiter : PeerRateLimiter
  reader : Reader := .reading
  writer : Writer := .reading
  calls : Nat → PipeCall := fun _ => .idle
  loop : RunLoopState := .running
  main : DecorateState := .waiting
  errC : Option (Option GoError) := none
  closed : Bool := false
  closing : Bool := false
  received : List Packet := []
  delivered : List Packet := []
  wrote : List (Nat × Packet) := []
  handed : List (Nat × Packet) := []
  refused : List (Nat × Packet) := []
  attempted : List Packet := []
  written : List Packet := []
  handler : List (Nat × HandlerCall) := []

inductive DecoratorAction
  /-- `rw.ReadMsg` returns to the reader. -/
  | readMsg (result : Except GoError Packet)
  /-- Another step of the reader. -/
  | reader
  /-- The reader hands its packet to the goroutine `i` of the run loop. -/
  | deliver (i : Nat)
  /-- `rw.WriteMsg` returns to the writer. -/
  | writeMsg (err : Option GoError)
  /-- Another step of the writer. -/
  | writer
  /-- The goroutine `i` of the run loop hands its packet to the writer. -/
  | collect (i : Nat)
  | callReadMsg (i : Nat)
  | callWriteMsg (i : Nat) (packet : Packet)
  /-- A call of the goroutine `i` returns. -/
  | callReturns (i : Nat)
  | loopReturns (result : Option GoError)
  | loopReports
  | main
  /-- A tick of the limiter, or a packet of another connection. -/
  | limiter (call : LimiterCall)

def errPipeClosed : GoError := newError "p2p: read or write on closed message pipe"

namespace Decorator

/-- A call of the handler for the packet that was read last. -/
def inc (s : Decorator) (call : HandlerCall) : Decorator :=
  { s with handler := s.handler ++ [(s.received.length - 1, call)] }

def readerStep (names : PeerNames) (s : Decorator) : Option Decorator :=
  match s.reader with
  | .reading => none
  | .read packet => some { s.inc .incProcessed with reader := .counted packet }
  | .counted packet =>
    let (limiter, halted) := s.limiter.throttleIP names.ip
    some { s with limiter, reader := if halted then .ipHalted packet else .ipChecked packet }
  | .ipHalted packet => some { s.inc .incExceedIPLimit with reader := .ipChecked packet }
  | .ipChecked packet =>
    let (limiter, halted) := s.limiter.throttlePeer names.peerID
    some { s with limiter, reader := if halted then .peerHalted packet else .checked packet }
  | .peerHalted packet => some { s.inc .incExceedPeerLimit with reader := .checked packet }
  | .checked packet =>
    if s.closed then some { s with reader := .failed (some packet) (writeError errPipeClosed) }
    else some { s with reader := .sending packet }
  | .sending packet =>
    if s.closing then some { s with reader := .failed (some packet) (writeError errPipeClosed) }
    else none
  -- the run loop may have read the payload at any time
  | .waiting => some { s with reader := .reading }
  | .failed lost err =>
    if s.errC.isNone then some { s with errC := some (some err), reader := .done lost } else none
  | .done _ => none
where
  writeError (err : GoError) : GoError := newError ("failed to write packet to pipe: " ++ err.text)

def writerStep (s : Decorator) : Option Decorator :=
  match s.writer with
  | .reading =>
    if s.closed then some { s with writer := .failed none (readError errPipeClosed) }
    else some { s with writer := .receiving }
  | .receiving =>
    if s.closing then some { s with writer := .failed none (readError errPipeClosed) } else none
  | .took sender packet =>
    some { s with writer := .writing sender packet, attempted := s.attempted ++ [packet] }
  | .writing _ _ => none
  | .failed lost err =>
    if s.errC.isNone then some { s with errC := some (some err), writer := .done lost } else none
  | .done _ => none
where
  readError (err : GoError) : GoError := newError ("failed to read packet from pipe: " ++ err.text)

/-- A blocked call returns: the pipe is closed, or a packet was handed over and its payload was
read, which the writer does in `rw.WriteMsg`. -/
def callReturns (s : Decorator) (i : Nat) : Option Decorator :=
  match s.calls i with
  | .idle => none
  | .receiving =>
    if s.closing then some { s with calls := Function.update s.calls i .idle } else none
  | .sending packet =>
    if s.closing then
      some { s with
        calls := Function.update s.calls i .idle, refused := s.refused ++ [(i, packet)] }
    else none
  | .waiting packet =>
    if packet.size = 0 ∨ s.closing = true ∨ s.writer ≠ .took i packet then
      some { s with calls := Function.update s.calls i .idle }
    else none

def mainStep (s : Decorator) : Option Decorator :=
  match s.main with
  | .waiting => s.errC.map fun result => { s with errC := none, main := .returned result }
  | .returned result => some { s with closed := true, main := .closing result }
  | .closing result => some { s with closing := true, main := .done result }
  | .done _ => none

/-- One step of one goroutine, or a packet handed over. -/
def step (names : PeerNames) (s : Decorator) : DecoratorAction → Option Decorator
  | .readMsg result =>
    match s.reader, result with
    | .reading, .ok packet =>
      some { s with reader := .read packet, received := s.received ++ [packet] }
    | .reading, .error err =>
      some { s with reader := .failed none (newError ("failed to read packet: " ++ err.text)) }
    | _, _ => none
  | .reader => s.readerStep names
  | .deliver i =>
    match s.reader, s.calls i, s.closing with
    | .sending packet, .receiving, false =>
      some { s with
        reader := .waiting, calls := Function.update s.calls i .idle
        delivered := s.delivered ++ [packet] }
    | _, _, _ => none
  | .writeMsg err =>
    match s.writer, err with
    | .writing _ packet, none =>
      some { s with writer := .reading, written := s.written ++ [packet] }
    | .writing _ packet, some err =>
      some { s with
        writer := .failed (some packet) (newError ("failed to write packet: " ++ err.text)) }
    | _, _ => none
  | .writer => s.writerStep
  | .collect i =>
    match s.writer, s.calls i, s.closing with
    | .receiving, .sending packet, false =>
      some { s with
        writer := .took i packet, calls := Function.update s.calls i (.waiting packet)
        handed := s.handed ++ [(i, packet)] }
    | _, _, _ => none
  | .callReadMsg i =>
    match s.calls i with
    | .idle =>
      if s.closed then some s else some { s with calls := Function.update s.calls i .receiving }
    | _ => none
  | .callWriteMsg i packet =>
    match s.calls i with
    | .idle =>
      if s.closed then
        some { s with
          wrote := s.wrote ++ [(i, packet)], refused := s.refused ++ [(i, packet)] }
      else
        some { s with
          wrote := s.wrote ++ [(i, packet)], calls := Function.update s.calls i (.sending packet) }
    | _ => none
  | .callReturns i => s.callReturns i
  | .loopReturns result =>
    match s.loop with
    | .running => some { s with loop := .returned result }
    | _ => none
  | .loopReports =>
    match s.loop, s.errC with
    | .returned result, none => some { s with loop := .done, errC := some result }
    | _, _ => none
  | .main => s.mainStep
  | .limiter call => some { s with limiter := (s.limiter.step call).1 }

/-- The steps of all goroutines, in any order. -/
def Step (names : PeerNames) (s : Decorator) (a : DecoratorAction) (t : Decorator) : Prop :=
  s.step names a = some t

end Decorator

/-! ### The relays -/

/-- The packet that the reader has taken and not handed over. -/
def Reader.hand : Reader → List Packet
  | .read p | .counted p | .ipHalted p | .ipChecked p | .peerHalted p | .checked p | .sending p =>
    [p]
  | .reading | .waiting | .failed _ _ | .done _ => []

def Reader.lost : Reader → List Packet
  | .failed lost _ | .done lost => lost.toList
  | _ => []

/-- The calls of the handler that may still be made for the packet in the hand of the reader. -/
def Reader.owed : Reader → HandlerCall → Bool
  | .read _, _ => true
  | .counted _, c | .ipHalted _, c => c ≠ .incProcessed
  | .ipChecked _, c | .peerHalted _, c => c = .incExceedPeerLimit
  | _, _ => false

def Writer.taken : Writer → List Packet
  | .took _ p => [p]
  | _ => []

def Writer.hand : Writer → List Packet
  | .writing _ p => [p]
  | _ => []

def Writer.lost : Writer → List Packet
  | .failed lost _ | .done lost => lost.toList
  | _ => []

def PipeCall.hand : PipeCall → List Packet
  | .sending p => [p]
  | _ => []

/-- The packets of the goroutine `i`. -/
def packetsOf (i : Nat) (sent : List (Nat × Packet)) : List Packet :=
  sent.filterMap fun e => if e.1 = i then some e.2 else none

@[simp] theorem packetsOf_append (i : Nat) (sent more : List (Nat × Packet)) :
    packetsOf i (sent ++ more) = packetsOf i sent ++ packetsOf i more := List.filterMap_append

@[simp] theorem packetsOf_self (i : Nat) (p : Packet) : packetsOf i [(i, p)] = [p] := by
  simp [packetsOf]

theorem packetsOf_of_ne {i j : Nat} (h : j ≠ i) (p : Packet) : packetsOf i [(j, p)] = [] := by
  simp [packetsOf, h]

namespace Decorator

/-- From the connection to the run loop. -/
def inward (s : Decorator) : Relay Packet where
  offered := s.received
  given := s.delivered
  hand := s.reader.hand
  lost := s.reader.lost

/-- From the goroutine `i` of the run loop to the writer. -/
def offers (i : Nat) (s : Decorator) : Relay Packet where
  offered := packetsOf i s.wrote
  given := packetsOf i s.handed
  hand := (s.calls i).hand
  lost := packetsOf i s.refused

/-- From the writer's end of the pipe to `rw.WriteMsg`. -/
def outward (s : Decorator) : Relay Packet where
  offered := s.handed.map Prod.snd
  given := s.attempted
  hand := s.writer.taken

/-- From `rw.WriteMsg` to the connection. -/
def onward (s : Decorator) : Relay Packet where
  offered := s.attempted
  given := s.written
  hand := s.writer.hand
  lost := s.writer.lost

/-- The packets read from the connection and the calls of the handler. -/
def tally (s : Decorator) : Tally HandlerCall where
  items := s.received.length
  owed := s.reader.owed
  made := s.handler

/-- A `WriteMsg` call fails only after the pipe was closed, and no call after that gets as far as
the `select`. -/
structure Refusing (s : Decorator) : Prop where
  main : (∃ result, s.main = .closing result) → s.closed = true
  closed : s.closing = true → s.closed = true
  refused : s.closed = false → s.refused = []
  pending : ∀ i, (s.calls i).hand ≠ [] → packetsOf i s.refused = []

/-- What one step is for the relays. -/
structure Moves (s t : Decorator) : Prop where
  inward : s.inward.Move t.inward
  offers : s.Refusing → ∀ i, (s.offers i).Move (t.offers i)
  outward : s.outward.Move t.outward
  onward : s.onward.Move t.onward
  tally : s.tally.Move (· = .incProcessed) t.tally
  refusing : s.Refusing → t.Refusing

section Moves

variable {names : PeerNames} {s t : Decorator}

theorem tally_rest (s : Decorator) : s.tally.Move (· = .incProcessed) s.tally :=
  .waive (fun _ hc => hc) fun _ _ => rfl

/-- A step of the reader. -/
theorem Moves.reader {limiter : PeerRateLimiter} {reader : Reader} {errC : Option (Option GoError)}
    {received : List Packet} {handler : List (Nat × HandlerCall)}
    (hinward : s.inward.Move
      { offered := received, given := s.delivered, hand := reader.hand, lost := reader.lost })
    (htally : s.tally.Move (· = .incProcessed)
      { items := received.length, owed := reader.owed, made := handler }) :
    s.Moves { s with limiter, reader, errC, received, handler } :=
  ⟨hinward, fun _ _ => .rest, .rest, .rest, htally,
    fun h => ⟨h.main, h.closed, h.refused, h.pending⟩⟩

/-- A step of the writer. -/
theorem Moves.writer {writer : Writer} {errC : Option (Option GoError)}
    {attempted written : List Packet}
    (houtward : s.outward.Move
      { offered := s.handed.map Prod.snd, given := attempted, hand := writer.taken })
    (honward : s.onward.Move
      { offered := attempted, given := written, hand := writer.hand, lost := writer.lost }) :
    s.Moves { s with writer, errC, attempted, written } :=
  ⟨.rest, fun _ _ => .rest, houtward, honward, s.tally_rest,
    fun h => ⟨h.main, h.closed, h.refused, h.pending⟩⟩

section ReaderMoves

variable {before after : Reader} (hreader : s.reader = before)
include hreader

/-- A call of the handler, which leaves the packet where it is. -/
theorem Moves.inc {call : HandlerCall} (hhand : after.hand = before.hand)
    (hlost : after.lost = before.lost) (howed : before.owed call = true)
    (hupdate : after.owed = Function.update before.owed call false) :
    s.Moves { s.inc call with reader := after } := by
  subst hreader
  apply Moves.reader
  · rw [hhand, hlost]
    exact .rest
  · rw [hupdate]
    exact .make call howed

/-- A step of the reader that leaves the packet where it is. -/
theorem Moves.advance {limiter : PeerRateLimiter} {errC : Option (Option GoError)}
    (hhand : after.hand = before.hand) (hlost : after.lost = before.lost)
    (hless : ∀ c, after.owed c = true → before.owed c = true)
    (hmust : after.owed .incProcessed = before.owed .incProcessed) :
    s.Moves { s with limiter, reader := after, errC } := by
  subst hreader
  apply Moves.reader
  · rw [hhand, hlost]
    exact .rest
  · exact .waive hless fun c hc => hc ▸ hmust

/-- The reader gives up with the packet in its hand. -/
theorem Moves.giveUp {packet : Packet} {err : GoError} (hhand : before.hand = [packet])
    (hlost : before.lost = []) (howed : ∀ c, before.owed c = false) :
    s.Moves { s with reader := .failed (some packet) err } := by
  subst hreader
  apply Moves.reader
  · have hdrop : s.inward.Move { s.inward with hand := [], lost := packet :: s.inward.lost } :=
      .drop packet hhand
    have heq : s.inward.lost = [] := hlost
    rw [heq] at hdrop
    exact hdrop
  · exact .waive (fun c hc => absurd hc (by simp [Reader.owed])) fun c _ => (howed c).symm

end ReaderMoves

theorem readerStep_moves (h : s.readerStep names = some t) : s.Moves t := by
  unfold readerStep at h
  split at h <;> rename_i hreader
  · cases h
  · cases h
    exact .inc hreader rfl rfl rfl (by funext c; cases c <;> rfl)
  · -- the verdict decides about the call of the handler only
    generalize s.limiter.throttleIP names.ip = verdict at h
    obtain ⟨limiter, halted⟩ := verdict
    cases halted with
    | true =>
      cases h
      exact .advance hreader rfl rfl (fun _ hc => hc) rfl
    | false =>
      cases h
      exact .advance hreader rfl rfl (by intro c; cases c <;> simp [Reader.owed]) rfl
  · cases h
    exact .inc hreader rfl rfl rfl (by funext c; cases c <;> rfl)
  · generalize s.limiter.throttlePeer names.peerID = verdict at h
    obtain ⟨limiter, halted⟩ := verdict
    cases halted with
    | true =>
      cases h
      exact .advance hreader rfl rfl (fun _ hc => hc) rfl
    | false =>
      cases h
      exact .advance hreader rfl rfl (by intro c; cases c <;> simp [Reader.owed]) rfl
  · cases h
    exact .inc hreader rfl rfl rfl (by funext c; cases c <;> rfl)
  · split at h
    · cases h
      exact .giveUp hreader rfl rfl fun _ => rfl
    · cases h
      exact .advance hreader rfl rfl (fun _ hc => hc) rfl
  · split at h
    · cases h
      exact .giveUp hreader rfl rfl fun _ => rfl
    · cases h
  · cases h
    exact .advance hreader rfl rfl (fun _ hc => hc) rfl
  · split at h
    · cases h
      exact .advance hreader rfl rfl (fun _ hc => hc) rfl
    · cases h
  · cases h

/-- A step of the writer that takes no packet out of the pipe. -/
theorem Moves.writes {before after : Writer} {errC : Option (Option GoError)}
    {written : List Packet} (hwriter : s.writer = before) (htaken : after.taken = before.taken)
    (honward : s.onward.Move
      { offered := s.attempted, given := written, hand := after.hand, lost := after.lost }) :
    s.Moves { s with writer := after, errC, written } := by
  subst hwriter
  apply Moves.writer _ honward
  rw [htaken]
  exact .rest

theorem writerStep_moves (h : s.writerStep = some t) : s.Moves t := by
  unfold writerStep at h
  have hrest : ∀ {before after : Writer} {errC : Option (Option GoError)}, s.writer = before →
      after.taken = before.taken → after.hand = before.hand → after.lost = before.lost →
      s.Moves { s with writer := after, errC } := by
    rintro before after errC rfl htaken hhand hlost
    apply Moves.writes rfl htaken
    rw [hhand, hlost]
    exact .rest
  split at h <;> rename_i hwriter
  · split at h
    · cases h
      exact hrest hwriter rfl rfl rfl
    · cases h
      exact hrest hwriter rfl rfl rfl
  · split at h
    · cases h
      exact hrest hwriter rfl rfl rfl
    · cases h
  · cases h
    rename_i sender packet
    apply Moves.writer
    · exact .give packet (congrArg Writer.taken hwriter)
    · have hhand : s.onward.hand = [] := congrArg Writer.hand hwriter
      have hlost : s.onward.lost = [] := congrArg Writer.lost hwriter
      have htake := Relay.Move.take packet hhand hlost
      rw [hlost] at htake
      exact htake
  · cases h
  · split at h
    · cases h
      exact hrest hwriter rfl rfl rfl
    · cases h
  · cases h

/-- A goroutine of the run loop makes a call, or one returns, and no packet changes hands. -/
theorem call_moves {i : Nat} {before after : PipeCall} (hcall : s.calls i = before)
    (hhand : after.hand = before.hand) :
    s.Moves { s with calls := Function.update s.calls i after } := by
  have hsame : ∀ j, (Function.update s.calls i after j).hand = (s.calls j).hand := by
    intro j
    by_cases hj : j = i
    · rw [hj, Function.update_self, hhand, hcall]
    · rw [Function.update_of_ne hj]
  refine ⟨.rest, fun _ j => ?_, .rest, .rest, s.tally_rest,
    fun h => ⟨h.main, h.closed, h.refused, fun j hj => h.pending j (hsame j ▸ hj)⟩⟩
  have hoffers : ({ s with calls := Function.update s.calls i after } : Decorator).offers j =
      s.offers j := by
    rw [offers, hsame]
    rfl
  rw [hoffers]
  exact .rest

/-- The relay of one goroutine moves. -/
theorem offers_moves (i : Nat) (hi : (s.offers i).Move (t.offers i))
    (hother : ∀ j, j ≠ i → t.offers j = s.offers j) (j : Nat) : (s.offers j).Move (t.offers j) := by
  by_cases hj : j = i
  · rw [hj]
    exact hi
  · rw [hother j hj]
    exact .rest

theorem sends_moves {i : Nat} (hcall : s.calls i = .idle) (hclosed : s.closed = false)
    (packet : Packet) :
    s.Moves { s with
      wrote := s.wrote ++ [(i, packet)]
      calls := Function.update s.calls i (.sending packet) } := by
  refine ⟨.rest, fun h => offers_moves i ?_ fun j hj => ?_, .rest, .rest, s.tally_rest,
    fun h => ⟨h.main, h.closed, h.refused, fun j _ => ?_⟩⟩
  · have hhand : (s.offers i).hand = [] := congrArg PipeCall.hand hcall
    have hlost : (s.offers i).lost = [] := congrArg (packetsOf i) (h.refused hclosed)
    simpa [offers, PipeCall.hand] using Relay.Move.take packet hhand hlost
  · simp [offers, packetsOf_of_ne (Ne.symm hj), Function.update_of_ne hj]
  · exact congrArg (packetsOf j) (h.refused hclosed)

theorem refused_moves {i : Nat} (hcall : s.calls i = .idle) (hclosed : s.closed = true)
    (packet : Packet) :
    s.Moves { s with
      wrote := s.wrote ++ [(i, packet)], refused := s.refused ++ [(i, packet)] } := by
  refine ⟨.rest, fun h => offers_moves i ?_ fun j hj => ?_, .rest, .rest, s.tally_rest,
    fun h => ⟨h.main, h.closed, fun hopen => ?_, fun j hj => ?_⟩⟩
  · have hhand : (s.offers i).hand = [] := congrArg PipeCall.hand hcall
    simpa [offers] using Relay.Move.refuse packet hhand
  · simp [offers, packetsOf_of_ne (Ne.symm hj)]
  · exact absurd (hclosed.symm.trans hopen) (by simp)
  · have hne : i ≠ j := by
      rintro rfl
      exact hj (congrArg PipeCall.hand hcall)
    show packetsOf j (s.refused ++ [(i, packet)]) = []
    rw [packetsOf_append, packetsOf_of_ne hne, h.pending j hj, List.nil_append]

theorem dropped_moves {i : Nat} {packet : Packet} (hcall : s.calls i = .sending packet)
    (hclosing : s.closing = true) :
    s.Moves { s with
      calls := Function.update s.calls i .idle, refused := s.refused ++ [(i, packet)] } := by
  have hhand : (s.offers i).hand = [packet] := congrArg PipeCall.hand hcall
  refine ⟨.rest, fun h => offers_moves i ?_ fun j hj => ?_, .rest, .rest, s.tally_rest,
    fun h => ⟨h.main, h.closed, fun hopen => ?_, fun j hj => ?_⟩⟩
  · have hlost : (s.offers i).lost = [] := h.pending i (by rw [hcall]; simp [PipeCall.hand])
    have hdrop := Relay.Move.drop packet hhand
    rw [hlost] at hdrop
    have hrefused : packetsOf i s.refused = [] := hlost
    simpa [offers, PipeCall.hand, hrefused] using hdrop
  · simp [offers, packetsOf_of_ne (Ne.symm hj), Function.update_of_ne hj]
  · exact absurd ((h.closed hclosing).symm.trans hopen) (by simp)
  · have hne : j ≠ i := by
      rintro rfl
      simp [PipeCall.hand] at hj
    show packetsOf j (s.refused ++ [(i, packet)]) = []
    rw [packetsOf_append, packetsOf_of_ne (Ne.symm hne), List.append_nil]
    exact h.pending j (by simpa [Function.update_of_ne hne] using hj)

theorem collected_moves {i : Nat} {packet : Packet} (hwriter : s.writer = .receiving)
    (hcall : s.calls i = .sending packet) :
    s.Moves { s with
      writer := .took i packet, calls := Function.update s.calls i (.waiting packet)
      handed := s.handed ++ [(i, packet)] } := by
  have hhand : (s.offers i).hand = [packet] := congrArg PipeCall.hand hcall
  refine ⟨.rest, fun h => offers_moves i ?_ fun j hj => ?_, ?_, ?_, s.tally_rest,
    fun h => ⟨h.main, h.closed, h.refused, fun j hj => ?_⟩⟩
  · simpa [offers, PipeCall.hand] using Relay.Move.give packet hhand
  · simp [offers, packetsOf_of_ne (Ne.symm hj), Function.update_of_ne hj]
  · have hempty : s.outward.hand = [] := congrArg Writer.taken hwriter
    simpa [outward, Writer.taken] using Relay.Move.take packet hempty rfl
  · have hsame : ∀ calls handed, ({ s with writer := .took i packet, calls, handed } :
        Decorator).onward = s.onward := by
      intro calls handed
      simp [onward, hwriter, Writer.hand, Writer.lost]
    rw [hsame]
    exact .rest
  · have hne : j ≠ i := by
      rintro rfl
      simp [PipeCall.hand] at hj
    exact h.pending j (by simpa [Function.update_of_ne hne] using hj)

theorem callReturns_moves {i : Nat} (h : s.callReturns i = some t) : s.Moves t := by
  unfold callReturns at h
  split at h <;> rename_i hcall
  · cases h
  · split at h
    · cases h
      exact call_moves hcall rfl
    · cases h
  · split at h
    · rename_i hclosing
      cases h
      exact dropped_moves hcall hclosing
    · cases h
  · split at h
    · cases h
      exact call_moves hcall rfl
    · cases h

theorem mainStep_moves (h : s.mainStep = some t) : s.Moves t := by
  unfold mainStep at h
  split at h
  · obtain ⟨result, -, rfl⟩ := Option.map_eq_some_iff.mp h
    exact ⟨.rest, fun _ _ => .rest, .rest, .rest, s.tally_rest,
      fun h => ⟨by simp, h.closed, h.refused, h.pending⟩⟩
  · cases h
    exact ⟨.rest, fun _ _ => .rest, .rest, .rest, s.tally_rest,
      fun h => ⟨fun _ => rfl, fun _ => rfl, by simp, h.pending⟩⟩
  · rename_i result hmain
    cases h
    exact ⟨.rest, fun _ _ => .rest, .rest, .rest, s.tally_rest,
      fun h => ⟨by simp, fun _ => h.main ⟨result, hmain⟩, h.refused, h.pending⟩⟩
  · cases h

/-- Neither the result of the run loop nor the state of the limiter is seen by the relays. -/
theorem loop_moves (s : Decorator) (limiter : PeerRateLimiter) (loop : RunLoopState)
    (errC : Option (Option GoError)) : s.Moves { s with limiter, loop, errC } :=
  ⟨.rest, fun _ _ => .rest, .rest, .rest, s.tally_rest,
    fun h => ⟨h.main, h.closed, h.refused, h.pending⟩⟩

theorem readMsg_moves {result : Except GoError Packet}
    (h : s.step names (.readMsg result) = some t) : s.Moves t := by
  simp only [step] at h
  split at h
  · rename_i packet hreader
    cases h
    have hhand : s.inward.hand = [] := congrArg Reader.hand hreader
    have hlost : s.inward.lost = [] := congrArg Reader.lost hreader
    apply Moves.reader
    · have htake := Relay.Move.take packet hhand hlost
      rw [hlost] at htake
      exact htake
    · have hnone : ∀ c, s.tally.owed c = false := fun c =>
        congrFun (congrArg Reader.owed hreader) c
      have hnext : s.tally.Move (· = .incProcessed) _ := .next hnone
      rw [List.length_append]
      exact hnext
  · rename_i hreader
    cases h
    exact .advance hreader rfl rfl (fun _ hc => hc) rfl
  · cases h

theorem deliver_moves {i : Nat} (h : s.step names (.deliver i) = some t) : s.Moves t := by
  simp only [step] at h
  split at h
  · rename_i packet hreader hcall hclosing
    cases h
    have hidle : s.Moves { s with calls := Function.update s.calls i .idle } :=
      call_moves hcall rfl
    refine ⟨?_, hidle.offers, .rest, .rest, ?_, fun h => ?_⟩
    · have hlost : s.inward.lost = [] := congrArg Reader.lost hreader
      have hgive : s.inward.Move _ := .give packet (congrArg Reader.hand hreader)
      rw [hlost] at hgive
      exact hgive
    · exact .waive (fun c hc => absurd hc (by simp [Reader.owed]))
        fun c _ => (congrFun (congrArg Reader.owed hreader) c).symm
    · obtain ⟨hmain, hclosed, hrefused, hpending⟩ := hidle.refusing h
      exact ⟨hmain, hclosed, hrefused, hpending⟩
  · cases h

theorem writeMsg_moves {err : Option GoError} (h : s.step names (.writeMsg err) = some t) :
    s.Moves t := by
  simp only [step] at h
  split at h
  · rename_i sender packet hwriter
    cases h
    have hlost : s.onward.lost = [] := congrArg Writer.lost hwriter
    have hgive : s.onward.Move _ := .give packet (congrArg Writer.hand hwriter)
    rw [hlost] at hgive
    exact .writes hwriter rfl hgive
  · rename_i sender packet err hwriter
    cases h
    have hlost : s.onward.lost = [] := congrArg Writer.lost hwriter
    have hdrop : s.onward.Move _ := .drop packet (congrArg Writer.hand hwriter)
    rw [hlost] at hdrop
    exact .writes hwriter rfl hdrop
  · cases h

theorem step_moves {a : DecoratorAction} (h : s.step names a = some t) : s.Moves t := by
  cases a with
  | readMsg result => exact readMsg_moves h
  | reader => exact readerStep_moves h
  | deliver i => exact deliver_moves h
  | writeMsg err => exact writeMsg_moves h
  | writer => exact writerStep_moves h
  | collect i =>
    simp only [step] at h
    split at h
    · rename_i packet hwriter hcall hclosing
      cases h
      exact collected_moves hwriter hcall
    · cases h
  | callReadMsg i =>
    simp only [step] at h
    split at h
    · rename_i hcall
      split at h
      · cases h
        exact loop_moves s s.limiter s.loop s.errC
      · cases h
        exact call_moves hcall rfl
    · cases h
  | callWriteMsg i packet =>
    simp only [step] at h
    split at h
    · rename_i hcall
      split at h
      · rename_i hclosed
        cases h
        exact refused_moves hcall hclosed packet
      · rename_i hclosed
        cases h
        exact sends_moves hcall (Bool.eq_false_iff.mpr hclosed) packet
    · cases h
  | callReturns i => exact callReturns_moves h
  | loopReturns result =>
    simp only [step] at h
    split at h
    · cases h
      exact loop_moves s s.limiter (.returned result) s.errC
    · cases h
  | loopReports =>
    simp only [step] at h
    split at h
    · cases h
      exact loop_moves s s.limiter .done _
    · cases h
  | main => exact mainStep_moves h
  | limiter call =>
    cases h
    exact loop_moves s _ s.loop s.errC

end Moves

/-! ### Runs -/

/-- The relays are in order. -/
structure InOrder (s : Decorator) : Prop where
  inward : s.inward.InOrder
  offers : ∀ i, (s.offers i).InOrder
  outward : s.outward.InOrder
  onward : s.onward.InOrder
  tally : s.tally.Exact (· = .incProcessed)
  refusing : s.Refusing

theorem InOrder.moves {s t : Decorator} (h : s.InOrder) (hmoves : s.Moves t) : t.InOrder :=
  ⟨h.inward.move hmoves.inward, fun i => (h.offers i).move (hmoves.offers h.refusing i),
    h.outward.move hmoves.outward, h.onward.move hmoves.onward, h.tally.move hmoves.tally,
    hmoves.refusing h.refusing⟩

theorem start_inOrder (limiter : PeerRateLimiter) : ({ limiter } : Decorator).InOrder := by
  refine ⟨rfl, fun _ => rfl, rfl, rfl, ?_, ?_⟩
  · constructor <;> simp [tally, Reader.owed]
  · constructor <;> simp [packetsOf]

theorem run_inOrder {names : PeerNames} {limiter : PeerRateLimiter} {acts : List DecoratorAction}
    {s : Decorator} (run : Run (Step names) { limiter } acts s) :
    s.InOrder :=
  run.invariant (start_inOrder limiter) fun _ _ _ _ h hstep => h.moves (step_moves hstep)

end Decorator

theorem Reader.length_held (r : Reader) : r.hand.length + r.lost.length ≤ 1 := by
  cases r with
  | failed packet err => cases packet <;> simp [hand, lost]
  | done packet => cases packet <;> simp [hand, lost]
  | _ => simp [hand, lost]

theorem packetsOf_eq_map {i : Nat} {sent : List (Nat × Packet)} (h : ∀ e ∈ sent, e.1 = i) :
    packetsOf i sent = sent.map Prod.snd := by
  induction sent with
  | nil => rfl
  | cons e sent ih =>
    have he : e.1 = i := h e List.mem_cons_self
    rw [packetsOf, List.filterMap_cons_some (b := e.2) (by simp [he]), List.map_cons]
    exact congrArg (e.2 :: ·) (ih fun e' he' => h e' (List.mem_cons_of_mem _ he'))

theorem mem_packetsOf {i : Nat} {p : Packet} {sent : List (Nat × Packet)} :
    p ∈ packetsOf i sent ↔ (i, p) ∈ sent := by
  simp only [packetsOf, List.mem_filterMap, Option.ite_none_right_eq_some, Option.some.injEq]
  constructor
  · rintro ⟨⟨j, q⟩, hmem, rfl, rfl⟩
    exact hmem
  · exact fun hmem => ⟨(i, p), hmem, rfl, rfl⟩

namespace Decorator

/-- The packets that the run loop has read are those of the connection but for one at most.  The
packets that were, or are being, written to the connection are those that the pipe took from the run
loop, in this order, which for each of its goroutines is the order of its calls; where one goroutine
makes all `WriteMsg` calls they are the first of these calls.  `IncProcessed` was called once for
each packet read, but for one that was read just now, and the other calls at most once each. -/
structure Transparent (s : Decorator) : Prop where
  delivered : s.delivered <+: s.received
  held : s.received.length ≤ s.delivered.length + 1
  written : s.written <+: s.attempted
  attempted : s.attempted <+: s.handed.map Prod.snd
  handed : ∀ i, packetsOf i s.handed <+: packetsOf i s.wrote
  sequential : ∀ i, (∀ e ∈ s.wrote, e.1 = i) → s.attempted <+: s.wrote.map Prod.snd
  processed : ∀ n < s.received.length,
    (n + 1 = s.received.length → ∀ packet, s.reader ≠ .read packet) →
    s.handler.count (n, .incProcessed) = 1
  pending : ∀ packet, s.reader = .read packet →
    s.handler.count (s.received.length - 1, .incProcessed) = 0
  exceeded : ∀ n call, s.handler.count (n, call) ≤ 1
  numbered : ∀ e ∈ s.handler, e.1 < s.received.length

theorem InOrder.handed_map {s : Decorator} (h : s.InOrder) {i : Nat}
    (hone : ∀ e ∈ s.wrote, e.1 = i) : s.handed.map Prod.snd <+: s.wrote.map Prod.snd := by
  have hhanded : ∀ e ∈ s.handed, e.1 = i := by
    intro e he
    have hmem : e.2 ∈ packetsOf e.1 s.wrote :=
      (h.offers e.1).isPrefix.subset (mem_packetsOf.mpr he)
    exact hone _ (mem_packetsOf.mp hmem)
  rw [← packetsOf_eq_map hhanded, ← packetsOf_eq_map hone]
  exact (h.offers i).isPrefix

theorem InOrder.transparent {s : Decorator} (h : s.InOrder) : s.Transparent where
  delivered := h.inward.isPrefix
  held := by
    have hlength : s.received.length = (s.delivered ++ s.reader.hand ++ s.reader.lost).length :=
      congrArg List.length h.inward
    have hheld := s.reader.length_held
    simp only [List.length_append] at hlength
    omega
  written := h.onward.isPrefix
  attempted := h.outward.isPrefix
  handed := fun i => (h.offers i).isPrefix
  sequential := fun i hone => h.outward.isPrefix.trans (h.handed_map hone)
  processed := by
    intro n hn hcounted
    have hmem : (n, HandlerCall.incProcessed) ∈ s.handler := by
      refine h.tally.must n hn _ rfl fun hlast => ?_
      show s.reader.owed .incProcessed = false
      cases hreader : s.reader with
      | read packet => exact absurd hreader (hcounted hlast packet)
      | _ => rfl
    exact Nat.le_antisymm (h.tally.once _) (List.count_pos_iff.mpr hmem)
  pending := by
    intro packet hreader
    refine List.count_eq_zero.mpr (h.tally.owed .incProcessed ?_)
    exact congrFun (congrArg Reader.owed hreader) .incProcessed
  exceeded := fun n call => h.tally.once (n, call)
  numbered := h.tally.below

/-- In every run, whatever the connection, the run loop and the limiter do and wherever a call
fails, `decorate` is transparent; and a packet that was read just now is counted by the next step of
the reader. -/
theorem decorate_transparent (names : PeerNames) (limiter : PeerRateLimiter)
    {acts : List DecoratorAction} {s : Decorator}
    (run : Run (Step names) { limiter } acts s) :
    s.Transparent ∧ ∀ packet, s.reader = .read packet → ∃ t, s.step names .reader = some t ∧
      t.handler.count (s.received.length - 1, .incProcessed) = 1 := by
  have htransparent := (run_inOrder run).transparent
  refine ⟨htransparent, fun packet hreader => ?_⟩
  have hstep : s.step names .reader =
      some { s.inc .incProcessed with reader := .counted packet } := by
    simp only [step, readerStep, hreader]
  refine ⟨_, hstep, ?_⟩
  show (s.handler ++ [_]).count _ = 1
  rw [List.count_append, htransparent.pending packet hreader, List.count_singleton_self]

/-- A limiter that flags every packet. -/
def sampleLimiter : PeerRateLimiter :=
  newPeerRateLimiter exactPerTick (some { limitPerSecIP := -1 })

/-- One packet in and one out, and then the connection fails. -/
def sampleActions : List DecoratorAction :=
  [.callReadMsg 0, .readMsg (.ok ⟨1, 1, [7]⟩), .reader, .reader, .reader, .reader, .reader, .reader,
    .deliver 0, .callWriteMsg 0 ⟨11, 1, [8]⟩, .writer, .collect 0, .writer, .writeMsg none,
    .callReturns 0, .reader, .readMsg (.error (newError "EOF")), .reader, .main, .main, .main]

theorem sampleActions_isSome :
    (sampleActions.foldlM (step {}) { limiter := sampleLimiter }).isSome := by
  decide +kernel

theorem decorate_transparent_sample :
    ∃ s : Decorator, Run (Step {}) { limiter := sampleLimiter } sampleActions s ∧
      s.main = .done (some (newError "failed to read packet: EOF")) ∧
      s.delivered = [⟨1, 1, [7]⟩] ∧ s.delivered <+: s.received ∧
      s.written = [⟨11, 1, [8]⟩] ∧ s.written <+: s.attempted ∧
      s.handler.count (0, .incProcessed) = 1 := by
  have run : Run (Step {}) { limiter := sampleLimiter } sampleActions _ :=
    .of_foldlM (fun _ _ _ h => h) (Option.some_get sampleActions_isSome).symm
  have htransparent := (decorate_transparent {} sampleLimiter run).1
  exact ⟨_, run, by decide +kernel, by decide +kernel, htransparent.delivered, by decide +kernel,
    htransparent.written, by decide +kernel⟩

end Decorator

end Whisperv6
