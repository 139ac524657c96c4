import Whisperv6.Net
import Whisperv6.Notification
import Whisperv6.Subscription

/-! The connections of a node while the setters and `Subscribe` are called.  Each call stores its
value, takes the peers that are registered, and writes a packet to each of them; `HandlePeer`
registers a peer first, and its handshake then writes the status packet in a goroutine.  All these
goroutines take their steps in any order. -/

namespace Whisperv6

open ProofKit

/-! ### The state -/

/-- How far the goroutine of a handshake is: it loads the proof of work, then the bloom filter, and
writes the status packet. -/
inductive Greeting
  | waiting
  | pow (val : Float64)
  | ready (val : Float64) (bloom : Option Bytes)
  | sent
  deriving DecidableEq

/-- A connection: the packets written to it, those that the remote has not read yet, and the remote,
which reads packets in its message loop once the connection is established. -/
structure Link where
  greeting : Greeting := .waiting
  written : List Packet := []
  unread : List Packet := []
  established : Bool := false
  remote : Remote

def Link.write (l : Link) (packet : Packet) : Link :=
  { l with written := l.written ++ [packet], unread := l.unread ++ [packet] }

inductive SetterCall
  | setMinimumPoW (val : Float64)
  | setBloomFilter (bloom : Bytes)
  | subscribe (rnd : Entropy) (r : FilterRef) (f : Filter)

/-- Where a call is.  A `Subscribe` call begins with its own comparison and load; from `storing` on
all calls are alike: the value is stored, the number of peers is read, and the slice of peers is
visited. -/
inductive SetterState
  | installed (f : Filter)
  | mismatched (f : Filter)
  | storing (v : Change)
  | stored (v : Change)
  | counted (v : Change) (count : Nat)
  | notifying (v : Change) (arr : List (Option PeerRef))
  | returned

/-- The node: its settings and filters, the registered peers, all connections, and the calls. -/
structure Links where
  settings : Settings
  disableConfirmations : Bool := false
  filters : Filters := {}
  peers : Finset PeerRef := ∅
  links : PeerRef → Option Link := fun _ => none
  calls : Nat → Option SetterState := fun _ => none

/-- `Store` of the new value. -/
def Settings.change (s : Settings) : Change → Settings
  | .pow val => { s with minPow := some val }
  | .bloom filter => { s with bloomFilter := some filter }

/-- `getPeers`: a slice whose length was read before, filled from the peers in the order of the
loop.  A peer too many is an index out of range, and a peer too few leaves a nil pointer. -/
def getPeers (count : Nat) (order : List PeerRef) : Option (List (Option PeerRef)) :=
  if count < order.length then none
  else some (order.map some ++ List.replicate (count - order.length) none)

namespace Links

def setLink (s : Links) (p : PeerRef) (l : Link) : Links :=
  { s with links := Function.update s.links p (some l) }

def setCall (s : Links) (i : Nat) (c : SetterState) : Links :=
  { s with calls := Function.update s.calls i (some c) }

theorem links_setLink_self (s : Links) (p : PeerRef) (l : Link) :
    (s.setLink p l).links p = some l := Function.update_self ..

theorem links_setLink_of_ne (s : Links) {p q : PeerRef} (h : q ≠ p) (l : Link) :
    (s.setLink p l).links q = s.links q := Function.update_of_ne h ..

theorem calls_setCall_self (s : Links) (i : Nat) (c : SetterState) :
    (s.setCall i c).calls i = some c := Function.update_self ..

theorem calls_setCall_of_ne (s : Links) {i j : Nat} (h : j ≠ i) (c : SetterState) :
    (s.setCall i c).calls j = s.calls j := Function.update_of_ne h ..

/-- A packet written to a peer. -/
def write (s : Links) (p : PeerRef) (packet : Packet) : Links :=
  match s.links p with
  | some l => s.setLink p (l.write packet)
  | none => s

theorem links_write_self {s : Links} {p : PeerRef} {l : Link} (h : s.links p = some l)
    (packet : Packet) : (s.write p packet).links p = some (l.write packet) := by
  rw [write, h]
  exact links_setLink_self s p _

/-- The first part of a call: the checks of the setters, and `Install`. -/
def begin (C : Crypto) (s : Links) (i : Nat) : SetterCall → Links
  | .setMinimumPoW val =>
    s.setCall i (if checkMinimumPoW val = none then .storing (.pow val) else .returned)
  | .setBloomFilter bloom =>
    s.setCall i (if checkBloomFilter bloom = none then .storing (.bloom bloom) else .returned)
  | .subscribe rnd r f =>
    match s.filters.install C rnd r f with
    | (filters, .ok _) => { s with filters }.setCall i (.installed f)
    | (filters, .error _) => { s with filters }.setCall i .returned

end Links

/-! ### The steps -/

inductive LinkAction
  | register (p : PeerRef) (remote : Remote)
  | deregister (p : PeerRef)
  | loadPow (p : PeerRef)
  | loadBloom (p : PeerRef)
  | sendStatus (p : PeerRef)
  | begin (i : Nat) (call : SetterCall)
  | compare (i : Nat)
  | load (i : Nat)
  | store (i : Nat)
  | count (i : Nat)
  | getPeers (i : Nat) (order : List PeerRef)
  | notify (i : Nat) (written : Bool)
  | finish (i : Nat)
  | read (p : PeerRef)

/-- One step of a goroutine.  A panic ends the process, and no step follows it.  A notification is
written by the first attempt or by the retry, or not at all. -/
inductive LinkStep (C : Crypto) (s : Links) : LinkAction → Links → Prop
  | register {p : PeerRef} {remote : Remote} (hnew : s.links p = none) :
      LinkStep C s (.register p remote) ({ s with peers := insert p s.peers }.setLink p { remote })
  | deregister {p : PeerRef} : LinkStep C s (.deregister p) { s with peers := s.peers.erase p }
  | loadPow {p : PeerRef} {l : Link} (hl : s.links p = some l) (hg : l.greeting = .waiting) :
      LinkStep C s (.loadPow p) (s.setLink p { l with greeting := .pow s.settings.getMinPow })
  | loadBloom {p : PeerRef} {l : Link} {val : Float64} (hl : s.links p = some l)
      (hg : l.greeting = .pow val) :
      LinkStep C s (.loadBloom p)
        (s.setLink p { l with greeting := .ready val s.settings.bloomFilter })
  | sendStatus {p : PeerRef} {l : Link} {val : Float64} {bloom : Option Bytes}
      (hl : s.links p = some l) (hg : l.greeting = .ready val bloom) :
      LinkStep C s (.sendStatus p) (s.setLink p
        { l.write (statusPacket val bloom s.settings.lightClientMode !s.disableConfirmations) with
          greeting := .sent })
  | begin {i : Nat} {call : SetterCall} (hnew : s.calls i = none) :
      LinkStep C s (.begin i call) (s.begin C i call)
  | compare {i : Nat} {f : Filter} (hc : s.calls i = some (.installed f)) :
      LinkStep C s (.compare i) (s.setCall i
        (if bloomFilterMatch s.settings.bloomFilter f.aggregate then .returned else .mismatched f))
  | load {i : Nat} {f : Filter} (hc : s.calls i = some (.mismatched f)) :
      LinkStep C s (.load i) (s.setCall i
        (.storing (.bloom (addBloom (s.settings.bloomFilter.getD []) f.aggregate))))
  | store {i : Nat} {v : Change} (hc : s.calls i = some (.storing v)) :
      LinkStep C s (.store i) ({ s with settings := s.settings.change v }.setCall i (.stored v))
  | count {i : Nat} {v : Change} (hc : s.calls i = some (.stored v)) :
      LinkStep C s (.count i) (s.setCall i (.counted v s.peers.card))
  | getPeers {i : Nat} {v : Change} {count : Nat} {order : List PeerRef}
      {arr : List (Option PeerRef)} (hc : s.calls i = some (.counted v count))
      (ho : IsOrder s.peers order) (harr : getPeers count order = some arr) :
      LinkStep C s (.getPeers i order) (s.setCall i (.notifying v arr))
  | notify {i : Nat} {v : Change} {p : PeerRef} {arr : List (Option PeerRef)} {written : Bool}
      (hc : s.calls i = some (.notifying v (some p :: arr))) :
      LinkStep C s (.notify i written)
        ((if written then s.write p v.packet else s).setCall i (.notifying v arr))
  | finish {i : Nat} {v : Change} (hc : s.calls i = some (.notifying v [])) :
      LinkStep C s (.finish i) (s.setCall i .returned)
  | read {p : PeerRef} {l : Link} {packet : Packet} {rest : List Packet}
      (hl : s.links p = some l) (he : l.established = true) (hu : l.unread = packet :: rest) :
      LinkStep C s (.read p)
        (s.setLink p { l with unread := rest, remote := l.remote.handle packet })

theorem Change.code_packet_ne (v : Change) : v.packet.code ≠ statusCode := by
  cases v with
  | pow val => exact (by decide : powRequirementCode ≠ statusCode)
  | bloom filter => exact (by decide : bloomFilterExCode ≠ statusCode)

theorem mem_getPeers {count : Nat} {order : List PeerRef} {arr : List (Option PeerRef)}
    (h : getPeers count order = some arr) (p : PeerRef) : some p ∈ arr ↔ p ∈ order := by
  unfold getPeers at h
  split at h
  · cases h
  · cases h
    simp

/-! ### The first packet of a connection -/

namespace Links

/-- The first packet on every connection is the status packet. -/
def StatusFirst (s : Links) : Prop :=
  ∀ p l, s.links p = some l → ∀ packet ∈ l.written.head?, packet.code = statusCode

/-- The status packet was written to all the peers of a list. -/
def Greeted (s : Links) (order : List PeerRef) : Prop :=
  ∀ p ∈ order, ∃ l, s.links p = some l ∧ l.greeting = .sent

end Links

/-- One step, where a call takes the peers only when all of them have been sent the status
packet. -/
def GreetedStep (C : Crypto) (s : Links) (a : LinkAction) (t : Links) : Prop :=
  LinkStep C s a t ∧ ∀ i order, a = .getPeers i order → s.Greeted order

/-- Nothing is written to a connection before the status packet. -/
structure Link.Opened (l : Link) : Prop where
  sent : l.greeting = .sent → ∃ packet rest, l.written = packet :: rest ∧ packet.code = statusCode
  silent : l.greeting ≠ .sent → l.written = []

/-- Every connection is opened by the status packet, every registered peer has a connection, and the
peers that a call has still to notify have been sent the status packet. -/
structure Links.Orderly (s : Links) : Prop where
  links : ∀ p l, s.links p = some l → l.Opened
  peers : ∀ p ∈ s.peers, ∃ l, s.links p = some l
  calls : ∀ i v arr, s.calls i = some (.notifying v arr) →
    ∀ p, some p ∈ arr → ∃ l, s.links p = some l ∧ l.greeting = .sent

namespace Links

variable {C : Crypto} {s t : Links} {a : LinkAction}

theorem Orderly.statusFirst (h : s.Orderly) : s.StatusFirst := by
  intro p l hl packet hpacket
  by_cases hg : l.greeting = .sent
  · obtain ⟨first, rest, hwritten, hcode⟩ := (h.links p l hl).sent hg
    rw [hwritten, List.head?_cons, Option.mem_some_iff] at hpacket
    rw [← hpacket]
    exact hcode
  · rw [(h.links p l hl).silent hg] at hpacket
    cases hpacket

/-- A connection may be new, or change when its status packet stays sent, if it is opened. -/
theorem Orderly.setLink (h : s.Orderly) {p : PeerRef} {l' : Link} (hopened : l'.Opened)
    (hsent : ∀ l ∈ s.links p, l.greeting = .sent → l'.greeting = .sent) :
    (s.setLink p l').Orderly := by
  refine ⟨fun q l hl => ?_, fun q hq => ?_, fun i v arr hcall q hq => ?_⟩
  · rcases update_some_iff.mp hl with ⟨-, rfl⟩ | ⟨-, hl⟩
    · exact hopened
    · exact h.links q l hl
  · by_cases hqp : q = p
    · rw [hqp, links_setLink_self]
      exact ⟨l', rfl⟩
    · rw [links_setLink_of_ne s hqp]
      exact h.peers q hq
  · obtain ⟨l, hl, hg⟩ := h.calls i v arr hcall q hq
    by_cases hqp : q = p
    · rw [hqp] at hl ⊢
      rw [links_setLink_self]
      exact ⟨l', rfl, hsent l hl hg⟩
    · rw [links_setLink_of_ne s hqp]
      exact ⟨l, hl, hg⟩

/-- A call may change when the peers it has still to notify have been sent the status packet. -/
theorem Orderly.setCall (h : s.Orderly) {i : Nat} {c : SetterState}
    (hc : ∀ v arr, c = .notifying v arr → ∀ p, some p ∈ arr →
      ∃ l, s.links p = some l ∧ l.greeting = .sent) : (s.setCall i c).Orderly := by
  refine ⟨h.links, h.peers, fun j v arr hcall => ?_⟩
  rcases update_some_iff.mp hcall with ⟨-, heq⟩ | ⟨-, hcall⟩
  · exact hc v arr heq.symm
  · exact h.calls j v arr hcall

theorem Orderly.begin (h : s.Orderly) (i : Nat) (call : SetterCall) :
    (s.begin C i call).Orderly := by
  cases call with
  | setMinimumPoW val => exact h.setCall (by intro v arr; split <;> simp)
  | setBloomFilter bloom => exact h.setCall (by intro v arr; split <;> simp)
  | subscribe rnd r f =>
    have hfilters : ∀ filters, ({ s with filters } : Links).Orderly :=
      fun filters => ⟨h.links, h.peers, h.calls⟩
    simp only [Links.begin]
    split
    · exact (hfilters _).setCall (by simp)
    · exact (hfilters _).setCall (by simp)

/-- A packet written to a peer that has been sent the status packet. -/
theorem Orderly.write (h : s.Orderly) {p : PeerRef} {l : Link} (hl : s.links p = some l)
    (hg : l.greeting = .sent) (packet : Packet) : (s.write p packet).Orderly := by
  obtain ⟨first, rest, hwritten, hcode⟩ := (h.links p l hl).sent hg
  rw [Links.write, hl]
  refine h.setLink ⟨fun _ => ⟨first, rest ++ [packet], ?_, hcode⟩, fun hne => absurd hg hne⟩
    fun _ _ _ => hg
  show l.written ++ [packet] = _
  rw [hwritten, List.cons_append]

theorem step_orderly (h : GreetedStep C s a t) (hs : s.Orderly) : t.Orderly := by
  obtain ⟨hstep, hgreeted⟩ := h
  cases hstep with
  | @register p remote hnew =>
    have hlinked : (s.setLink p { remote }).Orderly := by
      refine hs.setLink ⟨by simp, fun _ => rfl⟩ fun l hl => ?_
      rw [hnew] at hl
      cases hl
    refine ⟨hlinked.links, fun q hq => ?_, hlinked.calls⟩
    rcases Finset.mem_insert.mp hq with rfl | hq
    · exact ⟨_, links_setLink_self s q _⟩
    · exact hlinked.peers q hq
  | deregister => exact ⟨hs.links, fun q hq => hs.peers q (Finset.mem_of_mem_erase hq), hs.calls⟩
  | @loadPow p l hl hg =>
    refine hs.setLink ⟨by simp, fun _ => (hs.links p l hl).silent (by simp [hg])⟩ ?_
    simp [hl, hg]
  | @loadBloom p l val hl hg =>
    refine hs.setLink ⟨by simp, fun _ => (hs.links p l hl).silent (by simp [hg])⟩ ?_
    simp [hl, hg]
  | @sendStatus p l val bloom hl hg =>
    have hsilent := (hs.links p l hl).silent (by simp [hg])
    have hwritten : (l.write (statusPacket val bloom s.settings.lightClientMode
        !s.disableConfirmations)).written = [statusPacket val bloom s.settings.lightClientMode
        !s.disableConfirmations] := by
      rw [Link.write, hsilent]
      rfl
    exact hs.setLink ⟨fun _ => ⟨_, [], hwritten, rfl⟩, fun hne => absurd rfl hne⟩
      fun _ _ _ => rfl
  | begin hnew => exact hs.begin _ _
  | compare hc =>
    refine hs.setCall fun v arr heq => ?_
    split at heq <;> cases heq
  | load hc => exact hs.setCall (by simp)
  | @store i v hc =>
    have hstored : ({ s with settings := s.settings.change v } : Links).Orderly :=
      ⟨hs.links, hs.peers, hs.calls⟩
    exact hstored.setCall (by simp)
  | count hc => exact hs.setCall (by simp)
  | @getPeers i v n order arr hc ho harr =>
    refine hs.setCall fun v' arr' heq p hp => ?_
    cases heq
    exact hgreeted i order rfl p ((mem_getPeers harr p).mp hp)
  | @notify i v p arr written hc =>
    -- the peers after this one are among those of the call
    have hrest : (s.setCall i (.notifying v arr)).Orderly := by
      refine hs.setCall fun v' arr' heq q hq => ?_
      cases heq
      exact hs.calls i v _ hc q (List.mem_cons_of_mem _ hq)
    cases written with
    | false => exact hrest
    | true =>
      obtain ⟨l, hl, hg⟩ := hs.calls i v _ hc p List.mem_cons_self
      have hwrite := hrest.write hl hg v.packet
      rw [Links.write, show (s.setCall i (.notifying v arr)).links p = some l from hl] at hwrite
      rw [if_pos rfl, Links.write, hl]
      exact hwrite
  | finish hc => exact hs.setCall (by simp)
  | @read p l packet rest hl he hu =>
    refine hs.setLink ⟨(hs.links p l hl).sent, (hs.links p l hl).silent⟩ ?_
    simp [hl]

def start (settings : Settings) : Links := { settings }

theorem run_orderly {settings : Settings} {acts : List LinkAction}
    (run : Run (GreetedStep C) (start settings) acts s) : s.Orderly := by
  refine run.invariant (P := Orderly) ⟨?_, ?_, ?_⟩ fun _ _ _ _ hs hstep => step_orderly hstep hs
  · simp [start]
  · simp [start]
  · simp [start]

/-- A call may fail to notify the peers before one in its slice. -/
theorem exists_skip (pre : List PeerRef) {i : Nat} {v : Change} {rest : List (Option PeerRef)}
    (hc : s.calls i = some (.notifying v (pre.map some ++ rest))) :
    ∃ acts t, Run (GreetedStep C) s acts t ∧ t.links = s.links ∧
      t.calls i = some (.notifying v rest) := by
  induction pre generalizing s with
  | nil => exact ⟨[], s, .nil _, rfl, hc⟩
  | cons q pre ih =>
    have hstep : GreetedStep C s (.notify i false)
        (s.setCall i (.notifying v (pre.map some ++ rest))) := ⟨.notify hc, by simp⟩
    obtain ⟨acts, t, hrun, hlinks, hcall⟩ := ih (calls_setCall_self s i _)
    exact ⟨_, t, .cons hstep hrun, hlinks, hcall⟩

/-- A call that has taken a peer may write to it before anything else is written. -/
theorem exists_write {i count : Nat} {v : Change} {order : List PeerRef}
    {arr : List (Option PeerRef)} {p : PeerRef} {l : Link} (hl : s.links p = some l)
    (harr : getPeers count order = some arr) (hp : p ∈ order) :
    ∃ acts t, Run (GreetedStep C) (s.setCall i (.notifying v arr)) acts t ∧
      t.links p = some (l.write v.packet) := by
  obtain ⟨pre, post, rfl⟩ := List.append_of_mem hp
  have hsplit : ∃ rest, arr = pre.map some ++ some p :: rest := by
    unfold getPeers at harr
    split at harr
    · cases harr
    · cases harr
      exact ⟨_, by rw [List.map_append, List.map_cons, List.append_assoc, List.cons_append]⟩
  obtain ⟨rest, rfl⟩ := hsplit
  obtain ⟨acts, u, hrun, hlinks, hcall⟩ :=
    exists_skip (C := C) pre
      (calls_setCall_self s i (.notifying v (pre.map some ++ some p :: rest)))
  have hlu : u.links p = some l := by rw [hlinks]; exact hl
  have hstep : GreetedStep C u (.notify i true)
      ((u.write p v.packet).setCall i (.notifying v rest)) := ⟨.notify hcall, by simp⟩
  exact ⟨_, _, hrun.append (.cons hstep (.nil _)), links_write_self hlu v.packet⟩

/-- As long as no call has taken a peer before its status packet was written, the first packet on
every connection is the status packet.  And a call that takes its peers keeps it so, whatever
follows under that rule, exactly when all of them have been sent the status packet. -/
theorem status_first_iff (C : Crypto) (settings : Settings) {acts : List LinkAction} {s : Links}
    (run : Run (GreetedStep C) (start settings) acts s) :
    s.StatusFirst ∧ ∀ i order t, LinkStep C s (.getPeers i order) t →
      ((∀ more t', Run (GreetedStep C) t more t' → t'.StatusFirst) ↔ s.Greeted order) := by
  have hs := run_orderly run
  refine ⟨hs.statusFirst, fun i order t hstep => ?_⟩
  constructor
  · intro hall p hp
    cases hstep with
    | @getPeers _ v count _ arr hc ho harr =>
      obtain ⟨l, hl⟩ := hs.peers p (ho.mem.mp hp)
      by_contra hno
      have hwritten : l.written = [] := (hs.links p l hl).silent fun hg => hno ⟨l, hl, hg⟩
      obtain ⟨rest, t', hrun, hwrite⟩ := exists_write hl harr hp
      have hfirst := hall rest t' hrun p _ hwrite v.packet (by simp [Link.write, hwritten])
      exact v.code_packet_ne hfirst
  · intro hgreeted more t' hrest
    have ht : t.Orderly := by
      refine step_orderly ⟨hstep, fun j order' heq => ?_⟩ hs
      cases heq
      exact hgreeted
    exact (hrest.invariant (P := Orderly) ht
      fun _ _ _ _ hs hstep => step_orderly hstep hs).statusFirst

/-- The remote end of a sample connection. -/
def sampleRemote : Remote where
  peer := { id := 1 }
  maxMsgSize := defaultMaxMessageSize

/-- The first step of a call with a number that is not negative. -/
theorem begin_setMinimumPoW {i : Nat} (hnew : s.calls i = none) {val : Float64}
    (h : checkMinimumPoW val = none) :
    LinkStep C s (.begin i (.setMinimumPoW val)) (s.setCall i (.storing (.pow val))) := by
  have hstate : s.begin C i (.setMinimumPoW val) = s.setCall i (.storing (.pow val)) := by
    rw [Links.begin, if_pos h]
  rw [← hstate]
  exact .begin hnew

/-- `SetMinimumPoW` is called while a handshake is under way, and has read the number of peers when
the status packet has been sent. -/
def greetedActions : List LinkAction :=
  [.register 1 sampleRemote, .begin 0 (.setMinimumPoW 0x3FE0000000000000#64), .loadPow 1,
    .store 0, .loadBloom 1, .sendStatus 1, .count 0]

theorem greetedActions_run :
    ∃ s l, Run (GreetedStep sampleCrypto) (start (new {}).settings) greetedActions s ∧
      s.calls 0 = some (.counted (.pow 0x3FE0000000000000#64) 1) ∧ s.peers = {1} ∧
      s.links 1 = some l ∧ l.greeting = .sent ∧
      l.written = [statusPacket defaultMinimumPoW none false true] := by
  have run : Run (GreetedStep sampleCrypto) (start (new {}).settings) greetedActions _ :=
    .cons ⟨.register rfl, by simp⟩ (.cons ⟨begin_setMinimumPoW rfl (by decide +kernel), by simp⟩
      (.cons ⟨.loadPow rfl rfl, by simp⟩ (.cons ⟨.store rfl, by simp⟩
      (.cons ⟨.loadBloom rfl rfl, by simp⟩ (.cons ⟨.sendStatus rfl rfl, by simp⟩
      (.cons ⟨.count rfl, by simp⟩ (.nil _)))))))
  exact ⟨_, _, run, rfl, rfl, rfl, rfl, rfl⟩

/-- The call then takes the greeted peer, and its notification is the second packet on the
connection. -/
theorem status_first_iff_sample :
    ∃ s t t' l, Run (GreetedStep sampleCrypto) (start (new {}).settings) greetedActions s ∧
      LinkStep sampleCrypto s (.getPeers 0 [1]) t ∧ s.Greeted [1] ∧
      Run (GreetedStep sampleCrypto) t [.notify 0 true] t' ∧ s.StatusFirst ∧ t'.StatusFirst ∧
      t'.links 1 = some l ∧ l.written = [statusPacket defaultMinimumPoW none false true,
        (Change.pow 0x3FE0000000000000#64).packet] := by
  obtain ⟨s, l, run, hcall, hpeers, hlink, hsent, hwritten⟩ := greetedActions_run
  obtain ⟨hfirst, hiff⟩ := status_first_iff sampleCrypto _ run
  have horder : IsOrder s.peers [1] := by
    rw [hpeers]
    decide
  have hgreeted : s.Greeted [1] := by
    intro p hp
    rw [List.mem_singleton] at hp
    exact ⟨l, hp ▸ hlink, hsent⟩
  have htake : LinkStep sampleCrypto s (.getPeers 0 [1])
      (s.setCall 0 (.notifying (.pow 0x3FE0000000000000#64) [some 1])) :=
    .getPeers hcall horder rfl
  have hlink' : (s.setCall 0 (.notifying (.pow 0x3FE0000000000000#64) [some 1])).links 1 =
      some l := hlink
  have hstep : GreetedStep sampleCrypto
      (s.setCall 0 (.notifying (.pow 0x3FE0000000000000#64) [some 1])) (.notify 0 true) _ :=
    ⟨.notify (calls_setCall_self s 0 _), by simp⟩
  have hnotify := Run.cons hstep (.nil _)
  refine ⟨s, _, _, l.write (Change.pow 0x3FE0000000000000#64).packet, run, htake, hgreeted, hnotify,
    hfirst, (hiff 0 [1] _ htake).mpr hgreeted _ _ hnotify, ?_, ?_⟩
  · exact links_write_self hlink' _
  · rw [Link.write, hwritten]
    rfl

/-- `SetMinimumPoW` takes a peer that has just been registered and notifies it before the handshake
has sent anything; the handshake of the remote then fails. -/
theorem notified_before_status :
    ∃ s l packet, Run (LinkStep sampleCrypto) (start (new {}).settings)
        [.begin 0 (.setMinimumPoW 0x3FE0000000000000#64), .store 0, .register 1 sampleRemote,
          .count 0, .getPeers 0 [1], .notify 0 true] s ∧
      s.links 1 = some l ∧ l.written = [packet] ∧ packet.code = powRequirementCode ∧
      sampleRemote.peer.checkStatus packet = some (newError
        ("peer [0000000000000000000000000000000000000000000000000000000000000001] " ++
          "sent packet 2 before status packet")) ∧ ¬s.StatusFirst := by
  have run : Run (LinkStep sampleCrypto) (start (new {}).settings)
      [.begin 0 (.setMinimumPoW 0x3FE0000000000000#64), .store 0, .register 1 sampleRemote,
        .count 0, .getPeers 0 [1], .notify 0 true] _ :=
    .cons (begin_setMinimumPoW rfl (by decide +kernel)) (.cons (.store rfl) (.cons (.register rfl)
      (.cons (.count rfl) (.cons (.getPeers rfl (by decide) rfl) (.cons (.notify rfl) (.nil _))))))
  refine ⟨_, _, _, run, rfl, rfl, rfl, by decide +kernel, fun hfirst => ?_⟩
  exact (Change.pow 0x3FE0000000000000#64).code_packet_ne (hfirst 1 _ rfl _ rfl)

end Links

end Whisperv6
