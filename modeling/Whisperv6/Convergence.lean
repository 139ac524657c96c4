import Whisperv6.Links

/-! What the remote ends of established connections hold for a node while its settings change.  A
call stores its value first and notifies the peers afterwards, without a lock across the two, so of
two calls the one that stores last need not be the one that notifies last.  The remotes end with the
settings of the node when no peer is left with a value that was replaced in the meantime. -/

namespace Whisperv6

open ProofKit

/-! ### Agreement on a setting -/

inductive Kind
  | pow
  | bloom
  deriving DecidableEq

def Change.kind : Change → Kind
  | .pow _ => .pow
  | .bloom _ => .bloom

/-- The value of a change is the present one. -/
def Change.IsCurrent (s : Settings) : Change → Prop
  | .pow val => s.getMinPow = val
  | .bloom filter => s.bloomFilter = some filter

/-- A remote holds the present value of a setting of the node; of a node without a bloom filter it
holds that it is a full node. -/
def Kind.Agrees (s : Settings) (p : Peer) : Kind → Prop
  | .pow => p.powRequirement = s.getMinPow
  | .bloom => p.fullNode = isFullNode s.bloomFilter ∧
      ∀ filter, s.bloomFilter = some filter → p.bloomFilter = filter

section Agreement

variable {s : Settings} {p : Peer} {v w : Change} {k : Kind}

theorem Change.isCurrent_change (s : Settings) (v : Change) : v.IsCurrent (s.change v) := by
  cases v <;> rfl

/-- What a change leaves of the other setting: whether a value of it is the present one, whether a
remote agrees with the changed node on it, and whether a remote that has read the change does. -/
structure Kind.Untouched (s : Settings) (v : Change) (k : Kind) : Prop where
  isCurrent : ∀ w : Change, w.kind = k → (w.IsCurrent (s.change v) ↔ w.IsCurrent s)
  change : ∀ p, k.Agrees (s.change v) p ↔ k.Agrees s p
  apply : ∀ p, k.Agrees s (v.apply p) ↔ k.Agrees s p

theorem Kind.untouched (s : Settings) (h : k ≠ v.kind) : k.Untouched s v := by
  cases v with
  | pow val =>
    cases k with
    | pow => exact absurd rfl h
    | bloom =>
      refine ⟨fun w hw => ?_, fun p => Iff.rfl, fun p => Iff.rfl⟩
      cases w with
      | pow => cases hw
      | bloom => rfl
  | bloom filter =>
    cases k with
    | pow =>
      refine ⟨fun w hw => ?_, fun p => Iff.rfl, fun p => Iff.rfl⟩
      cases w with
      | pow => rfl
      | bloom => cases hw
    | bloom => exact absurd rfl h

/-- A remote that has read a change agrees exactly when the change is the present one. -/
theorem Change.agrees_apply (hset : v.kind = .bloom → s.bloomFilter ≠ none) :
    v.kind.Agrees s (v.apply p) ↔ v.IsCurrent s := by
  cases v with
  | pow val => exact eq_comm
  | bloom filter =>
    constructor
    · rintro ⟨-, hfilter⟩
      cases hb : s.bloomFilter with
      | none => exact absurd hb (hset rfl)
      | some b =>
        have hsame : filter = b := hfilter b hb
        rw [IsCurrent, hb, hsame]
    · intro hcurrent
      have hcurrent : s.bloomFilter = some filter := hcurrent
      refine ⟨?_, fun b hb => ?_⟩
      · rw [hcurrent]
        rfl
      · rw [hcurrent, Option.some.injEq] at hb
        exact hb

end Agreement

/-! ### What is under way -/

/-- The remote after it has read all packets on the connection. -/
def Link.final (l : Link) : Remote := l.unread.foldl Remote.handle l.remote

/-- The call has stored the change and has still to notify the peer. -/
def SetterState.Owes (p : PeerRef) (v : Change) : SetterState → Prop
  | .stored w => w = v
  | .counted w _ => w = v
  | .notifying w arr => w = v ∧ some p ∈ arr
  | _ => False

namespace Links

/-- Some call has stored the present value of the setting `k` and has still to notify the peer. -/
def Underway (s : Links) (k : Kind) (p : PeerRef) : Prop :=
  ∃ i c v, s.calls i = some c ∧ c.Owes p v ∧ v.kind = k ∧ v.IsCurrent s.settings

/-- The remote will hold the present value of the setting, or a call is to tell it. -/
def Settling (s : Links) (k : Kind) (p : PeerRef) : Prop :=
  (∃ l, s.links p = some l ∧ k.Agrees s.settings l.final.peer) ∨ s.Underway k p

/-- The next notification of the call `i` carries the present value, or another call has still to
tell the peer the present value. -/
def InOrder (s : Links) (i : Nat) : Prop :=
  ∀ v p arr, s.calls i = some (.notifying v (some p :: arr)) →
    v.IsCurrent s.settings ∨ ∃ j c w, j ≠ i ∧ s.calls j = some c ∧ c.Owes p w ∧ w.kind = v.kind ∧
      w.IsCurrent s.settings

end Links

/-- The steps of calls on a node whose connections are established and reliable, and with numbers
for the proof of work: no peer comes or goes, and every notification is written. -/
def LinkAction.Reliable : LinkAction → Prop
  | .register _ _ => False
  | .deregister _ => False
  | .loadPow _ => False
  | .loadBloom _ => False
  | .sendStatus _ => False
  | .begin _ (.setMinimumPoW val) => val.isInf = false ∧ val.isNaN = false
  | .notify _ written => written = true
  | _ => True

def ReliableStep (C : Crypto) (s : Links) (a : LinkAction) (t : Links) : Prop :=
  LinkStep C s a t ∧ a.Reliable

/-- A reliable step, where no notification leaves a peer with a value that was replaced. -/
def OrderlyStep (C : Crypto) (s : Links) (a : LinkAction) (t : Links) : Prop :=
  ReliableStep C s a t ∧ ∀ i written, a = .notify i written → s.InOrder i

/-! ### Sound values -/

/-- The change of a call, from the moment it is about to be stored. -/
def SetterState.change? : SetterState → Option Change
  | .storing v => some v
  | .stored v => some v
  | .counted v _ => some v
  | .notifying v _ => some v
  | _ => none

/-- The peers that a call has still to visit, once it has taken them. -/
def SetterState.targets : SetterState → List (Option PeerRef)
  | .notifying _ arr => arr
  | _ => []

/-- A connection that is established, on which the remote accepts all packets under way. -/
structure Link.Open (l : Link) : Prop where
  established : l.established = true
  returned : l.remote.returned = none
  size : 66 ≤ l.remote.maxMsgSize
  unread : ∀ packet ∈ l.unread, ∃ v : Change, v.Sound ∧ packet = v.packet

/-- What a call holds: a change that remotes accept, a bloom filter only once the node has one, and
registered peers. -/
structure Links.Fits (s : Links) (c : SetterState) : Prop where
  sound : ∀ v, c.change? = some v → v.Sound
  bloom : ∀ p v, c.Owes p v → v.kind = .bloom → s.settings.bloomFilter ≠ none
  targets : ∀ p, some p ∈ c.targets → p ∈ s.peers

structure Links.Healthy (s : Links) : Prop where
  links : ∀ p ∈ s.peers, ∃ l, s.links p = some l ∧ l.Open
  calls : ∀ i c, s.calls i = some c → s.Fits c

section Open

variable {l : Link} {v : Change}

theorem Link.Open.write (h : l.Open) (hv : v.Sound) : (l.write v.packet).Open := by
  refine ⟨h.established, h.returned, h.size, fun packet hp => ?_⟩
  rcases List.mem_append.mp hp with hp | hp
  · exact h.unread packet hp
  · exact ⟨v, hv, List.mem_singleton.mp hp⟩

theorem Link.Open.read (h : l.Open) {packet : Packet} {rest : List Packet}
    (hu : l.unread = packet :: rest) :
    Link.Open { l with unread := rest, remote := l.remote.handle packet } := by
  obtain ⟨v, hv, rfl⟩ := h.unread packet (by simp [hu])
  have hhandle := Remote.handle_packet hv h.returned h.size
  refine ⟨h.established, ?_, ?_, fun q hq => h.unread q (by rw [hu]; exact .tail _ hq)⟩
  · rw [hhandle]
    exact h.returned
  · rw [hhandle]
    exact h.size

/-- The remote keeps its loop while it reads what is under way. -/
theorem Remote.foldl_handle {packets : List Packet} {r : Remote}
    (hpackets : ∀ packet ∈ packets, ∃ v : Change, v.Sound ∧ packet = v.packet)
    (hopen : r.returned = none) (hsize : 66 ≤ r.maxMsgSize) :
    (packets.foldl Remote.handle r).returned = none ∧
      66 ≤ (packets.foldl Remote.handle r).maxMsgSize := by
  induction packets generalizing r with
  | nil => exact ⟨hopen, hsize⟩
  | cons packet packets ih =>
    obtain ⟨v, hv, rfl⟩ := hpackets packet List.mem_cons_self
    have hrest : ∀ q ∈ packets, ∃ v : Change, v.Sound ∧ q = v.packet :=
      fun q hq => hpackets q (List.mem_cons_of_mem _ hq)
    rw [List.foldl_cons, Remote.handle_packet hv hopen hsize]
    exact ih hrest hopen hsize

/-- A change that is written is the last that the remote reads. -/
theorem Link.Open.final_write (h : l.Open) (hv : v.Sound) :
    (l.write v.packet).final.peer = v.apply l.final.peer := by
  obtain ⟨hopen, hsize⟩ := Remote.foldl_handle h.unread h.returned h.size
  show ((l.unread ++ [v.packet]).foldl Remote.handle l.remote).peer = _
  rw [List.foldl_append]
  show ((l.unread.foldl Remote.handle l.remote).handle v.packet).peer = _
  rw [Remote.handle_packet hv hopen hsize]
  rfl

theorem Link.final_read {packet : Packet} {rest : List Packet} (hu : l.unread = packet :: rest) :
    Link.final { l with unread := rest, remote := l.remote.handle packet } = l.final := by
  show _ = l.unread.foldl Remote.handle l.remote
  rw [hu]
  rfl

end Open

theorem Settings.bloomFilter_change {s : Settings} {v : Change}
    (h : v.kind = .bloom ∨ s.bloomFilter ≠ none) : (s.change v).bloomFilter ≠ none := by
  cases v with
  | pow val => exact h.resolve_left (by simp [Change.kind])
  | bloom filter => simp [Settings.change]

namespace Links

variable {C : Crypto} {s t : Links} {a : LinkAction}

/-- What a call holds fits as long as the peers stay, and the node keeps having a bloom filter. -/
theorem Fits.congr {c : SetterState} (h : s.Fits c)
    (hbloom : s.settings.bloomFilter ≠ none → t.settings.bloomFilter ≠ none)
    (hpeers : t.peers = s.peers) : t.Fits c := by
  refine ⟨h.sound, fun p v howes hv => hbloom (h.bloom p v howes hv), fun p hp => ?_⟩
  rw [hpeers]
  exact h.targets p hp

theorem Healthy.setLink (h : s.Healthy) {p : PeerRef} {l : Link} (hopen : p ∈ s.peers → l.Open) :
    (s.setLink p l).Healthy := by
  refine ⟨fun q hq => ?_, fun i c hc => (h.calls i c hc).congr id rfl⟩
  by_cases hqp : q = p
  · rw [hqp, links_setLink_self]
    exact ⟨l, rfl, hopen (hqp ▸ hq)⟩
  · rw [links_setLink_of_ne s hqp]
    exact h.links q hq

theorem Healthy.setCall (h : s.Healthy) {i : Nat} {c : SetterState} (hc : s.Fits c) :
    (s.setCall i c).Healthy := by
  refine ⟨h.links, fun j c' hcall => ?_⟩
  rcases update_some_iff.mp hcall with ⟨-, rfl⟩ | ⟨-, hcall⟩
  · exact hc.congr id rfl
  · exact (h.calls j c' hcall).congr id rfl

/-- A call that has no change yet, or no more. -/
theorem Fits.idle {c : SetterState} (h : c.change? = none) : s.Fits c := by
  cases c with
  | installed | mismatched | returned => exact ⟨nofun, nofun, nofun⟩
  | storing | stored | counted | notifying => cases h

theorem Fits.storing {v : Change} (h : v.Sound) : s.Fits (.storing v) := by
  refine ⟨fun w hw => ?_, nofun, nofun⟩
  cases hw
  exact h

theorem Healthy.begin (h : s.Healthy) {i : Nat} {call : SetterCall}
    (hreliable : (LinkAction.begin i call).Reliable) : (s.begin C i call).Healthy := by
  cases call with
  | setMinimumPoW val =>
    obtain ⟨hinf, hnan⟩ : val.isInf = false ∧ val.isNaN = false := hreliable
    rw [Links.begin]
    split
    case isTrue hcheck =>
      have hsound : (Change.pow val).Sound := by
        simp only [checkMinimumPoW] at hcheck
        simp only [Change.Sound, invalidPow, hinf, hnan]
        simpa using hcheck
      exact h.setCall (.storing hsound)
    case isFalse => exact h.setCall (.idle rfl)
  | setBloomFilter bloom =>
    rw [Links.begin]
    split
    case isTrue hcheck =>
      have hsound : (Change.bloom bloom).Sound := checkBloomFilter_none.mp hcheck
      exact h.setCall (.storing hsound)
    case isFalse => exact h.setCall (.idle rfl)
  | subscribe rnd r f =>
    have hfilters : ∀ filters, ({ s with filters } : Links).Healthy :=
      fun filters => ⟨h.links, fun j c hc => (h.calls j c hc).congr id rfl⟩
    simp only [Links.begin]
    split
    · exact (hfilters _).setCall (.idle rfl)
    · exact (hfilters _).setCall (.idle rfl)

theorem step_healthy (h : ReliableStep C s a t) (hs : s.Healthy) : t.Healthy := by
  obtain ⟨hstep, hreliable⟩ := h
  cases hstep with
  | register | deregister | loadPow | loadBloom | sendStatus => exact hreliable.elim
  | begin hnew => exact hs.begin hreliable
  | compare hc =>
    refine hs.setCall (.idle ?_)
    split <;> rfl
  | @load i f hc =>
    have hsound : (Change.bloom (addBloom (s.settings.bloomFilter.getD []) f.aggregate)).Sound :=
      length_addBloom _ _
    exact hs.setCall (.storing hsound)
  | @store i v hc =>
    have hstored : ({ s with settings := s.settings.change v } : Links).Healthy := by
      refine ⟨hs.links, fun j c hcall => (hs.calls j c hcall).congr (fun hset => ?_) rfl⟩
      exact Settings.bloomFilter_change (.inr hset)
    refine hstored.setCall ⟨(hs.calls i _ hc).sound, fun p w howes hw => ?_, nofun⟩
    obtain rfl : v = w := howes
    exact Settings.bloomFilter_change (.inl hw)
  | @count i v hc => exact hs.setCall ⟨(hs.calls i _ hc).sound, (hs.calls i _ hc).bloom, nofun⟩
  | @getPeers i v n order arr hc ho harr =>
    have hold := hs.calls i _ hc
    refine hs.setCall ⟨hold.sound, fun p w howes => hold.bloom p w howes.1, fun p hp => ?_⟩
    exact ho.mem.mp ((mem_getPeers harr p).mp hp)
  | @notify i v p arr written hc =>
    obtain rfl : written = true := hreliable
    have hold := hs.calls i _ hc
    obtain ⟨l, hl, hopen⟩ := hs.links p (hold.targets p List.mem_cons_self)
    have hwritten : (s.setLink p (l.write v.packet)).Healthy :=
      hs.setLink fun _ => hopen.write (hold.sound v rfl)
    rw [if_pos rfl, Links.write, hl]
    exact hwritten.setCall ⟨hold.sound,
      fun q w howes => hold.bloom q w ⟨howes.1, List.mem_cons_of_mem _ howes.2⟩,
      fun q hq => hold.targets q (List.mem_cons_of_mem _ hq)⟩
  | finish hc => exact hs.setCall (.idle rfl)
  | @read p l packet rest hl he hu =>
    refine hs.setLink fun hp => ?_
    obtain ⟨l', hl', hopen⟩ := hs.links p hp
    rw [hl, Option.some.injEq] at hl'
    rw [← hl'] at hopen
    exact hopen.read hu

/-! ### Notifications and stores -/

section Settling

variable {k : Kind} {p q : PeerRef}

/-- A call that goes on owing a peer the same changes of a setting. -/
theorem settling_setCall {i : Nat} {c : SetterState}
    (howes : ∀ v, v.kind = k → (c.Owes p v ↔ ∃ c', s.calls i = some c' ∧ c'.Owes p v)) :
    (s.setCall i c).Settling k p ↔ s.Settling k p := by
  refine or_congr Iff.rfl ⟨?_, ?_⟩
  · rintro ⟨j, c', v, hcall, hv, hkind, hcurrent⟩
    rcases update_some_iff.mp hcall with ⟨-, rfl⟩ | ⟨-, hcall⟩
    · obtain ⟨c'', hcall', hv⟩ := (howes v hkind).mp hv
      exact ⟨i, c'', v, hcall', hv, hkind, hcurrent⟩
    · exact ⟨j, c', v, hcall, hv, hkind, hcurrent⟩
  · rintro ⟨j, c', v, hcall, hv, hkind, hcurrent⟩
    by_cases hji : j = i
    · rw [hji] at hcall
      have hv' := (howes v hkind).mpr ⟨c', hcall, hv⟩
      exact ⟨i, c, v, calls_setCall_self s i c, hv', hkind, hcurrent⟩
    · exact ⟨j, c', v, (calls_setCall_of_ne s hji c).trans hcall, hv, hkind, hcurrent⟩

/-- The same for a call that is at a known state before. -/
theorem settling_advance {i : Nat} {c c' : SetterState} (hc : s.calls i = some c)
    (howes : ∀ v, v.kind = k → (c'.Owes p v ↔ c.Owes p v)) :
    (s.setCall i c').Settling k p ↔ s.Settling k p := by
  refine settling_setCall fun v hv => ?_
  rw [howes v hv, hc]
  simp

theorem settling_setLink {l l' : Link} (hl : s.links p = some l)
    (hagrees : q = p → (k.Agrees s.settings l'.final.peer ↔ k.Agrees s.settings l.final.peer)) :
    (s.setLink p l').Settling k q ↔ s.Settling k q := by
  refine or_congr ?_ Iff.rfl
  by_cases hqp : q = p
  · rw [hqp, links_setLink_self, hl]
    constructor
    · rintro ⟨_, ⟨⟩, h⟩
      exact ⟨l, rfl, (hagrees hqp).mp h⟩
    · rintro ⟨_, ⟨⟩, h⟩
      exact ⟨l', rfl, (hagrees hqp).mpr h⟩
  · rw [links_setLink_of_ne s hqp]
    rfl

theorem settling_begin {i : Nat} (hnew : s.calls i = none) (call : SetterCall) :
    (s.begin C i call).Settling k p ↔ s.Settling k p := by
  have hidle : ∀ filters c, (∀ v, ¬c.Owes p v) →
      ((({ s with filters } : Links).setCall i c).Settling k p ↔ s.Settling k p) := by
    intro filters c hc
    refine settling_setCall fun v _ => ⟨fun hv => absurd hv (hc v), ?_⟩
    rintro ⟨c', hcall, -⟩
    rw [show s.calls i = some c' from hcall] at hnew
    cases hnew
  cases call with
  | setMinimumPoW val =>
    refine hidle s.filters _ fun v => ?_
    split <;> exact id
  | setBloomFilter bloom =>
    refine hidle s.filters _ fun v => ?_
    split <;> exact id
  | subscribe rnd r f =>
    simp only [Links.begin]
    split
    · exact hidle _ _ fun v => id
    · exact hidle _ _ fun v => id

/-- A value that is stored is to be told to every peer; the other setting keeps what it has. -/
theorem Settling.store (h : s.Settling k p) {i : Nat} {v : Change}
    (hc : s.calls i = some (.storing v)) :
    ({ s with settings := s.settings.change v }.setCall i (.stored v)).Settling k p := by
  by_cases hk : k = v.kind
  · exact .inr ⟨i, _, v, calls_setCall_self _ i _, rfl, hk.symm, v.isCurrent_change s.settings⟩
  · have howes : ∀ w, w.kind = k → ((SetterState.stored v).Owes p w ↔
        (SetterState.storing v).Owes p w) := by
      intro w hw
      constructor
      · intro hv
        obtain rfl : v = w := hv
        exact absurd hw.symm hk
      · exact False.elim
    have hcall : ({ s with settings := s.settings.change v } : Links).calls i =
        some (.storing v) := hc
    refine (settling_advance hcall howes).mpr ?_
    rcases h with ⟨l, hl, hagrees⟩ | ⟨j, c, w, hcall, hw, hkind, hcurrent⟩
    · exact .inl ⟨l, hl, ((Kind.untouched s.settings hk).change _).mpr hagrees⟩
    · exact .inr ⟨j, c, w, hcall, hw, hkind,
        ((Kind.untouched s.settings hk).isCurrent w hkind).mpr hcurrent⟩

/-- A notification decides whether the peer it goes to settles. -/
theorem settling_notify_self (hs : s.Healthy) {i : Nat} {v : Change} {arr : List (Option PeerRef)}
    (hc : s.calls i = some (.notifying v (some p :: arr))) :
    ((s.write p v.packet).setCall i (.notifying v arr)).Settling v.kind p ↔ s.InOrder i := by
  have hfits := hs.calls i _ hc
  obtain ⟨l, hl, hopen⟩ := hs.links p (hfits.targets p List.mem_cons_self)
  have hfinal := hopen.final_write (hfits.sound v rfl)
  have hset := hfits.bloom p v ⟨rfl, List.mem_cons_self⟩
  have hagrees := Change.agrees_apply (p := l.final.peer) hset
  rw [Links.write, hl]
  constructor
  · intro h v' p' arr' hc'
    rw [hc] at hc'
    cases hc'
    rcases h with ⟨l', hl', hagree⟩ | ⟨j, c, w, hcall, hw, hkind, hcurrent⟩
    · have hsame : some (l.write v.packet) = some l' := (links_setLink_self s p _).symm.trans hl'
      cases hsame
      rw [hfinal] at hagree
      exact .inl (hagrees.mp hagree)
    · rcases update_some_iff.mp hcall with ⟨-, rfl⟩ | ⟨hji, hcall⟩
      · obtain rfl : v = w := hw.1
        exact .inl hcurrent
      · exact .inr ⟨j, c, w, hji, hcall, hw, hkind, hcurrent⟩
  · intro h
    rcases h v p arr hc with hcurrent | ⟨j, c, w, hji, hcall, hw, hkind, hcurrent⟩
    · refine .inl ⟨_, links_setLink_self s p _, ?_⟩
      rw [hfinal]
      exact hagrees.mpr hcurrent
    · exact .inr ⟨j, c, w, (calls_setCall_of_ne _ hji _).trans hcall, hw, hkind, hcurrent⟩

/-- It plays no part for the other peers and for the other setting. -/
theorem settling_notify_of_ne (hs : s.Healthy) {i : Nat} {v : Change}
    {arr : List (Option PeerRef)} (hc : s.calls i = some (.notifying v (some p :: arr)))
    (hne : q = p → k ≠ v.kind) :
    ((s.write p v.packet).setCall i (.notifying v arr)).Settling k q ↔ s.Settling k q := by
  have hfits := hs.calls i _ hc
  obtain ⟨l, hl, hopen⟩ := hs.links p (hfits.targets p List.mem_cons_self)
  have howes : ∀ w, w.kind = k → ((SetterState.notifying v arr).Owes q w ↔
      (SetterState.notifying v (some p :: arr)).Owes q w) := by
    intro w hw
    refine and_congr_right fun hvw => ⟨List.mem_cons_of_mem _, fun hmem => ?_⟩
    rcases List.mem_cons.mp hmem with hqp | hmem
    · rw [Option.some.injEq] at hqp
      exact absurd (hw.symm.trans (congrArg Change.kind hvw.symm)) (hne hqp)
    · exact hmem
  rw [Links.write, hl]
  have hcall : (s.setLink p (l.write v.packet)).calls i = some (.notifying v (some p :: arr)) := hc
  refine (settling_advance hcall howes).trans (settling_setLink hl fun hqp => ?_)
  rw [hopen.final_write (hfits.sound v rfl)]
  exact (Kind.untouched s.settings (hne hqp)).apply _

end Settling

/-- The steps that are neither a store nor a notification. -/
theorem settling_of_quiet {k : Kind} {p : PeerRef} (h : ReliableStep C s a t) (hp : p ∈ s.peers)
    (hstore : ∀ i, a ≠ .store i) (hnotify : ∀ i written, a ≠ .notify i written) :
    t.Settling k p ↔ s.Settling k p := by
  obtain ⟨hstep, hreliable⟩ := h
  cases hstep with
  | register | deregister | loadPow | loadBloom | sendStatus => exact hreliable.elim
  | begin hnew => exact settling_begin hnew _
  | compare hc =>
    refine settling_advance hc fun v _ => ?_
    split <;> exact Iff.rfl
  | load hc => exact settling_advance hc fun v _ => Iff.rfl
  | store hc => exact absurd rfl (hstore _)
  | count hc => exact settling_advance hc fun v _ => Iff.rfl
  | getPeers hc ho harr =>
    have hmem := (mem_getPeers harr p).mpr (ho.mem.mpr hp)
    exact settling_advance hc fun v _ => and_iff_left hmem
  | notify hc => exact absurd rfl (hnotify _ _)
  | finish hc =>
    refine settling_advance hc fun v _ => ⟨False.elim, ?_⟩
    rintro ⟨-, hmem⟩
    cases hmem
  | read hl he hu =>
    refine settling_setLink hl fun _ => ?_
    rw [Link.final_read hu]

theorem peers_eq_of_step (h : ReliableStep C s a t) : t.peers = s.peers := by
  obtain ⟨hstep, hreliable⟩ := h
  cases hstep with
  | register | deregister | loadPow | loadBloom | sendStatus => exact hreliable.elim
  | @begin i call hnew =>
    cases call with
    | setMinimumPoW | setBloomFilter => rfl
    | subscribe rnd r f =>
      simp only [Links.begin]
      split <;> rfl
  | @notify i v p arr written hc =>
    cases written with
    | false => rfl
    | true =>
      show (s.write p v.packet).peers = s.peers
      rw [Links.write]
      split <;> rfl
  | compare | load | store | count | getPeers | finish | read => rfl

/-! ### Runs -/

/-- What orderly steps keep. -/
structure Settled (s : Links) : Prop where
  healthy : s.Healthy
  settling : ∀ k, ∀ p ∈ s.peers, s.Settling k p

theorem step_settled (h : OrderlyStep C s a t) (hs : s.Settled) : t.Settled := by
  obtain ⟨hreliable, horder⟩ := h
  refine ⟨step_healthy hreliable hs.healthy, fun k p hp => ?_⟩
  rw [peers_eq_of_step hreliable] at hp
  have hold := hs.settling k p hp
  cases a with
  | store i =>
    cases hreliable.1 with
    | store hc => exact hold.store hc
  | notify i written =>
    obtain rfl : written = true := hreliable.2
    cases hreliable.1 with
    | @notify _ v q arr _ hc =>
      by_cases hself : p = q ∧ k = v.kind
      · obtain ⟨rfl, rfl⟩ := hself
        exact (settling_notify_self hs.healthy hc).mpr (horder i true rfl)
      · refine (settling_notify_of_ne hs.healthy hc fun hpq hk => ?_).mpr hold
        exact hself ⟨hpq, hk⟩
  | _ => exact (settling_of_quiet hreliable hp nofun nofun).mpr hold

/-- No reliable step but a store makes a peer settle. -/
theorem Settling.of_step {k : Kind} {p : PeerRef} (ht : t.Settling k p)
    (h : ReliableStep C s a t) (hs : s.Healthy) (hp : p ∈ s.peers) (hstore : ∀ i, a ≠ .store i) :
    s.Settling k p := by
  cases a with
  | store i => exact absurd rfl (hstore i)
  | notify i written =>
    obtain rfl : written = true := h.2
    cases h.1 with
    | @notify _ v q arr _ hc =>
      by_cases hself : p = q ∧ k = v.kind
      · obtain ⟨rfl, rfl⟩ := hself
        -- the call itself, or the one that the order leaves to a later notification
        rcases (settling_notify_self hs hc).mp ht v p arr hc with
          hcurrent | ⟨j, c, w, -, hcall, hw, hkind, hcurrent⟩
        · exact .inr ⟨i, _, v, hc, ⟨rfl, List.mem_cons_self⟩, rfl, hcurrent⟩
        · exact .inr ⟨j, c, w, hcall, hw, hkind, hcurrent⟩
      · exact (settling_notify_of_ne hs hc fun hpq hk => hself ⟨hpq, hk⟩).mp ht
  | _ => exact (settling_of_quiet h hp nofun nofun).mp ht

/-- The connections are established, the remotes hold the settings of the node, and no call is
made. -/
structure Established (s : Links) : Prop where
  calls : ∀ i, s.calls i = none
  links : ∀ p ∈ s.peers, ∃ l, s.links p = some l ∧ l.established = true ∧ l.unread = [] ∧
    l.remote.returned = none ∧ 66 ≤ l.remote.maxMsgSize ∧
    ∀ k : Kind, k.Agrees s.settings l.remote.peer

/-- All calls have returned, and the remotes have processed all packets. -/
def Quiet (s : Links) : Prop :=
  (∀ i c, s.calls i = some c → c = .returned) ∧
    ∀ p ∈ s.peers, ∀ l, s.links p = some l → l.unread = []

/-- Every remote peer holds the settings of the node. -/
def Converged (s : Links) : Prop :=
  ∀ p ∈ s.peers, ∃ l, s.links p = some l ∧ ∀ k : Kind, k.Agrees s.settings l.remote.peer

theorem Established.settled (h : s.Established) : s.Settled := by
  refine ⟨⟨fun p hp => ?_, fun i c hc => ?_⟩, fun k p hp => ?_⟩
  · obtain ⟨l, hl, hest, hunread, hret, hsize, -⟩ := h.links p hp
    refine ⟨l, hl, hest, hret, hsize, fun packet hpacket => ?_⟩
    rw [hunread] at hpacket
    cases hpacket
  · rw [h.calls i] at hc
    cases hc
  · obtain ⟨l, hl, -, hunread, -, -, hagrees⟩ := h.links p hp
    refine .inl ⟨l, hl, ?_⟩
    rw [Link.final, hunread]
    exact hagrees k

/-- When nothing is under way, a peer settles exactly when its remote agrees. -/
theorem Quiet.settling_iff (h : s.Quiet) {k : Kind} {p : PeerRef} (hp : p ∈ s.peers) :
    s.Settling k p ↔ ∃ l, s.links p = some l ∧ k.Agrees s.settings l.remote.peer := by
  have hfinal : ∀ l, s.links p = some l → l.final = l.remote := by
    intro l hl
    rw [Link.final, h.2 p hp l hl]
    rfl
  constructor
  · rintro (⟨l, hl, hagrees⟩ | ⟨i, c, v, hcall, hv, -, -⟩)
    · rw [hfinal l hl] at hagrees
      exact ⟨l, hl, hagrees⟩
    · rw [h.1 i c hcall] at hv
      exact hv.elim
  · rintro ⟨l, hl, hagrees⟩
    rw [← hfinal l hl] at hagrees
    exact .inl ⟨l, hl, hagrees⟩

theorem Quiet.converged_iff (h : s.Quiet) :
    s.Converged ↔ ∀ k, ∀ p ∈ s.peers, s.Settling k p := by
  constructor
  · intro hall k p hp
    obtain ⟨l, hl, hagrees⟩ := hall p hp
    exact (h.settling_iff hp).mpr ⟨l, hl, hagrees k⟩
  · intro hall p hp
    obtain ⟨l, hl, hpow⟩ := (h.settling_iff hp).mp (hall .pow p hp)
    obtain ⟨l', hl', hbloom⟩ := (h.settling_iff hp).mp (hall .bloom p hp)
    rw [hl, Option.some.injEq] at hl'
    rw [← hl'] at hbloom
    refine ⟨l, hl, fun k => ?_⟩
    cases k with
    | pow => exact hpow
    | bloom => exact hbloom

theorem run_settled {s₀ : Links} (h₀ : s₀.Established) {acts : List LinkAction}
    (run : Run (OrderlyStep C) s₀ acts s) : s.Settled :=
  run.invariant (P := Settled) h₀.settled fun _ _ _ _ hs hstep => step_settled hstep hs

/-- A peer that has got a replaced value last does not settle before another value is stored. -/
theorem run_not_settling {k : Kind} {p : PeerRef} {more : List LinkAction}
    (run : Run (ReliableStep C) s more t) (hstore : ∀ j, .store j ∉ more) (hs : s.Healthy)
    (hp : p ∈ s.peers) (hno : ¬s.Settling k p) : p ∈ t.peers ∧ ¬t.Settling k p := by
  have hinv := run.invariant (P := fun u => u.Healthy ∧ p ∈ u.peers ∧ ¬u.Settling k p)
    ⟨hs, hp, hno⟩ fun u a u' ha hu hstep => by
      obtain ⟨hhealthy, hmem, hnot⟩ := hu
      refine ⟨step_healthy hstep hhealthy, ?_, fun hsettling => hnot ?_⟩
      · rw [peers_eq_of_step hstep]
        exact hmem
      · refine hsettling.of_step hstep hhealthy hmem fun j heq => ?_
        rw [heq] at ha
        exact hstore j ha
  exact hinv.2

/-- With connections that are established and reliable, in every interleaving of calls whose
notifications are in order, the remotes hold the settings of the node once all calls have returned
and all packets are processed.  And a notification that is out of order leaves some peer with a
value that was replaced, whatever follows, until another value is stored. -/
theorem converge_in_order (C : Crypto) {s₀ s : Links} (h₀ : s₀.Established)
    {acts : List LinkAction} (run : Run (OrderlyStep C) s₀ acts s) :
    (s.Quiet → s.Converged) ∧
      ∀ i t, LinkStep C s (.notify i true) t → ¬s.InOrder i → ∀ more t',
        Run (ReliableStep C) t more t' → (∀ j, .store j ∉ more) → t'.Quiet → ¬t'.Converged := by
  have hs := run_settled h₀ run
  refine ⟨fun hquiet => hquiet.converged_iff.mpr hs.settling, ?_⟩
  intro i t hstep hdisorder more t' hrun hstore hquiet hconverged
  have ht : t.Healthy := step_healthy ⟨hstep, rfl⟩ hs.healthy
  have hpeers : t.peers = s.peers := peers_eq_of_step ⟨hstep, rfl⟩
  cases hstep with
  | @notify _ v p arr _ hc =>
    have hp : p ∈ s.peers := (hs.healthy.calls i _ hc).targets p List.mem_cons_self
    have hno := mt (settling_notify_self hs.healthy hc).mp hdisorder
    rw [← hpeers] at hp
    obtain ⟨hp', hno'⟩ := run_not_settling hrun hstore ht hp hno
    exact hno' (hquiet.converged_iff.mp hconverged v.kind p hp')

/-- The remote end of an established connection with a new node. -/
def greetedRemote : Remote where
  peer := { id := 1, powRequirement := defaultMinimumPoW, fullNode := true }
  maxMsgSize := defaultMaxMessageSize

def sampleLinks : Links where
  settings := (new {}).settings
  peers := {1}
  links p := if p = 1 then
    some { greeting := .sent, established := true, remote := greetedRemote } else none

theorem sampleLinks_established : sampleLinks.Established := by
  refine ⟨fun i => rfl, fun p hp => ?_⟩
  obtain rfl := Finset.mem_singleton.mp hp
  refine ⟨_, rfl, rfl, rfl, rfl, by decide, fun k => ?_⟩
  cases k with
  | pow => exact (by decide +kernel : defaultMinimumPoW = (new {}).settings.getMinPow)
  | bloom => exact ⟨rfl, nofun⟩

/-- Two calls store one after the other, take the peers when both have stored, and notify the peer
in the order in which they stored. -/
def orderedActions : List LinkAction :=
  [.begin 0 (.setMinimumPoW 0x3FE0000000000000#64),
    .begin 1 (.setMinimumPoW 0x3FF0000000000000#64), .store 0, .store 1, .count 0, .count 1,
    .getPeers 0 [1], .getPeers 1 [1], .notify 0 true, .notify 1 true, .finish 0, .finish 1,
    .read 1, .read 1]

theorem orderedActions_run :
    ∃ s l, Run (OrderlyStep sampleCrypto) sampleLinks orderedActions s ∧ s.Quiet ∧
      s.links 1 = some l ∧ l.written.length = 2 := by
  have run : Run (OrderlyStep sampleCrypto) sampleLinks orderedActions _ :=
    .cons ⟨⟨begin_setMinimumPoW rfl (by decide +kernel), by decide +kernel, by decide +kernel⟩,
        nofun⟩
      (.cons ⟨⟨begin_setMinimumPoW rfl (by decide +kernel), by decide +kernel, by decide +kernel⟩,
          nofun⟩
        (.cons ⟨⟨.store rfl, trivial⟩, nofun⟩ (.cons ⟨⟨.store rfl, trivial⟩, nofun⟩
          (.cons ⟨⟨.count rfl, trivial⟩, nofun⟩ (.cons ⟨⟨.count rfl, trivial⟩, nofun⟩
            (.cons ⟨⟨.getPeers rfl (by decide) rfl, trivial⟩, nofun⟩
              (.cons ⟨⟨.getPeers rfl (by decide) rfl, trivial⟩, nofun⟩
                (.cons ⟨⟨.notify rfl, rfl⟩, fun i written heq v p arr hc => by
                    -- the second call has still to tell the peer the present value
                    cases heq
                    cases hc
                    exact .inr ⟨1, _, .pow 0x3FF0000000000000#64, by decide, rfl,
                      ⟨rfl, List.mem_cons_self⟩, rfl, rfl⟩⟩
                  (.cons ⟨⟨.notify rfl, rfl⟩, fun i written heq v p arr hc => by
                      cases heq
                      cases hc
                      exact .inl rfl⟩
                    (.cons ⟨⟨.finish rfl, trivial⟩, nofun⟩ (.cons ⟨⟨.finish rfl, trivial⟩, nofun⟩
                      (.cons ⟨⟨.read rfl rfl rfl, trivial⟩, nofun⟩
                        (.cons ⟨⟨.read rfl rfl rfl, trivial⟩, nofun⟩ (.nil _))))))))))))))
  refine ⟨_, _, run, ⟨fun i c hc => ?_, fun p hp l hl => ?_⟩, rfl, rfl⟩
  · match i with
    | 0 => cases hc; rfl
    | 1 => cases hc; rfl
    | i + 2 => cases hc
  · obtain rfl := Finset.mem_singleton.mp hp
    cases hl
    rfl

theorem converge_in_order_sample :
    ∃ s l, Run (OrderlyStep sampleCrypto) sampleLinks orderedActions s ∧ s.Quiet ∧
      s.links 1 = some l ∧ l.written.length = 2 ∧ s.Converged := by
  obtain ⟨s, l, run, hquiet, hl, hlength⟩ := orderedActions_run
  have hconverged := (converge_in_order sampleCrypto sampleLinks_established run).1 hquiet
  exact ⟨s, l, run, hquiet, hl, hlength, hconverged⟩

/-- Of two calls the first stores 0.5 and the second then 1.0, and the second notifies the peer
first: the node requires 1.0, and the remote holds 0.5. -/
theorem notified_in_reverse :
    ∃ s l, Run (ReliableStep sampleCrypto) sampleLinks
        [.begin 0 (.setMinimumPoW 0x3FE0000000000000#64),
          .begin 1 (.setMinimumPoW 0x3FF0000000000000#64), .store 0, .store 1, .count 0, .count 1,
          .getPeers 0 [1], .getPeers 1 [1], .notify 1 true, .notify 0 true, .finish 0, .finish 1,
          .read 1, .read 1] s ∧
      s.Quiet ∧ s.links 1 = some l ∧ s.settings.getMinPow = 0x3FF0000000000000#64 ∧
      l.remote.returned = none ∧ l.remote.peer.powRequirement = 0x3FE0000000000000#64 ∧
      ¬s.Converged := by
  have run : Run (ReliableStep sampleCrypto) sampleLinks
      [.begin 0 (.setMinimumPoW 0x3FE0000000000000#64),
        .begin 1 (.setMinimumPoW 0x3FF0000000000000#64), .store 0, .store 1, .count 0, .count 1,
        .getPeers 0 [1], .getPeers 1 [1], .notify 1 true, .notify 0 true, .finish 0, .finish 1,
        .read 1, .read 1] _ :=
    .cons ⟨begin_setMinimumPoW rfl (by decide +kernel), by decide +kernel, by decide +kernel⟩
      (.cons ⟨begin_setMinimumPoW rfl (by decide +kernel), by decide +kernel, by decide +kernel⟩
        (.cons ⟨.store rfl, trivial⟩ (.cons ⟨.store rfl, trivial⟩ (.cons ⟨.count rfl, trivial⟩
          (.cons ⟨.count rfl, trivial⟩ (.cons ⟨.getPeers rfl (by decide) rfl, trivial⟩
            (.cons ⟨.getPeers rfl (by decide) rfl, trivial⟩ (.cons ⟨.notify rfl, rfl⟩
              (.cons ⟨.notify rfl, rfl⟩ (.cons ⟨.finish rfl, trivial⟩
                (.cons ⟨.finish rfl, trivial⟩ (.cons ⟨.read rfl rfl rfl, trivial⟩
                  (.cons ⟨.read rfl rfl rfl, trivial⟩ (.nil _))))))))))))))
  have hremote : (greetedRemote.handle (Change.pow 0x3FF0000000000000#64).packet).handle
      (Change.pow 0x3FE0000000000000#64).packet =
        { greetedRemote with peer.powRequirement := 0x3FE0000000000000#64 } := by
    have hsecond : (Change.pow 0x3FF0000000000000#64).Sound :=
      (by decide +kernel : invalidPow 0x3FF0000000000000#64 = false)
    have hfirst : (Change.pow 0x3FE0000000000000#64).Sound :=
      (by decide +kernel : invalidPow 0x3FE0000000000000#64 = false)
    rw [Remote.handle_packet hsecond rfl (by decide), Remote.handle_packet hfirst rfl (by decide)]
    rfl
  refine ⟨_, _, run, ⟨fun i c hc => ?_, fun p hp l hl => ?_⟩, rfl, rfl, ?_, ?_, fun hall => ?_⟩
  · match i with
    | 0 => cases hc; rfl
    | 1 => cases hc; rfl
    | i + 2 => cases hc
  · obtain rfl := Finset.mem_singleton.mp hp
    cases hl
    rfl
  · exact congrArg Remote.returned hremote
  · exact congrArg (fun r : Remote => r.peer.powRequirement) hremote
  · obtain ⟨l, hl, hagrees⟩ := hall 1 (Finset.mem_singleton.mpr rfl)
    cases hl
    have hpow : ((greetedRemote.handle (Change.pow 0x3FF0000000000000#64).packet).handle
        (Change.pow 0x3FE0000000000000#64).packet).peer.powRequirement = 0x3FF0000000000000#64 :=
      hagrees .pow
    rw [hremote] at hpow
    exact absurd hpow (by decide)

end Links

end Whisperv6
