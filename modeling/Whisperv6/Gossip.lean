import Whisperv6.Mesh

/-! The network as a flood of hashes.  The known hashes of a connection are on the way to the other
end, or the other end has had them; so when nothing is on the way and no broadcast has anything left
to send, every pooled envelope that a peer asks for is in its pool, or the peer has turned it away
or expired it. -/

namespace Whisperv6

open ProofKit

/-! ### What one loop can do -/

/-- A step of the loop `l` of the node `w`, which takes packets from the peer and writes packets to
it.  The node turns the hashes `turned` away. -/
structure Loop.Turn (C : Crypto) (w : Whisper) (l : Loop) (taken : List Packet) (w' : Whisper)
    (turned : Finset Hash) (l' : Loop) (written : List Packet) : Prop where
  sent : ∀ packet ∈ written, ∀ k, packet.Carries C k → k ∈ w.envelopes
  known : ∀ k ∈ l'.peer.known,
    k ∈ l.peer.known ∨ l.Marks C k ∨ ∃ packet ∈ written, packet.Carries C k
  marks : ∀ k, l'.Marks C k → l.Marks C k ∨ l.Awaits C k
  awaits : ∀ k, l'.Awaits C k → l.Awaits C k ∨ ∃ packet ∈ taken, packet.Carries C k
  kept : l'.returned = none → l.returned = none ∧
    ∀ k, (l.Awaits C k ∨ ∃ packet ∈ taken, packet.Carries C k) →
      l'.Awaits C k ∨ k ∈ w'.envelopes ∨ k ∈ turned

namespace Loop.Turn

variable {C : Crypto} {w : Whisper} {l : Loop}

/-- The record of the peer changes, and the peer is not known to hold more. -/
theorem peer {p : Peer} (hknown : p.known ⊆ l.peer.known) :
    Turn C w l [] w ∅ { l with peer := p } [] where
  sent packet hpacket := by cases hpacket
  known k hk := .inl (hknown hk)
  marks k hk := .inl hk
  awaits k hk := .inl hk
  kept hreturned := by
    refine ⟨hreturned, fun k hk => .inl (hk.resolve_right ?_)⟩
    rintro ⟨packet, hpacket, -⟩
    cases hpacket

theorem broadcast {order : List Hash} {written : Bool} (hw : w.Consistent C)
    (hsound : ∀ k e, w.envelopes.lookup k = some e → e.HashSound C)
    (hlen : written = true →
      (Peer.bundlePacket (l.peer.bundle C w order)).payload.length < 2 ^ 32) :
    Turn C w l [] (l.peer.broadcast C w order written).2.1 ∅
      { l with peer := (l.peer.broadcast C w order written).1 }
      (l.peer.broadcast C w order written).2.2.toList := by
  have hbundle : ∀ e ∈ l.peer.bundle C w order, e.HashSound C ∧ e.hash C ∈ w.envelopes := by
    intro e he
    obtain ⟨⟨k, -, hlookup⟩, -⟩ := Peer.mem_bundle.mp he
    obtain rfl := (hw.pooled k e hlookup).1
    exact ⟨hsound _ e hlookup, Finmap.mem_of_lookup_eq_some hlookup⟩
  have hcarries : written = true → ∀ k,
      (Peer.bundlePacket (l.peer.bundle C w order)).Carries C k ↔
        k ∈ (l.peer.bundle C w order).map (Envelope.hash C) :=
    fun hwritten k => Packet.carries_bundlePacket (hlen hwritten) fun e he => (hbundle e he).1
  refine ⟨fun packet hpacket k hk => ?_, fun k hk => ?_, fun k hk => .inl hk, fun k hk => .inl hk,
    fun hreturned => ⟨hreturned, fun k hk => .inl (hk.resolve_right ?_)⟩⟩
  · obtain ⟨-, hwritten, rfl⟩ := Peer.broadcast_packet.mp (Option.mem_toList.mp hpacket)
    obtain ⟨e, he, rfl⟩ := List.mem_map.mp ((hcarries hwritten k).mp hk)
    exact (hbundle e he).2
  · obtain ⟨-, heq⟩ | ⟨-, hwritten, heq⟩ := l.peer.broadcast_cases C w order written
    · rw [heq] at hk
      exact .inl hk
    · rw [heq] at hk ⊢
      obtain hk | hk := Peer.mem_known_foldl_mark.mp hk
      · exact .inl hk
      · exact .inr (.inr ⟨_, List.mem_singleton_self _, (hcarries hwritten k).mpr hk⟩)
  · rintro ⟨packet, hpacket, -⟩
    cases hpacket

theorem read (packet : Packet) (hjobs : l.jobs = []) :
    Turn C w l [packet] w ∅ (l.read C w packet) [] := by
  have hnone : ∀ k, ¬ l.Awaits C k := by
    rintro k ⟨e, he, -⟩
    rw [hjobs] at he
    cases he
  refine ⟨fun x hx => absurd hx List.not_mem_nil, fun k hk => ?_, fun k hk => ?_, fun k hk => ?_,
    fun hreturned => ?_⟩
  · obtain ⟨pow, bloom, full, heq⟩ := l.read_peer C w packet
    rw [heq] at hk
    exact .inl hk
  · obtain ⟨e, he, -⟩ := hk
    obtain ⟨p, -, hyields⟩ := mem_read_jobs he
    cases hyields
  · obtain ⟨e, he, rfl⟩ := hk
    obtain ⟨p, -, hyields⟩ := mem_read_jobs he
    cases hyields with
    | add _ hcode =>
      refine .inr ⟨packet, List.mem_singleton_self _, hcode, (l.read C w packet).jobs, e, ?_, he,
        rfl⟩
      obtain ⟨fault, heq⟩ | ⟨p, jobs, -, hpacket, heq⟩ := l.read_cases C w packet
      · rw [heq] at he
        cases he
      · rw [heq, ← hpacket, Packet.jobs, if_pos hcode]
  · obtain ⟨fault, heq⟩ | ⟨p, jobs, -, hpacket, heq⟩ := l.read_cases C w packet
    · rw [heq] at hreturned
      cases hreturned
    · rw [heq] at hreturned ⊢
      refine ⟨hreturned, fun k hk => .inl ?_⟩
      obtain ⟨x, hx, hcode, jobs', e, hmessages, he, rfl⟩ := hk.resolve_left (hnone k)
      obtain rfl := List.mem_singleton.mp hx
      rw [Packet.jobs, if_pos hcode, hmessages] at hpacket
      cases hpacket
      exact ⟨e, he, rfl⟩

theorem work (now : UInt32) (sync : Option GoError) :
    Turn C w l [] (l.work C now sync w).1 (l.turnedAway C now w) (l.work C now sync w).2 [] where
  sent packet hpacket := by cases hpacket
  known k hk := (mem_known_work hk).imp_right .inl
  marks k hk := hk.of_work
  awaits k hk := .inl hk.of_work
  kept hreturned := by
    refine ⟨returned_of_work hreturned, fun k hk => ?_⟩
    obtain hk | ⟨packet, hpacket, -⟩ := hk
    · exact hk.work hreturned
    · cases hpacket

end Loop.Turn

namespace Mesh

variable {N : Type}

/-- The loop of `i` for `j` satisfies `P`. -/
def At (s : Mesh N) (P : Loop → Prop) (i j : N) : Prop := ∃ l, s.loops i j = some l ∧ P l

/-- The network as a flood: what is on the way is in a packet, or waits for `add`. -/
def flood (C : Crypto) (s : Mesh N) : Flood N Hash where
  pool i := {k | k ∈ (s.node i).envelopes}
  lost i := {k | k ∈ s.lost i}
  known i j := {k | s.At (fun l => k ∈ l.peer.known) i j}
  heard i j := {k | s.At (·.Marks C k) i j}
  transit i j := {k | (∃ packet ∈ s.wire i j, packet.Carries C k) ∨ s.At (·.Awaits C k) j i}
  up i j := s.At (·.returned = none) j i

variable [DecidableEq N]

section Changes

variable {s : Mesh N} {i j a b : N} {P : Loop → Prop}

theorem At.of_setLoop {l : Loop} (h : (s.setLoop i j (some l)).At P a b) :
    s.At P a b ∨ (a = i ∧ b = j) ∧ P l := by
  obtain ⟨l', hl', hp⟩ := h
  rw [loops_setLoop] at hl'
  split at hl'
  · cases hl'
    exact .inr ⟨‹_›, hp⟩
  · exact .inl ⟨l', hl', hp⟩

theorem At.setLoop {l l' : Loop} (h : s.At P a b) (hl : s.loops i j = some l) :
    (s.setLoop i j (some l')).At P a b ∨ (a = i ∧ b = j) ∧ P l := by
  obtain ⟨m, hm, hp⟩ := h
  by_cases hab : a = i ∧ b = j
  · obtain ⟨rfl, rfl⟩ := hab
    cases hl.symm.trans hm
    exact .inr ⟨⟨rfl, rfl⟩, hp⟩
  · refine .inl ⟨m, ?_, hp⟩
    rw [loops_setLoop, if_neg hab, hm]

/-- A node keeps its pool, or counts what has left it as lost. -/
theorem pool_setNode (C : Crypto) (s : Mesh N) (i : N) (w : Whisper) (turned : Finset Hash)
    (a : N) : (s.flood C).pool a ⊆ ((s.setNode i w turned).flood C).seen a := by
  intro k hk
  by_cases hnow : k ∈ ((s.setNode i w turned).node a).envelopes
  · exact .inl hnow
  · right
    show k ∈ (s.setNode i w turned).lost a
    rw [node_setNode] at hnow
    rw [lost_setNode]
    split
    · rename_i ha
      subst ha
      rw [if_pos rfl] at hnow
      refine Finset.mem_union_right _ (Finset.mem_sdiff.mpr ⟨Finmap.mem_keys.mpr hk, ?_⟩)
      exact fun hkey => hnow (Finmap.mem_keys.mp hkey)
    · rename_i ha
      rw [if_neg ha] at hnow
      exact absurd hk hnow

theorem lost_subset_setNode (C : Crypto) (s : Mesh N) (i : N) (w : Whisper) (turned : Finset Hash)
    (a : N) : (s.flood C).lost a ⊆ ((s.setNode i w turned).flood C).lost a := by
  intro k hk
  show k ∈ (s.setNode i w turned).lost a
  rw [lost_setNode]
  split
  · rename_i ha
    subst ha
    exact Finset.mem_union_left _ (Finset.mem_union_left _ hk)
  · exact hk

/-- What the node `i` has and what it has turned away it has dealt with. -/
theorem seen_setNode (C : Crypto) (s : Mesh N) (i : N) (w : Whisper) {turned : Finset Hash}
    {k : Hash} (h : k ∈ w.envelopes ∨ k ∈ turned) :
    k ∈ ((s.setNode i w turned).flood C).seen i := by
  obtain hk | hk := h
  · left
    show k ∈ ((s.setNode i w turned).node i).envelopes
    rw [node_setNode, if_pos rfl]
    exact hk
  · right
    show k ∈ (s.setNode i w turned).lost i
    rw [lost_setNode, if_pos rfl]
    exact Finset.mem_union_left _ (Finset.mem_union_right _ hk)

end Changes

/-! ### The steps -/

section Steps

variable {C : Crypto} {s : Mesh N}

/-- A step of a node by itself. -/
theorem step_setNode (C : Crypto) (s : Mesh N) (i : N) (w : Whisper) (turned : Finset Hash) :
    Flood.Step (s.flood C) ((s.setNode i w turned).flood C) where
  pool := pool_setNode C s i w turned
  lost := lost_subset_setNode C s i w turned
  transit _ _ := Set.subset_union_left
  heard _ _ := Set.subset_union_left
  known _ _ _ hk := .inl (.inl hk)
  kept _ _ hup := .inr ⟨hup, Set.subset_union_left⟩

/-- A step of one loop.  `t` has the packets that are still to be read. -/
theorem step_turn {i j : N} {l l' : Loop} {w : Whisper} {turned : Finset Hash}
    {taken written : List Packet} (wire : N → N → List Packet) (hl : s.loops i j = some l)
    (h : Loop.Turn C (s.node i) l taken w turned l' written)
    (htaken : ∀ packet ∈ taken, packet ∈ s.wire j i)
    (hleft : ∀ a b, ∀ packet ∈ s.wire a b,
      packet ∈ wire a b ∨ (a = j ∧ b = i) ∧ packet ∈ taken)
    (hwritten : ∀ packet ∈ written, packet ∈ wire i j)
    (hold : ∀ a b, ∀ packet ∈ wire a b,
      packet ∈ s.wire a b ∨ (a = i ∧ b = j) ∧ packet ∈ written) :
    Flood.Step (s.flood C)
      (({ (s.setNode i w turned).setLoop i j (some l') with wire } : Mesh N).flood C) where
  pool := pool_setNode C s i w turned
  lost := lost_subset_setNode C s i w turned
  transit a b k hk := by
    obtain ⟨packet, hpacket, hk⟩ | hk := hk
    · obtain hpacket | ⟨⟨rfl, rfl⟩, hnew⟩ := hold a b packet hpacket
      · exact .inl (.inl ⟨packet, hpacket, hk⟩)
      · exact .inr (h.sent packet hnew k hk)
    · obtain hk | ⟨⟨rfl, rfl⟩, hnew⟩ := At.of_setLoop hk
      · exact .inl (.inr hk)
      · obtain hk | ⟨packet, hpacket, hk⟩ := h.awaits k hnew
        · exact .inl (.inr ⟨l, hl, hk⟩)
        · exact .inl (.inl ⟨packet, htaken packet hpacket, hk⟩)
  heard a b k hk := by
    obtain hk | ⟨⟨rfl, rfl⟩, hnew⟩ := At.of_setLoop hk
    · exact .inl hk
    · obtain hk | hk := h.marks k hnew
      · exact .inl ⟨l, hl, hk⟩
      · exact .inr (.inr ⟨l, hl, hk⟩)
  known a b k hk := by
    obtain hk | ⟨⟨rfl, rfl⟩, hnew⟩ := At.of_setLoop hk
    · exact .inl (.inl hk)
    · obtain hk | hk | ⟨packet, hpacket, hk⟩ := h.known k hnew
      · exact .inl (.inl ⟨l, hl, hk⟩)
      · exact .inl (.inr ⟨l, hl, hk⟩)
      · exact .inr (.inl ⟨packet, hwritten packet hpacket, hk⟩)
  kept a b hup := by
    right
    obtain ⟨m, hm, hreturned⟩ := hup
    have hloops := loops_setLoop (s.setNode i w turned) i j b a (some l')
    rw [show ((s.setNode i w turned).setLoop i j (some l')).loops b a = some m from hm] at hloops
    by_cases hab : b = i ∧ a = j
    · -- the end that reads is the one that has moved
      rw [if_pos hab] at hloops
      obtain ⟨rfl, rfl⟩ := hab
      cases hloops
      obtain ⟨hrunning, hkept⟩ := h.kept hreturned
      refine ⟨⟨l, hl, hrunning⟩, fun k hk => ?_⟩
      have hin : (∃ packet ∈ wire a b, packet.Carries C k) ∨
          (l.Awaits C k ∨ ∃ packet ∈ taken, packet.Carries C k) := by
        obtain ⟨packet, hpacket, hk⟩ | ⟨m, hm, hk⟩ := hk
        · obtain hpacket | ⟨-, hpacket⟩ := hleft a b packet hpacket
          · exact .inl ⟨packet, hpacket, hk⟩
          · exact .inr (.inr ⟨packet, hpacket, hk⟩)
        · cases hl.symm.trans hm
          exact .inr (.inl hk)
      obtain hk | hk := hin
      · exact .inl (.inl hk)
      · obtain hk | hk := hkept k hk
        · exact .inl (.inr ⟨l', hm, hk⟩)
        · exact .inr (seen_setNode C s b w hk)
    · rw [if_neg hab] at hloops
      refine ⟨⟨m, hloops.symm, hreturned⟩, fun k hk => .inl ?_⟩
      obtain ⟨packet, hpacket, hk⟩ | ⟨m', hm', hk⟩ := hk
      · obtain hpacket | ⟨⟨rfl, rfl⟩, -⟩ := hleft a b packet hpacket
        · exact .inl ⟨packet, hpacket, hk⟩
        · exact absurd ⟨rfl, rfl⟩ hab
      · cases hloops.trans hm'
        exact .inr ⟨m, hm, hk⟩

/-- An end of a connection is gone. -/
theorem step_disconnect (C : Crypto) (s : Mesh N) (i j : N) :
    Flood.Step (s.flood C) ((s.setLoop i j none).flood C) := by
  have hloops : ∀ {P : Loop → Prop} {a b : N}, (s.setLoop i j none).At P a b →
      (s.setLoop i j none).loops a b = s.loops a b := by
    rintro P a b ⟨l, hl, -⟩
    rw [loops_setLoop] at hl ⊢
    split at hl
    · cases hl
    · rw [if_neg ‹_›]
  have hat : ∀ {P : Loop → Prop} {a b : N}, (s.setLoop i j none).At P a b → s.At P a b := by
    intro P a b h
    have hsame := hloops h
    obtain ⟨l, hl, hp⟩ := h
    exact ⟨l, hsame ▸ hl, hp⟩
  refine ⟨fun _ _ hk => .inl hk, fun _ _ hk => hk, fun _ _ _ hk => .inl (hk.imp_right hat),
    fun _ _ _ hk => .inl (hat hk), fun _ _ _ hk => .inl (.inl (hat hk)), fun a b hup => ?_⟩
  refine .inr ⟨hat hup, fun k hk => .inl (hk.imp_right ?_)⟩
  rintro ⟨l, hl, hk⟩
  exact ⟨l, (hloops hup).trans hl, hk⟩

theorem loops_connect (s : Mesh N) (i j : N) (p q : Peer) (a b : N) :
    (s.connect i j p q).loops a b =
      if a = j ∧ b = i then some { peer := q }
      else if a = i ∧ b = j then some { peer := p } else s.loops a b := by
  show ((s.setLoop i j _).setLoop j i _).loops a b = _
  rw [loops_setLoop, loops_setLoop]

theorem wire_connect (s : Mesh N) (i j : N) (p q : Peer) (a b : N) :
    (s.connect i j p q).wire a b =
      if a = j ∧ b = i then [] else if a = i ∧ b = j then [] else s.wire a b := by
  unfold connect
  rw [wire_setWire, wire_setWire]
  rfl

/-- What no new loop has, a loop had before the connection. -/
theorem At.of_connect {i j a b : N} {p q : Peer} {P : Loop → Prop} (hp : ¬ P { peer := p })
    (hq : ¬ P { peer := q }) (h : (s.connect i j p q).At P a b) : s.At P a b := by
  obtain ⟨l, hl, hpl⟩ := h
  rw [loops_connect] at hl
  split at hl
  · cases hl
    exact absurd hpl hq
  split at hl
  · cases hl
    exact absurd hpl hp
  · exact ⟨l, hl, hpl⟩

theorem not_awaits_new (C : Crypto) (p : Peer) (k : Hash) :
    ¬ ({ peer := p } : Loop).Awaits C k := by
  rintro ⟨e, he, -⟩
  cases he

theorem not_marks_new (C : Crypto) (p : Peer) (k : Hash) :
    ¬ ({ peer := p } : Loop).Marks C k := by
  rintro ⟨e, he, -⟩
  cases he

/-- A new connection: nothing is known, and nothing is on the way. -/
theorem step_connect {i j : N} {p q : Peer} (hp : p.known = ∅) (hq : q.known = ∅) :
    Flood.Step (s.flood C) ((s.connect i j p q).flood C) := by
  refine ⟨fun _ _ hk => .inl hk, fun _ _ hk => hk, fun a b k hk => .inl ?_, fun a b k hk => .inl ?_,
    fun a b k hk => .inl (.inl ?_), fun a b hup => ?_⟩
  · obtain ⟨packet, hpacket, hk⟩ | hk := hk
    · rw [wire_connect] at hpacket
      split at hpacket
      · cases hpacket
      split at hpacket
      · cases hpacket
      · exact .inl ⟨packet, hpacket, hk⟩
    · exact .inr (.of_connect (not_awaits_new C p k) (not_awaits_new C q k) hk)
  · exact .of_connect (not_marks_new C p k) (not_marks_new C q k) hk
  · exact .of_connect (by simp [hp]) (by simp [hq]) hk
  · by_cases hnew : a = j ∧ b = i ∨ a = i ∧ b = j
    · left
      apply Set.eq_empty_of_forall_notMem
      rintro k ⟨l, hl, hk⟩
      rw [loops_connect] at hl
      split at hl
      · cases hl
        rw [hq] at hk
        cases hk
      · rw [if_pos (hnew.resolve_left ‹_›)] at hl
        cases hl
        rw [hp] at hk
        cases hk
    · right
      have hba : ¬ (b = j ∧ a = i) ∧ ¬ (b = i ∧ a = j) :=
        ⟨fun h => hnew (.inr ⟨h.2, h.1⟩), fun h => hnew (.inl ⟨h.2, h.1⟩)⟩
      have hsame : (s.connect i j p q).loops b a = s.loops b a := by
        rw [loops_connect, if_neg hba.1, if_neg hba.2]
      obtain ⟨m, hm, hreturned⟩ := hup
      refine ⟨⟨m, hsame ▸ hm, hreturned⟩, fun k hk => .inl ?_⟩
      obtain ⟨packet, hpacket, hk⟩ | ⟨m', hm', hk⟩ := hk
      · refine .inl ⟨packet, ?_, hk⟩
        rw [wire_connect, if_neg fun h => hnew (.inl h), if_neg fun h => hnew (.inr h)]
        exact hpacket
      · exact .inr ⟨m', hsame.trans hm', hk⟩

theorem step_transmit {packet : Packet} (hcode : packet.code ≠ messagesCode) (i j : N) :
    Flood.Step (s.flood C) ((s.setWire i j (s.wire i j ++ [packet])).flood C) := by
  have hwire : ∀ a b k, (∃ x ∈ (s.setWire i j (s.wire i j ++ [packet])).wire a b, x.Carries C k) ↔
      ∃ x ∈ s.wire a b, x.Carries C k := by
    intro a b k
    rw [wire_setWire]
    split
    · rename_i hab
      obtain ⟨rfl, rfl⟩ := hab
      have hnot : ¬ packet.Carries C k := fun hk => hcode hk.1
      simp [or_and_right, exists_or, hnot]
    · rfl
  refine ⟨fun _ _ hk => .inl hk, fun _ _ hk => hk, fun a b k hk => .inl ?_, fun _ _ _ hk => .inl hk,
    fun _ _ _ hk => .inl (.inl hk), fun a b hup => .inr ⟨hup, fun k hk => .inl ?_⟩⟩
  · exact hk.imp_left (hwire a b k).mp
  · exact hk.imp_left (hwire a b k).mpr

theorem setNode_self (s : Mesh N) (i : N) : s.setNode i (s.node i) ∅ = s := by
  simp [setNode]

/-- A step of one loop that neither reads nor writes. -/
theorem step_setLoop {i j : N} {l l' : Loop} {w : Whisper} {turned : Finset Hash}
    (hl : s.loops i j = some l) (h : Loop.Turn C (s.node i) l [] w turned l' []) :
    Flood.Step (s.flood C) (((s.setNode i w turned).setLoop i j (some l')).flood C) :=
  step_turn s.wire hl h (by simp) (fun _ _ _ hpacket => .inl hpacket) (by simp)
    fun _ _ _ hpacket => .inl hpacket

theorem step_setPeer {i j : N} {l : Loop} (hl : s.loops i j = some l) {p : Peer}
    (hknown : p.known ⊆ l.peer.known) :
    Flood.Step (s.flood C) ((s.setLoop i j (some { l with peer := p })).flood C) := by
  have h := step_setLoop hl (.peer (C := C) hknown)
  rw [setNode_self] at h
  exact h

theorem step_read {i j : N} {l : Loop} {packet : Packet} {rest : List Packet}
    (hl : s.loops i j = some l) (hjobs : l.jobs = []) (hwire : s.wire j i = packet :: rest) :
    Flood.Step (s.flood C)
      (((s.setLoop i j (some (l.read C (s.node i) packet))).setWire j i rest).flood C) := by
  have hafter := wire_setWire s j i
  have h := step_turn (s.setWire j i rest).wire hl
    (.read (C := C) (w := s.node i) packet hjobs) ?_ ?_ (by simp) ?_
  · rw [setNode_self] at h
    exact h
  · intro x hx
    rw [List.mem_singleton.mp hx, hwire]
    exact List.mem_cons_self
  · intro a b x hx
    rw [hafter]
    split
    · rename_i hab
      obtain ⟨rfl, rfl⟩ := hab
      rw [hwire] at hx
      obtain rfl | hx := List.mem_cons.mp hx
      · exact .inr ⟨⟨rfl, rfl⟩, List.mem_singleton_self _⟩
      · exact .inl hx
    · exact .inl hx
  · intro a b x hx
    rw [hafter] at hx
    split at hx
    · rename_i hab
      obtain ⟨rfl, rfl⟩ := hab
      rw [hwire]
      exact .inl (List.mem_cons_of_mem _ hx)
    · exact .inl hx

theorem step_broadcast (hs : s.Genuine C) {i j : N} {l : Loop} (hl : s.loops i j = some l)
    {order : List Hash} {written : Bool} (hlen : written = true →
      (Peer.bundlePacket (l.peer.bundle C (s.node i) order)).payload.length < 2 ^ 32) :
    Flood.Step (s.flood C) ((s.broadcast C i j l order written).flood C) := by
  have hafter := wire_setWire s i j
  refine step_turn (s.setWire i j
    (s.wire i j ++ (l.peer.broadcast C (s.node i) order written).2.2.toList)).wire hl
    (.broadcast (hs.node i).consistent (fun k e hk => ((hs.node i).pooled k e hk).1) hlen)
    (by simp) ?_ ?_ ?_
  · intro a b x hx
    rw [hafter]
    split
    · rename_i hab
      obtain ⟨rfl, rfl⟩ := hab
      exact .inl (List.mem_append_left _ hx)
    · exact .inl hx
  · intro x hx
    rw [hafter, if_pos ⟨rfl, rfl⟩]
    exact List.mem_append_right _ hx
  · intro a b x hx
    rw [hafter] at hx
    split at hx
    · rename_i hab
      obtain ⟨rfl, rfl⟩ := hab
      exact (List.mem_append.mp hx).imp_right fun h => ⟨⟨rfl, rfl⟩, h⟩
    · exact .inl hx

/-- Every step of the network is a step of the flood. -/
theorem flood_step (hs : s.Genuine C) {a : MeshAction N} {t : Mesh N} (hstep : MeshStep C s a t) :
    Flood.Step (s.flood C) (t.flood C) := by
  cases a with
  | send i now e =>
    obtain ⟨-, rfl⟩ := hstep
    exact step_setNode C s i _ ∅
  | connect i j p q =>
    obtain ⟨-, hp, hq, rfl⟩ := hstep
    exact step_connect hp hq
  | disconnect i j =>
    cases hstep
    exact step_disconnect C s i j
  | broadcast i j order written =>
    obtain ⟨l, hl, -, hlen, rfl⟩ := hstep
    exact step_broadcast hs hl hlen
  | transmit i j packet =>
    obtain ⟨hcode, rfl⟩ := hstep
    exact step_transmit hcode i j
  | read i j =>
    obtain ⟨l, packet, rest, hl, hjobs, -, hwire, rfl⟩ := hstep
    exact step_read hl hjobs hwire
  | work i j now sync =>
    obtain ⟨l, hl, -, rfl⟩ := hstep
    exact step_setLoop hl (.work now sync)
  | expire i now seconds hashes =>
    obtain ⟨-, w, -, rfl⟩ := hstep
    exact step_setNode C s i w ∅
  | expirePeer i j order =>
    obtain ⟨l, hl, -, rfl⟩ := hstep
    exact step_setPeer hl fun k hk => (Peer.mem_known_expire_iff.mp hk).1
  | negotiate i j p =>
    obtain ⟨l, hl, hknown, rfl⟩ := hstep
    exact step_setPeer hl hknown.subset
  | others i w =>
    obtain ⟨-, -, -, rfl⟩ := hstep
    exact step_setNode C s i w ∅

theorem run_sound {cfg : N → Config} {acts : List (MeshAction N)}
    (run : Run (MeshStep C) (start cfg) acts s) : (s.flood C).Sound := by
  have hstart : ((start cfg).flood C).Sound := by
    refine ⟨fun i j k hk => ?_, fun i j k hk => ?_, fun i j hup => ?_⟩
    · obtain ⟨packet, hpacket, -⟩ | ⟨l, hl, -⟩ := hk
      · cases hpacket
      · cases hl
    · obtain ⟨l, hl, -⟩ := hk
      cases hl
    · obtain ⟨l, hl, -⟩ := hup
      cases hl
  have hboth : s.Genuine C ∧ (s.flood C).Sound :=
    run.invariant (P := fun s => s.Genuine C ∧ (s.flood C).Sound)
      ⟨start_genuine C cfg, hstart⟩ fun _ _ _ _ hs hstep =>
        ⟨hs.1.step hstep, hs.2.step (flood_step hs.1 hstep)⟩
  exact hboth.2

end Steps

/-! ### A network at rest -/

/-- The connection from `i` to `j` is at rest: `j` reads it and has nothing left to read or to do,
and a broadcast of `i` would send nothing. -/
structure AtRest {N : Type} (C : Crypto) (s : Mesh N) (i j : N) : Prop where
  idle : s.At (fun l => l.returned = none ∧ l.jobs = []) j i
  delivered : s.wire i j = []
  offered : s.At (fun l => ∀ order, IsOrder (s.node i).envelopes.keys order →
    l.peer.bundle C (s.node i) order = []) i j

/-- The node `i` has from `j` a requirement that its envelope with the hash `k` meets. -/
def Asks {N : Type} (C : Crypto) (s : Mesh N) (k : Hash) (i j : N) : Prop :=
  s.At (fun l => ∀ e, (s.node i).envelopes.lookup k = some e →
    l.peer.powRequirement.value.le (e.pow C) = true ∧ l.peer.bloomMatch e = true) i j

theorem AtRest.settled {N : Type} {C : Crypto} {s : Mesh N} {i j : N} (h : s.AtRest C i j)
    (hs : (s.node i).Consistent C) {k : Hash} (hasks : s.Asks C k i j) :
    (s.flood C).Settled {k} i j := by
  obtain ⟨⟨m, hm, hreturned, hjobs⟩, hwire, l, hl, hoffered⟩ := h
  refine ⟨⟨m, hm, hreturned⟩, Set.eq_empty_of_forall_notMem ?_, ?_⟩
  · rintro x (⟨packet, hpacket, -⟩ | ⟨m', hm', e, he, -⟩)
    · rw [hwire] at hpacket
      cases hpacket
    · cases hm.symm.trans hm'
      rw [hjobs] at he
      cases he
  · rintro x ⟨hpool, rfl⟩
    obtain ⟨l', hl', hmeets⟩ := hasks
    cases hl.symm.trans hl'
    refine ⟨l, hl, ?_⟩
    by_contra hunknown
    obtain ⟨e, he⟩ := Finmap.mem_iff.mp hpool
    obtain ⟨hpow, hbloom⟩ := hmeets e he
    obtain ⟨order, horder⟩ := exists_isOrder (s.node i).envelopes.keys
    have hselects : l.peer.selects C e = true := by
      refine Peer.selects_iff.mpr ⟨?_, hpow, hbloom⟩
      rw [(hs.pooled x e he).1]
      exact hunknown
    have hbundle := Peer.mem_bundle_of_lookup horder he hselects
    rw [hoffered _ horder] at hbundle
    cases hbundle

/-- In every state that a network reaches: over a connection at rest, a node has every envelope of
the other end that it asks for, unless it has turned the envelope away or expired it.  So an
envelope in one pool is in the pool of every node that a path of such connections leads to, if no
node that the path comes to has done that. -/
theorem pools_agree_at_rest (C : Crypto) (cfg : N → Config) {acts : List (MeshAction N)}
    {s : Mesh N} (run : Run (MeshStep C) (start cfg) acts s) (k : Hash) :
    (∀ i j, s.AtRest C i j → s.Asks C k i j → k ∈ (s.node i).envelopes →
      k ∈ (s.node j).envelopes ∨ k ∈ s.lost j) ∧
    ∀ i j, Relation.ReflTransGen (fun a b => (s.AtRest C a b ∧ s.Asks C k a b) ∧ k ∉ s.lost b) i j →
      k ∈ (s.node i).envelopes → k ∈ (s.node j).envelopes := by
  have hsound := run_sound run
  have hsettled : ∀ a b, s.AtRest C a b ∧ s.Asks C k a b → (s.flood C).Settled {k} a b :=
    fun a b h => h.1.settled ((run_genuine run).node a).consistent h.2
  constructor
  · intro i j hrest hasks hk
    exact hsound.settled (hsettled i j ⟨hrest, hasks⟩) ⟨hk, rfl⟩
  · intro i j hpath hk
    exact hsound.reaches (hpath.lift id fun a b h => ⟨hsettled a b h.1, h.2⟩) hk

/-- Both nodes have the envelope, and each knows that the other one has it. -/
theorem pairSettled_bundle {i j : Bool} {l : Loop} (hl : pairSettled.loops i j = some l)
    (order : List Hash) : l.peer.bundle sampleCrypto (pairSettled.node i) order = [] := by
  have hknown : ∀ i j, ∀ l ∈ pairSettled.loops i j,
      (pairSettled.node i).envelopes.keys ⊆ l.peer.known := by decide +kernel
  refine List.eq_nil_iff_forall_not_mem.mpr fun e he => ?_
  obtain ⟨⟨k, -, hlookup⟩, hselects⟩ := Peer.mem_bundle.mp he
  have hhash := (((run_genuine pairSettled_run).node i).consistent.pooled k e hlookup).1
  have hk := hknown i j l hl (Finmap.mem_keys.mpr (Finmap.mem_of_lookup_eq_some hlookup))
  rw [← hhash] at hk
  exact (Peer.selects_iff.mp hselects).1 hk

/-- The two nodes have come to rest, and both have the envelope. -/
theorem pools_agree_at_rest_pair : pairSettled.AtRest sampleCrypto false true ∧
    sampleEnvelope.hash sampleCrypto ∈ (pairSettled.node true).envelopes := by
  have hkeys : (pairSettled.node false).envelopes.keys = {sampleEnvelope.hash sampleCrypto} := by
    decide +kernel
  have hlost : sampleEnvelope.hash sampleCrypto ∉ pairSettled.lost true := by decide +kernel
  have hidle : (pairSettled.loops true false).map (fun l => (l.returned, l.jobs)) =
      some (none, []) := by decide +kernel
  have hpeer : (pairSettled.loops false true).map (fun l => (l.peer.powRequirement,
      l.peer.fullNode)) = some (0, true) := by
    decide +kernel
  have hpow : ∀ e ∈ (pairSettled.node false).envelopes.lookup (sampleEnvelope.hash sampleCrypto),
      (0 : Float64).value.le (e.pow sampleCrypto) = true := by decide +kernel
  obtain ⟨m, hm, hidle⟩ := Option.map_eq_some_iff.mp hidle
  obtain ⟨l, hl, hpeer⟩ := Option.map_eq_some_iff.mp hpeer
  simp only [Prod.mk.injEq] at hidle hpeer
  obtain ⟨hrequirement, hfull⟩ := hpeer
  have hrest : pairSettled.AtRest sampleCrypto false true :=
    ⟨⟨m, hm, hidle⟩, by decide +kernel, l, hl, fun order _ => pairSettled_bundle hl order⟩
  have hasks : pairSettled.Asks sampleCrypto (sampleEnvelope.hash sampleCrypto) false true := by
    refine ⟨l, hl, fun e he => ⟨?_, by simp [Peer.bloomMatch, hfull]⟩⟩
    rw [hrequirement]
    exact hpow e he
  refine ⟨hrest, ?_⟩
  refine (pools_agree_at_rest sampleCrypto (fun _ => {}) pairSettled_run _).2 false true
    (.single ⟨⟨hrest, hasks⟩, hlost⟩) (Finmap.mem_keys.mp ?_)
  rw [hkeys]
  exact Finset.mem_singleton_self _

end Mesh

end Whisperv6
