import Mathlib.Algebra.BigOperators.Group.Finset.Basic
import Mathlib.Algebra.Order.BigOperators.Group.Finset
import Mathlib.Data.Prod.Lex
import Mathlib.Data.Fintype.Prod
import Mathlib.Data.Set.Finite.Lattice
import Mathlib.Order.WellFounded
import Whisperv6.Gossip

/-! Gossip comes to rest.  Each bundle that is written makes hashes known that were not, each bundle
that is read starts at most one confirmation, each confirmation writes two packets, each packet is
read once, and each job leaves fewer of them; so the steps that carry envelopes and their
confirmations along are finite in number as long as nothing new is sent, and where none of them is
left the connections are at rest. -/

namespace Whisperv6

open ProofKit

/-! ### What a loop has left to do -/

/-- The steps that a job takes, with those of the jobs that it leads to. -/
def Job.steps : Job → Nat
  | .add _ => 4
  | _ => 1

theorem Job.one_le_steps (j : Job) : 1 ≤ j.steps := by
  cases j <;> simp [steps]

/-- The job starts a confirmation. -/
def Job.confirms : Job → Bool
  | .confirm _ => true
  | _ => false

namespace Loop

/-- The steps that the jobs of the loop take. -/
def left (l : Loop) : Nat := (l.jobs.map Job.steps).sum

variable {C : Crypto} {now : UInt32} {sync : Option GoError} {w : Whisper} {l : Loop} {k : Hash}

theorem left_add_le (C : Crypto) (now : UInt32) (w : Whisper) (l : Loop) (e : Envelope) :
    (l.add C now w e).2.left ≤ l.left + 3 := by
  unfold add
  repeat' split
  all_goals simp [push, refuse, left, Job.steps]; omega

theorem left_work_lt (hjobs : l.jobs ≠ []) : (l.work C now sync w).2.left < l.left := by
  obtain ⟨job, rest, hcons⟩ := List.exists_cons_of_ne_nil hjobs
  have hleft : l.left = job.steps + (rest.map Job.steps).sum := by simp [left, hcons]
  have hpos := job.one_le_steps
  obtain htail | ⟨hnone, -⟩ | ⟨e, rest', mid, hadd, -⟩ := (work_leaves C now sync w l).jobs_cases
  · rw [hleft, left, htail, hcons, List.tail_cons]
    omega
  · rw [hleft, left, hnone]
    simp
    omega
  · cases hcons.symm.trans hadd
    have hwork : (l.work C now sync w).2 = ({ l with jobs := rest }.add C now w e).2 := by
      simp only [work, hcons, perform]
    have hle := left_add_le C now w { l with jobs := rest } e
    rw [hleft, hwork]
    refine hle.trans_lt ?_
    simp only [left, Job.steps]
    omega

theorem known_subset_work : l.peer.known ⊆ (l.work C now sync w).2.peer.known := by
  unfold work
  split
  · exact Finset.Subset.refl _
  · rename_i job rest hjobs
    cases job with
    | mark e => exact Finset.subset_insert _ _
    | add e =>
      simp only [perform, add]
      repeat' split
      all_goals exact Finset.Subset.refl _
    | confirm data =>
      simp only [perform]
      split <;> exact Finset.Subset.refl _
    | checkTrouble =>
      simp only [perform]
      split <;> exact Finset.Subset.refl _
    | call call =>
      simp only [perform, callMailServer]
      split <;> exact Finset.Subset.refl _
    | _ => exact Finset.Subset.refl _

/-- What a job adds to the pool has waited for `add`. -/
theorem mem_envelopes_of_work (h : k ∈ (l.work C now sync w).1.envelopes) :
    k ∈ w.envelopes ∨ l.Awaits C k := by
  have hchanges := work_changes C now sync w l
  generalize (l.work C now sync w).1 = w' at h hchanges
  cases hchanges with
  | stored e e' hjob hcheck =>
    obtain rfl | h := Finmap.mem_insert.mp h
    · exact .inr ⟨e, hjob, (Settings.same_of_check hcheck).1.symm⟩
    · exact .inl h
  | announced e isP2P =>
    rw [Whisper.announce_envelopes] at h
    exact .inl h
  | _ => exact .inl h

/-- The confirmations that the jobs of the loop will start. -/
def toConfirm (l : Loop) : Nat := l.jobs.countP Job.confirms

theorem toConfirm_eq_zero (h : ∀ j ∈ l.jobs, j.Quiet) : l.toConfirm = 0 := by
  refine List.countP_eq_zero.mpr fun j hj => ?_
  have hquiet := h j hj
  cases j with
  | confirm data => exact hquiet.elim
  | _ => exact Bool.false_ne_true

/-- A job that starts a goroutine leaves one confirmation less. -/
theorem toConfirm_work (C : Crypto) (now : UInt32) (sync : Option GoError) (w : Whisper)
    (l : Loop) : (l.work C now sync w).2.toConfirm ≤ l.toConfirm ∧
    ((l.work C now sync w).2.confirmations = l.confirmations ∨
      (l.work C now sync w).2.toConfirm < l.toConfirm) := by
  have hleaves := work_leaves C now sync w l
  generalize (l.work C now sync w).2 = l' at hleaves
  unfold toConfirm
  cases hleaves with
  | idle => exact ⟨le_rfl, .inl rfl⟩
  | next job rest hjobs =>
    refine ⟨?_, .inl rfl⟩
    rw [hjobs]
    exact List.Sublist.countP_le (List.sublist_cons_self job rest)
  | ended => exact ⟨Nat.zero_le _, .inl rfl⟩
  | added e rest mid hjobs hmid =>
    refine ⟨?_, .inl rfl⟩
    have hnone : mid.countP Job.confirms = 0 :=
      toConfirm_eq_zero (l := { l with jobs := mid }) fun j hj => (hmid j hj).quiet
    rw [hjobs, List.countP_append, hnone, Nat.zero_add]
    exact List.Sublist.countP_le (List.sublist_cons_self _ rest)
  | confirmed data rest hjobs =>
    have hmore : l.jobs.countP Job.confirms = rest.countP Job.confirms + 1 := by
      rw [hjobs]
      exact List.countP_cons_of_pos rfl
    rw [hmore]
    exact ⟨Nat.le_succ _, .inr (Nat.lt_succ_self _)⟩

end Loop

/-! ### The steps that carry envelopes along -/

/-- A loop reads a packet or does a job, or a node writes a bundle that is not empty. -/
def CarryStep {N : Type} [DecidableEq N] (C : Crypto) (s t : Mesh N) : Prop :=
  (∃ i j, MeshStep C s (.read i j) t) ∨ (∃ i j now sync, MeshStep C s (.work i j now sync) t) ∨
    ∃ i j l order, s.loops i j = some l ∧ l.peer.bundle C (s.node i) order ≠ [] ∧
      MeshStep C s (.broadcast i j order true) t

theorem CarryStep.meshStep {N : Type} [DecidableEq N] {C : Crypto} {s t : Mesh N}
    (h : CarryStep C s t) : ∃ a, MeshStep C s a t := by
  obtain ⟨i, j, h⟩ | ⟨i, j, now, sync, h⟩ | ⟨i, j, l, order, -, -, h⟩ := h <;> exact ⟨_, h⟩

/-- A goroutine of `sendConfirmation` that has come to the end of `sent` of its writes. -/
structure Confirming where
  batchHash : Hash
  envelopeErrors : List EnvelopeError
  sent : Nat := 0

/-- The packets that the goroutine has not written. -/
def Confirming.left (c : Confirming) : List Packet :=
  (sendConfirmation c.batchHash c.envelopeErrors).drop c.sent

theorem Confirming.code_ne {c : Confirming} {packet : Packet} (h : packet ∈ c.left) :
    packet.code ≠ messagesCode := by
  have hmem := List.mem_of_mem_drop h
  simp only [sendConfirmation, List.mem_cons, List.not_mem_nil, or_false] at hmem
  obtain rfl | rfl := hmem
  · show messageResponseCode ≠ messagesCode
    decide
  · show batchAcknowledgedCode ≠ messagesCode
    decide

/-- The confirmations that the loop of `i` for `j` has started. -/
def Mesh.confirmations {N : Type} (s : Mesh N) (i j : N) : List (Hash × List EnvelopeError) :=
  ((s.loops i j).map Loop.confirmations).getD []

/-- A network with the goroutines of `sendConfirmation`: `confirming i j` are those which write from
`i` to `j`. -/
structure Gossip (N : Type) where
  mesh : Mesh N
  confirming : N → N → List Confirming := fun _ _ => []

namespace Gossip

variable {N : Type}

/-- The goroutines after a step to `mesh`, with those that the loops have started in it. -/
def started (s : Gossip N) (mesh : Mesh N) (i j : N) : List Confirming :=
  s.confirming i j ++ ((mesh.confirmations i j).drop (s.mesh.confirmations i j).length).map fun c =>
    { batchHash := c.1, envelopeErrors := c.2 }

/-- No loop starts a goroutine. -/
theorem started_eq {s : Gossip N} {mesh : Mesh N}
    (h : ∀ i j, mesh.confirmations i j = s.mesh.confirmations i j) :
    s.started mesh = s.confirming := by
  funext i j
  unfold started
  rw [h, List.drop_length, List.map_nil, List.append_nil]

end Gossip

/-- A step that carries envelopes along, or a goroutine comes to the end of its next write, which it
goes on after also when it has failed. -/
inductive GossipStep {N : Type} [DecidableEq N] (C : Crypto) (s : Gossip N) : Gossip N → Prop
  | carry {mesh : Mesh N} (h : CarryStep C s.mesh mesh) :
      GossipStep C s { mesh, confirming := s.started mesh }
  | confirm {i j : N} {before after : List Confirming} {c : Confirming} {packet : Packet}
      {rest : List Packet} (hc : s.confirming i j = before ++ c :: after)
      (hleft : c.left = packet :: rest) (written : Bool) :
      GossipStep C s
        { mesh := if written then s.mesh.setWire i j (s.mesh.wire i j ++ [packet]) else s.mesh
          confirming := Function.update s.confirming i (Function.update (s.confirming i) j
            (before ++ { c with sent := c.sent + 1 } :: after)) }

theorem GossipStep.meshStep {N : Type} [DecidableEq N] {C : Crypto} {s t : Gossip N}
    (h : GossipStep C s t) : CarryStep C s.mesh t.mesh ∨
      (∃ i j packet, MeshStep C s.mesh (.transmit i j packet) t.mesh) ∨ t.mesh = s.mesh := by
  cases h with
  | carry h => exact .inl h
  | confirm hc hleft written =>
    cases written with
    | false => exact .inr (.inr rfl)
    | true =>
      exact .inr (.inl ⟨_, _, _, Confirming.code_ne (hleft ▸ List.mem_cons_self), rfl⟩)

namespace Mesh

/-- Every hash in a pool or on the way is in `U`. -/
structure Within {N : Type} (C : Crypto) (U : Finset Hash) (s : Mesh N) : Prop where
  pool : ∀ i, (s.flood C).pool i ⊆ U
  transit : ∀ i j, (s.flood C).transit i j ⊆ U

/-- A list of jobs has finitely many envelopes for `add`. -/
theorem finite_added (C : Crypto) (jobs : List Job) :
    {k | ∃ e, Job.add e ∈ jobs ∧ e.hash C = k}.Finite := by
  let hash : Job → Hash := fun
    | .add e => e.hash C
    | _ => 0
  refine ((jobs.map hash).toFinset.finite_toSet).subset ?_
  rintro k ⟨e, he, rfl⟩
  exact List.mem_toFinset.mpr (List.mem_map_of_mem (f := hash) he)

theorem finite_carries (C : Crypto) (packet : Packet) : {k | packet.Carries C k}.Finite := by
  cases h : packet.messagesJobs C with
  | error fault =>
    refine Set.finite_empty.subset ?_
    rintro k ⟨-, jobs, e, hok, -⟩
    cases h.symm.trans hok
  | ok jobs =>
    refine (finite_added C jobs).subset ?_
    rintro k ⟨-, jobs', e, hok, hk⟩
    cases h.symm.trans hok
    exact ⟨e, hk⟩

theorem exists_within {N : Type} [Finite N] (C : Crypto) (s : Mesh N) :
    ∃ U, s.Within C U := by
  have hpool : (⋃ i, (s.flood C).pool i).Finite := by
    refine Set.finite_iUnion fun i => ((s.node i).envelopes.keys.finite_toSet).subset ?_
    exact fun k hk => Finmap.mem_keys.mpr hk
  have htransit : (⋃ i, ⋃ j, (s.flood C).transit i j).Finite := by
    refine Set.finite_iUnion fun i => Set.finite_iUnion fun j => ?_
    have hwire : (⋃ packet ∈ (s.wire i j).toFinset, {k | packet.Carries C k}).Finite :=
      (Finset.finite_toSet _).biUnion fun packet _ => finite_carries C packet
    have hjobs : (⋃ l ∈ (s.loops j i).toFinset, {k | l.Awaits C k}).Finite :=
      (Finset.finite_toSet _).biUnion fun l _ => finite_added C l.jobs
    refine (hwire.union hjobs).subset ?_
    rintro k (⟨packet, hpacket, hk⟩ | ⟨l, hl, hk⟩)
    · exact .inl (Set.mem_biUnion (List.mem_toFinset.mpr hpacket) hk)
    · exact .inr (Set.mem_biUnion (Option.mem_toFinset.mpr hl) hk)
  obtain ⟨U, hU⟩ := (hpool.union htransit).exists_finset_coe
  refine ⟨U, fun i k hk => ?_, fun i j k hk => ?_⟩
  · rw [hU]
    exact .inl (Set.mem_iUnion.mpr ⟨i, hk⟩)
  · rw [hU]
    exact .inr (Set.mem_iUnion.mpr ⟨i, Set.mem_iUnion.mpr ⟨j, hk⟩⟩)

section Steps

variable {N : Type} [DecidableEq N] {C : Crypto} {s t : Mesh N}

/-- Gossip brings no hash into the pools. -/
theorem Within.pool_carry {U : Finset Hash} (hs : s.Within C U) (h : CarryStep C s t) (a : N) :
    (t.flood C).pool a ⊆ U := by
  intro k hk
  obtain ⟨i, j, l, packet, rest, -, -, -, -, rfl⟩ | ⟨i, j, now, sync, l, hl, -, rfl⟩ |
    ⟨i, j, l, order, -, -, l', -, -, -, rfl⟩ := h
  · exact hs.pool a hk
  · change k ∈ ((s.setNode i (l.work C now sync (s.node i)).1
      (l.turnedAway C now (s.node i))).node a).envelopes at hk
    rw [node_setNode] at hk
    split at hk
    · obtain hk | hk := Loop.mem_envelopes_of_work hk
      · exact hs.pool i hk
      · exact hs.transit j i (.inr ⟨l, hl, hk⟩)
    · exact hs.pool a hk
  · change k ∈ ((s.setNode i (l'.peer.broadcast C (s.node i) order true).2.1 ∅).node a).envelopes
      at hk
    rw [node_setNode] at hk
    split at hk
    · refine hs.pool i ?_
      obtain ⟨-, heq⟩ | ⟨-, -, heq⟩ := l'.peer.broadcast_cases C (s.node i) order true
      · rw [heq] at hk
        exact hk
      · rw [heq] at hk
        exact hk
    · exact hs.pool a hk

/-- What is on the way after a step was on the way or in a pool. -/
theorem Within.transit_step {U : Finset Hash} (hs : s.Within C U) (hgenuine : s.Genuine C)
    {a : MeshAction N} (h : MeshStep C s a t) (i j : N) : (t.flood C).transit i j ⊆ U := by
  intro k hk
  obtain hk | hk := (flood_step hgenuine h).transit i j hk
  · exact hs.transit i j hk
  · exact hs.pool i hk

/-- Gossip keeps the network genuine and brings no hash into it. -/
theorem Within.step {U : Finset Hash} {s t : Gossip N} (hs : s.mesh.Within C U)
    (hgenuine : s.mesh.Genuine C) (h : GossipStep C s t) :
    t.mesh.Within C U ∧ t.mesh.Genuine C := by
  obtain hcarry | ⟨i, j, packet, hstep⟩ | hsame := h.meshStep
  · obtain ⟨a, hstep⟩ := hcarry.meshStep
    exact ⟨⟨hs.pool_carry hcarry, hs.transit_step hgenuine hstep⟩, hgenuine.step hstep⟩
  · refine ⟨⟨fun a => ?_, hs.transit_step hgenuine hstep⟩, hgenuine.step hstep⟩
    obtain ⟨-, hmesh⟩ := hstep
    rw [hmesh]
    exact hs.pool a
  · rw [hsame]
    exact ⟨hs, hgenuine⟩

variable [Fintype N]

/-- The sum over the connections. -/
def total {V : Type} (g : V → Nat) (f : N → N → V) : Nat := ∑ p : N × N, g (f p.1 p.2)

section Total

variable {V : Type} {g : V → Nat} {f : N → N → V} {i j : N} {v : V}

theorem total_update_le (h : g v ≤ g (f i j)) :
    total g (Function.update f i (Function.update (f i) j v)) ≤ total g f := by
  refine Finset.sum_le_sum fun p _ => ?_
  rw [update_update_apply]
  split
  · rename_i hp
    rw [hp.1, hp.2]
    exact h
  · exact le_rfl

theorem total_update_lt (h : g v < g (f i j)) :
    total g (Function.update f i (Function.update (f i) j v)) < total g f := by
  refine Finset.sum_lt_sum (fun p _ => ?_) ⟨(i, j), Finset.mem_univ _, ?_⟩
  · rw [update_update_apply]
    split
    · rename_i hp
      rw [hp.1, hp.2]
      exact h.le
    · exact le_rfl
  · rw [update_update_apply, if_pos ⟨rfl, rfl⟩]
    exact h

end Total

/-- The hashes that the peer of a loop is known to hold. -/
def knownOf (l : Option Loop) : Finset Hash := (l.map fun l => l.peer.known).getD ∅

/-- The bundles among the packets. -/
def bundlesIn (packets : List Packet) : Nat :=
  packets.countP fun packet => packet.code = messagesCode

/-- The confirmations that a loop will start. -/
def confirmsOf (l : Option Loop) : Nat := (l.map Loop.toConfirm).getD 0

/-- The steps of the jobs that a loop has left. -/
def stepsOf (l : Option Loop) : Nat := (l.map Loop.left).getD 0

/-- The hashes of `U` that the ends of the connections are not known to hold. -/
def unknown (U : Finset Hash) (s : Mesh N) : Nat := total (fun l => (U \ knownOf l).card) s.loops

/-- The bundles that are not read. -/
def bundles (s : Mesh N) : Nat := total bundlesIn s.wire

/-- The confirmations that are not started. -/
def unconfirmed (s : Mesh N) : Nat := total confirmsOf s.loops

/-- The packets that are not read. -/
def unread (s : Mesh N) : Nat := total List.length s.wire

/-- The steps of the jobs that the loops have left. -/
def undone (s : Mesh N) : Nat := total stepsOf s.loops

end Steps

end Mesh

namespace Gossip

open Mesh

variable {N : Type} [DecidableEq N] [Fintype N] {C : Crypto} {s t : Gossip N} {mesh : Mesh N}
  {U : Finset Hash}

/-- The packets that the goroutines have not written. -/
def packetsOf (cs : List Confirming) : Nat := (cs.map fun c => c.left.length).sum

/-- The packets of confirmations that are not written. -/
def unwritten (confirming : N → N → List Confirming) : Nat := total packetsOf confirming

/-- What is left of the gossip. -/
def remaining (U : Finset Hash) (s : Gossip N) : ℕ ×ₗ ℕ ×ₗ ℕ ×ₗ ℕ ×ₗ ℕ ×ₗ ℕ :=
  toLex (s.mesh.unknown U, toLex (s.mesh.bundles, toLex (s.mesh.unconfirmed,
    toLex (unwritten s.confirming, toLex (s.mesh.unread, s.mesh.undone)))))

/-- A loop whose peer is known to hold as much leaves no more unknown. -/
theorem unknown_setLoop_le {m : Mesh N} {i j : N} {l l' : Loop} (hl : m.loops i j = some l)
    (hknown : l.peer.known ⊆ l'.peer.known) :
    (m.setLoop i j (some l')).unknown U ≤ m.unknown U := by
  refine total_update_le (g := fun l => (U \ knownOf l).card) (Finset.card_le_card ?_)
  rw [hl]
  exact Finset.sdiff_subset_sdiff le_rfl hknown

/-- A bundle that is read is one less, and another packet starts no confirmation. -/
theorem remaining_lt_of_read {i j : N} (h : MeshStep C s.mesh (.read i j) mesh) :
    remaining U { mesh, confirming := s.started mesh } < s.remaining U := by
  obtain ⟨l, packet, rest, hl, hjobs, -, hwire, rfl⟩ := h
  generalize hl' : l.read C (s.mesh.node i) packet = l'
  have hunknown : ((s.mesh.setLoop i j (some l')).setWire j i rest).unknown U ≤
      s.mesh.unknown U := by
    obtain ⟨pow, bloom, full, hpeer⟩ := l.read_peer C (s.mesh.node i) packet
    exact unknown_setLoop_le hl (by rw [← hl', hpeer])
  have hunread : ((s.mesh.setLoop i j (some l')).setWire j i rest).unread < s.mesh.unread := by
    refine total_update_lt (g := List.length) ?_
    show rest.length < (s.mesh.wire j i).length
    rw [hwire]
    exact Nat.lt_succ_self _
  have hstarted : s.started ((s.mesh.setLoop i j (some l')).setWire j i rest) = s.confirming := by
    refine started_eq fun a b => ?_
    show (((s.mesh.setLoop i j (some l')).loops a b).map Loop.confirmations).getD [] = _
    rw [loops_setLoop]
    split
    · rename_i hab
      show l'.confirmations = ((s.mesh.loops a b).map Loop.confirmations).getD []
      rw [hab.1, hab.2, hl, ← hl']
      exact l.read_confirmations C (s.mesh.node i) packet
    · rfl
  simp only [remaining, hstarted, Prod.Lex.toLex_lt_toLex, true_and]
  by_cases hcode : packet.code = messagesCode
  · have hbundles : ((s.mesh.setLoop i j (some l')).setWire j i rest).bundles < s.mesh.bundles := by
      refine total_update_lt (g := bundlesIn) ?_
      show bundlesIn rest < bundlesIn (s.mesh.wire j i)
      rw [hwire, bundlesIn, bundlesIn, List.countP_cons_of_pos (by simpa using hcode)]
      exact Nat.lt_succ_self _
    omega
  · have hbundles : ((s.mesh.setLoop i j (some l')).setWire j i rest).bundles ≤ s.mesh.bundles := by
      refine total_update_le (g := bundlesIn) ?_
      show bundlesIn rest ≤ bundlesIn (s.mesh.wire j i)
      rw [hwire]
      exact List.Sublist.countP_le (List.sublist_cons_self packet rest)
    have hconfirm : ((s.mesh.setLoop i j (some l')).setWire j i rest).unconfirmed ≤
        s.mesh.unconfirmed := by
      refine total_update_le (g := confirmsOf) ?_
      show l'.toConfirm ≤ _
      rw [Loop.toConfirm_eq_zero]
      · exact Nat.zero_le _
      · intro job hjob
        rw [← hl'] at hjob
        exact Loop.read_quiet hcode hjob
    omega

/-- A job leaves fewer steps, and if it starts a confirmation, fewer of them. -/
theorem remaining_lt_of_work {i j : N} {now : UInt32} {sync : Option GoError}
    (h : MeshStep C s.mesh (.work i j now sync) mesh) :
    remaining U { mesh, confirming := s.started mesh } < s.remaining U := by
  obtain ⟨l, hl, hjobs, rfl⟩ := h
  obtain ⟨hle, hstarts⟩ := l.toConfirm_work C now sync (s.mesh.node i)
  have hunknown : (s.mesh.work C i j l now sync).unknown U ≤ s.mesh.unknown U :=
    unknown_setLoop_le (m := s.mesh.setNode i _ _) hl Loop.known_subset_work
  have hundone : (s.mesh.work C i j l now sync).undone < s.mesh.undone := by
    refine total_update_lt (g := stepsOf) ?_
    show (l.work C now sync (s.mesh.node i)).2.left < stepsOf (s.mesh.loops i j)
    rw [hl]
    exact Loop.left_work_lt hjobs
  have hunread : (s.mesh.work C i j l now sync).unread = s.mesh.unread := rfl
  have hbundles : (s.mesh.work C i j l now sync).bundles = s.mesh.bundles := rfl
  have hconfirm : (s.mesh.work C i j l now sync).unconfirmed ≤ s.mesh.unconfirmed := by
    refine total_update_le (g := confirmsOf) ?_
    show (l.work C now sync (s.mesh.node i)).2.toConfirm ≤ confirmsOf (s.mesh.loops i j)
    rw [hl]
    exact hle
  obtain hsame | hfewer := hstarts
  · have hstarted : s.started (s.mesh.work C i j l now sync) = s.confirming := by
      refine started_eq fun a b => ?_
      show ((((s.mesh.setNode i _ _).setLoop i j _).loops a b).map Loop.confirmations).getD [] = _
      rw [loops_setLoop]
      split
      · rename_i hab
        show _ = ((s.mesh.loops a b).map Loop.confirmations).getD []
        rw [hab.1, hab.2, hl]
        exact hsame
      · rfl
    simp only [remaining, hstarted, Prod.Lex.toLex_lt_toLex, true_and]
    omega
  · have hconfirm : (s.mesh.work C i j l now sync).unconfirmed < s.mesh.unconfirmed := by
      refine total_update_lt (g := confirmsOf) ?_
      show (l.work C now sync (s.mesh.node i)).2.toConfirm < confirmsOf (s.mesh.loops i j)
      rw [hl]
      exact hfewer
    simp only [remaining, Prod.Lex.toLex_lt_toLex]
    omega

/-- A bundle is of hashes that are not known yet. -/
theorem remaining_lt_of_broadcast (hs : s.mesh.Within C U) (hgenuine : s.mesh.Genuine C)
    {i j : N} {l : Loop} {order : List Hash} (hl : s.mesh.loops i j = some l)
    (hbundle : l.peer.bundle C (s.mesh.node i) order ≠ [])
    (h : MeshStep C s.mesh (.broadcast i j order true) mesh) :
    remaining U { mesh, confirming := s.started mesh } < s.remaining U := by
  obtain ⟨l', hl', -, -, rfl⟩ := h
  cases hl.symm.trans hl'
  obtain ⟨hnone, -⟩ | ⟨-, -, heq⟩ := l.peer.broadcast_cases C (s.mesh.node i) order true
  · exact absurd (hnone.resolve_right Bool.noConfusion) hbundle
  obtain ⟨e, rest, hcons⟩ := List.exists_cons_of_ne_nil hbundle
  have he : e ∈ l.peer.bundle C (s.mesh.node i) order := by rw [hcons]; exact List.mem_cons_self
  obtain ⟨⟨k, -, hlookup⟩, hselects⟩ := Peer.mem_bundle.mp he
  have hkey := ((hgenuine.node i).consistent.pooled k e hlookup).1
  have hU : k ∈ U := hs.pool i (Finmap.mem_of_lookup_eq_some hlookup)
  have hunknown : (s.mesh.broadcast C i j l order true).unknown U < s.mesh.unknown U := by
    refine total_update_lt (g := fun l => (U \ knownOf l).card) (Finset.card_lt_card ?_)
    show U \ (l.peer.broadcast C (s.mesh.node i) order true).1.known ⊂
      U \ knownOf (s.mesh.loops i j)
    rw [heq, hl]
    refine Finset.ssubset_iff_subset_ne.mpr ⟨Finset.sdiff_subset_sdiff le_rfl ?_, fun hsame => ?_⟩
    · exact fun x hx => Peer.mem_known_foldl_mark.mpr (.inl hx)
    · have hbefore : k ∈ U \ knownOf (some l) :=
        Finset.mem_sdiff.mpr ⟨hU, hkey ▸ (Peer.selects_iff.mp hselects).1⟩
      rw [← hsame] at hbefore
      refine (Finset.mem_sdiff.mp hbefore).2 (Peer.mem_known_foldl_mark.mpr (.inr ?_))
      exact List.mem_map.mpr ⟨e, he, hkey⟩
  rw [remaining, remaining, Prod.Lex.toLex_lt_toLex]
  exact .inl hunknown

/-- A write leaves its goroutine fewer of them; the packets of confirmations are no bundles. -/
theorem remaining_lt_of_confirm {i j : N} {before after : List Confirming} {c : Confirming}
    {packet : Packet} {rest : List Packet} (hc : s.confirming i j = before ++ c :: after)
    (hleft : c.left = packet :: rest) (written : Bool) :
    remaining U
      { mesh := if written then s.mesh.setWire i j (s.mesh.wire i j ++ [packet]) else s.mesh
        confirming := Function.update s.confirming i (Function.update (s.confirming i) j
          (before ++ { c with sent := c.sent + 1 } :: after)) } < s.remaining U := by
  have hnext : ({ c with sent := c.sent + 1 } : Confirming).left = rest := by
    show (sendConfirmation c.batchHash c.envelopeErrors).drop (c.sent + 1) = rest
    rw [← List.tail_drop]
    exact congrArg List.tail hleft
  have hunwritten : unwritten (Function.update s.confirming i (Function.update (s.confirming i) j
      (before ++ { c with sent := c.sent + 1 } :: after))) < unwritten s.confirming := by
    refine total_update_lt (g := packetsOf) ?_
    rw [hc]
    simp only [packetsOf, List.map_append, List.map_cons, List.sum_append, List.sum_cons, hnext,
      hleft, List.length_cons]
    omega
  cases written with
  | false =>
    simp only [Bool.false_eq_true, if_false, remaining, Prod.Lex.toLex_lt_toLex, true_and]
    omega
  | true =>
    have hbundles : (s.mesh.setWire i j (s.mesh.wire i j ++ [packet])).bundles ≤
        s.mesh.bundles := by
      refine total_update_le (g := bundlesIn) ?_
      have hcode : packet.code ≠ messagesCode :=
        Confirming.code_ne (c := c) (by rw [hleft]; exact List.mem_cons_self)
      rw [bundlesIn, List.countP_append, List.countP_cons_of_neg (by simpa using hcode),
        List.countP_nil]
      exact le_rfl
    have hunknown : (s.mesh.setWire i j (s.mesh.wire i j ++ [packet])).unknown U =
        s.mesh.unknown U := rfl
    have hconfirm : (s.mesh.setWire i j (s.mesh.wire i j ++ [packet])).unconfirmed =
        s.mesh.unconfirmed := rfl
    simp only [if_true, remaining, Prod.Lex.toLex_lt_toLex]
    omega

theorem remaining_lt (hs : s.mesh.Within C U) (hgenuine : s.mesh.Genuine C)
    (h : GossipStep C s t) : t.remaining U < s.remaining U := by
  cases h with
  | carry h =>
    obtain ⟨i, j, h⟩ | ⟨i, j, now, sync, h⟩ | ⟨i, j, l, order, hl, hbundle, h⟩ := h
    · exact remaining_lt_of_read h
    · exact remaining_lt_of_work h
    · exact remaining_lt_of_broadcast hs hgenuine hl hbundle h
  | confirm hc hleft written => exact remaining_lt_of_confirm hc hleft written

/-- There is no endless gossip in a finite network. -/
theorem gossip_ends (hgenuine : s.mesh.Genuine C) (f : Nat → Gossip N) (hf : f 0 = s) :
    ∃ n, ¬ GossipStep C (f n) (f (n + 1)) := by
  obtain ⟨U, hU⟩ := s.mesh.exists_within C
  by_contra hnone
  have hall : ∀ n, GossipStep C (f n) (f (n + 1)) := by
    intro n
    by_contra hn
    exact hnone ⟨n, hn⟩
  have hinv : ∀ n, (f n).mesh.Within C U ∧ (f n).mesh.Genuine C := by
    intro n
    induction n with
    | zero => exact hf ▸ ⟨hU, hgenuine⟩
    | succ n ih => exact ih.1.step ih.2 (hall n)
  obtain ⟨n, hn⟩ := WellFounded.not_rel_apply_succ (r := (· < ·)) fun n => (f n).remaining U
  exact hn (remaining_lt (hinv n).1 (hinv n).2 (hall n))

end Gossip

namespace Mesh

section Rest

variable {N : Type} [DecidableEq N] {C : Crypto}

/-- Where no step is left, the connections that both ends still serve are at rest. -/
theorem atRest_of_stuck {s : Mesh N} (hstuck : ∀ u, ¬ CarryStep C s u) {i j : N} {l m : Loop}
    (hl : s.loops i j = some l) (hm : s.loops j i = some m) (hrunning : m.returned = none)
    (hlen : ∀ order, IsOrder (s.node i).envelopes.keys order →
      (Peer.bundlePacket (l.peer.bundle C (s.node i) order)).payload.length < 2 ^ 32) :
    s.AtRest C i j := by
  have hjobs : m.jobs = [] := by
    by_contra hjobs
    exact hstuck _ (.inr (.inl ⟨j, i, 0, none, m, hm, hjobs, rfl⟩))
  refine ⟨⟨m, hm, hrunning, hjobs⟩, ?_, l, hl, fun order horder => ?_⟩
  · by_contra hwire
    obtain ⟨packet, rest, hcons⟩ := List.exists_cons_of_ne_nil hwire
    exact hstuck _ (.inl ⟨j, i, m, packet, rest, hm, hjobs, hrunning, hcons, rfl⟩)
  · by_contra hbundle
    exact hstuck _ (.inr (.inr ⟨i, j, l, order, hl, hbundle, l, hl, horder,
      fun _ => hlen order horder, rfl⟩))

/-- Where no step is left, every goroutine has come to its end. -/
theorem left_of_stuck {s : Gossip N} (hstuck : ∀ u, ¬ GossipStep C s u) {i j : N} {c : Confirming}
    (hc : c ∈ s.confirming i j) : c.left = [] := by
  by_contra hleft
  obtain ⟨packet, rest, hcons⟩ := List.exists_cons_of_ne_nil hleft
  obtain ⟨before, after, hsplit⟩ := List.append_of_mem hc
  exact hstuck _ (.confirm hsplit hcons true)

/-- From every state that a finite network reaches, whatever confirmations it has in hand, the steps
that carry envelopes and confirmations along come to an end, in whatever order they are taken.
Where none of them is left, the confirmations are written; and where no envelope can be carried
along, every connection that both ends serve is at rest, if its bundles can be written. -/
theorem gossip_comes_to_rest [Fintype N] (C : Crypto) (cfg : N → Config)
    {acts : List (MeshAction N)} {s : Gossip N} (run : Run (MeshStep C) (start cfg) acts s.mesh) :
    (∀ f : Nat → Gossip N, f 0 = s → ∃ n, ¬ GossipStep C (f n) (f (n + 1))) ∧
    (∃ t, Relation.ReflTransGen (GossipStep C) s t ∧ ∀ u, ¬ GossipStep C t u) ∧
    ∀ t, Relation.ReflTransGen (GossipStep C) s t →
      ((∀ u, ¬ GossipStep C t u) →
        (∀ u, ¬ CarryStep C t.mesh u) ∧ ∀ i j, ∀ c ∈ t.confirming i j, c.left = []) ∧
      ((∀ u, ¬ CarryStep C t.mesh u) → ∀ i j l m, t.mesh.loops i j = some l →
        t.mesh.loops j i = some m → m.returned = none →
        (∀ order, IsOrder (t.mesh.node i).envelopes.keys order →
          (Peer.bundlePacket (l.peer.bundle C (t.mesh.node i) order)).payload.length < 2 ^ 32) →
        t.mesh.AtRest C i j) := by
  have hends := Gossip.gossip_ends (run_genuine run)
  refine ⟨hends, ?_, fun t _ => ⟨fun hstuck => ⟨fun u hu => hstuck _ (.carry hu), ?_⟩, ?_⟩⟩
  · by_contra hnone
    -- otherwise every state on the way has a next one
    have hnext : ∀ t : {t // Relation.ReflTransGen (GossipStep C) s t},
        ∃ u : {t // Relation.ReflTransGen (GossipStep C) s t}, GossipStep C t.1 u.1 := by
      rintro ⟨t, ht⟩
      by_contra hstuck
      exact hnone ⟨t, ht, fun u hu => hstuck ⟨⟨u, ht.tail hu⟩, hu⟩⟩
    choose next hstep using hnext
    obtain ⟨n, hn⟩ := hends (fun n => (next^[n] ⟨s, .refl⟩).1) rfl
    rw [Function.iterate_succ_apply'] at hn
    exact hn (hstep _)
  · intro i j c hc
    exact left_of_stuck hstuck hc
  · intro hstuck i j l m hl hm hrunning hlen
    exact atRest_of_stuck hstuck hl hm hrunning hlen

/-- The bundle that the first node has written is handled and confirmed, and nothing is left to do;
once the second node has it, nothing can be carried along, and the connection is at rest. -/
theorem gossip_comes_to_rest_pair :
    (∃ t, Relation.ReflTransGen (GossipStep sampleCrypto) { mesh := pairOffered } t ∧
      ∀ u, ¬ GossipStep sampleCrypto t u) ∧ pairSettled.AtRest sampleCrypto false true := by
  refine ⟨(gossip_comes_to_rest sampleCrypto (fun _ => {}) (s := { mesh := pairOffered })
    pairOffered_run).2.1, ?_⟩
  have hwire : ∀ i j, pairSettled.wire i j = [] := by decide +kernel
  have hloops : ∀ i j, ∀ l ∈ pairSettled.loops i j, l.jobs = [] ∧ l.returned = none := by
    decide +kernel
  have hstuck : ∀ u, ¬ CarryStep sampleCrypto pairSettled u := by
    rintro u (⟨i, j, l, packet, rest, -, -, -, hread, -⟩ | ⟨i, j, now, sync, l, hl, hjobs, -⟩ |
      ⟨i, j, l, order, hl, hbundle, -⟩)
    · rw [hwire] at hread
      cases hread
    · exact hjobs (hloops i j l hl).1
    · exact hbundle (pairSettled_bundle hl order)
  obtain ⟨l, hl⟩ : ∃ l, pairSettled.loops false true = some l :=
    Option.isSome_iff_exists.mp (by decide +kernel)
  obtain ⟨m, hm⟩ : ∃ m, pairSettled.loops true false = some m :=
    Option.isSome_iff_exists.mp (by decide +kernel)
  refine ((gossip_comes_to_rest sampleCrypto (fun _ => {}) (s := { mesh := pairSettled })
    pairSettled_run).2.2 _ .refl).2 hstuck false true l m hl hm (hloops true false m hm).2 ?_
  intro order _
  show (Peer.bundlePacket
    (l.peer.bundle sampleCrypto (pairSettled.node false) order)).payload.length < 2 ^ 32
  rw [pairSettled_bundle hl order]
  decide +kernel

end Rest

end Mesh

end Whisperv6
