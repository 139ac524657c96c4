import Whisperv6.Links

/-! The slice of peers that a notification visits.  `getPeers` reads the number of peers before it
takes the lock and the peers themselves under it, so peers that come or go in between leave the
slice too short or with nil pointers at its end. -/

namespace Whisperv6

open ProofKit

/-! ### The two loops -/

/-- The loop of `getPeers` from the index `i` on: `none` is an index out of range. -/
def fillPeers : (arr : List (Option PeerRef)) → (i : Nat) → (order : List PeerRef) →
    Option (List (Option PeerRef))
  | arr, _, [] => some arr
  | arr, i, p :: order =>
    if i < arr.length then fillPeers (arr.set i (some p)) (i + 1) order else none

/-- The loops of `notifyPeersAboutPowRequirementChange` and `notifyPeersAboutBloomFilterChange`: the
peers that are notified, or `none` for a nil pointer that is dereferenced. -/
def visitPeers : List (Option PeerRef) → Option (List PeerRef)
  | [] => some []
  | none :: _ => none
  | some p :: arr => (visitPeers arr).map (p :: ·)

/-- The loop with the peers `filled` behind it and `n` nil pointers before it. -/
theorem fillPeers_append (filled order : List PeerRef) (n : Nat) :
    fillPeers (filled.map some ++ List.replicate n none) filled.length order =
      if n < order.length then none
      else some ((filled ++ order).map some ++ List.replicate (n - order.length) none) := by
  induction order generalizing filled n with
  | nil => simp [fillPeers]
  | cons p order ih =>
    cases n with
    | zero => simp [fillPeers]
    | succ n =>
      have hset : (filled.map some ++ List.replicate (n + 1) none).set filled.length (some p) =
          (filled ++ [p]).map some ++ List.replicate n none := by
        rw [List.set_append_right _ _ (by simp)]
        simp [List.replicate_succ]
      have hnext := ih (filled ++ [p]) n
      rw [List.length_append, List.length_singleton] at hnext
      rw [fillPeers, if_pos (by simp), hset, hnext]
      simp

theorem fillPeers_eq (count : Nat) (order : List PeerRef) :
    fillPeers (List.replicate count none) 0 order = getPeers count order :=
  fillPeers_append [] order count

theorem visitPeers_some (order : List PeerRef) : visitPeers (order.map some) = some order := by
  induction order with
  | nil => rfl
  | cons p order ih => simp [visitPeers, ih]

theorem visitPeers_none {arr : List (Option PeerRef)} (h : none ∈ arr) : visitPeers arr = none := by
  induction arr with
  | nil => cases h
  | cons p arr ih =>
    cases p with
    | none => rfl
    | some p =>
      have hrest : none ∈ arr := by simpa using h
      simp [visitPeers, ih hrest]

/-- A slice for as many peers as there are holds them all. -/
theorem fillPeers_exact (order : List PeerRef) :
    fillPeers (List.replicate order.length none) 0 order = some (order.map some) := by
  rw [fillPeers_eq, getPeers, if_neg (lt_irrefl _)]
  simp

/-- A slice for fewer peers is too short. -/
theorem fillPeers_joined {count : Nat} {order : List PeerRef} (h : count < order.length) :
    fillPeers (List.replicate count none) 0 order = none := by
  rw [fillPeers_eq, getPeers, if_pos h]

/-- A slice for more peers has a nil pointer left, which the notification dereferences. -/
theorem fillPeers_left {count : Nat} {order : List PeerRef} (h : order.length < count) :
    ∃ arr, fillPeers (List.replicate count none) 0 order = some arr ∧ none ∈ arr ∧
      visitPeers arr = none := by
  have hnil : none ∈ order.map some ++ List.replicate (count - order.length) none := by
    rw [List.mem_append, List.mem_replicate]
    exact .inr ⟨by omega, rfl⟩
  refine ⟨_, ?_, hnil, visitPeers_none hnil⟩
  rw [fillPeers_eq, getPeers, if_neg (by omega)]

/-! ### Between the two moments -/

namespace Links

variable {C : Crypto} {s t : Links} {a : LinkAction} {acts : List LinkAction} {i : Nat}
  {v : Change} {count : Nat}

/-- `getPeers`, called now by the call `i`, returns exactly the peers that are registered, in the
order of the loop, and each of them is notified. -/
def NotifiesPeers (s : Links) (i : Nat) : Prop :=
  ∀ v count order, s.calls i = some (.counted v count) → IsOrder s.peers order →
    fillPeers (List.replicate count none) 0 order = some (order.map some) ∧
      visitPeers (order.map some) = some order

theorem calls_begin_of_ne {j : Nat} (hne : i ≠ j) (call : SetterCall) :
    (s.begin C j call).calls i = s.calls i := by
  cases call with
  | setMinimumPoW val => exact s.calls_setCall_of_ne hne _
  | setBloomFilter bloom => exact s.calls_setCall_of_ne hne _
  | subscribe rnd r f =>
    simp only [Links.begin]
    split <;> exact calls_setCall_of_ne _ hne _

theorem calls_write (p : PeerRef) (packet : Packet) : (s.write p packet).calls = s.calls := by
  unfold write
  split <;> rfl

/-- The number that a call has read stays until the call takes the lock. -/
theorem calls_counted (hstep : LinkStep C s a t) (hcall : s.calls i = some (.counted v count))
    (ha : ∀ order, a ≠ .getPeers i order) : t.calls i = some (.counted v count) := by
  -- a step of a call in another state is a step of another call
  have hne : ∀ {j : Nat} {c : SetterState}, s.calls j = some c → c ≠ .counted v count →
      i ≠ j := by
    rintro j c hc hother rfl
    rw [hcall] at hc
    exact hother (Option.some.inj hc).symm
  cases hstep with
  | begin hnew =>
    rename_i j call
    have hij : i ≠ j := by
      rintro rfl
      rw [hcall] at hnew
      cases hnew
    rw [calls_begin_of_ne hij, hcall]
  | getPeers hc =>
    rename_i j _ _ order _ _ _
    have hij : i ≠ j := by
      rintro rfl
      exact ha order rfl
    rw [s.calls_setCall_of_ne hij, hcall]
  | notify hc =>
    rename_i written
    rw [calls_setCall_of_ne _ (hne hc (by simp))]
    cases written with
    | false => exact hcall
    | true => exact (congrFun (calls_write ..) i).trans hcall
  | compare hc => rw [s.calls_setCall_of_ne (hne hc (by simp)), hcall]
  | load hc => rw [s.calls_setCall_of_ne (hne hc (by simp)), hcall]
  | store hc => exact (calls_setCall_of_ne _ (hne hc (by simp)) _).trans hcall
  | count hc => rw [s.calls_setCall_of_ne (hne hc (by simp)), hcall]
  | finish hc => rw [s.calls_setCall_of_ne (hne hc (by simp)), hcall]
  | _ => exact hcall

theorem notifiesPeers_iff (hcall : s.calls i = some (.counted v count)) :
    s.NotifiesPeers i ↔ s.peers.card = count := by
  constructor
  · intro h
    obtain ⟨order, horder⟩ := exists_isOrder s.peers
    have hfill := (h v count order hcall horder).1
    rw [← horder.length_eq]
    rcases lt_trichotomy order.length count with hlt | heq | hgt
    · obtain ⟨arr, harr, -, hnil⟩ := fillPeers_left hlt
      rw [hfill] at harr
      cases harr
      rw [visitPeers_some] at hnil
      cases hnil
    · exact heq
    · rw [fillPeers_joined hgt] at hfill
      cases hfill
  · rintro rfl v' count' order hcall' horder
    rw [hcall] at hcall'
    cases hcall'
    rw [← horder.length_eq]
    exact ⟨fillPeers_exact order, visitPeers_some order⟩

/-- A call has read the number of peers, and then the other goroutines have done anything: the call
notifies exactly the registered peers if there are as many as there were.  If there are more,
`getPeers` indexes past its slice; if there are fewer, a nil pointer is dereferenced. -/
theorem notifies_peers_iff {s₁ : Links} (hcount : LinkStep C s (.count i) s₁)
    (hrun : Run (LinkStep C) s₁ acts t) (hbetween : ∀ order, .getPeers i order ∉ acts) :
    (t.NotifiesPeers i ↔ t.peers.card = s.peers.card) ∧
    ∃ v, t.calls i = some (.counted v s.peers.card) ∧ ∀ order, IsOrder t.peers order →
      (s.peers.card < t.peers.card →
        fillPeers (List.replicate s.peers.card none) 0 order = none) ∧
      (t.peers.card < s.peers.card →
        ∃ arr, fillPeers (List.replicate s.peers.card none) 0 order = some arr ∧
          visitPeers arr = none) := by
  cases hcount with
  | count hc =>
    rename_i v
    have hcalls : t.calls i = some (.counted v s.peers.card) := by
      refine hrun.invariant (P := fun u => u.calls i = some (.counted v s.peers.card))
        (s.calls_setCall_self i _) fun u a u' ha hu hstep => ?_
      refine calls_counted hstep hu fun order heq => ?_
      rw [heq] at ha
      exact hbetween order ha
    refine ⟨notifiesPeers_iff hcalls, v, hcalls, fun order horder => ?_⟩
    rw [← horder.length_eq]
    refine ⟨fillPeers_joined, fun hless => ?_⟩
    obtain ⟨arr, harr, -, hnil⟩ := fillPeers_left hless
    exact ⟨arr, harr, hnil⟩

/-- A node whose call 0 has stored a new requirement, without peers and with the peer 1. -/
def storedAlone : Links :=
  (start (new {}).settings).setCall 0 (.stored (.pow 0x3FE0000000000000#64))

def storedWithPeer : Links := { storedAlone with peers := {1} }

/-- After the number was read the peer leaves and another one joins: the call notifies the new
peer. -/
theorem notifies_peers_iff_swapped :
    ∃ t, Run (LinkStep sampleCrypto)
        (storedWithPeer.setCall 0 (.counted (.pow 0x3FE0000000000000#64) 1))
        [.deregister 1, .register 2 sampleRemote] t ∧
      t.peers = {2} ∧ t.NotifiesPeers 0 := by
  have run : Run (LinkStep sampleCrypto)
      (storedWithPeer.setCall 0 (.counted (.pow 0x3FE0000000000000#64) 1))
      [.deregister 1, .register 2 sampleRemote] _ :=
    .cons .deregister (.cons (.register rfl) (.nil _))
  refine ⟨_, run, by decide, ?_⟩
  exact (notifies_peers_iff (s := storedWithPeer) (i := 0) (.count rfl) run (by simp)).1.mpr
    (by decide)

/-- A peer that joins after the number was read makes `getPeers` panic, and a peer that leaves makes
the notification dereference nil. -/
theorem not_notifies_peers :
    (∃ s, Run (LinkStep sampleCrypto) storedAlone [.count 0, .register 1 sampleRemote] s ∧
      s.calls 0 = some (.counted (.pow 0x3FE0000000000000#64) 0) ∧ s.peers = {1} ∧
      fillPeers (List.replicate 0 none) 0 [1] = none ∧ ¬ s.NotifiesPeers 0) ∧
    ∃ s, Run (LinkStep sampleCrypto) storedWithPeer [.count 0, .deregister 1] s ∧
      s.calls 0 = some (.counted (.pow 0x3FE0000000000000#64) 1) ∧ s.peers = ∅ ∧
      fillPeers (List.replicate 1 none) 0 [] = some [none] ∧ visitPeers [none] = none ∧
      ¬ s.NotifiesPeers 0 := by
  constructor
  · refine ⟨_, .cons (.count rfl) (.cons (.register rfl) (.nil _)), rfl, rfl, rfl, fun h => ?_⟩
    exact absurd ((notifiesPeers_iff rfl).mp h) (by decide)
  · refine ⟨_, .cons (.count rfl) (.cons .deregister (.nil _)), rfl, by decide, rfl, rfl,
      fun h => ?_⟩
    exact absurd ((notifiesPeers_iff rfl).mp h) (by decide)

end Links

end Whisperv6
