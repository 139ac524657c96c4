import Mathlib.Data.List.Perm.Basic
import Whisperv6.ProofKit.Broadcast
import Whisperv6.ProofKit.Runs

/-! The feed through which a node sends its events (`event.Feed`).  A `Send` holds the send lock
while it works, so at most one is in progress.  Subscriptions and their ends may come at any time: a
new channel waits in the inbox for the next `Send`, and a channel that is in use is removed by the
`Send` in progress or, when there is none, under the lock. -/

namespace Whisperv6

open ProofKit

/-! ### Lists of cases -/

/-- `caseList`, the cases of a `select`, without the one at its head that receives from `removeSub`:
the index `i` here is `i + firstSubSendCase` there. -/
abbrev CaseList (Ch : Type) := List Ch

namespace CaseList

variable {Ch : Type} [DecidableEq Ch]

/-- The first index of a channel; `none` is the index `-1`. -/
def find (cs : CaseList Ch) (channel : Ch) : Option Nat := cs.findIdx? (· = channel)

/-- Without a case.  The index `-1` is out of range, and the slice expression panics. -/
def delete (cs : CaseList Ch) : Option Nat → Option (CaseList Ch)
  | none => none
  | some index => some (cs.take index ++ cs.drop (index + 1))

/-- The case at `index` changes places with the last one of the first `n` cases. -/
def deactivate (cs : CaseList Ch) (n index : Nat) : CaseList Ch :=
  let last := n - 1
  match cs[index]?, cs[last]? with
  | some a, some b => (cs.set index b).set last a
  | _, _ => cs

end CaseList

/-! ### Sending -/

/-- A `Send` in progress.  Its cases are the first `cases` ones of `sendCases`.  `index` is where
the loop stands that tries to send without blocking, and `none` where it waits in `select`.  The
call is the one with the number `number`; `members` were subscribed when it began, each as often as
it was, and `left` are those of them that were removed before their turn. -/
structure Sending (Ch V : Type) where
  value : V
  cases : Nat
  index : Option Nat := some 0
  nsent : Nat := 0
  number : Nat
  members : Multiset Ch
  left : Multiset Ch := 0

/-- `removing` are the channels of calls of `remove` that have not found them in the inbox.
`received` are the values that each channel was sent, with the numbers of the calls; `sent` are the
values of all calls, and `finished` the calls that have returned. -/
structure Feed (Ch V : Type) where
  inbox : CaseList Ch := []
  sendCases : CaseList Ch := []
  sending : Option (Sending Ch V) := none
  removing : List Ch := []
  panicked : Bool := false
  received : Ch → List (Nat × V) := fun _ => []
  sent : List V := []
  finished : List (Sending Ch V) := []

namespace Feed

variable {Ch V : Type} [DecidableEq Ch] (f : Feed Ch V)

/-- `Subscribe`. -/
def subscribe (ch : Ch) : Feed Ch V := { f with inbox := f.inbox ++ [ch] }

/-- `remove` up to its `select`: a channel that is in the inbox is deleted there. -/
def unsubscribe (ch : Ch) : Feed Ch V :=
  match f.inbox.find ch with
  | none => { f with removing := ch :: f.removing }
  | some index =>
    match f.inbox.delete (some index) with
    | none => { f with panicked := true }
    | some inbox => { f with inbox }

/-- `remove` with the send lock. -/
def remove (ch : Ch) : Feed Ch V :=
  match f.sendCases.delete (f.sendCases.find ch) with
  | none => { f with panicked := true }
  | some sendCases => { f with sendCases, removing := f.removing.erase ch }

/-- `Send` up to its loop: it takes the channels of the inbox. -/
def send (value : V) : Feed Ch V :=
  let sendCases := f.sendCases ++ f.inbox
  { f with
    inbox := []
    sendCases
    sent := f.sent ++ [value]
    sending := some
      { value
        cases := sendCases.length
        number := f.sent.length
        members := sendCases } }

/-- The value goes to the channel of the case at `index`, and this case is no longer active.  The
loop goes on at `next`. -/
def deliver (x : Sending Ch V) (index next : Nat) : Feed Ch V :=
  match f.sendCases[index]? with
  | none => { f with panicked := true }
  | some ch =>
    { f with
      sendCases := f.sendCases.deactivate x.cases index
      received := Broadcast.give f.received x.number ch x.value
      sending := some
        { x with cases := x.cases - 1, index := some next, nsent := x.nsent + 1 } }

/-- The `Send` in progress receives a channel from `removeSub`. -/
def interrupt (x : Sending Ch V) (ch : Ch) : Feed Ch V :=
  let index := f.sendCases.find ch
  match f.sendCases.delete index with
  | none => { f with panicked := true }
  | some sendCases =>
    let x :=
      if index.any (· < x.cases) then { x with cases := x.cases - 1, left := ch ::ₘ x.left } else x
    { f with
      sendCases
      removing := f.removing.erase ch
      sending := some { x with index := some 0 } }

end Feed

inductive FeedAction (Ch V : Type)
  | subscribe (ch : Ch)
  | unsubscribe (ch : Ch)
  | send (value : V)
  | trySend (sent : Bool)
  | block
  | choose (index : Nat)
  | interrupt (ch : Ch)
  | finish
  | remove (ch : Ch)

/-- One step.  A channel may be subscribed several times, and each subscription is ended once at
most: `Unsubscribe` does its work once.  Whether a channel takes a value depends on its receiver. -/
inductive FeedStep {Ch V : Type} [DecidableEq Ch] (f : Feed Ch V) :
    FeedAction Ch V → Feed Ch V → Prop
  | subscribe (ch : Ch) : FeedStep f (.subscribe ch) (f.subscribe ch)
  | unsubscribe (ch : Ch) (hlive : f.removing.count ch < (f.sendCases ++ f.inbox).count ch) :
      FeedStep f (.unsubscribe ch) (f.unsubscribe ch)
  | send (value : V) (hlock : f.sending = none) : FeedStep f (.send value) (f.send value)
  | trySend (x : Sending Ch V) (i : Nat) (sent : Bool) (hx : f.sending = some x)
      (hindex : x.index = some i) (hi : i < x.cases) :
      FeedStep f (.trySend sent)
        (if sent then f.deliver x i i
          else { f with sending := some { x with index := some (i + 1) } })
  | block (x : Sending Ch V) (i : Nat) (hx : f.sending = some x) (hindex : x.index = some i)
      (hi : ¬ i < x.cases) (hcases : x.cases ≠ 0) :
      FeedStep f .block { f with sending := some { x with index := none } }
  | choose (x : Sending Ch V) (index : Nat) (hx : f.sending = some x) (hindex : x.index = none)
      (hi : index < x.cases) : FeedStep f (.choose index) (f.deliver x index 0)
  | interrupt (x : Sending Ch V) (ch : Ch) (hx : f.sending = some x) (hindex : x.index = none)
      (hch : ch ∈ f.removing) : FeedStep f (.interrupt ch) (f.interrupt x ch)
  | finish (x : Sending Ch V) (i : Nat) (hx : f.sending = some x) (hindex : x.index = some i)
      (hcases : x.cases = 0) :
      FeedStep f .finish { f with sending := none, finished := f.finished ++ [x] }
  | remove (ch : Ch) (hlock : f.sending = none) (hch : ch ∈ f.removing) :
      FeedStep f (.remove ch) (f.remove ch)

/-! ### Lists of cases, continued -/

namespace CaseList

section Delete

variable {Ch : Type} {a b : CaseList Ch} {ch : Ch} {n : Nat}

theorem delete_append : delete (a ++ ch :: b) (some a.length) = some (a ++ b) := by
  simp [delete]

/-- The active cases after an active one is deleted. -/
theorem take_append_cons (h : a.length < n) :
    ((a ++ ch :: b).take n).Perm (ch :: (a ++ b).take (n - 1)) := by
  obtain ⟨m, rfl⟩ : ∃ m, n = a.length + 1 + m := ⟨n - (a.length + 1), by omega⟩
  have hleft : (a ++ b).take (a.length + 1 + m - 1) = a ++ b.take m := by
    rw [List.take_append, List.take_of_length_le (by omega)]
    congr 2
    omega
  have hright : (a ++ ch :: b).take (a.length + 1 + m) = a ++ ch :: b.take m := by
    rw [List.take_append, List.take_of_length_le (by omega)]
    have hsub : a.length + 1 + m - a.length = m + 1 := by omega
    rw [hsub, List.take_succ_cons]
  rw [hleft, hright]
  exact List.perm_middle

end Delete

section Deactivate

variable {Ch : Type} {cs : CaseList Ch} {ch : Ch} {n index : Nat}

theorem deactivate_eq (hn : n ≤ cs.length) (hi : index < n) :
    cs.deactivate n index =
      (cs.set index (cs.get ⟨n - 1, by omega⟩)).set (n - 1) (cs.get ⟨index, by omega⟩) := by
  have hindex : cs[index]? = some (cs.get ⟨index, by omega⟩) := by simp
  have hlast : cs[n - 1]? = some (cs.get ⟨n - 1, by omega⟩) := by simp
  simp only [deactivate, hindex, hlast]

theorem deactivate_perm (hn : n ≤ cs.length) (hi : index < n) :
    (cs.deactivate n index).Perm cs := by
  rw [deactivate_eq hn hi]
  exact List.set_set_perm (by omega) (by omega)

/-- The active cases after one of them is deactivated. -/
theorem take_deactivate (hn : n ≤ cs.length) (hi : index < n) (hch : cs[index]? = some ch) :
    (cs.take n).Perm (ch :: (cs.deactivate n index).take (n - 1)) := by
  obtain ⟨m, rfl⟩ : ∃ m, n = m + 1 := ⟨n - 1, by omega⟩
  have hlen : (cs.take (m + 1)).length = m + 1 := List.length_take_of_le hn
  -- the case that is deactivated comes last, and the others are the same
  have hperm : ((cs.deactivate (m + 1) index).take (m + 1)).Perm (cs.take (m + 1)) := by
    rw [deactivate_eq hn hi, List.take_set, List.take_set]
    have hset := List.set_set_perm (show index < (cs.take (m + 1)).length by omega)
      (show m < (cs.take (m + 1)).length by omega)
    simpa using hset
  have hlast : (cs.deactivate (m + 1) index).take (m + 1) =
      (cs.deactivate (m + 1) index).take m ++ [ch] := by
    rw [List.take_add_one]
    congr 1
    rw [deactivate_eq hn hi]
    have hget : cs.get ⟨index, by omega⟩ = ch := (List.getElem?_eq_some_iff.mp hch).2
    rw [hget]
    exact congrArg Option.toList (List.getElem?_set_self (by rw [List.length_set]; omega))
  rw [hlast] at hperm
  exact hperm.symm.trans (List.perm_append_singleton ch _)

end Deactivate

variable {Ch : Type} [DecidableEq Ch] {cs a b : CaseList Ch} {ch : Ch}

theorem find_none (h : ch ∉ cs) : find cs ch = none := by
  rw [find, List.findIdx?_eq_none_iff]
  intro x hx
  rw [decide_eq_false_iff_not]
  exact fun heq => h (heq ▸ hx)

/-- The first occurrence of a channel is found. -/
theorem find_append (h : ch ∉ a) : find (a ++ ch :: b) ch = some a.length := by
  have hnone : a.findIdx? (fun x => decide (x = ch)) = none := find_none h
  rw [find, List.findIdx?_append, hnone]
  simp [List.findIdx?_cons]

/-- The cases without a channel that is among them. -/
theorem split (h : ch ∈ cs) :
    ∃ a b, cs = a ++ ch :: b ∧ ch ∉ a ∧ cs.find ch = some a.length ∧
      cs.delete (some a.length) = some (a ++ b) := by
  obtain ⟨a, b, rfl, hnot⟩ := List.eq_append_cons_of_mem h
  exact ⟨a, b, rfl, hnot, find_append hnot, delete_append⟩

end CaseList

/-! ### The feed as a broadcast -/

/-- A `Send` that has returned as a round. -/
def Sending.finished {Ch V : Type} (x : Sending Ch V) : Broadcast.Round Ch where
  number := x.number
  members := x.members
  pending := 0
  left := x.left
  count := x.nsent

namespace Feed

variable {Ch V : Type} [DecidableEq Ch]

omit [DecidableEq Ch] in
/-- A `Send` in progress as a round: its active cases are pending. -/
def round (f : Feed Ch V) (x : Sending Ch V) : Broadcast.Round Ch where
  number := x.number
  members := x.members
  pending := f.sendCases.take x.cases
  left := x.left
  count := x.nsent

/-- Whoever is subscribed is present, in the inbox or not. -/
def broadcast (f : Feed Ch V) : Broadcast Ch V where
  present := f.sendCases ++ f.inbox
  sent := f.sent
  round := f.sending.map f.round
  received := f.received
  finished := f.finished.map Sending.finished

/-- `remove` finds what it looks for, and the active cases are among those of the feed. -/
structure Sound (f : Feed Ch V) : Prop where
  removing : ∀ ch, f.removing.count ch ≤ f.sendCases.count ch
  cases : ∀ x, f.sending = some x → x.cases ≤ f.sendCases.length
  value : ∀ x, f.sending = some x → f.sent[x.number]? = some x.value
  running : f.panicked = false

variable {f g : Feed Ch V} {x : Sending Ch V} {ch : Ch}

theorem Sound.mem_sendCases (h : f.Sound) (hch : ch ∈ f.removing) : ch ∈ f.sendCases :=
  List.count_pos_iff.mp ((List.count_pos_iff.mpr hch).trans_le (h.removing ch))

section Removal

variable {a b c : List Ch}

theorem erase_coe {l l' : List Ch} (h : l.Perm (ch :: l')) : (l : Multiset Ch).erase ch = l' := by
  rw [Multiset.coe_eq_coe.mpr h, ← Multiset.cons_coe, Multiset.erase_cons_head]

theorem erase_present : (((a ++ ch :: b) ++ c : List Ch) : Multiset Ch).erase ch =
    ((a ++ b) ++ c : List Ch) :=
  erase_coe (List.perm_middle.append_right c)

/-- What is still to be removed after a channel is removed. -/
theorem Sound.removed (h : f.Sound) (heq : f.sendCases = a ++ ch :: b) (y : Ch) :
    (f.removing.erase ch).count y ≤ (a ++ b).count y := by
  have hle := h.removing y
  rw [heq, List.perm_middle.count_eq, List.count_cons] at hle
  rw [List.count_erase]
  split at hle
  · rename_i hy
    rw [if_pos hy]
    omega
  · rename_i hy
    rw [if_neg hy]
    omega

end Removal

theorem step_remove (h : f.Sound) (hlock : f.sending = none) (hch : ch ∈ f.removing) :
    (f.remove ch).Sound ∧ Broadcast.Step f.broadcast (f.remove ch).broadcast := by
  obtain ⟨a, b, heq, -, hfind, hdelete⟩ := CaseList.split (h.mem_sendCases hch)
  simp only [remove, hfind, hdelete]
  refine ⟨⟨h.removed heq, ?_, h.value, h.running⟩, ?_⟩
  · intro x hx
    cases hlock.symm.trans hx
  · have hdepart := Broadcast.Step.depart (b := f.broadcast) ch
    have hpresent : f.broadcast.present.erase ch = ((a ++ b) ++ f.inbox : List Ch) := by
      rw [broadcast, heq]
      exact erase_present
    rw [hpresent] at hdepart
    simpa [broadcast, hlock] using hdepart

theorem step_interrupt (h : f.Sound) (hx : f.sending = some x) (hch : ch ∈ f.removing) :
    (f.interrupt x ch).Sound ∧ Broadcast.Step f.broadcast (f.interrupt x ch).broadcast := by
  obtain ⟨a, b, heq, -, hfind, hdelete⟩ := CaseList.split (h.mem_sendCases hch)
  have hcases := h.cases x hx
  rw [heq, List.perm_middle.length_eq, List.length_cons] at hcases
  have hpresent : f.broadcast.present.erase ch = ((a ++ b) ++ f.inbox : List Ch) := by
    rw [broadcast, heq]
    exact erase_present
  simp only [interrupt, hfind, hdelete, Option.any_some, decide_eq_true_eq]
  split
  · -- the case was active, so the channel leaves before its turn
    rename_i hactive
    refine ⟨⟨h.removed heq, ?_, ?_, h.running⟩, ?_⟩
    · intro x' hx'
      cases hx'
      dsimp only
      omega
    · intro x' hx'
      cases hx'
      exact h.value x hx
    · have hround : f.broadcast.round = some (f.round x) := by simp [broadcast, hx]
      have hperm : (f.sendCases.take x.cases).Perm (ch :: (a ++ b).take (x.cases - 1)) := by
        rw [heq]
        exact CaseList.take_append_cons hactive
      have hpending : ch ∈ (f.round x).pending := hperm.mem_iff.mpr List.mem_cons_self
      have hleave := Broadcast.Step.leave (f.round x) ch hround hpending
      have herase : (f.round x).pending.erase ch = (a ++ b).take (x.cases - 1) := erase_coe hperm
      rw [Broadcast.Round.leave, herase, hpresent] at hleave
      exact hleave
  · rename_i hactive
    refine ⟨⟨h.removed heq, ?_, ?_, h.running⟩, ?_⟩
    · intro x' hx'
      cases hx'
      dsimp only
      rw [List.length_append] at hcases ⊢
      omega
    · intro x' hx'
      cases hx'
      exact h.value x hx
    · have hsame : (a ++ b).take x.cases = f.sendCases.take x.cases := by
        rw [heq, List.take_append_of_le_length (by omega), List.take_append_of_le_length (by omega)]
      have hround : f.broadcast.round = some
          { f.round x with pending := ((a ++ b).take x.cases : List Ch) } := by
        rw [hsame]
        simp only [broadcast, hx, Option.map_some]
        rfl
      have hdepart := Broadcast.Step.depart (b := f.broadcast) ch
      rw [hpresent, hround] at hdepart
      exact hdepart

theorem step_subscribe (h : f.Sound) (ch : Ch) :
    (f.subscribe ch).Sound ∧ Broadcast.Step f.broadcast (f.subscribe ch).broadcast := by
  refine ⟨⟨h.removing, h.cases, h.value, h.running⟩, ?_⟩
  have hpresent : ch ::ₘ f.broadcast.present = (f.sendCases ++ (f.inbox ++ [ch]) : List Ch) := by
    rw [← List.append_assoc]
    exact Multiset.coe_eq_coe.mpr (List.perm_append_singleton ch _).symm
  have hjoin := Broadcast.Step.join (b := f.broadcast) ch
  rw [hpresent] at hjoin
  exact hjoin

theorem step_unsubscribe (h : f.Sound)
    (hlive : f.removing.count ch < (f.sendCases ++ f.inbox).count ch) :
    (f.unsubscribe ch).Sound ∧ Broadcast.Step f.broadcast (f.unsubscribe ch).broadcast := by
  by_cases hinbox : ch ∈ f.inbox
  · obtain ⟨a, b, heq, -, hfind, hdelete⟩ := CaseList.split hinbox
    simp only [unsubscribe, hfind, hdelete]
    refine ⟨⟨h.removing, h.cases, h.value, h.running⟩, ?_⟩
    have hpresent : f.broadcast.present.erase ch = (f.sendCases ++ (a ++ b) : List Ch) := by
      refine erase_coe ?_
      rw [heq]
      exact (List.perm_middle.append_left f.sendCases).trans List.perm_middle
    have hdepart := Broadcast.Step.depart (b := f.broadcast) ch
    rw [hpresent] at hdepart
    exact hdepart
  · simp only [unsubscribe, CaseList.find_none hinbox]
    refine ⟨⟨fun y => ?_, h.cases, h.value, h.running⟩, .rest⟩
    rw [List.count_append, List.count_eq_zero.mpr hinbox] at hlive
    have hle := h.removing y
    show (ch :: f.removing).count y ≤ f.sendCases.count y
    rw [List.count_cons]
    split
    · rename_i hy
      rw [← beq_iff_eq.mp hy] at hle ⊢
      omega
    · omega

theorem step_send (h : f.Sound) (value : V) (hlock : f.sending = none) :
    (f.send value).Sound ∧ Broadcast.Step f.broadcast (f.send value).broadcast := by
  refine ⟨⟨fun y => ?_, ?_, ?_, h.running⟩, ?_⟩
  · rw [send, List.count_append]
    exact (h.removing y).trans (Nat.le_add_right _ _)
  · intro x hx
    cases hx
    exact le_rfl
  · intro x hx
    cases hx
    simp [send]
  · have hidle : f.broadcast.round = none := by simp [broadcast, hlock]
    have hbegin := Broadcast.Step.begin value hidle
    have hpending : (f.sendCases ++ f.inbox).take (f.sendCases ++ f.inbox).length =
        f.sendCases ++ f.inbox := List.take_length
    have hpresent : (f.sendCases ++ f.inbox) ++ [] = f.sendCases ++ f.inbox := List.append_nil _
    simp only [send, broadcast, round, Option.map_some, hpending, hpresent]
    exact hbegin

theorem step_deliver (h : f.Sound) (hx : f.sending = some x) {index : Nat} (next : Nat)
    (hi : index < x.cases) :
    (f.deliver x index next).Sound ∧
      Broadcast.Step f.broadcast (f.deliver x index next).broadcast := by
  have hle := h.cases x hx
  obtain ⟨ch, hch⟩ : ∃ ch, f.sendCases[index]? = some ch :=
    ⟨_, List.getElem?_eq_getElem (show index < f.sendCases.length by omega)⟩
  have hperm := CaseList.deactivate_perm hle hi
  simp only [deliver, hch]
  refine ⟨⟨fun y => ?_, ?_, ?_, h.running⟩, ?_⟩
  · rw [hperm.count_eq]
    exact h.removing y
  · intro x' hx'
    cases hx'
    dsimp only
    rw [hperm.length_eq]
    omega
  · intro x' hx'
    cases hx'
    exact h.value x hx
  · have hround : f.broadcast.round = some (f.round x) := by simp [broadcast, hx]
    have hactive := CaseList.take_deactivate hle hi hch
    have hpending : ch ∈ (f.round x).pending := hactive.mem_iff.mpr List.mem_cons_self
    have herase : (f.round x).pending.erase ch =
        (f.sendCases.deactivate x.cases index).take (x.cases - 1) := erase_coe hactive
    have hpresent : f.broadcast.present =
        (f.sendCases.deactivate x.cases index ++ f.inbox : List Ch) :=
      Multiset.coe_eq_coe.mpr (hperm.append_right f.inbox).symm
    have hdeliver := Broadcast.Step.deliver (f.round x) ch x.value hround hpending (h.value x hx)
    rw [Broadcast.Round.deliver, herase] at hdeliver
    simp only [broadcast, round, Option.map_some]
    rw [← hpresent]
    exact hdeliver

theorem step_finish (h : f.Sound) (hx : f.sending = some x) (hcases : x.cases = 0) :
    Sound { f with sending := none, finished := f.finished ++ [x] } ∧
      Broadcast.Step f.broadcast
        (broadcast { f with sending := none, finished := f.finished ++ [x] }) := by
  have hnone : ∀ {P : Sending Ch V → Prop} x', none = some x' → P x' := by
    intro P x' hx'
    cases hx'
  refine ⟨⟨h.removing, hnone, hnone, h.running⟩, ?_⟩
  have hround : f.broadcast.round = some x.finished := by
    simp [broadcast, hx, round, hcases, Sending.finished]
  have hfinish := Broadcast.Step.finish x.finished hround rfl
  simp only [broadcast, List.map_append, List.map_cons, List.map_nil]
  exact hfinish

/-- A step of the loop of `Send` that sends nothing. -/
theorem step_index (h : f.Sound) (hx : f.sending = some x) (index : Option Nat) :
    Sound { f with sending := some { x with index } } ∧
      Broadcast.Step f.broadcast (broadcast { f with sending := some { x with index } }) := by
  refine ⟨⟨h.removing, ?_, ?_, h.running⟩, ?_⟩
  · intro x' hx'
    cases hx'
    exact h.cases x hx
  · intro x' hx'
    cases hx'
    exact h.value x hx
  · have hsame : broadcast { f with sending := some { x with index } } = f.broadcast := by
      simp only [broadcast, hx, Option.map_some]
      rfl
    rw [hsame]
    exact .rest

/-- Every step of the feed is a step of the broadcast. -/
theorem step_broadcast {action : FeedAction Ch V} (h : f.Sound) (hstep : FeedStep f action g) :
    g.Sound ∧ Broadcast.Step f.broadcast g.broadcast := by
  cases hstep with
  | subscribe ch => exact step_subscribe h ch
  | unsubscribe ch hlive => exact step_unsubscribe h hlive
  | send value hlock => exact step_send h value hlock
  | trySend x i sent hx hindex hi =>
    cases sent with
    | true => exact step_deliver h hx i hi
    | false => exact step_index h hx _
  | block x i hx => exact step_index h hx none
  | choose x index hx hindex hi => exact step_deliver h hx 0 hi
  | interrupt x ch hx hindex hch => exact step_interrupt h hx hch
  | finish x i hx hindex hcases => exact step_finish h hx hcases
  | remove ch hlock hch => exact step_remove h hlock hch

theorem run_exact {acts : List (FeedAction Ch V)} (run : Run FeedStep {} acts f) :
    f.Sound ∧ f.broadcast.Exact := by
  have hstart : ({} : Feed Ch V).Sound ∧ ({} : Feed Ch V).broadcast.Exact := by
    constructor
    · constructor <;> simp
    · constructor <;> simp [broadcast]
  exact run.invariant (P := fun f => f.Sound ∧ f.broadcast.Exact) hstart fun f _ g _ h hstep =>
    have hnext := step_broadcast h.1 hstep
    ⟨hnext.1, h.2.step hnext.2⟩

/-! ### The calls of `Send` -/

omit [DecidableEq Ch] in
/-- The calls that have returned, and the one in progress. -/
def calls (f : Feed Ch V) : List (Sending Ch V) := f.finished ++ f.sending.toList

/-- The second call is the first one, after a step that has removed the channels in `gone`. -/
structure Goes (gone : Ch → Prop) (x y : Sending Ch V) : Prop where
  value : y.value = x.value
  number : y.number = x.number
  members : y.members = x.members
  left : ∀ ch ∈ y.left, ch ∈ x.left ∨ gone ch

omit [DecidableEq Ch] in
theorem Goes.refl (gone : Ch → Prop) (x : Sending Ch V) : Goes gone x x :=
  ⟨rfl, rfl, rfl, fun _ => .inl⟩

theorem unsubscribe_calls : (f.unsubscribe ch).calls = f.calls := by
  unfold unsubscribe
  split
  · rfl
  · split <;> rfl

theorem remove_calls : (f.remove ch).calls = f.calls := by
  unfold remove
  split <;> rfl

omit [DecidableEq Ch] in
/-- The call in progress goes on, and the others are the same. -/
theorem mem_calls_of_goes {gone : Ch → Prop} {x' y : Sending Ch V} (hy : y ∈ g.calls)
    (hx : f.sending = some x) (hfinished : g.finished = f.finished) (hx' : g.sending = some x')
    (hgoes : Goes gone x x') : ∃ x ∈ f.calls, Goes gone x y := by
  rw [calls, hx', hfinished] at hy
  obtain hy | hy := List.mem_append.mp hy
  · exact ⟨y, List.mem_append_left _ hy, .refl _ y⟩
  · cases List.mem_singleton.mp hy
    exact ⟨x, List.mem_append_right _ (by simp [hx]), hgoes⟩

theorem deliver_calls (hx : f.sending = some x) {gone : Ch → Prop} (index next : Nat)
    {y : Sending Ch V} (hy : y ∈ (f.deliver x index next).calls) :
    ∃ x ∈ f.calls, Goes gone x y := by
  unfold deliver at hy
  split at hy
  · exact ⟨y, hy, .refl _ y⟩
  · exact mem_calls_of_goes hy hx rfl rfl ⟨rfl, rfl, rfl, fun _ => .inl⟩

theorem interrupt_calls (hx : f.sending = some x) {y : Sending Ch V}
    (hy : y ∈ (f.interrupt x ch).calls) : ∃ x ∈ f.calls, Goes (· = ch) x y := by
  unfold interrupt at hy
  dsimp only at hy
  split at hy
  · exact ⟨y, hy, .refl _ y⟩
  · refine mem_calls_of_goes hy hx rfl rfl ?_
    split
    · refine ⟨rfl, rfl, rfl, fun ch' h => ?_⟩
      obtain rfl | h := Multiset.mem_cons.mp h
      · exact .inr rfl
      · exact .inl h
    · exact ⟨rfl, rfl, rfl, fun _ => .inl⟩

/-- A call of a feed is a new one, or it was there before the step. -/
theorem calls_step {action : FeedAction Ch V} (hstep : FeedStep f action g) {y : Sending Ch V}
    (hy : y ∈ g.calls) :
    (action = .send y.value ∧ y.number = f.sent.length ∧
      y.members = (f.sendCases ++ f.inbox : List Ch) ∧ y.left = 0) ∨
    ∃ x ∈ f.calls, Goes (fun ch => action = .interrupt ch) x y := by
  have hgoes : ∀ {x' : Sending Ch V}, f.sending = some x' → g.finished = f.finished →
      ∀ i, g.sending = some { x' with index := i } →
      ∃ x ∈ f.calls, Goes (fun ch => action = .interrupt ch) x y := fun hx hfinished i hi =>
    mem_calls_of_goes hy hx hfinished hi ⟨rfl, rfl, rfl, fun _ => .inl⟩
  cases hstep with
  | subscribe ch => exact .inr ⟨y, hy, .refl _ y⟩
  | unsubscribe ch hlive =>
    rw [unsubscribe_calls] at hy
    exact .inr ⟨y, hy, .refl _ y⟩
  | send value hlock =>
    obtain hy | hy := List.mem_append.mp hy
    · exact .inr ⟨y, List.mem_append_left _ hy, .refl _ y⟩
    · cases List.mem_singleton.mp hy
      exact .inl ⟨rfl, rfl, rfl, rfl⟩
  | trySend x i sent hx hindex hi =>
    cases sent with
    | true => exact .inr (deliver_calls hx i i hy)
    | false => exact .inr (hgoes hx rfl _ rfl)
  | block x i hx => exact .inr (hgoes hx rfl _ rfl)
  | choose x index hx => exact .inr (deliver_calls hx index 0 hy)
  | interrupt x ch hx =>
    obtain ⟨x', hx', hgone⟩ := interrupt_calls hx hy
    refine .inr ⟨x', hx', hgone.value, hgone.number, hgone.members, fun ch' h => ?_⟩
    exact (hgone.left ch' h).imp_right fun heq => by rw [heq]
  | finish x i hx =>
    refine .inr ⟨y, ?_, .refl _ y⟩
    simpa [calls, hx] using hy
  | remove ch =>
    rw [remove_calls] at hy
    exact .inr ⟨y, hy, .refl _ y⟩

/-- The call was made in the run when its members were subscribed, each as often, and those that
have left were removed since then. -/
def Began (acts : List (FeedAction Ch V)) (x : Sending Ch V) : Prop :=
  ∃ before after f₀, acts = before ++ .send x.value :: after ∧ Run FeedStep {} before f₀ ∧
    x.number = f₀.sent.length ∧ x.members = (f₀.sendCases ++ f₀.inbox : List Ch) ∧
    ∀ ch ∈ x.left, .interrupt ch ∈ after

theorem run_began {acts : List (FeedAction Ch V)} (run : Run FeedStep {} acts f) :
    ∀ x ∈ f.calls, Began acts x := by
  refine run.history (P := fun acts f => ∀ x ∈ f.calls, Began acts x) (fun x hx => by cases hx) ?_
  intro past f action g hpast hf hstep y hy
  obtain ⟨rfl, hnumber, hmembers, hleft⟩ | ⟨x, hx, hgoes⟩ := calls_step hstep hy
  · refine ⟨past, [], f, rfl, hpast, hnumber, hmembers, fun ch hch => ?_⟩
    rw [hleft] at hch
    cases hch
  · obtain ⟨before, after, f₀, rfl, hbefore, hnumber, hmembers, hleft⟩ := hf x hx
    refine ⟨before, after ++ [action], f₀, ?_, hbefore, hgoes.number.trans hnumber,
      hgoes.members.trans hmembers, fun ch hch => ?_⟩
    · rw [hgoes.value, List.append_assoc, List.cons_append]
    · obtain hch | rfl := hgoes.left ch hch
      · exact List.mem_append_left _ (hleft ch hch)
      · exact List.mem_append_right _ List.mem_cons_self

/-- Whatever subscriptions and their ends come in between, the feed does not panic, every channel
gets the values in the order of the calls of `Send`, and a call that returns has sent its value to
each channel as often as this was subscribed when the call began, less the subscriptions that were
removed before their turn, and returns the number of values sent. -/
theorem sends_reach_subscribers_once {acts : List (FeedAction Ch V)}
    (run : Run FeedStep {} acts f) :
    f.panicked = false ∧
      (∀ ch, ((f.received ch).map Prod.fst).Pairwise (· ≤ ·)) ∧
      (∀ ch, ∀ y ∈ f.received ch, f.sent[y.1]? = some y.2) ∧
      ∀ x ∈ f.finished, Began acts x ∧
        (∀ ch, ((f.received ch).map Prod.fst).count x.number + x.left.count ch =
          x.members.count ch) ∧
        x.nsent + x.left.card = x.members.card := by
  obtain ⟨hsound, hexact⟩ := run_exact run
  refine ⟨hsound.running, hexact.ordered, hexact.values, fun x hx => ?_⟩
  have hround := hexact.finished x.finished (List.mem_map_of_mem hx)
  refine ⟨run_began run x (List.mem_append_left _ hx), fun ch => ?_, ?_⟩
  · have hshares := hround.shares ch
    simp only [Sending.finished, Multiset.count_zero, Nat.add_zero] at hshares
    exact hshares.symm
  · have htotal := hround.total
    simp only [Sending.finished, Multiset.card_zero, Nat.add_zero] at htotal
    exact htotal.symm

/-- The first `Send`, to the channel 1, which is subscribed twice, and to the channel 2. -/
def sampleBegun : Sending Nat Nat :=
  { value := 7, cases := 3, number := 0, members := ([1, 1, 2] : List Nat) }

/-- The same call, after the channel 1 has taken the value twice. -/
def sampleSending : Sending Nat Nat := { sampleBegun with cases := 1, nsent := 2 }

/-- The feed after the call has returned.  The channel 2 was removed before it took the value. -/
def sampleFeed : Feed Nat Nat where
  sendCases := [1, 1]
  received := Broadcast.give (Broadcast.give (fun _ => []) 0 1 7) 0 1 7
  sent := [7]
  finished := [{ sampleSending with cases := 0, left := {2} }]

theorem sampleFeed_run : Run FeedStep {} [.subscribe 1, .subscribe 1, .subscribe 2, .send 7,
    .trySend true, .trySend false, .trySend true, .block, .unsubscribe 2, .interrupt 2,
    .finish] sampleFeed := by
  refine .cons (.subscribe 1) (.cons (.subscribe 1) (.cons (.subscribe 2) (.cons (.send 7 rfl) ?_)))
  refine .cons (.trySend sampleBegun 0 true rfl rfl (by decide)) ?_
  refine .cons (.trySend { sampleBegun with cases := 2, nsent := 1 } 0 false rfl rfl (by decide)) ?_
  refine .cons (.trySend { sampleBegun with cases := 2, nsent := 1, index := some 1 } 1 true rfl rfl
    (by decide)) ?_
  refine .cons (.block { sampleSending with index := some 1 } 1 rfl rfl (by decide) (by decide)) ?_
  refine .cons (.unsubscribe 2 (by decide)) ?_
  refine .cons (.interrupt { sampleSending with index := none } 2 rfl rfl (by decide)) ?_
  exact .cons (.finish { sampleSending with cases := 0, left := {2} } 0 rfl rfl rfl) (.nil _)

theorem sends_reach_subscribers_once_sample :
    sampleFeed.panicked = false ∧ ∀ x ∈ sampleFeed.finished, x.nsent = 2 ∧
      ((sampleFeed.received 1).map Prod.fst).count x.number = 2 ∧
      ((sampleFeed.received 2).map Prod.fst).count x.number = 0 := by
  obtain ⟨hrunning, -, -, hcalls⟩ := sends_reach_subscribers_once sampleFeed_run
  refine ⟨hrunning, fun x hx => ?_⟩
  obtain ⟨-, hshares, htotal⟩ := hcalls x hx
  cases List.mem_singleton.mp hx
  exact ⟨Nat.add_right_cancel htotal, Nat.add_right_cancel (hshares 1),
    Nat.add_right_cancel (hshares 2)⟩

end Feed

end Whisperv6
