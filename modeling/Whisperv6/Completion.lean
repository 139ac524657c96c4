import Whisperv6.DirectDelivery
import Whisperv6.Mailbox
import Whisperv6.Posting
import Whisperv6.ProofKit.Funnel

/-! The direct messages of all peers go through one bounded queue to `processP2P`.  It notifies the
filters and then sends the event of an item before it takes the next one, so the event that ends
the answer to a request comes after the events of the mail, whatever the other loops post in
between. -/

namespace Whisperv6

open ProofKit

/-! ### The node with its loops and `processP2P` -/

/-- The event that `processP2P` sends for an item. -/
def P2PItem.sentEvent (C : Crypto) : P2PItem → EnvelopeEvent
  | .envelope e => { event := .envelopeAvailable, topic := e.topic, hash := e.hash C }
  | .event ev => ev

/-- An item that `processP2P` has taken: the peer that sent it with the number of the packet, unless
it was posted by an `add`, and the call of `NotifyWatchers` for an envelope. -/
structure Taken where
  origin : Option (PeerRef × Nat)
  item : P2PItem
  notice : Option Dequeued

/-- An entry of the feed: sent by `processP2P` for an item that it had taken, or by another
goroutine. -/
inductive Entry
  | direct (t : Taken)
  | other (event : EnvelopeEvent)

def Entry.event (C : Crypto) : Entry → EnvelopeEvent
  | .direct t => t.item.sentEvent C
  | .other ev => ev

/-- The node, its filters, the loops of its peers, and `processP2P`.  `queue` is `p2pMsgQueue` with
the origins of its items, and `held` the item that was taken and whose event is not sent.  `feed`
is the feed of the node with the origins of its events, and `readings` what the loops have read. -/
structure Courier where
  whisper : Whisper
  filters : Filters
  loops : PeerRef → Loop
  queue : List (Stamped PeerRef P2PItem) := []
  held : Option Taken := none
  feed : List Entry := []
  readings : PeerRef → List Reading := fun _ => []

inductive CourierAction
  | read (i : PeerRef) (packet : Packet)
  | work (i : PeerRef) (now : UInt32) (sync : Option GoError)
  | take (order : List FilterRef)
  | emit
  | setPeer (i : PeerRef) (p : Peer)
  | setFilters (fs : Filters)
  | others (w : Whisper)

/-- The call of `NotifyWatchers` for an item. -/
def P2PItem.notice (fs : Filters) (order : List FilterRef) : P2PItem → Option Dequeued
  | .envelope e => some ⟨e, fs, order⟩
  | .event _ => none

/-- The filters after that call. -/
def P2PItem.notify (C : Crypto) (fs : Filters) (order : List FilterRef) : P2PItem → Filters
  | .envelope e => fs.notifyWatchers C e true order
  | .event _ => fs

/-- The order in which the filters are visited for an item. -/
def P2PItem.Visits (fs : Filters) (order : List FilterRef) : P2PItem → Prop
  | .envelope e => fs.WatcherOrder e.topic order
  | .event _ => True

namespace Courier

def start (w : Whisper) (fs : Filters) (loops : PeerRef → Loop) : Courier where
  whisper := w
  filters := fs
  loops := loops
  feed := w.envelopeFeed.map .other

def read (C : Crypto) (s : Courier) (i : PeerRef) (packet : Packet) : Courier :=
  let l := (s.loops i).read C s.whisper packet
  { s with
    loops := Function.update s.loops i l
    readings := Function.update s.readings i (s.readings i ++ [⟨packet, posts l.jobs⟩]) }

/-- The origin of what the next job of a loop puts on the queue. -/
def origin (s : Courier) (i : PeerRef) : Option (PeerRef × Nat) :=
  match (s.loops i).jobs with
  | .postP2P _ :: _ => some (i, (s.readings i).length - 1)
  | _ => none

def work (C : Crypto) (s : Courier) (i : PeerRef) (now : UInt32) (sync : Option GoError) :
    Courier :=
  let after := (s.loops i).work C now sync s.whisper
  { s with
    whisper := after.1
    loops := Function.update s.loops i after.2
    queue := s.queue ++
      (gained s.whisper.p2pMsgQueue after.1.p2pMsgQueue).map (Prod.mk (s.origin i))
    feed := s.feed ++ (gained s.whisper.envelopeFeed after.1.envelopeFeed).map .other }

/-- `processP2P` takes the item `x` and notifies the filters. -/
def take (C : Crypto) (s : Courier) (x : Stamped PeerRef P2PItem)
    (rest : List (Stamped PeerRef P2PItem)) (order : List FilterRef) : Courier :=
  { s with
    whisper.p2pMsgQueue := s.whisper.p2pMsgQueue.tail
    filters := x.2.notify C s.filters order
    queue := rest
    held := some { origin := x.1, item := x.2, notice := x.2.notice s.filters order } }

/-- `processP2P` sends the event of the item that it has taken. -/
def emit (C : Crypto) (s : Courier) (t : Taken) : Courier :=
  { s with
    whisper.envelopeFeed := s.whisper.envelopeFeed ++ [t.item.sentEvent C]
    held := none
    feed := s.feed ++ [.direct t] }

end Courier

/-- A loop reads a packet or does its next job, which waits while the queue is full; `processP2P`
takes an item or sends its event; the trust of a peer is changed, a filter is installed, removed or
emptied; or other goroutines work, which add to the feed and leave the queue. -/
def CourierStep (C : Crypto) (s : Courier) : CourierAction → Courier → Prop
  | .read i packet, t => (s.loops i).jobs = [] ∧ (s.loops i).returned = none ∧
    t = s.read C i packet
  | .work i now sync, t => (s.loops i).jobs ≠ [] ∧ t = s.work C i now sync ∧
    t.whisper.p2pMsgQueue.length ≤ messageQueueLimit
  | .take order, t => ∃ x rest, s.held = none ∧ s.queue = x :: rest ∧ x.2.Visits s.filters order ∧
    t = s.take C x rest order
  | .emit, t => ∃ x, s.held = some x ∧ t = s.emit C x
  | .setPeer i p, t =>
    t = { s with loops := Function.update s.loops i { s.loops i with peer := p } }
  | .setFilters fs, t => ((∃ a, FilterStep C s.filters a fs) ∨ s.filters.StoresOnly fs) ∧
    t = { s with filters := fs }
  | .others w, t => w.p2pMsgQueue = s.whisper.p2pMsgQueue ∧
    s.whisper.envelopeFeed <+: w.envelopeFeed ∧
    t = { s with
      whisper := w
      feed := s.feed ++ (gained s.whisper.envelopeFeed w.envelopeFeed).map .other }

/-! ### The funnel -/

namespace Courier

/-- The items that `processP2P` has sent the events of. -/
def released (entries : List Entry) : List (Stamped PeerRef P2PItem) :=
  entries.filterMap fun
    | .direct t => some (t.origin, t.item)
    | .other _ => none

/-- The loops are the producers, and `processP2P` is the consumer. -/
def funnel (s : Courier) : Funnel PeerRef P2PItem where
  batches i := (s.readings i).map Reading.items
  pending i := posts (s.loops i).jobs
  queue := s.queue
  held := s.held.map fun t => (t.origin, t.item)
  released := released s.feed

theorem released_append (xs ys : List Entry) : released (xs ++ ys) = released xs ++ released ys :=
  List.filterMap_append

theorem released_other (events : List EnvelopeEvent) : released (events.map .other) = [] := by
  rw [released, List.filterMap_map]
  exact List.filterMap_eq_nil_iff.mpr fun _ _ => rfl

theorem released_append_other (xs : List Entry) (events : List EnvelopeEvent) :
    released (xs ++ events.map .other) = released xs := by
  rw [released_append, released_other, List.append_nil]

/-- The items that the loops have to post, when the jobs of one loop change. -/
theorem pending_update (loops : PeerRef → Loop) (i : PeerRef) (l : Loop) :
    (fun j => posts (Function.update loops i l j).jobs) =
      Function.update (fun j => posts (loops j).jobs) i (posts l.jobs) :=
  funext fun j => Function.apply_update (fun _ l => posts (Loop.jobs l)) loops i l j

theorem pending_update_self (loops : PeerRef → Loop) {i : PeerRef} {l : Loop}
    (h : posts l.jobs = posts (loops i).jobs) :
    (fun j => posts (Function.update loops i l j).jobs) = fun j => posts (loops j).jobs := by
  rw [pending_update, h]
  exact Function.update_eq_self i fun j => posts (loops j).jobs

theorem read_funnel (C : Crypto) {s : Courier} {i : PeerRef} (packet : Packet)
    (hidle : (s.loops i).jobs = []) : s.funnel.Step (s.read C i packet).funnel := by
  let items := posts ((s.loops i).read C s.whisper packet).jobs
  have hpending : s.funnel.pending i = [] := by
    show posts (s.loops i).jobs = []
    rw [hidle]
    rfl
  have hbatches : (s.read C i packet).funnel.batches =
      Function.update s.funnel.batches i (s.funnel.batches i ++ [items]) := by
    funext j
    refine (Function.apply_update (fun _ => List.map Reading.items) s.readings i _ j).trans ?_
    rw [List.map_append]
    rfl
  have hfunnel : (s.read C i packet).funnel =
      { s.funnel with
        batches := Function.update s.funnel.batches i (s.funnel.batches i ++ [items])
        pending := Function.update s.funnel.pending i items } :=
    Funnel.ext hbatches (pending_update _ _ _) rfl rfl rfl
  rw [hfunnel]
  exact .feed i items hpending

theorem work_funnel_post (C : Crypto) {s : Courier} {i : PeerRef} (now : UInt32)
    (sync : Option GoError) {item : P2PItem} {rest : List Job}
    (hjobs : (s.loops i).jobs = .postP2P item :: rest) :
    s.funnel.Step (s.work C i now sync).funnel := by
  have hwork := Loop.work_postP2P (C := C) now sync s.whisper hjobs
  have hpending : s.funnel.pending i = item :: posts rest := by
    show posts (s.loops i).jobs = _
    rw [hjobs]
    rfl
  have horigin : s.origin i = some (i, (s.funnel.batches i).length - 1) := by
    simp only [origin, hjobs, funnel, List.length_map]
  have hqueue : (s.work C i now sync).queue =
      s.queue ++ [(some (i, (s.funnel.batches i).length - 1), item)] := by
    simp only [work, hwork, gained_append, horigin, List.map_cons, List.map_nil]
  have hposts : (fun j => posts ((s.work C i now sync).loops j).jobs) =
      Function.update s.funnel.pending i (posts rest) := by
    simp only [work, hwork]
    exact pending_update _ _ _
  have hfeed : released (s.work C i now sync).feed = released s.feed :=
    released_append_other _ _
  have hfunnel : (s.work C i now sync).funnel =
      { s.funnel with
        pending := Function.update s.funnel.pending i (posts rest)
        queue := s.funnel.queue ++ [(some (i, (s.funnel.batches i).length - 1), item)] } :=
    Funnel.ext rfl hposts hqueue rfl hfeed
  rw [hfunnel]
  exact .put i item (posts rest) hpending

theorem work_funnel_other (C : Crypto) {s : Courier} {i : PeerRef} (now : UInt32)
    (sync : Option GoError) (hloop : (s.loops i).Separate)
    (hjobs : ∀ item rest, (s.loops i).jobs ≠ .postP2P item :: rest) :
    s.funnel.Step (s.work C i now sync).funnel := by
  have hposts : (fun j => posts ((s.work C i now sync).loops j).jobs) = s.funnel.pending :=
    pending_update_self s.loops (Loop.work_other (C := C) now sync s.whisper hloop hjobs).2
  have hfeed : released (s.work C i now sync).feed = released s.feed :=
    released_append_other _ _
  have hunstamped : s.origin i = none := by
    unfold origin
    split
    · rename_i item rest h
      exact absurd h (hjobs item rest)
    · rfl
  have hqueue : (s.work C i now sync).queue = s.queue ++
      (gained s.whisper.p2pMsgQueue
        ((s.loops i).work C now sync s.whisper).1.p2pMsgQueue).map (Prod.mk none) := by
    rw [← hunstamped]
    rfl
  obtain hsame | ⟨item, hone⟩ := Loop.work_queue (C := C) now sync s.whisper hjobs
  · rw [hsame, gained_self, List.map_nil, List.append_nil] at hqueue
    have hfunnel : (s.work C i now sync).funnel = s.funnel :=
      Funnel.ext rfl hposts hqueue rfl hfeed
    rw [hfunnel]
    exact .skip
  · rw [hone, gained_append, List.map_cons, List.map_nil] at hqueue
    have hfunnel : (s.work C i now sync).funnel =
        { s.funnel with queue := s.funnel.queue ++ [(none, item)] } :=
      Funnel.ext rfl hposts hqueue rfl hfeed
    rw [hfunnel]
    exact .insert item

theorem work_funnel (C : Crypto) {s : Courier} {i : PeerRef} (now : UInt32)
    (sync : Option GoError) (hloop : (s.loops i).Separate) :
    s.funnel.Step (s.work C i now sync).funnel := by
  by_cases hpost : ∃ item rest, (s.loops i).jobs = .postP2P item :: rest
  · obtain ⟨item, rest, hjobs⟩ := hpost
    exact work_funnel_post C now sync hjobs
  · exact work_funnel_other C now sync hloop fun item rest h => hpost ⟨item, rest, h⟩

theorem emit_funnel (C : Crypto) {s : Courier} {x : Taken} (hheld : s.held = some x) :
    s.funnel.Step (s.emit C x).funnel := by
  have hfunnel : (s.emit C x).funnel =
      { s.funnel with
        held := none
        released := s.funnel.released ++ [(x.origin, x.item)] } :=
    Funnel.ext rfl rfl rfl rfl (released_append _ _)
  rw [hfunnel]
  exact .release (x.origin, x.item) (by simp only [funnel, hheld, Option.map_some])

/-- The two steps of `processP2P` for an item. -/
theorem emit_take (C : Crypto) {s : Courier} {x : Stamped PeerRef P2PItem}
    {rest : List (Stamped PeerRef P2PItem)} (order : List FilterRef)
    (hmatches : s.queue.map Prod.snd = s.whisper.p2pMsgQueue) (hqueue : s.queue = x :: rest) :
    ∃ t, (s.take C x rest order).held = some t ∧
      s.whisper.processP2P C = some ((s.take C x rest order).emit C t).whisper := by
  refine ⟨_, rfl, ?_⟩
  rw [hqueue, List.map_cons] at hmatches
  obtain ⟨origin, item⟩ := x
  cases item <;> simp only [Whisper.processP2P, take, emit, ← hmatches] <;> rfl

/-! ### The order of the events -/

/-- What `processP2P` has sent the events of, for the peer `i`. -/
def takenFrom (i : PeerRef) (entries : List Entry) : List Taken :=
  entries.filterMap fun
    | .direct t =>
      match t.origin with
      | some (j, _) => if j = i then some t else none
      | none => none
    | .other _ => none

theorem map_takenFrom (i : PeerRef) (entries : List Entry) :
    (takenFrom i entries).map Taken.item =
      (Funnel.of i (released entries)).map Prod.snd := by
  rw [takenFrom, Funnel.of, released, List.filterMap_filterMap, List.map_filterMap,
    List.map_filterMap]
  refine List.filterMap_congr fun entry _ => ?_
  cases entry with
  | other event => rfl
  | direct t =>
    obtain ⟨origin, item, notice⟩ := t
    cases origin with
    | none => rfl
    | some stamp =>
      obtain ⟨j, k⟩ := stamp
      by_cases hj : j = i <;> simp [hj]

theorem direct_of_mem_takenFrom {i : PeerRef} {entries : List Entry} {t : Taken}
    (h : t ∈ takenFrom i entries) : Entry.direct t ∈ entries := by
  obtain ⟨entry, hmem, hentry⟩ := List.mem_filterMap.mp h
  cases entry with
  | other event => cases hentry
  | direct t' =>
    dsimp only at hentry
    split at hentry
    · split at hentry
      · cases hentry
        exact hmem
      · cases hentry
    · cases hentry

/-- The funnel loses and reorders nothing, and it is what the node has. -/
structure Ordered (C : Crypto) (s : Courier) : Prop where
  conserved : s.funnel.Conserved
  queue : s.queue.map Prod.snd = s.whisper.p2pMsgQueue
  feed : s.feed.map (Entry.event C) = s.whisper.envelopeFeed
  separate : ∀ i, (s.loops i).Separate
  indexed : s.filters.Indexed C
  sound : ∀ i, ∀ x ∈ s.readings i, x.Sound

theorem map_event_other (C : Crypto) (events : List EnvelopeEvent) :
    (events.map Entry.other).map (Entry.event C) = events := by
  rw [List.map_map]
  exact List.map_id _

theorem start_ordered {C : Crypto} {w : Whisper} {fs : Filters} {loops : PeerRef → Loop}
    (hqueue : w.p2pMsgQueue = []) (hindexed : fs.Indexed C) (hidle : ∀ i, (loops i).jobs = []) :
    (start w fs loops).Ordered C where
  conserved i := by
    have hposts : posts (loops i).jobs = [] := by rw [hidle i]; rfl
    simp [start, funnel, released_other, hposts, Funnel.numbered]
  queue := hqueue.symm
  feed := map_event_other C _
  separate i := .inr (by rw [start, hidle i]; rfl)
  indexed := hindexed
  sound _ x hx := nomatch hx

/-- What the other goroutines add to the feed is not sent by `processP2P`. -/
theorem direct_mem_append_other {entries : List Entry} {events : List EnvelopeEvent} {t : Taken}
    (h : Entry.direct t ∈ entries ++ events.map .other) : Entry.direct t ∈ entries := by
  obtain h | h := List.mem_append.mp h
  · exact h
  · obtain ⟨event, -, h⟩ := List.mem_map.mp h
    cases h

theorem feed_append_other {C : Crypto} {entries : List Entry} {before after : List EnvelopeEvent}
    (h : entries.map (Entry.event C) = before) (hgrown : before <+: after) :
    (entries ++ (gained before after).map Entry.other).map (Entry.event C) = after := by
  rw [List.map_append, map_event_other, h, append_gained hgrown]

theorem separate_update {loops : PeerRef → Loop} {i : PeerRef} {l : Loop}
    (h : ∀ j, (loops j).Separate) (hl : l.Separate) (j : PeerRef) :
    (Function.update loops i l j).Separate := by
  by_cases hj : j = i
  · rw [hj, Function.update_self]
    exact hl
  · rw [Function.update_of_ne hj]
    exact h j

theorem Ordered.read {C : Crypto} {s : Courier} (hs : s.Ordered C) {i : PeerRef}
    (hidle : (s.loops i).jobs = []) (packet : Packet) : (s.read C i packet).Ordered C where
  conserved := (read_funnel C packet hidle).conserved hs.conserved
  queue := hs.queue
  feed := hs.feed
  separate := separate_update hs.separate (Loop.read_separate C s.whisper (s.loops i) packet)
  indexed := hs.indexed
  sound j x hx := by
    by_cases hj : j = i
    · subst hj
      simp only [Courier.read, Function.update_self, List.mem_append, List.mem_singleton] at hx
      obtain hx | rfl := hx
      · exact hs.sound j x hx
      · exact Loop.read_sound C s.whisper (s.loops j) packet
    · simp only [Courier.read, Function.update_of_ne hj] at hx
      exact hs.sound j x hx

theorem Ordered.work {C : Crypto} {s : Courier} (hs : s.Ordered C) (i : PeerRef) (now : UInt32)
    (sync : Option GoError) : (s.work C i now sync).Ordered C where
  conserved := (work_funnel C now sync (hs.separate i)).conserved hs.conserved
  queue := by
    have hgrown := (Loop.work_changes C now sync s.whisper (s.loops i)).p2pMsgQueue_le
    simp only [Courier.work, List.map_append, List.map_map, hs.queue]
    exact (congrArg _ (List.map_id _)).trans (append_gained hgrown)
  feed :=
    feed_append_other hs.feed (Loop.work_changes C now sync s.whisper (s.loops i)).envelopeFeed_le
  separate := separate_update hs.separate (Loop.work_separate now sync s.whisper (hs.separate i))
  indexed := hs.indexed
  sound := hs.sound

theorem Ordered.take {C : Crypto} {s : Courier} (hs : s.Ordered C) {x : Stamped PeerRef P2PItem}
    {rest : List (Stamped PeerRef P2PItem)} {order : List FilterRef} (hfree : s.held = none)
    (hqueue : s.queue = x :: rest) : (s.take C x rest order).Ordered C where
  conserved := (Funnel.Step.take x rest (by simp only [funnel, hfree, Option.map_none])
    hqueue).conserved hs.conserved
  queue := by
    have hold := hs.queue
    rw [hqueue, List.map_cons] at hold
    simp only [Courier.take, ← hold, List.tail_cons]
  feed := hs.feed
  separate := hs.separate
  indexed := by
    have hstores : s.filters.StoresOnly (x.2.notify C s.filters order) := by
      cases x.2 with
      | envelope e => exact Filters.storesOnly_notifyWatchers s.filters e true order
      | event event => exact .refl s.filters
    exact hstores.indexed hs.indexed
  sound := hs.sound

theorem Ordered.emit {C : Crypto} {s : Courier} (hs : s.Ordered C) {x : Taken}
    (hheld : s.held = some x) : (s.emit C x).Ordered C where
  conserved := (emit_funnel C hheld).conserved hs.conserved
  queue := hs.queue
  feed := by
    simp only [Courier.emit, List.map_append, hs.feed]
    rfl
  separate := hs.separate
  indexed := hs.indexed
  sound := hs.sound

theorem Ordered.step {C : Crypto} {s t : Courier} {a : CourierAction} (hs : s.Ordered C)
    (hstep : CourierStep C s a t) : t.Ordered C := by
  cases a with
  | read i packet =>
    obtain ⟨hidle, -, rfl⟩ := hstep
    exact hs.read hidle packet
  | work i now sync =>
    obtain ⟨-, rfl, -⟩ := hstep
    exact hs.work i now sync
  | take order =>
    obtain ⟨x, rest, hfree, hqueue, -, rfl⟩ := hstep
    exact hs.take hfree hqueue
  | emit =>
    obtain ⟨x, hheld, rfl⟩ := hstep
    exact hs.emit hheld
  | setPeer i p =>
    have hfunnel : t.funnel = s.funnel := by
      subst hstep
      exact Funnel.ext rfl (pending_update_self s.loops rfl) rfl rfl rfl
    have hconserved : t.funnel.Conserved := by rw [hfunnel]; exact hs.conserved
    cases hstep
    exact ⟨hconserved, hs.queue, hs.feed, separate_update hs.separate (hs.separate i), hs.indexed,
      hs.sound⟩
  | setFilters fs =>
    obtain ⟨hfilters, rfl⟩ := hstep
    have hindexed : fs.Indexed C := by
      obtain ⟨a, hstep⟩ | hstores := hfilters
      · exact hstep.indexed hs.indexed
      · exact hstores.indexed hs.indexed
    exact ⟨hs.conserved, hs.queue, hs.feed, hs.separate, hindexed, hs.sound⟩
  | others w =>
    obtain ⟨hqueue, hgrown, ht⟩ := hstep
    have hfunnel : t.funnel = s.funnel := by
      subst ht
      exact Funnel.ext rfl rfl rfl rfl (released_append_other _ _)
    have hconserved : t.funnel.Conserved := by rw [hfunnel]; exact hs.conserved
    subst ht
    exact ⟨hconserved, hs.queue.trans hqueue.symm, feed_append_other hs.feed hgrown, hs.separate,
      hs.indexed, hs.sound⟩

/-! ### The filters -/

theorem feed_le_of_step {C : Crypto} {s t : Courier} {a : CourierAction}
    (h : CourierStep C s a t) : s.feed <+: t.feed := by
  cases a with
  | read i packet =>
    obtain ⟨-, -, rfl⟩ := h
    exact List.prefix_rfl
  | work i now sync =>
    obtain ⟨-, rfl, -⟩ := h
    exact List.prefix_append _ _
  | take order =>
    obtain ⟨x, rest, -, -, -, rfl⟩ := h
    exact List.prefix_rfl
  | emit =>
    obtain ⟨x, -, rfl⟩ := h
    exact List.prefix_append _ _
  | setPeer i p =>
    cases h
    exact List.prefix_rfl
  | setFilters fs =>
    obtain ⟨-, rfl⟩ := h
    exact List.prefix_rfl
  | others w =>
    obtain ⟨-, -, rfl⟩ := h
    exact List.prefix_append _ _

theorem feed_le {C : Crypto} {s t : Courier} {acts : List CourierAction}
    (hrun : Run (CourierStep C) s acts t) : s.feed <+: t.feed :=
  hrun.invariant (P := fun u => s.feed <+: u.feed) List.prefix_rfl
    fun _ _ _ _ hs hstep => hs.trans (feed_le_of_step hstep)

/-- `processP2P` has the item, or it has sent its event. -/
def Has (s : Courier) (x : Taken) : Prop := s.held = some x ∨ Entry.direct x ∈ s.feed

/-- Only `processP2P` takes items from the queue. -/
theorem take_of_has {C : Crypto} {s t : Courier} {a : CourierAction} {x : Taken}
    (hstep : CourierStep C s a t) (hs : ¬ s.Has x) (ht : t.Has x) :
    ∃ order, a = .take order ∧ t.held = some x := by
  cases a with
  | read i packet =>
    obtain ⟨-, -, rfl⟩ := hstep
    exact absurd ht hs
  | work i now sync =>
    obtain ⟨-, rfl, -⟩ := hstep
    exact absurd (ht.imp_right direct_mem_append_other) hs
  | take order =>
    obtain ⟨y, rest, -, -, -, rfl⟩ := hstep
    exact ⟨order, rfl, ht.resolve_right fun h => hs (.inr h)⟩
  | emit =>
    obtain ⟨y, hheld, rfl⟩ := hstep
    rcases ht with ht | ht
    · cases ht
    · simp only [Courier.emit, List.mem_append, List.mem_singleton, Entry.direct.injEq] at ht
      rcases ht with ht | rfl
      · exact absurd (.inr ht) hs
      · exact absurd (.inl hheld) hs
  | setPeer i p =>
    cases hstep
    exact absurd ht hs
  | setFilters fs =>
    obtain ⟨-, rfl⟩ := hstep
    exact absurd ht hs
  | others w =>
    obtain ⟨-, -, rfl⟩ := hstep
    exact absurd (ht.imp_right direct_mem_append_other) hs

/-- The step at which an item was taken whose event has been sent, which is before the event. -/
theorem taken_at {C : Crypto} {w : Whisper} {fs : Filters} {loops : PeerRef → Loop}
    {acts : List CourierAction} {s : Courier}
    (hrun : Run (CourierStep C) (start w fs loops) acts s) {pre post : List Entry} {x : Taken}
    (hfeed : s.feed = pre ++ post) (hx : Entry.direct x ∈ pre) :
    ∃ before order after s₁ s₂, acts = before ++ .take order :: after ∧
      Run (CourierStep C) (start w fs loops) before s₁ ∧ CourierStep C s₁ (.take order) s₂ ∧
      Run (CourierStep C) s₂ after s ∧ s₂.held = some x ∧ s₂.feed <+: pre := by
  have hstart : ¬ (start w fs loops).Has x := by
    rintro (h | h)
    · cases h
    · obtain ⟨event, -, h⟩ := List.mem_map.mp h
      cases h
  have hend : s.Has x := by
    refine .inr ?_
    rw [hfeed]
    exact List.mem_append_left _ hx
  obtain ⟨before, a, after, s₁, s₂, rfl, hbefore, hstep, hafter, hnot, hhas⟩ :=
    hrun.turns (P := (Has · x)) hstart hend
  obtain ⟨order, rfl, hheld⟩ := take_of_has hstep hnot hhas
  refine ⟨before, order, after, s₁, s₂, rfl, hbefore, hstep, hafter, hheld, ?_⟩
  -- The event was not sent when the item was taken, so the feed was shorter than `pre`.
  have hs₂ : s₂.feed <+: pre ++ post := hfeed ▸ feed_le hafter
  rcases List.prefix_or_prefix_of_prefix hs₂ (List.prefix_append pre post) with h | h
  · exact h
  · obtain ⟨y, rest, -, -, -, rfl⟩ := hstep
    exact absurd (.inr (h.subset hx)) hnot

end Courier

/-- What `NotifyWatchers` does for a direct message: it visits the candidates in some order, and the
filters that match get the message into their stores, which are all that changes. -/
structure Filters.Notifies (C : Crypto) (fs : Filters) (e : Envelope) (order : List FilterRef)
    (fs' : Filters) : Prop where
  visited : fs.WatcherOrder e.topic order
  triggered : fs.KeysDistinct C e → ∀ r, r ∈ fs.triggered C e true order ↔
    fs.Ready C e true r ∧ fs.within C e r = true ∧
      ((fs.heap r).matchEnvelope e = true ∨ Preceded (fs.opener C e true · = true) order r)
  stores : ∀ r k, k ∈ (fs'.heap r).messages ↔
    k ∈ (fs.heap r).messages ∨ k = e.hash C ∧ r ∈ fs.triggered C e true order
  only : fs.StoresOnly fs'

theorem Filters.notifies {C : Crypto} {fs : Filters} (hindexed : fs.Indexed C) {e : Envelope}
    (hcache : e.powCache = .zero) {order : List FilterRef}
    (horder : fs.WatcherOrder e.topic order) :
    fs.Notifies C e order (fs.notifyWatchers C e true order) where
  visited := horder
  triggered hkeys _ := by
    rw [mem_triggered_direct hindexed hkeys hcache horder, matchEnvelope_of_zero hcache]
  stores _ _ := mem_notifyWatchers e true order
  only := storesOnly_notifyWatchers fs e true order

namespace Courier

/-- The step of `processP2P` that takes a direct message whose proof of work is not cached. -/
theorem Ordered.notifies {C : Crypto} {s t : Courier} (hs : s.Ordered C) {order : List FilterRef}
    (hstep : CourierStep C s (.take order) t) {x : Taken} (hheld : t.held = some x) {e : Envelope}
    (hitem : x.item = .envelope e) (hcache : e.powCache = .zero) :
    x.notice = some ⟨e, s.filters, order⟩ ∧ s.filters.Notifies C e order t.filters := by
  obtain ⟨⟨origin, item⟩, rest, -, -, hvisits, rfl⟩ := hstep
  cases hheld
  cases hitem
  exact ⟨rfl, Filters.notifies hs.indexed hcache hvisits⟩

/-- The event that ends the answer of a peer comes after the events of all the mail that the peer
had sent before, which come once each and in the order of the mail; and before it `processP2P` has
taken each mail and `NotifyWatchers` has put it into the stores of the filters that match it. -/
theorem completion_after_mail (C : Crypto) {w : Whisper} {fs : Filters} {loops : PeerRef → Loop}
    {acts : List CourierAction} {s : Courier} (hqueue : w.p2pMsgQueue = [])
    (hindexed : fs.Indexed C) (hidle : ∀ i, (loops i).jobs = [])
    (hrun : Run (CourierStep C) (start w fs loops) acts s) :
    s.whisper.envelopeFeed = s.feed.map (Entry.event C) ∧
    (∀ i k x pre t post, (s.readings i)[k]? = some x → x.packet.code = p2pRequestCompleteCode →
      s.feed = pre ++ .direct t :: post → t.origin = some (i, k) →
      (∃ event, t.item = .event event ∧ event.event = .mailServerRequestCompleted) ∧
      (takenFrom i pre).map Taken.item = ((s.readings i).take k).flatMap Reading.items ∧
      ∀ t' ∈ takenFrom i pre, ∀ e, t'.item = .envelope e →
        ∃ before order after s₁ s₂, acts = before ++ .take order :: after ∧
          Run (CourierStep C) (start w fs loops) before s₁ ∧ CourierStep C s₁ (.take order) s₂ ∧
          Run (CourierStep C) s₂ after s ∧ s₂.feed <+: pre ∧ s₂.held = some t' ∧
          t'.notice = some ⟨e, s₁.filters, order⟩ ∧
          s₁.filters.Notifies C e order s₂.filters) ∧
    ∀ (w : Whisper) (l : Loop) (es : List Envelope), l.peer.trusted = true →
      w.checkPacketSize (sendP2PDirect es) = none →
      (sendP2PDirect es).payload.length < 2 ^ 32 →
      posts (l.read C w (sendP2PDirect es)).jobs = es.map fun e => .envelope (e.received C) := by
  have hordered : ∀ acts s, Run (CourierStep C) (start w fs loops) acts s → s.Ordered C :=
    fun _ _ run => run.invariant (start_ordered hqueue hindexed hidle)
      fun _ _ _ _ hs hstep => hs.step hstep
  have hs : s.Ordered C := hordered acts s hrun
  refine ⟨hs.feed.symm, fun i k x pre t post hx hcode hfeed horigin => ?_,
    fun w l es => posts_sendP2PDirect C⟩
  have hmem : x ∈ s.readings i := List.mem_of_getElem? hx
  obtain ⟨hsingle, hevents⟩ := (hs.sound i x hmem).complete hcode
  have hbatch : (s.funnel.batches i)[k]? = some x.items := by
    rw [funnel, List.getElem?_map, hx]
    rfl
  have hreleased : s.funnel.released = released pre ++ (some (i, k), t.item) :: released post := by
    rw [funnel, hfeed, released_append, ← horigin]
    rfl
  obtain ⟨hitems, hpre⟩ := hs.conserved.before_single hbatch hsingle hreleased
  have hall : (takenFrom i pre).map Taken.item =
      ((s.readings i).take k).flatMap Reading.items := by
    rw [map_takenFrom, hpre, funnel, ← List.map_take, List.flatMap_def]
  refine ⟨hevents t.item (by rw [hitems]; simp), hall, fun t' ht' e hitem => ?_⟩
  have hbrought : P2PItem.envelope e ∈ ((s.readings i).take k).flatMap Reading.items := by
    rw [← hall, ← hitem]
    exact List.mem_map_of_mem ht'
  obtain ⟨y, hy, he⟩ := List.mem_flatMap.mp hbrought
  have hcache := (hs.sound i y (List.mem_of_mem_take hy)).uncached e he
  obtain ⟨before, order, after, s₁, s₂, hacts, hbefore, hstep, hafter, hheld, hle⟩ :=
    taken_at hrun hfeed (direct_of_mem_takenFrom ht')
  obtain ⟨hnotice, hnotifies⟩ := (hordered before s₁ hbefore).notifies hstep hheld hitem hcache
  exact ⟨before, order, after, s₁, s₂, hacts, hbefore, hstep, hafter, hle, hheld, hnotice,
    hnotifies⟩

/-- A node with two filters and a peer that it trusts. -/
def awaitingCourier : Courier := start (new {}) (pairFilters 0) fun _ => trustingLoop

/-- The peer has sent an envelope. -/
def mailedCourier : Courier :=
  (awaitingCourier.read tagCrypto 1 (sendP2PDirect [shortEnvelope])).work tagCrypto 1 0 none

/-- The peer has sent the end of its answer. -/
def answeredCourier : Courier :=
  (mailedCourier.read tagCrypto 1 (sendHistoricMessageResponse
    (createMailServerRequestCompletedPayload 5 6 []))).work tagCrypto 1 0 none

def mailTaken : Taken where
  origin := some (1, 0)
  item := .envelope (shortEnvelope.received tagCrypto)
  notice := some ⟨shortEnvelope.received tagCrypto, pairFilters 0, [1, 0]⟩

def endTaken : Taken where
  origin := some (1, 1)
  item := .event
    { event := .mailServerRequestCompleted
      hash := 5
      peer := 7
      data := .mailServer { lastEnvelopeHash := 6 } }
  notice := none

/-- `processP2P` has taken the envelope, and it has sent both events. -/
def notifiedCourier : Courier :=
  answeredCourier.take tagCrypto (mailTaken.origin, mailTaken.item)
    [(endTaken.origin, endTaken.item)] [1, 0]

def finishedCourier : Courier :=
  ((notifiedCourier.emit tagCrypto mailTaken).take tagCrypto (endTaken.origin, endTaken.item)
    [] []).emit tagCrypto endTaken

theorem finishedCourier_run :
    Run (CourierStep tagCrypto) awaitingCourier
      [.read 1 (sendP2PDirect [shortEnvelope]), .work 1 0 none,
        .read 1 (sendHistoricMessageResponse (createMailServerRequestCompletedPayload 5 6 [])),
        .work 1 0 none, .take [1, 0], .emit, .take [], .emit] finishedCourier := by
  refine .cons ⟨rfl, rfl, rfl⟩ (.cons (t := mailedCourier) ⟨?_, rfl, ?_⟩ ?_)
  · decide +kernel
  · decide +kernel
  refine .cons ⟨?_, ?_, rfl⟩ (.cons (t := answeredCourier) ⟨?_, rfl, ?_⟩ ?_)
  · decide +kernel
  · decide +kernel
  · decide +kernel
  · decide +kernel
  have hqueue : answeredCourier.queue =
      [(mailTaken.origin, mailTaken.item), (endTaken.origin, endTaken.item)] := by
    decide +kernel
  refine .cons (t := notifiedCourier) ⟨_, _, ?_, hqueue, ?_, rfl⟩ ?_
  · rfl
  · exact pairFilters_order 0 [1, 0] (by decide)
  refine .cons ⟨mailTaken, rfl, rfl⟩ (.cons ⟨_, _, rfl, rfl, trivial, rfl⟩ ?_)
  exact .cons ⟨endTaken, rfl, rfl⟩ (.nil _)

theorem completion_after_mail_answer :
    finishedCourier.feed = [.direct mailTaken, .direct endTaken] ∧
    (takenFrom 1 [.direct mailTaken]).map Taken.item =
      [.envelope (shortEnvelope.received tagCrypto)] ∧
    ∃ s₁ s₂, CourierStep tagCrypto s₁ (.take [1, 0]) s₂ ∧ s₂.held = some mailTaken ∧
      s₂.feed <+: [.direct mailTaken] ∧
      ∀ r, (s₁.filters.heap r).messages = ∅ ∧
        ((shortEnvelope.received tagCrypto).hash tagCrypto ∈ (s₂.filters.heap r).messages ↔
          r = 1 ∨ r = 0) := by
  have hsilent : answeredCourier.feed = [] := by
    rw [← List.length_eq_zero_iff]
    decide +kernel
  have hfeed : finishedCourier.feed = [.direct mailTaken, .direct endTaken] := by
    simp only [finishedCourier, notifiedCourier, emit, take, hsilent, List.nil_append,
      List.singleton_append]
  have hmail : ((finishedCourier.readings 1).take 1).flatMap Reading.items =
      [.envelope (shortEnvelope.received tagCrypto)] := by decide +kernel
  have hend : ∃ x, (finishedCourier.readings 1)[1]? = some x ∧
      x.packet.code = p2pRequestCompleteCode := ⟨_, rfl, rfl⟩
  obtain ⟨x, hx, hcode⟩ := hend
  obtain ⟨-, hbefore, -⟩ := completion_after_mail tagCrypto rfl
    (Filters.run_indexed (pairFilters_run 0)) (fun _ => rfl) finishedCourier_run
  obtain ⟨-, hitems, hmails⟩ := hbefore 1 1 x [.direct mailTaken] endTaken [] hx hcode hfeed rfl
  obtain ⟨_, order, _, s₁, s₂, -, -, hstep, -, hle, hheld, hnotice, hnotifies⟩ :=
    hmails mailTaken List.mem_cons_self _ rfl
  obtain ⟨-, hfilters, rfl⟩ := Dequeued.mk.inj (Option.some.inj hnotice)
  have htriggered : (pairFilters 0).triggered tagCrypto (shortEnvelope.received tagCrypto) true
      [1, 0] = [1, 0] := by decide +kernel
  refine ⟨hfeed, hitems.trans hmail, s₁, s₂, hstep, hheld, hle, fun r => ?_⟩
  have hempty : (s₁.filters.heap r).messages = ∅ := by
    rw [← hfilters]
    exact pairFilters_messages 0 r
  refine ⟨hempty, ?_⟩
  rw [hnotifies.stores, hempty, ← hfilters, htriggered, or_iff_right Finmap.notMem_empty]
  simp

end Courier

end Whisperv6
