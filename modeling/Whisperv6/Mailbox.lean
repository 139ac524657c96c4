import Whisperv6.Delivery
import Whisperv6.Net
import Whisperv6.ProofKit.Inbox

/-! The way of an envelope to a filter: `add` pools and queues it, `processQueue` takes it from the
queue and notifies the filters, and `Retrieve` hands over what the store of a filter holds.  The
pool keeps the envelope from being queued again until it expires, and then `add` refuses it, so that
the store may forget what it has handed over. -/

namespace Whisperv6

open ProofKit

/-! ### `Retrieve` -/

/-- One round of the loop of `Pop`. -/
def Filter.popOne (s : Filter × List ReceivedMessage) (h : Hash) : Filter × List ReceivedMessage :=
  match s.1.messages.lookup h with
  | some msg => ({ s.1 with messages := s.1.messages.erase h }, s.2 ++ [msg])
  | none => s

/-- `Retrieve`, with the `Pop` of the memory store, whose loop visits the hashes in the order
`order`. -/
def Filter.retrieve (f : Filter) (order : List Hash) : Filter × List ReceivedMessage :=
  order.foldl Filter.popOne (f, [])

/-- `Retrieve` on the filter at the address `r`. -/
def Filters.retrieve (fs : Filters) (r : FilterRef) (order : List Hash) :
    Filters × List ReceivedMessage :=
  let (f, all) := (fs.heap r).retrieve order
  ({ fs with heap := Function.update fs.heap r f }, all)

/-- Every message of the store is filed under the hash of its envelope. -/
def Filter.Keyed (f : Filter) : Prop :=
  ∀ h msg, f.messages.lookup h = some msg → msg.envelopeHash = h

theorem Filter.foldl_popOne {f : Filter} {all : List ReceivedMessage} {order : List Hash}
    (hf : f.Keyed) (hnodup : order.Nodup) (hmem : ∀ h ∈ order, h ∈ f.messages) :
    (order.foldl popOne (f, all)).1 = { f with messages := eraseAll f.messages order } ∧
      (order.foldl popOne (f, all)).2.map ReceivedMessage.envelopeHash =
        all.map ReceivedMessage.envelopeHash ++ order := by
  induction order generalizing f all with
  | nil => exact ⟨rfl, (List.append_nil _).symm⟩
  | cons h rest ih =>
    rw [List.nodup_cons] at hnodup
    obtain ⟨msg, hmsg⟩ := Finmap.mem_iff.mp (hmem h List.mem_cons_self)
    have hpop : popOne (f, all) h = ({ f with messages := f.messages.erase h }, all ++ [msg]) := by
      simp only [popOne, hmsg]
    have hkeyed : Keyed { f with messages := f.messages.erase h } :=
      fun k m hm => hf k m (lookup_erase_iff.mp hm).2
    have hrest : ∀ k ∈ rest, k ∈ ({ f with messages := f.messages.erase h } : Filter).messages := by
      intro k hk
      have hne : k ≠ h := fun heq => hnodup.1 (heq ▸ hk)
      exact Finmap.mem_erase.mpr ⟨hne, hmem k (List.mem_cons_of_mem _ hk)⟩
    obtain ⟨hfilter, hall⟩ := @ih _ (all ++ [msg]) hkeyed hnodup.2 hrest
    rw [List.foldl_cons, hpop]
    refine ⟨hfilter, ?_⟩
    rw [hall, List.map_append, List.append_assoc, List.map_singleton, hf h msg hmsg]
    rfl

/-! ### Stores -/

namespace Filters

variable {C : Crypto} {fs fs' : Filters} {r : FilterRef}

/-- The collections differ only in the stores of their filters. -/
structure StoresOnly (fs fs' : Filters) : Prop where
  watchers : fs'.watchers = fs.watchers
  topicMatcher : fs'.topicMatcher = fs.topicMatcher
  allTopicsMatcher : fs'.allTopicsMatcher = fs.allTopicsMatcher
  heap : ∀ r, ∃ messages, fs'.heap r = { fs.heap r with messages }

theorem StoresOnly.refl (fs : Filters) : fs.StoresOnly fs :=
  ⟨rfl, rfl, rfl, fun _ => ⟨_, rfl⟩⟩

theorem StoresOnly.trans {fs'' : Filters} (h : fs.StoresOnly fs') (h' : fs'.StoresOnly fs'') :
    fs.StoresOnly fs'' := by
  refine ⟨h'.watchers.trans h.watchers, h'.topicMatcher.trans h.topicMatcher,
    h'.allTopicsMatcher.trans h.allTopicsMatcher, fun r => ?_⟩
  obtain ⟨messages, heq⟩ := h.heap r
  obtain ⟨messages', heq'⟩ := h'.heap r
  refine ⟨messages', ?_⟩
  rw [heq', heq]

theorem StoresOnly.update (fs : Filters) (r : FilterRef) (messages : GoMap Hash ReceivedMessage) :
    fs.StoresOnly { fs with heap := Function.update fs.heap r { fs.heap r with messages } } := by
  refine ⟨rfl, rfl, rfl, fun r' => ?_⟩
  by_cases hr : r' = r
  · subst hr
    exact ⟨messages, Function.update_self ..⟩
  · exact ⟨_, Function.update_of_ne hr ..⟩

/-- The index says nothing about the stores. -/
theorem StoresOnly.indexed (h : fs.StoresOnly fs') (hindexed : fs.Indexed C) : fs'.Indexed C := by
  have hinstalled : ∀ r, fs'.Installed r ↔ fs.Installed r := by
    intro r
    rw [Installed, h.watchers]
    rfl
  have htopics : ∀ r, (fs'.heap r).topics = (fs.heap r).topics := by
    intro r
    obtain ⟨messages, heq⟩ := h.heap r
    rw [heq]
  constructor
  · intro r
    rw [h.allTopicsMatcher, hinstalled, htopics]
    exact hindexed.wildcard r
  · intro topic r
    rw [atTopic, h.topicMatcher, hinstalled, htopics]
    exact hindexed.listed topic r
  · rw [h.watchers]
    exact hindexed.distinct
  · intro r hr
    obtain ⟨messages, heq⟩ := h.heap r
    rw [heq]
    exact hindexed.oneKey r ((hinstalled r).mp hr)
  · intro r key hr
    obtain ⟨messages, heq⟩ := h.heap r
    rw [heq]
    exact hindexed.symKeyHash r key ((hinstalled r).mp hr)

/-- All stores file their messages under the hashes of the envelopes. -/
def Keyed (fs : Filters) : Prop := ∀ r, (fs.heap r).Keyed

theorem Keyed.update (h : fs.Keyed) {f : Filter} (hf : f.Keyed) :
    Keyed { fs with heap := Function.update fs.heap r f } := by
  intro r'
  by_cases hr : r' = r
  · subst hr
    show Filter.Keyed (Function.update fs.heap r' f r')
    rw [Function.update_self]
    exact hf
  · show Filter.Keyed (Function.update fs.heap r f r')
    rw [Function.update_of_ne hr]
    exact h r'

theorem retrieve_eq (h : fs.Keyed) {order : List Hash}
    (ho : IsOrder (fs.heap r).messages.keys order) :
    (fs.retrieve r order).1 =
        { fs with
          heap := Function.update fs.heap r
            { fs.heap r with messages := eraseAll (fs.heap r).messages order } } ∧
      (fs.retrieve r order).2.map ReceivedMessage.envelopeHash = order := by
  obtain ⟨hfilter, hall⟩ := @Filter.foldl_popOne (fs.heap r) [] order (h r) ho.1
    fun k hk => Finmap.mem_keys.mp (ho.mem.mp hk)
  refine ⟨?_, hall⟩
  show ({ fs with heap := Function.update fs.heap r ((fs.heap r).retrieve order).1 } : Filters) = _
  rw [Filter.retrieve, hfilter]

theorem notMem_eraseAll {m : GoMap Hash ReceivedMessage} {order : List Hash}
    (ho : IsOrder m.keys order) (k : Hash) : k ∉ eraseAll m order := by
  rw [← Finmap.lookup_eq_none, lookup_eraseAll]
  split
  · rfl
  · rename_i hk
    rw [Finmap.lookup_eq_none]
    exact fun hmem => hk (ho.mem.mpr (Finmap.mem_keys.mpr hmem))

end Filters

theorem Filter.Keyed.trigger {f : Filter} (h : f.Keyed) (msg : ReceivedMessage) :
    (f.trigger msg).Keyed := by
  unfold Filter.trigger
  split
  · exact h
  · intro k m hm
    rcases lookup_insert_iff.mp hm with ⟨rfl, rfl⟩ | ⟨-, hold⟩
    · rfl
    · exact h k m hold

theorem Filter.mem_trigger {f : Filter} {msg : ReceivedMessage} {k : Hash} :
    k ∈ (f.trigger msg).messages ↔ k ∈ f.messages ∨ k = msg.envelopeHash := by
  unfold Filter.trigger
  split
  · rename_i hmem
    constructor
    · exact .inl
    · rintro (hk | rfl)
      · exact hk
      · exact hmem
  · rw [Finmap.mem_insert, or_comm]

/-! ### Notification -/

theorem Envelope.hash_opened (C : Crypto) (e : Envelope) : (e.opened C).hash C = e.hash C := by
  have hfill : (e.opened C).hash C = (e.fill C).hash C := by
    unfold opened fillPoW
    split <;> rfl
  rw [hfill, hash_fill]

theorem Envelope.openEnvelope_envelopeHash {C : Crypto} {e : Envelope} {f : Filter}
    {m : ReceivedMessage} (h : e.openEnvelope C f = some m) : m.envelopeHash = e.hash C := by
  unfold openEnvelope at h
  obtain ⟨d, -, h⟩ := Option.bind_eq_some_iff.mp h
  split at h
  · cases h
    rfl
  · cases h

/-- The loop of `NotifyWatchers` is about the envelope with the hash `k`. -/
structure Notice.About (C : Crypto) (k : Hash) (s : Notice) : Prop where
  env : s.env.hash C = k
  msg : ∀ m ∈ s.msg, m.envelopeHash = k
  triggered : ∀ x ∈ s.triggered, x.2.envelopeHash = k

section About

variable {C : Crypto} {k : Hash} {s : Notice}

theorem Notice.About.tryMatch (h : s.About C k) (watcher : Filter) :
    (s.tryMatch C watcher).1.About C k := by
  unfold Notice.tryMatch
  split
  · exact h
  · split
    · split
      · rename_i m hopen
        refine ⟨(Envelope.hash_opened C s.env).trans h.env, fun m' hm' => ?_, h.triggered⟩
        cases hm'
        exact (Envelope.openEnvelope_envelopeHash hopen).trans h.env
      · exact h
    · exact h

theorem Notice.About.visit (h : s.About C k) (fs : Filters) (p2p : Bool) (r : FilterRef) :
    (s.visit C fs p2p r).About C k := by
  unfold Notice.visit
  dsimp only
  split
  · exact h
  have hmatch := h.tryMatch (fs.heap r)
  split
  · exact hmatch
  · rename_i m hm
    have hhash : m.envelopeHash = k := hmatch.msg m hm
    have hflag : ∀ m' ∈ some { m with p2p := p2p }, m'.envelopeHash = k := by
      intro m' hm'
      cases hm'
      exact hhash
    split
    · split
      · refine ⟨hmatch.env, hflag, fun x hx => ?_⟩
        rcases List.mem_append.mp hx with hx | hx
        · exact hmatch.triggered x hx
        · rw [List.mem_singleton.mp hx]
          exact hhash
      · exact ⟨hmatch.env, hflag, hmatch.triggered⟩
    · exact hmatch

theorem Filters.notice_about (fs : Filters) (env : Envelope) (p2p : Bool)
    (order : List FilterRef) : (fs.notice C env p2p order).About C (env.hash C) := by
  have hstart : ({ env := env } : Notice).About C (env.hash C) :=
    ⟨rfl, by simp, by simp⟩
  unfold Filters.notice
  generalize ({ env := env } : Notice) = s at hstart
  induction order generalizing s with
  | nil => exact hstart
  | cons r rest ih => exact ih _ (hstart.visit fs p2p r)

end About

namespace Filters

variable {C : Crypto} {fs : Filters} {r : FilterRef} {k : Hash}

/-- The message goes to the store of the filter. -/
def put (fs : Filters) (x : FilterRef × ReceivedMessage) : Filters :=
  { fs with heap := Function.update fs.heap x.1 ((fs.heap x.1).trigger x.2) }

theorem storesOnly_put (fs : Filters) (x : FilterRef × ReceivedMessage) :
    fs.StoresOnly (fs.put x) := by
  have hmessages : (fs.heap x.1).trigger x.2 =
      { fs.heap x.1 with messages := ((fs.heap x.1).trigger x.2).messages } := by
    unfold Filter.trigger
    split <;> rfl
  rw [put, hmessages]
  exact .update fs x.1 _

theorem mem_put {x : FilterRef × ReceivedMessage} :
    k ∈ ((fs.put x).heap r).messages ↔
      k ∈ (fs.heap r).messages ∨ x.1 = r ∧ x.2.envelopeHash = k := by
  by_cases hr : r = x.1
  · subst hr
    show k ∈ (Function.update fs.heap x.1 _ x.1).messages ↔ _
    rw [Function.update_self, Filter.mem_trigger]
    simp [eq_comm]
  · show k ∈ (Function.update fs.heap x.1 _ r).messages ↔ _
    rw [Function.update_of_ne hr]
    simp [Ne.symm hr]

theorem storesOnly_foldl_put (fs : Filters) (triggered : List (FilterRef × ReceivedMessage)) :
    fs.StoresOnly (triggered.foldl put fs) := by
  induction triggered generalizing fs with
  | nil => exact .refl fs
  | cons x rest ih => exact (storesOnly_put fs x).trans (ih (fs.put x))

theorem storesOnly_notifyWatchers (fs : Filters) (env : Envelope) (p2p : Bool)
    (order : List FilterRef) : fs.StoresOnly (fs.notifyWatchers C env p2p order) :=
  storesOnly_foldl_put fs _

theorem Keyed.foldl_put (hkeyed : fs.Keyed) (triggered : List (FilterRef × ReceivedMessage)) :
    (triggered.foldl put fs).Keyed := by
  induction triggered generalizing fs with
  | nil => exact hkeyed
  | cons x rest ih => exact ih (hkeyed.update ((hkeyed x.1).trigger x.2))

theorem mem_foldl_put (triggered : List (FilterRef × ReceivedMessage)) :
    k ∈ ((triggered.foldl put fs).heap r).messages ↔
      k ∈ (fs.heap r).messages ∨ ∃ x ∈ triggered, x.1 = r ∧ x.2.envelopeHash = k := by
  induction triggered generalizing fs with
  | nil => simp
  | cons x rest ih =>
    rw [List.foldl_cons, ih, mem_put, or_assoc]
    simp

/-- `NotifyWatchers` puts the message of the envelope into the stores of the triggered filters. -/
theorem mem_notifyWatchers (env : Envelope) (p2p : Bool) (order : List FilterRef) :
    k ∈ ((fs.notifyWatchers C env p2p order).heap r).messages ↔
      k ∈ (fs.heap r).messages ∨ k = env.hash C ∧ r ∈ fs.triggered C env p2p order := by
  have hfold : fs.notifyWatchers C env p2p order =
      (fs.notice C env p2p order).triggered.foldl put fs := rfl
  rw [hfold, mem_foldl_put]
  refine or_congr_right ?_
  have habout := (fs.notice_about (C := C) env p2p order).triggered
  rw [triggered, List.mem_map]
  constructor
  · rintro ⟨x, hx, hr, hk⟩
    exact ⟨hk.symm.trans (habout x hx), x, hx, hr⟩
  · rintro ⟨hk, x, hx, hr⟩
    exact ⟨x, hx, hr, (habout x hx).trans hk.symm⟩

/-- A filter that expects an envelope with its proof of work cached is triggered in every order. -/
theorem triggered_of_expects {env : Envelope} {p2p : Bool} {order : List FilterRef}
    (hindexed : fs.Indexed C) (hkeys : fs.KeysDistinct C env)
    (hpow : env.powCache = env.pow C) (ho : fs.WatcherOrder env.topic order)
    (h : fs.Expects C env p2p r) : r ∈ fs.triggered C env p2p order := by
  have hself : (fs.heap r).matchEnvelope env = true := (matchEnvelope_iff hpow).mpr h.2
  exact (mem_triggered_iff hindexed hkeys (fun g => within_of_matchEnvelope hpow) ho).mpr
    ⟨h.1, within_of_matchEnvelope hpow hself, .inl hself⟩

end Filters

/-! ### The system -/

/-- The envelope that `add` pools and queues, when it does. -/
def Whisper.admits (C : Crypto) (w : Whisper) (now : UInt32) (e : Envelope) : Option Envelope :=
  match w.settings.check C now e with
  | .ok (some e) => if e.hash C ∈ w.envelopes then none else some e
  | _ => none

/-- An envelope taken from the queue, with the filters at that moment and the order of the
candidates. -/
structure Dequeued where
  env : Envelope
  filters : Filters
  order : List FilterRef

/-- A node with its filters and the last clock reading.  `admitted`, `dequeued` and `returned`
record the envelopes that `add` queued, those that `processQueue` took, and the messages that
`Retrieve` returned, with the filter. -/
structure Mailbox where
  whisper : Whisper
  filters : Filters := {}
  clock : UInt32 := 0
  admitted : List Envelope := []
  dequeued : List Dequeued := []
  returned : List (FilterRef × ReceivedMessage) := []

inductive MailAction
  | add (now : UInt32) (e : Envelope)
  | processQueue (order : List FilterRef)
  | expire (now : UInt32) (seconds : List UInt32) (hashes : UInt32 → List Hash)
  | retrieve (r : FilterRef) (order : List Hash)
  | install (rnd : Entropy) (r : FilterRef) (watcher : Filter)
  | uninstall (id : String)
  | configure (settings : Settings)

/-- The envelope that an action gives to `add`. -/
def MailAction.added : MailAction → Option Envelope
  | .add _ e => some e
  | _ => none

namespace Mailbox

def add (C : Crypto) (s : Mailbox) (now : UInt32) (e : Envelope) : Mailbox :=
  { s with
    whisper := (s.whisper.add C now e false).1
    clock := now
    admitted := s.admitted ++ (s.whisper.admits C now e).toList }

/-- The filters are notified of the envelope at the head of the queue, which leaves the node as
`w`. -/
def notify (C : Crypto) (s : Mailbox) (w : Whisper) (e : Envelope) (order : List FilterRef) :
    Mailbox :=
  { s with
    whisper := w
    filters := s.filters.notifyWatchers C e false order
    dequeued := s.dequeued ++ [⟨e, s.filters, order⟩] }

def retrieve (s : Mailbox) (r : FilterRef) (order : List Hash) : Mailbox :=
  let (filters, all) := s.filters.retrieve r order
  { s with filters, returned := s.returned ++ all.map (r, ·) }

end Mailbox

/-- One operation, with a clock that does not go back.  The filter that `Install` takes is not
installed already, and has the store it had before. -/
def MailStep (C : Crypto) (s : Mailbox) : MailAction → Mailbox → Prop
  | .add now e, t => s.clock ≤ now ∧ t = s.add C now e
  | .processQueue order, t =>
    ∃ e rest w, s.whisper.messageQueue = e :: rest ∧ s.filters.WatcherOrder e.topic order ∧
      s.whisper.processQueue C = some w ∧ t = s.notify C w e order
  | .expire now seconds hashes, t =>
    s.clock ≤ now ∧ s.whisper.Orders seconds hashes ∧
      ∃ w, s.whisper.expire now seconds hashes = some w ∧ t = { s with whisper := w, clock := now }
  | .retrieve r order, t =>
    IsOrder (s.filters.heap r).messages.keys order ∧ t = s.retrieve r order
  | .install rnd r watcher, t =>
    ¬s.filters.Installed r ∧ watcher.messages = (s.filters.heap r).messages ∧
      t = { s with filters := (s.filters.install C rnd r watcher).1 }
  | .uninstall id, t => t = { s with filters := (s.filters.uninstall id).1 }
  | .configure settings, t => t = { s with whisper.settings := settings }

theorem Whisper.processQueue_messageQueue {C : Crypto} {w w' : Whisper} {e : Envelope}
    {rest : List Envelope} (h : w.processQueue C = some w') (hqueue : w.messageQueue = e :: rest) :
    w'.messageQueue = rest := by
  rw [processQueue, hqueue] at h
  cases h
  rfl

/-- `add` leaves the node as it is, or it pools and queues an envelope whose hash is not pooled. -/
theorem Whisper.add_admits (C : Crypto) (w : Whisper) (now : UInt32) (e : Envelope) :
    w.admits C now e = none ∧ (w.add C now e false).1 = w ∨
    ∃ e', w.admits C now e = some e' ∧ e'.hash C = e.hash C ∧ e'.expiry = e.expiry ∧
      now ≤ e.expiry ∧ e'.powCache = e'.pow C ∧ e.hash C ∉ w.envelopes ∧
      (w.add C now e false).1.envelopes = w.envelopes.insert (e.hash C) e' ∧
      (w.add C now e false).1.messageQueue = w.messageQueue ++ [e'] := by
  unfold admits add
  split
  · rename_i e' hcheck
    obtain ⟨-, -, hnow, -⟩ := Settings.check_some_iff.mp hcheck
    obtain ⟨hhash, hexp, hpow⟩ := Settings.same_of_check hcheck
    rw [hcheck]
    dsimp only
    split
    · exact .inl ⟨rfl, rfl⟩
    · rename_i hnew
      refine .inr ⟨e', rfl, hhash, hexp, hnow, hpow, hhash ▸ hnew, ?_, ?_⟩
      · rw [announce_envelopes, ← hhash]
        rfl
      · exact announce_messageQueue C _ e' false
  · rename_i hcheck
    refine .inl ⟨rfl, ?_⟩
    split
    · rfl
    · rfl
    · rename_i e' hsome
      exact absurd hsome (hcheck e')

theorem Filters.messages_install (C : Crypto) (fs : Filters) (rnd : Entropy) {r : FilterRef}
    {watcher : Filter} (h : watcher.messages = (fs.heap r).messages) (r' : FilterRef) :
    ((fs.install C rnd r watcher).1.heap r').messages = (fs.heap r').messages := by
  rcases install_cases C fs rnd r watcher with ⟨err, heq⟩ | ⟨id, -, -, heq⟩
  · rw [heq]
  · rw [heq, enlist_heap]
    by_cases hr : r' = r
    · subst hr
      rw [Function.update_self]
      exact h
    · rw [Function.update_of_ne hr]

theorem Filters.heap_uninstall (fs : Filters) (id : String) :
    (fs.uninstall id).1.heap = fs.heap := by
  unfold uninstall
  split <;> rfl

namespace Mailbox

/-- A node without filters. -/
def start (w : Whisper) : Mailbox := { whisper := w }

/-- The hashes of the messages that `Retrieve` returned on a filter. -/
def returnedTo (s : Mailbox) (r : FilterRef) : List Hash :=
  (s.returned.filter fun x => x.1 = r).map fun x => x.2.envelopeHash

/-- The way to the filter at `r`, where a hash is retired when its last second is over. -/
def inbox (C : Crypto) (f : Hash → UInt32) (s : Mailbox) (r : FilterRef) : Inbox Hash where
  pool := { k | k ∈ s.whisper.envelopes }
  retired := { k | f k < s.clock }
  queue := s.whisper.messageQueue.map (Envelope.hash C)
  taken := s.dequeued.map fun d => d.env.hash C
  accepted := { k | ∃ d ∈ s.dequeued, d.env.hash C = k ∧
    r ∈ d.filters.triggered C d.env false d.order }
  stored := { k | k ∈ (s.filters.heap r).messages }
  returned := s.returnedTo r

/-- The pools agree, every envelope expires with its hash, the filters are indexed, and their stores
keyed by hash; what was admitted was dequeued or waits in the queue, with its proof of work
cached. -/
structure Filed (C : Crypto) (f : Hash → UInt32) (s : Mailbox) : Prop where
  consistent : s.whisper.Consistent C
  expiry : ∀ k e, s.whisper.envelopes.lookup k = some e → f k = e.expiry
  indexed : s.filters.Indexed C
  keyed : s.filters.Keyed
  admitted : s.admitted = s.dequeued.map Dequeued.env ++ s.whisper.messageQueue
  cached : ∀ e ∈ s.admitted, e.powCache = e.pow C
  dequeued : ∀ d ∈ s.dequeued, d.filters.Indexed C ∧ d.filters.WatcherOrder d.env.topic d.order

variable {C : Crypto} {f : Hash → UInt32} {s t : Mailbox} {a : MailAction} {r : FilterRef}

theorem start_filed (C : Crypto) (f : Hash → UInt32) (cfg : Config) :
    (start (new cfg)).Filed C f where
  consistent := Whisper.new_consistent C cfg
  expiry k e he := by simp [start, new] at he
  indexed := Filters.empty_indexed C
  keyed r k msg hmsg := by simp [start] at hmsg
  admitted := rfl
  cached := nofun
  dequeued := nofun

theorem filed_add (hs : s.Filed C f) (now : UInt32) {e : Envelope}
    (hexpiry : f (e.hash C) = e.expiry) : (s.add C now e).Filed C f := by
  have hcons := Whisper.add_consistent hs.consistent now e false
  rcases s.whisper.add_admits C now e with ⟨hnone, hsame⟩ |
    ⟨e', hsome, hhash, hexp, hnow, hpow, hnew, henv, hqueue⟩
  · rw [add, hnone, hsame]
    refine ⟨hs.consistent, hs.expiry, hs.indexed, hs.keyed, ?_, ?_, hs.dequeued⟩
    · exact (List.append_nil _).trans hs.admitted
    · intro x hx
      exact hs.cached x (by simpa using hx)
  · rw [add, hsome]
    refine ⟨hcons, fun k x hx => ?_, hs.indexed, hs.keyed, ?_, fun x hx => ?_, hs.dequeued⟩
    · show f k = x.expiry
      rw [henv] at hx
      rcases lookup_insert_iff.mp hx with ⟨rfl, rfl⟩ | ⟨-, hold⟩
      · rw [hexp]
        exact hexpiry
      · exact hs.expiry k x hold
    · show s.admitted ++ [e'] = _
      rw [hqueue, hs.admitted, List.append_assoc]
    · rcases List.mem_append.mp hx with hx | hx
      · exact hs.cached x hx
      · rw [List.mem_singleton.mp hx]
        exact hpow

theorem filed_notify (hs : s.Filed C f) {e : Envelope} {rest : List Envelope} {w : Whisper}
    {order : List FilterRef} (hqueue : s.whisper.messageQueue = e :: rest)
    (ho : s.filters.WatcherOrder e.topic order) (hw : s.whisper.processQueue C = some w) :
    (s.notify C w e order).Filed C f := by
  obtain ⟨henv, hexp⟩ := Whisper.processQueue_pools hw
  have hstores := s.filters.storesOnly_notifyWatchers (C := C) e false order
  have hkeyed := hs.keyed.foldl_put (s.filters.notice C e false order).triggered
  have hrest := Whisper.processQueue_messageQueue hw hqueue
  refine ⟨hs.consistent.congr henv hexp, ?_, hstores.indexed hs.indexed, hkeyed, ?_, hs.cached,
    fun d hd => ?_⟩
  · show ∀ k x, w.envelopes.lookup k = some x → f k = x.expiry
    rw [henv]
    exact hs.expiry
  · show s.admitted =
      (s.dequeued ++ [(⟨e, s.filters, order⟩ : Dequeued)]).map Dequeued.env ++ w.messageQueue
    rw [hs.admitted, hqueue, hrest, List.map_append, List.append_assoc]
    rfl
  · rcases List.mem_append.mp hd with hd | hd
    · exact hs.dequeued d hd
    · rw [List.mem_singleton.mp hd]
      exact ⟨hs.indexed, ho⟩

theorem filed_retrieve (hs : s.Filed C f) {order : List Hash}
    (ho : IsOrder (s.filters.heap r).messages.keys order) : (s.retrieve r order).Filed C f := by
  obtain ⟨heq, -⟩ := Filters.retrieve_eq hs.keyed ho
  refine ⟨hs.consistent, hs.expiry, ?_, ?_, hs.admitted, hs.cached, hs.dequeued⟩
  · show Filters.Indexed C (s.filters.retrieve r order).1
    rw [heq]
    exact (Filters.StoresOnly.update s.filters r _).indexed hs.indexed
  · show Filters.Keyed (s.filters.retrieve r order).1
    rw [heq]
    refine hs.keyed.update fun k msg hmsg => ?_
    rw [lookup_eraseAll] at hmsg
    split at hmsg
    · cases hmsg
    · exact hs.keyed r k msg hmsg

theorem step_filed (h : MailStep C s a t) (hs : s.Filed C f)
    (hexpiry : ∀ e, a.added = some e → f (e.hash C) = e.expiry) : t.Filed C f := by
  cases a with
  | add now e =>
    obtain ⟨-, rfl⟩ := h
    exact filed_add hs now (hexpiry e rfl)
  | processQueue order =>
    obtain ⟨e, rest, w, hqueue, ho, hw, rfl⟩ := h
    exact filed_notify hs hqueue ho hw
  | expire now seconds hashes =>
    obtain ⟨-, ho, w, hw, rfl⟩ := h
    obtain ⟨heq, hcons⟩ := Whisper.expire_eq hs.consistent ho now
    rw [heq] at hw
    cases hw
    refine ⟨hcons, fun k e he => ?_, hs.indexed, hs.keyed, hs.admitted, hs.cached, hs.dequeued⟩
    rw [Whisper.lookup_afterExpire hs.consistent ho] at he
    exact hs.expiry k e (Option.filter_eq_some_iff.mp he).1
  | retrieve r order =>
    obtain ⟨ho, rfl⟩ := h
    exact filed_retrieve hs ho
  | install rnd r watcher =>
    obtain ⟨hnew, hmessages, rfl⟩ := h
    refine ⟨hs.consistent, hs.expiry, Filters.install_indexed hs.indexed hnew, fun r' => ?_,
      hs.admitted, hs.cached, hs.dequeued⟩
    show Filter.Keyed _
    unfold Filter.Keyed
    rw [Filters.messages_install C s.filters rnd hmessages]
    exact hs.keyed r'
  | uninstall id =>
    cases h
    refine ⟨hs.consistent, hs.expiry, Filters.uninstall_indexed hs.indexed, fun r => ?_,
      hs.admitted, hs.cached, hs.dequeued⟩
    rw [Filters.heap_uninstall]
    exact hs.keyed r
  | configure settings =>
    cases h
    exact ⟨hs.consistent.congr rfl rfl, hs.expiry, hs.indexed, hs.keyed, hs.admitted, hs.cached,
      hs.dequeued⟩

/-- A clock reading retires the hashes whose last second is over. -/
theorem retired_subset {now : UInt32} (h : s.clock ≤ now) (r : FilterRef) :
    (s.inbox C f r).retired ⊆ { k | f k < now } :=
  fun _ hk => UInt32.lt_of_lt_of_le hk h

theorem inbox_add {now : UInt32} {e : Envelope} (hclock : s.clock ≤ now)
    (hexpiry : f (e.hash C) = e.expiry) (r : FilterRef) :
    Inbox.Step (s.inbox C f r) ((s.add C now e).inbox C f r) := by
  have hretired := retired_subset (C := C) (f := f) hclock r
  rcases s.whisper.add_admits C now e with ⟨-, hsame⟩ |
    ⟨e', -, hhash, -, hnow, -, hnew, henv, hqueue⟩
  · rw [add, hsame]
    exact .refresh hretired subset_rfl fun k hk hnot => absurd hk hnot
  · have hlive : e.hash C ∉ { k | f k < now } := by
      show ¬ f (e.hash C) < now
      rw [hexpiry]
      exact UInt32.not_lt.mpr hnow
    have hpool : { k | k ∈ (s.whisper.add C now e false).1.envelopes } =
        insert (e.hash C) { k | k ∈ s.whisper.envelopes } := by
      ext k
      rw [henv]
      exact Finmap.mem_insert
    have hmap : (s.whisper.add C now e false).1.messageQueue.map (Envelope.hash C) =
        s.whisper.messageQueue.map (Envelope.hash C) ++ [e.hash C] := by
      rw [hqueue, List.map_append, List.map_singleton, hhash]
    have heq : (s.add C now e).inbox C f r =
        { s.inbox C f r with
          pool := insert (e.hash C) (s.inbox C f r).pool
          retired := { k | f k < now }
          queue := (s.inbox C f r).queue ++ [e.hash C] } :=
      Inbox.ext hpool rfl hmap rfl rfl rfl rfl
    rw [heq]
    exact .enqueue hretired hnew hlive

theorem accepted_notify (s : Mailbox) (w : Whisper) (e : Envelope) (order : List FilterRef)
    (r : FilterRef) (k : Hash) :
    k ∈ ((s.notify C w e order).inbox C f r).accepted ↔ k ∈ (s.inbox C f r).accepted ∨
      k = e.hash C ∧ r ∈ s.filters.triggered C e false order := by
  show (∃ d ∈ s.dequeued ++ [⟨e, s.filters, order⟩], _) ↔ (∃ d ∈ s.dequeued, _) ∨ _
  constructor
  · rintro ⟨d, hd, hhash, htriggered⟩
    rcases List.mem_append.mp hd with hd | hd
    · exact .inl ⟨d, hd, hhash, htriggered⟩
    · obtain rfl := List.mem_singleton.mp hd
      exact .inr ⟨hhash.symm, htriggered⟩
  · rintro (⟨d, hd, hhash, htriggered⟩ | ⟨hk, htriggered⟩)
    · exact ⟨d, List.mem_append_left _ hd, hhash, htriggered⟩
    · exact ⟨_, List.mem_append_right _ List.mem_cons_self, hk.symm, htriggered⟩

theorem inbox_notify {e : Envelope} {rest : List Envelope} {w : Whisper}
    {order : List FilterRef} (hqueue : s.whisper.messageQueue = e :: rest)
    (hw : s.whisper.processQueue C = some w) (r : FilterRef) :
    Inbox.Step (s.inbox C f r) ((s.notify C w e order).inbox C f r) := by
  have hpool : { k | k ∈ w.envelopes } = { k | k ∈ s.whisper.envelopes } := by
    rw [(Whisper.processQueue_pools hw).1]
  have hrest := Whisper.processQueue_messageQueue hw hqueue
  have hhead : (s.inbox C f r).queue = e.hash C :: rest.map (Envelope.hash C) := by
    show s.whisper.messageQueue.map (Envelope.hash C) = _
    rw [hqueue, List.map_cons]
  have hqueue' : w.messageQueue.map (Envelope.hash C) = rest.map (Envelope.hash C) := by rw [hrest]
  have htaken : ((s.notify C w e order).dequeued.map fun d => d.env.hash C) =
      (s.dequeued.map fun d => d.env.hash C) ++ [e.hash C] := List.map_append
  have haccepted := accepted_notify (C := C) (f := f) s w e order r
  by_cases htriggered : r ∈ s.filters.triggered C e false order
  · have heq : (s.notify C w e order).inbox C f r =
        { s.inbox C f r with
          queue := rest.map (Envelope.hash C)
          taken := (s.inbox C f r).taken ++ [e.hash C]
          accepted := insert (e.hash C) (s.inbox C f r).accepted
          stored := insert (e.hash C) (s.inbox C f r).stored } := by
      refine Inbox.ext hpool rfl hqueue' htaken ?_ ?_ rfl
      · ext k
        rw [haccepted, and_iff_left htriggered, or_comm]
        rfl
      · ext k
        rw [Set.mem_insert_iff, or_comm, ← and_iff_left (a := k = e.hash C) htriggered]
        exact Filters.mem_notifyWatchers e false order
    rw [heq]
    exact .store hhead
  · have heq : (s.notify C w e order).inbox C f r =
        { s.inbox C f r with
          queue := rest.map (Envelope.hash C)
          taken := (s.inbox C f r).taken ++ [e.hash C] } := by
      refine Inbox.ext hpool rfl hqueue' htaken ?_ ?_ rfl
      · ext k
        rw [haccepted]
        exact or_iff_left fun hk => htriggered hk.2
      · ext k
        refine (Filters.mem_notifyWatchers e false order).trans ?_
        exact or_iff_left fun hk => htriggered hk.2
    rw [heq]
    exact .skip hhead

theorem returnedTo_retrieve (s : Mailbox) (r' : FilterRef) (order : List Hash) (r : FilterRef) :
    (s.retrieve r' order).returnedTo r = if r' = r then
      s.returnedTo r ++ (s.filters.retrieve r' order).2.map ReceivedMessage.envelopeHash
      else s.returnedTo r := by
  show (((s.returned ++ (s.filters.retrieve r' order).2.map (r', ·)).filter fun x => x.1 = r).map
    fun x => x.2.envelopeHash) = _
  rw [List.filter_append, List.map_append]
  by_cases hr : r' = r
  · subst hr
    simp [returnedTo, List.filter_map, Function.comp_def]
  · simp [returnedTo, List.filter_map, Function.comp_def, hr]

theorem inbox_retrieve (hs : s.Filed C f) {r' : FilterRef} {order : List Hash}
    (ho : IsOrder (s.filters.heap r').messages.keys order) (r : FilterRef) :
    Inbox.Step (s.inbox C f r) ((s.retrieve r' order).inbox C f r) := by
  obtain ⟨heq, hhashes⟩ := Filters.retrieve_eq hs.keyed ho
  have hreturned := s.returnedTo_retrieve r' order r
  have hheap : (s.retrieve r' order).filters.heap r =
      Function.update s.filters.heap r'
        { s.filters.heap r' with messages := eraseAll (s.filters.heap r').messages order } r :=
    congrArg (fun fs : Filters => fs.heap r) heq
  by_cases hr : r' = r
  · subst hr
    rw [if_pos rfl, hhashes] at hreturned
    have hempty : { k | k ∈ ((s.retrieve r' order).filters.heap r').messages } = ∅ := by
      rw [hheap, Function.update_self]
      exact Set.eq_empty_of_forall_notMem fun k => Filters.notMem_eraseAll ho k
    have hinbox : (s.retrieve r' order).inbox C f r' =
        { s.inbox C f r' with stored := ∅, returned := (s.inbox C f r').returned ++ order } :=
      Inbox.ext rfl rfl rfl rfl rfl hempty hreturned
    rw [hinbox]
    exact .hand ho.1 fun k => ho.mem.trans Finmap.mem_keys
  · rw [if_neg hr] at hreturned
    have hstored : { k | k ∈ ((s.retrieve r' order).filters.heap r).messages } =
        { k | k ∈ (s.filters.heap r).messages } := by
      rw [hheap, Function.update_of_ne (Ne.symm hr)]
    have hinbox : (s.retrieve r' order).inbox C f r = s.inbox C f r :=
      Inbox.ext rfl rfl rfl rfl rfl hstored hreturned
    rw [hinbox]
    exact .refl _

/-- Every operation is a step on the way to each filter. -/
theorem step_inbox (h : MailStep C s a t) (hs : s.Filed C f)
    (hexpiry : ∀ e, a.added = some e → f (e.hash C) = e.expiry) (r : FilterRef) :
    Inbox.Step (s.inbox C f r) (t.inbox C f r) := by
  cases a with
  | add now e =>
    obtain ⟨hclock, rfl⟩ := h
    exact inbox_add hclock (hexpiry e rfl) r
  | processQueue order =>
    obtain ⟨e, rest, w, hqueue, -, hw, rfl⟩ := h
    exact inbox_notify hqueue hw r
  | expire now seconds hashes =>
    obtain ⟨hclock, ho, w, hw, rfl⟩ := h
    rw [(Whisper.expire_eq hs.consistent ho now).1] at hw
    cases hw
    have hlookup := Whisper.lookup_afterExpire hs.consistent ho now
    refine .refresh (retired_subset hclock r) (fun k hk => ?_) fun k hk hgone => ?_
    · obtain ⟨e, he⟩ := Finmap.mem_iff.mp hk
      rw [hlookup] at he
      exact Finmap.mem_of_lookup_eq_some (Option.filter_eq_some_iff.mp he).1
    · obtain ⟨e, he⟩ := Finmap.mem_iff.mp hk
      have hnone := Finmap.lookup_eq_none.mpr hgone
      rw [hlookup, he, Option.filter_some] at hnone
      show f k < now
      rw [hs.expiry k e he]
      by_contra hlt
      rw [if_pos (by simpa using hlt)] at hnone
      cases hnone
  | retrieve r' order =>
    obtain ⟨ho, rfl⟩ := h
    exact inbox_retrieve hs ho r
  | install rnd r' watcher =>
    obtain ⟨-, hmessages, rfl⟩ := h
    have hstored : { k | k ∈ ((s.filters.install C rnd r' watcher).1.heap r).messages } =
        { k | k ∈ (s.filters.heap r).messages } := by
      rw [Filters.messages_install C s.filters rnd hmessages]
    have hinbox : ({ s with filters := (s.filters.install C rnd r' watcher).1 } : Mailbox).inbox
        C f r = s.inbox C f r := Inbox.ext rfl rfl rfl rfl rfl hstored rfl
    rw [hinbox]
    exact .refl _
  | uninstall id =>
    cases h
    have hstored : { k | k ∈ ((s.filters.uninstall id).1.heap r).messages } =
        { k | k ∈ (s.filters.heap r).messages } := by
      rw [Filters.heap_uninstall]
    have hinbox : ({ s with filters := (s.filters.uninstall id).1 } : Mailbox).inbox C f r =
        s.inbox C f r := Inbox.ext rfl rfl rfl rfl rfl hstored rfl
    rw [hinbox]
    exact .refl _
  | configure settings =>
    cases h
    exact .refl _

theorem start_once (C : Crypto) (f : Hash → UInt32) (cfg : Config) (r : FilterRef) :
    ((start (new cfg)).inbox C f r).Once := by
  constructor <;> simp [inbox, start, new, returnedTo, Finmap.notMem_empty]

theorem run_once {cfg : Config} {acts : List MailAction}
    (run : Run (MailStep C) (start (new cfg)) acts s)
    (hexpiry : ∀ a ∈ acts, ∀ e, a.added = some e → f (e.hash C) = e.expiry) :
    s.Filed C f ∧ ∀ r, (s.inbox C f r).Once := by
  refine run.invariant (P := fun s => s.Filed C f ∧ ∀ r, (s.inbox C f r).Once)
    ⟨start_filed C f cfg, start_once C f cfg⟩ ?_
  rintro s a t ha ⟨hfiled, honce⟩ hstep
  exact ⟨step_filed hstep hfiled (hexpiry a ha),
    fun r => (honce r).step (step_inbox hstep hfiled (hexpiry a ha) r)⟩

/-- In every run in which the clock does not go back and the hashes do not collide, an envelope that
`add` has admitted is admitted once, and for a filter that matches it when it is taken from the
queue, `Retrieve` returns its message at most once; once the queue is empty, the message is either
in the store of the filter or was returned exactly once. -/
theorem exactly_once (C : Crypto) (cfg : Config) {acts : List MailAction} {s : Mailbox}
    (run : Run (MailStep C) (start (new cfg)) acts s)
    (hcollision : NoCollision C (acts.filterMap MailAction.added)) {e : Envelope}
    (he : e ∈ s.admitted) (r : FilterRef) (hmatch : ∀ d ∈ s.dequeued, d.env = e →
      d.filters.Expects C e false r ∧ d.filters.KeysDistinct C e) :
    (s.admitted.map (Envelope.hash C)).count (e.hash C) = 1 ∧
      (s.returnedTo r).count (e.hash C) ≤ 1 ∧
      (s.whisper.messageQueue = [] →
        e.hash C ∈ (s.filters.heap r).messages ∧ (s.returnedTo r).count (e.hash C) = 0 ∨
        e.hash C ∉ (s.filters.heap r).messages ∧ (s.returnedTo r).count (e.hash C) = 1) := by
  obtain ⟨hfiled, honce⟩ := run_once run fun a ha x hx =>
    hcollision.expiryOf (List.mem_filterMap.mpr ⟨a, ha, hx⟩)
  have hseen : s.admitted.map (Envelope.hash C) =
      (s.dequeued.map fun d => d.env.hash C) ++ s.whisper.messageQueue.map (Envelope.hash C) := by
    rw [hfiled.admitted, List.map_append, List.map_map]
    rfl
  obtain ⟨hreturned, haccepted⟩ := (honce r).count_returned (e.hash C)
  refine ⟨?_, hreturned, fun hqueue => haccepted ?_⟩
  · refine List.count_eq_one_of_mem ?_ (List.mem_map_of_mem he)
    rw [hseen]
    exact (honce r).nodup
  · -- the queue is empty, so the envelope was dequeued, and then the filter was triggered
    have hadmitted := hfiled.admitted
    rw [hqueue, List.append_nil] at hadmitted
    rw [hadmitted] at he
    obtain ⟨d, hd, rfl⟩ := List.mem_map.mp he
    obtain ⟨hexpects, hkeys⟩ := hmatch d hd rfl
    obtain ⟨hindexed, ho⟩ := hfiled.dequeued d hd
    have hpow : d.env.powCache = d.env.pow C := by
      refine hfiled.cached d.env ?_
      rw [hadmitted]
      exact he
    exact ⟨d, hd, rfl, Filters.triggered_of_expects hindexed hkeys hpow ho hexpects⟩

/-- The sample message as `add` queues it. -/
def admittedEnvelope : Envelope := (shortEnvelope.adjust tagCrypto 1600000000).fill tagCrypto

/-- The sample message is received, delivered to two filters, retrieved from one of them, and
received again. -/
def repeatActions : List MailAction :=
  [.install (idEntropy 1) 0 (boundFilter 0), .install (idEntropy 4) 1 (boundFilter 0),
    .add 1600000000 shortEnvelope, .processQueue [1, 0],
    .retrieve 1 [admittedEnvelope.hash tagCrypto], .add 1600000001 shortEnvelope]

/-- The states of this run after the first `add`, and after the notification. -/
def receivedMailbox : Mailbox :=
  ({ start (new {}) with filters := pairFilters 0 } : Mailbox).add tagCrypto 1600000000
    shortEnvelope

def notifiedMailbox : Mailbox :=
  let w := receivedMailbox.whisper
  receivedMailbox.notify tagCrypto ((w.processQueue tagCrypto).getD w) admittedEnvelope [1, 0]

def repeatMailbox : Mailbox :=
  (notifiedMailbox.retrieve 1 [admittedEnvelope.hash tagCrypto]).add tagCrypto 1600000001
    shortEnvelope

theorem receivedMailbox_queue : receivedMailbox.whisper.messageQueue = [admittedEnvelope] := by
  decide +kernel

theorem repeatMailbox_run :
    Run (MailStep tagCrypto) (start (new {})) repeatActions repeatMailbox := by
  have hnotify : MailStep tagCrypto receivedMailbox (.processQueue [1, 0]) notifiedMailbox := by
    refine ⟨admittedEnvelope, [], _, receivedMailbox_queue, ?_, ?_, rfl⟩
    · exact pairFilters_order 0 [1, 0] (by decide)
    · rw [Whisper.processQueue, receivedMailbox_queue]
      rfl
  have hretrieve : MailStep tagCrypto notifiedMailbox
      (.retrieve 1 [admittedEnvelope.hash tagCrypto])
      (notifiedMailbox.retrieve 1 [admittedEnvelope.hash tagCrypto]) := ⟨by decide +kernel, rfl⟩
  have hagain : MailStep tagCrypto
      (notifiedMailbox.retrieve 1 [admittedEnvelope.hash tagCrypto])
      (.add 1600000001 shortEnvelope) repeatMailbox := ⟨by decide +kernel, rfl⟩
  refine .cons ⟨by decide +kernel, rfl, rfl⟩ ?_
  refine .cons ⟨by decide +kernel, by decide +kernel, rfl⟩ ?_
  exact .cons ⟨by decide, rfl⟩ (.cons hnotify (.cons hretrieve (.cons hagain (.nil _))))

theorem pairFilters_expects :
    (pairFilters 0).Expects tagCrypto admittedEnvelope false 1 := by
  have hopen : (admittedEnvelope.openEnvelope tagCrypto
      ((pairFilters 0).heap 1)).isSome = true := by decide +kernel
  obtain ⟨m, hm⟩ := Option.isSome_iff_exists.mp hopen
  have hinstalled : (pairFilters 0).Installed 1 := by decide +kernel
  have htopic : [1, 2, 3, 4] ∈ ((pairFilters 0).heap 1).topics := by decide +kernel
  have hsrc : ((pairFilters 0).heap 1).src = none := by decide +kernel
  have hpow : ((pairFilters 0).heap 1).pow.value.le .zero = true := by decide +kernel
  exact ⟨⟨⟨hinstalled, .inr ⟨_, htopic, by decide +kernel⟩⟩, .inr rfl, m, hm, .inl hsrc⟩, .inl hpow⟩

theorem exactly_once_repeat :
    repeatActions.filterMap MailAction.added = [shortEnvelope, shortEnvelope] ∧
    admittedEnvelope ∈ repeatMailbox.admitted ∧
    (repeatMailbox.returnedTo 1).count (admittedEnvelope.hash tagCrypto) = 1 := by
  have hadded : repeatActions.filterMap MailAction.added = [shortEnvelope, shortEnvelope] := rfl
  have hcollision : NoCollision tagCrypto (repeatActions.filterMap MailAction.added) := by
    intro e he e' he' _
    rw [hadded] at he he'
    have hsame : ∀ x ∈ [shortEnvelope, shortEnvelope], x = shortEnvelope := by simp
    rw [hsame e he, hsame e' he']
  have hone : repeatMailbox.dequeued = [⟨admittedEnvelope, pairFilters 0, [1, 0]⟩] := rfl
  have hadmitted : admittedEnvelope ∈ repeatMailbox.admitted := by
    obtain ⟨hfiled, -⟩ := run_once repeatMailbox_run fun a ha x hx =>
      hcollision.expiryOf (List.mem_filterMap.mpr ⟨a, ha, hx⟩)
    rw [hfiled.admitted, hone]
    exact List.mem_append_left _ (List.mem_singleton_self admittedEnvelope)
  have hmatch : ∀ d ∈ repeatMailbox.dequeued, d.env = admittedEnvelope →
      d.filters.Expects tagCrypto admittedEnvelope false 1 ∧
        d.filters.KeysDistinct tagCrypto admittedEnvelope := by
    intro d hd _
    rw [hone, List.mem_singleton] at hd
    rw [hd]
    exact ⟨pairFilters_expects, pairFilters_keysDistinct 0 _⟩
  obtain ⟨-, -, hdrained⟩ :=
    exactly_once tagCrypto {} repeatMailbox_run hcollision hadmitted 1 hmatch
  have hqueue : repeatMailbox.whisper.messageQueue = [] := by decide +kernel
  have hempty : admittedEnvelope.hash tagCrypto ∉ (repeatMailbox.filters.heap 1).messages := by
    decide +kernel
  exact ⟨hadded, hadmitted, ((hdrained hqueue).resolve_left fun h => hempty h.1).2⟩

end Mailbox

end Whisperv6
