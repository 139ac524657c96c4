import Whisperv6.Net

/-! The statistics of a node against its pool.  `add` inserts an envelope under the pool lock and
counts it later under another lock, so `expire` may remove an envelope that is not counted yet; the
books balance with what is inserted and not yet counted. -/

namespace Whisperv6

open ProofKit

namespace Whisper

/-- The sum of the sizes of the pooled envelopes. -/
def pooledSize (w : Whisper) : Nat := ∑ h ∈ w.envelopes.keys, w.sizeAt h

/-- The part of `announce` under the lock of the statistics. -/
def account (w : Whisper) (e : Envelope) : Whisper :=
  { w with stats.memoryUsed := w.stats.memoryUsed + e.size }

/-- The rest of `announce`: the queue for the local filters, and the mail server. -/
def notify (C : Crypto) (w : Whisper) (e : Envelope) (isP2P : Bool) : Whisper :=
  let w := w.postEvent e isP2P
  if w.mailServer then
    { w with
      archived := w.archived ++ [e]
      envelopeFeed := w.envelopeFeed ++
        [{ event := .mailServerEnvelopeArchived, topic := e.topic, hash := e.hash C }] }
  else w

theorem announce_eq (C : Crypto) (w : Whisper) (e : Envelope) (isP2P : Bool) :
    w.announce C e isP2P = (w.account e).notify C e isP2P := rfl

/-- The pools and the statistics are the same. -/
structure SameBooks (w w' : Whisper) : Prop where
  envelopes : w'.envelopes = w.envelopes
  expirations : w'.expirations = w.expirations
  stats : w'.stats = w.stats

theorem notify_books (C : Crypto) (w : Whisper) (e : Envelope) (isP2P : Bool) :
    w.SameBooks (w.notify C e isP2P) := by
  unfold notify postEvent checkOverflow
  dsimp only
  repeat' split
  all_goals exact ⟨rfl, rfl, rfl⟩

theorem processQueue_books {C : Crypto} {w w' : Whisper} (h : w.processQueue C = some w') :
    w.SameBooks w' := by
  unfold processQueue at h
  split at h <;> cases h
  exact ⟨rfl, rfl, rfl⟩

theorem processP2P_books {C : Crypto} {w w' : Whisper} (h : w.processP2P C = some w') :
    w.SameBooks w' := by
  unfold processP2P at h
  split at h <;> cases h
  · exact ⟨rfl, rfl, rfl⟩
  · exact ⟨rfl, rfl, rfl⟩

theorem SameBooks.pooledSize {w w' : Whisper} (h : w.SameBooks w') :
    w'.pooledSize = w.pooledSize := by
  unfold Whisper.pooledSize sizeAt
  rw [h.envelopes]

/-! ### The pool after an insertion and after `expire` -/

theorem keys_insert (C : Crypto) (w : Whisper) (e : Envelope) :
    (w.insert C e).envelopes.keys = Insert.insert (e.hash C) w.envelopes.keys := by
  ext k
  simp only [insert, Finmap.mem_keys, Finmap.mem_insert, Finset.mem_insert]

theorem sizeAt_insert_self (C : Crypto) (w : Whisper) (e : Envelope) :
    (w.insert C e).sizeAt (e.hash C) = e.size := by
  simp [sizeAt, insert]

theorem sizeAt_insert_of_ne {C : Crypto} {w : Whisper} {e : Envelope} {h : Hash}
    (hne : h ≠ e.hash C) : (w.insert C e).sizeAt h = w.sizeAt h := by
  simp [sizeAt, insert, Finmap.lookup_insert_of_ne _ hne]

theorem pooledSize_insert {C : Crypto} {w : Whisper} {e : Envelope}
    (hnew : e.hash C ∉ w.envelopes) :
    (w.insert C e).pooledSize = w.pooledSize + e.size := by
  have hkey : e.hash C ∉ w.envelopes.keys := fun h => hnew (Finmap.mem_keys.mp h)
  have hothers : ∑ h ∈ w.envelopes.keys, (w.insert C e).sizeAt h = w.pooledSize := by
    refine Finset.sum_congr rfl fun h hh => sizeAt_insert_of_ne ?_
    rintro rfl
    exact hkey hh
  rw [pooledSize, keys_insert, Finset.sum_insert hkey, hothers, sizeAt_insert_self, Nat.add_comm]

theorem card_insert {C : Crypto} {w : Whisper} {e : Envelope} (hnew : e.hash C ∉ w.envelopes) :
    (w.insert C e).envelopes.keys.card = w.envelopes.keys.card + 1 := by
  rw [keys_insert, Finset.card_insert_of_notMem fun h => hnew (Finmap.mem_keys.mp h)]

section Remove

variable {w : Whisper} {doomed : List Hash} (hnodup : doomed.Nodup)
  (hmem : ∀ h ∈ doomed, h ∈ w.envelopes)

theorem keys_remove (w : Whisper) (doomed : List Hash) :
    (w.remove doomed).envelopes.keys = w.envelopes.keys \ doomed.toFinset := by
  ext k
  simp only [Finmap.mem_keys, Finset.mem_sdiff, List.mem_toFinset, Finmap.mem_iff, lookup_remove]
  by_cases hk : k ∈ doomed <;> simp [hk]

include hnodup hmem in
theorem pooledSize_remove :
    (w.remove doomed).pooledSize + (doomed.map w.sizeAt).sum = w.pooledSize := by
  have hsub : doomed.toFinset ⊆ w.envelopes.keys := fun h hh =>
    Finmap.mem_keys.mpr (hmem h (List.mem_toFinset.mp hh))
  have hkept : ∑ h ∈ w.envelopes.keys \ doomed.toFinset, (w.remove doomed).sizeAt h =
      ∑ h ∈ w.envelopes.keys \ doomed.toFinset, w.sizeAt h := by
    refine Finset.sum_congr rfl fun h hh => sizeAt_remove fun hdoomed => ?_
    exact (Finset.mem_sdiff.mp hh).2 (List.mem_toFinset.mpr hdoomed)
  rw [pooledSize, keys_remove, hkept, ← List.sum_toFinset _ hnodup, Finset.sum_sdiff hsub]
  rfl

include hnodup hmem in
theorem card_remove :
    (w.remove doomed).envelopes.keys.card + doomed.length = w.envelopes.keys.card := by
  have hsub : doomed.toFinset ⊆ w.envelopes.keys := fun h hh =>
    Finmap.mem_keys.mpr (hmem h (List.mem_toFinset.mp hh))
  rw [keys_remove, ← List.toFinset_card_of_nodup hnodup, Finset.card_sdiff_add_card_eq_card hsub]

end Remove

/-- What `expire` does to the pool and to the statistics. -/
theorem afterExpire_books {C : Crypto} {w : Whisper} {seconds : List UInt32}
    {hashes : UInt32 → List Hash} (hw : w.Consistent C) (ho : w.Orders seconds hashes)
    (now : UInt32) :
    let w' := w.afterExpire now seconds hashes
    w'.stats.memoryUsed + w.pooledSize = w.stats.memoryUsed + w'.pooledSize ∧
    w'.stats.messagesCleared + w'.envelopes.keys.card = w.envelopes.keys.card ∧
    w'.stats.totalMessagesCleared = w.stats.totalMessagesCleared + w.stats.messagesCleared ∧
    w'.stats.cycles = w.stats.cycles + 1 := by
  have hnodup := doomed_nodup hw ho now
  have hmem : ∀ h ∈ doomed now seconds hashes, h ∈ w.envelopes := by
    intro h hh
    obtain ⟨e, he, -⟩ := (mem_doomed_iff hw ho).mp hh
    exact Finmap.mem_of_lookup_eq_some he
  have hsize := pooledSize_remove hnodup hmem
  have hcard := card_remove hnodup hmem
  refine ⟨?_, ?_, rfl, rfl⟩
  · show w.stats.memoryUsed - ((doomed now seconds hashes).map w.sizeAt).sum + w.pooledSize =
      w.stats.memoryUsed + (w.remove (doomed now seconds hashes)).pooledSize
    omega
  · show (0 : Int) + (doomed now seconds hashes).length +
      (w.remove (doomed now seconds hashes)).envelopes.keys.card = w.envelopes.keys.card
    omega

end Whisper

/-! ### Runs -/

/-- A call of `add` that has inserted its envelope. -/
structure AddCall where
  envelope : Envelope
  isP2P : Bool
  deriving DecidableEq

/-- The node with the calls of `add` that have inserted an envelope: those that have not counted it
yet, and those that have and did not return yet.  `misses` is the number of insertions, and
`expires` the number of calls of `expire`. -/
structure Books where
  whisper : Whisper
  inserted : List AddCall := []
  counted : List AddCall := []
  misses : Nat := 0
  expires : Nat := 0

inductive BooksAction
  | insert (now : UInt32) (e : Envelope) (isP2P : Bool)
  | account (call : AddCall)
  | notify (call : AddCall)
  | expire (now : UInt32) (seconds : List UInt32) (hashes : UInt32 → List Hash)
  | configure (settings : Settings)
  | processQueue
  | processP2P

namespace Books

/-- `add` up to the end of the pool lock. -/
def insert (C : Crypto) (s : Books) (now : UInt32) (e : Envelope) (isP2P : Bool) : Books :=
  match s.whisper.settings.check C now e with
  | .ok (some e') =>
    if e'.hash C ∈ s.whisper.envelopes then s
    else { s with
      whisper := s.whisper.insert C e'
      inserted := ⟨e', isP2P⟩ :: s.inserted
      misses := s.misses + 1 }
  | _ => s

/-- The sizes of the envelopes that are inserted and not yet counted. -/
def uncounted (s : Books) : Nat := (s.inserted.map fun call => call.envelope.size).sum

end Books

def BooksStep (C : Crypto) (s : Books) : BooksAction → Books → Prop
  | .insert now e isP2P, t => t = s.insert C now e isP2P
  | .account call, t => call ∈ s.inserted ∧
    t = { s with
      whisper := s.whisper.account call.envelope
      inserted := s.inserted.erase call
      counted := call :: s.counted }
  | .notify call, t => call ∈ s.counted ∧
    t = { s with
      whisper := s.whisper.notify C call.envelope call.isP2P
      counted := s.counted.erase call }
  | .expire now seconds hashes, t => s.whisper.Orders seconds hashes ∧
    ∃ w, s.whisper.expire now seconds hashes = some w ∧
      t = { s with whisper := w, expires := s.expires + 1 }
  | .configure settings, t => t = { s with whisper.settings := settings }
  | .processQueue, t => ∃ w, s.whisper.processQueue C = some w ∧ t = { s with whisper := w }
  | .processP2P, t => ∃ w, s.whisper.processP2P C = some w ∧ t = { s with whisper := w }

namespace Books

/-- The steps of a call of `add` that nothing interrupts have the effect of `add`. -/
theorem run_add (C : Crypto) (s : Books) (now : UInt32) (e : Envelope) (isP2P : Bool) :
    ∃ acts t, Run (BooksStep C) s (.insert now e isP2P :: acts) t ∧
      t.whisper = (s.whisper.add C now e isP2P).1 ∧ t.inserted = s.inserted ∧
      t.counted = s.counted := by
  unfold Whisper.add
  cases hcheck : s.whisper.settings.check C now e with
  | error err =>
    refine ⟨[], s, .cons ?_ (.nil _), rfl, rfl, rfl⟩
    simp [BooksStep, insert, hcheck]
  | ok admitted =>
    cases admitted with
    | none =>
      refine ⟨[], s, .cons ?_ (.nil _), rfl, rfl, rfl⟩
      simp [BooksStep, insert, hcheck]
    | some e' =>
      dsimp only
      by_cases hmem : e'.hash C ∈ s.whisper.envelopes
      · rw [if_pos hmem]
        refine ⟨[], s, .cons ?_ (.nil _), rfl, rfl, rfl⟩
        simp [BooksStep, insert, hcheck, hmem]
      · rw [if_neg hmem]
        refine ⟨[.account ⟨e', isP2P⟩, .notify ⟨e', isP2P⟩], _,
          .cons rfl (.cons ⟨?_, rfl⟩ (.cons ⟨List.mem_cons_self, rfl⟩ (.nil _))), ?_, ?_, ?_⟩
        · simp [insert, hcheck, hmem]
        · simp [insert, hcheck, hmem, Whisper.announce_eq]
        · simp [insert, hcheck, hmem]
        · simp [insert, hcheck, hmem]

/-- The memory in use and what is not yet counted make up the pool, every insertion is pooled or
was cleared in this cycle or before, and the cycles are the calls of `expire`. -/
structure Balanced (C : Crypto) (s : Books) : Prop where
  consistent : s.whisper.Consistent C
  memory : s.whisper.stats.memoryUsed + s.uncounted = s.whisper.pooledSize
  misses : (s.misses : Int) = s.whisper.envelopes.keys.card +
    s.whisper.stats.totalMessagesCleared + s.whisper.stats.messagesCleared
  cycles : s.whisper.stats.cycles = s.expires

theorem start_balanced (C : Crypto) (cfg : Config) : Balanced C { whisper := new cfg } where
  consistent := Whisper.new_consistent C cfg
  memory := by simp [new, uncounted, Whisper.pooledSize]
  misses := by simp [new]
  cycles := by simp [new]

theorem Balanced.insert {C : Crypto} {s : Books} (hs : s.Balanced C) (now : UInt32)
    (e : Envelope) (isP2P : Bool) : (s.insert C now e isP2P).Balanced C := by
  unfold Books.insert
  split
  · rename_i e' _
    split
    · exact hs
    · rename_i hnew
      refine ⟨Whisper.insert_consistent hs.consistent hnew, ?_, ?_, hs.cycles⟩
      · have hsize := Whisper.pooledSize_insert hnew
        have hmemory := hs.memory
        have hused : (s.whisper.insert C e').stats = s.whisper.stats := rfl
        simp only [uncounted, List.map_cons, List.sum_cons, hused] at hmemory ⊢
        omega
      · have hcard := Whisper.card_insert hnew
        have hmisses := hs.misses
        have hcleared : (s.whisper.insert C e').stats = s.whisper.stats := rfl
        simp only [hcleared]
        omega
  · exact hs

theorem Balanced.account {C : Crypto} {s : Books} (hs : s.Balanced C) {call : AddCall}
    (hcall : call ∈ s.inserted) :
    Balanced C { s with
      whisper := s.whisper.account call.envelope
      inserted := s.inserted.erase call
      counted := call :: s.counted } := by
  refine ⟨hs.consistent.congr rfl rfl, ?_, hs.misses, hs.cycles⟩
  have hsum : call.envelope.size +
      ((s.inserted.erase call).map fun call => call.envelope.size).sum =
      (s.inserted.map fun call => call.envelope.size).sum :=
    List.sum_map_erase (fun call : AddCall => call.envelope.size) hcall
  have hmemory := hs.memory
  have hpooled : (s.whisper.account call.envelope).pooledSize = s.whisper.pooledSize := rfl
  have hused : (s.whisper.account call.envelope).stats.memoryUsed =
      s.whisper.stats.memoryUsed + call.envelope.size := rfl
  simp only [uncounted] at hmemory ⊢
  omega

theorem Balanced.same {C : Crypto} {s : Books} {w : Whisper} (hs : s.Balanced C)
    (h : s.whisper.SameBooks w) (counted : List AddCall) :
    Balanced C { s with whisper := w, counted } where
  consistent := hs.consistent.congr h.envelopes h.expirations
  memory := by
    show w.stats.memoryUsed + s.uncounted = w.pooledSize
    rw [h.stats, h.pooledSize, hs.memory]
  misses := by
    show (s.misses : Int) = w.envelopes.keys.card + w.stats.totalMessagesCleared +
      w.stats.messagesCleared
    rw [h.stats, h.envelopes, hs.misses]
  cycles := by
    show w.stats.cycles = s.expires
    rw [h.stats, hs.cycles]

theorem Balanced.expire {C : Crypto} {s : Books} {w : Whisper} {now : UInt32}
    {seconds : List UInt32} {hashes : UInt32 → List Hash} (hs : s.Balanced C)
    (ho : s.whisper.Orders seconds hashes) (hw : s.whisper.expire now seconds hashes = some w) :
    Balanced C { s with whisper := w, expires := s.expires + 1 } := by
  obtain ⟨heq, hconsistent⟩ := Whisper.expire_eq hs.consistent ho now
  rw [heq] at hw
  cases hw
  obtain ⟨hmemory, hcleared, htotal, hcycles⟩ :=
    Whisper.afterExpire_books hs.consistent ho now
  have hbefore := hs.memory
  have hmisses := hs.misses
  have hexpires := hs.cycles
  refine ⟨hconsistent, ?_, ?_, ?_⟩
  · simp only [uncounted] at hbefore ⊢
    omega
  · dsimp only
    omega
  · dsimp only
    omega

theorem step_balanced {C : Crypto} {s t : Books} {a : BooksAction} (hs : s.Balanced C)
    (h : BooksStep C s a t) : t.Balanced C := by
  cases a with
  | insert now e isP2P =>
    cases h
    exact hs.insert now e isP2P
  | account call =>
    obtain ⟨hcall, rfl⟩ := h
    exact hs.account hcall
  | notify call =>
    obtain ⟨-, rfl⟩ := h
    exact hs.same (Whisper.notify_books ..) _
  | expire now seconds hashes =>
    obtain ⟨ho, w, hw, rfl⟩ := h
    exact hs.expire ho hw
  | configure settings =>
    cases h
    exact hs.same (w := { s.whisper with settings }) ⟨rfl, rfl, rfl⟩ _
  | processQueue =>
    obtain ⟨w, hw, rfl⟩ := h
    exact hs.same (Whisper.processQueue_books hw) _
  | processP2P =>
    obtain ⟨w, hw, rfl⟩ := h
    exact hs.same (Whisper.processP2P_books hw) _

/-- However the insertions, the counting and the calls of `expire` are interleaved, the memory in
use and the sizes of the envelopes inserted and not yet counted are the size of the pool.  With no
call of `add` between the two, the memory in use is the size of the pool, and not negative.  The
insertions are the pooled envelopes and the cleared ones, and the cycles are the calls of
`expire`. -/
theorem balanced (C : Crypto) (cfg : Config) {acts : List BooksAction} {s : Books}
    (run : Run (BooksStep C) { whisper := new cfg } acts s) :
    s.whisper.stats.memoryUsed + s.uncounted = s.whisper.pooledSize ∧
    (s.inserted = [] → s.whisper.stats.memoryUsed = s.whisper.pooledSize ∧
      0 ≤ s.whisper.stats.memoryUsed) ∧
    (s.misses : Int) = s.whisper.envelopes.keys.card + s.whisper.stats.totalMessagesCleared +
      s.whisper.stats.messagesCleared ∧
    s.whisper.stats.cycles = s.expires := by
  have hs : s.Balanced C := run.invariant (start_balanced C cfg) fun _ _ _ _ => step_balanced
  have hmemory := hs.memory
  refine ⟨hmemory, fun hnone => ?_, hs.misses, hs.cycles⟩
  have huncounted : s.uncounted = 0 := by simp [uncounted, hnone]
  omega

/-- The sample node while its call of `add` has inserted the envelope and not counted it. -/
def insertedBooks : Books :=
  insert sampleCrypto { whisper := new {} } 1600000000 sampleEnvelope false

/-- The orders in which `expire` visits the one envelope of the sample node. -/
theorem insertedBooks_orders : insertedBooks.whisper.Orders [1600000050]
    fun _ => [sampleEnvelope.hash sampleCrypto] := by
  apply Whisper.orders_single
  decide +kernel

/-- `expire` removes the envelope before it is counted: the memory in use is negative by its size
until the call of `add` counts it. -/
theorem balanced_early : ∃ s : Books,
    Run (BooksStep sampleCrypto) { whisper := new {} }
      [.insert 1600000000 sampleEnvelope false,
        .expire 1600000051 [1600000050] fun _ => [sampleEnvelope.hash sampleCrypto]] s ∧
    s.whisper.stats.memoryUsed + s.uncounted = s.whisper.pooledSize ∧
    s.whisper.stats.memoryUsed = -24 ∧ s.uncounted = 24 := by
  have hexpire : (insertedBooks.whisper.expire 1600000051 [1600000050]
      fun _ => [sampleEnvelope.hash sampleCrypto]).isSome := by decide +kernel
  obtain ⟨w, hw⟩ := Option.isSome_iff_exists.mp hexpire
  have run : Run (BooksStep sampleCrypto) { whisper := new {} }
      [.insert 1600000000 sampleEnvelope false,
        .expire 1600000051 [1600000050] fun _ => [sampleEnvelope.hash sampleCrypto]]
      { insertedBooks with whisper := w, expires := insertedBooks.expires + 1 } :=
    .cons rfl (.cons ⟨insertedBooks_orders, w, hw, rfl⟩ (.nil _))
  have hused : (insertedBooks.whisper.expire 1600000051 [1600000050]
      fun _ => [sampleEnvelope.hash sampleCrypto]).map (·.stats.memoryUsed) = some (-24) := by
    decide +kernel
  have huncounted : insertedBooks.uncounted = 24 := by decide +kernel
  rw [hw] at hused
  exact ⟨_, run, (balanced sampleCrypto {} run).1, Option.some.inj hused, huncounted⟩

end Books

end Whisperv6
