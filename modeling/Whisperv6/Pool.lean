import Whisperv6.Node
import Whisperv6.ProofKit.Runs

/-! The two pools of a node, the envelopes by hash and the hashes by expiry second, agree in every
state that `add` and `expire` reach. -/

namespace Whisperv6

open ProofKit

/-! ### What `add` can do -/

theorem Settings.check_some_iff {C : Crypto} {s : Settings} {now : UInt32} {e e' : Envelope} :
    s.check C now e = .ok (some e') ↔
      e' = (e.adjust C now).fill C ∧
      ¬ (now < e.expiry - e.ttl ∧ now < e.expiry - e.ttl - defaultSyncAllowance) ∧
      now ≤ e.expiry ∧ UInt32.ofNat e.size ≤ s.maxMsgSize ∧
      (((e.adjust C now).pow C).lt s.getMinPow.value = false ∨
        ((e.adjust C now).pow C).lt s.getMinPowTolerance.value = false) ∧
      (bloomFilterMatch s.bloomFilter e.bloom = true ∨
        bloomFilterMatch s.bloomFilterTolerance e.bloom = true) := by
  have hbloom : (e.adjust C now).bloom = e.bloom := e.bloom_adjust C now
  unfold check
  dsimp only
  rw [hbloom, Envelope.expiry_adjust, Envelope.size_adjust]
  constructor
  · intro h
    split at h
    · cases h
    rename_i hfuture
    split at h
    · split at h <;> cases h
    rename_i hexpiry
    split at h
    · cases h
    rename_i hsize
    split at h
    · cases h
    rename_i hpow
    split at h
    · cases h
    rename_i hmatch
    cases h
    rw [Bool.not_eq_true, Bool.and_eq_false_iff] at hpow hmatch
    refine ⟨rfl, hfuture, UInt32.not_lt.mp hexpiry, UInt32.not_lt.mp hsize, hpow, ?_⟩
    simpa using hmatch
  · rintro ⟨rfl, hfuture, hexpiry, hsize, hpow, hmatch⟩
    rw [if_neg hfuture, if_neg (UInt32.not_lt.mpr hexpiry), if_neg (UInt32.not_lt.mpr hsize),
      if_neg, if_neg]
    · rcases hmatch with h | h <;> simp [h]
    · rcases hpow with h | h <;> simp [h]

/-- What the checks let through is the envelope that came, with its caches filled. -/
theorem Settings.same_of_check {C : Crypto} {s : Settings} {now : UInt32} {e e' : Envelope}
    (h : s.check C now e = .ok (some e')) :
    e'.hash C = e.hash C ∧ e'.expiry = e.expiry ∧ e'.powCache = e'.pow C := by
  obtain ⟨rfl, -⟩ := check_some_iff.mp h
  refine ⟨?_, Envelope.expiry_adjust C e now, (Envelope.pow_fill C _).symm⟩
  rw [Envelope.hash_fill, Envelope.hash_adjust]

/-- The first checks are those on the time: an envelope from the future and a very old one are
refused, and another one that has expired is dropped. -/
theorem Settings.check_time (C : Crypto) (s : Settings) (now : UInt32) (e : Envelope) :
    (s.check C now e = .error .inFuture ↔
      now < e.expiry - e.ttl ∧ now < e.expiry - e.ttl - defaultSyncAllowance) ∧
    (s.check C now e = .error .veryOld ↔
      ¬ (now < e.expiry - e.ttl ∧ now < e.expiry - e.ttl - defaultSyncAllowance) ∧
      e.expiry < now ∧ e.expiry + defaultSyncAllowance * 2 < now) ∧
    (s.check C now e = .ok none ↔
      ¬ (now < e.expiry - e.ttl ∧ now < e.expiry - e.ttl - defaultSyncAllowance) ∧
      e.expiry < now ∧ ¬ e.expiry + defaultSyncAllowance * 2 < now) := by
  unfold check
  dsimp only
  rw [Envelope.expiry_adjust]
  by_cases hfuture : now < e.expiry - e.ttl ∧ now < e.expiry - e.ttl - defaultSyncAllowance
  · simp [hfuture]
  rw [if_neg hfuture]
  by_cases hexpiry : e.expiry < now
  · rw [if_pos hexpiry]
    split <;> simp_all
  · rw [if_neg hexpiry]
    split
    · simp [hfuture, hexpiry]
    · split
      · simp [hfuture, hexpiry]
      · split <;> simp [hfuture, hexpiry]

/-- The two errors about the requirements of the node: both values of one of them are missed. -/
theorem Settings.check_error {C : Crypto} {s : Settings} {now : UInt32} {e : Envelope}
    {err : AddError} (h : s.check C now e = .error err) :
    (err = .lowPow → now ≤ e.expiry ∧ ((e.adjust C now).pow C).lt s.getMinPow.value = true ∧
      ((e.adjust C now).pow C).lt s.getMinPowTolerance.value = true) ∧
    (err = .noBloomMatch → bloomFilterMatch s.bloomFilter e.bloom = false ∧
      bloomFilterMatch s.bloomFilterTolerance e.bloom = false) := by
  unfold check at h
  dsimp only at h
  rw [Envelope.expiry_adjust, Envelope.bloom_adjust] at h
  split at h
  · cases h
    exact ⟨nofun, nofun⟩
  split at h
  · split at h
    · cases h
      exact ⟨nofun, nofun⟩
    · cases h
  rename_i hexpiry
  split at h
  · cases h
    exact ⟨nofun, nofun⟩
  split at h
  · rename_i hpow
    cases h
    rw [Bool.and_eq_true] at hpow
    exact ⟨fun _ => ⟨UInt32.not_lt.mp hexpiry, hpow⟩, nofun⟩
  split at h
  · rename_i hbloom
    cases h
    rw [Bool.and_eq_true, Bool.not_eq_true', Bool.not_eq_true'] at hbloom
    exact ⟨nofun, fun _ => hbloom⟩
  · cases h

theorem Settings.check_lowPow {C : Crypto} {s : Settings} {now : UInt32} {e : Envelope}
    (h : s.check C now e = .error .lowPow) :
    now ≤ e.expiry ∧ ((e.adjust C now).pow C).lt s.getMinPow.value = true ∧
      ((e.adjust C now).pow C).lt s.getMinPowTolerance.value = true := (check_error h).1 rfl

theorem Settings.check_noBloomMatch {C : Crypto} {s : Settings} {now : UInt32} {e : Envelope}
    (h : s.check C now e = .error .noBloomMatch) :
    bloomFilterMatch s.bloomFilter e.bloom = false ∧
      bloomFilterMatch s.bloomFilterTolerance e.bloom = false := (check_error h).2 rfl

namespace Whisper

/-- What `add` returns depends on the checks only. -/
theorem add_snd (C : Crypto) (w : Whisper) (now : UInt32) (e : Envelope) (isP2P : Bool) :
    (w.add C now e isP2P).2 = (w.settings.check C now e).map Option.isSome := by
  unfold add
  split
  · rename_i err hcheck
    rw [hcheck]
    rfl
  · rename_i hcheck
    rw [hcheck]
    rfl
  · rename_i e' hcheck
    rw [hcheck]
    split <;> rfl

section

variable {C : Crypto} {w : Whisper} {now : UInt32} {e : Envelope} {isP2P : Bool}

theorem add_error_iff {err : AddError} :
    (w.add C now e isP2P).2 = .error err ↔ w.settings.check C now e = .error err := by
  rw [add_snd]
  cases w.settings.check C now e <;> simp [Except.map]

theorem add_dropped_iff :
    (w.add C now e isP2P).2 = .ok false ↔ w.settings.check C now e = .ok none := by
  rw [add_snd]
  cases w.settings.check C now e <;> simp [Except.map]

theorem add_cached_iff :
    (w.add C now e isP2P).2 = .ok true ↔ ∃ e', w.settings.check C now e = .ok (some e') := by
  rw [add_snd]
  cases w.settings.check C now e <;> simp [Except.map, Option.isSome_iff_exists]

end

/-- `add` leaves the node as it is, or admits an envelope whose hash is not pooled. -/
theorem add_cases (C : Crypto) (w : Whisper) (now : UInt32) (e : Envelope) (isP2P : Bool) :
    (w.add C now e isP2P).1 = w ∨
    ∃ e', w.settings.check C now e = .ok (some e') ∧ e'.hash C = e.hash C ∧
      e'.expiry = e.expiry ∧ now ≤ e.expiry ∧ e.hash C ∉ w.envelopes ∧
      w.add C now e isP2P = ((w.insert C e').announce C e' isP2P, .ok true) := by
  unfold add
  split
  · exact .inl rfl
  · exact .inl rfl
  · rename_i e' hcheck
    obtain ⟨-, -, hnow, -⟩ := Settings.check_some_iff.mp hcheck
    obtain ⟨hhash, hexp, -⟩ := Settings.same_of_check hcheck
    split
    · exact .inl rfl
    · rename_i hnew
      exact .inr ⟨e', hcheck, hhash, hexp, hnow, hhash ▸ hnew, rfl⟩

section

variable {C : Crypto} {w : Whisper} {now : UInt32} {e : Envelope} {isP2P : Bool}

theorem add_of_not_cached (h : (w.add C now e isP2P).2 ≠ .ok true) :
    (w.add C now e isP2P).1 = w := by
  rcases add_cases C w now e isP2P with hsame | ⟨e', -, -, -, -, -, hadd⟩
  · exact hsame
  · rw [hadd] at h
    exact absurd rfl h

theorem add_of_mem (h : e.hash C ∈ w.envelopes) : (w.add C now e isP2P).1 = w := by
  rcases add_cases C w now e isP2P with hsame | ⟨e', -, -, -, -, hnew, -⟩
  · exact hsame
  · exact absurd h hnew

theorem add_of_notMem {e' : Envelope} (hcheck : w.settings.check C now e = .ok (some e'))
    (hnew : e.hash C ∉ w.envelopes) :
    w.add C now e isP2P = ((w.insert C e').announce C e' isP2P, .ok true) := by
  rw [← (Settings.same_of_check hcheck).1] at hnew
  unfold add
  rw [hcheck]
  exact if_neg hnew

end

theorem checkOverflow_update (w : Whisper) :
    ∃ flag, w.checkOverflow = { w with settings.overflow := flag } := by
  unfold checkOverflow
  dsimp only
  split
  · exact ⟨true, rfl⟩
  · split
    · exact ⟨false, rfl⟩
    · exact ⟨w.settings.overflow, rfl⟩

theorem postEvent_update (w : Whisper) (e : Envelope) (isP2P : Bool) :
    ∃ flag, w.postEvent e isP2P =
      { w with
        settings.overflow := flag
        messageQueue := if isP2P then w.messageQueue else w.messageQueue ++ [e]
        p2pMsgQueue := if isP2P then w.p2pMsgQueue ++ [.envelope e] else w.p2pMsgQueue } := by
  cases isP2P with
  | true => exact ⟨w.settings.overflow, rfl⟩
  | false =>
    obtain ⟨flag, h⟩ := w.checkOverflow_update
    refine ⟨flag, ?_⟩
    simp only [postEvent, h]
    rfl

/-- What `announce` changes: the statistics, one of the two queues, the archive and the feed of a
node with a mail server, and the overflow flag. -/
theorem announce_update (C : Crypto) (w : Whisper) (e : Envelope) (isP2P : Bool) :
    ∃ flag, w.announce C e isP2P =
      { w with
        settings.overflow := flag
        stats.memoryUsed := w.stats.memoryUsed + e.size
        messageQueue := if isP2P then w.messageQueue else w.messageQueue ++ [e]
        p2pMsgQueue := if isP2P then w.p2pMsgQueue ++ [.envelope e] else w.p2pMsgQueue
        archived := if w.mailServer then w.archived ++ [e] else w.archived
        envelopeFeed := if w.mailServer then w.envelopeFeed ++
            [{ event := .mailServerEnvelopeArchived, topic := e.topic, hash := e.hash C }]
          else w.envelopeFeed } := by
  obtain ⟨flag, h⟩ :=
    { w with stats.memoryUsed := w.stats.memoryUsed + e.size }.postEvent_update e isP2P
  refine ⟨flag, ?_⟩
  unfold announce archive
  dsimp only at h ⊢
  rw [h]
  dsimp only
  split <;> rfl

section

variable (C : Crypto) (w : Whisper) (e : Envelope) (isP2P : Bool)

@[simp] theorem announce_envelopes : (w.announce C e isP2P).envelopes = w.envelopes := by
  obtain ⟨flag, h⟩ := announce_update C w e isP2P
  rw [h]

@[simp] theorem announce_expirations : (w.announce C e isP2P).expirations = w.expirations := by
  obtain ⟨flag, h⟩ := announce_update C w e isP2P
  rw [h]

theorem announce_messageQueue : (w.announce C e isP2P).messageQueue =
    if isP2P then w.messageQueue else w.messageQueue ++ [e] := by
  obtain ⟨flag, h⟩ := announce_update C w e isP2P
  rw [h]

theorem announce_p2pMsgQueue : (w.announce C e isP2P).p2pMsgQueue =
    if isP2P then w.p2pMsgQueue ++ [.envelope e] else w.p2pMsgQueue := by
  obtain ⟨flag, h⟩ := announce_update C w e isP2P
  rw [h]

theorem announce_archived : (w.announce C e isP2P).archived =
    if w.mailServer then w.archived ++ [e] else w.archived := by
  obtain ⟨flag, h⟩ := announce_update C w e isP2P
  rw [h]

end

/-! ### The invariant -/

/-- Every hash in the set of a second is the key of an envelope that expires in that second, every
pooled envelope is filed under its own hash and in the set of its second, and no set is empty. -/
structure Consistent (C : Crypto) (w : Whisper) : Prop where
  indexed : ∀ t s h, w.expirations.lookup t = some s → h ∈ s →
    ∃ e, w.envelopes.lookup h = some e ∧ e.expiry = t
  pooled : ∀ h e, w.envelopes.lookup h = some e →
    e.hash C = h ∧ ∃ s, w.expirations.lookup e.expiry = some s ∧ h ∈ s
  nonempty : ∀ t s, w.expirations.lookup t = some s → s.Nonempty

theorem new_consistent (C : Crypto) (cfg : Config) : (new cfg).Consistent C := by
  constructor <;> simp [new]

theorem Consistent.congr {C : Crypto} {w w' : Whisper} (h : w.Consistent C)
    (henv : w'.envelopes = w.envelopes) (hexp : w'.expirations = w.expirations) :
    w'.Consistent C := by
  constructor
  · rw [henv, hexp]; exact h.indexed
  · rw [henv, hexp]; exact h.pooled
  · rw [hexp]; exact h.nonempty

/-- Of the pooled hashes, the set of a second holds those that expire in it. -/
theorem Consistent.mem_set_iff {C : Crypto} {w : Whisper} (h : w.Consistent C) {t : UInt32}
    {s : Finset Hash} {k : Hash} {e : Envelope} (ht : w.expirations.lookup t = some s)
    (hk : w.envelopes.lookup k = some e) : k ∈ s ↔ e.expiry = t := by
  constructor
  · intro hks
    obtain ⟨e', he', het⟩ := h.indexed t s k ht hks
    rw [hk] at he'
    cases he'
    exact het
  · rintro rfl
    obtain ⟨-, s', hs', hks⟩ := h.pooled k e hk
    rw [ht] at hs'
    cases hs'
    exact hks

theorem insert_consistent {C : Crypto} {w : Whisper} {e : Envelope} (h : w.Consistent C)
    (hnew : e.hash C ∉ w.envelopes) : (w.insert C e).Consistent C := by
  have henv : ∀ {k e'}, (w.insert C e).envelopes.lookup k = some e' ↔
      k = e.hash C ∧ e' = e ∨ k ≠ e.hash C ∧ w.envelopes.lookup k = some e' := lookup_insert_iff
  have hexp : ∀ {t s}, (w.insert C e).expirations.lookup t = some s ↔
      t = e.expiry ∧ s = Insert.insert (e.hash C) ((w.expirations.lookup e.expiry).getD ∅) ∨
        t ≠ e.expiry ∧ w.expirations.lookup t = some s := lookup_insert_iff
  have hkeep : ∀ {k e'}, w.envelopes.lookup k = some e' →
      (w.insert C e).envelopes.lookup k = some e' := by
    intro k e' hk
    refine henv.mpr (.inr ⟨?_, hk⟩)
    rintro rfl
    exact hnew (Finmap.mem_of_lookup_eq_some hk)
  constructor
  · intro t s k ht hk
    rcases hexp.mp ht with ⟨rfl, rfl⟩ | ⟨-, hold⟩
    · rcases Finset.mem_insert.mp hk with rfl | hk
      · exact ⟨e, henv.mpr (.inl ⟨rfl, rfl⟩), rfl⟩
      · obtain ⟨s, hs, hks⟩ := mem_getD_empty.mp hk
        obtain ⟨e', he', hee⟩ := h.indexed _ s k hs hks
        exact ⟨e', hkeep he', hee⟩
    · obtain ⟨e', he', hee⟩ := h.indexed t s k hold hk
      exact ⟨e', hkeep he', hee⟩
  · intro k e' hk
    rcases henv.mp hk with ⟨rfl, rfl⟩ | ⟨-, hold⟩
    · exact ⟨rfl, _, hexp.mpr (.inl ⟨rfl, rfl⟩), Finset.mem_insert_self _ _⟩
    · obtain ⟨hhash, s, hs, hks⟩ := h.pooled k e' hold
      refine ⟨hhash, ?_⟩
      by_cases ht : e'.expiry = e.expiry
      · rw [ht] at hs ⊢
        refine ⟨_, hexp.mpr (.inl ⟨rfl, rfl⟩), Finset.mem_insert_of_mem ?_⟩
        exact mem_getD_empty.mpr ⟨s, hs, hks⟩
      · exact ⟨s, hexp.mpr (.inr ⟨ht, hs⟩), hks⟩
  · intro t s ht
    rcases hexp.mp ht with ⟨-, rfl⟩ | ⟨-, hold⟩
    · exact Finset.insert_nonempty _ _
    · exact h.nonempty t s hold

theorem add_consistent {C : Crypto} {w : Whisper} (h : w.Consistent C) (now : UInt32)
    (e : Envelope) (isP2P : Bool) : (w.add C now e isP2P).1.Consistent C := by
  rcases add_cases C w now e isP2P with hsame | ⟨e', -, hhash, -, -, hnew, hadd⟩
  · rw [hsame]; exact h
  · rw [hadd]
    rw [← hhash] at hnew
    exact (insert_consistent h hnew).congr (announce_envelopes ..) (announce_expirations ..)

/-! ### What `expire` does -/

/-- The size of the envelope under a hash. -/
def sizeAt (w : Whisper) (h : Hash) : Nat := ((w.envelopes.lookup h).map Envelope.size).getD 0

/-- The node after the callback of `expire` has run on the hashes of `doomed`. -/
def remove (w : Whisper) (doomed : List Hash) : Whisper :=
  { w with
    envelopes := eraseAll w.envelopes doomed
    envelopeFeed := w.envelopeFeed ++ doomed.map fun h => { event := .envelopeExpired, hash := h }
    stats.messagesCleared := w.stats.messagesCleared + doomed.length
    stats.memoryCleared := w.stats.memoryCleared + (doomed.map w.sizeAt).sum
    stats.memoryUsed := w.stats.memoryUsed - (doomed.map w.sizeAt).sum }

theorem lookup_remove (w : Whisper) (doomed : List Hash) (h : Hash) :
    (w.remove doomed).envelopes.lookup h = if h ∈ doomed then none else w.envelopes.lookup h :=
  lookup_eraseAll _ _ _

theorem remove_nil (w : Whisper) : w.remove [] = w := by
  simp [remove, eraseAll]

theorem sizeAt_remove {w : Whisper} {doomed : List Hash} {h : Hash} (hh : h ∉ doomed) :
    (w.remove doomed).sizeAt h = w.sizeAt h := by
  rw [sizeAt, lookup_remove, if_neg hh, sizeAt]

theorem remove_append {w : Whisper} {doomed more : List Hash} (h : ∀ k ∈ more, k ∉ doomed) :
    (w.remove doomed).remove more = w.remove (doomed ++ more) := by
  have hsizes : more.map (w.remove doomed).sizeAt = more.map w.sizeAt :=
    List.map_congr_left fun k hk => sizeAt_remove (h k hk)
  have henv : eraseAll (w.remove doomed).envelopes more = eraseAll w.envelopes (doomed ++ more) :=
    (List.foldl_append ..).symm
  unfold remove at hsizes henv ⊢
  simp only [hsizes, henv, List.map_append, List.append_assoc, List.length_append,
    List.sum_append, Nat.cast_add, Int.add_assoc, Int.sub_sub]

theorem expireEnvelope_eq {w : Whisper} {h : Hash} (hh : h ∈ w.envelopes) :
    expireEnvelope h w = some (false, w.remove [h]) := by
  obtain ⟨e, he⟩ := Finmap.mem_iff.mp hh
  simp [expireEnvelope, he, remove, eraseAll, sizeAt]

theorem each_expireEnvelope {w : Whisper} {order : List Hash} (hnodup : order.Nodup)
    (hmem : ∀ h ∈ order, h ∈ w.envelopes) :
    each expireEnvelope order w = some (w.remove order) := by
  induction order generalizing w with
  | nil => rw [remove_nil]; rfl
  | cons a rest ih =>
    rw [List.nodup_cons] at hnodup
    rw [each, expireEnvelope_eq (hmem a (by simp))]
    dsimp only
    have hrest : ∀ h ∈ rest, h ∈ (w.remove [a]).envelopes := by
      intro h hh
      have hne : h ≠ a := fun heq => hnodup.1 (heq ▸ hh)
      obtain ⟨e, he⟩ := Finmap.mem_iff.mp (hmem h (List.mem_cons_of_mem _ hh))
      refine Finmap.mem_iff.mpr ⟨e, ?_⟩
      rw [lookup_remove, if_neg (by simpa using hne), he]
    rw [ih hnodup.2 hrest, remove_append]
    · rfl
    · intro k hk hka
      rw [List.mem_singleton] at hka
      exact hnodup.1 (hka ▸ hk)

/-- The node after the loop of `expire` has visited `seconds`. -/
def expired (w : Whisper) (now : UInt32) (seconds : List UInt32) (hashes : UInt32 → List Hash) :
    Whisper :=
  let stale := seconds.filter (· < now)
  { w.remove (stale.flatMap hashes) with expirations := eraseAll w.expirations stale }

/-- One second: its envelopes leave the pool with it when it is over. -/
theorem expireSecond_eq {C : Crypto} {w : Whisper} {now t : UInt32} {hashes : UInt32 → List Hash}
    {s : Finset Hash} (h : w.Consistent C) (ht : w.expirations.lookup t = some s)
    (ho : IsOrder s (hashes t)) :
    expireSecond now hashes w t = some (w.expired now [t] hashes) := by
  unfold expireSecond expired
  by_cases hlt : t < now
  · have hmem : ∀ k ∈ hashes t, k ∈ w.envelopes := by
      intro k hk
      obtain ⟨e, he, -⟩ := h.indexed t s k ht (ho.mem.mp hk)
      exact Finmap.mem_of_lookup_eq_some he
    rw [if_pos hlt, each_expireEnvelope ho.1 hmem]
    simp [hlt, eraseAll, remove]
  · rw [if_neg hlt]
    simp [hlt, eraseAll, remove_nil]

theorem expired_consistent {C : Crypto} {w : Whisper} {now t : UInt32}
    {hashes : UInt32 → List Hash} {s : Finset Hash} (h : w.Consistent C)
    (ht : w.expirations.lookup t = some s) (ho : IsOrder s (hashes t)) :
    (w.expired now [t] hashes).Consistent C := by
  by_cases hlt : t < now
  · have henv : ∀ k, (w.expired now [t] hashes).envelopes.lookup k =
        if k ∈ hashes t then none else w.envelopes.lookup k := by
      intro k
      have := lookup_remove w (hashes t) k
      simpa [expired, hlt] using this
    have hexp : ∀ u, (w.expired now [t] hashes).expirations.lookup u =
        if u = t then none else w.expirations.lookup u := by
      intro u
      have := lookup_eraseAll w.expirations [t] u
      simpa [expired, hlt] using this
    have hin : ∀ k e, w.envelopes.lookup k = some e → (k ∈ hashes t ↔ e.expiry = t) :=
      fun k e hk => ho.mem.trans (h.mem_set_iff ht hk)
    constructor
    · intro u s' k hu hk
      rw [hexp] at hu
      split at hu
      · cases hu
      rename_i hne
      obtain ⟨e, he, heu⟩ := h.indexed u s' k hu hk
      refine ⟨e, ?_, heu⟩
      rw [henv, if_neg, he]
      intro hkt
      exact hne (heu.symm.trans ((hin k e he).mp hkt))
    · intro k e hk
      rw [henv] at hk
      split at hk
      · cases hk
      rename_i hnot
      obtain ⟨hhash, s', hs', hks⟩ := h.pooled k e hk
      refine ⟨hhash, s', ?_, hks⟩
      rw [hexp, if_neg, hs']
      intro heq
      exact hnot ((hin k e hk).mpr heq)
    · intro u s' hu
      rw [hexp] at hu
      split at hu
      · cases hu
      · exact h.nonempty u s' hu
  · refine h.congr ?_ ?_ <;> simp [expired, hlt, eraseAll, remove]

theorem expired_cons {w : Whisper} {now t : UInt32} {rest : List UInt32}
    {hashes : UInt32 → List Hash}
    (hdisjoint : ∀ u ∈ rest, ∀ k ∈ hashes u, k ∉ hashes t) :
    (w.expired now [t] hashes).expired now rest hashes = w.expired now (t :: rest) hashes := by
  by_cases hlt : t < now
  · have happ : (w.remove (hashes t)).remove ((rest.filter (· < now)).flatMap hashes) =
        w.remove (hashes t ++ (rest.filter (· < now)).flatMap hashes) := by
      apply remove_append
      intro k hk
      obtain ⟨u, hu, hk⟩ := List.mem_flatMap.mp hk
      exact hdisjoint u (List.mem_filter.mp hu).1 k hk
    have hfirst : w.expired now [t] hashes =
        { w.remove (hashes t) with expirations := w.expirations.erase t } := by
      simp [expired, hlt, eraseAll]
    have hstale : (t :: rest).filter (· < now) = t :: rest.filter (· < now) := by simp [hlt]
    rw [hfirst]
    unfold expired
    dsimp only
    rw [hstale, List.flatMap_cons, ← happ]
    rfl
  · have hfirst : w.expired now [t] hashes = w := by
      simp [expired, hlt, eraseAll, remove_nil]
    rw [hfirst]
    simp [expired, hlt]

theorem foldlM_expireSecond {C : Crypto} {w : Whisper} {now : UInt32} {seconds : List UInt32}
    {hashes : UInt32 → List Hash} (h : w.Consistent C) (hnodup : seconds.Nodup)
    (ho : ∀ t ∈ seconds, ∃ s, w.expirations.lookup t = some s ∧ IsOrder s (hashes t)) :
    seconds.foldlM (expireSecond now hashes) w = some (w.expired now seconds hashes) ∧
      (w.expired now seconds hashes).Consistent C := by
  induction seconds generalizing w with
  | nil =>
    have hnil : w.expired now [] hashes = w := by simp [expired, eraseAll, remove_nil]
    rw [hnil]
    exact ⟨rfl, h⟩
  | cons t rest ih =>
    rw [List.nodup_cons] at hnodup
    obtain ⟨s, hs, hst⟩ := ho t (by simp)
    have hrest : ∀ u ∈ rest, ∃ s', (w.expired now [t] hashes).expirations.lookup u = some s' ∧
        IsOrder s' (hashes u) := by
      intro u hu
      obtain ⟨s', hs', hsu⟩ := ho u (List.mem_cons_of_mem _ hu)
      have hne : u ≠ t := fun heq => hnodup.1 (heq ▸ hu)
      refine ⟨s', ?_, hsu⟩
      have hmem : u ∉ [t].filter (· < now) := fun hmem =>
        hne (List.mem_singleton.mp (List.mem_filter.mp hmem).1)
      have := lookup_eraseAll w.expirations ([t].filter (· < now)) u
      rw [if_neg hmem] at this
      exact this.trans hs'
    have hdisjoint : ∀ u ∈ rest, ∀ k ∈ hashes u, k ∉ hashes t := by
      intro u hu k hku hkt
      obtain ⟨s', hs', hsu⟩ := ho u (List.mem_cons_of_mem _ hu)
      obtain ⟨e, he, heu⟩ := h.indexed u s' k hs' (hsu.mem.mp hku)
      have het := (h.mem_set_iff hs he).mp (hst.mem.mp hkt)
      exact hnodup.1 (heu.symm.trans het ▸ hu)
    obtain ⟨hloop, hcons⟩ := ih (expired_consistent h hs hst) hnodup.2 hrest
    rw [List.foldlM_cons, expireSecond_eq h hs hst, ← expired_cons hdisjoint]
    exact ⟨hloop, hcons⟩

/-- The node after `expire`. -/
def afterExpire (w : Whisper) (now : UInt32) (seconds : List UInt32)
    (hashes : UInt32 → List Hash) : Whisper :=
  { w with stats := w.stats.reset }.expired now seconds hashes

/-- `expire` never panics on a consistent pool, and leaves a consistent pool. -/
theorem expire_eq {C : Crypto} {w : Whisper} {seconds : List UInt32} {hashes : UInt32 → List Hash}
    (h : w.Consistent C) (ho : w.Orders seconds hashes) (now : UInt32) :
    w.expire now seconds hashes = some (w.afterExpire now seconds hashes) ∧
      (w.afterExpire now seconds hashes).Consistent C := by
  refine foldlM_expireSecond (h.congr rfl rfl) ho.seconds.1 fun t ht => ?_
  obtain ⟨s, hs⟩ := Finmap.mem_iff.mp (Finmap.mem_keys.mp (ho.seconds.mem.mp ht))
  exact ⟨s, hs, ho.hashes t s hs⟩

/-- The hashes that `expire` removes, in the order in which it visits them. -/
def doomed (now : UInt32) (seconds : List UInt32) (hashes : UInt32 → List Hash) : List Hash :=
  (seconds.filter (· < now)).flatMap hashes

section

variable {C : Crypto} {w : Whisper} {seconds : List UInt32} {hashes : UInt32 → List Hash}
  (h : w.Consistent C) (ho : w.Orders seconds hashes)

include h ho

/-- They are the hashes of the pooled envelopes that have expired. -/
theorem mem_doomed_iff {now : UInt32} {k : Hash} : k ∈ doomed now seconds hashes ↔
    ∃ e, w.envelopes.lookup k = some e ∧ e.expiry < now := by
  rw [doomed, List.mem_flatMap]
  constructor
  · rintro ⟨t, ht, hk⟩
    obtain ⟨ht, hlt⟩ := List.mem_filter.mp ht
    obtain ⟨s, hs⟩ := Finmap.mem_iff.mp (Finmap.mem_keys.mp (ho.seconds.mem.mp ht))
    obtain ⟨e, he, rfl⟩ := h.indexed t s k hs ((ho.hashes t s hs).mem.mp hk)
    exact ⟨e, he, by simpa using hlt⟩
  · rintro ⟨e, he, hlt⟩
    obtain ⟨-, s, hs, hk⟩ := h.pooled k e he
    refine ⟨e.expiry, List.mem_filter.mpr ⟨?_, by simpa using hlt⟩,
      (ho.hashes _ s hs).mem.mpr hk⟩
    exact ho.seconds.mem.mpr (Finmap.mem_keys.mpr (Finmap.mem_of_lookup_eq_some hs))

/-- No envelope is visited twice: it is in the set of its own second only. -/
theorem doomed_nodup (now : UInt32) : (doomed now seconds hashes).Nodup := by
  have hset : ∀ t ∈ seconds.filter (· < now), ∃ s, w.expirations.lookup t = some s ∧
      IsOrder s (hashes t) := by
    intro t ht
    have hkey := Finmap.mem_keys.mp (ho.seconds.mem.mp (List.mem_filter.mp ht).1)
    obtain ⟨s, hs⟩ := Finmap.mem_iff.mp hkey
    exact ⟨s, hs, ho.hashes t s hs⟩
  rw [doomed, List.nodup_flatMap]
  refine ⟨fun t ht => ?_, (ho.seconds.1.filter _).imp_of_mem fun {t u} ht hu hne => ?_⟩
  · obtain ⟨s, -, hs⟩ := hset t ht
    exact hs.1
  · obtain ⟨s, hs, hst⟩ := hset t ht
    obtain ⟨s', hs', hsu⟩ := hset u hu
    intro k hkt hku
    obtain ⟨e, he, het⟩ := h.indexed t s k hs (hst.mem.mp hkt)
    have heu := (h.mem_set_iff hs' he).mp (hsu.mem.mp hku)
    exact hne (het.symm.trans heu)

/-- `expire` keeps exactly the envelopes that have not expired. -/
theorem lookup_afterExpire (now : UInt32) (k : Hash) :
    (w.afterExpire now seconds hashes).envelopes.lookup k =
      (w.envelopes.lookup k).filter fun e => decide (now ≤ e.expiry) := by
  have hlookup : (w.afterExpire now seconds hashes).envelopes.lookup k =
      if k ∈ doomed now seconds hashes then none else w.envelopes.lookup k :=
    lookup_eraseAll _ _ _
  rw [hlookup]
  cases he : w.envelopes.lookup k with
  | none => simp
  | some e =>
    by_cases hlt : e.expiry < now
    · rw [if_pos ((mem_doomed_iff h ho).mpr ⟨e, he, hlt⟩)]
      rw [Option.filter_some, if_neg (by simpa using hlt)]
    · rw [if_neg]
      · rw [Option.filter_some, if_pos (by simpa using hlt)]
      · intro hk
        obtain ⟨e', he', hlt'⟩ := (mem_doomed_iff h ho).mp hk
        rw [he] at he'
        cases he'
        exact hlt hlt'

omit h in
theorem expirations_afterExpire (now t : UInt32) :
    (w.afterExpire now seconds hashes).expirations.lookup t =
      if now ≤ t then w.expirations.lookup t else none := by
  have hlookup : (w.afterExpire now seconds hashes).expirations.lookup t =
      if t ∈ seconds.filter (· < now) then none else w.expirations.lookup t :=
    lookup_eraseAll _ _ _
  rw [hlookup]
  by_cases hle : now ≤ t
  · rw [if_pos hle, if_neg]
    intro hmem
    have hlt : t < now := by simpa using (List.mem_filter.mp hmem).2
    exact UInt32.not_lt.mpr hle hlt
  · rw [if_neg hle]
    by_cases hmem : t ∈ seconds
    · rw [if_pos (List.mem_filter.mpr ⟨hmem, by simpa using UInt32.not_le.mp hle⟩)]
    · have hnone : w.expirations.lookup t = none := by
        apply Finmap.lookup_eq_none.mpr
        intro hkey
        exact hmem (ho.seconds.mem.mpr (Finmap.mem_keys.mpr hkey))
      rw [hnone, ite_self]

end

/-- `expire` removes exactly the envelopes that have expired, with one event for each of them, and
counts them. -/
theorem expire_exact {C : Crypto} {w : Whisper} {seconds : List UInt32}
    {hashes : UInt32 → List Hash} (h : w.Consistent C) (ho : w.Orders seconds hashes)
    (now : UInt32) :
    ∃ w' : Whisper, ∃ removed : List Hash, w.expire now seconds hashes = some w' ∧
      (∀ k, w'.envelopes.lookup k =
        (w.envelopes.lookup k).filter fun e => decide (now ≤ e.expiry)) ∧
      (∀ t, w'.expirations.lookup t = if now ≤ t then w.expirations.lookup t else none) ∧
      removed.Nodup ∧
      (∀ k, k ∈ removed ↔ ∃ e, w.envelopes.lookup k = some e ∧ e.expiry < now) ∧
      w'.envelopeFeed = w.envelopeFeed ++
        removed.map (fun k => { event := .envelopeExpired, hash := k }) ∧
      w'.stats.messagesCleared = removed.length ∧
      w'.stats.memoryCleared = (removed.map w.sizeAt).sum := by
  refine ⟨w.afterExpire now seconds hashes, doomed now seconds hashes, (expire_eq h ho now).1,
    lookup_afterExpire h ho now, expirations_afterExpire ho now, doomed_nodup h ho now,
    fun k => mem_doomed_iff h ho, rfl, ?_, ?_⟩
  · exact Int.zero_add _
  · exact Int.zero_add _

/-! ### Runs of the pool -/

/-- The hashes that expire in second `t`. -/
def second (w : Whisper) (t : UInt32) : Finset Hash := (w.expirations.lookup t).getD ∅

theorem Consistent.mem_second {C : Crypto} {w : Whisper} (h : w.Consistent C) {k : Hash}
    {e : Envelope} (hk : w.envelopes.lookup k = some e) (t : UInt32) :
    k ∈ w.second t ↔ t = e.expiry := by
  rw [second, mem_getD_empty]
  constructor
  · rintro ⟨s, hs, hks⟩
    exact ((h.mem_set_iff hs hk).mp hks).symm
  · rintro rfl
    exact (h.pooled k e hk).2

theorem Consistent.mem_envelopes {C : Crypto} {w : Whisper} (h : w.Consistent C) {k : Hash}
    {t : UInt32} (hk : k ∈ w.second t) : k ∈ w.envelopes := by
  obtain ⟨s, hs, hks⟩ := mem_getD_empty.mp hk
  obtain ⟨e, he, -⟩ := h.indexed t s k hs hks
  exact Finmap.mem_of_lookup_eq_some he

theorem Consistent.mem_iff {C : Crypto} {w : Whisper} (h : w.Consistent C) (k : Hash) :
    k ∈ w.envelopes ↔ ∃! t, k ∈ w.second t := by
  constructor
  · intro hk
    obtain ⟨e, he⟩ := Finmap.mem_iff.mp hk
    exact ⟨e.expiry, (h.mem_second he _).mpr rfl, fun t ht => (h.mem_second he t).mp ht⟩
  · rintro ⟨t, ht, -⟩
    exact h.mem_envelopes ht

end Whisper

/-- The operations on the pool, with a change of the settings between them. -/
inductive PoolAction
  | add (now : UInt32) (e : Envelope) (isP2P : Bool)
  | expire (now : UInt32) (seconds : List UInt32) (hashes : UInt32 → List Hash)
  | configure (settings : Settings)

def PoolStep (C : Crypto) (w : Whisper) : PoolAction → Whisper → Prop
  | .add now e isP2P, w' => w' = (w.add C now e isP2P).1
  | .expire now seconds hashes, w' =>
    w.Orders seconds hashes ∧ w.expire now seconds hashes = some w'
  | .configure settings, w' => w' = { w with settings }

theorem PoolStep.consistent {C : Crypto} {w w' : Whisper} {a : PoolAction}
    (hstep : PoolStep C w a w') (h : w.Consistent C) : w'.Consistent C := by
  cases a with
  | add now e isP2P =>
    cases hstep
    exact Whisper.add_consistent h now e isP2P
  | expire now seconds hashes =>
    obtain ⟨ho, hexpire⟩ := hstep
    obtain ⟨heq, hcons⟩ := Whisper.expire_eq h ho now
    rw [heq] at hexpire
    cases hexpire
    exact hcons
  | configure settings =>
    cases hstep
    exact h.congr rfl rfl

theorem Whisper.run_consistent {C : Crypto} {cfg : Config} {acts : List PoolAction} {w : Whisper}
    (run : Run (PoolStep C) (new cfg) acts w) : w.Consistent C :=
  run.invariant (Whisper.new_consistent C cfg) fun _ _ _ _ h hstep => hstep.consistent h

/-- In every state that `add` and `expire` reach, a hash is pooled exactly when the set of one
second holds it; that second is the expiry of the pooled envelope, whose hash it is; no set is
empty; and `expire` finds an envelope for every hash that it visits. -/
theorem Whisper.pool_agrees (C : Crypto) (cfg : Config) {acts : List PoolAction} {w : Whisper}
    (run : Run (PoolStep C) (new cfg) acts w) :
    (∀ k, k ∈ w.envelopes ↔ ∃! t, k ∈ w.second t) ∧
    (∀ k e t, w.envelopes.lookup k = some e → k ∈ w.second t → t = e.expiry ∧ e.hash C = k) ∧
    (∀ t s, w.expirations.lookup t = some s → s.Nonempty) ∧
    (∀ k t, k ∈ w.second t → k ∈ w.envelopes) ∧
    ∀ now seconds hashes, w.Orders seconds hashes → (w.expire now seconds hashes).isSome := by
  have h := Whisper.run_consistent run
  refine ⟨h.mem_iff, fun k e t hk ht => ⟨(h.mem_second hk t).mp ht, (h.pooled k e hk).1⟩,
    h.nonempty, fun k t hk => h.mem_envelopes hk, fun now seconds hashes ho => ?_⟩
  rw [(Whisper.expire_eq h ho now).1]
  rfl

/-- An envelope sealed for the default requirement. -/
def sampleEnvelope : Envelope where
  expiry := 1600000050
  ttl := 50
  topic := #v[1, 2, 3, 4]
  data := [0xde, 0xad, 0xbe, 0xef]
  nonce := 230

/-- Keccak-256 on the two inputs that the sample envelope gives it. -/
def sampleKeccak (b : Bytes) : Hash :=
  if b = sampleEnvelope.encode then
    0xdc40252b907a32705c12628a50e4fc1c7588c17732507b770da60bcd94b6eb23#256
  else if b = sampleEnvelope.rlpWithoutNonce ++ putUint64 230 then
    0x9bc615e2d23ab5933b27e101bff8563d70f2815a29f7bd5757e46e8a4c2704#256
  else 0

def sampleCrypto : Crypto where
  keccak256Hash := sampleKeccak
  aesgcmSeal _ _ text := text
  aesgcmOpen _ _ text := .ok text
  eciesEncrypt _ _ text := .ok text
  eciesDecrypt _ text := .ok text
  sign _ _ := .ok []
  sigToPub _ _ := none

/-- A new node after it has admitted the sample envelope. -/
def sampleNode : Whisper := ((new {}).add sampleCrypto 1600000000 sampleEnvelope false).1

theorem Whisper.orders_single {w : Whisper} {t : UInt32} {k : Hash}
    (hone : w.expirations = (∅ : GoMap UInt32 (Finset Hash)).insert t {k}) :
    w.Orders [t] fun _ => [k] := by
  constructor
  · refine ⟨List.nodup_singleton t, fun u => ?_⟩
    simp [hone, Finmap.mem_keys, Finmap.notMem_empty]
  · intro u s hu
    rw [hone] at hu
    rcases lookup_insert_iff.mp hu with ⟨-, rfl⟩ | ⟨-, hnone⟩
    · exact ⟨List.nodup_singleton k, by simp⟩
    · rw [Finmap.lookup_empty] at hnone
      cases hnone

theorem sampleNode_orders :
    sampleNode.Orders [1600000050] fun _ => [sampleEnvelope.hash sampleCrypto] :=
  Whisper.orders_single (by decide +kernel)

theorem Whisper.pool_agrees_sample :
    sampleEnvelope.hash sampleCrypto ∈ sampleNode.envelopes ∧
    (∃! t, sampleEnvelope.hash sampleCrypto ∈ sampleNode.second t) ∧
    (sampleNode.expire 1600000051 [1600000050]
      fun _ => [sampleEnvelope.hash sampleCrypto]).isSome := by
  have run : Run (PoolStep sampleCrypto) (new {}) [.add 1600000000 sampleEnvelope false]
      sampleNode := .cons rfl (.nil _)
  obtain ⟨hkey, -, -, -, hexpire⟩ := Whisper.pool_agrees sampleCrypto {} run
  have hmem : sampleEnvelope.hash sampleCrypto ∈ sampleNode.envelopes := by decide +kernel
  exact ⟨hmem, (hkey _).mp hmem, hexpire _ _ _ sampleNode_orders⟩

/-- The sample node in the second after its envelope has expired. -/
theorem Whisper.expire_exact_sample : ∃ w' : Whisper, ∃ removed : List Hash,
    sampleNode.expire 1600000051 [1600000050] (fun _ => [sampleEnvelope.hash sampleCrypto]) =
      some w' ∧
    sampleEnvelope.hash sampleCrypto ∈ removed ∧ w'.stats.messagesCleared = removed.length := by
  have hsample : sampleNode.Consistent sampleCrypto :=
    Whisper.add_consistent (Whisper.new_consistent _ _) _ _ _
  obtain ⟨w', removed, hexpire, -, -, -, hremoved, -, hcleared, -⟩ :=
    Whisper.expire_exact hsample sampleNode_orders 1600000051
  refine ⟨w', removed, hexpire, (hremoved _).mpr ?_, hcleared⟩
  have hmem : sampleEnvelope.hash sampleCrypto ∈ sampleNode.envelopes := by decide +kernel
  obtain ⟨e, he⟩ := Finmap.mem_iff.mp hmem
  refine ⟨e, he, ?_⟩
  have hexpiry : (sampleNode.envelopes.lookup (sampleEnvelope.hash sampleCrypto)).map
      Envelope.expiry = some 1600000050 := by decide +kernel
  rw [he] at hexpiry
  injection hexpiry with hexpiry
  rw [hexpiry]
  decide

end Whisperv6
