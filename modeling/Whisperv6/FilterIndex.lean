import Whisperv6.RoundTrip

/-! The index of the installed filters: in every state that `Install` and `Uninstall` reach, the
candidates for a topic are the installed filters without topics and those that list the topic. -/

namespace Whisperv6

open ProofKit

namespace Filters

def Installed (fs : Filters) (r : FilterRef) : Prop := ∃ id, fs.watchers.lookup id = some r

instance (fs : Filters) (r : FilterRef) : Decidable (fs.Installed r) :=
  decidable_of_iff (∃ id ∈ fs.watchers.keys, fs.watchers.lookup id = some r)
    ⟨fun ⟨id, _, h⟩ => ⟨id, h⟩,
      fun ⟨id, h⟩ => ⟨id, Finmap.mem_keys.mpr (Finmap.mem_of_lookup_eq_some h), h⟩⟩

/-- The index lists every installed filter where its topics say, and nothing else; each filter is
installed under one identifier, with at most one key and the hash of its symmetric key. -/
structure Indexed (C : Crypto) (fs : Filters) : Prop where
  wildcard : ∀ r, r ∈ fs.allTopicsMatcher ↔ fs.Installed r ∧ (fs.heap r).topics = []
  listed : ∀ topic r, r ∈ fs.atTopic topic ↔
    fs.Installed r ∧ ∃ t ∈ (fs.heap r).topics, bytesToTopic t = topic
  distinct : ∀ id id' r, fs.watchers.lookup id = some r → fs.watchers.lookup id' = some r → id = id'
  oneKey : ∀ r, fs.Installed r → (fs.heap r).keySym = none ∨ (fs.heap r).keyAsym = none
  symKeyHash : ∀ r key, fs.Installed r → (fs.heap r).keySym = some key →
    (fs.heap r).symKeyHash = C.keccak256Hash key

theorem empty_indexed (C : Crypto) : ({} : Filters).Indexed C := by
  constructor <;> simp [Installed, atTopic]

/-! ### `Install` -/

theorem mem_addTopics {m : GoMap TopicType (Finset FilterRef)} {topics : List Bytes}
    {r r' : FilterRef} {topic : TopicType} :
    r' ∈ ((topics.foldl (fun m t => m.insert (bytesToTopic t)
        (insert r ((m.lookup (bytesToTopic t)).getD ∅))) m).lookup topic).getD ∅ ↔
      (r' = r ∧ ∃ t ∈ topics, bytesToTopic t = topic) ∨ r' ∈ (m.lookup topic).getD ∅ := by
  induction topics generalizing m with
  | nil => simp
  | cons t rest ih =>
    rw [List.foldl_cons, ih]
    by_cases ht : bytesToTopic t = topic
    · subst ht
      rw [Finmap.lookup_insert, Option.getD_some, Finset.mem_insert]
      constructor
      · rintro (⟨hr, u, hu, hut⟩ | hr | hold)
        · exact .inl ⟨hr, u, List.mem_cons_of_mem _ hu, hut⟩
        · exact .inl ⟨hr, t, List.mem_cons_self, rfl⟩
        · exact .inr hold
      · rintro (⟨hr, -⟩ | hold)
        · exact .inr (.inl hr)
        · exact .inr (.inr hold)
    · rw [Finmap.lookup_insert_of_ne _ (Ne.symm ht)]
      simp [ht]

theorem addTopicMatcher_heap (fs : Filters) (r : FilterRef) :
    (fs.addTopicMatcher r).heap = fs.heap := by
  unfold addTopicMatcher
  split <;> rfl

theorem addTopicMatcher_watchers (fs : Filters) (r : FilterRef) :
    (fs.addTopicMatcher r).watchers = fs.watchers := by
  unfold addTopicMatcher
  split <;> rfl

theorem mem_addTopicMatcher_all {fs : Filters} {r r' : FilterRef} :
    r' ∈ (fs.addTopicMatcher r).allTopicsMatcher ↔
      (r' = r ∧ (fs.heap r).topics = []) ∨ r' ∈ fs.allTopicsMatcher := by
  unfold addTopicMatcher
  split
  · rename_i h
    rw [List.length_eq_zero_iff] at h
    simp [h]
  · rename_i h
    rw [List.length_eq_zero_iff] at h
    simp [h]

theorem mem_addTopicMatcher_atTopic {fs : Filters} {r r' : FilterRef} {topic : TopicType} :
    r' ∈ (fs.addTopicMatcher r).atTopic topic ↔
      (r' = r ∧ ∃ t ∈ (fs.heap r).topics, bytesToTopic t = topic) ∨ r' ∈ fs.atTopic topic := by
  unfold addTopicMatcher atTopic
  split
  · rename_i h
    rw [List.length_eq_zero_iff] at h
    simp [h]
  · exact mem_addTopics

/-- The collection with one filter more. -/
def enlist (fs : Filters) (id : String) (r : FilterRef) (f : Filter) : Filters :=
  ({ fs with
      heap := Function.update fs.heap r f
      watchers := fs.watchers.insert id r } : Filters).addTopicMatcher r

theorem enlist_heap (fs : Filters) (id : String) (r : FilterRef) (f : Filter) :
    (fs.enlist id r f).heap = Function.update fs.heap r f := addTopicMatcher_heap _ _

theorem enlist_watchers (fs : Filters) (id : String) (r : FilterRef) (f : Filter) :
    (fs.enlist id r f).watchers = fs.watchers.insert id r := addTopicMatcher_watchers _ _

theorem mem_enlist_all {fs : Filters} {id : String} {r r' : FilterRef} {f : Filter} :
    r' ∈ (fs.enlist id r f).allTopicsMatcher ↔
      (r' = r ∧ f.topics = []) ∨ r' ∈ fs.allTopicsMatcher := by
  rw [enlist, mem_addTopicMatcher_all]
  simp

theorem mem_enlist_atTopic {fs : Filters} {id : String} {r r' : FilterRef} {f : Filter}
    {topic : TopicType} :
    r' ∈ (fs.enlist id r f).atTopic topic ↔
      (r' = r ∧ ∃ t ∈ f.topics, bytesToTopic t = topic) ∨ r' ∈ fs.atTopic topic := by
  rw [enlist, mem_addTopicMatcher_atTopic]
  simp [atTopic]

theorem installed_enlist {fs : Filters} {id : String} {r r' : FilterRef} {f : Filter}
    (hid : id ∉ fs.watchers) :
    (fs.enlist id r f).Installed r' ↔ r' = r ∨ fs.Installed r' := by
  unfold Installed
  rw [enlist_watchers]
  constructor
  · rintro ⟨id', hid'⟩
    rcases lookup_insert_iff.mp hid' with ⟨-, hr⟩ | ⟨-, hold⟩
    · exact .inl hr
    · exact .inr ⟨id', hold⟩
  · rintro (rfl | ⟨id', hold⟩)
    · exact ⟨id, lookup_insert_iff.mpr (.inl ⟨rfl, rfl⟩)⟩
    · refine ⟨id', lookup_insert_iff.mpr (.inr ⟨?_, hold⟩)⟩
      rintro rfl
      exact hid (Finmap.mem_of_lookup_eq_some hold)

/-- `Install` returns an error and leaves the collection as it is, or adds the filter under a new
identifier. -/
theorem install_cases (C : Crypto) (fs : Filters) (rnd : Entropy) (r : FilterRef)
    (watcher : Filter) :
    (∃ err, fs.install C rnd r watcher = (fs, .error err)) ∨
    ∃ id, id ∉ fs.watchers ∧ (watcher.keySym = none ∨ watcher.keyAsym = none) ∧
      fs.install C rnd r watcher = (fs.enlist id r (watcher.register C id), .ok id) := by
  unfold install
  split
  · exact .inl ⟨_, rfl⟩
  rename_i hkeys
  split
  · exact .inl ⟨_, rfl⟩
  rename_i id _
  split
  · exact .inl ⟨_, rfl⟩
  rename_i hid
  refine .inr ⟨id, hid, ?_, rfl⟩
  rw [Bool.and_eq_true, not_and_or, Option.not_isSome_iff_eq_none,
    Option.not_isSome_iff_eq_none] at hkeys
  exact hkeys

theorem enlist_indexed {C : Crypto} {fs : Filters} {id : String} {r : FilterRef} {f : Filter}
    (h : fs.Indexed C) (hnew : ¬ fs.Installed r) (hid : id ∉ fs.watchers)
    (hkeys : f.keySym = none ∨ f.keyAsym = none)
    (hhash : ∀ key, f.keySym = some key → f.symKeyHash = C.keccak256Hash key) :
    (fs.enlist id r f).Indexed C := by
  have hne : ∀ r', fs.Installed r' → r' ≠ r := fun r' hr' heq => hnew (heq ▸ hr')
  constructor
  · intro r'
    rw [mem_enlist_all, installed_enlist hid, enlist_heap, h.wildcard]
    by_cases hr : r' = r
    · subst hr
      simp [hnew]
    · simp [hr, Function.update_of_ne]
  · intro topic r'
    rw [mem_enlist_atTopic, installed_enlist hid, enlist_heap, h.listed]
    by_cases hr : r' = r
    · subst hr
      simp [hnew]
    · simp [hr, Function.update_of_ne]
  · intro id₁ id₂ r' h₁ h₂
    rw [enlist_watchers] at h₁ h₂
    rcases lookup_insert_iff.mp h₁ with ⟨rfl, rfl⟩ | ⟨-, hold₁⟩ <;>
      rcases lookup_insert_iff.mp h₂ with ⟨heq, hr⟩ | ⟨-, hold₂⟩
    · exact heq.symm
    · exact absurd ⟨id₂, hold₂⟩ hnew
    · exact absurd hr (hne r' ⟨id₁, hold₁⟩)
    · exact h.distinct id₁ id₂ r' hold₁ hold₂
  · intro r' hr'
    rw [enlist_heap]
    rcases (installed_enlist hid).mp hr' with rfl | hold
    · rw [Function.update_self]
      exact hkeys
    · rw [Function.update_of_ne (hne r' hold)]
      exact h.oneKey r' hold
  · intro r' key hr' hkey
    rw [enlist_heap] at hkey ⊢
    rcases (installed_enlist hid).mp hr' with rfl | hold
    · rw [Function.update_self] at hkey ⊢
      exact hhash key hkey
    · rw [Function.update_of_ne (hne r' hold)] at hkey ⊢
      exact h.symKeyHash r' key hold hkey

theorem install_indexed {C : Crypto} {fs : Filters} {rnd : Entropy} {r : FilterRef}
    {watcher : Filter} (h : fs.Indexed C) (hnew : ¬ fs.Installed r) :
    (fs.install C rnd r watcher).1.Indexed C := by
  rcases install_cases C fs rnd r watcher with ⟨err, heq⟩ | ⟨id, hid, hkeys, heq⟩
  · rw [heq]
    exact h
  · rw [heq]
    refine enlist_indexed h hnew hid hkeys fun key (hkey : watcher.keySym = some key) => ?_
    rw [Filter.register, hkey]

/-! ### `Uninstall` -/

theorem mem_removeTopics {m : GoMap TopicType (Finset FilterRef)} {topics : List Bytes}
    {r r' : FilterRef} {topic : TopicType} :
    r' ∈ ((topics.foldl (fun m t =>
        match m.lookup (bytesToTopic t) with
        | none => m
        | some s => m.insert (bytesToTopic t) (s.erase r)) m).lookup topic).getD ∅ ↔
      r' ∈ (m.lookup topic).getD ∅ ∧ ¬ (r' = r ∧ ∃ t ∈ topics, bytesToTopic t = topic) := by
  induction topics generalizing m with
  | nil => simp
  | cons t rest ih =>
    rw [List.foldl_cons, ih]
    by_cases ht : bytesToTopic t = topic
    · subst ht
      cases hs : m.lookup (bytesToTopic t) with
      | none => simp [hs]
      | some s =>
        dsimp only
        rw [Finmap.lookup_insert, Option.getD_some, Option.getD_some, Finset.mem_erase]
        constructor
        · rintro ⟨⟨hne, hmem⟩, -⟩
          exact ⟨hmem, fun hr => hne hr.1⟩
        · rintro ⟨hmem, hr⟩
          have hne : r' ≠ r := fun heq => hr ⟨heq, t, List.mem_cons_self, rfl⟩
          exact ⟨⟨hne, hmem⟩, fun hr => hne hr.1⟩
    · have hlookup : (match m.lookup (bytesToTopic t) with
          | none => m
          | some s => m.insert (bytesToTopic t) (s.erase r)).lookup topic = m.lookup topic := by
        split
        · rfl
        · exact Finmap.lookup_insert_of_ne _ (Ne.symm ht)
      rw [hlookup]
      simp [ht]

theorem mem_removeFromTopicMatchers {fs : Filters} {r r' : FilterRef} {topic : TopicType} :
    r' ∈ (fs.removeFromTopicMatchers r).atTopic topic ↔
      r' ∈ fs.atTopic topic ∧ ¬ (r' = r ∧ ∃ t ∈ (fs.heap r).topics, bytesToTopic t = topic) :=
  mem_removeTopics

/-- The collection without the filter under an identifier. -/
def delist (fs : Filters) (id : String) (r : FilterRef) : Filters :=
  { fs.removeFromTopicMatchers r with watchers := fs.watchers.erase id }

theorem installed_delist {C : Crypto} {fs : Filters} {id : String} {r r' : FilterRef}
    (h : fs.Indexed C) (hid : fs.watchers.lookup id = some r) :
    (fs.delist id r).Installed r' ↔ r' ≠ r ∧ fs.Installed r' := by
  constructor
  · rintro ⟨id', hid'⟩
    obtain ⟨hne, hold⟩ := lookup_erase_iff.mp hid'
    refine ⟨?_, id', hold⟩
    rintro rfl
    exact hne (h.distinct id' id r' hold hid)
  · rintro ⟨hr, id', hold⟩
    refine ⟨id', lookup_erase_iff.mpr ⟨?_, hold⟩⟩
    rintro rfl
    rw [hid] at hold
    exact hr (Option.some.inj hold).symm

theorem delist_indexed {C : Crypto} {fs : Filters} {id : String} {r : FilterRef}
    (h : fs.Indexed C) (hid : fs.watchers.lookup id = some r) : (fs.delist id r).Indexed C := by
  constructor
  · intro r'
    rw [installed_delist h hid]
    show r' ∈ fs.allTopicsMatcher.erase r ↔ _
    rw [Finset.mem_erase, h.wildcard, and_assoc]
    exact Iff.rfl
  · intro topic r'
    rw [installed_delist h hid]
    show r' ∈ (fs.removeFromTopicMatchers r).atTopic topic ↔
      _ ∧ ∃ t ∈ (fs.heap r').topics, bytesToTopic t = topic
    rw [mem_removeFromTopicMatchers, h.listed]
    constructor
    · rintro ⟨⟨hr', ht⟩, hne⟩
      refine ⟨⟨?_, hr'⟩, ht⟩
      rintro rfl
      exact hne ⟨rfl, ht⟩
    · rintro ⟨⟨hne, hr'⟩, ht⟩
      exact ⟨⟨hr', ht⟩, fun h => hne h.1⟩
  · intro id₁ id₂ r' h₁ h₂
    exact h.distinct id₁ id₂ r' (lookup_erase_iff.mp h₁).2 (lookup_erase_iff.mp h₂).2
  · intro r' hr'
    exact h.oneKey r' ((installed_delist h hid).mp hr').2
  · intro r' key hr'
    exact h.symKeyHash r' key ((installed_delist h hid).mp hr').2

theorem uninstall_indexed {C : Crypto} {fs : Filters} {id : String} (h : fs.Indexed C) :
    (fs.uninstall id).1.Indexed C := by
  unfold uninstall
  cases hid : fs.watchers.lookup id with
  | none => exact h
  | some r => exact delist_indexed h hid

end Filters

/-- The operations on the collection. -/
inductive FilterAction
  | install (rnd : Entropy) (r : FilterRef) (watcher : Filter)
  | uninstall (id : String)

/-- One operation.  The filter that `Install` takes is not installed already. -/
def FilterStep (C : Crypto) (fs : Filters) : FilterAction → Filters → Prop
  | .install rnd r watcher, fs' => ¬ fs.Installed r ∧ fs' = (fs.install C rnd r watcher).1
  | .uninstall id, fs' => fs' = (fs.uninstall id).1

theorem FilterStep.indexed {C : Crypto} {fs fs' : Filters} {a : FilterAction}
    (hstep : FilterStep C fs a fs') (h : fs.Indexed C) : fs'.Indexed C := by
  cases a with
  | install rnd r watcher =>
    obtain ⟨hnew, rfl⟩ := hstep
    exact Filters.install_indexed h hnew
  | uninstall id =>
    cases hstep
    exact Filters.uninstall_indexed h

theorem Filters.run_indexed {C : Crypto} {acts : List FilterAction} {fs : Filters}
    (run : Run (FilterStep C) {} acts fs) : fs.Indexed C :=
  run.invariant (empty_indexed C) fun _ _ _ _ h hstep => FilterStep.indexed hstep h

/-! ### Look-up -/

namespace Filters

variable {C : Crypto} {fs fs' : Filters} {id : String} {r : FilterRef} {f : Filter}

/-- The slice of `getWatchersByTopic` has the installed filters without topics and those that list
the topic, each once. -/
theorem WatcherOrder.exact {topic : TopicType} {order : List FilterRef} (h : fs.Indexed C)
    (ho : fs.WatcherOrder topic order) :
    order.Nodup ∧ ∀ r, r ∈ order ↔ fs.Installed r ∧
      ((fs.heap r).topics = [] ∨ ∃ t ∈ (fs.heap r).topics, bytesToTopic t = topic) := by
  obtain ⟨all, listed, hall, hlisted, rfl⟩ := ho
  constructor
  · refine List.nodup_append'.mpr ⟨hall.1, hlisted.1, fun r hr hr' => ?_⟩
    have hnil := ((h.wildcard r).mp (hall.mem.mp hr)).2
    obtain ⟨-, t, ht, -⟩ := (h.listed topic r).mp (hlisted.mem.mp hr')
    rw [hnil] at ht
    cases ht
  · intro r
    rw [List.mem_append, hall.mem, hlisted.mem, h.wildcard, h.listed, and_or_left]

theorem exists_watcherOrder (fs : Filters) (topic : TopicType) :
    ∃ order, fs.WatcherOrder topic order := by
  obtain ⟨all, hall⟩ := exists_isOrder fs.allTopicsMatcher
  obtain ⟨listed, hlisted⟩ := exists_isOrder (fs.atTopic topic)
  exact ⟨all ++ listed, all, listed, hall, hlisted, rfl⟩

/-- The filter `f` is installed at the address `r` under `id`. -/
def Holds (fs : Filters) (id : String) (r : FilterRef) (f : Filter) : Prop :=
  fs.get id = some r ∧ fs.heap r = f

theorem Holds.install {rnd : Entropy} {r' : FilterRef} {watcher : Filter} (h : fs.Holds id r f)
    (hnew : ¬ fs.Installed r') : (fs.install C rnd r' watcher).1.Holds id r f := by
  obtain ⟨hget, hheap⟩ := h
  rcases install_cases C fs rnd r' watcher with ⟨err, heq⟩ | ⟨id', hid', -, heq⟩
  · rw [heq]
    exact ⟨hget, hheap⟩
  · have hne : r ≠ r' := by
      rintro rfl
      exact hnew ⟨id, hget⟩
    have hid : id ≠ id' := by
      rintro rfl
      exact hid' (Finmap.mem_of_lookup_eq_some hget)
    rw [heq]
    constructor
    · rw [get, enlist_watchers]
      exact lookup_insert_iff.mpr (.inr ⟨hid, hget⟩)
    · rw [enlist_heap, Function.update_of_ne hne, hheap]

theorem Holds.uninstall {id' : String} (h : fs.Holds id r f) (hne : id ≠ id') :
    (fs.uninstall id').1.Holds id r f := by
  unfold Filters.uninstall
  cases hid' : fs.watchers.lookup id' with
  | none => exact h
  | some r' => exact ⟨lookup_erase_iff.mpr ⟨hne, h.1⟩, h.2⟩

/-- A filter stays under its identifier, and stays as it is, until it is uninstalled. -/
theorem Holds.run {acts : List FilterAction} (h : fs.Holds id r f)
    (run : Run (FilterStep C) fs acts fs') (hkeep : .uninstall id ∉ acts) : fs'.Holds id r f := by
  refine run.invariant (P := fun fs => fs.Holds id r f) h fun fs a fs' ha h hstep => ?_
  cases a with
  | install rnd r' watcher =>
    obtain ⟨hnew, rfl⟩ := hstep
    exact h.install hnew
  | uninstall id' =>
    cases hstep
    refine h.uninstall ?_
    rintro rfl
    exact hkeep ha

/-- In every state that `Install` and `Uninstall` reach, the candidates for a topic are the
installed filters without topics and those that list it, each once; an installed filter is found
under its identifier until it is uninstalled, and not after that; and an `Install` that fails or an
`Uninstall` of an unknown identifier changes nothing. -/
theorem index_exact (C : Crypto) {acts : List FilterAction} {fs : Filters}
    (run : Run (FilterStep C) {} acts fs) :
    (∀ topic, (∃ order, fs.WatcherOrder topic order) ∧ ∀ order, fs.WatcherOrder topic order →
      order.Nodup ∧ ∀ r, r ∈ order ↔ fs.Installed r ∧
        ((fs.heap r).topics = [] ∨ ∃ t ∈ (fs.heap r).topics, bytesToTopic t = topic)) ∧
    (∀ rnd r watcher id more fs', ¬ fs.Installed r → (fs.install C rnd r watcher).2 = .ok id →
      Run (FilterStep C) (fs.install C rnd r watcher).1 more fs' → .uninstall id ∉ more →
        fs'.get id = some r ∧ fs'.heap r = watcher.register C id) ∧
    (∀ id, (fs.uninstall id).1.get id = none) ∧
    (∀ rnd r watcher err, (fs.install C rnd r watcher).2 = .error err →
      (fs.install C rnd r watcher).1 = fs) ∧
    ∀ id, fs.get id = none → fs.uninstall id = (fs, false) := by
  have hindexed := run_indexed run
  refine ⟨fun topic => ⟨fs.exists_watcherOrder topic, fun order ho => ho.exact hindexed⟩,
    fun rnd r watcher id more fs' hnew hid hrun hkeep => ?_, fun id => ?_,
    fun rnd r watcher err herr => ?_, fun id hid => ?_⟩
  · refine Holds.run ?_ hrun hkeep
    rcases install_cases C fs rnd r watcher with ⟨err, heq⟩ | ⟨id', -, -, heq⟩
    · rw [heq] at hid
      cases hid
    · rw [heq] at hid ⊢
      cases hid
      constructor
      · rw [get, enlist_watchers]
        exact lookup_insert_iff.mpr (.inl ⟨rfl, rfl⟩)
      · rw [enlist_heap, Function.update_self]
  · rw [uninstall, get]
    cases hid : fs.watchers.lookup id with
    | none => exact hid
    | some r => exact Finmap.lookup_erase id _
  · rcases install_cases C fs rnd r watcher with ⟨err', heq⟩ | ⟨id, -, -, heq⟩
    · rw [heq]
    · rw [heq] at herr
      cases herr
  · rw [get] at hid
    rw [uninstall, hid]

/-- A filter that lists one topic in two ways, and another topic by its first byte. -/
def sampleFilter : Filter := { topics := [[1, 2, 3, 4], [1, 2, 3, 4, 5], [9]] }

def sampleFilters : Filters :=
  (({} : Filters).install sampleCrypto constantEntropy 0 sampleFilter).1

theorem index_exact_sample :
    sampleFilters.get (hex (List.replicate 32 3)) = some 0 ∧
    (∃ order, sampleFilters.WatcherOrder #v[9, 0, 0, 0] order ∧ order.Nodup ∧ 0 ∈ order) ∧
    sampleFilters.uninstall "unknown" = (sampleFilters, false) := by
  have hnew : ¬ ({} : Filters).Installed 0 := by decide
  have hrun : Run (FilterStep sampleCrypto) {} [.install constantEntropy 0 sampleFilter]
      sampleFilters := .cons ⟨hnew, rfl⟩ (.nil _)
  obtain ⟨-, hget, -⟩ := index_exact sampleCrypto (.nil _)
  obtain ⟨hwatchers, -, -, -, hunknown⟩ := index_exact sampleCrypto hrun
  obtain ⟨⟨order, ho⟩, hexact⟩ := hwatchers #v[9, 0, 0, 0]
  have hid : (({} : Filters).install sampleCrypto constantEntropy 0 sampleFilter).2 =
      .ok (hex (List.replicate 32 3)) := by decide +kernel
  have hfound := hget constantEntropy 0 sampleFilter _ [] _ hnew hid (.nil _) (by simp)
  obtain ⟨hnodup, hmem⟩ := hexact order ho
  refine ⟨hfound.1, ⟨order, ho, hnodup, (hmem 0).mpr ⟨⟨_, hfound.1⟩, ?_⟩⟩,
    hunknown _ (by decide +kernel)⟩
  refine .inr ⟨[9], ?_, rfl⟩
  have hheap : sampleFilters.heap 0 = sampleFilter.register sampleCrypto _ := hfound.2
  rw [hheap]
  decide

end Filters

end Whisperv6
