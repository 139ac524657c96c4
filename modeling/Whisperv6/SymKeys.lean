import Whisperv6.KeyStore

/-! The store of symmetric keys over any calls.  `AddSymKey` derives an identifier from the name
that it is given, and the calls that look for a key, or delete one, take the name as it is: only a
name that has the length of an identifier is found. -/

namespace Whisperv6

open ProofKit

inductive SymKeyAction
  | addSymKey (id : Bytes) (key : Option Bytes)
  | generateSymKey (rnd rndID : Entropy)
  | addSymKeyDirect (key : Option Bytes) (rnd : Entropy)
  | addSymKeyFromPassword (password : Bytes) (rnd : Entropy)
  | deleteSymKey (id : Bytes)

/-- The store after a call. -/
def SymKeyAction.apply (kdf : Pbkdf2) (s : KeyStore) : SymKeyAction → KeyStore
  | .addSymKey id key => (s.addSymKey kdf id key).1
  | .generateSymKey rnd rndID => (s.generateSymKey rnd rndID).1
  | .addSymKeyDirect key rnd => (s.addSymKeyDirect key rnd).1
  | .addSymKeyFromPassword password rnd => (s.addSymKeyFromPassword kdf password rnd).1
  | .deleteSymKey id => (s.deleteSymKey id).1

def SymKeyStep (kdf : Pbkdf2) (s : KeyStore) (a : SymKeyAction) (t : KeyStore) : Prop :=
  t = a.apply kdf s

/-! ### Identifiers -/

theorem length_of_validateDataIntegrity {b : Bytes} {n : Nat}
    (h : validateDataIntegrity b n = true) : b.length = n := by
  simp only [validateDataIntegrity, Bool.and_eq_true, beq_iff_eq] at h
  exact h.1

theorem length_makeDeterministicID {kdf : Pbkdf2} {input id : Bytes} {keyLen : Nat}
    (h : makeDeterministicID kdf input keyLen = .ok id) : id.length = keyIDSize * 2 := by
  unfold makeDeterministicID at h
  dsimp only at h
  split at h
  · cases h
  · rename_i hvalid
    cases h
    rw [length_goString_hex, length_of_validateDataIntegrity (by simpa using hvalid)]

theorem length_toDeterministicID {kdf : Pbkdf2} {name id : Bytes}
    (h : toDeterministicID kdf name keyIDSize = .ok id) : id.length = keyIDSize * 2 := by
  unfold toDeterministicID at h
  split at h
  · exact length_makeDeterministicID h
  · rename_i hlen
    cases h
    exact not_not.mp hlen

theorem length_newSymKeyID {rnd : Entropy} {id : Bytes} (h : KeyStore.newSymKeyID rnd = .ok id) :
    id.length = keyIDSize * 2 := by
  unfold KeyStore.newSymKeyID generateRandomID at h
  cases hbuf : generateSecureRandomData rnd keyIDSize with
  | error err => simp [hbuf] at h
  | ok buf =>
    simp only [hbuf] at h
    split at h
    · cases h
    · rename_i hok
      split at hok
      · cases hok
      · rename_i hvalid
        cases hok
        cases h
        rw [length_goString_hex, length_of_validateDataIntegrity (by simpa using hvalid)]

/-! ### What a call does -/

/-- What a call makes of the symmetric keys: it fails, stores a key under a free identifier, or
deletes one. -/
inductive SymKeyEffect (kdf : Pbkdf2) (s : KeyStore) (a : SymKeyAction) : KeyStore → Prop
  | failed : SymKeyEffect kdf s a s
  | put (id : Bytes) (key : Option Bytes) (hlen : id.length = keyIDSize * 2)
      (hfree : s.symKey id = none)
      (hname : ∀ name k, a = .addSymKey name k → toDeterministicID kdf name keyIDSize = .ok id)
      (hdelete : ∀ name, a ≠ .deleteSymKey name) :
      SymKeyEffect kdf s a { s with symKeys := s.symKeys.insert id key }
  | deleted (id : Bytes) (ha : a = .deleteSymKey id) (hstored : (s.symKey id).isSome) :
      SymKeyEffect kdf s a { s with symKeys := s.symKeys.erase id }

theorem symKeyEffect_putSymKey {kdf : Pbkdf2} {s : KeyStore} {a : SymKeyAction} {ε : Type}
    {id : Bytes} (key : Option Bytes) (taken : ε) (hlen : id.length = keyIDSize * 2)
    (hname : ∀ name k, a = .addSymKey name k → toDeterministicID kdf name keyIDSize = .ok id)
    (hdelete : ∀ name, a ≠ .deleteSymKey name) :
    SymKeyEffect kdf s a (s.putSymKey id key taken).1 := by
  unfold KeyStore.putSymKey
  split
  · exact .failed
  · rename_i hfree
    exact .put id key hlen (by simpa using hfree) hname hdelete

theorem SymKeyAction.effect (kdf : Pbkdf2) (s : KeyStore) (a : SymKeyAction) :
    SymKeyEffect kdf s a (a.apply kdf s) := by
  cases a with
  | addSymKey name key =>
    simp only [apply, KeyStore.addSymKey]
    split
    · exact .failed
    · rename_i id hid
      refine symKeyEffect_putSymKey key _ (length_toDeterministicID hid) ?_ (by simp)
      rintro name' k ⟨⟩
      exact hid
  | generateSymKey rnd rndID =>
    simp only [apply, KeyStore.generateSymKey]
    split
    · exact .failed
    split
    · exact .failed
    split
    · exact .failed
    · rename_i id hid
      exact symKeyEffect_putSymKey _ _ (length_newSymKeyID hid) (by simp) (by simp)
  | addSymKeyDirect key rnd =>
    simp only [apply, KeyStore.addSymKeyDirect]
    split
    · exact .failed
    split
    · exact .failed
    · rename_i id hid
      exact symKeyEffect_putSymKey _ _ (length_newSymKeyID hid) (by simp) (by simp)
  | addSymKeyFromPassword password rnd =>
    simp only [apply, KeyStore.addSymKeyFromPassword]
    split
    · exact .failed
    split
    · exact .failed
    · rename_i id hid _
      exact symKeyEffect_putSymKey _ _ (length_newSymKeyID hid) (by simp) (by simp)
  | deleteSymKey id =>
    simp only [apply, KeyStore.deleteSymKey]
    split
    · exact .deleted id rfl ‹_›
    · exact .failed

section Effects

variable {kdf : Pbkdf2} {s t : KeyStore} {a : SymKeyAction}

theorem symKey_insert (s : KeyStore) (id other : Bytes) (key : Option Bytes) :
    ({ s with symKeys := s.symKeys.insert id key } : KeyStore).symKey other =
      if other = id then key else s.symKey other := by
  unfold KeyStore.symKey
  split
  · rename_i heq
    rw [heq, Finmap.lookup_insert, Option.join_some]
  · rename_i hne
    rw [Finmap.lookup_insert_of_ne _ hne]

theorem symKey_erase (s : KeyStore) (id other : Bytes) :
    ({ s with symKeys := s.symKeys.erase id } : KeyStore).symKey other =
      if other = id then none else s.symKey other := by
  unfold KeyStore.symKey
  split
  · rename_i heq
    rw [heq, Finmap.lookup_erase]
    rfl
  · rename_i hne
    rw [Finmap.lookup_erase_ne hne]

/-- All keys are stored under identifiers. -/
def KeyStore.SymIDs (s : KeyStore) : Prop :=
  ∀ id, (s.symKey id).isSome → id.length = keyIDSize * 2

theorem SymKeyEffect.symIDs (h : SymKeyEffect kdf s a t) (hs : s.SymIDs) : t.SymIDs := by
  intro other hother
  cases h with
  | failed => exact hs other hother
  | put id key hlen =>
    rw [symKey_insert] at hother
    split at hother
    · rename_i heq
      rw [heq]
      exact hlen
    · exact hs other hother
  | deleted id =>
    rw [symKey_erase] at hother
    split at hother
    · cases hother
    · exact hs other hother

/-- A stored key stays until it is deleted under its identifier. -/
theorem SymKeyEffect.kept (h : SymKeyEffect kdf s a t) {id key : Bytes}
    (hkey : s.symKey id = some key) (ha : a ≠ .deleteSymKey id) : t.symKey id = some key := by
  cases h with
  | failed => exact hkey
  | put id' key' _ hfree =>
    rw [symKey_insert, if_neg, hkey]
    rintro rfl
    rw [hkey] at hfree
    cases hfree
  | deleted id' ha' =>
    rw [symKey_erase, if_neg, hkey]
    rintro rfl
    exact ha ha'

/-- The name that a call is about. -/
def SymKeyAction.Names (name : Bytes) : SymKeyAction → Prop
  | .addSymKey n _ => n = name
  | .deleteSymKey n => n = name
  | _ => False

/-- A call about a name leaves what is stored under other identifiers than that of the name. -/
theorem SymKeyEffect.other (h : SymKeyEffect kdf s a t) (hs : s.SymIDs) {name other : Bytes}
    (ha : a.Names name) (hother : toDeterministicID kdf name keyIDSize ≠ .ok other) :
    t.symKey other = s.symKey other := by
  cases h with
  | failed => rfl
  | put id key _ _ hname hdelete =>
    cases a with
    | addSymKey n k =>
      obtain rfl : n = name := ha
      rw [symKey_insert, if_neg]
      rintro rfl
      exact hother (hname n k rfl)
    | deleteSymKey n => exact absurd rfl (hdelete n)
    | _ => exact ha.elim
  | deleted id ha' hstored =>
    subst ha'
    obtain rfl : id = name := ha
    rw [symKey_erase, if_neg]
    rintro rfl
    -- what is stored under the name is stored under its identifier
    exact hother (if_neg (not_not.mpr (hs other hstored)))

end Effects

/-! ### The store -/

/-- The key is found and deleted under the name. -/
structure KeyStore.Finds (s : KeyStore) (name id key : Bytes) : Prop where
  has : s.hasSymKey name = true
  get : s.getSymKey name = .ok key
  delete : (s.deleteSymKey name).2 = true
  deleted : (s.deleteSymKey name).1.hasSymKey id = false ∧
    (s.deleteSymKey name).1.hasSymKey name = false

theorem KeyStore.finds_of_symKey {s : KeyStore} {id key : Bytes} (h : s.symKey id = some key) :
    s.Finds id id key := by
  have hdelete : s.deleteSymKey id = ({ s with symKeys := s.symKeys.erase id }, true) := by
    simp [deleteSymKey, h]
  have hgone : (s.deleteSymKey id).1.hasSymKey id = false := by
    rw [hdelete, hasSymKey, symKey_erase, if_pos rfl]
    rfl
  exact ⟨by simp [hasSymKey, h], by simp [getSymKey, h], by rw [hdelete], hgone, hgone⟩

theorem KeyStore.addSymKey_ok {kdf : Pbkdf2} {s t : KeyStore} {name id key : Bytes}
    (h : s.addSymKey kdf name (some key) = (t, .ok id)) :
    toDeterministicID kdf name keyIDSize = .ok id ∧ t.symKey id = some key := by
  unfold addSymKey at h
  split at h
  · cases h
  · rename_i id' hid
    unfold putSymKey at h
    split at h
    · cases h
    · cases h
      exact ⟨hid, by rw [symKey_insert, if_pos rfl]⟩

theorem symRun_symIDs {kdf : Pbkdf2} {s t : KeyStore} {acts : List SymKeyAction} (hs : s.SymIDs)
    (run : Run (SymKeyStep kdf) s acts t) : t.SymIDs := by
  refine run.invariant hs fun u a u' _ hu hstep => ?_
  obtain rfl : u' = _ := hstep
  exact (a.effect kdf u).symIDs hu

/-- A key that `AddSymKey` has stored is found, until it is deleted, under the identifier that the
call returned; under its name it is found exactly when the name has the length of an identifier.  No
call changes what is stored under another identifier than that of its name, and none but a deletion
changes what is stored at all. -/
theorem named_symKey_iff {kdf : Pbkdf2} {acts more : List SymKeyAction} {s t u : KeyStore}
    {name id key : Bytes} (run : Run (SymKeyStep kdf) {} acts s)
    (hadd : s.addSymKey kdf name (some key) = (t, .ok id))
    (run' : Run (SymKeyStep kdf) t more u) (hkept : SymKeyAction.deleteSymKey id ∉ more) :
    u.Finds id id key ∧ (u.Finds name id key ↔ name.length = keyIDSize * 2) ∧
    (∀ (a : SymKeyAction) (n other : Bytes), a.Names n →
      toDeterministicID kdf n keyIDSize ≠ .ok other →
      (a.apply kdf u).symKey other = u.symKey other) ∧
    ∀ (a : SymKeyAction) (other k : Bytes), u.symKey other = some k → a ≠ .deleteSymKey other →
      (a.apply kdf u).symKey other = some k := by
  obtain ⟨hid, hkey⟩ := KeyStore.addSymKey_ok hadd
  have hs : s.SymIDs := symRun_symIDs (fun _ h => by simp [KeyStore.symKey] at h) run
  have ht : t.SymIDs := by
    have heffect := (SymKeyAction.addSymKey name (some key)).effect kdf s
    rw [SymKeyAction.apply, hadd] at heffect
    exact heffect.symIDs hs
  have hu : u.SymIDs := symRun_symIDs ht run'
  have hukey : u.symKey id = some key := by
    refine run'.invariant (P := fun u => u.symKey id = some key) hkey fun v a v' ha hv hstep => ?_
    obtain rfl : v' = _ := hstep
    refine (a.effect kdf v).kept hv ?_
    rintro rfl
    exact hkept ha
  refine ⟨KeyStore.finds_of_symKey hukey, ⟨fun hfinds => hu name hfinds.has, fun hlen => ?_⟩,
    fun a n other hn hother => (a.effect kdf u).other hu hn hother,
    fun a other k hk ha => (a.effect kdf u).kept hk ha⟩
  have hsame : name = id := by
    rw [toDeterministicID, if_neg (not_not.mpr hlen)] at hid
    exact Except.ok.inj hid
  rw [hsame]
  exact KeyStore.finds_of_symKey hukey

/-- A derivation that always gives the same bytes. -/
def constantKdf : Pbkdf2 := fun _ _ n => List.replicate n 1

/-- A name with the length of an identifier. -/
def longName (c : UInt8) : Bytes := List.replicate 64 c

/-- A key that was stored between calls for other names, of which one was deleted since. -/
theorem named_symKey_iff_long :
    ∃ s t u, Run (SymKeyStep constantKdf) {} [.addSymKey (longName 98) (some [7])] s ∧
      s.addSymKey constantKdf (longName 97) (some [5]) = (t, .ok (longName 97)) ∧
      Run (SymKeyStep constantKdf) t
        [.addSymKey (longName 99) (some [9]), .deleteSymKey (longName 98)] u ∧
      u.Finds (longName 97) (longName 97) [5] ∧ u.hasSymKey (longName 98) = false := by
  have run : Run (SymKeyStep constantKdf) {} [.addSymKey (longName 98) (some [7])] _ :=
    .cons rfl (.nil _)
  have run' : ∀ t, Run (SymKeyStep constantKdf) t
      [.addSymKey (longName 99) (some [9]), .deleteSymKey (longName 98)] _ :=
    fun t => .cons rfl (.cons rfl (.nil _))
  refine ⟨_, _, _, run, rfl, run' _, ?_, by decide +kernel⟩
  exact (named_symKey_iff run rfl (run' _) (by simp [longName])).2.1.mpr rfl

/-- A key that was stored under the name `a` is not there under this name: it is neither found nor
deleted. -/
theorem not_named_symKey :
    ∃ t id, ({} : KeyStore).addSymKey constantKdf (goString "a") (some [5]) = (t, .ok id) ∧
      t.hasSymKey id = true ∧ t.hasSymKey (goString "a") = false ∧
      t.getSymKey (goString "a") = .error (newError "non-existent key ID") ∧
      t.deleteSymKey (goString "a") = (t, false) := by
  let id := goString (hex (constantKdf (goString "a") 4096 keyIDSize))
  have hid : toDeterministicID constantKdf (goString "a") keyIDSize = .ok id := rfl
  have hnone : ∀ key, ({ symKeys := Finmap.insert id key ∅ } : KeyStore).symKey (goString "a") =
      none := by
    intro key
    rw [symKey_insert {} id (goString "a") key, if_neg]
    · rfl
    · intro heq
      have hlen := length_toDeterministicID hid
      rw [← heq] at hlen
      exact absurd hlen (by decide)
  refine ⟨{ symKeys := Finmap.insert id (some [5]) ∅ }, id, ?_, ?_, ?_, ?_, ?_⟩
  · simp only [KeyStore.addSymKey, hid]
    rfl
  · rw [KeyStore.hasSymKey, symKey_insert {} id id, if_pos rfl]
    rfl
  · rw [KeyStore.hasSymKey, hnone]
    rfl
  · rw [KeyStore.getSymKey, hnone]
  · rw [KeyStore.deleteSymKey, hnone]
    rfl

end Whisperv6
