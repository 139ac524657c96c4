import Whisperv6.KeyStore

/-! The store of private keys over any calls.  Every key is stored under the identifier of its own
public key, and the public key and the identifier are two names of the same. -/

namespace Whisperv6

open ProofKit

inductive KeyAction
  | newKeyPair (first second : Except GoError PrivateKey)
  | addKeyPair (key : PrivateKey)
  | selectKeyPair (key : PrivateKey)
  | deleteKeyPair (key : Bytes)
  | deleteKeyPairs

/-- One call that returns. -/
def KeyStep (kdf : Pbkdf2) (s : KeyStore) (a : KeyAction) (t : KeyStore) : Prop :=
  match a with
  | .newKeyPair first second => ∃ result, s.newKeyPair kdf first second = some (t, result)
  | .addKeyPair key => ∃ result, s.addKeyPair kdf key = some (t, result)
  | .selectKeyPair key => ∃ result, s.selectKeyPair kdf key = some (t, result)
  | .deleteKeyPair key => t = (s.deleteKeyPair kdf key).1
  | .deleteKeyPairs => t = s.deleteKeyPairs

/-! ### The calls in terms of identifiers -/

namespace KeyStore

variable {kdf : Pbkdf2} {inputs : Set Bytes} (h : Derives kdf inputs) (s : KeyStore)
  {key : PrivateKey} {name : Bytes}

include h

theorem hasKeyPair_eq (id : Bytes) :
    s.hasKeyPair kdf id = decide (canonical kdf id ∈ s.privateKeys) := by
  rw [hasKeyPair, toDeterministicID_ok h]

theorem getPrivateKey_eq_ok (id : Bytes) :
    s.getPrivateKey kdf id = .ok key ↔ s.privateKeys.lookup (canonical kdf id) = some key := by
  rw [getPrivateKey, toDeterministicID_ok h]
  dsimp only
  split <;> simp_all

theorem deleteKeyPair_eq (id : Bytes) :
    s.deleteKeyPair kdf id =
      ({ s with privateKeys := s.privateKeys.erase (canonical kdf id) },
        decide (canonical kdf id ∈ s.privateKeys)) := by
  rw [deleteKeyPair, toDeterministicID_ok h]
  dsimp only
  split
  · rename_i hmem
    rw [decide_eq_true hmem]
  · rename_i hmem
    rw [decide_eq_false hmem, erase_of_notMem hmem]

theorem addKeyPair_eq (hname : hexPublicKey key.publicKey = some name) :
    s.addKeyPair kdf key = some (if idOf kdf name ∈ s.privateKeys then s else
      { s with privateKeys := s.privateKeys.insert (idOf kdf name) key }, .ok (idOf kdf name)) := by
  rw [addKeyPair, hname, Option.map_some, makeDeterministicID_ok h]
  dsimp only
  rw [s.hasKeyPair_eq h, canonical_idOf h]
  by_cases hmem : idOf kdf name ∈ s.privateKeys <;> simp [hmem]

theorem newKeyPair_eq {first second : Except GoError PrivateKey}
    (hkey : generateKeyPair first second = .ok key)
    (hname : hexPublicKey key.publicKey = some name) :
    ∃ result, s.newKeyPair kdf first second = some (if idOf kdf name ∈ s.privateKeys then s else
      { s with privateKeys := s.privateKeys.insert (idOf kdf name) key }, result) := by
  have hcanonical : canonical kdf name = idOf kdf name := if_pos (length_hexPublicKey hname)
  rw [newKeyPair, hkey]
  dsimp only
  rw [hname, Option.map_some, toDeterministicID_ok h, hcanonical]
  dsimp only
  by_cases hmem : idOf kdf name ∈ s.privateKeys <;> simp [hmem]

theorem selectKeyPair_eq (hname : hexPublicKey key.publicKey = some name) :
    s.selectKeyPair kdf key =
      some ({ s with privateKeys := Finmap.insert (idOf kdf name) key ∅ }, none) := by
  rw [selectKeyPair, hname, Option.map_some, makeDeterministicID_ok h]

end KeyStore

/-! ### Adding and removing -/

namespace KeyAction

/-- The call brings the key. -/
def Adds (key : PrivateKey) : KeyAction → Prop
  | .newKeyPair first second => generateKeyPair first second = .ok key
  | .addKeyPair k => k = key
  | .selectKeyPair k => k = key
  | .deleteKeyPair _ => False
  | .deleteKeyPairs => False

/-- The call brings a key with the public key `name`. -/
def AddsName (name : Bytes) (a : KeyAction) : Prop :=
  ∃ key, a.Adds key ∧ hexPublicKey key.publicKey = some name

/-- The call removes a key with the public key `name`: it names the public key or its identifier, or
it removes all keys, or all others than one with another public key. -/
def Removes (kdf : Pbkdf2) (name : Bytes) : KeyAction → Prop
  | .newKeyPair _ _ => False
  | .addKeyPair _ => False
  | .selectKeyPair k => hexPublicKey k.publicKey ≠ some name
  | .deleteKeyPair n => n = name ∨ n = idOf kdf name
  | .deleteKeyPairs => True

/-- The string from which the call takes an identifier. -/
def Names (name : Bytes) : KeyAction → Prop
  | .newKeyPair first second =>
    ∃ key, generateKeyPair first second = .ok key ∧ hexPublicKey key.publicKey = some name
  | .addKeyPair k => hexPublicKey k.publicKey = some name
  | .selectKeyPair k => hexPublicKey k.publicKey = some name
  | .deleteKeyPair n => n = name
  | .deleteKeyPairs => False

end KeyAction

/-- The strings from which the calls derive identifiers. -/
def derived (acts : List KeyAction) : Set Bytes :=
  { name | name.length ≠ keyIDSize * 2 ∧ ∃ a ∈ acts, a.Names name }

/-- What a call that returns makes of the keys. -/
inductive KeyEffect (kdf : Pbkdf2) (m : GoMap Bytes PrivateKey) (a : KeyAction) :
    GoMap Bytes PrivateKey → Prop
  | failed (hadds : ∀ key, ¬ a.Adds key) (hremoves : ∀ name, ¬ a.Removes kdf name) :
      KeyEffect kdf m a m
  | present (key : PrivateKey) (name : Bytes) (hadds : ∀ k, a.Adds k ↔ k = key)
      (hname : hexPublicKey key.publicKey = some name) (hremoves : ∀ n, ¬ a.Removes kdf n)
      (hmem : idOf kdf name ∈ m) : KeyEffect kdf m a m
  | added (key : PrivateKey) (name : Bytes) (hadds : ∀ k, a.Adds k ↔ k = key)
      (hname : hexPublicKey key.publicKey = some name) (hnames : a.Names name)
      (hremoves : ∀ n, ¬ a.Removes kdf n) (hnew : idOf kdf name ∉ m) :
      KeyEffect kdf m a (m.insert (idOf kdf name) key)
  | selected (key : PrivateKey) (name : Bytes) (hadds : ∀ k, a.Adds k ↔ k = key)
      (hname : hexPublicKey key.publicKey = some name) (hnames : a.Names name)
      (hremoves : ∀ n, a.Removes kdf n ↔ n ≠ name) :
      KeyEffect kdf m a (Finmap.insert (idOf kdf name) key ∅)
  | deleted (name : Bytes) (hadds : ∀ k, ¬ a.Adds k) (hnames : a.Names name)
      (hremoves : ∀ n, a.Removes kdf n ↔ name = n ∨ name = idOf kdf n) :
      KeyEffect kdf m a (m.erase (canonical kdf name))
  | cleared (hadds : ∀ k, ¬ a.Adds k) (hremoves : ∀ n, a.Removes kdf n) : KeyEffect kdf m a ∅

section Steps

variable {kdf : Pbkdf2} {inputs : Set Bytes} {s t : KeyStore} {a : KeyAction}

theorem KeyStep.effect (h : Derives kdf inputs) (hstep : KeyStep kdf s a t) :
    KeyEffect kdf s.privateKeys a t.privateKeys := by
  -- a key is added unless its identifier is taken
  have hadd : ∀ {key name}, (∀ k, a.Adds k ↔ k = key) → hexPublicKey key.publicKey = some name →
      a.Names name → (∀ n, ¬ a.Removes kdf n) → t = (if idOf kdf name ∈ s.privateKeys then s else
        { s with privateKeys := s.privateKeys.insert (idOf kdf name) key }) →
      KeyEffect kdf s.privateKeys a t.privateKeys := by
    intro key name hadds hname hnames hremoves ht
    rw [ht]
    split
    · exact .present key name hadds hname hremoves ‹_›
    · exact .added key name hadds hname hnames hremoves ‹_›
  cases a with
  | newKeyPair first second =>
    obtain ⟨result, hresult⟩ := hstep
    cases hkey : generateKeyPair first second with
    | error err =>
      simp only [KeyStore.newKeyPair, hkey] at hresult
      cases hresult
      exact .failed (by simp [KeyAction.Adds, hkey]) (by simp [KeyAction.Removes])
    | ok key =>
      cases hname : hexPublicKey key.publicKey with
      | none => simp [KeyStore.newKeyPair, hkey, hname] at hresult
      | some name =>
        obtain ⟨result', heq⟩ := s.newKeyPair_eq h hkey hname
        rw [heq] at hresult
        cases hresult
        have hadds : ∀ k, (KeyAction.newKeyPair first second).Adds k ↔ k = key := by
          simp [KeyAction.Adds, hkey, eq_comm]
        exact hadd hadds hname ⟨key, hkey, hname⟩ (fun n => not_false) rfl
  | addKeyPair key =>
    obtain ⟨result, hresult⟩ := hstep
    cases hname : hexPublicKey key.publicKey with
    | none => simp [KeyStore.addKeyPair, hname] at hresult
    | some name =>
      rw [s.addKeyPair_eq h hname] at hresult
      cases hresult
      exact hadd (fun k => eq_comm) hname hname (fun n => not_false) rfl
  | selectKeyPair key =>
    obtain ⟨result, hresult⟩ := hstep
    cases hname : hexPublicKey key.publicKey with
    | none => simp [KeyStore.selectKeyPair, hname] at hresult
    | some name =>
      rw [s.selectKeyPair_eq h hname] at hresult
      cases hresult
      refine .selected key name (fun k => eq_comm) hname hname fun n => ?_
      simp [KeyAction.Removes, hname, eq_comm]
  | deleteKeyPair name =>
    obtain rfl : t = _ := hstep
    rw [s.deleteKeyPair_eq h]
    exact .deleted name (fun k => not_false) rfl fun n => Iff.rfl
  | deleteKeyPairs =>
    obtain rfl : t = _ := hstep
    exact .cleared (fun k => not_false) fun n => trivial

/-- Every key is stored under the identifier of its own public key. -/
def Keyed (kdf : Pbkdf2) (m : GoMap Bytes PrivateKey) : Prop :=
  ∀ id key, m.lookup id = some key →
    ∃ name, hexPublicKey key.publicKey = some name ∧ id = idOf kdf name

theorem KeyEffect.keyed {m m' : GoMap Bytes PrivateKey} (h : KeyEffect kdf m a m')
    (hm : Keyed kdf m) : Keyed kdf m' := by
  intro id k hk
  cases h with
  | failed => exact hm id k hk
  | present => exact hm id k hk
  | added key name _ hname =>
    rcases lookup_insert_iff.mp hk with ⟨rfl, rfl⟩ | ⟨-, hold⟩
    · exact ⟨name, hname, rfl⟩
    · exact hm id k hold
  | selected key name _ hname =>
    rcases lookup_insert_iff.mp hk with ⟨rfl, rfl⟩ | ⟨-, hold⟩
    · exact ⟨name, hname, rfl⟩
    · simp at hold
  | deleted name => exact hm id k (lookup_erase_iff.mp hk).2
  | cleared => simp at hk

variable {m m' : GoMap Bytes PrivateKey} {name : Bytes} {k : PrivateKey}

/-- A key that is stored after a call was brought by the call, or it was stored before and the call
does not remove it. -/
theorem KeyEffect.lookup_some (h : Derives kdf inputs) (hname : name ∈ inputs)
    (hlen : name.length ≠ keyIDSize * 2)
    (hinputs : ∀ n, n.length ≠ keyIDSize * 2 → a.Names n → n ∈ inputs)
    (heffect : KeyEffect kdf m a m') (hk : m'.lookup (idOf kdf name) = some k) :
    (a.Adds k ∧ hexPublicKey k.publicKey = some name) ∨
      m.lookup (idOf kdf name) = some k ∧ ¬ a.Removes kdf name := by
  have hsame : ∀ {key : PrivateKey} {n : Bytes}, hexPublicKey key.publicKey = some n →
      a.Names n → idOf kdf name = idOf kdf n → n = name := by
    intro key n hn hnames heq
    exact idOf_inj h hname (hinputs n (length_hexPublicKey hn) hnames) heq.symm
  cases heffect with
  | failed hadds hremoves => exact .inr ⟨hk, hremoves name⟩
  | present key n hadds hn hremoves => exact .inr ⟨hk, hremoves name⟩
  | added key n hadds hn hnames hremoves hnew =>
    rcases lookup_insert_iff.mp hk with ⟨heq, rfl⟩ | ⟨-, hold⟩
    · exact .inl ⟨(hadds k).mpr rfl, by rw [hn, hsame hn hnames heq]⟩
    · exact .inr ⟨hold, hremoves name⟩
  | selected key n hadds hn hnames hremoves =>
    rcases lookup_insert_iff.mp hk with ⟨heq, rfl⟩ | ⟨-, hold⟩
    · exact .inl ⟨(hadds k).mpr rfl, by rw [hn, hsame hn hnames heq]⟩
    · simp at hold
  | deleted n hadds hnames hremoves =>
    obtain ⟨hne, hold⟩ := lookup_erase_iff.mp hk
    refine .inr ⟨hold, fun hremove => hne ?_⟩
    exact ((canonical_eq_iff h hname hlen fun hn => hinputs n hn hnames).mpr
      ((hremoves name).mp hremove)).symm
  | cleared => simp at hk

/-- After a call that brings a key, one with its public key is stored. -/
theorem KeyEffect.mem_of_adds (heffect : KeyEffect kdf m a m') (hadds : a.AddsName name) :
    idOf kdf name ∈ m' := by
  obtain ⟨key, hkey, hname⟩ := hadds
  cases heffect with
  | failed hnone => exact absurd hkey (hnone key)
  | present key' n hall hn hremoves hmem =>
    cases (hall key).mp hkey
    rw [hname] at hn
    cases hn
    exact hmem
  | added key' n hall hn =>
    cases (hall key).mp hkey
    rw [hname] at hn
    cases hn
    exact Finmap.mem_insert.mpr (.inl rfl)
  | selected key' n hall hn =>
    cases (hall key).mp hkey
    rw [hname] at hn
    cases hn
    exact Finmap.mem_insert.mpr (.inl rfl)
  | deleted n hnone => exact absurd hkey (hnone key)
  | cleared hnone => exact absurd hkey (hnone key)

/-- A call that does not remove a key leaves one with its public key. -/
theorem KeyEffect.mem_of_kept (h : Derives kdf inputs) (hname : name ∈ inputs)
    (hlen : name.length ≠ keyIDSize * 2)
    (hinputs : ∀ n, n.length ≠ keyIDSize * 2 → a.Names n → n ∈ inputs)
    (heffect : KeyEffect kdf m a m') (hkept : ¬ a.Removes kdf name)
    (hmem : idOf kdf name ∈ m) : idOf kdf name ∈ m' := by
  cases heffect with
  | failed => exact hmem
  | present => exact hmem
  | added => exact Finmap.mem_insert.mpr (.inr hmem)
  | selected key n _ _ _ hremoves =>
    have hn : name = n := not_not.mp fun hne => hkept ((hremoves name).mpr hne)
    rw [hn]
    exact Finmap.mem_insert.mpr (.inl rfl)
  | deleted n _ hnames hremoves =>
    refine Finmap.mem_erase.mpr ⟨fun heq => hkept ((hremoves name).mpr ?_), hmem⟩
    exact (canonical_eq_iff h hname hlen fun hn => hinputs n hn hnames).mp heq.symm
  | cleared _ hremoves => exact absurd (hremoves name) hkept

end Steps

/-! ### The store -/

/-- What a store answers about the key `key` with the public key `name` after the calls `acts`.
The public key and the identifier `id` of it are two names of the same. -/
structure KeyStore.Serves (kdf : Pbkdf2) (acts : List KeyAction) (s : KeyStore) (key : PrivateKey)
    (name id : Bytes) : Prop where
  identifier : makeDeterministicID kdf name keyIDSize = .ok id
  hasKeyPair : s.hasKeyPair kdf id = s.hasKeyPair kdf name
  getPrivateKey : s.getPrivateKey kdf id = s.getPrivateKey kdf name
  present : s.hasKeyPair kdf name = true ↔
    Since (KeyAction.AddsName name) (KeyAction.Removes kdf name) acts
  found : s.hasKeyPair kdf name = true ↔ ∃ k, s.getPrivateKey kdf name = .ok k
  brought : ∀ k, s.getPrivateKey kdf name = .ok k → hexPublicKey k.publicKey = some name ∧
    Since (KeyAction.Adds k) (KeyAction.Removes kdf name) acts
  delete : s.deleteKeyPair kdf name =
    ({ s with privateKeys := s.privateKeys.erase id }, s.hasKeyPair kdf name)
  deleteID : s.deleteKeyPair kdf id = s.deleteKeyPair kdf name
  add : s.hasKeyPair kdf name = true → s.addKeyPair kdf key = some (s, .ok id)
  select : s.selectKeyPair kdf key =
    some ({ s with privateKeys := Finmap.insert id key ∅ }, none)

section Runs

variable {kdf : Pbkdf2} {acts : List KeyAction} {s : KeyStore}

theorem run_keyed {inputs : Set Bytes} (h : Derives kdf inputs)
    (run : Run (KeyStep kdf) {} acts s) : Keyed kdf s.privateKeys := by
  have hempty : Keyed kdf ({} : KeyStore).privateKeys := by
    intro id key hkey
    simp at hkey
  exact run.invariant (P := fun s => Keyed kdf s.privateKeys) hempty
    fun _ _ _ _ hs hstep => (hstep.effect h).keyed hs

variable {name : Bytes} (h : Derives kdf (insert name (derived acts)))
  (hlen : name.length ≠ keyIDSize * 2) (run : Run (KeyStep kdf) {} acts s)

include h hlen run

theorem run_lookup_some {k : PrivateKey} (hk : s.privateKeys.lookup (idOf kdf name) = some k) :
    Since (fun a => a.Adds k ∧ hexPublicKey k.publicKey = some name) (KeyAction.Removes kdf name)
      acts := by
  refine (run.since_or (P := fun s => s.privateKeys.lookup (idOf kdf name) = some k)
    (fun s a t ha hstep ht => ?_) hk).resolve_right fun hstart => ?_
  · refine (hstep.effect h).lookup_some h (Set.mem_insert _ _) hlen (fun n hn hnames => ?_) ht
    exact Set.mem_insert_of_mem _ ⟨hn, a, ha, hnames⟩
  · simp at hstart

theorem run_mem (hsince : Since (KeyAction.AddsName name) (KeyAction.Removes kdf name) acts) :
    idOf kdf name ∈ s.privateKeys := by
  refine run.of_since (P := fun s => idOf kdf name ∈ s.privateKeys)
    (fun s a t _ hstep hadds => (hstep.effect h).mem_of_adds hadds)
    (fun s a t ha hstep hkept hs => ?_) hsince
  refine (hstep.effect h).mem_of_kept h (Set.mem_insert _ _) hlen (fun n hn hnames => ?_) hkept hs
  exact Set.mem_insert_of_mem _ ⟨hn, a, ha, hnames⟩

end Runs

theorem KeyStore.serves {kdf : Pbkdf2} {acts : List KeyAction} {s : KeyStore} {key : PrivateKey}
    {name : Bytes} (run : Run (KeyStep kdf) {} acts s)
    (hname : hexPublicKey key.publicKey = some name)
    (h : Derives kdf (insert name (derived acts))) :
    s.Serves kdf acts key name (idOf kdf name) := by
  have hlen := length_hexPublicKey hname
  have hcanonical : canonical kdf name = idOf kdf name := if_pos hlen
  have hget : ∀ k, s.getPrivateKey kdf name = .ok k ↔
      s.privateKeys.lookup (idOf kdf name) = some k := by
    intro k
    rw [s.getPrivateKey_eq_ok h, hcanonical]
  have hhas : s.hasKeyPair kdf name = true ↔ idOf kdf name ∈ s.privateKeys := by
    rw [s.hasKeyPair_eq h, hcanonical, decide_eq_true_iff]
  have hfound : s.hasKeyPair kdf name = true ↔ ∃ k, s.getPrivateKey kdf name = .ok k := by
    rw [hhas, Finmap.mem_iff]
    exact exists_congr fun k => (hget k).symm
  have hbrought : ∀ k, s.getPrivateKey kdf name = .ok k →
      Since (fun a => a.Adds k ∧ hexPublicKey k.publicKey = some name)
        (KeyAction.Removes kdf name) acts :=
    fun k hk => run_lookup_some h hlen run ((hget k).mp hk)
  constructor
  case identifier => exact makeDeterministicID_ok h name
  case hasKeyPair => rw [s.hasKeyPair_eq h, s.hasKeyPair_eq h, canonical_idOf h, hcanonical]
  case getPrivateKey =>
    unfold KeyStore.getPrivateKey
    rw [toDeterministicID_ok h, toDeterministicID_ok h, canonical_idOf h, hcanonical]
  case present =>
    refine ⟨fun hhasKey => ?_, fun hsince => hhas.mpr (run_mem h hlen run hsince)⟩
    obtain ⟨k, hk⟩ := hfound.mp hhasKey
    exact (hbrought k hk).mono fun a ha => ⟨k, ha⟩
  case found => exact hfound
  case brought =>
    intro k hk
    obtain ⟨before, a, after, -, ⟨-, hpublic⟩, -⟩ := hbrought k hk
    exact ⟨hpublic, (hbrought k hk).mono fun a ha => ha.1⟩
  case delete => rw [s.deleteKeyPair_eq h, s.hasKeyPair_eq h, hcanonical]
  case deleteID => rw [s.deleteKeyPair_eq h, s.deleteKeyPair_eq h, canonical_idOf h, hcanonical]
  case add =>
    intro hhasKey
    rw [s.addKeyPair_eq h hname, if_pos (hhas.mp hhasKey)]
  case select => exact s.selectKeyPair_eq h hname

/-- After any calls, every private key is stored under the identifier of its own public key and
under no other, and the store answers for every key as it should, by the public key and by the
identifier alike. -/
theorem identity_store {kdf : Pbkdf2} {acts : List KeyAction} {s : KeyStore}
    (run : Run (KeyStep kdf) {} acts s) (hkdf : Derives kdf (derived acts)) :
    (∀ id key, s.privateKeys.lookup id = some key →
      (∃ name, hexPublicKey key.publicKey = some name ∧
        makeDeterministicID kdf name keyIDSize = .ok id) ∧
      ∀ id', s.privateKeys.lookup id' = some key → id' = id) ∧
    ∀ key name, hexPublicKey key.publicKey = some name →
      Set.InjOn (fun b => kdf b 4096 keyIDSize) (insert name (derived acts)) →
      ∃ id, s.Serves kdf acts key name id := by
  have hkeyed := run_keyed hkdf run
  refine ⟨fun id key hkey => ?_, fun key name hname hinj => ?_⟩
  · obtain ⟨name, hname, rfl⟩ := hkeyed id key hkey
    refine ⟨⟨name, hname, makeDeterministicID_ok hkdf name⟩, fun id' hkey' => ?_⟩
    obtain ⟨name', hname', rfl⟩ := hkeyed id' key hkey'
    rw [hname] at hname'
    cases hname'
    rfl
  · exact ⟨_, KeyStore.serves run hname ⟨hkdf.length, hkdf.nonzero, hinj⟩⟩

/-- Two keys with their public keys, a derivation that tells these apart, and calls that bring both
keys and delete the first. -/
def sampleKey (n : ℤ) : PrivateKey := { publicKey := { x := some 3, y := some n }, d := some n }

def samplePoint (n : ℤ) : Bytes := (marshal 3 n).getD []

def sampleName (n : ℤ) : Bytes := goString (toHex (samplePoint n))

def sampleKdf : Pbkdf2 := fun b _ n =>
  (if b = sampleName 1 then 1 else 2) :: List.replicate (n - 1) 0

def sampleCalls : List KeyAction :=
  [.addKeyPair (sampleKey 1), .newKeyPair (.ok (sampleKey 2)) (.ok (sampleKey 2)),
    .deleteKeyPair (sampleName 1)]

theorem hexPublicKey_sampleKey {n : ℤ} (h : marshal 3 n = some (samplePoint n)) :
    hexPublicKey (sampleKey n).publicKey = some (sampleName n) := by
  show (marshal 3 n).map (fun b => goString (toHex b)) = _
  rw [h]
  rfl

theorem hexPublicKey_one : hexPublicKey (sampleKey 1).publicKey = some (sampleName 1) :=
  hexPublicKey_sampleKey (by decide +kernel)

theorem hexPublicKey_two : hexPublicKey (sampleKey 2).publicKey = some (sampleName 2) :=
  hexPublicKey_sampleKey (by decide +kernel)

theorem sampleName_ne : sampleName 1 ≠ sampleName 2 := by
  intro heq
  rw [sampleName, sampleName, goString_toHex (by decide +kernel),
    goString_toHex (by decide +kernel)] at heq
  have hpoint : samplePoint 1 = samplePoint 2 :=
    goString_hex_injective (List.append_cancel_left heq)
  exact absurd hpoint (by decide +kernel)

theorem sampleKdf_derives : Derives sampleKdf (insert (sampleName 2) (derived sampleCalls)) := by
  have hsub : insert (sampleName 2) (derived sampleCalls) ⊆ {sampleName 1, sampleName 2} := by
    rintro n (rfl | ⟨-, a, ha, hn⟩)
    · exact .inr rfl
    · simp only [sampleCalls, List.mem_cons, List.not_mem_nil, or_false] at ha
      rcases ha with rfl | rfl | rfl
      · exact .inl (Option.some.inj (hn.symm.trans hexPublicKey_one))
      · obtain ⟨key, hkey, hname⟩ := hn
        cases hkey
        exact .inr (Option.some.inj (hname.symm.trans hexPublicKey_two))
      · exact .inl hn.symm
  refine ⟨fun b => ?_, fun b => ⟨_, List.mem_cons_self, ?_⟩, Set.InjOn.mono hsub ?_⟩
  · rw [sampleKdf, List.length_cons, List.length_replicate]
    rfl
  · split <;> decide
  · have hne : sampleKdf (sampleName 1) 4096 keyIDSize ≠
        sampleKdf (sampleName 2) 4096 keyIDSize := by
      rw [sampleKdf, sampleKdf, if_pos rfl, if_neg (Ne.symm sampleName_ne)]
      simp
    rintro a (rfl | rfl) b (rfl | rfl) heq
    · rfl
    · exact absurd heq hne
    · exact absurd heq.symm hne
    · rfl

theorem identity_store_sample :
    ∃ s, Run (KeyStep sampleKdf) {} sampleCalls s ∧
      s.hasKeyPair sampleKdf (sampleName 2) = true ∧
      ∃ id, s.Serves sampleKdf sampleCalls (sampleKey 2) (sampleName 2) id := by
  have hkdf := sampleKdf_derives
  have hkey : generateKeyPair (.ok (sampleKey 2)) (.ok (sampleKey 2)) = .ok (sampleKey 2) := rfl
  obtain ⟨result, hnew⟩ := KeyStore.newKeyPair_eq hkdf _ hkey hexPublicKey_two
  have hrun : Run (KeyStep sampleKdf) {} sampleCalls _ :=
    .cons ⟨_, KeyStore.addKeyPair_eq hkdf {} hexPublicKey_one⟩
      (.cons ⟨result, hnew⟩ (.cons rfl (.nil _)))
  obtain ⟨id, hserves⟩ := (identity_store hrun ⟨hkdf.length, hkdf.nonzero,
    hkdf.injective.mono (Set.subset_insert _ _)⟩).2 (sampleKey 2) _ hexPublicKey_two hkdf.injective
  refine ⟨_, hrun, hserves.present.mpr ?_, id, hserves⟩
  -- the second call has brought the key, and the third one names another
  refine ⟨[.addKeyPair (sampleKey 1)], _, _, rfl, ⟨_, rfl, hexPublicKey_two⟩, fun b hb => ?_⟩
  cases List.mem_singleton.mp hb
  rintro (heq | heq)
  · exact sampleName_ne heq
  · exact length_hexPublicKey hexPublicKey_one (heq ▸ length_idOf hkdf _)

end Whisperv6
