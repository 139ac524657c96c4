import Whisperv6.FilterIndex
import Whisperv6.ProofKit.Scan
import Whisperv6.RoundTrip

/-! The filters that `NotifyWatchers` triggers.  Until a filter opens the envelope, each candidate
is matched with the envelope and its cached proof of work; after that, with the message.  The
results say for which filters the two matches agree in every order of the candidates. -/

namespace Whisperv6

open ProofKit

/-! ### The loop -/

namespace Filters

def allows (fs : Filters) (p2p : Bool) (r : FilterRef) : Bool := !(p2p && !(fs.heap r).allowP2P)

/-- The filter opens the envelope when it is the first to do so. -/
def opener (C : Crypto) (fs : Filters) (env : Envelope) (p2p : Bool) (r : FilterRef) : Bool :=
  fs.allows p2p r && (fs.heap r).matchEnvelope env && (env.openEnvelope C (fs.heap r)).isSome

/-- The filter is triggered with a message that another filter opened. -/
def later (fs : Filters) (p2p : Bool) (msg : ReceivedMessage) (r : FilterRef) : Bool :=
  fs.allows p2p r && (fs.heap r).matchMessage msg && (fs.heap r).accepts msg

variable {C : Crypto} {fs : Filters} {env : Envelope} {p2p : Bool} {msg : ReceivedMessage}

theorem visit_opened {s : Notice} (hmsg : s.msg = some msg) (hp2p : msg.p2p = p2p)
    (r : FilterRef) :
    s.visit C fs p2p r =
      if fs.later p2p msg r then { s with triggered := s.triggered ++ [(r, msg)] } else s := by
  obtain ⟨env, msg', triggered⟩ := s
  subst hp2p
  cases hmsg
  simp only [Notice.visit, Notice.tryMatch, later, allows]
  by_cases hallow : (msg.p2p && !(fs.heap r).allowP2P) = true
  · simp [hallow]
  · by_cases hmatch : (fs.heap r).matchMessage msg = true
    · simp [hallow, hmatch]
    · simp [hmatch]

theorem visit_unopened {r : FilterRef} (h : fs.opener C env p2p r = false) :
    ({ env := env } : Notice).visit C fs p2p r = { env := env } := by
  simp only [opener, allows, Bool.and_eq_false_iff, Bool.not_eq_false'] at h
  simp only [Notice.visit, Notice.tryMatch]
  by_cases hallow : (p2p && !(fs.heap r).allowP2P) = true
  · rw [if_pos hallow]
  · rw [if_neg hallow]
    by_cases hmatch : (fs.heap r).matchEnvelope env = true
    · have hnone : env.openEnvelope C (fs.heap r) = none := by
        rcases h with (h | h) | h
        · exact absurd h hallow
        · rw [hmatch] at h
          cases h
        · simpa using h
      rw [if_pos hmatch, hnone]
    · rw [if_neg hmatch]

theorem visit_opener {r : FilterRef} (h : fs.opener C env p2p r = true)
    (hopen : env.openEnvelope C (fs.heap r) = some msg) :
    ({ env := env } : Notice).visit C fs p2p r =
      { env := env.opened C
        msg := some { msg with p2p := p2p }
        triggered := if (fs.heap r).accepts msg then [(r, { msg with p2p := p2p })] else [] } := by
  simp only [opener, allows, Bool.and_eq_true, Bool.not_eq_true'] at h
  obtain ⟨⟨hallow, hmatch⟩, -⟩ := h
  have hflag : (fs.heap r).accepts { msg with p2p := p2p } = (fs.heap r).accepts msg := rfl
  simp only [Notice.visit, Notice.tryMatch, hallow, hmatch, hopen, hflag, if_true,
    Bool.false_eq_true, if_false]
  by_cases haccepts : (fs.heap r).accepts msg = true
  · rw [if_pos haccepts, if_pos haccepts, List.nil_append]
  · rw [if_neg haccepts, if_neg haccepts]

theorem foldl_visit_opened {s : Notice} (hmsg : s.msg = some msg) (hp2p : msg.p2p = p2p)
    (order : List FilterRef) :
    (order.foldl (Notice.visit C fs p2p) s).triggered.map Prod.fst =
      s.triggered.map Prod.fst ++ order.filter (fs.later p2p msg) := by
  induction order generalizing s with
  | nil => simp
  | cons r rest ih =>
    rw [List.foldl_cons, visit_opened hmsg hp2p]
    by_cases hlater : fs.later p2p msg r = true
    · have hnext : ({ s with triggered := s.triggered ++ [(r, msg)] } : Notice).msg = some msg :=
        hmsg
      rw [if_pos hlater, ih hnext]
      simp [hlater]
    · rw [if_neg hlater, ih hmsg]
      simp [hlater]

/-- The loop is a scan of the candidates, when all the filters that open the envelope read the same
message out of it. -/
theorem triggered_eq_scan {order : List FilterRef}
    (hsame : ∀ r ∈ order, ∀ m, env.openEnvelope C (fs.heap r) = some m →
      { m with p2p := p2p } = msg) :
    fs.triggered C env p2p order =
      scan (fs.opener C env p2p) (fun r => (fs.heap r).accepts msg) (fs.later p2p msg) order := by
  unfold triggered notice
  induction order with
  | nil => rfl
  | cons r rest ih =>
    rw [List.foldl_cons, scan]
    by_cases hopener : fs.opener C env p2p r = true
    · obtain ⟨m, hopen⟩ : ∃ m, env.openEnvelope C (fs.heap r) = some m := by
        rw [opener, Bool.and_eq_true] at hopener
        exact Option.isSome_iff_exists.mp hopener.2
      have hm := hsame r List.mem_cons_self m hopen
      have haccepts : (fs.heap r).accepts m = (fs.heap r).accepts msg := by
        rw [← hm]
        rfl
      have hp2p : msg.p2p = p2p := by rw [← hm]
      rw [if_pos hopener, visit_opener hopener hopen, hm, foldl_visit_opened rfl hp2p, haccepts]
      split <;> rfl
    · rw [if_neg hopener, visit_unopened (by simpa using hopener)]
      exact ih fun r' hr' => hsame r' (List.mem_cons_of_mem _ hr')

end Filters

/-! ### Keys -/

theorem isPubKeyEqual_iff {a b : Option PublicKey} :
    isPubKeyEqual a b = true ↔ validatePublicKey b = true ∧ a = b := by
  simp only [isPubKeyEqual, Bool.and_eq_true, decide_eq_true_eq]
  constructor
  · rintro ⟨⟨-, hb⟩, heq⟩
    exact ⟨hb, heq⟩
  · rintro ⟨hb, rfl⟩
    exact ⟨⟨hb, hb⟩, rfl⟩

theorem Envelope.decrypt_some {C : Crypto} {e : Envelope} {f : Filter} {m : ReceivedMessage}
    (h : e.decrypt C f = some m) :
    (∃ key, f.keyAsym = some key ∧ f.keySym = none ∧ m.dst = some key.publicKey ∧
      m.symKeyHash = 0) ∨
    ∃ key, f.keyAsym = none ∧ f.keySym = some key ∧ m.dst = none ∧
      m.symKeyHash = C.keccak256Hash key := by
  obtain ⟨key, raw, hasym, hsym, rfl⟩ | ⟨key, raw, salt, hasym, hsym, rfl⟩ := decrypt_frame h
  · exact .inl ⟨key, hasym, hsym, rfl, rfl⟩
  · exact .inr ⟨key, hasym, hsym, rfl, rfl⟩

/-- Parsing keeps what decryption put into the message, and opening adds the proof of work. -/
theorem Envelope.openEnvelope_some {C : Crypto} {e : Envelope} {f : Filter} {m : ReceivedMessage}
    (h : e.openEnvelope C f = some m) :
    m.pow = e.pow C ∧
      ∃ d, e.decrypt C f = some d ∧ m.dst = d.dst ∧ m.symKeyHash = d.symKeyHash := by
  unfold openEnvelope at h
  obtain ⟨d, hd, h⟩ := Option.bind_eq_some_iff.mp h
  split at h
  · rename_i parsed hparse
    cases h
    obtain ⟨signature, src, payload, padding, rfl⟩ := ReceivedMessage.validateAndParse_frame hparse
    exact ⟨rfl, d, hd, rfl, rfl⟩
  · cases h

theorem Envelope.openEnvelope_congr {C : Crypto} {e : Envelope} {f g : Filter}
    (hasym : f.keyAsym = g.keyAsym) (hsym : f.keySym = g.keySym) :
    e.openEnvelope C f = e.openEnvelope C g := by
  unfold openEnvelope decrypt
  rw [hasym, hsym]

namespace Filters

/-- The assumptions on the keys of the installed filters: no two different keys decrypt the
envelope, different symmetric keys have different hashes, which are not zero, the public keys are
valid, and a public key has one private key. -/
structure KeysDistinct (C : Crypto) (fs : Filters) (env : Envelope) : Prop where
  one : ∀ r g, fs.Installed r → fs.Installed g → (env.decrypt C (fs.heap r)).isSome = true →
    (env.decrypt C (fs.heap g)).isSome = true →
    (fs.heap r).keyAsym = (fs.heap g).keyAsym ∧ (fs.heap r).keySym = (fs.heap g).keySym
  hashes : ∀ r g k k', fs.Installed r → fs.Installed g → (fs.heap r).keySym = some k →
    (fs.heap g).keySym = some k' → C.keccak256Hash k = C.keccak256Hash k' → k = k'
  nonzero : ∀ r k, fs.Installed r → (fs.heap r).keySym = some k → C.keccak256Hash k ≠ 0
  valid : ∀ r key, fs.Installed r → (fs.heap r).keyAsym = some key →
    validatePublicKey (some key.publicKey) = true
  determined : ∀ r g key key', fs.Installed r → fs.Installed g → (fs.heap r).keyAsym = some key →
    (fs.heap g).keyAsym = some key' → key.publicKey = key'.publicKey → key = key'
  signer : ∀ r key, fs.Installed r → (fs.heap r).src = some key →
    validatePublicKey (some key) = true

variable {C : Crypto} {fs : Filters} {env : Envelope} {p2p : Bool} {r g : FilterRef}
  {m : ReceivedMessage}

theorem KeysDistinct.open_eq {m' : ReceivedMessage} (hkeys : fs.KeysDistinct C env)
    (hr : fs.Installed r) (hg : fs.Installed g)
    (hopen : env.openEnvelope C (fs.heap r) = some m)
    (hopen' : env.openEnvelope C (fs.heap g) = some m') : m = m' := by
  obtain ⟨-, d, hd, -⟩ := Envelope.openEnvelope_some hopen
  obtain ⟨-, d', hd', -⟩ := Envelope.openEnvelope_some hopen'
  obtain ⟨hasym, hsym⟩ := hkeys.one r g hr hg (by rw [hd]; rfl) (by rw [hd']; rfl)
  rw [Envelope.openEnvelope_congr hasym hsym, hopen'] at hopen
  exact (Option.some.inj hopen).symm

theorem matchKey_asymmetric {f : Filter} {key : PublicKey} (hdst : m.dst = some key)
    (hhash : m.symKeyHash = 0) :
    f.matchKey m = isPubKeyEqual (f.keyAsym.map PrivateKey.publicKey) (some key) := by
  unfold Filter.matchKey
  cases hasym : f.keyAsym with
  | none => simp [Filter.expectsAsymmetricEncryption, ReceivedMessage.isSymmetricEncryption, hasym,
      hhash, isPubKeyEqual, validatePublicKey]
  | some key' => simp [Filter.expectsAsymmetricEncryption, ReceivedMessage.isAsymmetricEncryption,
      hasym, hdst]

theorem matchKey_symmetric {f : Filter} (hdst : m.dst = none) (hhash : m.symKeyHash ≠ 0) :
    f.matchKey m = (f.keySym.isSome && f.symKeyHash == m.symKeyHash) := by
  have hsymmetric : m.isSymmetricEncryption = true := bne_iff_ne.mpr hhash
  unfold Filter.matchKey
  cases hsym : f.keySym with
  | none => simp [Filter.expectsSymmetricEncryption, ReceivedMessage.isAsymmetricEncryption, hsym,
      hdst]
  | some key => simp [Filter.expectsSymmetricEncryption, ReceivedMessage.isAsymmetricEncryption,
      hsym, hdst, hsymmetric]

/-- A filter has the key of a message that another one opened exactly when it could open the
envelope itself. -/
theorem matchKey_iff (hindexed : fs.Indexed C) (hkeys : fs.KeysDistinct C env)
    (hr : fs.Installed r) (hg : fs.Installed g)
    (hopen : env.openEnvelope C (fs.heap g) = some m) :
    (fs.heap r).matchKey m = true ↔ env.openEnvelope C (fs.heap r) = some m := by
  obtain ⟨-, d, hd, hmdst, hmhash⟩ := Envelope.openEnvelope_some hopen
  have hsame : (fs.heap r).keyAsym = (fs.heap g).keyAsym →
      (fs.heap r).keySym = (fs.heap g).keySym → env.openEnvelope C (fs.heap r) = some m :=
    fun hasym hsym => (Envelope.openEnvelope_congr hasym hsym).trans hopen
  have hback : env.openEnvelope C (fs.heap r) = some m →
      (fs.heap r).keyAsym = (fs.heap g).keyAsym ∧ (fs.heap r).keySym = (fs.heap g).keySym := by
    intro hopen'
    obtain ⟨-, d', hd', -⟩ := Envelope.openEnvelope_some hopen'
    exact hkeys.one r g hr hg (by rw [hd']; rfl) (by rw [hd]; rfl)
  rcases Envelope.decrypt_some hd with ⟨key, hasym, hsym, hdst, hhash⟩ |
    ⟨key, hasym, hsym, hdst, hhash⟩
  · rw [matchKey_asymmetric (hmdst.trans hdst) (hmhash.trans hhash), isPubKeyEqual_iff]
    constructor
    · rintro ⟨-, hpub⟩
      obtain ⟨key', hkey', hpub⟩ := Option.map_eq_some_iff.mp hpub
      have heq := hkeys.determined r g key' key hr hg hkey' hasym hpub
      refine hsame (by rw [hkey', hasym, heq]) ?_
      rw [hsym]
      refine (hindexed.oneKey r hr).resolve_right ?_
      rw [hkey']
      exact fun h => nomatch h
    · intro hopen'
      rw [(hback hopen').1, hasym]
      exact ⟨hkeys.valid g key hg hasym, rfl⟩
  · have hnonzero : m.symKeyHash ≠ 0 := by
      rw [hmhash, hhash]
      exact hkeys.nonzero g key hg hsym
    rw [matchKey_symmetric (hmdst.trans hdst) hnonzero, Bool.and_eq_true, beq_iff_eq,
      hmhash, hhash, Option.isSome_iff_exists]
    constructor
    · rintro ⟨⟨key', hkey'⟩, heq⟩
      rw [hindexed.symKeyHash r key' hr hkey'] at heq
      have hkk := hkeys.hashes r g key' key hr hg hkey' hsym heq
      refine hsame ?_ (by rw [hkey', hsym, hkk])
      rw [hasym]
      refine (hindexed.oneKey r hr).resolve_left ?_
      rw [hkey']
      exact fun h => nomatch h
    · intro hopen'
      have hkey' := (hback hopen').2.trans hsym
      exact ⟨⟨key, hkey'⟩, hindexed.symKeyHash r key hr hkey'⟩

/-- The bound on the proof of work that `MatchMessage` checks. -/
def within (C : Crypto) (fs : Filters) (env : Envelope) (r : FilterRef) : Bool :=
  !(FloatVal.zero.lt (fs.heap r).pow.value && (env.pow C).lt (fs.heap r).pow.value)

theorem matchMessage_iff (hindexed : fs.Indexed C) (hkeys : fs.KeysDistinct C env)
    (hr : fs.Installed r) (hg : fs.Installed g)
    (hopen : env.openEnvelope C (fs.heap g) = some m) :
    (fs.heap r).matchMessage { m with p2p := p2p } = true ↔
      fs.within C env r = true ∧ env.openEnvelope C (fs.heap r) = some m := by
  have hpow := (Envelope.openEnvelope_some hopen).1
  rw [← matchKey_iff hindexed hkeys hr hg hopen]
  unfold Filter.matchMessage within
  dsimp only
  rw [hpow]
  split
  · rename_i h
    simp [h]
  · rename_i h
    rw [Bool.not_eq_true] at h
    rw [h]
    exact (and_iff_right rfl).symm

theorem accepts_iff (hkeys : fs.KeysDistinct C env) (hr : fs.Installed r) :
    (fs.heap r).accepts { m with p2p := p2p } = true ↔
      (fs.heap r).src = none ∨ m.src = (fs.heap r).src := by
  unfold Filter.accepts
  rw [Bool.or_eq_true, Option.isNone_iff_eq_none, isPubKeyEqual_iff]
  cases hsrc : (fs.heap r).src with
  | none => simp
  | some key => simp [hkeys.signer r key hr hsrc]

/-! ### The triggered filters -/

/-- The filter is among the candidates for the topic. -/
def Candidate (fs : Filters) (topic : TopicType) (r : FilterRef) : Prop :=
  fs.Installed r ∧
    ((fs.heap r).topics = [] ∨ ∃ t ∈ (fs.heap r).topics, bytesToTopic t = topic)

/-- The filter meets every condition but the one on the proof of work. -/
def Ready (C : Crypto) (fs : Filters) (env : Envelope) (p2p : Bool) (r : FilterRef) : Prop :=
  fs.Candidate env.topic r ∧ ((fs.heap r).allowP2P = true ∨ p2p = false) ∧
    ∃ m, env.openEnvelope C (fs.heap r) = some m ∧
      ((fs.heap r).src = none ∨ m.src = (fs.heap r).src)

theorem WatcherOrder.mem_iff {topic : TopicType} {order : List FilterRef}
    (hindexed : fs.Indexed C) (ho : fs.WatcherOrder topic order) :
    r ∈ order ↔ fs.Candidate topic r := (ho.exact hindexed).2 r

theorem allows_iff : fs.allows p2p r = true ↔ (fs.heap r).allowP2P = true ∨ p2p = false := by
  unfold allows
  cases p2p <;> cases (fs.heap r).allowP2P <;> decide

theorem later_iff (hindexed : fs.Indexed C) (hkeys : fs.KeysDistinct C env)
    (hr : fs.Candidate env.topic r) (hg : fs.Installed g)
    (hopen : env.openEnvelope C (fs.heap g) = some m) :
    fs.later p2p { m with p2p := p2p } r = true ↔
      fs.Ready C env p2p r ∧ fs.within C env r = true := by
  rw [later, Bool.and_eq_true, Bool.and_eq_true, allows_iff,
    matchMessage_iff hindexed hkeys hr.1 hg hopen, accepts_iff hkeys hr.1]
  constructor
  · rintro ⟨⟨hallow, hwithin, hopen'⟩, hsrc⟩
    exact ⟨⟨hr, hallow, m, hopen', hsrc⟩, hwithin⟩
  · rintro ⟨⟨-, hallow, m', hopen', hsrc⟩, hwithin⟩
    have heq := hkeys.open_eq hr.1 hg hopen' hopen
    subst heq
    exact ⟨⟨hallow, hwithin, hopen'⟩, hsrc⟩

theorem opener_eq_true :
    fs.opener C env p2p r = true ↔ fs.allows p2p r = true ∧
      (fs.heap r).matchEnvelope env = true ∧ ∃ m, env.openEnvelope C (fs.heap r) = some m := by
  rw [opener, Bool.and_eq_true, Bool.and_eq_true, Option.isSome_iff_exists, and_assoc]

/-- The triggered filters when the candidate `g` can open the envelope. -/
theorem mem_triggered_of_open {order : List FilterRef} {g : FilterRef} {m : ReceivedMessage}
    (hindexed : fs.Indexed C) (hkeys : fs.KeysDistinct C env)
    (hbound : ∀ r, (fs.heap r).matchEnvelope env = true → fs.within C env r = true)
    (ho : fs.WatcherOrder env.topic order) (hg : g ∈ order)
    (hopen : env.openEnvelope C (fs.heap g) = some m) :
    r ∈ fs.triggered C env p2p order ↔
      fs.Ready C env p2p r ∧ fs.within C env r = true ∧
        ((fs.heap r).matchEnvelope env = true ∨
          Preceded (fs.opener C env p2p · = true) order r) := by
  have hmem : ∀ x, x ∈ order ↔ fs.Candidate env.topic x := fun x => ho.mem_iff hindexed
  have hginst := ((hmem g).mp hg).1
  have hlater : ∀ x, fs.Candidate env.topic x →
      (fs.later p2p { m with p2p := p2p } x = true ↔
        fs.Ready C env p2p x ∧ fs.within C env x = true) :=
    fun x hx => later_iff hindexed hkeys hx hginst hopen
  have hscan : fs.triggered C env p2p order = scan (fs.opener C env p2p)
      (fun x => (fs.heap x).accepts { m with p2p := p2p })
      (fs.later p2p { m with p2p := p2p }) order := by
    refine triggered_eq_scan fun x hx m' hopen' => ?_
    rw [hkeys.open_eq ((hmem x).mp hx).1 hginst hopen' hopen]
  rw [hscan, mem_scan]
  · constructor
    · rintro ⟨hr, hl, h⟩
      obtain ⟨hready, hwithin⟩ := (hlater r ((hmem r).mp hr)).mp hl
      exact ⟨hready, hwithin, h.imp_left fun hopener => (opener_eq_true.mp hopener).2.1⟩
    · rintro ⟨hready, hwithin, h⟩
      refine ⟨(hmem r).mpr hready.1, (hlater r hready.1).mpr ⟨hready, hwithin⟩,
        h.imp_left fun hmatch => ?_⟩
      obtain ⟨-, hallow, m', hopen', -⟩ := hready
      exact opener_eq_true.mpr ⟨allows_iff.mpr hallow, hmatch, m', hopen'⟩
  · intro x hx hopener
    obtain ⟨hallow, hmatch, m', hopen'⟩ := opener_eq_true.mp hopener
    have hxinst := ((hmem x).mp hx).1
    have heq := hkeys.open_eq hxinst hginst hopen' hopen
    subst heq
    rw [later, hallow, (matchMessage_iff hindexed hkeys hxinst hginst hopen).mpr
      ⟨hbound x hmatch, hopen'⟩]
    rfl

theorem not_mem_triggered_of_closed {order : List FilterRef}
    (hclosed : ∀ g ∈ order, ∀ m, env.openEnvelope C (fs.heap g) ≠ some m) :
    r ∉ fs.triggered C env p2p order := by
  have hnone : ∀ x ∈ order, fs.opener C env p2p x ≠ true := by
    intro x hx hopener
    obtain ⟨-, -, m, hopen⟩ := opener_eq_true.mp hopener
    exact hclosed x hx m hopen
  have hscan : fs.triggered C env p2p order = scan (fs.opener C env p2p)
      (fun x => (fs.heap x).accepts { raw := [] }) (fs.later p2p { raw := [] }) order :=
    triggered_eq_scan fun x hx m hopen => absurd hopen (hclosed x hx m)
  rw [hscan, mem_scan fun x hx hopener => absurd hopener (hnone x hx)]
  rintro ⟨hr, -, hopener | hpre⟩
  · exact hnone r hr hopener
  · obtain ⟨x, hx, hopener⟩ := hpre.exists
    exact hnone x hx hopener

/-- A filter is triggered when it is ready and its bound is met, and either the envelope matches it
or another filter has opened the envelope before. -/
theorem mem_triggered_iff {order : List FilterRef} (hindexed : fs.Indexed C)
    (hkeys : fs.KeysDistinct C env)
    (hbound : ∀ r, (fs.heap r).matchEnvelope env = true → fs.within C env r = true)
    (ho : fs.WatcherOrder env.topic order) :
    r ∈ fs.triggered C env p2p order ↔
      fs.Ready C env p2p r ∧ fs.within C env r = true ∧
        ((fs.heap r).matchEnvelope env = true ∨
          Preceded (fs.opener C env p2p · = true) order r) := by
  by_cases hsome : ∃ g m, g ∈ order ∧ env.openEnvelope C (fs.heap g) = some m
  · obtain ⟨g, m, hg, hopen⟩ := hsome
    exact mem_triggered_of_open hindexed hkeys hbound ho hg hopen
  · have hclosed : ∀ g ∈ order, ∀ m, env.openEnvelope C (fs.heap g) ≠ some m :=
      fun g hg m hopen => hsome ⟨g, m, hg, hopen⟩
    refine iff_of_false (not_mem_triggered_of_closed hclosed) ?_
    rintro ⟨⟨hcand, -, m, hopen, -⟩, -⟩
    exact hclosed r ((ho.mem_iff hindexed).mpr hcand) m hopen

/-! ### Orders of the candidates -/

theorem mem_wildcards (topic : TopicType) (hindexed : fs.Indexed C) :
    r ∈ fs.allTopicsMatcher ↔ fs.Candidate topic r ∧ (fs.heap r).topics = [] := by
  rw [hindexed.wildcard, Candidate]
  constructor
  · rintro ⟨hr, hnil⟩
    exact ⟨⟨hr, .inl hnil⟩, hnil⟩
  · rintro ⟨⟨hr, -⟩, hnil⟩
    exact ⟨hr, hnil⟩

theorem mem_listed {topic : TopicType} (hindexed : fs.Indexed C) :
    r ∈ fs.atTopic topic ↔ fs.Candidate topic r ∧ (fs.heap r).topics ≠ [] := by
  rw [hindexed.listed, Candidate]
  constructor
  · rintro ⟨hr, t, ht, htopic⟩
    exact ⟨⟨hr, .inr ⟨t, ht, htopic⟩⟩, List.ne_nil_of_mem ht⟩
  · rintro ⟨⟨hr, h⟩, hne⟩
    exact ⟨hr, h.resolve_left hne⟩

section Orders

variable {topic : TopicType} {P : FilterRef → Prop}

/-- Filters without topics are visited first; apart from that, any candidate may precede any
other. -/
theorem exists_order_preceded (hindexed : fs.Indexed C) (hr : fs.Candidate topic r)
    (hg : fs.Candidate topic g) (hne : r ≠ g) (hP : P g)
    (h : ¬ ((fs.heap r).topics = [] ∧ (fs.heap g).topics ≠ [])) :
    ∃ order, fs.WatcherOrder topic order ∧ Preceded P order r := by
  by_cases hgnil : (fs.heap g).topics = []
  · obtain ⟨rest, hall, -⟩ := exists_isOrder_cons ((mem_wildcards topic hindexed).mpr ⟨hg, hgnil⟩)
    obtain ⟨listed, hlisted⟩ := exists_isOrder (fs.atTopic topic)
    have ho : fs.WatcherOrder topic (g :: rest ++ listed) := ⟨_, _, hall, hlisted, rfl⟩
    have hmem : r ∈ g :: (rest ++ listed) := (ho.mem_iff hindexed).mpr hr
    exact ⟨_, ho, .inl ⟨hP, (List.mem_cons.mp hmem).resolve_left hne⟩⟩
  · have hrne : (fs.heap r).topics ≠ [] := fun hnil => h ⟨hnil, hgnil⟩
    obtain ⟨all, hall⟩ := exists_isOrder fs.allTopicsMatcher
    obtain ⟨rest, hlisted, -⟩ := exists_isOrder_cons ((mem_listed hindexed).mpr ⟨hg, hgnil⟩)
    refine ⟨all ++ g :: rest, ⟨_, _, hall, hlisted, rfl⟩, ?_⟩
    have hmem : r ∈ g :: rest := hlisted.mem.mpr ((mem_listed hindexed).mpr ⟨hr, hrne⟩)
    rw [preceded_append]
    exact .inr (.inr (.inl ⟨hP, (List.mem_cons.mp hmem).resolve_left hne⟩))

/-- A candidate may come before all those with a property, unless it has topics and a filter
without topics has the property. -/
theorem exists_order_not_preceded (hindexed : fs.Indexed C) (hr : fs.Candidate topic r)
    (h : ¬ ((fs.heap r).topics ≠ [] ∧
      ∃ g, fs.Candidate topic g ∧ P g ∧ (fs.heap g).topics = [])) :
    ∃ order, fs.WatcherOrder topic order ∧ ¬ Preceded P order r := by
  by_cases hnil : (fs.heap r).topics = []
  · have hwild := (mem_wildcards topic hindexed).mpr ⟨hr, hnil⟩
    obtain ⟨rest, hall, hrest⟩ := exists_isOrder_cons hwild
    obtain ⟨listed, hlisted⟩ := exists_isOrder (fs.atTopic topic)
    have hlast : r ∉ rest ++ listed := by
      rw [List.mem_append, not_or]
      refine ⟨hrest, fun hmem => ?_⟩
      exact ((mem_listed hindexed).mp (hlisted.mem.mp hmem)).2 hnil
    exact ⟨r :: rest ++ listed, ⟨_, _, hall, hlisted, rfl⟩, not_preceded_cons hlast⟩
  · obtain ⟨all, hall⟩ := exists_isOrder fs.allTopicsMatcher
    obtain ⟨rest, hlisted, hrest⟩ := exists_isOrder_cons ((mem_listed hindexed).mpr ⟨hr, hnil⟩)
    refine ⟨all ++ r :: rest, ⟨_, _, hall, hlisted, rfl⟩, ?_⟩
    rw [preceded_append]
    rintro (hpre | ⟨⟨g, hg, hP⟩, -⟩ | hpre)
    · exact hnil ((mem_wildcards topic hindexed).mp (hall.mem.mp hpre.mem)).2
    · obtain ⟨hcand, hgnil⟩ := (mem_wildcards topic hindexed).mp (hall.mem.mp hg)
      exact h ⟨hnil, g, hcand, hP, hgnil⟩
    · exact not_preceded_cons hrest hpre

theorem WatcherOrder.preceded {order : List FilterRef} (hindexed : fs.Indexed C)
    (ho : fs.WatcherOrder topic order) (hr : fs.Candidate topic r)
    (hne : (fs.heap r).topics ≠ []) (hg : fs.Candidate topic g) (hP : P g)
    (hnil : (fs.heap g).topics = []) : Preceded P order r := by
  obtain ⟨all, listed, hall, hlisted, rfl⟩ := ho
  rw [preceded_append]
  refine .inr (.inl ⟨⟨g, hall.mem.mpr ?_, hP⟩, hlisted.mem.mpr ?_⟩)
  · exact (mem_wildcards topic hindexed).mpr ⟨hg, hnil⟩
  · exact (mem_listed hindexed).mpr ⟨hr, hne⟩

theorem WatcherOrder.not_preceded {order : List FilterRef} (hindexed : fs.Indexed C)
    (ho : fs.WatcherOrder topic order)
    (h : ∀ g, fs.Candidate topic g → P g → (fs.heap r).topics = [] ∧ (fs.heap g).topics ≠ []) :
    ¬ Preceded P order r := by
  obtain ⟨all, listed, hall, hlisted, rfl⟩ := ho
  have hwild : ¬ ∃ g ∈ all, P g := by
    rintro ⟨g, hg, hP⟩
    obtain ⟨hcand, hnil⟩ := (mem_wildcards topic hindexed).mp (hall.mem.mp hg)
    exact (h g hcand hP).2 hnil
  rw [preceded_append]
  rintro (hpre | ⟨hall, -⟩ | hpre)
  · exact hwild hpre.exists
  · exact hwild hall
  · obtain ⟨g, hg, hP⟩ := hpre.exists
    have hcand := ((mem_listed hindexed).mp (hlisted.mem.mp hg)).1
    exact ((mem_listed hindexed).mp (hlisted.mem.mp hpre.mem)).2 (h g hcand hP).1

end Orders

/-! ### Exact delivery -/

theorem within_iff (hpow : env.pow C ≠ .nan) :
    fs.within C env r = true ↔ (fs.heap r).pow.value.le .zero = true ∨
      (fs.heap r).pow.value.le (env.pow C) = true ∨ (fs.heap r).pow.value = .nan := by
  unfold within
  by_cases hnan : (fs.heap r).pow.value = .nan
  · simp [hnan, FloatVal.lt_nan]
  · rw [FloatVal.lt_eq_not_le (by decide) hnan, FloatVal.lt_eq_not_le hpow hnan]
    simp [hnan]

/-- The filters that should get the message of an envelope. -/
def Expects (C : Crypto) (fs : Filters) (env : Envelope) (p2p : Bool) (r : FilterRef) : Prop :=
  fs.Ready C env p2p r ∧ ((fs.heap r).pow.value.le .zero = true ∨
    (fs.heap r).pow.value.le (env.pow C) = true)

/-- The candidates that open the envelope when they are visited before any other does. -/
def Opener (C : Crypto) (fs : Filters) (env : Envelope) (p2p : Bool) (g : FilterRef) : Prop :=
  fs.Candidate env.topic g ∧ ((fs.heap g).allowP2P = true ∨ p2p = false) ∧
    (fs.heap g).matchEnvelope env = true ∧ (env.openEnvelope C (fs.heap g)).isSome = true

theorem opener_iff (hg : fs.Candidate env.topic g) :
    fs.opener C env p2p g = true ↔ fs.Opener C env p2p g := by
  rw [opener, Bool.and_eq_true, Bool.and_eq_true, allows_iff, Opener, and_assoc]
  exact (and_iff_right hg).symm

/-- With the proof of work cached, the match with the envelope is the bound on it. -/
theorem matchEnvelope_iff (hpow : env.powCache = env.pow C) :
    (fs.heap r).matchEnvelope env = true ↔
      (fs.heap r).pow.value.le .zero = true ∨ (fs.heap r).pow.value.le (env.pow C) = true := by
  rw [Filter.matchEnvelope, Bool.or_eq_true, hpow]

/-- An envelope that matches meets the bound that `MatchMessage` checks. -/
theorem within_of_matchEnvelope (hpow : env.powCache = env.pow C)
    (h : (fs.heap r).matchEnvelope env = true) : fs.within C env r = true := by
  rw [within]
  rcases (matchEnvelope_iff hpow).mp h with hle | hle
  · rw [FloatVal.not_lt_of_le hle]
    rfl
  · rw [FloatVal.not_lt_of_le hle, Bool.and_false]
    rfl

theorem pow_ne_nan_of_matchEnvelope (h : (fs.heap r).matchEnvelope env = true) :
    (fs.heap r).pow.value ≠ .nan := by
  intro hnan
  rw [Filter.matchEnvelope, hnan, FloatVal.nan_le, FloatVal.nan_le] at h
  cases h

end Filters

/-- The proof of work of the envelope is cached, from some call of `calculatePoW`. -/
def Envelope.Computed (C : Crypto) (e : Envelope) : Prop :=
  ∃ diff, e.powCache = (e.calculatePoW C diff).powCache

theorem Envelope.Computed.pow_eq {C : Crypto} {e : Envelope} (h : e.Computed C) :
    e.pow C = e.powCache ∧ e.pow C ≠ .nan := by
  obtain ⟨diff, hdiff⟩ := h
  have hne : e.powCache ≠ .zero := by
    rw [hdiff]
    exact e.calculatePoW_ne_zero C diff
  have heq := pow_of_powCache (C := C) hne
  refine ⟨heq, ?_⟩
  rw [heq, hdiff]
  exact e.calculatePoW_ne_nan C diff

theorem Envelope.computed_calculatePoW (C : Crypto) (e : Envelope) (diff : UInt32) :
    (e.calculatePoW C diff).Computed C := ⟨diff, rfl⟩

/-- For an envelope with its proof of work cached, the triggered filters are the expected ones in
every order exactly when no filter with a NaN as its bound could be triggered after another filter
has opened the envelope. -/
theorem Filters.delivery_exact_iff (C : Crypto) {acts : List FilterAction} {fs : Filters}
    {env : Envelope} (p2p : Bool) (run : Run (FilterStep C) {} acts fs)
    (hcomputed : env.Computed C) (hkeys : fs.KeysDistinct C env) :
    (∀ order, fs.WatcherOrder env.topic order →
      ∀ r, r ∈ fs.triggered C env p2p order ↔ fs.Expects C env p2p r) ↔
    ∀ r g, fs.Ready C env p2p r → (fs.heap r).pow.value = .nan → fs.Opener C env p2p g →
      (fs.heap r).topics = [] ∧ (fs.heap g).topics ≠ [] := by
  have hindexed := run_indexed run
  obtain ⟨hpow, hnotnan⟩ := hcomputed.pow_eq
  have hmatch : ∀ r, (fs.heap r).matchEnvelope env = true ↔
      (fs.heap r).pow.value.le .zero = true ∨ (fs.heap r).pow.value.le (env.pow C) = true :=
    fun r => matchEnvelope_iff hpow.symm
  have hbound : ∀ r, (fs.heap r).matchEnvelope env = true → fs.within C env r = true :=
    fun r => within_of_matchEnvelope hpow.symm
  constructor
  · intro h r g hready hnan hopener
    by_contra horder
    have hne : r ≠ g := by
      rintro rfl
      exact pow_ne_nan_of_matchEnvelope hopener.2.2.1 hnan
    obtain ⟨order, ho, hpre⟩ := exists_order_preceded (P := (fs.opener C env p2p · = true))
      hindexed hready.1 hopener.1 hne ((opener_iff hopener.1).mpr hopener) horder
    have htrig : r ∈ fs.triggered C env p2p order :=
      (mem_triggered_iff hindexed hkeys hbound ho).mpr
        ⟨hready, (within_iff hnotnan).mpr (.inr (.inr hnan)), .inr hpre⟩
    obtain ⟨-, hle⟩ := (h order ho r).mp htrig
    rw [hnan, FloatVal.nan_le, FloatVal.nan_le] at hle
    rcases hle with hle | hle <;> cases hle
  · intro h order ho r
    rw [mem_triggered_iff hindexed hkeys hbound ho, Expects, ← hmatch]
    constructor
    · rintro ⟨hready, hwithin, hm | hpre⟩
      · exact ⟨hready, hm⟩
      · refine ⟨hready, ?_⟩
        rw [within_iff hnotnan, ← or_assoc, ← hmatch] at hwithin
        refine hwithin.resolve_right fun hnan => ?_
        refine ho.not_preceded hindexed (fun g hg hopener => ?_) hpre
        exact h r g hready hnan ((opener_iff hg).mp hopener)
    · rintro ⟨hready, hm⟩
      exact ⟨hready, hbound r hm, .inl hm⟩

/-! ### Two filters with one key -/

theorem Filters.keysDistinct_of_single {C : Crypto} {fs : Filters} {env : Envelope} {key : Bytes}
    (hhash : C.keccak256Hash key ≠ 0)
    (h : ∀ r, fs.Installed r → (fs.heap r).keySym = some key ∧ (fs.heap r).keyAsym = none ∧
      (fs.heap r).src = none) : fs.KeysDistinct C env := by
  constructor
  · intro r g hr hg _ _
    exact ⟨(h r hr).2.1.trans (h g hg).2.1.symm, (h r hr).1.trans (h g hg).1.symm⟩
  · intro r g k k' hr hg hk hk' _
    rw [(h r hr).1] at hk
    rw [(h g hg).1] at hk'
    exact (Option.some.inj hk).symm.trans (Option.some.inj hk')
  · intro r k hr hk
    rw [(h r hr).1] at hk
    rw [← Option.some.inj hk]
    exact hhash
  · intro r k hr hk
    rw [(h r hr).2.1] at hk
    cases hk
  · intro r g k k' hr hg hk
    rw [(h r hr).2.1] at hk
    cases hk
  · intro r k hr hk
    rw [(h r hr).2.2] at hk
    cases hk

/-- A filter on the topic of the sample message, with a bound on the proof of work. -/
def boundFilter (pow : Float64) : Filter :=
  { keySym := some topicKey, topics := [[1, 2, 3, 4]], pow := pow, allowP2P := true }

/-- The installation of a filter without a bound, and of another with the bound `pow`. -/
def pairActions (pow : Float64) : List FilterAction :=
  [.install (idEntropy 1) 0 (boundFilter 0), .install (idEntropy 4) 1 (boundFilter pow)]

def pairFilters (pow : Float64) : Filters :=
  (((({} : Filters).install tagCrypto (idEntropy 1) 0 (boundFilter 0)).1).install tagCrypto
    (idEntropy 4) 1 (boundFilter pow)).1

theorem pairFilters_run (pow : Float64) :
    Run (FilterStep tagCrypto) {} (pairActions pow) (pairFilters pow) := by
  refine .cons ⟨?_, rfl⟩ (.cons ⟨?_, rfl⟩ (.nil _))
  · decide +kernel
  · decide +kernel

theorem pairFilters_installed {pow : Float64} {r : FilterRef}
    (h : (pairFilters pow).Installed r) : r = 0 ∨ r = 1 := by
  obtain ⟨id, hid⟩ := h
  have hwatchers : (pairFilters pow).watchers =
      ((∅ : GoMap String FilterRef).insert (hex (List.replicate 32 3)) 0).insert
        (hex (List.replicate 32 6)) 1 := rfl
  rw [hwatchers] at hid
  by_cases h6 : id = hex (List.replicate 32 6)
  · subst h6
    rw [Finmap.lookup_insert] at hid
    exact .inr (Option.some.inj hid).symm
  · rw [Finmap.lookup_insert_of_ne _ h6] at hid
    by_cases h3 : id = hex (List.replicate 32 3)
    · subst h3
      rw [Finmap.lookup_insert] at hid
      exact .inl (Option.some.inj hid).symm
    · rw [Finmap.lookup_insert_of_ne _ h3, Finmap.lookup_empty] at hid
      cases hid

theorem pairFilters_messages (pow : Float64) (r : FilterRef) :
    ((pairFilters pow).heap r).messages = ∅ := by
  by_cases h1 : r = 1
  · subst h1
    rfl
  by_cases h0 : r = 0
  · subst h0
    rfl
  have hheap : (pairFilters pow).heap r = ({} : Filters).heap r :=
    (Function.update_of_ne h1 ..).trans (Function.update_of_ne h0 ..)
  rw [hheap]

theorem pairFilters_keysDistinct (pow : Float64) (env : Envelope) :
    (pairFilters pow).KeysDistinct tagCrypto env := by
  have hhash : tagCrypto.keccak256Hash topicKey ≠ 0 := by decide
  refine Filters.keysDistinct_of_single hhash fun r hr => ?_
  rcases pairFilters_installed hr with rfl | rfl
  · exact ⟨rfl, rfl, rfl⟩
  · exact ⟨rfl, rfl, rfl⟩

theorem pairFilters_order (pow : Float64) (order : List FilterRef)
    (h : IsOrder ({0, 1} : Finset FilterRef) order) :
    (pairFilters pow).WatcherOrder #v[1, 2, 3, 4] order := by
  refine ⟨[], order, ⟨List.nodup_nil, fun k => ?_⟩, ⟨h.1, fun k => ?_⟩, rfl⟩
  · show k ∈ [] ↔ k ∈ (∅ : Finset FilterRef)
    simp
  · have hset : (pairFilters pow).atTopic #v[1, 2, 3, 4] = {1, 0} := rfl
    rw [hset, h.mem, Finset.pair_comm]

/-- The sample message with its proof of work cached, as `add` queues it. -/
def queuedEnvelope : Envelope := shortEnvelope.calculatePoW tagCrypto 0

theorem queuedEnvelope_computed : queuedEnvelope.Computed tagCrypto :=
  shortEnvelope.computed_calculatePoW tagCrypto 0

theorem pairFilters_queued (pow : Float64) (order : List FilterRef)
    (h : IsOrder ({0, 1} : Finset FilterRef) order) :
    (pairFilters pow).WatcherOrder queuedEnvelope.topic order :=
  pairFilters_order pow order h

theorem Filters.delivery_exact_iff_pair :
    (pairFilters 0).WatcherOrder queuedEnvelope.topic [1, 0] ∧
    (1 ∈ (pairFilters 0).triggered tagCrypto queuedEnvelope false [1, 0] ↔
      (pairFilters 0).Expects tagCrypto queuedEnvelope false 1) := by
  have ho := pairFilters_queued 0 [1, 0] (by decide)
  refine ⟨ho, (delivery_exact_iff tagCrypto false (pairFilters_run 0)
    queuedEnvelope_computed (pairFilters_keysDistinct 0 _)).mpr
      (fun r g hready hnan _ => ?_) [1, 0] ho 1⟩
  have hzero : (0 : Float64).value ≠ .nan := by decide +kernel
  rcases pairFilters_installed hready.1.1 with rfl | rfl
  · exact absurd hnan hzero
  · exact absurd hnan hzero

/-- A filter with a NaN as its bound is triggered after the filter without a bound. -/
theorem Filters.not_delivery_exact_nan :
    Run (FilterStep tagCrypto) {} (pairActions 0x7FF8000000000000)
      (pairFilters 0x7FF8000000000000) ∧
    queuedEnvelope.Computed tagCrypto ∧
    (pairFilters 0x7FF8000000000000).KeysDistinct tagCrypto queuedEnvelope ∧
    ¬ ∀ order, (pairFilters 0x7FF8000000000000).WatcherOrder queuedEnvelope.topic order →
      ∀ r, r ∈ (pairFilters 0x7FF8000000000000).triggered tagCrypto queuedEnvelope false order ↔
        (pairFilters 0x7FF8000000000000).Expects tagCrypto queuedEnvelope false r := by
  refine ⟨pairFilters_run _, queuedEnvelope_computed, pairFilters_keysDistinct _ _, fun h => ?_⟩
  have ho := pairFilters_queued 0x7FF8000000000000 [0, 1] (by decide)
  have htriggered : 1 ∈ (pairFilters 0x7FF8000000000000).triggered tagCrypto queuedEnvelope false
      [0, 1] := by decide +kernel
  have hnan : ((pairFilters 0x7FF8000000000000).heap 1).pow.value = .nan := by decide +kernel
  obtain ⟨-, hle⟩ := (h [0, 1] ho 1).mp htriggered
  rw [hnan, FloatVal.nan_le, FloatVal.nan_le] at hle
  rcases hle with hle | hle <;> cases hle

end Whisperv6
