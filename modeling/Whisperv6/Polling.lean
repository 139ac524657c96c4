import Whisperv6.KeyStore
import Whisperv6.Mailbox

/-! The calls of the API that return messages.  `GetFilterMessages`, and the goroutine of `Messages`
at each tick, retrieve what the store of a filter holds and convert it. -/

namespace Whisperv6

open ProofKit

/-! ### Conversion -/

/-- `Message`, the messages that the API returns. -/
structure Message where
  sig : Bytes
  ttl : UInt32
  timestamp : UInt32
  topic : TopicType
  payload : Bytes
  padding : Bytes
  pow : FloatVal
  hash : Bytes
  dst : Bytes
  p2p : Bool
  deriving DecidableEq

/-- `crypto.FromECDSAPub` of a pointer: nil for the nil pointer, and a panic on coordinates of more
bytes than the curve has. -/
def marshalKey : Option PublicKey → Except Fault Bytes
  | none => .ok []
  | some pub =>
    match fromECDSAPub pub with
    | some b => .ok b
    | none => .error .panic

/-- The signer that `ToWhisperMessage` reports: the bytes of the key for a message that is marked as
signed. -/
def ReceivedMessage.signerBytes (C : Crypto) (message : ReceivedMessage) (flags : UInt8) :
    Except Fault Bytes :=
  if isMessageSigned flags then marshalKey (message.sigToPubKey C) else .ok []

/-- `ToWhisperMessage`. -/
def toWhisperMessage (C : Crypto) (message : ReceivedMessage) : Except Fault Message := do
  let dst ← marshalKey message.dst
  let flags ← index message.raw 0
  let sig ← message.signerBytes C flags
  pure
    { sig
      dst
      payload := message.payload
      padding := message.padding
      timestamp := message.sent
      ttl := message.ttl
      pow := message.pow
      hash := message.envelopeHash.bytes
      topic := message.topic
      p2p := message.p2p }

/-- `toMessage`, and the loop of `GetFilterMessages`. -/
def toMessage (C : Crypto) (messages : List ReceivedMessage) : Except Fault (List Message) :=
  messages.mapM (toWhisperMessage C)

/-! ### What `Open` returns -/

section Open

variable {C : Crypto} {d m : ReceivedMessage} {e : Envelope} {f : Filter}

theorem ReceivedMessage.parseSignature_signer {flags : UInt8} {stop : Int}
    (h : d.parseSignature C flags = .ok (some (m, stop))) :
    if isMessageSigned flags then m.sigToPubKey C = m.src else m.src = d.src := by
  unfold parseSignature at h
  split
  · rename_i hflags
    rw [if_pos hflags] at h
    dsimp only at h
    split at h
    · cases h
    · obtain ⟨signature, -, h⟩ := bind_eq_ok.mp h
      split at h
      · cases h
      · rename_i src hsrc
        cases h
        exact hsrc
  · rename_i hflags
    rw [if_neg hflags] at h
    cases h
    rfl

/-- A message that is marked as signed has the signer that its signature gives, and no other message
has one. -/
theorem ReceivedMessage.validateAndParse_signer (hsrc : d.src = none)
    (h : d.validateAndParse C = .ok (some m)) :
    ∃ flags rest, m.raw = flags :: rest ∧
      if isMessageSigned flags then m.sigToPubKey C = m.src else m.src = none := by
  obtain ⟨flags, rest, signed, stop, hraw, hsig, hpay⟩ := validateAndParse_some h
  have hsigner := parseSignature_signer hsig
  obtain ⟨signature, src, hsigned⟩ := parseSignature_frame hsig
  obtain ⟨payload, padding, rfl⟩ := parsePayload_frame hpay
  refine ⟨flags, rest, ?_, ?_⟩
  · rw [hsigned]
    exact hraw
  · rw [hsrc] at hsigner
    exact hsigner

/-- `Open` copies the topic, the times, the proof of work and the hash of the envelope, and the
message has the signer that its signature gives. -/
theorem Envelope.openEnvelope_fields (h : e.openEnvelope C f = some m) :
    m.topic = e.topic ∧ m.ttl = e.ttl ∧ m.sent = e.expiry - e.ttl ∧ m.pow = e.pow C ∧
      m.envelopeHash = e.hash C ∧ ∃ flags rest, m.raw = flags :: rest ∧
        if isMessageSigned flags then m.sigToPubKey C = m.src else m.src = none := by
  obtain ⟨d, hd, h⟩ := Option.bind_eq_some_iff.mp h
  split at h
  · rename_i msg hparse
    have hsigner := ReceivedMessage.validateAndParse_signer (Envelope.decrypt_src hd) hparse
    cases h
    exact ⟨rfl, rfl, rfl, rfl, rfl, hsigner⟩
  · cases h

/-- The key that opened the envelope: a private key, whose public key the message then names, or a
symmetric key, whose hash it names. -/
theorem Envelope.openEnvelope_key (h : e.openEnvelope C f = some m) :
    (∃ key, f.keyAsym = some key ∧ m.dst = some key.publicKey ∧ m.symKeyHash = 0) ∨
      ∃ key, f.keySym = some key ∧ m.dst = none ∧ m.symKeyHash = C.keccak256Hash key := by
  obtain ⟨-, d, hd, hdst, hhash⟩ := Envelope.openEnvelope_some h
  obtain ⟨key, hkey, -, hd, hd'⟩ | ⟨key, -, hkey, hd, hd'⟩ := Envelope.decrypt_some hd
  · exact .inl ⟨key, hkey, hdst.trans hd, hhash.trans hd'⟩
  · exact .inr ⟨key, hkey, hdst.trans hd, hhash.trans hd'⟩

end Open

/-! ### What a filter asks for -/

/-- The message is one that the filter asks for. -/
structure Filter.Suits (C : Crypto) (f : Filter) (m : ReceivedMessage) : Prop where
  topic : f.topics = [] ∨ ∃ t ∈ f.topics, bytesToTopic t = m.topic
  signer : f.src = none ∨ m.src = f.src
  key : (∃ key, f.keyAsym = some key ∧ m.dst = some key.publicKey) ∨
    ∃ key, f.keySym = some key ∧ m.dst = none ∧ m.symKeyHash = C.keccak256Hash key
  pow : ¬ (FloatVal.zero.lt f.pow.value = true ∧ m.pow.lt f.pow.value = true)
  direct : m.p2p = true → f.allowP2P = true

/-- The public key of the filter, if it has one, can be marshalled. -/
def Filter.Marshals (f : Filter) : Prop :=
  ∀ key, f.keyAsym = some key → (fromECDSAPub key.publicKey).isSome

/-- The message is what a filter has opened the envelope of a notification to, with its mark of a
direct message. -/
def ReceivedMessage.From (C : Crypto) (n : Envelope × Bool) (m : ReceivedMessage) : Prop :=
  ∃ (g : Filter) (m₀ : ReceivedMessage), g.Marshals ∧ n.1.openEnvelope C g = some m₀ ∧
    m = { m₀ with p2p := n.2 }

section Suits

variable {C : Crypto} {n : Envelope × Bool} {e : Envelope} {f : Filter} {m : ReceivedMessage}

theorem Filter.signer_of_accepts (h : f.accepts m = true) : f.src = none ∨ m.src = f.src := by
  rw [accepts, Bool.or_eq_true, Option.isNone_iff_eq_none, isPubKeyEqual_iff] at h
  exact h.imp_right And.right

/-- `MatchMessage` compares public keys, or the hashes of symmetric keys. -/
theorem Filter.key_of_matchKey (hhash : ∀ key, f.keySym = some key →
    f.symKeyHash = C.keccak256Hash key) (hfrom : m.From C n) (h : f.matchKey m = true) :
    (∃ key, f.keyAsym = some key ∧ m.dst = some key.publicKey) ∨
      ∃ key, f.keySym = some key ∧ m.dst = none ∧ m.symKeyHash = C.keccak256Hash key := by
  obtain ⟨g, m₀, -, hopen, rfl⟩ := hfrom
  obtain ⟨key, -, hdst, hzero⟩ | ⟨key, -, hdst, -⟩ := Envelope.openEnvelope_key hopen
  · left
    rw [Filters.matchKey_asymmetric (m := { m₀ with p2p := n.2 }) hdst hzero,
      isPubKeyEqual_iff] at h
    obtain ⟨key', hkey', hpub⟩ := Option.map_eq_some_iff.mp h.2
    exact ⟨key', hkey', hdst.trans (congrArg some hpub.symm)⟩
  · right
    have hasym : ReceivedMessage.isAsymmetricEncryption { m₀ with p2p := n.2 } = false := by
      simp [ReceivedMessage.isAsymmetricEncryption, hdst]
    rw [matchKey, hasym, Bool.and_false, if_neg Bool.false_ne_true] at h
    split at h
    · rename_i hsym
      obtain ⟨key', hkey'⟩ := Option.isSome_iff_exists.mp (Bool.and_eq_true_iff.mp hsym).1
      exact ⟨key', hkey', hdst, (beq_iff_eq.mp h).symm.trans (hhash key' hkey')⟩
    · cases h

theorem Filter.matchKey_of_matchMessage (h : f.matchMessage m = true) :
    ¬ (FloatVal.zero.lt f.pow.value = true ∧ m.pow.lt f.pow.value = true) ∧
      f.matchKey m = true := by
  unfold matchMessage at h
  split at h
  · cases h
  · rename_i hpow
    rw [Bool.and_eq_true] at hpow
    exact ⟨hpow, h⟩

/-- The match with the envelope reads the cached proof of work, which is zero or the right one; with
zero, it lets only a filter without a bound pass. -/
theorem Filter.pow_of_matchEnvelope (h : f.matchEnvelope e = true) :
    ¬ (FloatVal.zero.lt f.pow.value = true ∧ (e.pow C).lt f.pow.value = true) := by
  rintro ⟨hzero, hlt⟩
  have hbound : f.pow.value.le .zero = false := by
    cases hle : f.pow.value.le .zero with
    | false => rfl
    | true => rw [FloatVal.not_lt_of_le hle] at hzero; cases hzero
  rw [matchEnvelope, hbound, Bool.false_or] at h
  by_cases hcache : e.powCache = .zero
  · rw [hcache, hbound] at h
    cases h
  · rw [Envelope.pow_of_powCache hcache, FloatVal.not_lt_of_le h] at hlt
    cases hlt

end Suits

/-! ### The loop of `NotifyWatchers` -/

/-- The state of the loop: before the envelope is open nothing has changed, and after that every
filter that was triggered asks for the message, which is one of the envelope. -/
def Notice.Told (C : Crypto) (fs : Filters) (e : Envelope) (p2p : Bool) (s : Notice) : Prop :=
  s = { env := e } ∨ ∃ m, s.msg = some m ∧ m.p2p = p2p ∧ m.From C (e, p2p) ∧
    ∀ x ∈ s.triggered, x.2 = m ∧ (fs.heap x.1).Suits C x.2

namespace Notice.Told

variable {C : Crypto} {fs : Filters} {e : Envelope} {p2p : Bool} {s : Notice} {r : FilterRef}

theorem visit (hindexed : fs.Indexed C) (hmarshals : (fs.heap r).Marshals)
    (hr : fs.Candidate e.topic r) (h : s.Told C fs e p2p) :
    (s.visit C fs p2p r).Told C fs e p2p := by
  rcases h with rfl | ⟨m, hmsg, hp2p, hfrom, htold⟩
  · by_cases hopener : fs.opener C e p2p r = true
    · -- the first filter that opens the envelope
      have hparts := hopener
      rw [Filters.opener, Bool.and_eq_true, Bool.and_eq_true] at hparts
      obtain ⟨⟨hallow, hmatch⟩, hsome⟩ := hparts
      obtain ⟨m, hopen⟩ := Option.isSome_iff_exists.mp hsome
      rw [Filters.visit_opener hopener hopen]
      refine .inr ⟨_, rfl, rfl, ⟨fs.heap r, m, hmarshals, hopen, rfl⟩, fun x hx => ?_⟩
      dsimp only at hx
      split at hx
      · rename_i haccepts
        rw [List.mem_singleton.mp hx]
        obtain ⟨htopic, -, -, hpow, -⟩ := Envelope.openEnvelope_fields hopen
        refine ⟨rfl, ?_, Filter.signer_of_accepts haccepts, ?_, ?_, ?_⟩
        · rw [htopic]
          exact hr.2
        · obtain ⟨key, hkey, hdst, -⟩ | hsym := Envelope.openEnvelope_key hopen
          · exact .inl ⟨key, hkey, hdst⟩
          · exact .inr hsym
        · rw [hpow]
          exact Filter.pow_of_matchEnvelope hmatch
        · exact fun hdirect => ((Filters.allows_iff).mp hallow).resolve_right
            (Bool.ne_false_iff.mpr hdirect)
      · cases hx
    · rw [Filters.visit_unopened (Bool.eq_false_iff.mpr hopener)]
      exact .inl rfl
  · -- the filters after it
    rw [Filters.visit_opened hmsg hp2p]
    split
    · rename_i hlater
      rw [Filters.later, Bool.and_eq_true, Bool.and_eq_true] at hlater
      obtain ⟨⟨hallow, hmatch⟩, haccepts⟩ := hlater
      refine .inr ⟨m, hmsg, hp2p, hfrom, fun x hx => ?_⟩
      rcases List.mem_append.mp hx with hx | hx
      · exact htold x hx
      · rw [List.mem_singleton.mp hx]
        obtain ⟨hpow, hkey⟩ := Filter.matchKey_of_matchMessage hmatch
        have htopic : m.topic = e.topic := by
          obtain ⟨g, m₀, -, hopen, rfl⟩ := hfrom
          exact (Envelope.openEnvelope_fields hopen).1
        refine ⟨rfl, ?_, Filter.signer_of_accepts haccepts, ?_, hpow, ?_⟩
        · rw [htopic]
          exact hr.2
        · exact Filter.key_of_matchKey (fun key => hindexed.symKeyHash r key hr.1) hfrom hkey
        · intro hdirect
          rw [hp2p] at hdirect
          exact ((Filters.allows_iff).mp hallow).resolve_right (Bool.ne_false_iff.mpr hdirect)
    · exact .inr ⟨m, hmsg, hp2p, hfrom, htold⟩

theorem foldl_visit (hindexed : fs.Indexed C) (hmarshals : ∀ r, (fs.heap r).Marshals)
    {order : List FilterRef} (horder : ∀ r ∈ order, fs.Candidate e.topic r)
    (h : s.Told C fs e p2p) : (order.foldl (Notice.visit C fs p2p) s).Told C fs e p2p := by
  induction order generalizing s with
  | nil => exact h
  | cons r rest ih =>
    exact ih (fun r' hr' => horder r' (List.mem_cons_of_mem _ hr'))
      (h.visit hindexed (hmarshals r) (horder r List.mem_cons_self))

end Notice.Told

/-! ### The stores -/

/-- The public key of the filter can be marshalled, and every message of its store is one of a
notification of the list and one that the filter asks for. -/
structure Filter.Told (C : Crypto) (ns : List (Envelope × Bool)) (f : Filter) : Prop where
  marshals : f.Marshals
  stored : ∀ k m, f.messages.lookup k = some m → ∃ n ∈ ns, m.From C n ∧ f.Suits C m

section Stores

variable {C : Crypto} {ns ns' : List (Envelope × Bool)} {n : Envelope × Bool} {f : Filter}
  {m : ReceivedMessage}

/-- What a filter asks for does not depend on its store. -/
theorem Filter.Suits.store (h : f.Suits C m) (messages : GoMap Hash ReceivedMessage) :
    Filter.Suits C { f with messages } m :=
  ⟨h.topic, h.signer, h.key, h.pow, h.direct⟩

theorem Filter.Told.mono (h : f.Told C ns) (hsub : ns ⊆ ns') : f.Told C ns' := by
  refine ⟨h.marshals, fun k m hm => ?_⟩
  obtain ⟨n, hn, hfrom, hsuits⟩ := h.stored k m hm
  exact ⟨n, hsub hn, hfrom, hsuits⟩

theorem Filter.Told.trigger (h : f.Told C ns) (hn : n ∈ ns) (hfrom : m.From C n)
    (hsuits : f.Suits C m) : (f.trigger m).Told C ns := by
  unfold Filter.trigger
  split
  · exact h
  · refine ⟨h.marshals, fun k m' hm' => ?_⟩
    rcases lookup_insert_iff.mp hm' with ⟨-, rfl⟩ | ⟨-, hold⟩
    · exact ⟨n, hn, hfrom, hsuits.store _⟩
    · obtain ⟨n', hn', hfrom', hsuits'⟩ := h.stored k m' hold
      exact ⟨n', hn', hfrom', hsuits'.store _⟩

/-- The loop of `Pop` moves messages out of the store of `f`. -/
structure Filter.Popped (f : Filter) (s : Filter × List ReceivedMessage) : Prop where
  rest : ∃ messages, s.1 = { f with messages } ∧
    ∀ k m, messages.lookup k = some m → f.messages.lookup k = some m
  all : ∀ m ∈ s.2, ∃ k, f.messages.lookup k = some m

theorem Filter.Popped.popOne {s : Filter × List ReceivedMessage} (h : f.Popped s) (k : Hash) :
    f.Popped (Filter.popOne s k) := by
  obtain ⟨⟨messages, hs, hrest⟩, hall⟩ := h
  unfold Filter.popOne
  split
  · rename_i m hm
    rw [hs] at hm ⊢
    refine ⟨⟨messages.erase k, rfl, fun k' m' hm' => ?_⟩, fun m' hm' => ?_⟩
    · exact hrest k' m' (lookup_erase_iff.mp hm').2
    · rcases List.mem_append.mp hm' with hm' | hm'
      · exact hall m' hm'
      · rw [List.mem_singleton.mp hm']
        exact ⟨k, hrest k m hm⟩
  · exact ⟨⟨messages, hs, hrest⟩, hall⟩

theorem Filter.retrieve_popped (f : Filter) (order : List Hash) : f.Popped (f.retrieve order) := by
  have hstart : f.Popped (f, []) :=
    ⟨⟨f.messages, rfl, fun _ _ hm => hm⟩, fun m hm => absurd hm List.not_mem_nil⟩
  unfold Filter.retrieve
  generalize (f, ([] : List ReceivedMessage)) = s at hstart
  induction order generalizing s with
  | nil => exact hstart
  | cons k rest ih => exact ih _ (hstart.popOne k)

theorem Filter.Told.retrieve (h : f.Told C ns) (order : List Hash) :
    (f.retrieve order).1.Told C ns := by
  obtain ⟨messages, hf, hrest⟩ := (f.retrieve_popped order).rest
  rw [hf]
  refine ⟨h.marshals, fun k m hm => ?_⟩
  obtain ⟨n, hn, hfrom, hsuits⟩ := h.stored k m (hrest k m hm)
  exact ⟨n, hn, hfrom, hsuits.store _⟩

end Stores

namespace Filters

/-- All stores hold what their filters ask for. -/
def Told (C : Crypto) (ns : List (Envelope × Bool)) (fs : Filters) : Prop :=
  ∀ r, (fs.heap r).Told C ns

variable {C : Crypto} {fs : Filters} {ns : List (Envelope × Bool)} {n : Envelope × Bool}
  {e : Envelope} {r : FilterRef}

theorem Told.update (h : fs.Told C ns) {f : Filter} (hf : f.Told C ns) :
    Told C ns { fs with heap := Function.update fs.heap r f } :=
  (Function.forall_update_iff fs.heap (p := fun _ g => g.Told C ns)).mpr ⟨hf, fun r' _ => h r'⟩

theorem Told.foldl_put {triggered : List (FilterRef × ReceivedMessage)} (h : fs.Told C ns)
    (hn : n ∈ ns) (hx : ∀ x ∈ triggered, x.2.From C n ∧ (fs.heap x.1).Suits C x.2) :
    (triggered.foldl put fs).Told C ns := by
  induction triggered generalizing fs with
  | nil => exact h
  | cons x rest ih =>
    obtain ⟨hfrom, hsuits⟩ := hx x List.mem_cons_self
    refine ih (h.update ((h x.1).trigger hn hfrom hsuits)) fun y hy => ?_
    obtain ⟨hfrom', hsuits'⟩ := hx y (List.mem_cons_of_mem _ hy)
    obtain ⟨messages, heq⟩ := (storesOnly_put fs x).heap y.1
    exact ⟨hfrom', heq ▸ hsuits'.store messages⟩

/-- `NotifyWatchers` gives a message of the envelope only to filters that ask for it. -/
theorem Told.notifyWatchers (h : fs.Told C ns) (hindexed : fs.Indexed C) {p2p : Bool}
    (hn : (e, p2p) ∈ ns) {order : List FilterRef} (ho : fs.WatcherOrder e.topic order) :
    (fs.notifyWatchers C e p2p order).Told C ns := by
  have htold : (fs.notice C e p2p order).Told C fs e p2p :=
    Notice.Told.foldl_visit hindexed (fun r => (h r).marshals)
      (fun r hr => (ho.mem_iff hindexed).mp hr) (.inl rfl)
  refine h.foldl_put hn fun x hx => ?_
  rcases htold with hnone | ⟨m, -, -, hfrom, hall⟩
  · rw [hnone] at hx
    cases hx
  · obtain ⟨heq, hsuits⟩ := hall x hx
    exact ⟨heq ▸ hfrom, hsuits⟩

end Filters

/-! ### The conversion -/

/-- The message of the API tells what the received one says, with its keys marshalled. -/
structure Message.Reports (C : Crypto) (e : Envelope) (m : ReceivedMessage) (x : Message) :
    Prop where
  topic : x.topic = e.topic
  ttl : x.ttl = e.ttl
  timestamp : x.timestamp = e.expiry - e.ttl
  pow : x.pow = e.pow C
  hash : x.hash = (e.hash C).bytes
  payload : x.payload = m.payload
  padding : x.padding = m.padding
  sig : marshalKey m.src = .ok x.sig
  dst : marshalKey m.dst = .ok x.dst
  p2p : x.p2p = m.p2p

section Conversion

variable {C : Crypto} {n : Envelope × Bool} {m : ReceivedMessage}

/-- The keys that signatures give are points of the curve, whose coordinates can be marshalled. -/
def Crypto.RecoversPoints (C : Crypto) : Prop :=
  ∀ h sig pub, C.sigToPub h sig = some pub → (fromECDSAPub pub).isSome

theorem ReceivedMessage.sigToPubKey_marshals (hcurve : C.RecoversPoints) {pub : PublicKey}
    (h : m.sigToPubKey C = some pub) : (fromECDSAPub pub).isSome := by
  unfold sigToPubKey at h
  split at h
  · cases h
  · exact hcurve _ _ pub h

theorem marshalKey_ok {pub : PublicKey} (h : (fromECDSAPub pub).isSome) :
    ∃ b, marshalKey (some pub) = .ok b := by
  obtain ⟨b, hb⟩ := Option.isSome_iff_exists.mp h
  exact ⟨b, by rw [marshalKey, hb]⟩

/-- A message that a filter opened is converted without a panic: it has a first byte, the key that
opened it can be marshalled, and so can the key that a signature gives. -/
theorem toWhisperMessage_ok (hcurve : C.RecoversPoints) (hfrom : m.From C n) :
    ∃ x, toWhisperMessage C m = .ok x ∧ x.Reports C n.1 m := by
  obtain ⟨g, m₀, hmarshals, hopen, rfl⟩ := hfrom
  obtain ⟨htopic, httl, hsent, hpow, hhash, flags, rest, hraw, hsigner⟩ :=
    Envelope.openEnvelope_fields hopen
  obtain ⟨dst, hdst⟩ : ∃ dst, marshalKey m₀.dst = .ok dst := by
    obtain ⟨key, hkey, hdst, -⟩ | ⟨key, -, hdst, -⟩ := Envelope.openEnvelope_key hopen
    · rw [hdst]
      exact marshalKey_ok (hmarshals key hkey)
    · exact ⟨[], by rw [hdst, marshalKey]⟩
  obtain ⟨sig, hsig, hsrc⟩ : ∃ sig, m₀.signerBytes C flags = .ok sig ∧
      marshalKey m₀.src = .ok sig := by
    unfold ReceivedMessage.signerBytes
    by_cases hsigned : isMessageSigned flags = true
    · rw [if_pos hsigned] at hsigner ⊢
      rw [hsigner]
      cases hsrc : m₀.src with
      | none => exact ⟨[], rfl, rfl⟩
      | some pub =>
        have hpoint := ReceivedMessage.sigToPubKey_marshals hcurve (hsigner.trans hsrc)
        obtain ⟨b, hb⟩ := marshalKey_ok hpoint
        exact ⟨b, hb, hb⟩
    · rw [if_neg hsigned] at hsigner ⊢
      exact ⟨[], rfl, by rw [hsigner, marshalKey]⟩
  have hindex : index m₀.raw 0 = .ok flags := by
    rw [hraw]
    rfl
  refine ⟨{ sig, dst, p2p := n.2, payload := m₀.payload, padding := m₀.padding,
            timestamp := m₀.sent, ttl := m₀.ttl, pow := m₀.pow, hash := m₀.envelopeHash.bytes,
            topic := m₀.topic }, ?_,
    htopic, httl, hsent, hpow, congrArg Hash.bytes hhash, rfl, rfl, hsrc, hdst, rfl⟩
  exact bind_eq_ok.mpr ⟨dst, hdst, bind_eq_ok.mpr ⟨flags, hindex,
    bind_eq_ok.mpr ⟨sig, hsig, rfl⟩⟩⟩

theorem toMessage_ok (hcurve : C.RecoversPoints) {ns : List (Envelope × Bool)}
    {f : Filter} {messages : List ReceivedMessage}
    (h : ∀ m ∈ messages, ∃ n ∈ ns, m.From C n ∧ f.Suits C m) :
    ∃ out, toMessage C messages = .ok out ∧
      ∀ x ∈ out, ∃ n ∈ ns, ∃ m, m.From C n ∧ f.Suits C m ∧ x.Reports C n.1 m := by
  induction messages with
  | nil => exact ⟨[], rfl, by simp⟩
  | cons m rest ih =>
    obtain ⟨n, hn, hfrom, hsuits⟩ := h m List.mem_cons_self
    obtain ⟨x, hx, hreports⟩ := toWhisperMessage_ok hcurve hfrom
    obtain ⟨out, hout, hall⟩ := ih fun m' hm' => h m' (List.mem_cons_of_mem _ hm')
    refine ⟨x :: out, ?_, ?_⟩
    · rw [toMessage] at hout
      rw [toMessage, List.mapM_cons, hx, hout]
      rfl
    · intro y hy
      rcases List.mem_cons.mp hy with rfl | hy
      · exact ⟨n, hn, m, hfrom, hsuits, hreports⟩
      · exact hall y hy

end Conversion

end Whisperv6
