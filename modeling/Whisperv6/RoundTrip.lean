import Whisperv6.Filter
import Whisperv6.Pool

/-! The round trip of a message: what a filter with the matching key reads out of an envelope is
what the sender put into it, as long as the length of the payload fits into three bytes. -/

namespace Whisperv6

open ProofKit

/-! ### The size field -/

theorem sizeLoop_spec (i s : Nat) :
    ∃ k, sizeLoop i s = s + k ∧ i < 256 ^ (k + 1) ∧ (k = 0 ∨ 256 ^ k ≤ i) := by
  fun_induction sizeLoop i s with
  | case1 i s h ih =>
    obtain ⟨k, hloop, hlt, hge⟩ := ih
    refine ⟨k + 1, by omega, ?_, .inr ?_⟩
    · rw [Nat.pow_succ]
      omega
    · rcases hge with rfl | hge
      · simpa using h
      · rw [Nat.pow_succ]
        omega
  | case2 i s h => exact ⟨0, rfl, by simpa using h, .inl rfl⟩

theorem getSizeOfPayloadSizeField_pos (payload : Bytes) :
    1 ≤ getSizeOfPayloadSizeField payload := by
  obtain ⟨k, hloop, -⟩ := sizeLoop_spec payload.length 1
  rw [getSizeOfPayloadSizeField, hloop]
  omega

/-- The size field has no more than `m` bytes exactly when `m` bytes hold the length. -/
theorem getSizeOfPayloadSizeField_le_iff {payload : Bytes} {m : Nat} (hm : 1 ≤ m) :
    getSizeOfPayloadSizeField payload ≤ m ↔ payload.length < 256 ^ m := by
  obtain ⟨k, hloop, hlt, hge⟩ := sizeLoop_spec payload.length 1
  rw [getSizeOfPayloadSizeField, hloop]
  constructor
  · intro hk
    have hmono : 256 ^ (k + 1) ≤ 256 ^ m := Nat.pow_le_pow_right (by decide) (by omega)
    omega
  · intro hlen
    by_contra hk
    have hmono : 256 ^ m ≤ 256 ^ k := Nat.pow_le_pow_right (by decide) (by omega)
    rcases hge with rfl | hge
    · omega
    · omega

theorem getSizeOfPayloadSizeField_le_three {payload : Bytes} (h : payload.length < 2 ^ 24) :
    getSizeOfPayloadSizeField payload ≤ 3 := (getSizeOfPayloadSizeField_le_iff (by decide)).mpr h

theorem getSizeOfPayloadSizeField_eq_four {payload : Bytes} (hlow : 2 ^ 24 ≤ payload.length)
    (hhigh : payload.length < 2 ^ 32) : getSizeOfPayloadSizeField payload = 4 := by
  have h4 : getSizeOfPayloadSizeField payload ≤ 4 :=
    (getSizeOfPayloadSizeField_le_iff (by decide)).mpr hhigh
  have h3 : ¬ getSizeOfPayloadSizeField payload ≤ 3 := by
    intro h
    have := (getSizeOfPayloadSizeField_le_iff (by decide)).mp h
    omega
  omega

theorem bytesToUintLittleEndian_foldl (b : Bytes) (r m : UInt64) :
    (b.foldl (fun (acc : UInt64 × UInt64) x => (acc.1 + x.toUInt64 * acc.2, acc.2 * 256))
      (r, m)).1 = r + m * UInt64.ofNat (leValue b) := by
  induction b generalizing r m with
  | nil => simp [leValue]
  | cons x rest ih =>
    have hx : x.toUInt64 = UInt64.ofNat x.toNat := by
      apply UInt64.toNat_inj.mp
      have hlt := x.toNat_lt
      rw [UInt8.toNat_toUInt64, UInt64.toNat_ofNat', Nat.mod_eq_of_lt (by omega)]
    rw [List.foldl_cons, ih, leValue, UInt64.ofNat_add, UInt64.ofNat_mul, ← hx]
    grind

theorem toNat_bytesToUintLittleEndian (b : Bytes) :
    (bytesToUintLittleEndian b).toNat = leValue b % 2 ^ 64 := by
  rw [bytesToUintLittleEndian, bytesToUintLittleEndian_foldl]
  simp

theorem toNat_sizeField {k n : Nat} (hk : k ≤ 3) (hn : n < 256 ^ k) :
    (bytesToUintLittleEndian (leBytes k n)).toNat = n := by
  have hle : 256 ^ k ≤ 256 ^ 3 := Nat.pow_le_pow_right (by decide) hk
  rw [toNat_bytesToUintLittleEndian, leValue_leBytes, Nat.mod_eq_of_lt hn, Nat.mod_eq_of_lt]
  omega

/-- The flags of a message hold the size of its size field in their two low bits, and leave the
signature bit alone. -/
theorem flags_spec {k : Nat} (h1 : 1 ≤ k) (h3 : k ≤ 3) :
    isMessageSigned (UInt8.ofNat k) = false ∧
    isMessageSigned (UInt8.ofNat k ||| signatureFlag) = true ∧
    (UInt8.ofNat k &&& sizeMask).toNat = k ∧
    ((UInt8.ofNat k ||| signatureFlag) &&& sizeMask).toNat = k := by
  have hk : k = 1 ∨ k = 2 ∨ k = 3 := by omega
  rcases hk with rfl | rfl | rfl <;> decide

/-! ### What the sender builds -/

/-- The plaintext of a message before it is signed: flags, size field, payload and padding. -/
def plaintext (flags : UInt8) (k : Nat) (payload padding : Bytes) : Bytes :=
  flags :: (leBytes k payload.length ++ (payload ++ padding))

theorem SentMessage.addPayloadSizeField_eq {payload : Bytes} {k : Nat}
    (hsize : getSizeOfPayloadSizeField payload = k) (hk : k ≤ 4) :
    SentMessage.addPayloadSizeField { raw := [0] } payload =
      .ok { raw := UInt8.ofNat k :: leBytes k payload.length } := by
  have hlt : payload.length < 256 ^ 4 :=
    (getSizeOfPayloadSizeField_le_iff (by decide)).mp (hsize ▸ hk)
  have hbytes : putUint32 (UInt32.ofNat payload.length) =
      [] ++ (leBytes k payload.length ++ leBytes (4 - k) (payload.length / 256 ^ k)) := by
    have hnat : (UInt32.ofNat payload.length).toNat = payload.length := by
      rw [UInt32.toNat_ofNat']
      exact Nat.mod_eq_of_lt hlt
    have hsum : 4 = k + (4 - k) := by omega
    rw [putUint32, hnat, List.nil_append, ← leBytes_append, ← hsum]
  have hfield : slice (putUint32 (UInt32.ofNat payload.length)) 0 k =
      .ok (leBytes k payload.length) := slice_append hbytes rfl (by simp)
  unfold addPayloadSizeField
  dsimp only
  rw [hsize, hfield]
  simp

/-- A size field of more than four bytes is sliced out of range. -/
theorem SentMessage.addPayloadSizeField_panic {payload : Bytes}
    (hk : ¬ getSizeOfPayloadSizeField payload ≤ 4) (msg : SentMessage) :
    msg.addPayloadSizeField payload = .error .panic := by
  have hout : slice (putUint32 (UInt32.ofNat payload.length)) 0
      (getSizeOfPayloadSizeField payload) = .error .panic := by
    refine if_neg ?_
    rw [putUint32, length_leBytes]
    omega
  unfold addPayloadSizeField
  dsimp only
  rw [hout]

/-- What `NewSentMessage` builds: the padding is the one of the parameters if they have one, and
random otherwise. -/
theorem SentMessage.newSentMessage_ok {rnd : Entropy} {params : MessageParams} {msg : SentMessage}
    (h : newSentMessage rnd params = .ok msg) :
    getSizeOfPayloadSizeField params.payload ≤ 4 ∧
    ∃ padding, (params.padding ≠ [] → padding = params.padding) ∧
      (params.padding = [] → padding.length = paddingSize params) ∧
      msg.raw = plaintext (UInt8.ofNat (getSizeOfPayloadSizeField params.payload))
        (getSizeOfPayloadSizeField params.payload) params.payload padding := by
  unfold newSentMessage at h
  by_cases hk : getSizeOfPayloadSizeField params.payload ≤ 4
  · refine ⟨hk, ?_⟩
    rw [addPayloadSizeField_eq rfl hk] at h
    dsimp only at h
    unfold appendPadding at h
    split at h
    · cases h
      rename_i hlen
      refine ⟨params.padding, fun _ => rfl, fun hnil => absurd (hnil ▸ rfl) hlen, ?_⟩
      simp [plaintext]
    · rename_i hempty
      have hnil : params.padding = [] := by simpa using hempty
      split at h
      · cases h
      · rename_i pad _
        split at h
        · cases h
        · cases h
          refine ⟨pad.toList, fun hne => absurd hnil hne, fun _ => Vector.length_toList, ?_⟩
          simp [plaintext]
  · rw [addPayloadSizeField_panic hk] at h
    cases h

theorem SentMessage.newSentMessage_eq {rnd : Entropy} {params : MessageParams} {k : Nat}
    (hpadding : params.padding ≠ []) (hsize : getSizeOfPayloadSizeField params.payload = k)
    (hk : k ≤ 4) :
    newSentMessage rnd params =
      .ok { raw := plaintext (UInt8.ofNat k) k params.payload params.padding } := by
  have hne : params.padding.length ≠ 0 := by simpa using hpadding
  unfold newSentMessage
  rw [addPayloadSizeField_eq hsize hk]
  dsimp only
  rw [appendPadding, if_pos hne]
  simp [plaintext]

/-- A message with a short size field gets its signature over everything before it. -/
theorem SentMessage.sign_ok {C : Crypto} {msg msg' : SentMessage} {key : PrivateKey} {k : Nat}
    {rest : Bytes} (h1 : 1 ≤ k) (h3 : k ≤ 3) (hraw : msg.raw = UInt8.ofNat k :: rest)
    (h : msg.sign C key = .ok msg') :
    ∃ signature,
      C.sign (C.keccak256Hash ((UInt8.ofNat k ||| signatureFlag) :: rest)) key = .ok signature ∧
      msg'.raw = (UInt8.ofNat k ||| signatureFlag) :: rest ++ signature := by
  unfold sign at h
  rw [hraw] at h
  dsimp only at h
  rw [(flags_spec h1 h3).1, if_neg (by decide)] at h
  split at h
  · cases h
  · rename_i signature hsign
    cases h
    exact ⟨signature, hsign, rfl⟩

theorem Envelope.sealEnvelope_ok {C : Crypto} {e e' : Envelope} {options : MessageParams}
    {rounds : Nat} (h : e.sealEnvelope C options rounds = .ok e') :
    e'.data = e.data ∧ e'.ttl = e.ttl ∧ e'.topic = e.topic := by
  have hpostpone : (e.postpone options).data = e.data ∧ (e.postpone options).ttl = e.ttl ∧
      (e.postpone options).topic = e.topic := by
    unfold postpone
    split <;> exact ⟨rfl, rfl, rfl⟩
  unfold sealEnvelope at h
  dsimp only at h
  split at h
  · cases h
    exact ⟨rfl, rfl, rfl⟩
  · split at h
    · cases h
    · cases h
      exact hpostpone

theorem SentMessage.wrap_ok {C : Crypto} {rnd : Entropy} {msg : SentMessage}
    {params : MessageParams} {now : Int} {rounds : Nat} {e : Envelope}
    (h : msg.wrap C rnd params now rounds = .ok e) :
    ∃ signed encrypted, msg.signFor C params = .ok signed ∧
      signed.encrypt C rnd params = .ok encrypted ∧ e.data = encrypted.raw := by
  unfold wrap at h
  dsimp only at h
  split at h
  · cases h
  · rename_i signed hsigned
    split at h
    · cases h
    · rename_i encrypted hencrypted
      exact ⟨signed, encrypted, hsigned, hencrypted, (Envelope.sealEnvelope_ok h).1⟩

/-! ### What the receiver parses -/

namespace ReceivedMessage

theorem parseSignature_unsigned {C : Crypto} {msg : ReceivedMessage} {flags : UInt8}
    (h : isMessageSigned flags = false) :
    msg.parseSignature C flags = .ok (some (msg, msg.raw.length)) := by
  rw [parseSignature, h, if_neg (by decide)]

theorem hash_signed {C : Crypto} {msg : ReceivedMessage} {flags : UInt8} {rest signature : Bytes}
    (hraw : msg.raw = flags :: rest ++ signature) (hflags : isMessageSigned flags = true)
    (hlen : signature.length = signatureLength) :
    msg.hash C = .ok (C.keccak256Hash (flags :: rest)) := by
  have hindex : index msg.raw 0 = .ok flags := by rw [hraw]; rfl
  have hsplit : msg.raw = [] ++ (flags :: rest ++ signature) := hraw
  have hslice : slice msg.raw 0 (msg.raw.length - signatureLength) = .ok (flags :: rest) := by
    apply slice_append hsplit rfl
    rw [hraw, List.length_append, hlen]
    simp
  unfold hash
  rw [hindex]
  simp only [bind, Except.bind, hflags, if_true, hslice]

/-- The signature is the tail of the message, and its signer is recovered from what precedes it. -/
theorem parseSignature_cut {C : Crypto} {msg : ReceivedMessage} {flags : UInt8}
    {rest signature : Bytes} (hraw : msg.raw = flags :: rest ++ signature)
    (hflags : isMessageSigned flags = true) (hrest : rest ≠ [])
    (hlen : signature.length = signatureLength) :
    msg.parseSignature C flags =
      .ok ((C.sigToPub (C.keccak256Hash (flags :: rest)) signature).map fun key =>
        ({ msg with signature := signature, src := some key }, (flags :: rest).length)) := by
  have hpos : 0 < rest.length := List.length_pos_of_ne_nil hrest
  have hstop : (msg.raw.length : Int) - signatureLength = (flags :: rest).length := by
    rw [hraw, List.length_append, hlen]
    omega
  have hsplit : msg.raw = flags :: rest ++ (signature ++ []) := by rw [hraw, List.append_nil]
  have hslice : slice msg.raw (flags :: rest).length
      ((flags :: rest).length + signatureLength) = .ok signature := by
    apply slice_append hsplit rfl
    rw [hlen]
  have hhash : ({ msg with signature := signature } : ReceivedMessage).hash C =
      .ok (C.keccak256Hash (flags :: rest)) := hash_signed hraw hflags hlen
  have hpub : ({ msg with signature := signature } : ReceivedMessage).sigToPubKey C =
      C.sigToPub (C.keccak256Hash (flags :: rest)) signature := by rw [sigToPubKey, hhash]
  unfold parseSignature
  rw [hflags, if_pos rfl]
  dsimp only
  rw [hstop, if_neg (by rw [List.length_cons]; omega), hslice]
  simp only [bind, Except.bind, hpub]
  cases C.sigToPub (C.keccak256Hash (flags :: rest)) signature <;> rfl

theorem parseSignature_signed {C : Crypto} {msg : ReceivedMessage} {flags : UInt8}
    {rest signature : Bytes} {key : PublicKey} (hraw : msg.raw = flags :: rest ++ signature)
    (hflags : isMessageSigned flags = true) (hrest : rest ≠ [])
    (hlen : signature.length = signatureLength)
    (hkey : C.sigToPub (C.keccak256Hash (flags :: rest)) signature = some key) :
    msg.parseSignature C flags = .ok (some
      ({ msg with signature := signature, src := some key }, ((flags :: rest).length : Int))) := by
  rw [parseSignature_cut hraw hflags hrest hlen, hkey]
  rfl

/-- A size field of one to three bytes is read back, with the payload and the padding after it. -/
theorem parsePayload_ok {msg : ReceivedMessage} {flags : UInt8} {k : Nat}
    {payload padding signature : Bytes} (h1 : 1 ≤ k) (h3 : k ≤ 3)
    (hflags : (flags &&& sizeMask).toNat = k) (hlen : payload.length < 256 ^ k)
    (hraw : msg.raw = plaintext flags k payload padding ++ signature) :
    msg.parsePayload flags (plaintext flags k payload padding).length =
      .ok (some { msg with payload := payload, padding := padding }) := by
  have hstop : ((plaintext flags k payload padding).length : Int) =
      1 + k + payload.length + padding.length := by
    simp [plaintext]
    omega
  have hfield : slice msg.raw 1 (1 + k) = .ok (leBytes k payload.length) := by
    have hsplit : msg.raw =
        [flags] ++ (leBytes k payload.length ++ (payload ++ padding ++ signature)) := by
      simp [hraw, plaintext]
    exact slice_append hsplit rfl (by simp)
  have hpayload : slice msg.raw (1 + k) (1 + k + payload.length) = .ok payload := by
    have hsplit : msg.raw =
        (flags :: leBytes k payload.length) ++ (payload ++ (padding ++ signature)) := by
      simp [hraw, plaintext]
    apply slice_append hsplit
    · simp
      omega
    · simp
      omega
  have hpadding : slice msg.raw (1 + k + payload.length)
      (1 + k + payload.length + padding.length) = .ok padding := by
    have hsplit : msg.raw =
        (flags :: (leBytes k payload.length ++ payload)) ++ (padding ++ signature) := by
      simp [hraw, plaintext]
    apply slice_append hsplit
    · simp
      omega
    · simp
      omega
  unfold parsePayload
  dsimp only
  rw [hflags, hstop, if_pos (by omega), if_neg (by omega), hfield]
  simp only [bind, Except.bind]
  rw [toNat_sizeField h3 hlen, if_neg (by omega), hpayload, hpadding]

theorem parsePayload_no_size {msg m : ReceivedMessage} {flags : UInt8} {stop : Int}
    (hflags : (flags &&& sizeMask).toNat = 0)
    (h : msg.parsePayload flags stop = .ok (some m)) : m.payload = msg.payload := by
  unfold parsePayload at h
  dsimp only at h
  rw [hflags, if_neg (by decide)] at h
  obtain ⟨padding, -, h⟩ := bind_eq_ok.mp h
  cases h
  rfl

/-- A message whose flags have no size in their low bits is parsed without a payload, if at all. -/
theorem validateAndParse_no_size {C : Crypto} {msg m : ReceivedMessage} {flags : UInt8}
    {rest : Bytes} (hraw : msg.raw = flags :: rest) (hflags : (flags &&& sizeMask).toNat = 0)
    (h : msg.validateAndParse C = .ok (some m)) : m.payload = msg.payload := by
  obtain ⟨flags', rest', signed, stop, hraw', hsig, hpay⟩ := validateAndParse_some h
  rw [hraw] at hraw'
  cases hraw'
  obtain ⟨signature, src, rfl⟩ := parseSignature_frame hsig
  have hpayload := parsePayload_no_size hflags hpay
  exact hpayload

end ReceivedMessage

/-! ### Decryption -/

theorem length_generateSecureRandomData {rnd : Entropy} {length : Nat} {b : Bytes}
    (h : generateSecureRandomData rnd length = .ok b) : b.length = length := by
  unfold generateSecureRandomData at h
  split at h
  · cases h
  split at h
  · cases h
  split at h
  · cases h
  split at h
  · cases h
  dsimp only at h
  split at h
  · cases h
  · rename_i hvalid
    cases h
    simp only [validateDataIntegrity, Bool.not_eq_true', Bool.not_eq_false, Bool.and_eq_true,
      beq_iff_eq] at hvalid
    exact hvalid.1

theorem SentMessage.encryptSymmetric_ok {C : Crypto} {rnd : Entropy} {msg msg' : SentMessage}
    {key : Bytes} (h : msg.encryptSymmetric C rnd key = .ok msg') :
    key.length = aesKeyLength ∧ ∃ salt, salt.length = aesNonceLength ∧
      msg'.raw = C.aesgcmSeal key salt msg.raw ++ salt := by
  unfold encryptSymmetric at h
  split at h
  · cases h
  rename_i hvalid
  split at h
  · cases h
  split at h
  · cases h
  · rename_i salt hsalt
    cases h
    simp only [validateDataIntegrity, Bool.not_eq_true', Bool.not_eq_false, Bool.and_eq_true,
      beq_iff_eq] at hvalid
    exact ⟨hvalid.1, salt, length_generateSecureRandomData hsalt, rfl⟩

theorem SentMessage.encryptAsymmetric_ok {C : Crypto} {rnd : Entropy} {msg msg' : SentMessage}
    {key : PublicKey} (h : msg.encryptAsymmetric C rnd key = .ok msg') :
    C.eciesEncrypt rnd.ecies key msg.raw = .ok msg'.raw := by
  unfold encryptAsymmetric at h
  split at h
  · cases h
  split at h
  · cases h
  · rename_i encrypted hencrypted
    cases h
    exact hencrypted

theorem ReceivedMessage.decryptSymmetric_ok {C : Crypto} {msg : ReceivedMessage}
    {key salt text plain : Bytes} (hraw : msg.raw = text ++ salt)
    (hsalt : salt.length = aesNonceLength) (hkey : key.length = aesKeyLength)
    (hopen : C.aesgcmOpen key salt text = .ok plain) :
    msg.decryptSymmetric C key = .ok { msg with raw := plain, salt := salt } := by
  have hlen : (msg.raw.length : Int) - aesNonceLength = text.length := by
    rw [hraw, List.length_append, hsalt]
    omega
  have hslice : slice msg.raw text.length msg.raw.length = .ok salt := by
    have hsplit : msg.raw = text ++ (salt ++ []) := by rw [hraw, List.append_nil]
    apply slice_append hsplit rfl
    rw [hraw, List.length_append]
    omega
  have htext : slice msg.raw 0 text.length = .ok text := by
    have hsplit : msg.raw = [] ++ (text ++ salt) := hraw
    exact slice_append hsplit rfl (by simp)
  have hcipher : aesNewCipher key = .ok () := if_pos (.inr (.inr hkey))
  have hlong : ¬ msg.raw.length < aesNonceLength := by
    rw [hraw, List.length_append, hsalt]
    omega
  unfold decryptSymmetric
  rw [if_neg hlong, hlen, hslice, hcipher, htext]
  simp only [bind, Except.bind, hopen]

/-- The filter holds the key that opens what the parameters encrypt, which name exactly one key. -/
def Filter.Holds (f : Filter) (params : MessageParams) : Prop :=
  (∃ key, params.keySym = some key ∧ params.dst = none ∧
    f.keySym = some key ∧ f.keyAsym = none) ∨
  ∃ key : PrivateKey, params.dst = some key.publicKey ∧ params.keySym = none ∧
    f.keyAsym = some key ∧ f.keySym = none

/-- The signatures that are made for the parameters give back the key of their signer. -/
def Crypto.Signs (C : Crypto) (params : MessageParams) : Prop :=
  ∀ key hash signature, params.src = some key → C.sign hash key = .ok signature →
    signature.length = signatureLength ∧ C.sigToPub hash signature = some key.publicKey

/-- What the cryptographic libraries promise about the keys of the filter and of the signer. -/
structure Crypto.Lawful (C : Crypto) (params : MessageParams) (f : Filter) : Prop where
  aesgcm : ∀ key salt text, f.keySym = some key →
    C.aesgcmOpen key salt (C.aesgcmSeal key salt text) = .ok text
  ecies : ∀ key rnd text encrypted, f.keyAsym = some key →
    C.eciesEncrypt rnd key.publicKey text = .ok encrypted → C.eciesDecrypt key encrypted = .ok text
  signature : C.Signs params

/-- Decryption gives back the plaintext, in a message that is not parsed yet. -/
theorem Envelope.decrypt_encrypt {C : Crypto} {rnd : Entropy} {params : MessageParams}
    {f : Filter} {msg encrypted : SentMessage} {e : Envelope} (hlaws : C.Lawful params f)
    (hholds : f.Holds params) (hencrypt : msg.encrypt C rnd params = .ok encrypted)
    (hdata : e.data = encrypted.raw) :
    ∃ m, e.decrypt C f = some m ∧ m.raw = msg.raw ∧ m.payload = [] ∧ m.src = none := by
  unfold SentMessage.encrypt at hencrypt
  rcases hholds with ⟨key, hsym, hdst, hfsym, hfasym⟩ | ⟨key, hdst, -, hfasym, hfsym⟩
  · rw [hsym, hdst] at hencrypt
    obtain ⟨hkey, salt, hsalt, hraw⟩ := SentMessage.encryptSymmetric_ok hencrypt
    have hopen : e.openSymmetric C key = .ok { raw := msg.raw, salt := salt } :=
      ReceivedMessage.decryptSymmetric_ok (hdata.trans hraw) hsalt hkey
        (hlaws.aesgcm key salt msg.raw hfsym)
    refine ⟨{ raw := msg.raw, salt := salt, symKeyHash := C.keccak256Hash key }, ?_, rfl, rfl, rfl⟩
    simp [decrypt, hfsym, hfasym, hopen, Except.toOption]
  · rw [hdst] at hencrypt
    have hdecrypt : C.eciesDecrypt key e.data = .ok msg.raw := by
      rw [hdata]
      exact hlaws.ecies key _ _ _ hfasym (SentMessage.encryptAsymmetric_ok hencrypt)
    have hopen : e.openAsymmetric C key = .ok { raw := msg.raw } := by
      simp [openAsymmetric, ReceivedMessage.decryptAsymmetric, hdecrypt]
    refine ⟨{ raw := msg.raw, dst := some key.publicKey }, ?_, rfl, rfl, rfl⟩
    simp [decrypt, hfsym, hfasym, hopen, Except.toOption]

/-! ### The round trip -/

/-- The filter reads out of the envelope what the parameters put into it. -/
def RoundTrips (C : Crypto) (params : MessageParams) (e : Envelope) (f : Filter) : Prop :=
  ∃ m, e.openEnvelope C f = some m ∧ m.payload = params.payload ∧
    (params.padding ≠ [] → m.padding = params.padding) ∧
    m.src = params.src.map PrivateKey.publicKey ∧ m.topic = e.topic ∧ m.ttl = e.ttl

theorem RoundTrips.of_validateAndParse {C : Crypto} {params : MessageParams} {e : Envelope}
    {f : Filter} {m m' : ReceivedMessage} (hdecrypt : e.decrypt C f = some m)
    (hparse : m.validateAndParse C = .ok (some m')) (hpayload : m'.payload = params.payload)
    (hpadding : params.padding ≠ [] → m'.padding = params.padding)
    (hsrc : m'.src = params.src.map PrivateKey.publicKey) : RoundTrips C params e f := by
  unfold RoundTrips Envelope.openEnvelope
  rw [hdecrypt, Option.bind_some, hparse]
  exact ⟨_, rfl, hpayload, hpadding, hsrc, rfl, rfl⟩

/-- Whatever opens the envelope opens it to what was encrypted for the parameters. -/
def Envelope.Binds (C : Crypto) (params : MessageParams) (e : Envelope) : Prop :=
  ∀ (rnd : Entropy) (msg encrypted : SentMessage), msg.encrypt C rnd params = .ok encrypted →
    e.data = encrypted.raw → ∀ (f : Filter) (m : ReceivedMessage), e.decrypt C f = some m →
      m.raw = msg.raw

/-- A message that was decrypted to what `Wrap` has encrypted is read as it was put in. -/
theorem roundTrips_of_decrypt {C : Crypto} {rnd : Entropy} {params : MessageParams}
    {msg signed : SentMessage} {e : Envelope} {f : Filter} {m : ReceivedMessage}
    (hmsg : SentMessage.newSentMessage rnd params = .ok msg)
    (hsigned : msg.signFor C params = .ok signed) (hdecrypt : e.decrypt C f = some m)
    (hmraw : m.raw = signed.raw) (hsigns : C.Signs params)
    (hshort : params.payload.length < 2 ^ 24) : RoundTrips C params e f := by
  have h1 := getSizeOfPayloadSizeField_pos params.payload
  have h3 : getSizeOfPayloadSizeField params.payload ≤ 3 :=
    getSizeOfPayloadSizeField_le_three hshort
  have hlen : params.payload.length < 256 ^ getSizeOfPayloadSizeField params.payload :=
    (getSizeOfPayloadSizeField_le_iff h1).mp (Nat.le_refl _)
  have hmsrc := Envelope.decrypt_src hdecrypt
  obtain ⟨-, padding, hpadding, -, hraw⟩ := SentMessage.newSentMessage_ok hmsg
  generalize getSizeOfPayloadSizeField params.payload = k at h1 hlen h3 hraw
  obtain ⟨hunsigned, hsignedFlag, hmask, hmask'⟩ := flags_spec h1 h3
  unfold SentMessage.signFor at hsigned
  cases hsrc : params.src with
  | none =>
    rw [hsrc] at hsigned
    cases hsigned
    rw [hraw] at hmraw
    have hplain : m.raw = plaintext (UInt8.ofNat k) k params.payload padding ++ [] := by
      rw [hmraw, List.append_nil]
    have hparse : m.validateAndParse C =
        .ok (some { m with payload := params.payload, padding := padding }) := by
      have hstop : (m.raw.length : Int) =
          (plaintext (UInt8.ofNat k) k params.payload padding).length := by rw [hmraw]
      rw [ReceivedMessage.validateAndParse_cons hmraw,
        ReceivedMessage.parseSignature_unsigned hunsigned, hstop]
      exact ReceivedMessage.parsePayload_ok h1 h3 hmask hlen hplain
    exact .of_validateAndParse hdecrypt hparse rfl hpadding (by rw [hsrc]; exact hmsrc)
  | some key =>
    rw [hsrc] at hsigned
    obtain ⟨signature, hsign, hsraw⟩ := SentMessage.sign_ok h1 h3 hraw hsigned
    obtain ⟨hsiglen, hsigpub⟩ := hsigns key _ _ hsrc hsign
    rw [hsraw] at hmraw
    have hrest : leBytes k params.payload.length ++ (params.payload ++ padding) ≠ [] := by
      intro hnil
      have := congrArg List.length hnil
      simp at this
      omega
    have hparse : m.validateAndParse C = .ok (some
        { m with
          signature := signature
          src := some key.publicKey
          payload := params.payload
          padding := padding }) := by
      rw [ReceivedMessage.validateAndParse_cons hmraw,
        ReceivedMessage.parseSignature_signed hmraw hsignedFlag hrest hsiglen hsigpub]
      exact ReceivedMessage.parsePayload_ok h1 h3 hmask' hlen hmraw
    exact .of_validateAndParse hdecrypt hparse rfl hpadding (by rw [hsrc]; rfl)

theorem roundTrips_of_short {C : Crypto} {rnd rnd' : Entropy} {params : MessageParams}
    {msg : SentMessage} {e : Envelope} {f : Filter} {now : Int} {rounds : Nat}
    (hmsg : SentMessage.newSentMessage rnd params = .ok msg)
    (hwrap : msg.wrap C rnd' params now rounds = .ok e) (hholds : f.Holds params)
    (hlaws : C.Lawful params f) (hshort : params.payload.length < 2 ^ 24) :
    RoundTrips C params e f := by
  obtain ⟨signed, encrypted, hsigned, hencrypt, hdata⟩ := SentMessage.wrap_ok hwrap
  obtain ⟨m, hdecrypt, hmraw, -, -⟩ := Envelope.decrypt_encrypt hlaws hholds hencrypt hdata
  exact roundTrips_of_decrypt hmsg hsigned hdecrypt hmraw hlaws.signature hshort

theorem roundTrips_of_binds {C : Crypto} {rnd rnd' : Entropy} {params : MessageParams}
    {msg : SentMessage} {e : Envelope} {f : Filter} {now : Int} {rounds : Nat}
    (hmsg : SentMessage.newSentMessage rnd params = .ok msg)
    (hwrap : msg.wrap C rnd' params now rounds = .ok e) (hbinds : e.Binds C params)
    (hsigns : C.Signs params) (hopen : (e.decrypt C f).isSome = true)
    (hshort : params.payload.length < 2 ^ 24) : RoundTrips C params e f := by
  obtain ⟨signed, encrypted, hsigned, hencrypt, hdata⟩ := SentMessage.wrap_ok hwrap
  obtain ⟨m, hdecrypt⟩ := Option.isSome_iff_exists.mp hopen
  have hmraw := hbinds _ signed encrypted hencrypt hdata f m hdecrypt
  exact roundTrips_of_decrypt hmsg hsigned hdecrypt hmraw hsigns hshort

/-- A payload of `2 ^ 24` bytes or more is lost: its size field has four bytes, which reads as no
size and a signature bit. -/
theorem not_roundTrips_of_long {C : Crypto} {rnd rnd' : Entropy} {params : MessageParams}
    {msg : SentMessage} {e : Envelope} {f : Filter} {now : Int} {rounds : Nat}
    (hmsg : SentMessage.newSentMessage rnd params = .ok msg)
    (hwrap : msg.wrap C rnd' params now rounds = .ok e) (hholds : f.Holds params)
    (hlaws : C.Lawful params f) (hlong : ¬ params.payload.length < 2 ^ 24) :
    ¬ RoundTrips C params e f := by
  rintro ⟨m, hopen, hpayload, -⟩
  obtain ⟨h4, padding, -, -, hraw⟩ := SentMessage.newSentMessage_ok hmsg
  have h3 : ¬ getSizeOfPayloadSizeField params.payload ≤ 3 :=
    fun h => hlong ((getSizeOfPayloadSizeField_le_iff (by decide)).mp h)
  have hfour : getSizeOfPayloadSizeField params.payload = 4 := by omega
  rw [hfour] at hraw
  obtain ⟨signed, encrypted, hsigned, hencrypt, hdata⟩ := SentMessage.wrap_ok hwrap
  have hsame : signed = msg := by
    unfold SentMessage.signFor at hsigned
    split at hsigned
    · unfold SentMessage.sign at hsigned
      rw [hraw] at hsigned
      cases hsigned
      rfl
    · cases hsigned
      rfl
  rw [hsame] at hencrypt
  obtain ⟨m', hdecrypt, hmraw, hmpayload, -⟩ :=
    Envelope.decrypt_encrypt hlaws hholds hencrypt hdata
  unfold Envelope.openEnvelope at hopen
  rw [hdecrypt, Option.bind_some] at hopen
  split at hopen
  · rename_i m'' hparse
    cases hopen
    rw [hraw] at hmraw
    have hnil : m''.payload = [] :=
      (ReceivedMessage.validateAndParse_no_size hmraw rfl hparse).trans hmpayload
    have hzero : params.payload = [] := hpayload.symm.trans hnil
    rw [hzero] at hlong
    exact hlong (by decide)
  · cases hopen

/-- A message that `NewSentMessage` and `Wrap` made comes back exactly when its payload has less
than `2 ^ 24` bytes. -/
theorem roundTrips_iff (C : Crypto) {rnd rnd' : Entropy} {params : MessageParams}
    {msg : SentMessage} {e : Envelope} {f : Filter} {now : Int} {rounds : Nat}
    (hmsg : SentMessage.newSentMessage rnd params = .ok msg)
    (hwrap : msg.wrap C rnd' params now rounds = .ok e) (hholds : f.Holds params)
    (hlaws : C.Lawful params f) :
    RoundTrips C params e f ↔ params.payload.length < 2 ^ 24 := by
  constructor
  · intro h
    by_contra hlong
    exact not_roundTrips_of_long hmsg hwrap hholds hlaws hlong h
  · exact roundTrips_of_short hmsg hwrap hholds hlaws

/-! ### Two messages -/

/-- Random sources that give the same byte over and over. -/
def constantEntropy : Entropy where
  crand n := .ok (Vector.replicate n 1)
  mrand n := .ok (Vector.replicate n 2)
  ecies := []

/-- Random sources that make an identifier of one byte. -/
def idEntropy (b : UInt8) : Entropy :=
  { constantEntropy with crand := fun n => .ok (Vector.replicate n b) }

def signerKey : PrivateKey := { publicKey := ⟨some 3, some 4⟩, d := some 5 }

/-- Functions with the laws and the lengths of the real ones: a tag of 16 bytes, and signatures of
65 bytes. -/
def tagCrypto : Crypto where
  keccak256Hash b := BitVec.ofNat 256 (b.length + 1)
  aesgcmSeal _ _ text := text ++ List.replicate 16 0
  aesgcmOpen _ _ text := .ok (text.take (text.length - 16))
  eciesEncrypt _ _ text := .ok text
  eciesDecrypt _ text := .ok text
  sign _ _ := .ok (List.replicate 65 9)
  sigToPub _ _ := some signerKey.publicKey

def topicKey : Bytes := List.replicate 32 7

/-- A message for the holders of the topic key. -/
def topicParams (src : Option PrivateKey) (payload padding : Bytes) : MessageParams where
  ttl := 50
  src := src
  dst := none
  keySym := some topicKey
  topic := sampleEnvelope.topic
  workTime := 0
  pow := 0
  payload := payload
  padding := padding

def topicFilter : Filter := { keySym := some topicKey }

theorem topicFilter_holds (src : Option PrivateKey) (payload padding : Bytes) :
    topicFilter.Holds (topicParams src payload padding) := .inl ⟨topicKey, rfl, rfl, rfl, rfl⟩

theorem tagCrypto_lawful {src : Option PrivateKey} (hsrc : ∀ key ∈ src, key = signerKey)
    (payload padding : Bytes) :
    tagCrypto.Lawful (topicParams src payload padding) topicFilter := by
  constructor
  · intro key salt text _
    show Except.ok ((text ++ List.replicate 16 0).take
      ((text ++ List.replicate 16 0).length - 16)) = Except.ok text
    rw [List.length_append, List.length_replicate, Nat.add_sub_cancel, List.take_left]
  · intro key rnd text encrypted hkey
    cases hkey
  · intro key hash signature hkey hsign
    cases hsign
    rw [hsrc key hkey]
    exact ⟨rfl, rfl⟩

/-- A signed message of three bytes with its random padding. -/
def shortMessage : SentMessage := { raw := [1, 3, 1, 2, 3] ++ List.replicate 186 1 }

def shortEnvelope : Envelope where
  expiry := 1600000050
  ttl := 50
  topic := sampleEnvelope.topic
  data := [5, 3, 1, 2, 3] ++ List.replicate 186 1 ++ List.replicate 65 9 ++ List.replicate 16 0 ++
    List.replicate 12 3
  nonce := 0

theorem roundTrips_iff_signed :
    SentMessage.newSentMessage constantEntropy (topicParams (some signerKey) [1, 2, 3] []) =
      .ok shortMessage ∧
    shortMessage.wrap tagCrypto constantEntropy (topicParams (some signerKey) [1, 2, 3] [])
      1600000000 0 = .ok shortEnvelope ∧
    RoundTrips tagCrypto (topicParams (some signerKey) [1, 2, 3] []) shortEnvelope topicFilter := by
  have hmsg : SentMessage.newSentMessage constantEntropy
      (topicParams (some signerKey) [1, 2, 3] []) = .ok shortMessage := by decide +kernel
  have hwrap : shortMessage.wrap tagCrypto constantEntropy
      (topicParams (some signerKey) [1, 2, 3] []) 1600000000 0 = .ok shortEnvelope := by
    decide +kernel
  have hlaws : tagCrypto.Lawful (topicParams (some signerKey) [1, 2, 3] []) topicFilter :=
    tagCrypto_lawful (by simp) _ _
  exact ⟨hmsg, hwrap, (roundTrips_iff tagCrypto hmsg hwrap (topicFilter_holds _ _ _) hlaws).mpr
    (by decide)⟩

/-- The envelope of an unsigned message with one byte of padding and a size field of four bytes. -/
def longEnvelope (payload : Bytes) : Envelope where
  expiry := 1600000050
  ttl := 50
  topic := sampleEnvelope.topic
  data := plaintext 4 4 payload [1] ++ List.replicate 16 0 ++ List.replicate 12 3
  nonce := 0

theorem wrap_long (payload : Bytes) :
    SentMessage.wrap tagCrypto constantEntropy { raw := plaintext 4 4 payload [1] }
      (topicParams none payload [1]) 1600000000 0 = .ok (longEnvelope payload) := by
  have hsalt : generateSecureRandomData constantEntropy aesNonceLength =
      .ok (List.replicate 12 3) := by decide +kernel
  have hvalid : validateDataIntegrity topicKey aesKeyLength = true := by decide
  have hcipher : aesNewCipher topicKey = .ok () := by decide
  have hencrypt : SentMessage.encryptSymmetric tagCrypto constantEntropy
      { raw := plaintext 4 4 payload [1] } topicKey =
        .ok { raw := (longEnvelope payload).data } := by
    unfold SentMessage.encryptSymmetric
    rw [hvalid, if_neg (by decide), hcipher, hsalt]
    rfl
  have hzero : (0 : Float64).value = .zero := by decide +kernel
  unfold SentMessage.wrap SentMessage.signFor SentMessage.encrypt
  simp only [topicParams, hencrypt, Envelope.sealEnvelope, hzero, if_true, Envelope.newEnvelope]
  rfl

/-- A payload of `2 ^ 32 - 1` bytes makes an envelope of `2 ^ 32 + 53` bytes, which is 53 in 32
bits and passes the size check of `add`, and the payload does not come back. -/
theorem not_roundTrips_wrapped_size :
    ∃ payload : Bytes, ∃ msg e, payload.length = 2 ^ 32 - 1 ∧
      SentMessage.newSentMessage constantEntropy (topicParams none payload [1]) = .ok msg ∧
      msg.wrap tagCrypto constantEntropy (topicParams none payload [1]) 1600000000 0 = .ok e ∧
      UInt32.ofNat e.size ≤ defaultMaxMessageSize ∧
      topicFilter.Holds (topicParams none payload [1]) ∧
      tagCrypto.Lawful (topicParams none payload [1]) topicFilter ∧
      ¬ RoundTrips tagCrypto (topicParams none payload [1]) e topicFilter := by
  obtain ⟨payload, hlen⟩ : ∃ payload : Bytes, payload.length = 2 ^ 32 - 1 :=
    ⟨List.replicate (2 ^ 32 - 1) 0, List.length_replicate⟩
  have hsize : getSizeOfPayloadSizeField payload = 4 :=
    getSizeOfPayloadSizeField_eq_four (by omega) (by omega)
  have hmsg : SentMessage.newSentMessage constantEntropy (topicParams none payload [1]) =
      .ok { raw := plaintext 4 4 payload [1] } :=
    SentMessage.newSentMessage_eq (by simp [topicParams]) hsize (by decide)
  have hlaws : tagCrypto.Lawful (topicParams none payload [1]) topicFilter :=
    tagCrypto_lawful (by simp) _ _
  have hholds := topicFilter_holds none payload [1]
  have hsum : (longEnvelope payload).size = 2 ^ 32 + 53 := by
    simp [Envelope.size, longEnvelope, plaintext, envelopeHeaderLength, hlen]
  refine ⟨payload, _, _, hlen, hmsg, wrap_long payload, ?_, hholds, hlaws, ?_⟩
  · rw [hsum]
    decide
  · refine not_roundTrips_of_long hmsg (wrap_long payload) hholds hlaws ?_
    show ¬ payload.length < 2 ^ 24
    omega

end Whisperv6
