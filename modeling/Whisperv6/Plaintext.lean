import Whisperv6.RoundTrip

/-! The plaintext of a message.  The parser accepts exactly the byte strings that have the parts of
one and never leaves the buffer; the sender fills the plaintext up to a multiple of 256 bytes; and
its flags say what follows unless the size field is as wide as the signature flag. -/

namespace Whisperv6

open ProofKit

/-! ### The parts of a plaintext -/

/-- What follows the flags of a plaintext, up to the signature: the size field, which has the width
that the flags give it and holds the length of the payload, the payload and the padding. -/
structure Body (flags : UInt8) (body field payload padding : Bytes) : Prop where
  eq : body = field ++ (payload ++ padding)
  width : field.length = (flags &&& sizeMask).toNat
  size : leValue field = payload.length

/-- The parts of a plaintext: the flags, the body and, if the flags have the signature bit, a
signature. -/
structure Parts (raw : Bytes) (flags : UInt8) (field payload padding signature : Bytes) :
    Prop where
  eq : raw = flags :: (field ++ payload ++ padding ++ signature)
  width : field.length = (flags &&& sizeMask).toNat
  size : leValue field = payload.length
  signed : signature.length = if isMessageSigned flags then signatureLength else 0

/-- A signed plaintext has something between its flags and its signature, and the signature gives
the key of a signer. -/
def Recoverable (C : Crypto) (flags : UInt8) (body signature : Bytes) : Prop :=
  isMessageSigned flags = true →
    body ≠ [] ∧ (C.sigToPub (C.keccak256Hash (flags :: body)) signature).isSome = true

theorem toNat_sizeMask_le (flags : UInt8) : (flags &&& sizeMask).toNat ≤ 3 := by
  rw [UInt8.toNat_and]
  exact Nat.and_le_right

/-- A body has at most one size field, which is the start of it. -/
theorem exists_body_iff {flags : UInt8} {body : Bytes} :
    (∃ field payload padding, Body flags body field payload padding) ↔
      (flags &&& sizeMask).toNat + leValue (body.take (flags &&& sizeMask).toNat) ≤
        body.length := by
  generalize hk : (flags &&& sizeMask).toNat = k
  constructor
  · rintro ⟨field, payload, padding, heq, hwidth, hsize⟩
    rw [heq, ← hk, ← hwidth, List.take_left, hsize]
    simp
  · intro hle
    have hlen : (body.take k).length = k := List.length_take_of_le (by omega)
    refine ⟨body.take k, (body.drop k).take (leValue (body.take k)),
      (body.drop k).drop (leValue (body.take k)), ?_, hlen.trans hk.symm, ?_⟩
    · rw [List.take_append_drop, List.take_append_drop]
    · rw [List.length_take_of_le]
      rw [List.length_drop]
      omega

namespace ReceivedMessage

/-! ### The payload -/

theorem parsePayload_body {msg : ReceivedMessage} {flags : UInt8}
    {body field payload padding signature : Bytes} (hbody : Body flags body field payload padding)
    (hraw : msg.raw = flags :: (body ++ signature)) (hfresh : msg.payload = []) :
    msg.parsePayload flags (flags :: body).length =
      .ok (some { msg with payload := payload, padding := padding }) := by
  have hle := toNat_sizeMask_le flags
  have hlt := leValue_lt field
  have hplain : flags :: body = plaintext flags field.length payload padding := by
    rw [plaintext, ← hbody.size, leBytes_leValue, hbody.eq]
  rcases Nat.eq_zero_or_pos field.length with hzero | hpos
  · have hfield : field = [] := List.length_eq_zero_iff.mp hzero
    have hpayload : payload = [] := by
      apply List.length_eq_zero_iff.mp
      rw [← hbody.size, hfield]
      rfl
    have hpadding : body = padding := by
      rw [hbody.eq, hfield, hpayload]
      rfl
    have hslice : slice msg.raw 1 (flags :: body).length = .ok padding := by
      apply slice_append (x := [flags]) (z := signature)
      · rw [hraw, hpadding]
        rfl
      · rfl
      · rw [hpadding, List.length_cons, List.length_singleton]
        omega
    unfold parsePayload
    rw [← hbody.width, hzero]
    dsimp only
    rw [if_neg (by decide), hslice, hpayload, ← hfresh]
    rfl
  · rw [hplain]
    apply parsePayload_ok hpos (by rw [hbody.width]; exact hle) hbody.width.symm
    · rw [← hbody.size]
      exact hlt
    · rw [hraw, ← List.cons_append, hplain]

theorem parsePayload_none {msg : ReceivedMessage} {flags : UInt8} {body signature : Bytes}
    (hnone : ¬ ∃ field payload padding, Body flags body field payload padding)
    (hraw : msg.raw = flags :: (body ++ signature)) :
    msg.parsePayload flags (flags :: body).length = .ok none := by
  have hle := toNat_sizeMask_le flags
  rw [exists_body_iff] at hnone
  unfold parsePayload
  generalize (flags &&& sizeMask).toNat = k at hle hnone ⊢
  dsimp only
  have hk : k ≠ 0 := by
    rintro rfl
    simp [leValue] at hnone
  rw [if_pos (by omega)]
  by_cases hshort : ((flags :: body).length : Int) < 1 + k
  · rw [if_pos hshort]
  · have hlen : (body.take k).length = k := by
      apply List.length_take_of_le
      rw [List.length_cons] at hshort
      omega
    have hfield : slice msg.raw 1 (1 + k) = .ok (body.take k) := by
      apply slice_append (x := [flags]) (z := body.drop k ++ signature)
      · rw [hraw, ← List.append_assoc (body.take k), List.take_append_drop]
        rfl
      · rfl
      · rw [hlen]
        rfl
    have hlt := leValue_lt (body.take k)
    have hbound : 256 ^ (body.take k).length ≤ 256 ^ 3 :=
      Nat.pow_le_pow_right (by decide) (by omega)
    have hsize : (bytesToUintLittleEndian (body.take k)).toNat = leValue (body.take k) := by
      rw [toNat_bytesToUintLittleEndian]
      exact Nat.mod_eq_of_lt (by omega)
    rw [if_neg hshort, hfield]
    simp only [bind, Except.bind]
    rw [hsize, if_pos (by rw [List.length_cons]; omega)]

/-! ### The signature -/

theorem parseSignature_short {C : Crypto} {msg : ReceivedMessage} {flags : UInt8} {rest : Bytes}
    (hraw : msg.raw = flags :: rest) (hflags : isMessageSigned flags = true)
    (hshort : rest.length ≤ signatureLength) : msg.parseSignature C flags = .ok none := by
  unfold parseSignature
  rw [hflags, if_pos rfl]
  dsimp only
  rw [if_pos]
  rw [hraw, List.length_cons]
  omega

/-- What is longer than a signature ends in one. -/
theorem exists_signature {rest : Bytes} (hlong : ¬ rest.length ≤ signatureLength) :
    ∃ body signature, rest = body ++ signature ∧ body ≠ [] ∧
      signature.length = signatureLength := by
  refine ⟨rest.take (rest.length - signatureLength), rest.drop (rest.length - signatureLength),
    (List.take_append_drop _ _).symm, ?_, ?_⟩
  · apply List.ne_nil_of_length_pos
    rw [List.length_take]
    omega
  · rw [List.length_drop]
    omega

/-! ### `ValidateAndParse` -/

section

variable {C : Crypto} {msg : ReceivedMessage} {flags : UInt8}

/-- Once the signature is cut off, the rest is parsed or refused. -/
theorem parsePayload_sound {body signature : Bytes} (hraw : msg.raw = flags :: (body ++ signature))
    (hfresh : msg.payload = []) :
    ∃ r, msg.parsePayload flags (flags :: body).length = .ok r ∧ ∀ m, r = some m →
      ∃ field, Body flags body field m.payload m.padding ∧ m.signature = msg.signature := by
  by_cases hbody : ∃ field payload padding, Body flags body field payload padding
  · obtain ⟨field, payload, padding, hbody⟩ := hbody
    refine ⟨_, parsePayload_body hbody hraw hfresh, fun m hm => ?_⟩
    cases hm
    exact ⟨field, hbody, rfl⟩
  · exact ⟨none, parsePayload_none hbody hraw, fun m hm => by cases hm⟩

theorem parts_of_body {raw body field payload padding signature : Bytes}
    (hbody : Body flags body field payload padding) (hraw : raw = flags :: (body ++ signature))
    (hsigned : signature.length = if isMessageSigned flags then signatureLength else 0) :
    Parts raw flags field payload padding signature where
  eq := by rw [hraw, hbody.eq, ← List.append_assoc field]
  width := hbody.width
  size := hbody.size
  signed := hsigned

/-- Whatever is parsed has its parts. -/
theorem validateAndParse_sound (C : Crypto) (hfresh : msg.payload = [] ∧ msg.signature = []) :
    ∃ r, msg.validateAndParse C = .ok r ∧ ∀ m, r = some m → ∃ flags field,
      Parts msg.raw flags field m.payload m.padding m.signature ∧
      Recoverable C flags (field ++ m.payload ++ m.padding) m.signature := by
  cases hraw : msg.raw with
  | nil =>
    refine ⟨none, ?_, fun m hm => by cases hm⟩
    unfold validateAndParse
    rw [hraw]
    rfl
  | cons flags rest =>
    rw [validateAndParse_cons hraw]
    cases hflags : isMessageSigned flags with
    | false =>
      have hrest : msg.raw = flags :: (rest ++ []) := by rw [hraw, List.append_nil]
      obtain ⟨r, hpay, hr⟩ := parsePayload_sound hrest hfresh.1
      rw [parseSignature_unsigned hflags, hraw]
      refine ⟨r, hpay, fun m hm => ?_⟩
      obtain ⟨field, hbody, hsignature⟩ := hr m hm
      rw [hfresh.2] at hsignature
      refine ⟨flags, field, parts_of_body hbody ?_ ?_, fun h => ?_⟩
      · rw [hsignature, List.append_nil]
      · rw [hsignature, hflags]
        rfl
      · rw [hflags] at h
        cases h
    | true =>
      by_cases hshort : rest.length ≤ signatureLength
      · rw [parseSignature_short hraw hflags hshort]
        exact ⟨none, rfl, fun m hm => by cases hm⟩
      · obtain ⟨body, signature, rfl, hbody, hlen⟩ := exists_signature hshort
        have hcut : msg.raw = flags :: body ++ signature := hraw
        rw [parseSignature_cut hcut hflags hbody hlen]
        cases hkey : C.sigToPub (C.keccak256Hash (flags :: body)) signature with
        | none => exact ⟨none, rfl, fun m hm => by cases hm⟩
        | some key =>
          have hsigned : ({ msg with signature := signature, src := some key } :
            ReceivedMessage).raw = flags :: (body ++ signature) := hraw
          obtain ⟨r, hpay, hr⟩ := parsePayload_sound hsigned hfresh.1
          refine ⟨r, hpay, fun m hm => ?_⟩
          obtain ⟨field, hparts, hsignature⟩ := hr m hm
          have heq : body = field ++ m.payload ++ m.padding := by
            rw [hparts.eq, List.append_assoc]
          refine ⟨flags, field, parts_of_body hparts ?_ ?_, fun _ => ?_⟩
          · rw [hsignature]
          · rw [hsignature, hflags]
            exact hlen
          · rw [← heq, hsignature]
            exact ⟨hbody, by rw [hkey]; rfl⟩

/-- A plaintext with its parts, and with a signer if it is signed, is parsed. -/
theorem validateAndParse_complete {field payload padding signature : Bytes}
    (hfresh : msg.payload = []) (hparts : Parts msg.raw flags field payload padding signature)
    (hsigner : Recoverable C flags (field ++ payload ++ padding) signature) :
    ∃ m, msg.validateAndParse C = .ok (some m) := by
  have hbody : Body flags (field ++ payload ++ padding) field payload padding :=
    ⟨List.append_assoc .., hparts.width, hparts.size⟩
  rw [validateAndParse_cons hparts.eq]
  cases hflags : isMessageSigned flags with
  | false =>
    have hnil : signature = [] := by
      apply List.length_eq_zero_iff.mp
      rw [hparts.signed, hflags]
      rfl
    have hstop : msg.raw.length = (flags :: (field ++ payload ++ padding)).length := by
      rw [hparts.eq, hnil, List.append_nil]
    rw [parseSignature_unsigned hflags, hstop]
    exact ⟨_, parsePayload_body hbody hparts.eq hfresh⟩
  | true =>
    obtain ⟨hne, hkey⟩ := hsigner hflags
    obtain ⟨key, hkey⟩ := Option.isSome_iff_exists.mp hkey
    have hlen : signature.length = signatureLength := by
      rw [hparts.signed, hflags]
      rfl
    have hcut : msg.raw = flags :: (field ++ payload ++ padding) ++ signature := hparts.eq
    have hsigned : ({ msg with signature := signature, src := some key } : ReceivedMessage).raw =
      flags :: (field ++ payload ++ padding ++ signature) := hparts.eq
    rw [parseSignature_signed hcut hflags hne hlen hkey]
    exact ⟨_, parsePayload_body hbody hsigned hfresh⟩

end

/-- `ValidateAndParse` stays inside the buffer, also where it recovers from a panic, and accepts
exactly the plaintexts that have their parts and, if signed, a signer; it returns these parts. -/
theorem validateAndParse_exact (C : Crypto) (msg : ReceivedMessage)
    (hfresh : msg.payload = [] ∧ msg.signature = []) :
    (∃ r, msg.validateAndParse C = .ok r) ∧
    (∀ flags rest signature, msg.raw = flags :: rest → isMessageSigned flags = true →
      (1 : Int) < msg.raw.length - signatureLength →
      ∃ h, ({ msg with signature := signature } : ReceivedMessage).hash C = .ok h) ∧
    (∀ m, msg.validateAndParse C = .ok (some m) → ∃ flags field,
      Parts msg.raw flags field m.payload m.padding m.signature) ∧
    ((∃ m, msg.validateAndParse C = .ok (some m)) ↔
      ∃ flags field payload padding signature,
        Parts msg.raw flags field payload padding signature ∧
        Recoverable C flags (field ++ payload ++ padding) signature) := by
  obtain ⟨r, hr, hsound⟩ := validateAndParse_sound C hfresh
  have haccepted : ∀ m, msg.validateAndParse C = .ok (some m) → r = some m := by
    intro m hm
    rw [hr] at hm
    injection hm
  refine ⟨⟨r, hr⟩, fun flags rest signature hraw hflags hlong => ?_, fun m hm => ?_, ?_, ?_⟩
  · have hindex : index msg.raw 0 = .ok flags := by rw [hraw]; rfl
    have hslice := slice_ok (b := msg.raw) (i := 0) (j := msg.raw.length - signatureLength)
      (by omega) (by omega) (by omega)
    unfold hash
    dsimp only
    rw [hindex]
    simp only [bind, Except.bind, hflags, if_true, hslice]
    exact ⟨_, rfl⟩
  · obtain ⟨flags, field, hparts, -⟩ := hsound m (haccepted m hm)
    exact ⟨flags, field, hparts⟩
  · rintro ⟨m, hm⟩
    obtain ⟨flags, field, hparts, hsigner⟩ := hsound m (haccepted m hm)
    exact ⟨flags, field, m.payload, m.padding, m.signature, hparts, hsigner⟩
  · rintro ⟨flags, field, payload, padding, signature, hparts, hsigner⟩
    exact validateAndParse_complete hfresh.1 hparts hsigner

/-- A signed plaintext of one byte, with one byte of padding. -/
theorem validateAndParse_exact_signed :
    ∃ m, ReceivedMessage.validateAndParse tagCrypto
      { raw := [5, 1, 7, 8] ++ List.replicate 65 9 } = .ok (some m) :=
  (validateAndParse_exact tagCrypto { raw := [5, 1, 7, 8] ++ List.replicate 65 9 }
    ⟨rfl, rfl⟩).2.2.2.mpr ⟨5, [1], [7], [8], List.replicate 65 9, ⟨rfl, rfl, rfl, rfl⟩,
      fun _ => ⟨by decide, rfl⟩⟩

end ReceivedMessage

/-! ### `Open` -/

theorem ReceivedMessage.decryptSymmetric_ne_panic (C : Crypto) (msg : ReceivedMessage)
    (key : Bytes) : msg.decryptSymmetric C key ≠ .error .panic := by
  unfold decryptSymmetric
  split
  · nofun
  · rename_i hlong
    have hsalt := slice_ok (b := msg.raw) (i := msg.raw.length - aesNonceLength)
      (j := msg.raw.length) (by omega) (by omega) (by omega)
    have htext := slice_ok (b := msg.raw) (i := 0) (j := msg.raw.length - aesNonceLength)
      (by omega) (by omega) (by omega)
    rw [hsalt, htext]
    simp only [bind, Except.bind]
    split
    · nofun
    · split
      · nofun
      · nofun

namespace Envelope

variable (C : Crypto) (e : Envelope) (f : Filter)

theorem openAsymmetric_ne_panic (key : PrivateKey) : e.openAsymmetric C key ≠ .error .panic := by
  unfold openAsymmetric ReceivedMessage.decryptAsymmetric
  cases C.eciesDecrypt key e.data with
  | ok decrypted => nofun
  | error err =>
    dsimp only
    split
    · nofun
    · nofun

theorem openSymmetric_ne_panic (key : Bytes) : e.openSymmetric C key ≠ .error .panic :=
  ReceivedMessage.decryptSymmetric_ne_panic C { raw := e.data } key

theorem decryptFault_eq : e.decryptFault C f = .ok (e.decrypt C f) := by
  unfold decryptFault decrypt
  split
  · rfl
  · rename_i key _ _
    rw [ignoreError_eq (e.openAsymmetric_ne_panic C key)]
    rfl
  · rename_i key _ _
    rw [ignoreError_eq (e.openSymmetric_ne_panic C key)]
    rfl
  · rfl

/-- `Open` does not panic. -/
theorem openFault_eq : e.openFault C f = .ok (e.openEnvelope C f) := by
  unfold openFault openEnvelope
  rw [decryptFault_eq]
  cases hd : e.decrypt C f with
  | none => rfl
  | some msg =>
    have hfresh : msg.payload = [] ∧ msg.signature = [] := by
      obtain ⟨key, raw, -, -, rfl⟩ | ⟨key, raw, salt, -, -, rfl⟩ := decrypt_frame hd
      · exact ⟨rfl, rfl⟩
      · exact ⟨rfl, rfl⟩
    obtain ⟨r, hr, -⟩ := ReceivedMessage.validateAndParse_sound C hfresh
    simp only [bind, Except.bind, Option.bind_some, hr]
    cases r with
    | none => rfl
    | some m => rfl

end Envelope

/-! ### The flags and the signature -/

namespace SentMessage

/-- The signature bit of a new message is clear, and its size bits are the width of the size field
that follows them. -/
def FlagsMatch (params : MessageParams) (msg : SentMessage) : Prop :=
  ∃ flags padding, isMessageSigned flags = false ∧
    (flags &&& sizeMask).toNat = getSizeOfPayloadSizeField params.payload ∧
    msg.raw = plaintext flags (getSizeOfPayloadSizeField params.payload) params.payload padding

/-- The plaintext ends in a signature by `key` over everything before it. -/
def SignedBy (C : Crypto) (key : PrivateKey) (plain : Bytes) : Prop :=
  ∃ covered signature, plain = covered ++ signature ∧ signature.length = signatureLength ∧
    C.sign (C.keccak256Hash covered) key = .ok signature

/-- What `Wrap` encrypts ends in a signature by the signer, if there is one, and is not marked as
signed otherwise. -/
def SignatureMatches (C : Crypto) (options : MessageParams) (plain : Bytes) : Prop :=
  (∀ key, options.src = some key → SignedBy C key plain) ∧
  (options.src = none → ∀ flags rest, plain = flags :: rest → isMessageSigned flags = false)

/-- A message that `NewSentMessage` makes has flags that match, and every envelope that `Wrap` makes
of it holds a plaintext with a signature that matches. -/
def MarksSignature (C : Crypto) (params : MessageParams) : Prop :=
  ∀ rnd msg, newSentMessage rnd params = .ok msg → FlagsMatch params msg ∧
    ∀ rnd' options now rounds e, msg.wrap C rnd' options now rounds = .ok e →
      ∃ plain encrypted, msg.signFor C options = .ok plain ∧
        plain.encrypt C rnd' options = .ok encrypted ∧ e.data = encrypted.raw ∧
        SignatureMatches C options plain.raw

/-- A message with a short size field is signed, as it has no signature bit before. -/
theorem signFor_some {C : Crypto} {msg plain : SentMessage} {options : MessageParams}
    {key : PrivateKey} {k : Nat} {rest : Bytes} (hsrc : options.src = some key) (h1 : 1 ≤ k)
    (h3 : k ≤ 3) (hraw : msg.raw = UInt8.ofNat k :: rest) (h : msg.signFor C options = .ok plain) :
    ∃ signature,
      C.sign (C.keccak256Hash ((UInt8.ofNat k ||| signatureFlag) :: rest)) key = .ok signature ∧
      plain.raw = (UInt8.ofNat k ||| signatureFlag) :: rest ++ signature := by
  unfold signFor at h
  rw [hsrc] at h
  exact sign_ok h1 h3 hraw h

theorem signFor_none {C : Crypto} {msg plain : SentMessage} {options : MessageParams}
    (hsrc : options.src = none) (h : msg.signFor C options = .ok plain) : plain = msg := by
  unfold signFor at h
  rw [hsrc] at h
  cases h
  rfl

/-- With random sources that work, `NewSentMessage` succeeds for every size field that fits. -/
theorem exists_newSentMessage (params : MessageParams)
    (hsize : getSizeOfPayloadSizeField params.payload ≤ 4) :
    ∃ msg, newSentMessage constantEntropy params = .ok msg := by
  by_cases hpadding : params.padding = []
  · have hpos : 0 < paddingSize params := by
      unfold paddingSize
      have := Nat.mod_lt (flagsLength + getSizeOfPayloadSizeField params.payload +
        params.payload.length + if params.src.isSome then signatureLength else 0)
        (show 0 < padSizeLimit by decide)
      dsimp only
      omega
    have hvalid : validateDataIntegrity (Vector.replicate (paddingSize params) (1 : UInt8)).toList
        (paddingSize params) = true := by
      simp [validateDataIntegrity, containsOnlyZeros]
      omega
    have hrandom : constantEntropy.crand (paddingSize params) =
        .ok (Vector.replicate (paddingSize params) 1) := rfl
    unfold newSentMessage
    rw [addPayloadSizeField_eq rfl hsize]
    dsimp only
    unfold appendPadding
    rw [hpadding, if_neg (by decide), hrandom]
    dsimp only
    rw [hvalid]
    exact ⟨_, rfl⟩
  · exact ⟨_, newSentMessage_eq hpadding rfl hsize⟩

theorem marksSignature_of_short {C : Crypto} {params : MessageParams}
    (hsign : ∀ hash key signature, C.sign hash key = .ok signature →
      signature.length = signatureLength)
    (hshort : params.payload.length < 2 ^ 24) : MarksSignature C params := by
  intro rnd msg hmsg
  have h1 := getSizeOfPayloadSizeField_pos params.payload
  have h3 := getSizeOfPayloadSizeField_le_three hshort
  obtain ⟨-, padding, -, -, hraw⟩ := newSentMessage_ok hmsg
  obtain ⟨hclear, -, hwidth, -⟩ := flags_spec h1 h3
  refine ⟨⟨_, padding, hclear, hwidth, hraw⟩, fun rnd' options now rounds e hwrap => ?_⟩
  obtain ⟨plain, encrypted, hplain, hencrypt, hdata⟩ := wrap_ok hwrap
  refine ⟨plain, encrypted, hplain, hencrypt, hdata, fun key hsrc => ?_,
    fun hsrc flags rest heq => ?_⟩
  · obtain ⟨signature, hsignature, hend⟩ := signFor_some hsrc h1 h3 hraw hplain
    exact ⟨_, signature, hend, hsign _ _ _ hsignature, hsignature⟩
  · rw [signFor_none hsrc hplain, hraw] at heq
    injection heq with hflags
    rw [← hflags]
    exact hclear

/-- The flags match and the signature follows exactly for the payloads whose size field has at most
three bytes, and for those that are refused because it has more than four. -/
theorem marksSignature_iff (C : Crypto) (params : MessageParams)
    (hsign : ∀ hash key signature, C.sign hash key = .ok signature →
      signature.length = signatureLength) :
    MarksSignature C params ↔
      params.payload.length < 2 ^ 24 ∨ 2 ^ 32 ≤ params.payload.length := by
  constructor
  · intro hmarks
    by_contra hmid
    have hsize : getSizeOfPayloadSizeField params.payload = 4 :=
      getSizeOfPayloadSizeField_eq_four (by omega) (by omega)
    obtain ⟨msg, hmsg⟩ := exists_newSentMessage params (by omega)
    obtain ⟨flags, padding, hclear, -, hraw⟩ := (hmarks _ _ hmsg).1
    obtain ⟨-, padding', -, -, hraw'⟩ := newSentMessage_ok hmsg
    rw [hraw', hsize] at hraw
    injection hraw with hflags
    rw [← hflags] at hclear
    exact absurd hclear (by decide)
  · rintro (hshort | hlong)
    · exact marksSignature_of_short hsign hshort
    · intro rnd msg hmsg
      have h4 := (newSentMessage_ok hmsg).1
      have hlt := (getSizeOfPayloadSizeField_le_iff (by decide)).mp h4
      omega

theorem tagCrypto_sign (hash : Hash) (key : PrivateKey) (signature : Bytes)
    (h : tagCrypto.sign hash key = .ok signature) : signature.length = signatureLength := by
  cases h
  rfl

theorem marksSignature_iff_short :
    MarksSignature tagCrypto (topicParams (some signerKey) [1, 2, 3] []) :=
  (marksSignature_iff tagCrypto _ tagCrypto_sign).mpr (.inl (by decide))

/-- A payload of `2 ^ 24` bytes makes a message that is marked as signed from the start, so `sign`
leaves it without a signature. -/
theorem not_marksSignature_long :
    ∃ payload : Bytes, ∃ msg : SentMessage, payload.length = 2 ^ 24 ∧
      newSentMessage constantEntropy (topicParams (some signerKey) payload [1]) = .ok msg ∧
      msg.raw = plaintext 4 4 payload [1] ∧ isMessageSigned 4 = true ∧
      msg.signFor tagCrypto (topicParams (some signerKey) payload [1]) = .ok msg ∧
      ¬ MarksSignature tagCrypto (topicParams (some signerKey) payload [1]) := by
  obtain ⟨payload, hlen⟩ : ∃ payload : Bytes, payload.length = 2 ^ 24 :=
    ⟨List.replicate (2 ^ 24) 0, List.length_replicate⟩
  have hsize : getSizeOfPayloadSizeField payload = 4 :=
    getSizeOfPayloadSizeField_eq_four (by omega) (by omega)
  have hmsg : newSentMessage constantEntropy (topicParams (some signerKey) payload [1]) =
      .ok { raw := plaintext 4 4 payload [1] } :=
    newSentMessage_eq (by simp [topicParams]) hsize (by decide)
  refine ⟨payload, _, hlen, hmsg, rfl, by decide, rfl, fun hmarks => ?_⟩
  obtain ⟨flags, padding, hclear, -, hraw⟩ := (hmarks _ _ hmsg).1
  injection hraw with hflags
  rw [← hflags] at hclear
  exact absurd hclear (by decide)

end SentMessage

/-! ### Random padding -/

/-- The lengths that the cryptographic libraries promise: signatures of 65 bytes, and a tag of 16
bytes after an encrypted text. -/
structure Crypto.Sized (C : Crypto) : Prop where
  signature : ∀ hash key signature, C.sign hash key = .ok signature →
    signature.length = signatureLength
  aesgcm : ∀ key salt text, (C.aesgcmSeal key salt text).length = text.length + 16

namespace SentMessage

/-- The size of a message without its padding. -/
def unpaddedSize (params : MessageParams) : Nat :=
  flagsLength + getSizeOfPayloadSizeField params.payload + params.payload.length +
    if params.src.isSome then signatureLength else 0

/-- A payload whose size field has at most three bytes, and no padding of the caller. -/
structure Padded (params : MessageParams) : Prop where
  short : params.payload.length < 2 ^ 24
  padding : params.padding = []

section

variable {C : Crypto} {params : MessageParams} {rnd rnd' : Entropy} {msg plain : SentMessage}
  {now : Int} {rounds : Nat} {e : Envelope}

theorem length_plaintext (flags : UInt8) (k : Nat) (payload padding : Bytes) :
    (plaintext flags k payload padding).length = 1 + k + payload.length + padding.length := by
  simp [plaintext]
  omega

/-- The plaintext fills the block in which the message without padding ends, with at least one byte
of padding. -/
theorem signFor_block (hC : C.Sized) (hparams : Padded params)
    (hmsg : newSentMessage rnd params = .ok msg) (hplain : msg.signFor C params = .ok plain) :
    plain.raw.length = padSizeLimit * (unpaddedSize params / padSizeLimit + 1) ∧
    ∃ flags padding signature, padding ≠ [] ∧ plain.raw =
      plaintext flags (getSizeOfPayloadSizeField params.payload) params.payload padding ++
        signature := by
  have h1 := getSizeOfPayloadSizeField_pos params.payload
  have h3 := getSizeOfPayloadSizeField_le_three hparams.short
  obtain ⟨-, padding, -, hrandom, hraw⟩ := newSentMessage_ok hmsg
  have hpad : padding.length = 256 - unpaddedSize params % 256 := hrandom hparams.padding
  have hlimit : padSizeLimit = 256 := rfl
  have hne : padding ≠ [] := by
    apply List.ne_nil_of_length_pos
    omega
  have hsize : unpaddedSize params = 1 + getSizeOfPayloadSizeField params.payload +
    params.payload.length + if params.src.isSome then 65 else 0 := rfl
  cases hsrc : params.src with
  | some key =>
    obtain ⟨signature, hsignature, hend⟩ := signFor_some hsrc h1 h3 hraw hplain
    have hlen : signature.length = 65 := hC.signature _ _ _ hsignature
    have hcut : plain.raw = plaintext _ (getSizeOfPayloadSizeField params.payload) params.payload
      padding ++ signature := hend
    refine ⟨?_, _, padding, signature, hne, hcut⟩
    rw [hsrc, Option.isSome_some, if_pos rfl] at hsize
    rw [hcut, List.length_append, length_plaintext, hlen, hpad, hlimit]
    omega
  | none =>
    rw [signFor_none hsrc hplain, hraw]
    refine ⟨?_, _, padding, [], hne, (List.append_nil _).symm⟩
    rw [hsrc, Option.isSome_none, if_neg (by decide)] at hsize
    rw [length_plaintext, hpad, hlimit]
    omega

theorem length_wrap (hC : C.Sized) (hparams : Padded params) (hdst : params.dst = none)
    (hmsg : newSentMessage rnd params = .ok msg)
    (hwrap : msg.wrap C rnd' params now rounds = .ok e) :
    e.data.length =
      padSizeLimit * (unpaddedSize params / padSizeLimit + 1) + 16 + aesNonceLength := by
  obtain ⟨plain, encrypted, hplain, hencrypt, hdata⟩ := wrap_ok hwrap
  unfold encrypt at hencrypt
  rw [hdst] at hencrypt
  cases hkey : params.keySym with
  | none =>
    rw [hkey] at hencrypt
    cases hencrypt
  | some key =>
    rw [hkey] at hencrypt
    obtain ⟨-, salt, hsalt, hraw⟩ := encryptSymmetric_ok hencrypt
    rw [hdata, hraw, List.length_append, hsalt, hC.aesgcm, (signFor_block hC hparams hmsg hplain).1]

end

/-- What `Wrap` encrypts is a number of whole blocks with some padding, and messages that end in
the same block without padding have plaintexts, and symmetric envelopes, of one length. -/
theorem padding_hides_size (C : Crypto) (hC : C.Sized) {p q : MessageParams} (hp : Padded p)
    (hq : Padded q) {rnd₁ rnd₂ : Entropy} {m n : SentMessage}
    (hm : newSentMessage rnd₁ p = .ok m) (hn : newSentMessage rnd₂ q = .ok n) :
    (∀ plain, m.signFor C p = .ok plain →
      (∃ blocks, 0 < blocks ∧ plain.raw.length = padSizeLimit * blocks) ∧
      ∃ flags padding signature, padding ≠ [] ∧ plain.raw =
        plaintext flags (getSizeOfPayloadSizeField p.payload) p.payload padding ++ signature) ∧
    (unpaddedSize p / padSizeLimit = unpaddedSize q / padSizeLimit →
      (∀ plain plain', m.signFor C p = .ok plain → n.signFor C q = .ok plain' →
        plain.raw.length = plain'.raw.length) ∧
      (p.dst = none → q.dst = none →
        ∀ rnd₃ rnd₄ now₁ now₂ rounds₁ rounds₂ e e', m.wrap C rnd₃ p now₁ rounds₁ = .ok e →
          n.wrap C rnd₄ q now₂ rounds₂ = .ok e' → e.data.length = e'.data.length)) := by
  refine ⟨fun plain hplain => ?_, fun hblock => ⟨fun plain plain' hplain hplain' => ?_, ?_⟩⟩
  · obtain ⟨hlen, hparts⟩ := signFor_block hC hp hm hplain
    exact ⟨⟨_, Nat.succ_pos _, hlen⟩, hparts⟩
  · rw [(signFor_block hC hp hm hplain).1, (signFor_block hC hq hn hplain').1, hblock]
  · intro hdst hdst' rnd₃ rnd₄ now₁ now₂ rounds₁ rounds₂ e e' hwrap hwrap'
    rw [length_wrap hC hp hdst hm hwrap, length_wrap hC hq hdst' hn hwrap', hblock]

/-- An unsigned message of four bytes with its random padding. -/
def quietMessage : SentMessage := { raw := [1, 4, 1, 2, 3, 4] ++ List.replicate 250 1 }

def quietEnvelope : Envelope :=
  { shortEnvelope with data := quietMessage.raw ++ List.replicate 16 0 ++ List.replicate 12 3 }

/-- A signed message of three bytes and an unsigned one of four bytes. -/
theorem padding_hides_size_signed : shortEnvelope.data.length = quietEnvelope.data.length := by
  have hC : tagCrypto.Sized := by
    refine ⟨tagCrypto_sign, fun key salt text => ?_⟩
    show (text ++ List.replicate 16 0).length = _
    rw [List.length_append, List.length_replicate]
  have hm : newSentMessage constantEntropy (topicParams (some signerKey) [1, 2, 3] []) =
      .ok shortMessage := by decide +kernel
  have hn : newSentMessage constantEntropy (topicParams none [1, 2, 3, 4] []) =
      .ok quietMessage := by decide +kernel
  obtain ⟨-, hsame⟩ := padding_hides_size tagCrypto hC ⟨by decide, rfl⟩ ⟨by decide, rfl⟩ hm hn
  exact (hsame (by decide +kernel)).2 rfl rfl constantEntropy constantEntropy 1600000000 1600000000
    0 0 _ _ (by decide +kernel) (by decide +kernel)

end SentMessage

end Whisperv6
