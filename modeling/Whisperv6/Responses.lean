import Whisperv6.MailServer

/-! The end of an answer of a mail server: a payload with the request, the last envelope and a
cursor, or one with the request and the text of an error.  The two formats share the bytes of the
prefix of failures, which a request may start with. -/

namespace Whisperv6

open ProofKit

/-! ### Cutting a payload -/

theorem extractPrefix_append (a b : Bytes) : extractPrefix (a ++ b) a.length = .ok (a, b) := by
  have hhead : slice (a ++ b) 0 a.length = .ok a :=
    slice_append (List.nil_append _).symm rfl (by simp)
  have hrest : slice (a ++ b) a.length (a ++ b).length = .ok b := by
    apply slice_append (z := []) (by rw [List.append_nil]) rfl
    rw [List.length_append]
    omega
  unfold extractPrefix
  rw [hhead, hrest]
  rfl

theorem extractPrefix_of_le {payload : Bytes} {size : Nat} (h : size ≤ payload.length) :
    extractPrefix payload size = .ok (payload.take size, payload.drop size) := by
  have happ := extractPrefix_append (payload.take size) (payload.drop size)
  rwa [List.take_append_drop, List.length_take_of_le h] at happ

theorem extractHash_append (h : Hash) (rest : Bytes) :
    extractHash (h.bytes ++ rest) = .ok (h, rest) := by
  have hcut := extractPrefix_append h.bytes rest
  rw [Hash.length_bytes] at hcut
  unfold extractHash
  rw [hcut]
  show Except.ok (bytesToHash h.bytes, rest) = _
  rw [bytesToHash_bytes]

/-- Bytes that are long enough start with a hash. -/
theorem exists_hash_append {b : Bytes} (hlen : hashLength ≤ b.length) :
    ∃ h : Hash, ∃ rest, b = h.bytes ++ rest := by
  refine ⟨bytesToHash (b.take hashLength), b.drop hashLength, ?_⟩
  rw [bytes_bytesToHash (List.length_take_of_le hlen), List.take_append_drop]

/-! ### The events -/

def completedEvent (nodeID : NodeID) (requestID lastEnvelopeHash : Hash) (cursor : Bytes) :
    EnvelopeEvent where
  peer := nodeID
  hash := requestID
  event := .mailServerRequestCompleted
  data := .mailServer { lastEnvelopeHash, cursor }

def failedEvent (nodeID : NodeID) (requestID : Hash) (text : Bytes) : EnvelopeEvent where
  peer := nodeID
  hash := requestID
  event := .mailServerRequestCompleted
  data := .mailServer { error := some text }

theorem completedEvent_ne_failedEvent (nodeID : NodeID) (requestID requestID' last : Hash)
    (cursor text : Bytes) :
    completedEvent nodeID requestID last cursor ≠ failedEvent nodeID requestID' text := by
  intro h
  injection h with _ _ _ _ _ hdata
  injection hdata with hresponse
  injection hresponse with _ _ herror
  cases herror

/-- The payload of a failed request whose error has the text `text`: a Go string holds any
bytes. -/
def failedPayload (requestID : Hash) (text : Bytes) : Bytes :=
  mailServerFailedPayloadPrefix ++ requestID.bytes ++ text

theorem tryCreateFailed_failedPayload (nodeID : NodeID) (requestID : Hash) (text : Bytes) :
    tryCreateMailServerRequestFailedEvent nodeID (failedPayload requestID text) =
      .ok (some (failedEvent nodeID requestID text)) := by
  have hlong : ¬ (failedPayload requestID text).length <
      hashLength + mailServerFailedPayloadPrefix.length := by
    rw [failedPayload, List.length_append, List.length_append, Hash.length_bytes]
    omega
  have hcut : extractPrefix (failedPayload requestID text) mailServerFailedPayloadPrefix.length =
      .ok (mailServerFailedPayloadPrefix, requestID.bytes ++ text) := by
    rw [failedPayload, List.append_assoc]
    exact extractPrefix_append _ _
  unfold tryCreateMailServerRequestFailedEvent
  rw [if_neg hlong, hcut]
  show (extractHash (requestID.bytes ++ text) >>= _) = _
  rw [extractHash_append]
  rfl

/-- Another payload is not taken for a failure. -/
theorem tryCreateFailed_other {nodeID : NodeID} {payload : Bytes}
    (h : ¬ mailServerFailedPayloadPrefix <+: payload) :
    tryCreateMailServerRequestFailedEvent nodeID payload = .ok none := by
  unfold tryCreateMailServerRequestFailedEvent
  by_cases hshort : payload.length < hashLength + mailServerFailedPayloadPrefix.length
  · rw [if_pos hshort]
  · have hother : payload.take mailServerFailedPayloadPrefix.length ≠
        mailServerFailedPayloadPrefix := by
      intro heq
      exact h (heq ▸ List.take_prefix _ _)
    rw [if_neg hshort, extractPrefix_of_le (by omega)]
    show (if payload.take mailServerFailedPayloadPrefix.length ≠ mailServerFailedPayloadPrefix
      then _ else _) = _
    rw [if_pos hother]
    rfl

theorem tryCreateCompleted_payload (nodeID : NodeID) (requestID last : Hash) {cursor : Bytes}
    (hcursor : cursor.length = 0 ∨ cursor.length = cursorSize) :
    tryCreateMailServerRequestCompletedEvent nodeID
      (createMailServerRequestCompletedPayload requestID last cursor) =
        .ok (completedEvent nodeID requestID last cursor) := by
  have hshort : ¬ hashLength * 2 + cursorSize <
      (createMailServerRequestCompletedPayload requestID last cursor).length := by
    rw [createMailServerRequestCompletedPayload, List.length_append, List.length_append,
      Hash.length_bytes, Hash.length_bytes]
    omega
  have hlast : extractLastHash (last.bytes ++ cursor) = .ok (last, cursor) := by
    unfold extractLastHash
    rw [if_pos (by rw [List.length_append, Hash.length_bytes]; omega), extractHash_append]
  have hkept : (if cursorSize ≤ cursor.length then cursor else []) = cursor := by
    split
    · rfl
    · exact (List.length_eq_zero_iff.mp (by omega)).symm
  unfold tryCreateMailServerRequestCompletedEvent
  rw [if_neg hshort, createMailServerRequestCompletedPayload, List.append_assoc,
    extractHash_append]
  show (extractLastHash (last.bytes ++ cursor) >>= _) = _
  rw [hlast]
  show Except.ok _ = _
  rw [hkept]
  rfl

theorem hashLength_le_completed (requestID last : Hash) (cursor : Bytes) :
    hashLength ≤ (createMailServerRequestCompletedPayload requestID last cursor).length := by
  rw [createMailServerRequestCompletedPayload, List.append_assoc, List.length_append,
    Hash.length_bytes]
  omega

/-- A payload for a request that starts with the prefix of failures is taken for a failure, of
another request. -/
theorem createMailServerEvent_ambiguous (nodeID : NodeID) {requestID : Hash} (last : Hash)
    (cursor : Bytes) (h : mailServerFailedPayloadPrefix <+: requestID.bytes) :
    ∃ other text, createMailServerEvent nodeID
      (createMailServerRequestCompletedPayload requestID last cursor) =
        .ok (failedEvent nodeID other text) := by
  obtain ⟨suffix, hbytes⟩ := h
  have hstart : mailServerFailedPayloadPrefix.length = 6 := by decide
  have hsuffix : suffix.length = 26 := by
    have hlen := congrArg List.length hbytes
    rw [List.length_append, Hash.length_bytes, hstart] at hlen
    have hhash : hashLength = 32 := rfl
    omega
  obtain ⟨other, text, hother⟩ : ∃ other : Hash, ∃ text,
      suffix ++ (last.bytes ++ cursor) = other.bytes ++ text := by
    apply exists_hash_append
    rw [List.length_append, List.length_append, Hash.length_bytes]
    omega
  have hpayload : createMailServerRequestCompletedPayload requestID last cursor =
      failedPayload other text := by
    rw [createMailServerRequestCompletedPayload, ← hbytes, failedPayload, List.append_assoc,
      List.append_assoc, hother, List.append_assoc]
  have hlong := hashLength_le_completed requestID last cursor
  refine ⟨other, text, ?_⟩
  unfold createMailServerEvent
  rw [if_neg (by omega), hpayload, tryCreateFailed_failedPayload]
  rfl

/-- The end of an answer comes back as it was sent: of a failed request always, and of a completed
request exactly when the request does not start with the prefix of failures. -/
theorem response_round_trip_iff (nodeID : NodeID) (requestID last : Hash) {cursor : Bytes}
    (hcursor : cursor.length = 0 ∨ cursor.length = cursorSize) :
    (createMailServerEvent nodeID
      (createMailServerRequestCompletedPayload requestID last cursor) =
        .ok (completedEvent nodeID requestID last cursor) ↔
      ¬ mailServerFailedPayloadPrefix <+: requestID.bytes) ∧
    (∀ text, createMailServerEvent nodeID (failedPayload requestID text) =
      .ok (failedEvent nodeID requestID text)) ∧
    ∀ err, createMailServerEvent nodeID (createMailServerRequestFailedPayload requestID err) =
      .ok (failedEvent nodeID requestID (goString err.text)) := by
  have hfailed : ∀ text, createMailServerEvent nodeID (failedPayload requestID text) =
      .ok (failedEvent nodeID requestID text) := by
    intro text
    have hlong : ¬ (failedPayload requestID text).length < hashLength := by
      rw [failedPayload, List.length_append, List.length_append, Hash.length_bytes]
      omega
    unfold createMailServerEvent
    rw [if_neg hlong, tryCreateFailed_failedPayload]
    rfl
  refine ⟨⟨fun hok hstart => ?_, fun hstart => ?_⟩, hfailed, fun err => hfailed _⟩
  · obtain ⟨other, text, hevent⟩ := createMailServerEvent_ambiguous nodeID last cursor hstart
    rw [hok] at hevent
    injection hevent with hevent
    exact completedEvent_ne_failedEvent _ _ _ _ _ _ hevent
  · have hother : ¬ mailServerFailedPayloadPrefix <+:
        createMailServerRequestCompletedPayload requestID last cursor := by
      intro h
      rw [createMailServerRequestCompletedPayload, List.append_assoc] at h
      refine hstart (List.prefix_of_prefix_length_le h (List.prefix_append _ _) ?_)
      rw [Hash.length_bytes]
      decide
    have hlong := hashLength_le_completed requestID last cursor
    unfold createMailServerEvent
    rw [if_neg (by omega), tryCreateFailed_other hother]
    exact tryCreateCompleted_payload nodeID requestID last hcursor

theorem response_round_trip_iff_cursor :
    createMailServerEvent 7 (createMailServerRequestCompletedPayload 1 2 (List.replicate 36 3)) =
      .ok (completedEvent 7 1 2 (List.replicate 36 3)) :=
  (response_round_trip_iff 7 1 2 (.inr (by decide))).1.mpr (by decide +kernel)

/-- A completed request whose identifier starts with the bytes of `ERROR=` is reported as failed,
under an identifier that was not sent. -/
theorem not_response_round_trip :
    createMailServerEvent 7 (createMailServerRequestCompletedPayload
      0x4552524f523d0000000000000000000000000000000000000000000000000000#256 2 []) =
        .ok (failedEvent 7 0 ((2 : Hash).bytes.drop 6)) ∧
    createMailServerEvent 7 (createMailServerRequestCompletedPayload
      0x4552524f523d0000000000000000000000000000000000000000000000000000#256 2 []) ≠
        .ok (completedEvent 7
          0x4552524f523d0000000000000000000000000000000000000000000000000000#256 2 []) := by
  constructor <;> decide +kernel

/-! ### The payloads that are accepted -/

/-- The prefix of failures, an identifier and any text. -/
def FailureForm (payload : Bytes) : Prop :=
  ∃ requestID : Hash, ∃ text, payload = failedPayload requestID text

/-- The request alone, the request and the last envelope, or both and a cursor. -/
def CompletionForm (payload : Bytes) : Prop :=
  (∃ requestID : Hash, payload = requestID.bytes) ∨
  (∃ requestID last : Hash, payload = createMailServerRequestCompletedPayload requestID last []) ∨
  ∃ requestID last : Hash, ∃ cursor, cursor.length = cursorSize ∧
    payload = createMailServerRequestCompletedPayload requestID last cursor

theorem length_mailServerFailedPayloadPrefix : mailServerFailedPayloadPrefix.length = 6 := by
  decide

theorem FailureForm.le_length {payload : Bytes} (h : FailureForm payload) :
    38 ≤ payload.length := by
  obtain ⟨requestID, text, rfl⟩ := h
  rw [failedPayload, List.length_append, List.length_append, Hash.length_bytes,
    length_mailServerFailedPayloadPrefix]
  have hhash : hashLength = 32 := rfl
  omega

/-- A payload is a failure exactly when it has the prefix and enough bytes for the identifier. -/
theorem failureForm_iff {payload : Bytes} :
    FailureForm payload ↔ mailServerFailedPayloadPrefix <+: payload ∧ 38 ≤ payload.length := by
  constructor
  · intro h
    refine ⟨?_, h.le_length⟩
    obtain ⟨requestID, text, rfl⟩ := h
    rw [failedPayload, List.append_assoc]
    exact List.prefix_append _ _
  · rintro ⟨⟨rest, rfl⟩, hlen⟩
    rw [List.length_append, length_mailServerFailedPayloadPrefix] at hlen
    obtain ⟨requestID, text, rfl⟩ := exists_hash_append (b := rest) (by
      have hhash : hashLength = 32 := rfl
      omega)
    exact ⟨requestID, text, (List.append_assoc _ _ _).symm⟩

theorem length_createMailServerRequestCompletedPayload (requestID last : Hash) (cursor : Bytes) :
    (createMailServerRequestCompletedPayload requestID last cursor).length =
      64 + cursor.length := by
  rw [createMailServerRequestCompletedPayload, List.length_append, List.length_append,
    Hash.length_bytes, Hash.length_bytes]
  rfl

/-- Bytes for two hashes are the request, the last envelope and what follows. -/
theorem exists_completedPayload {payload : Bytes} (hlen : 64 ≤ payload.length) :
    ∃ requestID last : Hash, ∃ cursor,
      payload = createMailServerRequestCompletedPayload requestID last cursor := by
  have hhash : hashLength = 32 := rfl
  obtain ⟨requestID, rest, rfl⟩ := exists_hash_append (b := payload) (by omega)
  rw [List.length_append, Hash.length_bytes] at hlen
  obtain ⟨last, cursor, rfl⟩ := exists_hash_append (b := rest) (by omega)
  exact ⟨requestID, last, cursor, (List.append_assoc _ _ _).symm⟩

/-- The completed forms are all payloads of the three lengths. -/
theorem completionForm_iff {payload : Bytes} :
    CompletionForm payload ↔
      payload.length = 32 ∨ payload.length = 64 ∨ payload.length = 100 := by
  constructor
  · rintro (⟨requestID, rfl⟩ | ⟨requestID, last, rfl⟩ | ⟨requestID, last, cursor, hcursor, rfl⟩)
    · exact .inl requestID.length_bytes
    · exact .inr (.inl (length_createMailServerRequestCompletedPayload requestID last []))
    · refine .inr (.inr ?_)
      rw [length_createMailServerRequestCompletedPayload, hcursor]
      rfl
  · rintro (hlen | hlen | hlen)
    · obtain ⟨requestID, rest, rfl⟩ := exists_hash_append (b := payload) hlen.ge
      rw [List.length_append, Hash.length_bytes] at hlen
      have hnil : rest = [] := List.length_eq_zero_iff.mp (by
        have hhash : hashLength = 32 := rfl
        omega)
      exact .inl ⟨requestID, by rw [hnil, List.append_nil]⟩
    · obtain ⟨requestID, last, cursor, rfl⟩ :=
        exists_completedPayload (show 64 ≤ payload.length by omega)
      rw [length_createMailServerRequestCompletedPayload] at hlen
      have hnil : cursor = [] := List.length_eq_zero_iff.mp (by omega)
      exact .inr (.inl ⟨requestID, last, by rw [hnil]⟩)
    · obtain ⟨requestID, last, cursor, rfl⟩ :=
        exists_completedPayload (show 64 ≤ payload.length by omega)
      rw [length_createMailServerRequestCompletedPayload] at hlen
      have hcursor : cursor.length = cursorSize := by
        have hsize : cursorSize = 36 := rfl
        omega
      exact .inr (.inr ⟨requestID, last, cursor, hcursor, rfl⟩)

theorem tryCreateFailed_short {nodeID : NodeID} {payload : Bytes} (hlen : payload.length < 38) :
    tryCreateMailServerRequestFailedEvent nodeID payload = .ok none := by
  unfold tryCreateMailServerRequestFailedEvent
  rw [if_pos]
  rw [length_mailServerFailedPayloadPrefix]
  have hhash : hashLength = 32 := rfl
  omega

/-- The parser of completed requests cuts one hash, a second one if there are bytes for it, and
takes what is left for a cursor if it is long enough; it never compares the length with the end of
what it has cut. -/
theorem tryCreateCompleted_ok {nodeID : NodeID} {payload : Bytes} (hlow : 32 ≤ payload.length)
    (hhigh : payload.length ≤ 100) :
    ∃ event, tryCreateMailServerRequestCompletedEvent nodeID payload = .ok event := by
  have hhash : hashLength = 32 := rfl
  have hcursor : cursorSize = 36 := rfl
  obtain ⟨requestID, rest, rfl⟩ := exists_hash_append (b := payload) (by omega)
  have hlast : ∃ last remainder, extractLastHash rest = .ok (last, remainder) := by
    unfold extractLastHash
    split
    · obtain ⟨last, remainder, rfl⟩ := exists_hash_append (b := rest) (by assumption)
      exact ⟨last, remainder, extractHash_append last remainder⟩
    · exact ⟨0, rest, rfl⟩
  obtain ⟨last, remainder, hlast⟩ := hlast
  unfold tryCreateMailServerRequestCompletedEvent
  rw [if_neg (by omega), extractHash_append]
  show ∃ event, (extractLastHash rest >>= _) = _
  rw [hlast]
  exact ⟨_, rfl⟩

/-- The outcome for every payload: a failure, an error about the size, or a completed request. -/
theorem createMailServerEvent_cases (nodeID : NodeID) (payload : Bytes) :
    (FailureForm payload ∧ ∃ event, createMailServerEvent nodeID payload = .ok event) ∨
    (¬ FailureForm payload ∧ (payload.length < 32 ∨ 100 < payload.length) ∧
      createMailServerEvent nodeID payload =
        .error (.error (invalidResponseSizeError payload.length))) ∨
    (¬ FailureForm payload ∧ 32 ≤ payload.length ∧ payload.length ≤ 100 ∧
      ∃ event, createMailServerEvent nodeID payload = .ok event) := by
  have hhash : hashLength = 32 := rfl
  have hcursor : cursorSize = 36 := rfl
  unfold createMailServerEvent
  by_cases hfail : FailureForm payload
  · have hlen := hfail.le_length
    obtain ⟨requestID, text, rfl⟩ := hfail
    refine .inl ⟨⟨requestID, text, rfl⟩, failedEvent nodeID requestID text, ?_⟩
    rw [if_neg (by omega), tryCreateFailed_failedPayload]
    rfl
  · refine .inr ?_
    by_cases hlow : payload.length < hashLength
    · exact .inl ⟨hfail, .inl hlow, if_pos hlow⟩
    rw [if_neg hlow]
    have hother : tryCreateMailServerRequestFailedEvent nodeID payload = .ok none := by
      by_cases hshort : payload.length < 38
      · exact tryCreateFailed_short hshort
      · exact tryCreateFailed_other fun hstart => hfail (failureForm_iff.mpr ⟨hstart, by omega⟩)
    rw [hother]
    by_cases hhigh : payload.length ≤ 100
    · exact .inr ⟨hfail, by omega, hhigh, tryCreateCompleted_ok (by omega) hhigh⟩
    · refine .inl ⟨hfail, .inr (by omega), ?_⟩
      exact if_pos (by omega)

/-- The parser never slices out of range, and it accepts exactly the documented forms except for
payloads that are not a failure and break off within the last envelope or the cursor: those are
accepted too. -/
theorem createMailServerEvent_exact_iff (nodeID : NodeID) (payload : Bytes) :
    createMailServerEvent nodeID payload ≠ .error .panic ∧
    (((∃ event, createMailServerEvent nodeID payload = .ok event) ↔
        FailureForm payload ∨ CompletionForm payload) ↔
      FailureForm payload ∨
        ¬ (32 < payload.length ∧ payload.length < 64 ∨
          64 < payload.length ∧ payload.length < 100)) := by
  rw [completionForm_iff]
  rcases createMailServerEvent_cases nodeID payload with
    ⟨hfail, event, hok⟩ | ⟨hfail, hlen, herr⟩ | ⟨hfail, hlow, hhigh, event, hok⟩
  · constructor
    · rw [hok]
      simp
    · simp [hok, hfail]
  · constructor
    · rw [herr]
      simp
    · have hno : ¬ ∃ event, createMailServerEvent nodeID payload = .ok event := by
        rintro ⟨event, hok⟩
        rw [herr] at hok
        cases hok
      simp only [hno, hfail, false_or, false_iff]
      omega
  · constructor
    · rw [hok]
      simp
    · have hyes : ∃ event, createMailServerEvent nodeID payload = .ok event := ⟨event, hok⟩
      simp only [hyes, hfail, false_or, true_iff]
      omega

/-- A request followed by one byte is accepted, and the byte is ignored; so is one followed by the
last envelope and a cursor without its last byte, which is reported without a cursor. -/
theorem not_createMailServerEvent_exact :
    createMailServerEvent 7 ((1 : Hash).bytes ++ [9]) = .ok (completedEvent 7 1 0 []) ∧
    ¬ (FailureForm ((1 : Hash).bytes ++ [9]) ∨ CompletionForm ((1 : Hash).bytes ++ [9])) ∧
    createMailServerEvent 7 (createMailServerRequestCompletedPayload 1 2 (List.replicate 35 3)) =
      .ok (completedEvent 7 1 2 []) := by
  refine ⟨by decide +kernel, ?_, by decide +kernel⟩
  rw [failureForm_iff, completionForm_iff]
  decide +kernel

end Whisperv6
