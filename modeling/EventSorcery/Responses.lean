import EventSorcery.ClaimRegistry
import EventSorcery.Dispatch
import EventSorcery.Requests
import EventSorcery.Lib.Decoder

/-!
# Responses across the ABI

The boundary encodes its answers and its errors; a page of events it writes with headers of its own.
The binding decodes each by hand, checks the number of fields and refuses bytes it has not read.
`Response.decodeResponse_encode`: what the boundary hands out is the encoding of the tuple it means,
and the binding's decoder returns the values that went in.
-/

namespace EventSorcery

open Cbor (Layout arrayWrites uintWrites textWrites bytesWrites nullWrites)

/-! ## The boundary's side -/

def encodeResponse {α : Type} (layout : Layout α) (value : α) : Except AbiError (List UInt8) :=
  (layout.writes value).foldlM boundedWrite []

def OpaqueStoredEvent.wire (event : OpaqueStoredEvent) : StoredEventWire :=
  (UInt64.ofNat event.sequence, event.eventType, event.eventVersion, event.payload)

def ClaimAnswer.wire (token : ClaimToken) : ClaimAnswer → JobClaimWire
  | .claimed handle payload =>
      (1, 0, some (Vector.toList token), some handle.attempt, some handle.hasPriorExecution,
        some payload)
  | .abandoned => (1, 1, none, none, none, none)
  | .contended => (1, 2, none, none, none, none)
  | .skipped => (1, 3, none, none, none, none)

/-- The class of an error, which is also the status of the call. -/
def AbiError.code : AbiError → UInt32
  | .malformedInput | .cborDecode | .sqliteOptions | .inputInteger | .canonicalCbor
  | .jobIdentifier => 1
  | .conflict _ _ _ _ => 2
  | .jobRefusal _ _ => 3
  | .engine _ | .schema _ | .sql | .migration | .storageInteger | .jobRuntime _ | .jobPayload => 4
  | .cborEncode | .responseIo | .runtime | .state _ => 5
  | .resourceLimit _ _ _ => 6
  | .panic => 100

/-- A text or a number of an error's detail. -/
inductive DetailField where
  | text (s : String)
  | integer (n : ℕ)

def DetailField.writes : DetailField → List (List UInt8)
  | text s => textWrites s
  | integer n => uintWrites n

inductive ErrorDetail where
  | single (field : DetailField)
  | array (fields : List DetailField)
  | null

def ErrorDetail.writes : ErrorDetail → List (List UInt8)
  | single field => field.writes
  | array fields => arrayWrites fields.length ++ fields.flatMap DetailField.writes
  | null => nullWrites

def AbiError.detail : AbiError → ErrorDetail
  | .malformedInput | .cborDecode | .sqliteOptions | .inputInteger | .canonicalCbor
  | .jobIdentifier => .single (.text "malformed input")
  | .jobRefusal jobId refusal => .array [.text jobId, .text refusal.text]
  | .conflict aggregateType aggregateId expected actual =>
      .array [.text aggregateType, .text aggregateId, .integer expected, .integer actual]
  | .engine _ | .schema _ | .sql | .migration | .storageInteger | .jobRuntime _ | .jobPayload =>
      .single (.text "storage failure")
  | .cborEncode | .responseIo => .single (.text "response encoding failed")
  | .runtime => .single (.text "runtime initialization failed")
  | .state detail => .single (.text detail)
  | .resourceLimit resource observed limit =>
      .array [.text resource, .integer observed, .integer limit]
  | .panic => .null

def AbiError.bytes (error : AbiError) : List UInt8 :=
  (arrayWrites 3 ++ uintWrites 1 ++ uintWrites error.code.toNat ++ error.detail.writes).flatten

/-- The buffer that goes out with an error; one that would be too large is left empty. -/
def writeError (error : AbiError) : Option (List UInt8) :=
  if error.bytes.length ≤ maxResponseBytes then some error.bytes else none

/-- The numbers of an error are machine words. -/
def AbiError.InRange : AbiError → Prop
  | .conflict _ _ expected actual => expected < 2 ^ 64 ∧ actual < 2 ^ 64
  | .resourceLimit _ observed limit => observed < 2 ^ 64 ∧ limit < 2 ^ 64
  | _ => True

/-! ## The binding's side -/

namespace Binding

open Cbor (Decoder)
open Cbor.Decoder (expectListLength listLen replicateM nullable)

def decodeWord : Decoder UInt64 := Layout.u64.read
def decodeWord64 : Decoder UInt64 := Layout.u64.read
def decodeWord32 : Decoder UInt32 := Layout.u32.read
def decodeString : Decoder String := Cbor.readText
def decodeBytes : Decoder (List UInt8) := Cbor.readBytes

def decodeNull : Decoder Unit
  | 0xf6 :: input => some ((), input)
  | _ => none

/-- Any item. -/
def decodeTerm : Decoder Unit := fun input => (Cbor.skip input.length input).map fun rest => ((), rest)

def expectFormatVersion : Decoder Unit := do
  let version ← decodeWord
  if version = 1 then pure () else failure

def decodePolledJobsWire : Decoder (List JobId) := do
  expectListLength 2
  expectFormatVersion
  let count ← listLen
  replicateM count decodeString

inductive JobClaimResult where
  | claimed (reference : List UInt8) (attempt : UInt32) (route : JobExecutionRoute)
      (payload : List UInt8)
  | abandoned
  | contended
  | skipped

def decodeExecutionRouteWire : Decoder JobExecutionRoute := do
  let tag ← decodeWord
  if tag = 0 then pure .submitExecution
  else if tag = 1 then pure .reconcileExecution
  else failure

/-- The claim that the fields of an answer stand for. -/
def claimResult : UInt64 → Option (List UInt8) → Option UInt32 → Option JobExecutionRoute →
    Option (List UInt8) → Option JobClaimResult
  | 0, some reference, some attempt, some route, some payload =>
      some (.claimed reference attempt route payload)
  | 1, none, none, none, none => some .abandoned
  | 2, none, none, none, none => some .contended
  | 3, none, none, none, none => some .skipped
  | _, _, _, _, _ => none

def decodeClaimWire : Decoder JobClaimResult := do
  expectListLength 6
  expectFormatVersion
  let tag ← decodeWord
  let claim ← nullable decodeBytes
  let attempt ← nullable decodeWord32
  let route ← nullable decodeExecutionRouteWire
  let payload ← nullable decodeBytes
  match claimResult tag claim attempt route payload with
  | some result => pure result
  | none => failure

structure StoredSnapshot where
  sequence : UInt64
  version : UInt64
  payload : List UInt8

def decodeStoredSnapshotWire : Decoder (Option StoredSnapshot) := do
  expectListLength 2
  expectFormatVersion
  nullable do
    expectListLength 3
    let sequence ← decodeWord64
    let version ← decodeWord64
    StoredSnapshot.mk sequence version <$> decodeBytes

/-- A reason the binding knows, or the text of one it does not. -/
inductive RefusalReason where
  | known (refusal : JobRefusal)
  | unrecognized (text : String)

def decodeJobRefusal : String → RefusalReason
  | "job attempt counter exhausted" => .known .attemptExhausted
  | "invalid job claim policy" => .known .invalidClaimPolicy
  | "job aggregate refused the settlement" => .known .settlementRefused
  | "claimed job payload is not opaque bytes" => .known .payloadNotOpaqueBytes
  | "claimed job payload contains an invalid byte" => .known .payloadByteOutOfRange
  | "claimed job payload exceeds the ABI payload limit" => .known .payloadAboveAbiLimit
  | unmodelled => .unrecognized unmodelled

inductive EngineError where
  | malformedInput
  | optimisticConflict (aggregateType aggregateId : String) (expectedVersion actualVersion : UInt64)
  | jobRefused (jobId : JobId) (refusal : RefusalReason)
  | storageFailure (detail : String)
  | invalidState (detail : String)
  | resourceLimitExceeded (resource : String) (observed limit : UInt64)
  | enginePanic
  | unknownEngineError (code : UInt32)

def decodeEngineErrorDetail (code : UInt32) : Decoder EngineError :=
  if code = 1 then do
    let _ ← decodeString
    pure .malformedInput
  else if code = 2 then do
    expectListLength 4
    let aggregateType ← decodeString
    let aggregateId ← decodeString
    let expectedVersion ← decodeWord64
    let actualVersion ← decodeWord64
    pure (.optimisticConflict aggregateType aggregateId expectedVersion actualVersion)
  else if code = 3 then do
    expectListLength 2
    let jobId ← decodeString
    let refusal ← decodeJobRefusal <$> decodeString
    pure (.jobRefused jobId refusal)
  else if code = 4 then .storageFailure <$> decodeString
  else if code = 5 then .invalidState <$> decodeString
  else if code = 6 then do
    expectListLength 3
    let resource ← decodeString
    let observed ← decodeWord64
    let limit ← decodeWord64
    pure (.resourceLimitExceeded resource observed limit)
  else if code = 100 then do
    decodeNull
    pure .enginePanic
  else do
    decodeTerm
    pure (.unknownEngineError code)

def decodeEngineErrorWire (expectedCode : UInt32) : Decoder EngineError := do
  expectListLength 3
  let version ← decodeWord
  if version = 1 then do
    let encodedCode ← decodeWord32
    if encodedCode = expectedCode then decodeEngineErrorDetail encodedCode else failure
  else failure

/-! ## What the decoders read -/

section Reads

variable {jobs : List JobId}

open Cbor.Decoder

theorem reads_word (n : UInt64) : Decoder.Reads decodeWord (uintWrites n.toNat).flatten n :=
  Layout.u64.read_writes trivial (by
    have := Cbor.length_headWrites_le 0 n.toNat
    rw [Layout.writes_u64, uintWrites]
    omega)

theorem reads_word32 (n : UInt32) : Decoder.Reads decodeWord32 (uintWrites n.toNat).flatten n :=
  Layout.u32.read_writes trivial (by
    have := Cbor.length_headWrites_le 0 n.toNat
    rw [Layout.writes_u32, uintWrites]
    omega)

theorem reads_string {s : String} (h : (textWrites s).flatten.length < 2 ^ 64) :
    Decoder.Reads decodeString (textWrites s).flatten s :=
  Layout.text.read_writes trivial h

theorem reads_bytes {bytes : List UInt8} (h : (bytesWrites bytes).flatten.length < 2 ^ 64) :
    Decoder.Reads decodeBytes (bytesWrites bytes).flatten bytes :=
  Layout.blob.read_writes trivial h

theorem reads_expectFormatVersion : Decoder.Reads expectFormatVersion (uintWrites 1).flatten () :=
  (reads_word 1).then (if_pos rfl)

theorem reads_polledJobs (hcount : jobs.length < 2 ^ 64)
    (h : (Wire.polledJobs.bytes (1, jobs)).length < 2 ^ 64) :
    Decoder.Reads decodePolledJobsWire (Wire.polledJobs.bytes (1, jobs)) jobs := by
  simp only [Wire.polledJobs, Layout.bytes, Layout.writes_tuple, Layout.writes_pair,
    Layout.writes_seq, List.flatten_append, List.length_append] at h ⊢
  refine (reads_expectListLength (by decide)).bind (reads_expectFormatVersion.bind
    ((reads_listLen hcount).bind (reads_replicateM fun job hjob => reads_string ?_)))
  have hle : (textWrites job).flatten.length ≤ _ :=
    Cbor.length_flatten_le_of_mem Layout.text.writes hjob
  omega

theorem reads_storedSnapshot {stored : Option (UInt64 × UInt64 × List UInt8)}
    (h : (Wire.storedSnapshot.bytes (1, stored)).length < 2 ^ 64) :
    Decoder.Reads decodeStoredSnapshotWire (Wire.storedSnapshot.bytes (1, stored))
      (stored.map fun (sequence, version, payload) => ⟨sequence, version, payload⟩) := by
  simp only [Wire.storedSnapshot, Layout.bytes, Layout.writes_tuple, Layout.writes_pair,
    List.flatten_append, List.length_append] at h ⊢
  refine (reads_expectListLength (by decide)).bind (reads_expectFormatVersion.bind ?_)
  cases stored with
  | none => exact reads_nullable_null _
  | some snapshot =>
      obtain ⟨sequence, version, payload⟩ := snapshot
      have hpayload : (bytesWrites payload).flatten.length < 2 ^ 64 := by
        simp only [Layout.writes_option_some, Layout.writes_tuple, Layout.writes_pair,
          List.flatten_append, List.length_append, Layout.writes_blob] at h
        omega
      have hnull : ((Layout.u64.pair (Layout.u64.pair Layout.blob)).tuple 3 (by decide)).NeverNull :=
        Layout.neverNull_tuple _
      refine Decoder.Reads.nullable ?_ (hnull (sequence, version, payload))
      simp only [Layout.writes_option_some, Layout.writes_tuple, Layout.writes_pair,
        List.flatten_append]
      exact (reads_expectListLength (by decide)).bind ((reads_word sequence).bind
        ((reads_word version).bind ((reads_bytes hpayload).map _)))

/-- The route that the flag of a claim stands for. -/
theorem reads_executionRoute (handle : JobClaimHandle) :
    Decoder.Reads decodeExecutionRouteWire (uintWrites handle.hasPriorExecution.toNat).flatten
      (if handle.isFirstExecution then .submitExecution else .reconcileExecution) := by
  unfold JobClaimHandle.hasPriorExecution
  split_ifs
  · exact (reads_word 0).then rfl
  · exact (reads_word 1).then rfl

/-- What the binding gets for an answer. -/
def JobClaimResult.ofAnswer (token : ClaimToken) : ClaimAnswer → JobClaimResult
  | .claimed handle payload =>
      .claimed (Vector.toList token) handle.attempt
        (if handle.isFirstExecution then .submitExecution else .reconcileExecution) payload
  | .abandoned => .abandoned
  | .contended => .contended
  | .skipped => .skipped

/-- An answer without a claim: a tag and four nulls. -/
theorem reads_noClaim (tag : UInt64) (result : JobClaimResult)
    (hresult : claimResult tag none none none none = some result) :
    Decoder.Reads decodeClaimWire ((arrayWrites 6).flatten ++ ((uintWrites 1).flatten ++
      ((uintWrites tag.toNat).flatten ++ (nullWrites.flatten ++ (nullWrites.flatten ++
        (nullWrites.flatten ++ nullWrites.flatten)))))) result := by
  refine (reads_expectListLength (by decide)).bind (reads_expectFormatVersion.bind
    ((reads_word tag).bind ((reads_nullable_null _).bind ((reads_nullable_null _).bind
      ((reads_nullable_null _).bind ((reads_nullable_null _).then ?_))))))
  simp only [hresult]

theorem reads_claim {token : ClaimToken} {answer : ClaimAnswer}
    (h : (Wire.claimAnswer.bytes (answer.wire token)).length < 2 ^ 64) :
    Decoder.Reads decodeClaimWire (Wire.claimAnswer.bytes (answer.wire token))
      (.ofAnswer token answer) := by
  cases answer with
  | claimed handle payload =>
      simp only [ClaimAnswer.wire, Wire.claimAnswer, Layout.bytes, Layout.writes_tuple,
        Layout.writes_pair, Layout.writes_option_some, List.flatten_append, List.length_append,
        Layout.writes_blob] at h ⊢
      have htoken : (bytesWrites (Vector.toList token)).flatten.length < 2 ^ 64 := by omega
      have hpayload : (bytesWrites payload).flatten.length < 2 ^ 64 := by omega
      exact (reads_expectListLength (by decide)).bind (reads_expectFormatVersion.bind
        ((reads_word 0).bind
          (((reads_bytes htoken).nullable (Layout.neverNull_blob _)).bind
            (((reads_word32 handle.attempt).nullable (Layout.neverNull_u32 _)).bind
              (((reads_executionRoute handle).nullable (Layout.neverNull_u8 _)).bind
                (((reads_bytes hpayload).nullable (Layout.neverNull_blob _)).then rfl))))))
  | abandoned => exact reads_noClaim 1 .abandoned rfl
  | contended => exact reads_noClaim 2 .contended rfl
  | skipped => exact reads_noClaim 3 .skipped rfl

/-- What the binding gets for an error. -/
def EngineError.ofAbi : AbiError → EngineError
  | .malformedInput | .cborDecode | .sqliteOptions | .inputInteger | .canonicalCbor
  | .jobIdentifier => .malformedInput
  | .conflict aggregateType aggregateId expected actual =>
      .optimisticConflict aggregateType aggregateId (.ofNat expected) (.ofNat actual)
  | .jobRefusal jobId refusal => .jobRefused jobId (.known refusal)
  | .engine _ | .schema _ | .sql | .migration | .storageInteger | .jobRuntime _ | .jobPayload =>
      .storageFailure "storage failure"
  | .cborEncode | .responseIo => .invalidState "response encoding failed"
  | .runtime => .invalidState "runtime initialization failed"
  | .state detail => .invalidState detail
  | .resourceLimit resource observed limit =>
      .resourceLimitExceeded resource (.ofNat observed) (.ofNat limit)
  | .panic => .enginePanic

theorem decodeJobRefusal_text (refusal : JobRefusal) :
    decodeJobRefusal refusal.text = .known refusal := by
  cases refusal <;> rfl

theorem reads_word64 {n : ℕ} (hn : n < 2 ^ 64) :
    Decoder.Reads decodeWord64 (uintWrites n).flatten (.ofNat n) := by
  have hread := reads_word (.ofNat n)
  rwa [UInt64.toNat_ofNat_of_lt' hn] at hread

theorem reads_detail {error : AbiError} (hrange : error.InRange)
    (h : error.detail.writes.flatten.length < 2 ^ 64) :
    Decoder.Reads (decodeEngineErrorDetail error.code) error.detail.writes.flatten (.ofAbi error) := by
  cases error with
  | conflict aggregateType aggregateId expected actual =>
      simp only [AbiError.detail, ErrorDetail.writes, List.flatMap_cons, List.flatMap_nil,
        DetailField.writes, List.flatten_append, List.length_append, List.append_nil] at h ⊢
      exact (reads_expectListLength (by decide)).bind ((reads_string (by omega)).bind
        ((reads_string (by omega)).bind ((reads_word64 hrange.1).bind
          ((reads_word64 hrange.2).then rfl))))
  | jobRefusal jobId refusal =>
      simp only [AbiError.detail, ErrorDetail.writes, List.flatMap_cons, List.flatMap_nil,
        DetailField.writes, List.flatten_append, List.length_append, List.append_nil] at h ⊢
      refine (reads_expectListLength (by decide)).bind ((reads_string (by omega)).bind
        (((reads_string (by omega)).map _).then ?_))
      rw [decodeJobRefusal_text]
      rfl
  | resourceLimit resource observed limit =>
      simp only [AbiError.detail, ErrorDetail.writes, List.flatMap_cons, List.flatMap_nil,
        DetailField.writes, List.flatten_append, List.length_append, List.append_nil] at h ⊢
      exact (reads_expectListLength (by decide)).bind ((reads_string (by omega)).bind
        ((reads_word64 hrange.1).bind ((reads_word64 hrange.2).then rfl)))
  | panic => exact fun _ => rfl
  | malformedInput | cborDecode | sqliteOptions | inputInteger | canonicalCbor | jobIdentifier =>
      exact (reads_string h).then rfl
  | engine _ | schema _ | sql | migration | storageInteger | jobRuntime _ | jobPayload =>
      exact (reads_string h).map _
  | cborEncode | responseIo | runtime | state _ => exact (reads_string h).map _

theorem reads_engineError {error : AbiError} (hrange : error.InRange)
    (h : error.bytes.length < 2 ^ 64) :
    Decoder.Reads (decodeEngineErrorWire error.code) error.bytes (.ofAbi error) := by
  simp only [AbiError.bytes, List.append_assoc, List.flatten_append, List.length_append] at h ⊢
  refine (reads_expectListLength (by decide)).bind ((reads_word 1).bind ?_)
  rw [if_pos rfl]
  refine (reads_word32 error.code).bind ?_
  rw [if_pos rfl]
  exact reads_detail hrange (by omega)

end Reads

/-- Which decoder a call runs on the bytes it gets. -/
inductive Expected where
  | events
  | polled
  | claim
  | snapshot
  | error (status : UInt32)

/-- What the binding makes of a response. -/
inductive Received where
  | events (page : List OpaqueStoredEvent)
  | polled (jobs : List JobId)
  | claim (result : JobClaimResult)
  | snapshot (stored : Option StoredSnapshot)
  | error (error : EngineError)

def decodeResponse : Expected → List UInt8 → Option Received
  | .events, bytes => (decodeStoredEvents bytes).map .events
  | .polled, bytes => (decodePolledJobsWire.complete bytes).map .polled
  | .claim, bytes => (decodeClaimWire.complete bytes).map .claim
  | .snapshot, bytes => (decodeStoredSnapshotWire.complete bytes).map .snapshot
  | .error status, bytes => ((decodeEngineErrorWire status).complete bytes).map .error

end Binding

/-! ## What the boundary hands out -/

inductive Response where
  | events (page : List OpaqueStoredEvent)
  | polled (jobs : List JobId)
  | claim (token : ClaimToken) (answer : ClaimAnswer)
  | snapshot (stored : Option (UInt64 × UInt64 × List UInt8))
  | error (error : AbiError)

namespace Response

/-- The bytes of a response, if the boundary hands any out. -/
def encode : Response → Option (List UInt8)
  | events page => (encodeEventPage page).toOption
  | polled jobs => (encodeResponse Wire.polledJobs (1, jobs)).toOption
  | claim token answer => (encodeResponse Wire.claimAnswer (answer.wire token)).toOption
  | snapshot stored => (encodeResponse Wire.storedSnapshot (1, stored)).toOption
  | error failure => writeError failure

/-- The encoding of the tuple that is meant. -/
def canonical : Response → List UInt8
  | events page => Wire.storedEvents.bytes (1, page.map OpaqueStoredEvent.wire)
  | polled jobs => Wire.polledJobs.bytes (1, jobs)
  | claim token answer => Wire.claimAnswer.bytes (answer.wire token)
  | snapshot stored => Wire.storedSnapshot.bytes (1, stored)
  | error failure => failure.bytes

/-- Lists have at most as many items as the boundary answers with, and numbers are machine words. -/
def InRange : Response → Prop
  | events page => page.length ≤ maxListItems ∧ ∀ e ∈ page, e.sequence < 2 ^ 64
  | polled jobs => jobs.length ≤ maxListItems
  | claim _ _ | snapshot _ => True
  | error failure => failure.InRange

/-- The decoder of the call that gets the response. -/
def expected : Response → Binding.Expected
  | events _ => .events
  | polled _ => .polled
  | claim _ _ => .claim
  | snapshot _ => .snapshot
  | error failure => .error failure.code

/-- The values of a response on the binding's side. -/
def received : Response → Binding.Received
  | events page => .events page
  | polled jobs => .polled jobs
  | claim token answer => .claim (.ofAnswer token answer)
  | snapshot stored =>
      .snapshot (stored.map fun (sequence, version, payload) => ⟨sequence, version, payload⟩)
  | error failure => .error (.ofAbi failure)

end Response

theorem encodeResponse_eq_ok {α : Type} {layout : Layout α} {value : α} {bytes : List UInt8} :
    encodeResponse layout value = .ok bytes ↔
      (layout.bytes value).length ≤ maxResponseBytes ∧ bytes = layout.bytes value :=
  foldlM_boundedWrite_eq_ok (Nat.zero_le _)

/-- The hand-written page is the encoding of its tuple. -/
theorem pageBytes_eq {page : List OpaqueStoredEvent} (h : ∀ e ∈ page, e.sequence < 2 ^ 64) :
    pageBytes page = Wire.storedEvents.bytes (1, page.map OpaqueStoredEvent.wire) := by
  have hevents : page.flatMap OpaqueStoredEvent.bytes = ((page.map OpaqueStoredEvent.wire).flatMap
      (((Layout.u64.pair (Layout.text.pair (Layout.text.pair Layout.blob))).tuple 4
        (by decide)).writes)).flatten := by
    induction page with
    | nil => rfl
    | cons event page ih =>
        rw [List.forall_mem_cons] at h
        rw [List.flatMap_cons, List.map_cons, List.flatMap_cons, List.flatten_append, ih h.2]
        simp only [OpaqueStoredEvent.bytes, OpaqueStoredEvent.writes, OpaqueStoredEvent.wire,
          Layout.writes_tuple, Layout.writes_pair, Layout.writes_u64, Layout.writes_text,
          Layout.writes_blob, UInt64.toNat_ofNat_of_lt' h.1, List.append_assoc]
  simp only [pageBytes, Wire.storedEvents, Layout.bytes, Layout.writes_tuple, Layout.writes_pair,
    Layout.writes_seq, List.flatten_append, List.length_map, hevents, List.append_assoc]
  rfl

/-- **What the boundary encodes, the binding decodes.** The bytes of every response are the encoding of
the tuple that is meant, and the decoder of the call takes all of them and returns the values that
went in. -/
theorem Response.decodeResponse_encode {response : Response} (hrange : response.InRange)
    {bytes : List UInt8} (h : response.encode = some bytes) :
    bytes = response.canonical ∧
      Binding.decodeResponse response.expected bytes = some response.received := by
  have hmax : maxResponseBytes < 2 ^ 64 := by decide
  cases response with
  | events page =>
      have hcount : page.length ≤ 65535 := hrange.1.trans (by decide)
      obtain ⟨-, hlength, rfl⟩ := (encodeEventPage_eq_ok hcount).1 (Except.toOption_eq_some.1 h)
      refine ⟨pageBytes_eq hrange.2, ?_⟩
      rw [expected, Binding.decodeResponse, decodeStoredEvents_pageBytes hcount hrange.2 hlength]
      rfl
  | polled jobs =>
      have hcount : jobs.length < 2 ^ 64 := lt_of_le_of_lt hrange (by decide)
      obtain ⟨hlength, rfl⟩ := encodeResponse_eq_ok.1 (Except.toOption_eq_some.1 h)
      refine ⟨rfl, ?_⟩
      rw [expected, Binding.decodeResponse,
        (Binding.reads_polledJobs hcount (hlength.trans_lt hmax)).complete]
      rfl
  | claim token answer =>
      obtain ⟨hlength, rfl⟩ := encodeResponse_eq_ok.1 (Except.toOption_eq_some.1 h)
      refine ⟨rfl, ?_⟩
      rw [expected, Binding.decodeResponse, (Binding.reads_claim (hlength.trans_lt hmax)).complete]
      rfl
  | snapshot stored =>
      obtain ⟨hlength, rfl⟩ := encodeResponse_eq_ok.1 (Except.toOption_eq_some.1 h)
      refine ⟨rfl, ?_⟩
      rw [expected, Binding.decodeResponse,
        (Binding.reads_storedSnapshot (hlength.trans_lt hmax)).complete]
      rfl
  | error failure =>
      rw [encode, writeError] at h
      split_ifs at h with hlength
      obtain rfl := Option.some.inj h
      refine ⟨rfl, ?_⟩
      rw [expected, Binding.decodeResponse,
        (Binding.reads_engineError hrange (hlength.trans_lt hmax)).complete]
      rfl

/-- The answer to a claim of a first execution. -/
def freshClaim : Response :=
  .claim (show ClaimToken from Vector.replicate 16 7) (.claimed ⟨"j", 2, "c", 0⟩ [1, 2])

theorem fresh_claim_reaches_submit :
    ∃ bytes, freshClaim.encode = some bytes ∧ bytes = freshClaim.canonical ∧
      Binding.decodeResponse .claim bytes =
        some (.claim (.claimed (List.replicate 16 7) 0 .submitExecution [1, 2])) := by
  have hlength : freshClaim.canonical.length ≤ maxResponseBytes := by decide +kernel
  have hencode : freshClaim.encode = some freshClaim.canonical :=
    Except.toOption_eq_some.2 (encodeResponse_eq_ok.2 ⟨hlength, rfl⟩)
  have hrange : freshClaim.InRange := trivial
  exact ⟨_, hencode, Response.decodeResponse_encode hrange hencode⟩

end EventSorcery
