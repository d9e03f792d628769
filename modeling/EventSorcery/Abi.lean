import EventSorcery.Startup
import EventSorcery.JobProjection

/-!
# The C ABI

The entry points over one open store, from the decoded request on: their checks, the engine call
behind each, and the error the caller is told. Calls block until they are done, so each is one
function on the database. A claim token stands for the handle it was issued with; the calls below
take the handle. Reading job ids from text is a parameter.
-/

namespace EventSorcery

/-! ## Errors and limits -/

/-- Why one job refused a request. -/
inductive JobRefusal where
  | attemptExhausted
  | invalidClaimPolicy
  | settlementRefused
  | payloadNotOpaqueBytes
  | payloadByteOutOfRange
  | payloadAboveAbiLimit
  deriving DecidableEq, Repr

def JobRefusal.text : JobRefusal → String
  | attemptExhausted => "job attempt counter exhausted"
  | invalidClaimPolicy => "invalid job claim policy"
  | settlementRefused => "job aggregate refused the settlement"
  | payloadNotOpaqueBytes => "claimed job payload is not opaque bytes"
  | payloadByteOutOfRange => "claimed job payload contains an invalid byte"
  | payloadAboveAbiLimit => "claimed job payload exceeds the ABI payload limit"

/-- What a call fails with. The causes that other libraries report are left out; `schema` is the
engine's schema error. -/
inductive AbiError where
  | malformedInput
  | cborDecode
  | sqliteOptions
  | inputInteger
  | canonicalCbor
  | conflict (aggregateType aggregateId : String) (expected actual : ℕ)
  | jobIdentifier
  | jobRefusal (jobId : JobId) (refusal : JobRefusal)
  | jobRuntime (error : JobRuntimeError)
  | jobPayload
  | engine (error : EngineError)
  | schema (error : ReconcileError)
  | sql
  | migration
  | storageInteger
  | cborEncode
  | responseIo
  | runtime
  | state (detail : String)
  | resourceLimit (resource : String) (observed limit : ℕ)
  | panic

def maxPayloadBytes : ℕ := 1024 * 1024
def maxCommitEvents : ℕ := 1024
def maxErrorTextBytes : ℕ := 4 * 1024
def maxIdentifierBytes : ℕ := 4 * 1024
def maxListItems : ℕ := 4096

def AbiError.ofEngine : EngineError → AbiError
  | .eventPageTooLarge observed limit => .resourceLimit "stored_event_page" observed limit
  | .jobFlush (.invalidInstant _) => .malformedInput
  | other => .engine other

def AbiError.ofReconcile : ReconcileError → AbiError
  | .compactedSnapshotClear _ _ _ => .state "compacted snapshot retention cannot be cleared"
  | other => .schema other

/-- The retry answer of a job-runtime fault. -/
def jobRuntimeError (jobId : JobId) : JobRuntimeError → AbiError
  | .invalidInstant _ => .malformedInput
  | .attemptExhausted => .jobRefusal jobId .attemptExhausted
  | .invalidClaimPolicy => .jobRefusal jobId .invalidClaimPolicy
  | .settlementRefused refused => .jobRefusal refused .settlementRefused
  | infrastructure => .jobRuntime infrastructure

def requireVersion (version : UInt8) : Except AbiError Unit :=
  if version = 1 then .ok () else .error .malformedInput

def rejectMalformed (malformed : Bool) : Except AbiError Unit :=
  if malformed then .error .malformedInput else .ok ()

/-- A bound on a size, reported under the resource's own name. -/
def requireLimit (resource : String) (limit observed : ℕ) : Except AbiError Unit :=
  if observed ≤ limit then .ok () else .error (.resourceLimit resource observed limit)

def requirePayloadLimit : ℕ → Except AbiError Unit :=
  requireLimit "opaque_domain_payload" maxPayloadBytes

def requireErrorTextLimit : ℕ → Except AbiError Unit :=
  requireLimit "error_detail_text" maxErrorTextBytes

def requireCommitEventCount : ℕ → Except AbiError Unit :=
  requireLimit "commit_events" maxCommitEvents

def requireIdentifierLimit : ℕ → Except AbiError Unit :=
  requireLimit "identifier_text" maxIdentifierBytes

/-! ## Commits -/

/-- The decoded events of a commit: at most `maxCommitEvents` of them, and how many were seen. -/
structure CommitEvents where
  values : List OpaqueProposedEvent
  observed : ℕ

structure CommitWire where
  version : UInt8
  aggregateType : String
  aggregateId : String
  expected : UInt64
  events : CommitEvents

structure JobSeedWire where
  jobId : String
  kind : String
  payload : List UInt8
  runAtMs : ℤ

/-- Validate a commit and turn it into the engine's request, without its job. -/
def commitParts (wire : CommitWire) : Except AbiError OpaqueCommitRequest := do
  requireVersion wire.version
  requireIdentifierLimit wire.aggregateType.utf8ByteSize
  requireIdentifierLimit wire.aggregateId.utf8ByteSize
  requireCommitEventCount wire.events.observed
  rejectMalformed (wire.events.values = [])
  rejectMalformed (checkedAddUsize wire.expected.toNat wire.events.values.length).isNone
  wire.events.values.forM fun event => requirePayloadLimit event.payload.length
  .ok ⟨⟨wire.aggregateType, wire.aggregateId⟩, wire.expected.toNat, wire.events.values, []⟩

theorem commitParts_eq_ok {wire : CommitWire} {request : OpaqueCommitRequest}
    (h : commitParts wire = .ok request) :
    request = ⟨⟨wire.aggregateType, wire.aggregateId⟩, wire.expected.toNat, wire.events.values,
        []⟩ ∧
      wire.events.values.forM (fun event => requirePayloadLimit event.payload.length) =
        .ok () ∧
      wire.events.values ≠ [] := by
  obtain ⟨_, -, h⟩ := Except.bind_eq_ok.1 h
  obtain ⟨_, -, h⟩ := Except.bind_eq_ok.1 h
  obtain ⟨_, -, h⟩ := Except.bind_eq_ok.1 h
  obtain ⟨_, -, h⟩ := Except.bind_eq_ok.1 h
  obtain ⟨_, hvalues, h⟩ := Except.bind_eq_ok.1 h
  obtain ⟨_, -, h⟩ := Except.bind_eq_ok.1 h
  obtain ⟨_, hpayloads, h⟩ := Except.bind_eq_ok.1 h
  refine ⟨(Except.ok.inj h).symm, hpayloads, fun hnil => ?_⟩
  rw [rejectMalformed, if_pos (decide_eq_true hnil)] at hvalues
  cases hvalues

/-- Bytes as the JSON array of numbers they are stored as. -/
def bytesToJson (payload : List UInt8) : Json := .arr (payload.map fun b => .int b.toNat)

section Calls

variable (parseJobId : String → Option JobId)

/-- Validate a job intent. -/
def jobSeed (job : JobSeedWire) : Except AbiError EnqueueRequest := do
  requireIdentifierLimit job.jobId.utf8ByteSize
  requireIdentifierLimit job.kind.utf8ByteSize
  requirePayloadLimit job.payload.length
  match parseJobId job.jobId with
  | none => .error .jobIdentifier
  | some jobId => .ok ⟨jobId, job.kind, bytesToJson job.payload, job.runAtMs⟩

variable {parseJobId} in
/-- A job intent has an id that was parsed. -/
theorem parsed_of_jobSeed {job : JobSeedWire} {request : EnqueueRequest}
    (h : jobSeed parseJobId job = .ok request) : parseJobId job.jobId = some request.jobId := by
  obtain ⟨_, -, h⟩ := Except.bind_eq_ok.1 h
  obtain ⟨_, -, h⟩ := Except.bind_eq_ok.1 h
  obtain ⟨_, -, h⟩ := Except.bind_eq_ok.1 h
  split at h
  · cases h
  next id hid =>
    obtain rfl := Except.ok.inj h
    exact hid

/-- Commit; a conflict is told with the version read back afterwards. -/
def commitResult (fault : Option EngineError) (request : OpaqueCommitRequest) (db : Db) :
    Except AbiError Unit × Db :=
  match commitOpaque fault request db with
  | (.ok (), db') => (.ok (), db')
  | (.error .optimisticLock, db') =>
      (.error (.conflict request.stream.aggregateType request.stream.aggregateId
        request.expectedVersion (committedStreamVersion db' request.stream)), db')
  | (.error error, db') => (.error (.ofEngine error), db')

def esCommit (fault : Option EngineError) (wire : CommitWire) (db : Db) :
    Except AbiError Unit × Db :=
  match commitParts wire with
  | .error error => (.error error, db)
  | .ok request => commitResult fault request db

def esCommitWithJob (fault : Option EngineError) (wire : CommitWire) (job : JobSeedWire) (db : Db) :
    Except AbiError Unit × Db :=
  match commitParts wire, jobSeed parseJobId job with
  | .error error, _ | .ok _, .error error => (.error error, db)
  | .ok request, .ok seed => commitResult fault { request with jobs := [seed] } db

/-! ## Snapshots and schema -/

structure SnapshotWire where
  version : UInt8
  aggregateType : String
  aggregateId : String
  sequence : UInt64
  payload : List UInt8

def esSnapshotStore (fault : Option EngineError) (wire : SnapshotWire) (db : Db) :
    Except AbiError ℕ × Db :=
  let checks : Except AbiError Unit := do
    requireVersion wire.version
    requireIdentifierLimit wire.aggregateType.utf8ByteSize
    requireIdentifierLimit wire.aggregateId.utf8ByteSize
    requirePayloadLimit wire.payload.length
  match checks with
  | .error error => (.error error, db)
  | .ok () =>
      let stored := storeSnapshot fault ⟨wire.aggregateType, wire.aggregateId⟩
        ⟨encodeOpaquePayload wire.payload, wire.sequence.toNat⟩ db
      (stored.1.mapError .ofEngine, stored.2)

structure StreamWire where
  version : UInt8
  aggregateType : String
  aggregateId : String

def esSnapshotDiscard (fault : Option EngineError) (wire : StreamWire) (db : Db) :
    Except AbiError Unit × Db :=
  let checks : Except AbiError Unit := do
    requireVersion wire.version
    requireIdentifierLimit wire.aggregateType.utf8ByteSize
    requireIdentifierLimit wire.aggregateId.utf8ByteSize
  match checks with
  | .error error => (.error error, db)
  | .ok () =>
      let discarded := discardSnapshot fault ⟨wire.aggregateType, wire.aggregateId⟩ db
      (discarded.1.mapError .ofEngine, discarded.2)

structure SchemaWire where
  version : UInt8
  aggregateType : String
  schemaVersion : UInt64
  compaction : UInt8

/-- The policy is `0` to retain events and `1` to compact them; any other tag is malformed. -/
def decodeSchemaTarget (wire : SchemaWire) : Except AbiError SchemaTarget := do
  requireVersion wire.version
  requireIdentifierLimit wire.aggregateType.utf8ByteSize
  if wire.compaction = 0 then .ok ⟨wire.aggregateType, wire.schemaVersion, .retain⟩
  else if wire.compaction = 1 then
    .ok ⟨wire.aggregateType, wire.schemaVersion, .compactAfterSnapshot⟩
  else .error .malformedInput

def esSchemaReconcile (wire : SchemaWire) (db : Db) :
    Except AbiError SchemaReconciliation × Db :=
  match decodeSchemaTarget wire with
  | .error error => (.error error, db)
  | .ok target =>
      let reconciled := reconcileTarget target db
      (reconciled.1.mapError .ofReconcile, reconciled.2)

def esSchemaRecord (wire : SchemaWire) (db : Db) : Except AbiError Unit × Db :=
  match decodeSchemaTarget wire with
  | .error error => (.error error, db)
  | .ok target =>
      let recorded := recordTarget target db
      (recorded.1.mapError .ofReconcile, recorded.2)

/-! ## Jobs -/

def esJobEnqueue (fault : Option SqliteJobError) (version : UInt8) (job : JobSeedWire) (db : Db) :
    Except AbiError Unit × Db :=
  match requireVersion version, jobSeed parseJobId job with
  | .error error, _ | .ok (), .error error => (.error error, db)
  | .ok (), .ok request =>
      let enqueued := enqueueJobPayload fault request db
      (enqueued.1.mapError (jobRuntimeError request.jobId), enqueued.2)

/-- What a settlement meets from outside: a storage fault, the clock, and whether the queue's
reactor call after it reaches the database. -/
structure SettleEnv where
  fault : Option EngineError
  clock : ℕ → ℤ
  reacts : Bool

/-- Send a command to the job aggregate, and hand its events to the queue's reactor. -/
def settleJob (K : CqrsEs) (env : SettleEnv) (jobId : JobId) (command : JobCommand) (db : Db) :
    Except JobRuntimeError JobSettlementResult × Db :=
  let sent := sendAlone K jobEntity env.fault env.clock jobId command "" db
  let db' :=
    match sent.1 with
    | .error _ => sent.2
    | .ok events =>
        if env.reacts then
          sent.2.withQueue (events.foldl (fun view event => reactAlone jobEntity view jobId event)
            sent.2.jobQueue)
        else sent.2
  ((classifySettlement sent.1).result jobId, db')

def acknowledgeJob (handle : JobClaimHandle) : Except JobRuntimeError JobCommand :=
  .ok (.succeed handle.claimId)

def retryJob (handle : JobClaimHandle) (runAtMs : ℤ) (error : String) :
    Except JobRuntimeError JobCommand := do
  let runAt ← (instantFromMillis runAtMs).mapError .ofStore
  if handle.attempt.toNat + 1 < UInt32.size then
    .ok (.retrySchedule handle.claimId runAt (handle.attempt + 1) error)
  else .error .attemptExhausted

def deferJob (handle : JobClaimHandle) (runAtMs : ℤ) : Except JobRuntimeError JobCommand := do
  let runAt ← (instantFromMillis runAtMs).mapError .ofStore
  .ok (.reschedule handle.claimId runAt)

def deadLetterJob (handle : JobClaimHandle) (reason : DeadReason) (error : String) :
    Except JobRuntimeError JobCommand :=
  .ok (.kill handle.claimId reason error)

def deadReason (tag : UInt8) : Except AbiError DeadReason :=
  if tag = 0 then .ok .retriesExhausted
  else if tag = 1 then .ok .rejected
  else if tag = 2 then .ok .undecodable
  else if tag = 3 then .ok .abandoned
  else .error .malformedInput

/-- A settlement call: what it checks, and the command it stands for. -/
def settleClaimWith (K : CqrsEs) (env : SettleEnv) (handle : JobClaimHandle)
    (validate : Except AbiError Unit) (command : Except JobRuntimeError JobCommand) (db : Db) :
    Except AbiError JobSettlementResult × Db :=
  match validate, command with
  | .error error, _ => (.error error, db)
  | .ok (), .error error => (.error (jobRuntimeError handle.jobId error), db)
  | .ok (), .ok command =>
      let settled := settleJob K env handle.jobId command db
      (settled.1.mapError (jobRuntimeError handle.jobId), settled.2)

def esJobAck (K : CqrsEs) (env : SettleEnv) (version : UInt8) (handle : JobClaimHandle) (db : Db) :
    Except AbiError JobSettlementResult × Db :=
  settleClaimWith K env handle (requireVersion version) (acknowledgeJob handle) db

def esJobRetry (K : CqrsEs) (env : SettleEnv) (version : UInt8) (handle : JobClaimHandle)
    (runAtMs : ℤ) (error : String) (db : Db) : Except AbiError JobSettlementResult × Db :=
  settleClaimWith K env handle
    (do requireVersion version; requireErrorTextLimit error.utf8ByteSize)
    (retryJob handle runAtMs error) db

def esJobDefer (K : CqrsEs) (env : SettleEnv) (version : UInt8) (handle : JobClaimHandle)
    (runAtMs : ℤ) (db : Db) : Except AbiError JobSettlementResult × Db :=
  settleClaimWith K env handle (requireVersion version) (deferJob handle runAtMs) db

def esJobDeadLetter (K : CqrsEs) (env : SettleEnv) (version : UInt8) (handle : JobClaimHandle)
    (reason : UInt8) (error : String) (db : Db) : Except AbiError JobSettlementResult × Db :=
  match deadReason reason with
  | .error failure =>
      settleClaimWith K env handle
        (do requireVersion version; requireErrorTextLimit error.utf8ByteSize; .error failure)
        (acknowledgeJob handle) db
  | .ok reason =>
      settleClaimWith K env handle
        (do requireVersion version; requireErrorTextLimit error.utf8ByteSize)
        (deadLetterJob handle reason error) db

def esJobRenew (version : UInt8) (handle : JobClaimHandle) (newLeaseUntilMs : ℤ) (db : Db) :
    Except AbiError LeaseRenewal × Db :=
  match requireVersion version with
  | .error error => (.error error, db)
  | .ok () =>
      let renewed := renewJob handle.jobId handle.claimSeq newLeaseUntilMs db
      (.ok renewed.1, renewed.2)

/-- A claimed job's payload as the bytes it was stored from. -/
def claimedPayloadBytes : Json → Except JobRefusal (List UInt8)
  | .arr bytes => do
      let bytes ← bytes.mapM fun b =>
        match b.asNatBelow? 256 with
        | some b => .ok (UInt8.ofNat b)
        | none => .error .payloadByteOutOfRange
      if bytes.length ≤ maxPayloadBytes then .ok bytes else .error .payloadAboveAbiLimit
  | _ => .error .payloadNotOpaqueBytes

/-- Settle a claim that was won but whose payload the caller cannot be handed. -/
def deadLetterUnusableClaim (K : CqrsEs) (env : SettleEnv) (handle : JobClaimHandle)
    (refusal : JobRefusal) (db : Db) : AbiError × Db :=
  let settled := settleJob K env handle.jobId (.kill handle.claimId .undecodable refusal.text) db
  match settled.1 with
  | .ok _ => (.jobRefusal handle.jobId refusal, settled.2)
  | .error error => (jobRuntimeError handle.jobId error, settled.2)

structure ClaimWire where
  version : UInt8
  jobId : String
  workerName : String
  nowMs : ℤ
  leaseMs : ℤ
  maxClaims : UInt32

/-- What a claim call returns: a handle with the payload's bytes, or no claim. -/
inductive ClaimAnswer where
  | claimed (handle : JobClaimHandle) (payload : List UInt8)
  | abandoned
  | contended
  | skipped

/-- Claim one job. `capacity` says whether the store has a slot for the token; the worker identity
and the claim id are drawn fresh. -/
def esJobClaim (K : CqrsEs) (env : SettleEnv) (fault : Option SqliteJobError)
    (capacity : Except AbiError Unit) (worker : WorkerId) (mint : ClaimId) (wire : ClaimWire)
    (db : Db) : Except AbiError ClaimAnswer × Db :=
  let checks : Except AbiError JobId := do
    requireVersion wire.version
    requireIdentifierLimit wire.jobId.utf8ByteSize
    requireIdentifierLimit wire.workerName.utf8ByteSize
    if wire.leaseMs ≤ 0 ∨ wire.maxClaims = 0 then .error .malformedInput
    let jobId ← match parseJobId wire.jobId with
      | none => .error .jobIdentifier
      | some jobId => .ok jobId
    if (checkedAddI64 wire.nowMs wire.leaseMs).isNone then
      .error (.state "claim lease instant overflowed")
    capacity
    .ok jobId
  match checks with
  | .error error => (.error error, db)
  | .ok jobId =>
      let claimed :=
        claimJobAs fault ⟨jobId, worker, wire.nowMs, wire.leaseMs, wire.maxClaims, mint⟩ db
      match claimed.1 with
      | .error error => (.error (jobRuntimeError jobId error), claimed.2)
      | .ok .abandoned => (.ok .abandoned, claimed.2)
      | .ok .contended => (.ok .contended, claimed.2)
      | .ok .skipped => (.ok .skipped, claimed.2)
      | .ok (.claimed handle payload) =>
          match claimedPayloadBytes payload with
          | .ok bytes => (.ok (.claimed handle bytes), claimed.2)
          | .error refusal =>
              let dead := deadLetterUnusableClaim K env handle refusal claimed.2
              (.error dead.1, dead.2)

/-! ## Opening -/

/-- Open a migrated database: build the job runtime's store, whose view is the queue. -/
def esOpen (db : Db) : Except ReconcileError Unit × Db :=
  let built := build jobEntity 1 db db.jobQueue
  (built.1, built.2.1.withQueue built.2.2)

end Calls

end EventSorcery
