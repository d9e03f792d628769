import EventSorcery.Pages
import EventSorcery.Lib.Layout

/-!
# Requests across the ABI

The tuples that cross the boundary in both directions are laid out here. The binding encodes each
request by hand; the boundary decodes the bytes into the entry point's tuple, and then refuses them
unless they are the tuple's own encoding. `Request.decode_encode`: what the binding encodes passes
both, and arrives with the values that went in.
-/

namespace EventSorcery

open Cbor (Layout)

/-! ## The boundary's side -/

/-- How deep a request may nest. -/
def maxCborDepth : ℕ := 32

/-- Decode a request, let the entry point look at it, and check that no other bytes would have done. -/
def decodeValidated {α : Type} (layout : Layout α) (validate : α → Except AbiError Unit)
    (bytes : List UInt8) : Except AbiError α :=
  if maxRequestBytes < bytes.length then
    .error (.resourceLimit "encoded_request_buffer" bytes.length maxRequestBytes)
  else
    match layout.read bytes with
    | none => .error .cborDecode
    | some (decoded, _) =>
        match validate decoded with
        | .error error => .error error
        | .ok () => if layout.bytes decoded = bytes then .ok decoded else .error .malformedInput

/-- `[version, path, busy_timeout_ms, pool_size, runtime_threads]`. -/
abbrev OpenWire := UInt8 × String × UInt64 × UInt32 × UInt32

/-- `[version, job_id, kind, payload, run_at_ms]`. -/
abbrev EnqueueWire := UInt8 × JobSeedWire

/-- `[version, kind, now_ms, limit]`. -/
abbrev PollWire := UInt8 × String × ℤ × UInt32

/-- `[version, claim_token, new_lease_until_ms]`. -/
abbrev JobRenewWire := UInt8 × List UInt8 × ℤ

/-- `[version, claim_token]`. -/
abbrev JobAckWire := UInt8 × List UInt8

/-- `[version, claim_token, run_at_ms, error]`. -/
abbrev JobRetryWire := UInt8 × List UInt8 × ℤ × String

/-- `[version, claim_token, run_at_ms]`. -/
abbrev JobDeferWire := UInt8 × List UInt8 × ℤ

/-- `[version, claim_token, reason_tag, error]`. -/
abbrev JobDeadLetterWire := UInt8 × List UInt8 × UInt8 × String

namespace Wire

def openOptions : Layout OpenWire :=
  .tuple 5 (by decide) (.pair .u8 (.pair .text (.pair .u64 (.pair .u32 .u32))))

def load : Layout LoadWire :=
  (Layout.tuple 4 (by decide)
    (.pair .u8 (.pair .text (.pair .text (.option .u64 Layout.neverNull_u64))))).via
    (fun (version, type, id, after) => ⟨version, type, id, after⟩)
    (fun wire => (wire.version, wire.aggregateType, wire.aggregateId, wire.after)) fun _ => rfl

def stream : Layout StreamWire :=
  (Layout.tuple 3 (by decide) (.pair .u8 (.pair .text .text))).via
    (fun (version, type, id) => ⟨version, type, id⟩)
    (fun wire => (wire.version, wire.aggregateType, wire.aggregateId)) fun _ => rfl

/-- `[event_type, event_version, payload]`. -/
def proposedEvent : Layout OpaqueProposedEvent :=
  (Layout.tuple 3 (by decide) (.pair .text (.pair .text .blob))).via
    (fun (type, version, payload) => ⟨type, version, payload⟩)
    (fun event => (event.eventType, event.eventVersion, event.payload)) fun _ => rfl

/-- The visitor keeps at most `maxCommitEvents` events, and looks whether there is one more. -/
def readCommitEvents (input : List UInt8) : Option (CommitEvents × List UInt8) := do
  let (length, input) ← Cbor.readArrayLen input
  let (values, input) ← Cbor.readCount proposedEvent.read (min length maxCommitEvents) input
  if length ≤ maxCommitEvents then some (⟨values, values.length⟩, input)
  else
    -- The request and its list of events are two levels of nesting.
    let input ← Cbor.skip (maxCborDepth - 2) input
    some (⟨values, values.length + 1⟩, input)

def commitEvents : Layout CommitEvents where
  writes events := Cbor.arrayWrites events.values.length ++ events.values.flatMap proposedEvent.writes
  read := readCommitEvents
  InRange events := events.observed = events.values.length ∧ events.values.length ≤ maxCommitEvents
  read_writes {events} h hshort rest := by
    obtain ⟨values, observed⟩ := events
    obtain ⟨hobserved, hcount⟩ := h
    dsimp only at hobserved hcount hshort ⊢
    subst hobserved
    have hlength : values.length < 2 ^ 64 := hcount.trans_lt (by decide)
    rw [List.flatten_append, List.length_append] at hshort
    have hevent : ∀ event ∈ values, ∀ rest,
        proposedEvent.read ((proposedEvent.writes event).flatten ++ rest) = some (event, rest) := by
      refine fun event he rest => proposedEvent.read_writes ⟨trivial, trivial, trivial⟩ ?_ rest
      exact (Cbor.length_flatten_le_of_mem _ he).trans_lt ((Nat.le_add_left _ _).trans_lt hshort)
    rw [List.flatten_append, List.append_assoc, readCommitEvents,
      Cbor.readArrayLen_arrayWrites hlength]
    simp only [Option.bind_eq_bind, Option.bind_some, Nat.min_eq_left hcount,
      Cbor.readCount_flatMap hevent, if_pos hcount]

def commit : Layout CommitWire :=
  (Layout.tuple 5 (by decide)
    (.pair .u8 (.pair .text (.pair .text (.pair .u64 commitEvents))))).via
    (fun (version, type, id, expected, events) => ⟨version, type, id, expected, events⟩)
    (fun wire => (wire.version, wire.aggregateType, wire.aggregateId, wire.expected, wire.events))
    fun _ => rfl

/-- The fields of a job intent, without the array around them. -/
def seedFields : Layout JobSeedWire :=
  (Layout.pair .text (.pair .text (.pair .blob .i64))).via
    (fun (jobId, kind, payload, runAtMs) => ⟨jobId, kind, payload, runAtMs⟩)
    (fun seed => (seed.jobId, seed.kind, seed.payload, seed.runAtMs)) fun _ => rfl

def commitWithJob : Layout (CommitWire × JobSeedWire) :=
  (Layout.tuple 6 (by decide)
    (.pair .u8 (.pair .text (.pair .text (.pair .u64
      (.pair commitEvents (.tuple 4 (by decide) seedFields))))))).via
    (fun (version, type, id, expected, events, job) => (⟨version, type, id, expected, events⟩, job))
    (fun (wire, job) =>
      (wire.version, wire.aggregateType, wire.aggregateId, wire.expected, wire.events, job))
    fun _ => rfl

def snapshotStore : Layout SnapshotWire :=
  (Layout.tuple 5 (by decide) (.pair .u8 (.pair .text (.pair .text (.pair .u64 .blob))))).via
    (fun (version, type, id, sequence, payload) => ⟨version, type, id, sequence, payload⟩)
    (fun wire => (wire.version, wire.aggregateType, wire.aggregateId, wire.sequence, wire.payload))
    fun _ => rfl

def schema : Layout SchemaWire :=
  (Layout.tuple 4 (by decide) (.pair .u8 (.pair .text (.pair .u64 .u8)))).via
    (fun (version, type, schemaVersion, compaction) => ⟨version, type, schemaVersion, compaction⟩)
    (fun wire => (wire.version, wire.aggregateType, wire.schemaVersion, wire.compaction))
    fun _ => rfl

def jobEnqueue : Layout EnqueueWire := .tuple 5 (by decide) (.pair .u8 seedFields)

def jobPoll : Layout PollWire := .tuple 4 (by decide) (.pair .u8 (.pair .text (.pair .i64 .u32)))

def jobClaim : Layout ClaimWire :=
  (Layout.tuple 6 (by decide)
    (.pair .u8 (.pair .text (.pair .text (.pair .i64 (.pair .i64 .u32)))))).via
    (fun (version, jobId, worker, nowMs, leaseMs, maxClaims) =>
      ⟨version, jobId, worker, nowMs, leaseMs, maxClaims⟩)
    (fun wire =>
      (wire.version, wire.jobId, wire.workerName, wire.nowMs, wire.leaseMs, wire.maxClaims))
    fun _ => rfl

def jobRenew : Layout JobRenewWire := .tuple 3 (by decide) (.pair .u8 (.pair .blob .i64))

def jobAck : Layout JobAckWire := .tuple 2 (by decide) (.pair .u8 .blob)

def jobRetry : Layout JobRetryWire :=
  .tuple 4 (by decide) (.pair .u8 (.pair .blob (.pair .i64 .text)))

def jobDefer : Layout JobDeferWire := .tuple 3 (by decide) (.pair .u8 (.pair .blob .i64))

def jobDeadLetter : Layout JobDeadLetterWire :=
  .tuple 4 (by decide) (.pair .u8 (.pair .blob (.pair .u8 .text)))

end Wire

/-! ## The tuples of the responses -/

/-- `[sequence, event_type, event_version, payload]`. -/
abbrev StoredEventWire := UInt64 × String × String × List UInt8

/-- `[response_version, [sequence, snapshot_version, payload]]`, with null where there is no
snapshot. -/
abbrev StoredSnapshotWire := UInt8 × Option (UInt64 × UInt64 × List UInt8)

/-- `[response_version, outcome_tag, token, attempt, has_prior_execution, payload]`. -/
abbrev JobClaimWire :=
  UInt8 × UInt8 × Option (List UInt8) × Option UInt32 × Option UInt8 × Option (List UInt8)

namespace Wire

open Cbor.Layout

def storedEvents : Layout (UInt8 × List StoredEventWire) :=
  (u8.pair (((u64.pair (text.pair (text.pair blob))).tuple 4 (by decide)).seq)).tuple 2 (by decide)

def polledJobs : Layout (UInt8 × List JobId) := (u8.pair text.seq).tuple 2 (by decide)

def storedSnapshot : Layout StoredSnapshotWire :=
  (u8.pair (((u64.pair (u64.pair blob)).tuple 3 (by decide)).option (neverNull_tuple _))).tuple 2
    (by decide)

def claimAnswer : Layout JobClaimWire :=
  (u8.pair (u8.pair ((blob.option neverNull_blob).pair ((u32.option neverNull_u32).pair
    ((u8.option neverNull_u8).pair (blob.option neverNull_blob)))))).tuple 6 (by decide)

end Wire

/-! ## The binding's side -/

namespace Binding

open Cbor (arrayWrites uintWrites intWrites textWrites bytesWrites nullWrites)

structure OpenOptions where
  path : String
  busyTimeoutMilliseconds : UInt64
  poolSize : UInt32
  runtimeThreads : UInt32

/-- The durable intent to run one job. -/
structure JobSeed where
  jobId : String
  kind : String
  payload : List UInt8
  runAt : Int64

def encodeOpenOptions (options : OpenOptions) : List UInt8 :=
  (arrayWrites 5 ++ uintWrites 1 ++ textWrites options.path ++
    uintWrites options.busyTimeoutMilliseconds.toNat ++ uintWrites options.poolSize.toNat ++
    uintWrites options.runtimeThreads.toNat).flatten

def encodeStreamIdentity (stream : StreamIdentity) : List (List UInt8) :=
  textWrites stream.aggregateType ++ textWrites stream.aggregateId

def encodeProposedEvent (event : OpaqueProposedEvent) : List (List UInt8) :=
  arrayWrites 3 ++ textWrites event.eventType ++ textWrites event.eventVersion ++
    bytesWrites event.payload

def encodeLoadStream (stream : StreamIdentity) (after : Option UInt64) : List UInt8 :=
  (arrayWrites 4 ++ uintWrites 1 ++ encodeStreamIdentity stream ++
    match after with
    | none => nullWrites
    | some cursor => uintWrites cursor.toNat).flatten

def encodeCurrentVersion (stream : StreamIdentity) : List UInt8 :=
  (arrayWrites 3 ++ uintWrites 1 ++ encodeStreamIdentity stream).flatten

def encodeCommit (stream : StreamIdentity) (expected : UInt64) (events : List OpaqueProposedEvent) :
    List UInt8 :=
  (arrayWrites 5 ++ uintWrites 1 ++ encodeStreamIdentity stream ++ uintWrites expected.toNat ++
    arrayWrites events.length ++ events.flatMap encodeProposedEvent).flatten

def encodeSeed (seed : JobSeed) : List (List UInt8) :=
  textWrites seed.jobId ++ textWrites seed.kind ++ bytesWrites seed.payload ++
    intWrites seed.runAt.toInt

def encodeCommitWithJob (stream : StreamIdentity) (expected : UInt64)
    (events : List OpaqueProposedEvent) (seed : JobSeed) : List UInt8 :=
  (arrayWrites 6 ++ uintWrites 1 ++ encodeStreamIdentity stream ++ uintWrites expected.toNat ++
    arrayWrites events.length ++ events.flatMap encodeProposedEvent ++ arrayWrites 4 ++
    encodeSeed seed).flatten

/-- A request that names one stream: to load or discard its snapshot. -/
def encodeIdentity (identity : StreamIdentity) : List UInt8 :=
  (arrayWrites 3 ++ uintWrites 1 ++ textWrites identity.aggregateType ++
    textWrites identity.aggregateId).flatten

def encodeWrite (identity : StreamIdentity) (sequence : UInt64) (payload : List UInt8) :
    List UInt8 :=
  (arrayWrites 5 ++ uintWrites 1 ++ textWrites identity.aggregateType ++
    textWrites identity.aggregateId ++ uintWrites sequence.toNat ++ bytesWrites payload).flatten

def compactionTag : CompactionPolicy → UInt8
  | .retain => 0
  | .compactAfterSnapshot => 1

def encodeSchemaTarget (aggregateType : String) (schemaVersion : UInt16)
    (policy : CompactionPolicy) : List UInt8 :=
  (arrayWrites 4 ++ uintWrites 1 ++ textWrites aggregateType ++ uintWrites schemaVersion.toNat ++
    uintWrites (compactionTag policy).toNat).flatten

def encodeEnqueue (seed : JobSeed) : List UInt8 :=
  (arrayWrites 5 ++ uintWrites 1 ++ encodeSeed seed).flatten

def encodePoll (kind : String) (now : Int64) (limit : UInt32) : List UInt8 :=
  (arrayWrites 4 ++ uintWrites 1 ++ textWrites kind ++ intWrites now.toInt ++
    uintWrites limit.toNat).flatten

def encodeClaim (identifier worker : String) (now lease : Int64) (budget : UInt32) : List UInt8 :=
  (arrayWrites 6 ++ uintWrites 1 ++ textWrites identifier ++ textWrites worker ++
    intWrites now.toInt ++ intWrites lease.toInt ++ uintWrites budget.toNat).flatten

def encodeRenew (reference : List UInt8) (newLease : Int64) : List UInt8 :=
  (arrayWrites 3 ++ uintWrites 1 ++ bytesWrites reference ++ intWrites newLease.toInt).flatten

def encodeAcknowledge (claim : List UInt8) : List UInt8 :=
  (arrayWrites 2 ++ uintWrites 1 ++ bytesWrites claim).flatten

def encodeRetry (claim : List UInt8) (runAt : Int64) (failure : String) : List UInt8 :=
  (arrayWrites 4 ++ uintWrites 1 ++ bytesWrites claim ++ intWrites runAt.toInt ++
    textWrites failure).flatten

def encodeDefer (claim : List UInt8) (runAt : Int64) : List UInt8 :=
  (arrayWrites 3 ++ uintWrites 1 ++ bytesWrites claim ++ intWrites runAt.toInt).flatten

def deadReasonTag : DeadReason → UInt8
  | .retriesExhausted => 0
  | .rejected => 1
  | .undecodable => 2
  | .abandoned => 3

def encodeDeadLetter (claim : List UInt8) (reason : DeadReason) (failure : String) : List UInt8 :=
  (arrayWrites 4 ++ uintWrites 1 ++ bytesWrites claim ++ uintWrites (deadReasonTag reason).toNat ++
    textWrites failure).flatten

/-- The requests the binding makes. -/
inductive Request where
  | openStore (options : OpenOptions)
  | loadStream (stream : StreamIdentity) (after : Option UInt64)
  | currentVersion (stream : StreamIdentity)
  | commit (stream : StreamIdentity) (expected : UInt64) (events : List OpaqueProposedEvent)
  | commitWithJob (stream : StreamIdentity) (expected : UInt64)
      (events : List OpaqueProposedEvent) (seed : JobSeed)
  | loadSnapshot (stream : StreamIdentity)
  | storeSnapshot (stream : StreamIdentity) (sequence : UInt64) (payload : List UInt8)
  | discardSnapshot (stream : StreamIdentity)
  | schema (aggregateType : String) (schemaVersion : UInt16) (policy : CompactionPolicy)
  | enqueue (seed : JobSeed)
  | poll (kind : String) (now : Int64) (limit : UInt32)
  | claim (identifier worker : String) (now lease : Int64) (budget : UInt32)
  | renew (reference : List UInt8) (newLease : Int64)
  | acknowledge (token : List UInt8)
  | retry (token : List UInt8) (runAt : Int64) (failure : String)
  | defer (token : List UInt8) (runAt : Int64)
  | deadLetter (token : List UInt8) (reason : DeadReason) (failure : String)

/-- A job intent in the boundary's tuple. -/
def JobSeed.wire (seed : JobSeed) : JobSeedWire :=
  ⟨seed.jobId, seed.kind, seed.payload, seed.runAt.toInt⟩

namespace Request

def encode : Request → List UInt8
  | openStore options => encodeOpenOptions options
  | loadStream stream after => encodeLoadStream stream after
  | currentVersion stream => encodeCurrentVersion stream
  | commit stream expected events => encodeCommit stream expected events
  | commitWithJob stream expected events seed => encodeCommitWithJob stream expected events seed
  | loadSnapshot stream | discardSnapshot stream => encodeIdentity stream
  | storeSnapshot stream sequence payload => encodeWrite stream sequence payload
  | schema type version policy => encodeSchemaTarget type version policy
  | enqueue seed => encodeEnqueue seed
  | poll kind now limit => encodePoll kind now limit
  | claim identifier worker now lease budget => encodeClaim identifier worker now lease budget
  | renew reference newLease => encodeRenew reference newLease
  | acknowledge token => encodeAcknowledge token
  | retry token runAt failure => encodeRetry token runAt failure
  | defer token runAt => encodeDefer token runAt
  | deadLetter token reason failure => encodeDeadLetter token reason failure

/-- The tuple that the entry point of a request decodes. -/
def Wire : Request → Type
  | openStore _ => OpenWire
  | loadStream _ _ => LoadWire
  | currentVersion _ | loadSnapshot _ | discardSnapshot _ => StreamWire
  | commit _ _ _ => CommitWire
  | commitWithJob _ _ _ _ => CommitWire × JobSeedWire
  | storeSnapshot _ _ _ => SnapshotWire
  | schema _ _ _ => SchemaWire
  | enqueue _ => EnqueueWire
  | poll _ _ _ => PollWire
  | claim _ _ _ _ _ => ClaimWire
  | renew _ _ => JobRenewWire
  | acknowledge _ => JobAckWire
  | retry _ _ _ => JobRetryWire
  | defer _ _ => JobDeferWire
  | deadLetter _ _ _ => JobDeadLetterWire

/-- How that tuple is laid out. -/
def layout : (request : Request) → Layout request.Wire
  | openStore _ => Wire.openOptions
  | loadStream _ _ => Wire.load
  | currentVersion _ | loadSnapshot _ | discardSnapshot _ => Wire.stream
  | commit _ _ _ => Wire.commit
  | commitWithJob _ _ _ _ => Wire.commitWithJob
  | storeSnapshot _ _ _ => Wire.snapshotStore
  | schema _ _ _ => Wire.schema
  | enqueue _ => Wire.jobEnqueue
  | poll _ _ _ => Wire.jobPoll
  | claim _ _ _ _ _ => Wire.jobClaim
  | renew _ _ => Wire.jobRenew
  | acknowledge _ => Wire.jobAck
  | retry _ _ _ => Wire.jobRetry
  | defer _ _ => Wire.jobDefer
  | deadLetter _ _ _ => Wire.jobDeadLetter

/-- What the entry point checks of the tuple while it decodes. -/
def validate : (request : Request) → request.Wire → Except AbiError Unit
  | commit _ _ _, (wire : CommitWire) => requireCommitEventCount wire.events.observed
  | commitWithJob _ _ _ _, (wire : CommitWire × JobSeedWire) =>
      requireCommitEventCount wire.1.events.observed
  | _, _ => .ok ()

/-- The values of a request, in the tuple of its entry point. -/
def wire : (request : Request) → request.Wire
  | openStore options =>
      (1, options.path, options.busyTimeoutMilliseconds, options.poolSize, options.runtimeThreads)
  | loadStream stream after => (⟨1, stream.aggregateType, stream.aggregateId, after⟩ : LoadWire)
  | currentVersion stream | loadSnapshot stream | discardSnapshot stream =>
      (⟨1, stream.aggregateType, stream.aggregateId⟩ : StreamWire)
  | commit stream expected events =>
      (⟨1, stream.aggregateType, stream.aggregateId, expected, ⟨events, events.length⟩⟩ :
        CommitWire)
  | commitWithJob stream expected events seed =>
      ((⟨1, stream.aggregateType, stream.aggregateId, expected, ⟨events, events.length⟩⟩ :
        CommitWire), seed.wire)
  | storeSnapshot stream sequence payload =>
      (⟨1, stream.aggregateType, stream.aggregateId, sequence, payload⟩ : SnapshotWire)
  | schema type version policy =>
      (⟨1, type, version.toUInt64, compactionTag policy⟩ : SchemaWire)
  | enqueue seed => (1, seed.wire)
  | poll kind now limit => (1, kind, now.toInt, limit)
  | claim identifier worker now lease budget =>
      (⟨1, identifier, worker, now.toInt, lease.toInt, budget⟩ : ClaimWire)
  | renew reference newLease => (1, reference, newLease.toInt)
  | acknowledge token => (1, token)
  | retry token runAt failure => (1, token, runAt.toInt, failure)
  | defer token runAt => (1, token, runAt.toInt)
  | deadLetter token reason failure => (1, token, deadReasonTag reason, failure)

/-! ## What is encoded is decoded -/

/-- A commit carries between one and `maxCommitEvents` events. -/
def EventsInRange : Request → Prop
  | commit _ _ events | commitWithJob _ _ events _ =>
      events ≠ [] ∧ events.length ≤ maxCommitEvents
  | _ => True

theorem encodeProposedEvent_eq (event : OpaqueProposedEvent) :
    encodeProposedEvent event = Wire.proposedEvent.writes event := by
  simp [encodeProposedEvent, Wire.proposedEvent]

theorem writes_commitEvents (events : CommitEvents) :
    Wire.commitEvents.writes events =
      arrayWrites events.values.length ++ events.values.flatMap encodeProposedEvent := by
  rw [funext encodeProposedEvent_eq]
  rfl

theorem writes_seedFields (seed : JobSeed) : Wire.seedFields.writes seed.wire = encodeSeed seed := by
  simp [Wire.seedFields, JobSeed.wire, encodeSeed]

/-- The binding writes what the boundary would. -/
theorem encode_eq_bytes (request : Request) : request.encode = request.layout.bytes request.wire := by
  cases request with
  | openStore options =>
      simp [encode, layout, wire, Layout.bytes, encodeOpenOptions, Wire.openOptions]
  | loadStream stream after =>
      cases after <;>
        simp [encode, layout, wire, Layout.bytes, encodeLoadStream, encodeStreamIdentity, Wire.load]
  | currentVersion stream =>
      simp [encode, layout, wire, Layout.bytes, encodeCurrentVersion, encodeStreamIdentity,
        Wire.stream]
  | commit stream expected events =>
      simp [encode, layout, wire, Layout.bytes, encodeCommit, encodeStreamIdentity, Wire.commit,
        writes_commitEvents]
  | commitWithJob stream expected events seed =>
      simp [encode, layout, wire, Layout.bytes, encodeCommitWithJob, encodeStreamIdentity,
        Wire.commitWithJob, writes_commitEvents, writes_seedFields]
  | loadSnapshot stream | discardSnapshot stream =>
      simp [encode, layout, wire, Layout.bytes, encodeIdentity, Wire.stream]
  | storeSnapshot stream sequence payload =>
      simp [encode, layout, wire, Layout.bytes, encodeWrite, Wire.snapshotStore]
  | schema type version policy =>
      simp [encode, layout, wire, Layout.bytes, encodeSchemaTarget, Wire.schema]
  | enqueue seed =>
      simp [encode, layout, wire, Layout.bytes, encodeEnqueue, Wire.jobEnqueue, writes_seedFields]
  | poll kind now limit =>
      simp [encode, layout, wire, Layout.bytes, encodePoll, Wire.jobPoll]
  | claim identifier worker now lease budget =>
      simp [encode, layout, wire, Layout.bytes, encodeClaim, Wire.jobClaim]
  | renew reference newLease =>
      simp [encode, layout, wire, Layout.bytes, encodeRenew, Wire.jobRenew]
  | acknowledge token =>
      simp [encode, layout, wire, Layout.bytes, encodeAcknowledge, Wire.jobAck]
  | retry token runAt failure =>
      simp [encode, layout, wire, Layout.bytes, encodeRetry, Wire.jobRetry]
  | defer token runAt =>
      simp [encode, layout, wire, Layout.bytes, encodeDefer, Wire.jobDefer]
  | deadLetter token reason failure =>
      simp [encode, layout, wire, Layout.bytes, encodeDeadLetter, Wire.jobDeadLetter]

theorem inRange_int64 (n : Int64) : Layout.i64.InRange n.toInt := ⟨n.le_toInt, n.toInt_lt⟩

theorem inRange_seedFields (seed : JobSeed) : Wire.seedFields.InRange seed.wire :=
  ⟨trivial, trivial, trivial, inRange_int64 _⟩

/-- Every value of a request has room in the tuple. -/
theorem inRange_wire {request : Request} (hevents : request.EventsInRange) :
    request.layout.InRange request.wire := by
  cases request with
  | commit stream expected events => exact ⟨trivial, trivial, trivial, trivial, rfl, hevents.2⟩
  | commitWithJob stream expected events seed =>
      exact ⟨trivial, trivial, trivial, trivial, ⟨rfl, hevents.2⟩, inRange_seedFields seed⟩
  | enqueue seed => exact ⟨trivial, inRange_seedFields seed⟩
  | _ => simp [layout, wire, Wire.openOptions, Wire.load, Wire.stream, Wire.snapshotStore,
      Wire.schema, Wire.jobPoll, Wire.jobClaim, Wire.jobRenew, Wire.jobAck, Wire.jobRetry,
      Wire.jobDefer, Wire.jobDeadLetter, inRange_int64]

theorem validate_wire {request : Request} (hevents : request.EventsInRange) :
    request.validate request.wire = .ok () := by
  cases request with
  | commit stream expected events => exact if_pos hevents.2
  | commitWithJob stream expected events seed => exact if_pos hevents.2
  | _ => rfl

/-- **What the binding encodes is decoded.** The boundary decodes every request within the size limit,
finds its bytes to be the canonical ones, and has the values that went in. -/
theorem decode_encode (request : Request) (hevents : request.EventsInRange)
    (hsize : request.encode.length ≤ maxRequestBytes) :
    decodeValidated request.layout request.validate request.encode = .ok request.wire := by
  have hshort : (request.layout.writes request.wire).flatten.length < 2 ^ 64 := by
    rw [encode_eq_bytes, Layout.bytes] at hsize
    exact hsize.trans_lt (by decide)
  have hread := request.layout.read_writes (inRange_wire hevents) hshort []
  rw [List.append_nil, ← Layout.bytes, ← encode_eq_bytes] at hread
  rw [decodeValidated, if_neg (not_lt.2 hsize), hread]
  dsimp only
  rw [validate_wire hevents]
  dsimp only
  rw [if_pos (encode_eq_bytes request).symm]

theorem decode_encode_commitWithJob :
    let request := Request.commitWithJob ⟨"account", "a"⟩ 7 [⟨"Opened", "1.0", [0, 255]⟩]
      ⟨"8b4e", "mail", [], Int64.minValue⟩
    request.EventsInRange ∧ request.encode.length ≤ maxRequestBytes ∧
      decodeValidated request.layout request.validate request.encode = .ok request.wire := by
  intro request
  have hevents : request.EventsInRange := ⟨List.cons_ne_nil _ _, by decide⟩
  have hsize : request.encode.length ≤ maxRequestBytes := by decide +kernel
  exact ⟨hevents, hsize, decode_encode request hevents hsize⟩

end Request

end Binding

end EventSorcery
