import EventSorcery.JobLog

/-!
# The engine

The shared writer over the database: commits of native and opaque events with their snapshot and
job intents, the claim transaction, lease renewal and standalone enqueues. A call runs in one
transaction: an error, a rollback or a storage fault leaves the database as it was.
-/

namespace EventSorcery

/-- Failures of engine operations. `sql` is any failure reported by the database itself. -/
inductive EngineError where
  | optimisticLock
  | emptySnapshotUpdate
  | snapshotBeyondCurrentVersion (proposed current : ℕ)
  | snapshotVersionExhausted
  | streamIdentityMismatch (expected actual : StreamIdentity)
  | reservedMetadata (key : String)
  | opaquePayloadVersion (actual : ℕ)
  | eventPageTooLarge (observed limit : ℕ)
  | sql
  | json
  | integer
  | jobFlush (error : JobStoreError)
  deriving DecidableEq, Repr

/-- Failures of the job primitives. -/
inductive SqliteJobError where
  | sql
  | append (error : SqliteAggregateError)
  | sequence
  | duplicateEnqueue (jobId : JobId)
  deriving DecidableEq, Repr

def EngineError.ofAggregate : SqliteAggregateError → EngineError
  | .optimisticLock => .optimisticLock
  | .connection => .sql
  | .tryFromInt => .integer

/-! ## Transactions -/

/-- How a transaction that ran to its end finishes. -/
inductive TransactionOutcome (α : Type) where
  | commit (output : α)
  | rollback (output : α)

/-- Run a body in a transaction. A storage fault at any of its statements surfaces as `fault`; it,
an error of the body and a rollback all leave the database unchanged. -/
def inTransaction {ε α : Type} (fault : Option ε)
    (body : Db → Except ε (TransactionOutcome α × Db)) (db : Db) : Except ε α × Db :=
  match fault, body db with
  | some error, _ => (.error error, db)
  | none, .error error => (.error error, db)
  | none, .ok (.rollback output, _) => (.ok output, db)
  | none, .ok (.commit output, db') => (.ok output, db')

theorem inTransaction_of_error {ε α : Type} {fault : Option ε}
    {body : Db → Except ε (TransactionOutcome α × Db)} {db : Db} {error : ε}
    (h : (inTransaction fault body db).1 = .error error) : (inTransaction fault body db).2 = db := by
  unfold inTransaction at *
  split <;> simp_all

/-! ## Commits -/

/-- A snapshot written with the events it covers. -/
structure SnapshotUpdate where
  aggregate : Json
  snapshotVersion : ℕ

/-- One atomic commit: events, optional snapshot, job intents. -/
structure CommitRequest where
  stream : StreamIdentity
  expectedVersion : Option ℕ
  events : List SerializedEvent
  snapshot : Option SnapshotUpdate
  jobs : List EnqueueRequest

/-- Unsigned 64-bit addition that fails on overflow. -/
def checkedAddUsize (a b : ℕ) : Option ℕ := if a + b < 2 ^ 64 then some (a + b) else none

/-- A stream's durable version: compaction may have deleted events a snapshot covers, so it is the
greater of the two records. -/
def committedStreamVersion (db : Db) (s : StreamIdentity) : ℕ :=
  max (db.stream s).maxSeq (((db.snapshots.lookup s).map SnapshotRow.lastSequence).getD 0)

def validateEventStream (s : StreamIdentity) (events : List SerializedEvent) :
    Except EngineError Unit :=
  match events.find? fun e => e.identity ≠ s with
  | none => .ok ()
  | some e => .error (.streamIdentityMismatch s e.identity)

/-- Whether the events carry the numbers `expected + 1`, `expected + 2`, and so on. -/
def eventsFollowVersion (events : List SerializedEvent) (expected : ℕ) : Bool :=
  events.zipIdx.all fun (e, index) =>
    ((checkedAddUsize expected index).bind fun q => checkedAddUsize q 1) = some e.sequence

/-- The optimistic check inside the transaction. -/
def checkVersion (db : Db) (s : StreamIdentity) : Option ℕ → Except EngineError Unit
  | none => .ok ()
  | some expected =>
      if committedStreamVersion db s = expected then .ok () else .error .optimisticLock

/-- Replace the stream's snapshot row, at the sequence of the commit's last event. -/
def writeSnapshot (db : Db) (s : StreamIdentity) (events : List SerializedEvent) :
    Option SnapshotUpdate → Except EngineError Db
  | none => .ok db
  | some snapshot =>
      match events.getLast? with
      | none => .error .emptySnapshotUpdate
      | some last =>
          if last.sequence ≤ i64Max ∧ snapshot.snapshotVersion ≤ i64Max then
            .ok (db.setSnapshot s ⟨last.sequence, snapshot.snapshotVersion, snapshot.aggregate⟩)
          else .error .integer

/-- Append a job's `Enqueued` event and insert its queue row. The insert is a plain one: a row
that exists is a database error, not a conflict. -/
def seedJob (db : Db) (request : EnqueueRequest) : Except EngineError Db := do
  let event ← (enqueuedEvent request).mapError .jobFlush
  let db ← (insertSerializedEventsBatch db [event]).mapError .ofAggregate
  let payload ← (pendingSeedPayload request).mapError .jobFlush
  match db.jobQueue.lookup request.jobId with
  | some _ => .error .sql
  | none => .ok (db.setRow request.jobId ⟨1, payload, none⟩)

/-- The statements of a commit's transaction. -/
def commitStatements (request : CommitRequest) (db : Db) : Except EngineError Db := do
  checkVersion db request.stream request.expectedVersion
  let db ← (insertSerializedEventsBatch db request.events).mapError .ofAggregate
  let db ← writeSnapshot db request.stream request.events request.snapshot
  request.jobs.foldlM seedJob db

def commitSerialized (fault : Option EngineError) (request : CommitRequest) (db : Db) :
    Except EngineError Unit × Db :=
  match validateEventStream request.stream request.events with
  | .error error => (.error error, db)
  | .ok () =>
      if request.expectedVersion.any fun expected => !eventsFollowVersion request.events expected
      then (.error .optimisticLock, db)
      else inTransaction fault
        (fun db => (commitStatements request db).map fun db' => (.commit (), db')) db

def enginePayloadProvenanceKey : String := "$event-sorcery-engine-owned"

/-- Whether metadata uses the key reserved for opaque payloads. -/
def reservesEnginePayload : Json → Bool
  | .obj members => members.any fun m => m.1 = enginePayloadProvenanceKey
  | _ => false

/-- Persist a validated event, snapshot and job batch. -/
def commit (fault : Option EngineError) (request : CommitRequest) (db : Db) :
    Except EngineError Unit × Db :=
  if request.events.any fun e => reservesEnginePayload e.metadata then
    (.error (.reservedMetadata enginePayloadProvenanceKey), db)
  else commitSerialized fault request db

/-! ## Opaque commits -/

/-- A binding-owned event. -/
structure OpaqueProposedEvent where
  eventType : String
  eventVersion : String
  payload : List UInt8

structure OpaqueCommitRequest where
  stream : StreamIdentity
  expectedVersion : ℕ
  events : List OpaqueProposedEvent
  jobs : List EnqueueRequest

/-- The envelope binding-owned bytes are stored under. -/
def encodeOpaquePayload (payload : List UInt8) : Json :=
  .obj [("$event-sorcery-engine-payload",
    .obj [("version", .int 1), ("bytes", .arr (payload.map fun b => .int b.toNat))])]

def enginePayloadMetadata : Json := .obj [(enginePayloadProvenanceKey, .str "opaque-v1")]

/-- The stored form of an opaque event. -/
def OpaqueProposedEvent.stored (e : OpaqueProposedEvent) : StoredEvent :=
  ⟨e.eventType, e.eventVersion, encodeOpaquePayload e.payload, enginePayloadMetadata⟩

/-- Number opaque events from `expected + 1` on; a number that does not fit is a conflict. -/
def serializeOpaque (s : StreamIdentity) (expected : ℕ) (events : List OpaqueProposedEvent) :
    Except EngineError (List SerializedEvent) :=
  events.zipIdx.mapM fun (e, index) =>
    match (checkedAddUsize expected index).bind fun q => checkedAddUsize q 1 with
    | none => .error .optimisticLock
    | some q => .ok (e.stored.serialized s q)

/-- Persist binding-owned payloads at an expected version. -/
def commitOpaque (fault : Option EngineError) (request : OpaqueCommitRequest) (db : Db) :
    Except EngineError Unit × Db :=
  match serializeOpaque request.stream request.expectedVersion request.events with
  | .error error => (.error error, db)
  | .ok events => commitSerialized fault
      ⟨request.stream, some request.expectedVersion, events, none, request.jobs⟩ db

/-! ## Job primitives -/

/-- Append one job event; `none` when its sequence number is taken. -/
def appendJobEvent (db : Db) (event : SerializedEvent) :
    Except SqliteJobError (Option (ℤ × Db)) :=
  match insertSerializedEventsBatch db [event] with
  | .ok db' =>
      if event.sequence ≤ i64Max then .ok (some (event.sequence, db')) else .error .sequence
  | .error .optimisticLock => .ok none
  | .error other => .error (.append other)

/-- Write the queue row of a job, its lease included. -/
def writeJobProjection (db : Db) (jobId : JobId) (version : ℤ) (payload : Json)
    (leaseUntilMs : Option ℤ) : Db :=
  db.setRow jobId ⟨version, payload, leaseUntilMs⟩

def readJobProjectionForClaim (db : Db) (jobId : JobId) : Option ClaimRead :=
  (db.jobQueue.lookup jobId).map fun row => ⟨row.version, row.payload, row.leaseUntil⟩

/-- How a claim call ends. -/
inductive ClaimOutcome (Won : Type) where
  | won (won : Won)
  | abandoned
  | contended
  | skip

/-- Re-read the row, decide, append the decided event and write its row. Only a won or abandoned
claim commits. -/
def claimJobInTransaction {Won : Type} (jobId : JobId) (decide : Option ClaimRead → ClaimDecision Won)
    (db : Db) : Except SqliteJobError (TransactionOutcome (ClaimOutcome Won) × Db) :=
  match decide (readJobProjectionForClaim db jobId) with
  | .skip => .ok (.rollback .skip, db)
  | .claim event payload leaseUntilMs won => do
      match ← appendJobEvent db event with
      | some (version, db') =>
          .ok (.commit (.won won), writeJobProjection db' jobId version payload (some leaseUntilMs))
      | none => .ok (.rollback .contended, db)
  | .abandon event payload => do
      match ← appendJobEvent db event with
      | some (version, db') =>
          .ok (.commit .abandoned, writeJobProjection db' jobId version payload none)
      | none => .ok (.rollback .contended, db)

def claimJob {Won : Type} (fault : Option SqliteJobError) (jobId : JobId)
    (decide : Option ClaimRead → ClaimDecision Won) (db : Db) :
    Except SqliteJobError (ClaimOutcome Won) × Db :=
  inTransaction fault (claimJobInTransaction jobId decide) db

/-- The values of the generated `status` column. -/
inductive JobStatus where
  | pending
  | claimed
  | done
  | dead
  deriving DecidableEq, Repr

/-- The generated `status` column of a queue row. -/
def jobStatus (payload : Json) : Option JobStatus :=
  let live := payload.field? "Live"
  if (live.bind fun j => j.field? "Pending").isSome then some .pending
  else if (live.bind fun j => j.field? "Claimed").isSome then some .claimed
  else if live.bind Json.asStr? = some "Done" then some .done
  else if (live.bind fun j => j.field? "Dead").isSome then some .dead
  else none

/-- Outcome of a lease renewal. -/
inductive LeaseRenewal where
  | held
  | lost
  deriving DecidableEq, Repr

/-- Bump the lease of the row that still shows the claim at `claimSeq`. -/
def renewJob (jobId : JobId) (claimSeq newLeaseUntilMs : ℤ) (db : Db) : LeaseRenewal × Db :=
  match db.jobQueue.lookup jobId with
  | none => (.lost, db)
  | some row =>
      if row.version = claimSeq ∧ jobStatus row.payload = some .claimed then
        (.held, db.setRow jobId { row with leaseUntil := some newLeaseUntilMs })
      else (.lost, db)

/-- Append an `Enqueued` event and seed its row in a transaction of its own. -/
def enqueueJob (fault : Option SqliteJobError) (event : SerializedEvent) (payload : Json) (db : Db) :
    Except SqliteJobError Unit × Db :=
  inTransaction fault (fun db => do
    match ← appendJobEvent db event with
    | some (version, db') =>
        .ok (.commit (), writeJobProjection db' event.aggregateId version payload none)
    | none => .error (.duplicateEnqueue event.aggregateId)) db

/-! ## What the writes do -/

/-- An append of one job event: the row goes in, or its number is taken, or it does not fit. -/
theorem appendJobEvent_eq (db : Db) (x : StoredEvent) (s : StreamIdentity) (q : ℕ) :
    appendJobEvent db (x.serialized s q) =
      if q ≤ i64Max then
        match (db.stream s).insert? q x with
        | none => .ok none
        | some l => .ok (some (q, db.setStream s l))
      else .error (.append .tryFromInt) := by
  rw [appendJobEvent, insertSerializedEventsBatch_singleton, StoredEvent.sequence_serialized]
  by_cases hq : q ≤ i64Max
  · rw [if_pos hq, if_pos hq, Db.insertEvent]
    simp only [StoredEvent.identity_serialized, StoredEvent.stored_serialized,
      StoredEvent.sequence_serialized]
    cases (db.stream s).insert? q x <;> simp [hq]
  · rw [if_neg hq, if_neg hq]

section Claim

variable {Won : Type} {jobId : JobId} {decide : Option ClaimRead → ClaimDecision Won} {db : Db}

theorem claimJob_skip (h : decide (readJobProjectionForClaim db jobId) = .skip) :
    claimJob none jobId decide db = (.ok .skip, db) := by
  unfold claimJob inTransaction claimJobInTransaction
  rw [h]

theorem claimJob_claim {event : SerializedEvent} {payload : Json} {leaseUntilMs : ℤ} {won : Won}
    (h : decide (readJobProjectionForClaim db jobId) = .claim event payload leaseUntilMs won) :
    claimJob none jobId decide db =
      match appendJobEvent db event with
      | .error error => (.error error, db)
      | .ok none => (.ok .contended, db)
      | .ok (some (version, db')) =>
          (.ok (.won won), writeJobProjection db' jobId version payload (some leaseUntilMs)) := by
  unfold claimJob inTransaction claimJobInTransaction
  simp only [h]
  rcases appendJobEvent db event with error | _ | ⟨version, db'⟩ <;> rfl

theorem claimJob_abandon {event : SerializedEvent} {payload : Json}
    (h : decide (readJobProjectionForClaim db jobId) = .abandon event payload) :
    claimJob none jobId decide db =
      match appendJobEvent db event with
      | .error error => (.error error, db)
      | .ok none => (.ok .contended, db)
      | .ok (some (version, db')) =>
          (.ok .abandoned, writeJobProjection db' jobId version payload none) := by
  unfold claimJob inTransaction claimJobInTransaction
  simp only [h]
  rcases appendJobEvent db event with error | _ | ⟨version, db'⟩ <;> rfl

end Claim

theorem enqueueJob_eq (event : SerializedEvent) (payload : Json) (db : Db) :
    enqueueJob none event payload db =
      match appendJobEvent db event with
      | .error error => (.error error, db)
      | .ok none => (.error (.duplicateEnqueue event.aggregateId), db)
      | .ok (some (version, db')) =>
          (.ok (), writeJobProjection db' event.aggregateId version payload none) := by
  unfold enqueueJob inTransaction
  cases h : appendJobEvent db event with
  | error error => simp only [h]; rfl
  | ok appended => simp only [h]; rcases appended with _ | ⟨version, db'⟩ <;> rfl

end EventSorcery
