import EventSorcery.CommitLimit
import EventSorcery.Lib.Pool
import EventSorcery.Responses
import EventSorcery.Snapshots

/-!
# The bindings' store

Over the engine's calls the bindings load an entity, snapshot it and execute commands on it. A call
reads the stored snapshot, walks the pages after it, replays what it read, and makes at most one
write. The engine is held for one of these at a time: between any two of them other calls on the
stream, and compactions, make theirs. The machine below runs any number of calls on one stream in any
such order, and keeps every row that was ever inserted.
-/

namespace EventSorcery

/-! ## Loading a snapshot -/

def snapshotToWire (row : SnapshotRow) : Except AbiError (UInt64 × UInt64 × List UInt8) := do
  let payload ← (decodeOpaquePayload row.payload).mapError .ofEngine
  requirePayloadLimit payload.length
  .ok (UInt64.ofNat row.lastSequence, UInt64.ofNat row.snapshotVersion, payload)

def esSnapshotLoad (wire : StreamWire) (db : Db) : Except AbiError (List UInt8) := do
  requireVersion wire.version
  requireIdentifierLimit wire.aggregateType.utf8ByteSize
  requireIdentifierLimit wire.aggregateId.utf8ByteSize
  let stored ← (db.snapshots.lookup ⟨wire.aggregateType, wire.aggregateId⟩).mapM snapshotToWire
  encodeResponse Wire.storedSnapshot (1, stored)

namespace Binding

def loadSnapshot (s : StreamIdentity) (db : Db) : Except BindingError (Option StoredSnapshot) :=
  match esSnapshotLoad ⟨1, s.aggregateType, s.aggregateId⟩ db with
  | .error error => .error (.engine error)
  | .ok bytes =>
      match decodeStoredSnapshotWire.complete bytes with
      | none => .error .undecodableResponse
      | some stored => .ok stored

/-! ## The writes -/

def storeSnapshot (s : StreamIdentity) (sequence : ℕ) (payload : List UInt8) (db : Db) :
    Except BindingError ℕ × Db :=
  let stored := esSnapshotStore none
    ⟨1, s.aggregateType, s.aggregateId, UInt64.ofNat sequence, payload⟩ db
  (stored.1.mapError .engine, stored.2)

def commit (s : StreamIdentity) (expected : ℕ) (events : List OpaqueProposedEvent) (db : Db) :
    Except BindingError Unit × Db :=
  let committed := commitCall none (encodeCommit s (UInt64.ofNat expected) events) db
  (committed.1.mapError .engine, committed.2)

def commitWithJob (parseJobId : String → Option JobId) (s : StreamIdentity) (expected : ℕ)
    (events : List OpaqueProposedEvent) (seed : JobSeed) (db : Db) :
    Except BindingError Unit × Db :=
  let committed := commitWithJobCall parseJobId none
    (encodeCommitWithJob s (UInt64.ofNat expected) events seed) db
  (committed.1.mapError .engine, committed.2)

/-! ## Entities -/

/-- Why bytes do not decode. -/
abbrev DecodeCause := String

/-- What a decision asks the store to do. A dispatch brings the kind and the bytes of its job, and the
event that records it once an id is minted. -/
inductive Effect (Event : Type) where
  | events (first : Event) (rest : List Event)
  | unchanged
  | dispatch (kind : JobKind) (job : List UInt8) (intent : JobId → Event)

structure EventSourced (Entity Event Command CommandError ApplyError : Type) where
  eventType : Event → String
  eventVersion : Event → String
  encodeEvent : Event → List UInt8
  decodeEvent : List UInt8 → Except DecodeCause Event
  encodeSnapshot : Entity → List UInt8
  decodeSnapshot : List UInt8 → Except DecodeCause Entity
  originate : Event → Except ApplyError Entity
  evolve : Entity → Event → Except ApplyError Entity
  initializeWith : Command → Except CommandError (Effect Event)
  transition : Entity → Command → Except CommandError (Effect Event)

inductive MetadataMismatch where
  | eventType (expected stored : String)
  | eventVersion (expected stored : String)

inductive ReplayError (ApplyError : Type) where
  | eventDecodeFailed (position : ℕ) (cause : DecodeCause)
  | eventMetadataMismatch (position : ℕ) (mismatch : MetadataMismatch)
  | eventSequenceMismatch (expected actual : ℕ)
  | eventSequenceOverflow (position : ℕ)
  | eventApplicationFailed (position : ℕ) (error : ApplyError)

inductive StoreError (CommandError ApplyError : Type) where
  | engineFailed (error : BindingError)
  | replayFailed (error : ReplayError ApplyError)
  | commandRejected (error : CommandError)
  | decisionRejected (error : ApplyError)
  | snapshotDecodeFailed (sequence : ℕ) (cause : DecodeCause)
  | uneventfulInitialization

section Entities

variable {Entity Event Command CommandError ApplyError : Type}
  (E : EventSourced Entity Event Command CommandError ApplyError)

/-! ## Replay -/

def nextPosition (position : ℕ) : Except (ReplayError ApplyError) ℕ :=
  if position = 2 ^ 64 - 1 then .error (.eventSequenceOverflow position) else .ok (position + 1)

def validateSequence (expected actual : ℕ) : Except (ReplayError ApplyError) Unit :=
  if actual = expected then .ok () else .error (.eventSequenceMismatch expected actual)

def validateEventMetadata (position : ℕ) (stored : OpaqueStoredEvent) (event : Event) :
    Except (ReplayError ApplyError) Unit :=
  if stored.eventType ≠ E.eventType event then
    .error (.eventMetadataMismatch position (.eventType (E.eventType event) stored.eventType))
  else if stored.eventVersion ≠ E.eventVersion event then
    .error (.eventMetadataMismatch position
      (.eventVersion (E.eventVersion event) stored.eventVersion))
  else .ok ()

/-- The first event originates the entity, and the others evolve it. -/
def applyEvent : Option Entity → Event → Except ApplyError Entity
  | none, event => E.originate event
  | some entity, event => E.evolve entity event

def replayEvent (state : Option Entity × ℕ) (stored : OpaqueStoredEvent) :
    Except (ReplayError ApplyError) (Option Entity × ℕ) := do
  validateSequence state.2 stored.sequence
  let event ← (E.decodeEvent stored.payload).mapError (.eventDecodeFailed stored.sequence)
  validateEventMetadata E stored.sequence stored event
  let next ← (applyEvent E state.1 event).mapError (.eventApplicationFailed stored.sequence)
  let following ← nextPosition state.2
  .ok (some next, following)

def replay (events : List OpaqueStoredEvent) : Except (ReplayError ApplyError) (Option Entity) := do
  let result ← events.foldlM (replayEvent E) (none, 1)
  .ok result.1

def resume (version : ℕ) (entity : Entity) (events : List OpaqueStoredEvent) :
    Except (ReplayError ApplyError) Entity := do
  let initialPosition ← nextPosition version
  let result ← events.foldlM (replayEvent E) (some entity, initialPosition)
  .ok (result.1.getD entity)

def latestSequenceAfter (sequence : ℕ) (events : List OpaqueStoredEvent) : ℕ :=
  events.foldl (fun _ event => event.sequence) sequence

/-- What a load returns once the pages are read: the entity and its sequence. -/
def loadedCurrent (base : Option (ℕ × Entity)) (events : List OpaqueStoredEvent) :
    Except (StoreError CommandError ApplyError) (Option Entity × ℕ) :=
  match base with
  | none => do
      let entity ← (replay E events).mapError .replayFailed
      .ok (entity, latestSequenceAfter 0 events)
  | some (sequence, entity) => do
      let resumed ← (resume E sequence entity events).mapError .replayFailed
      .ok (some resumed, latestSequenceAfter sequence events)

/-! ## Commands -/

/-- What is to be committed, and the entity it leads to. -/
inductive CommitPlan (Entity : Type) where
  | events (next : Entity) (expected : ℕ) (events : List OpaqueProposedEvent)
  | unchanged (entity : Entity)
  | dispatch (next : Entity) (expected : ℕ) (events : List OpaqueProposedEvent) (seed : JobSeed)

def decideEffect : Option Entity → Command → Except CommandError (Effect Event)
  | none, command => E.initializeWith command
  | some entity, command => E.transition entity command

def applyEvents (current : Option Entity) (first : Event) (rest : List Event) :
    Except ApplyError Entity :=
  match current with
  | none => do
      let initial ← E.originate first
      rest.foldlM E.evolve initial
  | some entity => (first :: rest).foldlM E.evolve entity

/-- The proposal for an event. -/
def proposed (event : Event) : OpaqueProposedEvent :=
  ⟨E.eventType event, E.eventVersion event, E.encodeEvent event⟩

def prepareEffect (mint : JobId) (expected : ℕ) (current : Option Entity) :
    Effect Event → Except (StoreError CommandError ApplyError) (CommitPlan Entity)
  | .events first rest => do
      let next ← (applyEvents E current first rest).mapError .decisionRejected
      .ok (.events next expected ((first :: rest).map (proposed E)))
  | .unchanged =>
      match current with
      | some entity => .ok (.unchanged entity)
      | none => .error .uneventfulInitialization
  | .dispatch kind job intent => do
      let next ← (applyEvents E current (intent mint) []).mapError .decisionRejected
      .ok (.dispatch next expected [proposed E (intent mint)] ⟨mint, kind, job, 0⟩)

end Entities

def commitPrepared {Entity CommandError ApplyError : Type} (parseJobId : String → Option JobId)
    (s : StreamIdentity) (plan : CommitPlan Entity) (db : Db) :
    Except (StoreError CommandError ApplyError) Entity × Db :=
  match plan with
  | .events next expected events =>
      let committed := commit s expected events db
      ((committed.1.mapError .engineFailed).map fun _ => next, committed.2)
  | .unchanged entity => (.ok entity, db)
  | .dispatch next expected events seed =>
      let committed := commitWithJob parseJobId s expected events seed db
      ((committed.1.mapError .engineFailed).map fun _ => next, committed.2)

/-! ## Calls on one stream -/

/-- A call of the store, or a compaction. -/
inductive Call (Command : Type) where
  | executeCommand (command : Command)
  | loadEntity
  | snapshotEntity
  | compact

/-- How far a call is: before its snapshot is read, between two pages, before its write, or done. -/
inductive Stage (Entity Command CommandError ApplyError : Type) where
  | entered (call : Call Command)
  | walking (call : Call Command) (base : Option (ℕ × Entity)) (loaded : List OpaqueStoredEvent)
      (after : Option UInt64)
  | committing (command : Command) (plan : CommitPlan Entity)
  | storing (entity : Entity) (sequence : ℕ)
  | executed (command : Command) (result : Except (StoreError CommandError ApplyError) Entity)
  | loaded (result : Except (StoreError CommandError ApplyError) (Option Entity))
  | compacted

/-- A call, and the rows of the stream that it inserted. -/
structure Thread (Entity Command CommandError ApplyError : Type) where
  stage : Stage Entity Command CommandError ApplyError
  appended : List (ℕ × StoredEvent)

/-- The database, and every row that was ever inserted into the stream. -/
structure Shared where
  db : Db
  committed : List (ℕ × StoredEvent)

section System

variable {Entity Event Command CommandError ApplyError : Type}

/-- A call that fails. -/
def Call.fail (error : StoreError CommandError ApplyError) :
    Call Command → Stage Entity Command CommandError ApplyError
  | .executeCommand command => .executed command (.error error)
  | .loadEntity | .snapshotEntity => .loaded (.error error)
  | .compact => .compacted

variable (E : EventSourced Entity Event Command CommandError ApplyError)

/-- What a call does with the entity it loaded. -/
def afterLoad (mint : JobId) (current : Option Entity) (sequence : ℕ) :
    Call Command → Stage Entity Command CommandError ApplyError
  | .executeCommand command =>
      match decideEffect E current command with
      | .error error => .executed command (.error (.commandRejected error))
      | .ok effect =>
          match prepareEffect E mint sequence current effect with
          | .error error => .executed command (.error error)
          | .ok plan => .committing command plan
  | .loadEntity => .loaded (.ok current)
  | .snapshotEntity =>
      match current with
      | none => .loaded (.ok none)
      | some entity => .storing entity sequence
  | .compact => .compacted

/-- Once the snapshot is read, the pages after it are. -/
def afterSnapshot (call : Call Command) (snapshot : Option StoredSnapshot) :
    Stage Entity Command CommandError ApplyError :=
  match snapshot with
  | none => .walking call none [] none
  | some stored =>
      match E.decodeSnapshot stored.payload with
      | .error cause => call.fail (.snapshotDecodeFailed stored.sequence.toNat cause)
      | .ok entity =>
          .walking call (some (stored.sequence.toNat, entity)) [] (some stored.sequence)

/-- Once a page is read, the walk goes on behind it; an empty page ends it. -/
def afterPage (mint : JobId) (call : Call Command) (base : Option (ℕ × Entity))
    (loaded : List OpaqueStoredEvent) (after : Option UInt64) (page : List OpaqueStoredEvent) :
    Stage Entity Command CommandError ApplyError :=
  match page.getLast? with
  | none =>
      match loadedCurrent E base loaded with
      | .error error => call.fail error
      | .ok current => afterLoad E mint current.1 current.2 call
  | some last =>
      match nextCursor after last with
      | .error error => call.fail (.engineFailed error)
      | .ok cursor => .walking call base (loaded ++ page) (some cursor)

variable (double : UInt64 → List UInt8) (parseJobId : String → Option JobId) (s : StreamIdentity)

/-- The next engine call of a call, and what the call does up to the one after it. -/
def advance (mint : JobId) (db : Db) :
    Stage Entity Command CommandError ApplyError →
      Option (Db × Stage Entity Command CommandError ApplyError)
  | .entered .compact => some (deleteCovered s.aggregateType db, .compacted)
  | .entered call =>
      some (db, match loadSnapshot s db with
        | .error error => call.fail (.engineFailed error)
        | .ok snapshot => afterSnapshot E call snapshot)
  | .walking call base loaded after =>
      some (db, match loadStreamPage double s after db with
        | .error error => call.fail (.engineFailed error)
        | .ok page => afterPage E mint call base loaded after page)
  | .committing command plan =>
      let committed := commitPrepared parseJobId s plan db
      some (committed.2, .executed command committed.1)
  | .storing entity sequence =>
      let stored := storeSnapshot s sequence (E.encodeSnapshot entity) db
      some (stored.2, .loaded ((stored.1.mapError .engineFailed).map fun _ => some entity))
  | .executed .. | .loaded _ | .compacted => none

/-- A call's step, with the rows that it inserted written down. -/
def next (shared : Shared) (thread : Thread Entity Command CommandError ApplyError) (mint : JobId) :
    Option (Shared × Thread Entity Command CommandError ApplyError) :=
  (advance E double parseJobId s mint shared.db thread.stage).map fun (db, stage) =>
    let rows := StreamVersion.inserted s shared.db db
    (⟨db, shared.committed ++ rows⟩, ⟨stage, thread.appended ++ rows⟩)

/-- Any number of calls on the stream, from a database on. -/
def machine (db : Db) :
    Machine (Pool Shared (Thread Entity Command CommandError ApplyError))
      (Pool.Op (Call Command) JobId) :=
  Pool.machine ⟨db, []⟩ (fun call => ⟨.entered call, []⟩) (next E double parseJobId s)

end System

end Binding

end EventSorcery
