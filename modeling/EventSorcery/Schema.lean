import EventSorcery.Snapshots
import EventSorcery.JobRuntime

/-!
# The schema registry

Startup reconciliation of an aggregate type: `reconcileTarget` compares the recorded schema version
with the code's and clears the type's snapshots when they differ, `recordTarget` records the version
once the caller's own recovery is done. The registry is itself an event-sourced aggregate, rebuilt
from its one stream on every startup.
-/

namespace EventSorcery

/-- The schema versions of all aggregate types. -/
structure SchemaRegistry where
  versions : Table String UInt64

inductive SchemaRegistryEvent where
  | versionUpdated (name : String) (version : UInt64)
  deriving DecidableEq, Repr

inductive SchemaRegistryCommand where
  | register (name : String) (version : UInt64)

namespace SchemaRegistry

def versionOf (self : SchemaRegistry) (name : String) : Option UInt64 := self.versions.lookup name

def originate : SchemaRegistryEvent → Option SchemaRegistry
  | .versionUpdated name version => some ⟨(∅ : Table String UInt64).insert name version⟩

def evolve (entity : SchemaRegistry) : SchemaRegistryEvent → Except Empty (Option SchemaRegistry)
  | .versionUpdated name version => .ok (some ⟨entity.versions.insert name version⟩)

def initializeWith : SchemaRegistryCommand → Except Empty (Effect SchemaRegistryEvent)
  | .register name version => .ok (.events [.versionUpdated name version])

def transition (self : SchemaRegistry) :
    SchemaRegistryCommand → Except Empty (Effect SchemaRegistryEvent)
  | .register name version =>
      if self.versionOf name = some version then .ok (.events [])
      else .ok (.events [.versionUpdated name version])

def toJson (self : SchemaRegistry) : Json :=
  .obj [("versions", .obj (self.versions.entries.map fun r => (r.1, .int r.2.toNat)))]

/-- The rows of a decoded map. -/
def rowsOfJson : List (String × Json) → Option (List (Sigma fun _ : String => UInt64))
  | [] => some []
  | (name, value) :: members => do some (⟨name, ← value.asUInt64?⟩ :: (← rowsOfJson members))

/-- A map names each key once. -/
def ofJson (j : Json) : Option SchemaRegistry :=
  match j.field? "versions" with
  | some (.obj members) => do
      let rows ← rowsOfJson members
      if h : rows.keys.Nodup then some ⟨⟨rows, h⟩⟩ else none
  | _ => none

end SchemaRegistry

namespace SchemaRegistryEvent

def toJson : SchemaRegistryEvent → Json
  | .versionUpdated name version =>
      .tagged "VersionUpdated" (.obj [("name", .str name), ("version", .int version.toNat)])

def ofJson (j : Json) : Option SchemaRegistryEvent := do
  let content ← j.field? "VersionUpdated"
  some (.versionUpdated (← (content.field? "name").bind Json.asStr?)
    (← (content.field? "version").bind Json.asUInt64?))

def codec : Codec SchemaRegistryEvent where
  encode := toJson
  decode := ofJson
  decode_encode
    | .versionUpdated name version => by simp [toJson, ofJson, Json.tagged]

end SchemaRegistryEvent

theorem SchemaRegistry.rowsOfJson_map (rows : List (Sigma fun _ : String => UInt64)) :
    rowsOfJson (rows.map fun r => (r.1, .int r.2.toNat)) = some rows := by
  induction rows with
  | nil => rfl
  | cons row rows ih => simp [rowsOfJson, ih]

/-- The registry as an event-sourced entity. -/
def registryEntity :
    EventSourced SchemaRegistry SchemaRegistryEvent SchemaRegistryCommand Empty where
  aggregateType := "SchemaRegistry"
  snapshotSize := 10
  compactionPolicy := .retain
  originate := SchemaRegistry.originate
  evolve := SchemaRegistry.evolve
  initializeWith command _ := SchemaRegistry.initializeWith command
  transition self command _ := self.transition command
  eventType _ := "SchemaRegistryEvent::VersionUpdated"
  eventVersion _ := "1.0"
  eventCodec := SchemaRegistryEvent.codec
  encodeEntity := SchemaRegistry.toJson
  decodeEntity := SchemaRegistry.ofJson
  decodeEntity_encodeEntity e e' h := by
    simp only [SchemaRegistry.toJson, SchemaRegistry.ofJson, Json.field?_cons, if_true,
      SchemaRegistry.rowsOfJson_map, Option.bind_eq_bind, Option.bind_some] at h
    split_ifs at h
    exact (Option.some.inj h).symm
  encodeError := nofun
  decodeError _ := none

/-- The id of the one registry. -/
def registryId : String := "schema"

def registryStream : StreamIdentity := registryEntity.stream registryId

/-! ## Reconciliation -/

/-- The schema metadata of an aggregate type. -/
structure SchemaTarget where
  aggregateType : String
  version : UInt64
  compaction : CompactionPolicy

inductive SchemaReconciliation where
  | changed
  | unchanged
  deriving DecidableEq, Repr

inductive ReconcileError where
  | json
  | aggregate (error : SendError SchemaRegistry SchemaRegistryEvent Empty)
  | persistence (error : PersistenceError)
  | compactedSnapshotClear (aggregate : String) (oldVersion : Option UInt64) (newVersion : UInt64)

def PersistenceError.ofAggregate : SqliteAggregateError → PersistenceError
  | .optimisticLock => .optimisticLock
  | .connection => .connection
  | .tryFromInt => .unknown

/-- Fold decoded registry events; an event that the state refuses leaves it alone. -/
def foldRegistry (state : Option SchemaRegistry) :
    List StoredEvent → Except ReconcileError (Option SchemaRegistry)
  | [] => .ok state
  | x :: xs =>
      match SchemaRegistryEvent.ofJson x.payload with
      | none => .error .json
      | some event =>
          match state with
          | none => foldRegistry (SchemaRegistry.originate event) xs
          | some current =>
              match current.evolve event with
              | .error never => nomatch never
              | .ok evolved => foldRegistry (some (evolved.getD current)) xs

/-- Rebuild the registry from its stream. -/
def loadRegistry (db : Db) : Except ReconcileError (Option SchemaRegistry) :=
  foldRegistry none (db.stream registryStream).values

/-- Delete the snapshots of an aggregate type. -/
def clearSnapshots (aggregateType : String) (db : Db) : Db :=
  { db with snapshots := db.snapshots.filterRows fun s _ => s.aggregateType ≠ aggregateType }

/-- Compare the recorded version with the target's, and clear the snapshots if they differ. A
recorded version of a compactable type may not change. -/
def reconcileTarget (target : SchemaTarget) (db : Db) :
    Except ReconcileError SchemaReconciliation × Db :=
  match loadRegistry db with
  | .error error => (.error error, db)
  | .ok registry =>
      let storedVersion := registry.bind fun r => r.versionOf target.aggregateType
      if storedVersion = some target.version then (.ok .unchanged, db)
      else if storedVersion.isSome ∧ target.compaction = .compactAfterSnapshot then
        (.error (.compactedSnapshotClear target.aggregateType storedVersion target.version), db)
      else (.ok .changed, clearSnapshots target.aggregateType db)

/-- Record the target's version, through the framework's store without snapshots. -/
def recordTarget (target : SchemaTarget) (db : Db) : Except ReconcileError Unit × Db :=
  match loadFold registryEntity db registryId with
  | none => (.error (.aggregate .deserialization), db)
  | some ctx =>
      match (ctx.aggregate.handle registryEntity
          (.register target.aggregateType target.version) "" none).1 with
      | .error error => (.error (.aggregate (.userError error)), db)
      | .ok events =>
          match insertSerializedEventsBatch db (consecutive registryStream
              (ctx.currentSequence + 1) (events.map registryEntity.stored)) with
          | .error error => (.error (.aggregate (.ofPersistence (.ofAggregate error))), db)
          | .ok db' => (.ok (), db')

/-! ## What the registry stream records -/

/-- The version one more event leaves recorded for a name. -/
def SchemaRegistryEvent.update (name : String) (recorded : Option UInt64) :
    SchemaRegistryEvent → Option UInt64
  | .versionUpdated n version => if name = n then some version else recorded

/-- The version last recorded for a name. -/
def recordedVersion (events : List SchemaRegistryEvent) (name : String) : Option UInt64 :=
  events.foldl (SchemaRegistryEvent.update name) none

/-- The events of the registry once a target is recorded. -/
def recordVersion (events : List SchemaRegistryEvent) (target : SchemaTarget) :
    List SchemaRegistryEvent :=
  if recordedVersion events target.aggregateType = some target.version then events
  else events ++ [.versionUpdated target.aggregateType target.version]

/-- The registry stream holds these events. -/
def RegistryHolds (db : Db) (events : List SchemaRegistryEvent) : Prop :=
  db.stream registryStream = SeqLog.ofList 0 (events.map registryEntity.stored)

theorem recordedVersion_recordVersion (events : List SchemaRegistryEvent) (target : SchemaTarget)
    (name : String) :
    recordedVersion (recordVersion events target) name =
      if name = target.aggregateType then some target.version
      else recordedVersion events name := by
  unfold recordVersion
  split_ifs with hsame hname hname
  · rw [hname, hsame]
  · rfl
  all_goals simp [recordedVersion, SchemaRegistryEvent.update, hname]

theorem SchemaRegistry.versionOf_insert (versions : Table String UInt64) (n name : String)
    (version : UInt64) :
    (⟨versions.insert n version⟩ : SchemaRegistry).versionOf name =
      SchemaRegistryEvent.update name ((⟨versions⟩ : SchemaRegistry).versionOf name)
        (.versionUpdated n version) := by
  rw [versionOf, SchemaRegistryEvent.update]
  split_ifs with hn
  · rw [hn, AList.lookup_insert]
  · exact AList.lookup_insert_ne hn

theorem foldRegistry_stored (state : Option SchemaRegistry) (events : List SchemaRegistryEvent) :
    ∃ registry, foldRegistry state (events.map registryEntity.stored) = .ok registry ∧
      ∀ name, (registry.bind fun r => r.versionOf name) =
        events.foldl (SchemaRegistryEvent.update name) (state.bind fun r => r.versionOf name) := by
  induction events generalizing state with
  | nil => exact ⟨state, rfl, fun _ => rfl⟩
  | cons event events ih =>
      obtain ⟨n, version⟩ := event
      have hdec : SchemaRegistryEvent.ofJson
          (registryEntity.stored (.versionUpdated n version)).payload =
          some (.versionUpdated n version) :=
        SchemaRegistryEvent.codec.decode_encode (.versionUpdated n version)
      rw [List.map_cons, foldRegistry]
      simp only [hdec, List.foldl_cons]
      cases state with
      | none =>
          obtain ⟨registry, hfold, hversions⟩ :=
            ih (SchemaRegistry.originate (.versionUpdated n version))
          refine ⟨registry, hfold, fun name => (hversions name).trans ?_⟩
          exact congrArg (fun v => List.foldl (SchemaRegistryEvent.update name) v events)
            (SchemaRegistry.versionOf_insert ∅ n name version)
      | some current =>
          obtain ⟨registry, hfold, hversions⟩ := ih (some ⟨current.versions.insert n version⟩)
          refine ⟨registry, hfold, fun name => (hversions name).trans ?_⟩
          exact congrArg (fun v => List.foldl (SchemaRegistryEvent.update name) v events)
            (SchemaRegistry.versionOf_insert current.versions n name version)

section Spec

variable {db : Db} {events : List SchemaRegistryEvent}

/-- The registry loads, and answers with the last recorded versions. -/
theorem RegistryHolds.loadRegistry (h : RegistryHolds db events) :
    ∃ registry, EventSorcery.loadRegistry db = .ok registry ∧
      ∀ name, (registry.bind fun r => r.versionOf name) = recordedVersion events name := by
  have hvalues : (db.stream registryStream).values = events.map registryEntity.stored := by
    rw [h, SeqLog.values_ofList]
  rw [EventSorcery.loadRegistry, hvalues]
  exact foldRegistry_stored none events

theorem RegistryHolds.reconcileTarget (h : RegistryHolds db events) (target : SchemaTarget) :
    EventSorcery.reconcileTarget target db =
      if recordedVersion events target.aggregateType = some target.version then
        (.ok .unchanged, db)
      else if (recordedVersion events target.aggregateType).isSome ∧
          target.compaction = .compactAfterSnapshot then
        (.error (.compactedSnapshotClear target.aggregateType
          (recordedVersion events target.aggregateType) target.version), db)
      else (.ok .changed, clearSnapshots target.aggregateType db) := by
  obtain ⟨registry, hload, hversions⟩ := h.loadRegistry
  rw [EventSorcery.reconcileTarget, hload]
  simp only [hversions]

/-- The versions a stored registry knows. -/
def lifecycleVersion (name : String) :
    Lifecycle SchemaRegistry SchemaRegistryEvent Empty → Option UInt64
  | .live registry => registry.versionOf name
  | _ => none

/-- The registry's fold never fails, and it agrees with the loaded registry. -/
theorem applyAll_registry {l : Lifecycle SchemaRegistry SchemaRegistryEvent Empty}
    (hl : l.isFailed = false) (events : List SchemaRegistryEvent) :
    (l.applyAll registryEntity events).isFailed = false ∧
      ∀ name, lifecycleVersion name (l.applyAll registryEntity events) =
        events.foldl (SchemaRegistryEvent.update name) (lifecycleVersion name l) := by
  induction events generalizing l with
  | nil => exact ⟨hl, fun _ => rfl⟩
  | cons event events ih =>
      obtain ⟨n, version⟩ := event
      have hone : ∃ registry, l.apply registryEntity (.versionUpdated n version) = .live registry ∧
          ∀ name, registry.versionOf name = SchemaRegistryEvent.update name
            (lifecycleVersion name l) (.versionUpdated n version) := by
        cases l with
        | failed error last => cases hl
        | uninitialized =>
            exact ⟨_, rfl, fun name => SchemaRegistry.versionOf_insert ∅ n name version⟩
        | live current =>
            exact ⟨_, rfl, fun name =>
              SchemaRegistry.versionOf_insert current.versions n name version⟩
      obtain ⟨registry, happ, hversion⟩ := hone
      obtain ⟨hlive, hrest⟩ := ih (l := .live registry) rfl
      rw [Lifecycle.applyAll_cons, happ]
      refine ⟨hlive, fun name => ?_⟩
      rw [hrest name, List.foldl_cons, ← hversion name]
      rfl

theorem handle_register {l : Lifecycle SchemaRegistry SchemaRegistryEvent Empty}
    (hl : l.isFailed = false) (n : String) (version : UInt64) :
    (l.handle registryEntity (.register n version) "" none).1 =
      .ok (if lifecycleVersion n l = some version then [] else [.versionUpdated n version]) := by
  have hwrite : ∀ events, l.writeAll registryEntity events = .ok () := fun events =>
    (Lifecycle.writeAll_eq_ok registryEntity hl).2 (applyAll_registry hl events).1
  have hdecision : l.decision registryEntity (.register n version) "" = .ok (.events
      (if lifecycleVersion n l = some version then [] else [.versionUpdated n version])) := by
    cases l with
    | failed error last => cases hl
    | uninitialized => rfl
    | live registry =>
        change Except.mapError _ (registry.transition (.register n version)) = _
        have hversion : lifecycleVersion n (.live registry) = registry.versionOf n := rfl
        rw [hversion, SchemaRegistry.transition]
        split_ifs <;> rfl
  rw [Lifecycle.handle, hdecision]
  simp only [hwrite]
  rfl

/-- Recording a target appends its version to the registry stream, unless it is the recorded one
already or the stream is full. -/
theorem RegistryHolds.recordTarget (h : RegistryHolds db events) (target : SchemaTarget) :
    EventSorcery.recordTarget target db =
      if recordedVersion events target.aggregateType = some target.version then (.ok (), db)
      else if events.length + 1 ≤ i64Max then
        (.ok (), db.setStream registryStream
          (SeqLog.ofList 0 ((recordVersion events target).map registryEntity.stored)))
      else (.error (.aggregate .unexpected), db) := by
  have hstream : db.stream (registryEntity.stream registryId) =
      SeqLog.ofList 0 (events.map registryEntity.stored) := h
  obtain ⟨hlive, hversion⟩ := applyAll_registry (l := .uninitialized) rfl events
  have hhandle := handle_register hlive target.aggregateType target.version
  have hrecorded : lifecycleVersion target.aggregateType
      (Lifecycle.applyAll registryEntity .uninitialized events) =
      recordedVersion events target.aggregateType := hversion _
  rw [hrecorded] at hhandle
  simp only [EventSorcery.recordTarget, loadFold, hstream, SeqLog.values_ofList,
    applyPayloads_stored, Option.map_some, hhandle, SeqLog.maxSeq_ofList_zero, List.length_map]
  by_cases hsame : recordedVersion events target.aggregateType = some target.version
  · simp only [if_pos hsame]
    rfl
  · simp only [if_neg hsame, List.map_cons, List.map_nil, consecutive,
      insertSerializedEventsBatch_singleton]
    by_cases hroom : events.length + 1 ≤ i64Max
    · have hins := SeqLog.insert?_ofList_next 0 (events.map registryEntity.stored)
        (registryEntity.stored (.versionUpdated target.aggregateType target.version))
      rw [List.length_map, Nat.zero_add, ← h] at hins
      simp only [StoredEvent.sequence_serialized, if_pos hroom, Db.insertEvent,
        StoredEvent.identity_serialized, StoredEvent.stored_serialized, hins, recordVersion,
        if_neg hsame, List.map_append, List.map_cons, List.map_nil]
    · rw [if_neg hroom, StoredEvent.sequence_serialized, if_neg hroom]
      rfl

/-- After a target was recorded, or could not be, the registry stream still holds a registry. -/
theorem RegistryHolds.record (h : RegistryHolds db events) (target : SchemaTarget) :
    ∃ events', RegistryHolds (EventSorcery.recordTarget target db).2 events' ∧
      (events' = events ∨ events' = recordVersion events target) ∧
      (events.length + 1 ≤ i64Max → events' = recordVersion events target) := by
  rw [h.recordTarget target]
  split_ifs with hsame hroom
  · exact ⟨events, h, .inl rfl, fun _ => by rw [recordVersion, if_pos hsame]⟩
  · refine ⟨recordVersion events target, ?_, .inr rfl, fun _ => rfl⟩
    rw [RegistryHolds, Db.stream_setStream, Function.update_self]
  · exact ⟨events, h, .inl rfl, fun hle => absurd hle hroom⟩

/-- Recording a target succeeds while the registry stream has a number left. -/
theorem RegistryHolds.record_ok (h : RegistryHolds db events) (target : SchemaTarget)
    (hroom : (db.stream registryStream).rows.length < i64Max) :
    (EventSorcery.recordTarget target db).1 = .ok () := by
  have hlength : (db.stream registryStream).rows.length = events.length := by
    rw [h, SeqLog.rows_ofList, ← List.length_map Prod.snd, SeqLog.map_snd_rowsFrom,
      List.length_map]
  rw [h.recordTarget target]
  split_ifs with hsame hfits
  · rfl
  · rfl
  · omega

/-- Recording a target touches no other stream and no other table. -/
theorem RegistryHolds.record_frame (h : RegistryHolds db events) (target : SchemaTarget) :
    (∀ t ≠ registryStream,
        (EventSorcery.recordTarget target db).2.stream t = db.stream t) ∧
      (EventSorcery.recordTarget target db).2.snapshots = db.snapshots ∧
      (EventSorcery.recordTarget target db).2.jobQueue = db.jobQueue := by
  rw [h.recordTarget target]
  split_ifs
  · exact ⟨fun _ _ => rfl, rfl, rfl⟩
  · refine ⟨fun t ht => ?_, rfl, rfl⟩
    rw [Db.stream_setStream, Function.update_of_ne ht]
  · exact ⟨fun _ _ => rfl, rfl, rfl⟩

end Spec

end EventSorcery
