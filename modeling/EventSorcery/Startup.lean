import EventSorcery.Schema
import EventSorcery.CatchUp

/-!
# Building a store with a table projection

`StoreBuilder::build` of a projected entity: reconcile its schema version, bring its view up to date
(from nothing if the version changed, from where each row stands otherwise), and record the version
last. Projected entities retain their events.
-/

namespace EventSorcery

section Startup

variable {Entity Event Command Error : Type} (E : EventSourced Entity Event Command Error)

def EventSourced.schemaTarget (version : UInt64) : SchemaTarget :=
  ⟨E.aggregateType, version, E.compactionPolicy⟩

def ReconcileError.ofProjection : ProjectionError → ReconcileError
  | .persistence error => .persistence error
  | .serde _ => .persistence .unknown

/-- Delete every row and replay all events. -/
def rebuildAll (db : Db) : Except ProjectionError Unit × ViewTable := catchUp E db ∅

/-- Bring the view up to date after a reconciliation. -/
def recoverView (outcome : SchemaReconciliation) (db : Db) (view : ViewTable) :
    Except ProjectionError Unit × ViewTable :=
  match outcome with
  | .changed => rebuildAll E db
  | .unchanged => catchUp E db view

/-- Reconcile, recover the view, record. -/
def build (version : UInt64) (db : Db) (view : ViewTable) :
    Except ReconcileError Unit × Db × ViewTable :=
  match reconcileTarget (E.schemaTarget version) db with
  | (.error error, db) => (.error error, db, view)
  | (.ok outcome, db) =>
      match recoverView E outcome db view with
      | (.error error, view) => (.error (.ofProjection error), db, view)
      | (.ok (), view) =>
          let recorded := recordTarget (E.schemaTarget version) db
          (recorded.1, recorded.2, view)

variable {E} {db : Db} {events : List SchemaRegistryEvent}

/-- What a startup leaves behind: the same events but for the record of its version, and no snapshot
that was not there. -/
structure Built (E : EventSourced Entity Event Command Error) (version : UInt64)
    (events : List SchemaRegistryEvent) (db db' : Db) : Prop where
  registry : RegistryHolds db' (recordVersion events (E.schemaTarget version))
  streams : ∀ t ≠ registryStream, db'.stream t = db.stream t
  snapshots : ∀ t, db'.snapshots.lookup t = db.snapshots.lookup t ∨ db'.snapshots.lookup t = none
  jobQueue : db'.jobQueue = db.jobQueue

/-- Reconciling a retained type: nothing to do, or its snapshots go. -/
theorem reconcileTarget_retain (hpol : E.compactionPolicy = .retain)
    (hreg : RegistryHolds db events) (version : UInt64) :
    reconcileTarget (E.schemaTarget version) db =
      if recordedVersion events E.aggregateType = some version then (.ok .unchanged, db)
      else (.ok .changed, clearSnapshots E.aggregateType db) := by
  have hretain : ¬ ((recordedVersion events E.aggregateType).isSome ∧
      E.compactionPolicy = .compactAfterSnapshot) := fun hguard =>
    absurd (hpol.symm.trans hguard.2) (by decide)
  rw [hreg.reconcileTarget]
  exact if_congr Iff.rfl rfl (if_neg hretain)

theorem lookup_clearSnapshots_or (aggregateType : String) (db : Db) (t : StreamIdentity) :
    (clearSnapshots aggregateType db).snapshots.lookup t = db.snapshots.lookup t ∨
      (clearSnapshots aggregateType db).snapshots.lookup t = none := by
  rw [clearSnapshots, Table.lookup_filterRows]
  cases db.snapshots.lookup t with
  | none => exact .inl rfl
  | some row =>
      by_cases ht : t.aggregateType = aggregateType
      · exact .inr (by simp [ht])
      · exact .inl (by simp [ht])

/-- The events and the queue after reconciling, and the snapshots that are left. -/
theorem reconcileTarget_frame (hpol : E.compactionPolicy = .retain)
    (hreg : RegistryHolds db events) (version : UInt64) :
    (reconcileTarget (E.schemaTarget version) db).2.events = db.events ∧
      (reconcileTarget (E.schemaTarget version) db).2.jobQueue = db.jobQueue ∧
      ∀ t, (reconcileTarget (E.schemaTarget version) db).2.snapshots.lookup t =
          db.snapshots.lookup t ∨
        (reconcileTarget (E.schemaTarget version) db).2.snapshots.lookup t = none := by
  rw [reconcileTarget_retain hpol hreg]
  split_ifs
  · exact ⟨rfl, rfl, fun t => .inl rfl⟩
  · exact ⟨rfl, rfl, lookup_clearSnapshots_or _ db⟩

theorem stream_of_events {db db' : Db} (h : db'.events = db.events) : db'.stream = db.stream := by
  funext t
  rw [Db.stream, h, Db.stream]

/-- **A startup on readable tables** reconciles, brings every row up to date from where it stood, or
from nothing if the version changed, and then answers with how recording went. -/
theorem build_spec (hpol : E.compactionPolicy = .retain) (hreg : RegistryHolds db events)
    (hdec : EventsDecode E db) (version : UInt64) (view : ViewTable) :
    ∃ view', build E version db view =
        ((recordTarget (E.schemaTarget version) (reconcileTarget (E.schemaTarget version) db).2).1,
          (recordTarget (E.schemaTarget version)
            (reconcileTarget (E.schemaTarget version) db).2).2, view') ∧
      ∀ id rows, decodeRows E (db.stream (E.stream id)).rows = some rows →
        view'.lookup id = rowAfterCatchUp E rows
          (if recordedVersion events E.aggregateType = some version then view.lookup id
            else none) := by
  have hcatch : ∀ db₁ : Db, db₁.events = db.events → ∀ view, ∃ view',
      catchUp E db₁ view = (.ok (), view') ∧
        ∀ id rows, decodeRows E (db.stream (E.stream id)).rows = some rows →
          view'.lookup id = rowAfterCatchUp E rows (view.lookup id) := by
    intro db₁ hevents view
    have hstream := stream_of_events hevents
    have hdec₁ : EventsDecode E db₁ := fun id => by rw [hstream]; exact hdec id
    obtain ⟨view', hrun, hrows⟩ := catchUp_eq hdec₁ view
    exact ⟨view', hrun, fun id rows h => hrows id rows (by rw [hstream]; exact h)⟩
  have houtcome := reconcileTarget_retain hpol hreg version
  by_cases hsame : recordedVersion events E.aggregateType = some version
  · obtain ⟨view', hrun, hrows⟩ := hcatch db rfl view
    have hunchanged : reconcileTarget (E.schemaTarget version) db = (.ok .unchanged, db) :=
      houtcome.trans (if_pos hsame)
    refine ⟨view', ?_, fun id rows h => by rw [if_pos hsame]; exact hrows id rows h⟩
    simp only [build, hunchanged, recoverView, hrun]
  · obtain ⟨view', hrun, hrows⟩ := hcatch (clearSnapshots E.aggregateType db) rfl ∅
    have hchanged : reconcileTarget (E.schemaTarget version) db =
        (.ok .changed, clearSnapshots E.aggregateType db) := houtcome.trans (if_neg hsame)
    refine ⟨view', ?_, fun id rows h => by rw [if_neg hsame]; exact hrows id rows h⟩
    simp only [build, hchanged, recoverView, rebuildAll, hrun]

/-- **A startup on readable tables** completes, and every row is caught up from where it stood, or
from nothing if the version changed. -/
theorem build_eq_ok (hpol : E.compactionPolicy = .retain) (hreg : RegistryHolds db events)
    (hdec : EventsDecode E db) (hroom : events.length + 1 ≤ i64Max) (version : UInt64)
    (view : ViewTable) :
    ∃ db' view', build E version db view = (.ok (), db', view') ∧ Built E version events db db' ∧
      ∀ id rows, decodeRows E (db.stream (E.stream id)).rows = some rows →
        view'.lookup id = rowAfterCatchUp E rows
          (if recordedVersion events E.aggregateType = some version then view.lookup id
            else none) := by
  obtain ⟨view', hbuild, hrows⟩ := build_spec hpol hreg hdec version view
  obtain ⟨hevents, hqueue, hsnap⟩ := reconcileTarget_frame hpol hreg version
  generalize (reconcileTarget (E.schemaTarget version) db).2 = db₁ at hbuild hevents hqueue hsnap
  have hstream := stream_of_events hevents
  have hreg₁ : RegistryHolds db₁ events := (congrFun hstream registryStream).trans hreg
  have hok : (recordTarget (E.schemaTarget version) db₁).1 = .ok () := by
    rw [hreg₁.recordTarget]
    split_ifs <;> rfl
  obtain ⟨events', hheld, -, hroomy⟩ := hreg₁.record (E.schemaTarget version)
  obtain rfl := hroomy hroom
  obtain ⟨hframe, hsnap', hqueue'⟩ := hreg₁.record_frame (E.schemaTarget version)
  rw [hok] at hbuild
  exact ⟨_, view', hbuild, ⟨hheld, fun t ht => by rw [hframe t ht, hstream],
    fun t => by rw [hsnap']; exact hsnap t, hqueue'.trans hqueue⟩, hrows⟩

end Startup

end EventSorcery
