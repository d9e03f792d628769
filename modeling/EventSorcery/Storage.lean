import EventSorcery.Lib.Json
import EventSorcery.Lib.SeqLog
import EventSorcery.Lib.Batch

/-!
# The database

The tables the engine writes: `events` with primary key (aggregate type, aggregate id, sequence),
`snapshots` keyed by stream, and the `job_queue` view keyed by job id. The rows of one stream are a
`SeqLog`, so two events of a stream never share a sequence number.
-/

namespace EventSorcery

/-- Identifies one aggregate's event stream. -/
structure StreamIdentity where
  aggregateType : String
  aggregateId : String
  deriving DecidableEq, Repr

/-- An event as it crosses the storage boundary. -/
structure SerializedEvent where
  aggregateId : String
  sequence : ℕ
  aggregateType : String
  eventType : String
  eventVersion : String
  payload : Json
  metadata : Json

/-- The columns of an `events` row beside its primary key. -/
structure StoredEvent where
  eventType : String
  eventVersion : String
  payload : Json
  metadata : Json
  deriving DecidableEq

def SerializedEvent.identity (e : SerializedEvent) : StreamIdentity :=
  ⟨e.aggregateType, e.aggregateId⟩

def SerializedEvent.stored (e : SerializedEvent) : StoredEvent :=
  ⟨e.eventType, e.eventVersion, e.payload, e.metadata⟩

/-- The event a row holds. -/
def StoredEvent.serialized (x : StoredEvent) (s : StreamIdentity) (q : ℕ) : SerializedEvent :=
  ⟨s.aggregateId, q, s.aggregateType, x.eventType, x.eventVersion, x.payload, x.metadata⟩

@[simp] theorem StoredEvent.identity_serialized (x : StoredEvent) (s : StreamIdentity) (q : ℕ) :
    (x.serialized s q).identity = s := rfl

@[simp] theorem StoredEvent.stored_serialized (x : StoredEvent) (s : StreamIdentity) (q : ℕ) :
    (x.serialized s q).stored = x := rfl

@[simp] theorem StoredEvent.sequence_serialized (x : StoredEvent) (s : StreamIdentity) (q : ℕ) :
    (x.serialized s q).sequence = q := rfl

@[simp] theorem SerializedEvent.serialized_stored (e : SerializedEvent) :
    e.stored.serialized e.identity e.sequence = e := rfl

/-- A row of the `snapshots` table. -/
structure SnapshotRow where
  lastSequence : ℕ
  snapshotVersion : ℕ
  payload : Json

/-- A row of a view table. Only `job_queue` has the lease column; other views leave it empty. -/
structure ViewRow where
  version : ℤ
  payload : Json
  leaseUntil : Option ℤ

/-- A table with a primary key. -/
abbrev Table (κ ν : Type) := AList fun _ : κ => ν

/-- Change every row of a table. -/
def Table.mapRows {κ ν : Type} (f : κ → ν → ν) (t : Table κ ν) : Table κ ν :=
  ⟨t.entries.map fun r => ⟨r.1, f r.1 r.2⟩, by
    have := t.nodupKeys
    simpa [List.NodupKeys, List.keys, Function.comp_def] using this⟩

theorem Table.lookup_mapRows {κ ν : Type} [DecidableEq κ] (f : κ → ν → ν) (t : Table κ ν) (k : κ) :
    (t.mapRows f).lookup k = (t.lookup k).map (f k) := by
  obtain ⟨entries, h⟩ := t
  change List.dlookup k (entries.map fun r => (⟨r.1, f r.1 r.2⟩ : Sigma fun _ : κ => ν)) =
    (List.dlookup k entries).map (f k)
  clear h
  induction entries with
  | nil => rfl
  | cons r entries ih =>
      obtain ⟨a, b⟩ := r
      by_cases hk : k = a
      · subst hk; simp
      · simp only [List.map_cons]
        rw [List.dlookup_cons_ne _ _ hk, List.dlookup_cons_ne _ _ hk, ih]

/-- Keep the rows that satisfy `p`. -/
def Table.filterRows {κ ν : Type} (p : κ → ν → Bool) (t : Table κ ν) : Table κ ν :=
  ⟨t.entries.filter fun r => p r.1 r.2, List.NodupKeys.sublist List.filter_sublist t.nodupKeys⟩

theorem Table.lookup_filterRows {κ ν : Type} [DecidableEq κ] (p : κ → ν → Bool) (t : Table κ ν)
    (k : κ) : (t.filterRows p).lookup k = (t.lookup k).filter (p k) := by
  refine Option.ext fun v => ?_
  rw [← Option.mem_def, AList.mem_lookup_iff, Option.filter_eq_some_iff, ← Option.mem_def,
    AList.mem_lookup_iff]
  exact List.mem_filter

/-- The number of rows. -/
def Table.len {κ ν : Type} (t : Table κ ν) : ℕ := t.keys.length

section Length

variable {κ ν : Type} [DecidableEq κ] {t : Table κ ν} {k : κ}

theorem Table.len_erase {v : ν} (h : t.lookup k = some v) :
    Table.len (t.erase k) + 1 = t.len := by
  have hmem : k ∈ t.keys := AList.lookup_isSome.1 (by rw [h]; rfl)
  rw [Table.len, AList.keys_erase, List.length_erase_of_mem hmem]
  exact Nat.succ_pred_eq_of_pos (List.length_pos_of_mem hmem)

theorem Table.len_erase_le (t : Table κ ν) (k : κ) : Table.len (t.erase k) ≤ t.len := by
  rw [Table.len, AList.keys_erase]
  exact List.length_erase_le

theorem Table.len_insert_of_lookup {v : ν} (h : t.lookup k = some v) (v' : ν) :
    Table.len (t.insert k v') = t.len := by
  rw [Table.len, AList.keys_insert, List.length_cons, ← AList.keys_erase]
  exact Table.len_erase h

theorem Table.len_insert_le (t : Table κ ν) (k : κ) (v : ν) :
    Table.len (t.insert k v) ≤ t.len + 1 := by
  rw [Table.len, AList.keys_insert, List.length_cons]
  exact Nat.succ_le_succ List.length_erase_le

end Length

theorem Table.len_filterRows_le {κ ν : Type} (t : Table κ ν) (p : κ → ν → Bool) :
    (t.filterRows p).len ≤ t.len := by
  simp only [Table.len, AList.keys, List.keys, List.length_map]
  exact List.length_filter_le _ _

/-- The database. -/
structure Db where
  events : Table StreamIdentity (SeqLog StoredEvent)
  snapshots : Table StreamIdentity SnapshotRow
  jobQueue : Table String ViewRow

namespace Db

/-- The freshly migrated database. -/
def empty : Db := ⟨∅, ∅, ∅⟩

/-- The rows of one stream. -/
def stream (db : Db) (s : StreamIdentity) : SeqLog StoredEvent :=
  (db.events.lookup s).getD SeqLog.empty

def setStream (db : Db) (s : StreamIdentity) (l : SeqLog StoredEvent) : Db :=
  { db with events := db.events.insert s l }

def setSnapshot (db : Db) (s : StreamIdentity) (row : SnapshotRow) : Db :=
  { db with snapshots := db.snapshots.insert s row }

def setRow (db : Db) (id : String) (row : ViewRow) : Db :=
  { db with jobQueue := db.jobQueue.insert id row }

@[simp] theorem stream_empty (s : StreamIdentity) : empty.stream s = SeqLog.empty := rfl

theorem stream_setStream (db : Db) (s : StreamIdentity) (l : SeqLog StoredEvent) :
    (db.setStream s l).stream = Function.update db.stream s l := by
  funext t
  by_cases h : t = s
  · subst h; simp [stream, setStream]
  · simp [stream, setStream, h]

@[simp] theorem stream_setSnapshot (db : Db) (s : StreamIdentity) (row : SnapshotRow) :
    (db.setSnapshot s row).stream = db.stream := rfl

@[simp] theorem stream_setRow (db : Db) (id : String) (row : ViewRow) :
    (db.setRow id row).stream = db.stream := rfl

@[simp] theorem snapshots_setStream (db : Db) (s : StreamIdentity) (l : SeqLog StoredEvent) :
    (db.setStream s l).snapshots = db.snapshots := rfl

@[simp] theorem snapshots_setRow (db : Db) (id : String) (row : ViewRow) :
    (db.setRow id row).snapshots = db.snapshots := rfl

@[simp] theorem jobQueue_setStream (db : Db) (s : StreamIdentity) (l : SeqLog StoredEvent) :
    (db.setStream s l).jobQueue = db.jobQueue := rfl

@[simp] theorem jobQueue_setSnapshot (db : Db) (s : StreamIdentity) (row : SnapshotRow) :
    (db.setSnapshot s row).jobQueue = db.jobQueue := rfl

theorem lookup_jobQueue_setRow (db : Db) (id id' : String) (row : ViewRow) :
    (db.setRow id row).jobQueue.lookup id' =
      if id' = id then some row else db.jobQueue.lookup id' := by
  split_ifs with h
  · subst h; simp [setRow]
  · simp [setRow, h]

end Db

/-! ## Inserting events -/

/-- The largest value of a signed 64-bit column. -/
def i64Max : ℕ := 2 ^ 63 - 1

theorem one_le_i64Max : 1 ≤ i64Max := by decide

/-- Errors of the event repository. -/
inductive SqliteAggregateError where
  | optimisticLock
  | connection
  | tryFromInt
  deriving DecidableEq, Repr

/-- Insert one event row; a taken primary key is a unique violation. -/
def Db.insertEvent (db : Db) (e : SerializedEvent) : Except SqliteAggregateError Db :=
  match (db.stream e.identity).insert? e.sequence e.stored with
  | none => .error .optimisticLock
  | some l => .ok (db.setStream e.identity l)

/-- Insert serialized events in multi-row statements of at most 142 rows. Each chunk's sequence
numbers are converted to the column's type before the chunk is inserted. -/
def insertSerializedEventsBatch (db : Db) (events : List SerializedEvent) :
    Except SqliteAggregateError Db :=
  (events.toChunks 142).foldlM (fun db chunk =>
    if chunk.all fun e => e.sequence ≤ i64Max then chunk.foldlM Db.insertEvent db
    else .error .tryFromInt) db

theorem insertSerializedEventsBatch_eq_ok {db db' : Db} {events : List SerializedEvent} :
    insertSerializedEventsBatch db events = .ok db' ↔
      (∀ e ∈ events, e.sequence ≤ i64Max) ∧ events.foldlM Db.insertEvent db = .ok db' := by
  rw [insertSerializedEventsBatch, List.foldlM_chunks_eq_ok, List.flatten_toChunks]
  simp only [decide_eq_true_eq]

theorem insertSerializedEventsBatch_of_le {events : List SerializedEvent}
    (h : ∀ e ∈ events, e.sequence ≤ i64Max) (db : Db) :
    insertSerializedEventsBatch db events = events.foldlM Db.insertEvent db := by
  rw [insertSerializedEventsBatch, List.foldlM_chunks_of_forall, List.flatten_toChunks]
  simpa only [List.flatten_toChunks, decide_eq_true_eq] using h

theorem insertSerializedEventsBatch_singleton (db : Db) (e : SerializedEvent) :
    insertSerializedEventsBatch db [e] =
      if e.sequence ≤ i64Max then db.insertEvent e else .error .tryFromInt := by
  have hchunks : [e].toChunks 142 = [[e]] := rfl
  rw [insertSerializedEventsBatch, hchunks]
  by_cases h : e.sequence ≤ i64Max
  · simp [h]
  · simp [h]

/-- The events of `s` that hold `xs` from sequence number `q` on. -/
def consecutive (s : StreamIdentity) : ℕ → List StoredEvent → List SerializedEvent
  | _, [] => []
  | q, x :: xs => x.serialized s q :: consecutive s (q + 1) xs

theorem getElem?_consecutive (s : StreamIdentity) (q : ℕ) (xs : List StoredEvent) (i : ℕ) :
    (consecutive s q xs)[i]? = xs[i]?.map fun x => x.serialized s (q + i) := by
  induction xs generalizing q i with
  | nil => rfl
  | cons x xs ih =>
      cases i with
      | zero => rfl
      | succ i =>
          rw [consecutive, List.getElem?_cons_succ, ih, List.getElem?_cons_succ,
            show q + 1 + i = q + (i + 1) by omega]

@[simp] theorem length_consecutive (s : StreamIdentity) (q : ℕ) (xs : List StoredEvent) :
    (consecutive s q xs).length = xs.length := by
  induction xs generalizing q with
  | nil => rfl
  | cons x xs ih => rw [consecutive, List.length_cons, List.length_cons, ih]

/-- What an append to one stream leaves unchanged. -/
structure Db.Appended (db db' : Db) (s : StreamIdentity) (l : SeqLog StoredEvent) : Prop where
  stream : db'.stream = Function.update db.stream s l
  snapshots : db'.snapshots = db.snapshots
  jobQueue : db'.jobQueue = db.jobQueue

theorem Db.Appended.refl (db : Db) (s : StreamIdentity) : db.Appended db s (db.stream s) :=
  ⟨by simp, rfl, rfl⟩

theorem Db.appended_setStream (db : Db) (s : StreamIdentity) (l : SeqLog StoredEvent) :
    db.Appended (db.setStream s l) s l :=
  ⟨db.stream_setStream s l, rfl, rfl⟩

theorem Db.Appended.trans {db db' db'' : Db} {s : StreamIdentity} {l l' : SeqLog StoredEvent}
    (h : db.Appended db' s l) (h' : db'.Appended db'' s l') : db.Appended db'' s l' :=
  ⟨by rw [h'.stream, h.stream, Function.update_idem], h'.snapshots.trans h.snapshots,
    h'.jobQueue.trans h.jobQueue⟩

theorem Db.Appended.stream_self {db db' : Db} {s : StreamIdentity} {l : SeqLog StoredEvent}
    (h : db.Appended db' s l) : db'.stream s = l := by
  rw [h.stream, Function.update_self]

theorem Db.Appended.stream_of_ne {db db' : Db} {s t : StreamIdentity} {l : SeqLog StoredEvent}
    (h : db.Appended db' s l) (ht : t ≠ s) : db'.stream t = db.stream t := by
  rw [h.stream, Function.update_of_ne ht]

/-- Inserting consecutive events is inserting their rows into the stream's log. -/
theorem foldlM_insertEvent_consecutive (db : Db) (s : StreamIdentity) (q : ℕ)
    (xs : List StoredEvent) :
    match (db.stream s).insertFrom? q xs with
    | none => (consecutive s q xs).foldlM Db.insertEvent db = .error .optimisticLock
    | some l => ∃ db', (consecutive s q xs).foldlM Db.insertEvent db = .ok db' ∧
        db.Appended db' s l := by
  induction xs generalizing db q with
  | nil => exact ⟨db, rfl, .refl db s⟩
  | cons x xs ih =>
      rw [SeqLog.insertFrom?, consecutive, List.foldlM_cons, Db.insertEvent]
      simp only [StoredEvent.identity_serialized, StoredEvent.stored_serialized,
        StoredEvent.sequence_serialized]
      cases hx : (db.stream s).insert? q x with
      | none => rfl
      | some l =>
          have happ := db.appended_setStream s l
          have := ih (db.setStream s l) (q + 1)
          rw [happ.stream_self] at this
          rw [Option.bind_some]
          cases hl : l.insertFrom? (q + 1) xs with
          | none => rw [hl] at this; exact this
          | some l' =>
              rw [hl] at this
              obtain ⟨db', hdb', happ'⟩ := this
              exact ⟨db', hdb', happ.trans happ'⟩

end EventSorcery
