import EventSorcery.Lib.Sql
import EventSorcery.Provenance
import EventSorcery.SchemaSafety

/-!
# Listing the aggregates of a type

`load_all_ids`, `load_ids_paginated` and `count_aggregates` find the streams of a type in two tables,
since compaction may have left nothing of a stream but its snapshot. Commits, snapshot calls,
compaction and startups change both tables; `listing_is_complete` says that over every safe history the
three queries see exactly the streams that have ever held an event.
-/

namespace EventSorcery

/-! ## The queries -/

section Queries

/-- Whether the events table has a row of the stream. -/
def Db.hasEvents (db : Db) (s : StreamIdentity) : Bool := !(db.stream s).rows.isEmpty

/-- `SELECT aggregate_id FROM events UNION SELECT aggregate_id FROM snapshots`, for one type. -/
def aggregateIds (aggregateType : String) (db : Db) : List String :=
  ((db.events.keys.filter fun s => s.aggregateType = aggregateType && db.hasEvents s).map
      StreamIdentity.aggregateId ++
    (db.snapshots.keys.filter fun s => s.aggregateType = aggregateType).map
      StreamIdentity.aggregateId).dedup

/-- The ids in ascending order. -/
def sortedIds (aggregateType : String) (db : Db) : List String :=
  (aggregateIds aggregateType db).mergeSort fun a b => a ≤ b

inductive LoadAllIdsError where
  | invalidIds (aggregateType : String) (ids : List String)
  | numericConversion
  deriving DecidableEq

variable {Id : Type}

/-- Parse one row: an id goes to the first list, a text that is none to the second. -/
def parseRow (parse : String → Option Id) (acc : List Id × List String) (row : String) :
    List Id × List String :=
  match parse row with
  | some id => (acc.1 ++ [id], acc.2)
  | none => (acc.1, acc.2 ++ [row])

def parseIds (aggregateType : String) (parse : String → Option Id) (rows : List String) :
    Except LoadAllIdsError (List Id) :=
  let (ids, invalid) := rows.foldl (parseRow parse) ([], [])
  if invalid.isEmpty then .ok ids else .error (.invalidIds aggregateType invalid)

def loadAllIds (aggregateType : String) (parse : String → Option Id) (db : Db) :
    Except LoadAllIdsError (List Id) :=
  parseIds aggregateType parse (sortedIds aggregateType db)

def countAggregates (aggregateType : String) (db : Db) : ℕ := (aggregateIds aggregateType db).length

/-- The row ids SQLite gave the rows of the two tables, each table with its own numbers. -/
structure RowIds where
  event : StreamIdentity → ℕ → ℕ
  snapshot : StreamIdentity → ℕ

/-- The highest row id of an aggregate's events and its snapshot. -/
def RowIds.latest (rowids : RowIds) (db : Db) (s : StreamIdentity) : ℕ :=
  ((db.stream s).rows.map (fun row => rowids.event s row.1) ++
    ((db.snapshots.lookup s).map fun _ => rowids.snapshot s).toList).foldr max 0

/-- The ids with the latest row first; ids of equal rank come in the order of the grouping. -/
def newestFirst (rowids : RowIds) (aggregateType : String) (db : Db) : List String :=
  (sortedIds aggregateType db).mergeSort fun a b =>
    rowids.latest db ⟨aggregateType, b⟩ ≤ rowids.latest db ⟨aggregateType, a⟩

def loadIdsPaginated (rowids : RowIds) (aggregateType : String) (parse : String → Option Id)
    (limit offset : ℕ) (db : Db) : Except LoadAllIdsError (List Id) :=
  if limit ≤ i64Max ∧ offset ≤ i64Max then
    parseIds aggregateType parse (((newestFirst rowids aggregateType db).drop offset).take limit)
  else .error .numericConversion

variable {aggregateType : String} {db : Db} {s : StreamIdentity}

theorem Db.hasEvents_iff : db.hasEvents s = true ↔ ∃ q x, db.row s q = some x := by
  simp only [Db.hasEvents, Db.row, Bool.not_eq_true', List.isEmpty_eq_false_iff_exists_mem,
    SeqLog.get?_eq_some, Prod.exists]

theorem Db.mem_keys_of_hasEvents (h : db.hasEvents s = true) : s ∈ db.events.keys := by
  by_contra hs
  have hnone : db.events.lookup s = none := AList.lookup_eq_none.2 hs
  simp [Db.hasEvents, Db.stream, hnone, SeqLog.empty] at h

/-- An id is found by its events or by its snapshot. -/
theorem mem_aggregateIds {id : String} :
    id ∈ aggregateIds aggregateType db ↔
      db.hasEvents ⟨aggregateType, id⟩ = true ∨
        (db.snapshots.lookup ⟨aggregateType, id⟩).isSome = true := by
  simp only [aggregateIds, List.mem_dedup, List.mem_append, List.mem_map, List.mem_filter,
    Bool.and_eq_true, decide_eq_true_eq, AList.lookup_isSome]
  constructor
  · rintro (⟨⟨type, _⟩, ⟨-, rfl, hevents⟩, rfl⟩ | ⟨⟨type, _⟩, ⟨hkey, rfl⟩, rfl⟩)
    · exact .inl hevents
    · exact .inr hkey
  · rintro (hevents | hkey)
    · exact .inl ⟨_, ⟨Db.mem_keys_of_hasEvents hevents, rfl, hevents⟩, rfl⟩
    · exact .inr ⟨_, ⟨hkey, rfl⟩, rfl⟩

theorem sortedIds_perm (aggregateType : String) (db : Db) :
    (sortedIds aggregateType db).Perm (aggregateIds aggregateType db) :=
  List.mergeSort_perm _ _

/-- The listing ascends, without repetition. -/
theorem sortedIds_ascending (aggregateType : String) (db : Db) :
    (sortedIds aggregateType db).Pairwise (· < ·) := by
  have hnodup : ((aggregateIds aggregateType db).map id).Nodup := by
    rw [List.map_id]
    exact List.nodup_dedup _
  have hsorted := Sql.ascending_mergeSort id hnodup
  rwa [List.map_id] at hsorted

theorem newestFirst_perm (rowids : RowIds) (aggregateType : String) (db : Db) :
    (newestFirst rowids aggregateType db).Perm (sortedIds aggregateType db) :=
  List.mergeSort_perm _ _

theorem newestFirst_descending (rowids : RowIds) (aggregateType : String) (db : Db) :
    (newestFirst rowids aggregateType db).Pairwise fun a b =>
      rowids.latest db ⟨aggregateType, b⟩ ≤ rowids.latest db ⟨aggregateType, a⟩ := by
  refine (List.pairwise_mergeSort (fun a b c hab hbc => ?_) (fun a b => ?_) _).imp
    fun {a b} h => by simpa using h
  · simp only [decide_eq_true_eq] at *
    omega
  · simp only [Bool.or_eq_true, decide_eq_true_eq]
    omega

/-- What a query answers for the rows it found: the ids of all of them, or the texts that are none. -/
def Listed (aggregateType : String) (parse : String → Option Id) (rows : List String) :
    Except LoadAllIdsError (List Id) :=
  if ∀ row ∈ rows, (parse row).isSome then .ok (rows.filterMap parse)
  else .error (.invalidIds aggregateType (rows.filter fun row => (parse row).isNone))

theorem foldl_parseRow (parse : String → Option Id) (rows : List String)
    (acc : List Id × List String) :
    rows.foldl (parseRow parse) acc =
      (acc.1 ++ rows.filterMap parse, acc.2 ++ rows.filter fun row => (parse row).isNone) := by
  induction rows generalizing acc with
  | nil => simp
  | cons row rows ih =>
      rw [List.foldl_cons, ih, parseRow]
      cases hrow : parse row <;> simp [hrow]

theorem parseIds_eq (parse : String → Option Id) (rows : List String) :
    parseIds aggregateType parse rows = Listed aggregateType parse rows := by
  have hempty : (rows.filter fun row => (parse row).isNone).isEmpty = true ↔
      ∀ row ∈ rows, (parse row).isSome := by
    simp [List.isEmpty_iff, List.filter_eq_nil_iff, Option.isSome_iff_ne_none]
  unfold parseIds Listed
  rw [foldl_parseRow]
  simp only [List.nil_append, hempty]

end Queries

/-! ## What a commit does to both tables -/

section Commit

open Provenance (RowsAdded jobEntries Entry.event)

variable {db db' : Db} {events : List SerializedEvent} {s : StreamIdentity}

theorem Provenance.RowsAdded.hasEvents (h : RowsAdded db db' events) (hs : db.hasEvents s = true) :
    db'.hasEvents s = true := by
  obtain ⟨q, x, hx⟩ := Db.hasEvents_iff.1 hs
  exact Db.hasEvents_iff.2 ⟨q, x, (h s q x).2 (.inl hx)⟩

theorem Provenance.RowsAdded.hasEvents_of_mem (h : RowsAdded db db' events) {e : SerializedEvent}
    (he : e ∈ events) : db'.hasEvents e.identity = true :=
  Db.hasEvents_iff.2 ⟨e.sequence, e.stored, (h _ _ _).2 (.inr ⟨e, he, rfl, rfl, rfl⟩)⟩

theorem snapshots_foldlM_insertEvent (h : events.foldlM Db.insertEvent db = .ok db') :
    db'.snapshots = db.snapshots := by
  induction events generalizing db with
  | nil =>
      obtain rfl := Except.ok.inj h
      rfl
  | cons e events ih =>
      obtain ⟨db₁, he, hrest⟩ := Except.bind_eq_ok.1 h
      obtain ⟨-, -, hsnapshots, -⟩ := insertEvent_eq_ok he
      exact (ih hrest).trans hsnapshots

/-- The event of a job intent is the first of its stream. -/
theorem sequence_jobEntries {jobs : List EnqueueRequest} {e : SerializedEvent}
    (h : e ∈ (jobEntries jobs).map Entry.event) : e.sequence = 1 := by
  obtain ⟨entry, hentry, rfl⟩ := List.mem_map.1 h
  obtain ⟨job, -, hentry⟩ := List.mem_filterMap.1 hentry
  obtain ⟨event, hevent, rfl⟩ := Option.map_eq_some_iff.1 hentry
  obtain ⟨runAt, -, hrow⟩ := Except.bind_eq_ok.1 (Except.toOption_eq_some.1 hevent)
  obtain rfl := Except.ok.inj hrow
  rfl

/-- **A commit** fails, or adds its rows, and a snapshot it writes stands beside an event of the
stream. -/
theorem commit_adds (fault : Option EngineError) (request : CommitRequest) (db : Db) :
    (commit fault request db).2 = db ∨
      RowsAdded db (commit fault request db).2
          (request.events ++ (jobEntries request.jobs).map Entry.event) ∧
        ∀ s, (commit fault request db).2.snapshots.lookup s = db.snapshots.lookup s ∨
          (commit fault request db).2.hasEvents s = true ∧
            ((commit fault request db).2.snapshots.lookup s).isSome = true := by
  unfold commit
  split_ifs
  · exact .inl rfl
  cases h : (commitSerialized fault request db).1 with
  | error error => exact .inl (commitSerialized_error h)
  | ok u =>
      obtain ⟨hid, -, db₁, db₂, hins, hsnap, hjobs⟩ := commitSerialized_ok h
      have hadded := Provenance.rowsAdded_commitSerialized h
      generalize (commitSerialized fault request db).2 = db' at hadded hjobs ⊢
      have hfirst := snapshots_foldlM_insertEvent (insertSerializedEventsBatch_eq_ok.1 hins).2
      refine .inr ⟨hadded, fun s => ?_⟩
      rw [(foldlM_seedJob_eq_ok hjobs).snapshots]
      rcases (writeSnapshot_eq_ok hsnap).2.2 with ⟨-, hsame⟩ | ⟨update, last, -, hlast, hinsert⟩
      · rw [hsame, hfirst]
        exact .inl rfl
      · rw [hinsert, hfirst]
        by_cases hs : s = request.stream
        · subst hs
          have hmem := List.mem_of_getLast? hlast
          refine .inr ⟨?_, by simp⟩
          exact hid last hmem ▸ hadded.hasEvents_of_mem (List.mem_append_left _ hmem)
        · exact .inl (AList.lookup_insert_ne hs)

end Commit

/-! ## One type under everything that changes its rows -/

namespace Listing

/-- A step of the type's own code, or a snapshot call of a binding on one of its streams. -/
inductive Op where
  | code (op : SchemaSystem.Op)
  | storeSnapshot (fault : Option EngineError) (id : String) (snapshot : SnapshotWrite)
  | discardSnapshot (fault : Option EngineError) (id : String)

def step (aggregateType : String) (σ : SchemaSystem.State) : Op → SchemaSystem.State
  | .code op => SchemaSystem.step aggregateType σ op
  | .storeSnapshot fault id snapshot =>
      { σ with db := (EventSorcery.storeSnapshot fault ⟨aggregateType, id⟩ snapshot σ.db).2 }
  | .discardSnapshot fault id =>
      { σ with db := (EventSorcery.discardSnapshot fault ⟨aggregateType, id⟩ σ.db).2 }

def machine (aggregateType : String) : Machine SchemaSystem.State Op :=
  ⟨⟨.empty, []⟩, step aggregateType⟩

/-- Events are numbered from one, compaction and startups are safe for the compacted streams, and the
snapshot that is all there is of a stream is not discarded. -/
def Safe (aggregateType : String) (σ : SchemaSystem.State) : Op → Prop
  | .code op => SchemaSystem.Safe aggregateType σ op ∧
      match op with
      | .commit _ request => ∀ e ∈ request.events, 1 ≤ e.sequence
      | _ => True
  | .storeSnapshot _ _ _ => True
  | .discardSnapshot _ id => σ.db.hasEvents ⟨aggregateType, id⟩ = true

instance (aggregateType : String) (σ : SchemaSystem.State) :
    ∀ op, Decidable (Safe aggregateType σ op)
  | .code (.commit _ _) => inferInstanceAs (Decidable (_ ∧ ∀ e ∈ _, _))
  | .code (.compact _) => inferInstanceAs (Decidable (_ ∧ True))
  | .code (.reconcile _ _) => inferInstanceAs (Decidable (_ ∧ True))
  | .code (.record _ _) => inferInstanceAs (Decidable (_ ∧ True))
  | .storeSnapshot _ _ _ => inferInstanceAs (Decidable True)
  | .discardSnapshot _ _ => inferInstanceAs (Decidable (_ = _))

/-- The streams in `written` are still there, the compacted ones with their snapshot if nothing else
is left, and no snapshot is of any other stream. -/
structure Inv (aggregateType : String) (written : String → Prop) (σ : SchemaSystem.State) :
    Prop where
  schema : SchemaSystem.Inv aggregateType σ
  numbered : ∀ id q x, σ.db.row ⟨aggregateType, id⟩ q = some x → 1 ≤ q
  present : ∀ id, written id → σ.db.hasEvents ⟨aggregateType, id⟩ = true ∨
    (⟨aggregateType, id⟩ : StreamIdentity) ∈ σ.erased ∧
      (σ.db.snapshots.lookup ⟨aggregateType, id⟩).isSome = true
  snapshots : ∀ id, (σ.db.snapshots.lookup ⟨aggregateType, id⟩).isSome = true → written id

/-- The streams that held an event, once a step has led to `σ`. -/
def Since (aggregateType : String) (written : String → Prop) (σ : SchemaSystem.State) (id : String) :
    Prop :=
  written id ∨ σ.db.hasEvents ⟨aggregateType, id⟩ = true

variable {aggregateType : String} {written : String → Prop} {σ : SchemaSystem.State}

/-- A step that leaves the type's events and removes no snapshot of a compacted stream. -/
theorem Inv.of_rows (h : Inv aggregateType written σ) {db : Db}
    (hschema : SchemaSystem.Inv aggregateType ⟨db, σ.erased⟩)
    (hrow : ∀ id q, db.row ⟨aggregateType, id⟩ q = σ.db.row ⟨aggregateType, id⟩ q)
    (hkept : ∀ id, σ.db.hasEvents ⟨aggregateType, id⟩ = true ∨
      ((⟨aggregateType, id⟩ : StreamIdentity) ∈ σ.erased →
        (σ.db.snapshots.lookup ⟨aggregateType, id⟩).isSome = true →
        (db.snapshots.lookup ⟨aggregateType, id⟩).isSome = true))
    (hsnapshots : ∀ id, (db.snapshots.lookup ⟨aggregateType, id⟩).isSome = true → written id) :
    Inv aggregateType (Since aggregateType written ⟨db, σ.erased⟩) ⟨db, σ.erased⟩ := by
  have hevents : ∀ id, db.hasEvents ⟨aggregateType, id⟩ = σ.db.hasEvents ⟨aggregateType, id⟩ := by
    intro id
    rw [Bool.eq_iff_iff, Db.hasEvents_iff, Db.hasEvents_iff]
    simp only [hrow]
  refine ⟨hschema, fun id q x hx => h.numbered id q x (hrow id q ▸ hx), fun id hid => ?_,
    fun id hid => .inl (hsnapshots id hid)⟩
  rcases hid with hid | hid
  · rcases h.present id hid with hthere | ⟨herased, hsnapshot⟩
    · exact .inl ((hevents id).trans hthere)
    · rcases hkept id with hthere | hkept
      · exact .inl ((hevents id).trans hthere)
      · exact .inr ⟨herased, hkept herased hsnapshot⟩
  · exact .inl hid

theorem Inv.idle (h : Inv aggregateType written σ) :
    Inv aggregateType (Since aggregateType written σ) σ :=
  h.of_rows h.schema (fun _ _ => rfl) (fun _ => .inr fun _ hsome => hsome) h.snapshots

/-- A row that compaction deletes is covered by a snapshot, and its stream is recorded as compacted. -/
theorem erased_of_deleted {policy : CompactionPolicy} {db : Db} {id : String} {q : ℕ}
    {x : StoredEvent} (hx : db.row ⟨aggregateType, id⟩ q = some x) (hq : 1 ≤ q)
    (hgone : (SchemaSystem.compactType aggregateType policy db).row ⟨aggregateType, id⟩ q = none) :
    (⟨aggregateType, id⟩ : StreamIdentity) ∈
        SchemaSystem.changedStreams db (SchemaSystem.compactType aggregateType policy db) ∧
      (db.snapshots.lookup ⟨aggregateType, id⟩).isSome = true := by
  have hchanged : (SchemaSystem.compactType aggregateType policy db).stream ⟨aggregateType, id⟩ ≠
      db.stream ⟨aggregateType, id⟩ := by
    intro heq
    rw [Db.row, heq] at hgone
    rw [Db.row, hgone] at hx
    cases hx
  have hkey := Db.mem_keys_of_hasEvents (Db.hasEvents_iff.2 ⟨q, x, hx⟩)
  refine ⟨List.mem_filter.2 ⟨hkey, by simpa using hchanged⟩, ?_⟩
  cases policy with
  | retain => exact absurd rfl hchanged
  | compactAfterSnapshot =>
      rw [SchemaSystem.compactType, Db.row, stream_deleteCovered, if_pos rfl,
        SeqLog.get?_deleteUpTo] at hgone
      split_ifs at hgone with hcovered
      · by_contra hnone
        simp only [Db.covered, Option.not_isSome_iff_eq_none.1 hnone, Option.map_none,
          Option.getD_none] at hcovered
        omega
      · exact absurd (hgone.symm.trans hx) (by simp)

theorem row_of_compactType {policy : CompactionPolicy} {db : Db} {s : StreamIdentity} {q : ℕ}
    {x : StoredEvent}
    (h : (SchemaSystem.compactType aggregateType policy db).row s q = some x) :
    db.row s q = some x := by
  cases policy with
  | retain => exact h
  | compactAfterSnapshot =>
      rw [SchemaSystem.compactType, Db.row, stream_deleteCovered] at h
      split_ifs at h
      · rw [SeqLog.get?_deleteUpTo] at h
        split_ifs at h
        exact h
      · exact h

/-- Compaction empties a stream only under a snapshot. -/
theorem Inv.compact (h : Inv aggregateType written σ) {policy : CompactionPolicy}
    (hschema : SchemaSystem.Inv aggregateType
      (SchemaSystem.step aggregateType σ (.compact policy))) :
    Inv aggregateType (Since aggregateType written
        (SchemaSystem.step aggregateType σ (.compact policy)))
      (SchemaSystem.step aggregateType σ (.compact policy)) := by
  have hsnapshots : (SchemaSystem.compactType aggregateType policy σ.db).snapshots =
      σ.db.snapshots := by
    cases policy <;> rfl
  refine ⟨hschema, fun id q x hx => h.numbered id q x (row_of_compactType hx), fun id hid => ?_,
    fun id hid => .inl (h.snapshots id (by rwa [← hsnapshots]))⟩
  by_cases hafter : (SchemaSystem.compactType aggregateType policy σ.db).hasEvents
      ⟨aggregateType, id⟩ = true
  · exact .inl hafter
  have hwritten : written id := hid.resolve_right hafter
  change _ ∨ _ ∈ σ.erased ++ _ ∧
    ((SchemaSystem.compactType aggregateType policy σ.db).snapshots.lookup _).isSome = true
  rw [hsnapshots]
  rcases h.present id hwritten with hbefore | ⟨herased, hsnapshot⟩
  · obtain ⟨q, x, hx⟩ := Db.hasEvents_iff.1 hbefore
    have hgone : (SchemaSystem.compactType aggregateType policy σ.db).row ⟨aggregateType, id⟩ q =
        none := by
      by_contra hne
      obtain ⟨y, hy⟩ := Option.ne_none_iff_exists'.1 hne
      exact hafter (Db.hasEvents_iff.2 ⟨q, y, hy⟩)
    obtain ⟨hchanged, hsnapshot⟩ := erased_of_deleted hx (h.numbered id q x hx) hgone
    exact .inr ⟨List.mem_append_right _ hchanged, hsnapshot⟩
  · exact .inr ⟨List.mem_append_left _ herased, hsnapshot⟩

/-- A commit of the type only adds. -/
theorem Inv.commit (h : Inv aggregateType written σ) (fault : Option EngineError)
    (request : CommitRequest) (hnumbered : ∀ e ∈ request.events, 1 ≤ e.sequence)
    (hschema : SchemaSystem.Inv aggregateType
      ⟨(EventSorcery.commit fault request σ.db).2, σ.erased⟩) :
    Inv aggregateType
      (Since aggregateType written ⟨(EventSorcery.commit fault request σ.db).2, σ.erased⟩)
      ⟨(EventSorcery.commit fault request σ.db).2, σ.erased⟩ := by
  rcases commit_adds fault request σ.db with hsame | ⟨hadded, hsnapshots⟩
  · rw [hsame]
    exact h.idle
  generalize (EventSorcery.commit fault request σ.db).2 = db at *
  refine ⟨hschema, fun id q x hx => ?_, fun id hid => ?_, fun id hid => ?_⟩
  · rcases (hadded _ q x).1 hx with hx | ⟨e, he, -, rfl, -⟩
    · exact h.numbered id q x hx
    · rcases List.mem_append.1 he with he | he
      · exact hnumbered e he
      · exact (sequence_jobEntries he).ge
  · rcases hid with hid | hid
    · rcases h.present id hid with hthere | ⟨herased, hsnapshot⟩
      · exact .inl (hadded.hasEvents hthere)
      · rcases hsnapshots ⟨aggregateType, id⟩ with heq | ⟨-, hsome⟩
        · exact .inr ⟨herased, heq ▸ hsnapshot⟩
        · exact .inr ⟨herased, hsome⟩
    · exact .inl hid
  · rcases hsnapshots ⟨aggregateType, id⟩ with heq | ⟨hthere, -⟩
    · exact .inl (h.snapshots id (heq ▸ hid))
    · exact .inr hthere

theorem reconcileTarget_snapshots (target : SchemaTarget) (db : Db) (s : StreamIdentity)
    (h : ((reconcileTarget target db).2.snapshots.lookup s).isSome = true) :
    (db.snapshots.lookup s).isSome = true := by
  unfold reconcileTarget at h
  split at h
  · exact h
  · dsimp only at h
    split_ifs at h
    · exact h
    · exact h
    · rw [clearSnapshots, Table.lookup_filterRows] at h
      cases hrow : db.snapshots.lookup s with
      | none => rw [hrow] at h; cases h
      | some row => rfl

theorem storeSnapshot_of_version_zero {fault : Option EngineError} {s : StreamIdentity}
    {snapshot : SnapshotWrite} {db : Db} (h : committedStreamVersion db s = 0) :
    (EventSorcery.storeSnapshot fault s snapshot db).2 = db := by
  cases fault <;>
    simp [EventSorcery.storeSnapshot, inTransaction, storeSnapshotInTransaction, h, Except.map]

/-- A stream that has a version has held an event. -/
theorem Inv.written_of_version (h : Inv aggregateType written σ) {id : String}
    (hversion : committedStreamVersion σ.db ⟨aggregateType, id⟩ ≠ 0) :
    Since aggregateType written σ id := by
  by_contra hnot
  obtain ⟨hwritten, hevents⟩ := not_or.1 hnot
  have hmax : (σ.db.stream ⟨aggregateType, id⟩).maxSeq ≤ 0 := by
    refine SeqLog.maxSeq_le fun q x hx => ?_
    exact absurd (Db.hasEvents_iff.2 ⟨q, x, hx⟩) hevents
  have hsnapshot : σ.db.snapshots.lookup ⟨aggregateType, id⟩ = none := by
    by_contra hne
    exact hwritten (h.snapshots id (Option.isSome_iff_ne_none.2 hne))
  apply hversion
  rw [committedStreamVersion, hsnapshot]
  simpa using hmax

theorem Inv.storeSnapshot (h : Inv aggregateType written σ) (fault : Option EngineError)
    (id : String) (snapshot : SnapshotWrite) :
    Inv aggregateType
      (Since aggregateType written (step aggregateType σ (.storeSnapshot fault id snapshot)))
      (step aggregateType σ (.storeSnapshot fault id snapshot)) := by
  rw [step]
  rcases storeSnapshot_cases fault ⟨aggregateType, id⟩ snapshot σ.db with hsame | ⟨v, hset, -, -⟩
  · rw [hsame]
    exact h.idle
  by_cases hversion : committedStreamVersion σ.db ⟨aggregateType, id⟩ = 0
  · rw [storeSnapshot_of_version_zero hversion]
    exact h.idle
  have hid := h.written_of_version hversion
  rw [hset]
  refine ⟨h.schema.of_stream _ rfl, h.numbered, fun id' hid' => ?_, fun id' hsome => ?_⟩
  · rcases hid' with hid' | hid'
    · rcases h.present id' hid' with hthere | ⟨herased, hsnapshot⟩
      · exact .inl hthere
      · refine .inr ⟨herased, ?_⟩
        by_cases heq : id' = id
        · subst heq
          simp [Db.setSnapshot]
        · rw [Db.setSnapshot, AList.lookup_insert_ne (by simpa using heq)]
          exact hsnapshot
    · exact .inl hid'
  · by_cases heq : id' = id
    · subst heq
      exact hid
    · rw [Db.setSnapshot, AList.lookup_insert_ne (by simpa using heq)] at hsome
      exact .inl (h.snapshots id' hsome)

theorem Inv.discardSnapshot (h : Inv aggregateType written σ) (fault : Option EngineError)
    (id : String) (hevents : σ.db.hasEvents ⟨aggregateType, id⟩ = true) :
    Inv aggregateType
      (Since aggregateType written (step aggregateType σ (.discardSnapshot fault id)))
      (step aggregateType σ (.discardSnapshot fault id)) := by
  rw [step]
  cases fault with
  | some error =>
      exact h.idle
  | none =>
      change Inv aggregateType (Since aggregateType written ⟨{ σ.db with
        snapshots := σ.db.snapshots.erase ⟨aggregateType, id⟩ }, σ.erased⟩) _
      refine h.of_rows (h.schema.of_stream _ rfl) (fun _ _ => rfl) (fun id' => ?_) fun id' hsome => ?_
      · by_cases heq : id' = id
        · exact .inl (heq ▸ hevents)
        · refine .inr fun _ hsome => ?_
          rwa [AList.lookup_erase_ne (by simpa using heq)]
      · by_cases heq : id' = id
        · subst heq
          rw [AList.lookup_erase] at hsome
          cases hsome
        · rw [AList.lookup_erase_ne (by simpa using heq)] at hsome
          exact h.snapshots id' hsome

/-- **One step** keeps every stream that has held an event in one of the two tables. -/
theorem Inv.step (htype : aggregateType ≠ registryEntity.aggregateType)
    (h : Inv aggregateType written σ) {op : Op} (hsafe : Safe aggregateType σ op) :
    Inv aggregateType (Since aggregateType written (Listing.step aggregateType σ op))
      (Listing.step aggregateType σ op) := by
  cases op with
  | storeSnapshot fault id snapshot => exact h.storeSnapshot fault id snapshot
  | discardSnapshot fault id => exact h.discardSnapshot fault id hsafe
  | code op =>
      have hschema := SchemaSystem.inv_step htype h.schema hsafe.1
      rw [Listing.step]
      cases op with
      | compact policy => exact h.compact hschema
      | commit fault request =>
          rw [SchemaSystem.step] at hschema ⊢
          split_ifs at hschema ⊢
          · exact h.commit fault request hsafe.2 hschema
          · exact h.idle
      | reconcile version policy =>
          have hkeeps := (SchemaSystem.reconcile_keeps_iff h.schema version policy).2 hsafe.1
          refine h.of_rows hschema (fun id q => ?_) (fun id => .inr fun herased hsome => ?_)
            fun id hsome => h.snapshots id (reconcileTarget_snapshots _ _ _ hsome)
          · rw [Db.row, SchemaSystem.stream_reconcileTarget]
            rfl
          · rwa [hkeeps _ herased]
      | record version policy =>
          obtain ⟨events, hregistry⟩ := h.schema.registry
          obtain ⟨hstream, hsnapshots, -⟩ := hregistry.record_frame ⟨aggregateType, version, policy⟩
          refine h.of_rows hschema (fun id q => ?_) (fun id => .inr fun _ hsome => ?_)
            fun id hsome => h.snapshots id ?_
          · rw [Db.row, hstream _ fun heq => htype (congrArg StreamIdentity.aggregateType heq)]
            rfl
          · rwa [hsnapshots]
          · rwa [hsnapshots] at hsome

/-- The streams that held an event at some moment of a history. -/
def Written (aggregateType : String) (ops : List Op) (id : String) : Prop :=
  ∃ past, past <+: ops ∧ ((machine aggregateType).run past).db.hasEvents ⟨aggregateType, id⟩ = true

theorem written_concat (ops : List Op) (op : Op) (id : String) :
    Written aggregateType (ops ++ [op]) id ↔ Since aggregateType (Written aggregateType ops)
      (Listing.step aggregateType ((machine aggregateType).run ops) op) id := by
  have hrun : (machine aggregateType).run (ops ++ [op]) =
      Listing.step aggregateType ((machine aggregateType).run ops) op :=
    Machine.run_concat _ ops op
  constructor
  · rintro ⟨past, hpast, hevents⟩
    rcases List.prefix_concat_iff.1 hpast with rfl | hpast
    · exact .inr (hrun ▸ hevents)
    · exact .inl ⟨past, hpast, hevents⟩
  · rintro (⟨past, hpast, hevents⟩ | hevents)
    · exact ⟨past, hpast.trans (List.prefix_append ops [op]), hevents⟩
    · exact ⟨ops ++ [op], List.prefix_refl _, hrun ▸ hevents⟩

theorem inv_run (htype : aggregateType ≠ registryEntity.aggregateType) {ops : List Op}
    (h : (machine aggregateType).Meets (Safe aggregateType) (machine aggregateType).init ops) :
    Inv aggregateType (Written aggregateType ops) ((machine aggregateType).run ops) := by
  induction ops using List.reverseRecOn with
  | nil =>
      refine ⟨SchemaSystem.inv_init, fun _ _ _ hx => ?_, fun id hid => ?_, fun _ hsome => ?_⟩
      · cases hx
      · obtain ⟨past, hpast, hevents⟩ := hid
        obtain rfl := List.prefix_nil.1 hpast
        exact .inl hevents
      · cases hsome
  | append_singleton ops op ih =>
      have hstep := (ih h.of_append).step htype h.after.1
      rw [Machine.run_concat]
      have hwritten : Written aggregateType (ops ++ [op]) = Since aggregateType
          (Written aggregateType ops)
          (Listing.step aggregateType ((machine aggregateType).run ops) op) :=
        funext fun id => propext (written_concat ops op id)
      rw [hwritten]
      exact hstep

/-- After every safe history of a type, its listing ascends and has exactly the ids of the streams
that held an event at some moment, whatever compaction has left of them. The count is its length,
`load_all_ids` parses it, and the pages of any size are windows on one order of it that puts the latest
rows first. -/
theorem listing_is_complete {Id : Type} (aggregateType : String)
    (htype : aggregateType ≠ registryEntity.aggregateType) (ops : List Op)
    (h : (machine aggregateType).Meets (Safe aggregateType) (machine aggregateType).init ops)
    (parse : String → Option Id) (rowids : RowIds) :
    ∃ rows order : List String,
      rows.Pairwise (· < ·) ∧
      (∀ id, id ∈ rows ↔ Written aggregateType ops id) ∧
      countAggregates aggregateType ((machine aggregateType).run ops).db = rows.length ∧
      loadAllIds aggregateType parse ((machine aggregateType).run ops).db =
        Listed aggregateType parse rows ∧
      order.Perm rows ∧
      (order.Pairwise fun a b =>
        rowids.latest ((machine aggregateType).run ops).db ⟨aggregateType, b⟩ ≤
          rowids.latest ((machine aggregateType).run ops).db ⟨aggregateType, a⟩) ∧
      ∀ limit ≤ i64Max, ∀ offset ≤ i64Max,
        loadIdsPaginated rowids aggregateType parse limit offset
            ((machine aggregateType).run ops).db =
          Listed aggregateType parse ((order.drop offset).take limit) := by
  have hinv := inv_run htype h
  refine ⟨sortedIds aggregateType _, newestFirst rowids aggregateType _, sortedIds_ascending _ _,
    fun id => ?_, (sortedIds_perm _ _).length_eq.symm, parseIds_eq parse _, newestFirst_perm _ _ _,
    newestFirst_descending _ _ _, fun limit hlimit offset hoffset => ?_⟩
  · rw [(sortedIds_perm _ _).mem_iff, mem_aggregateIds]
    constructor
    · rintro (hevents | hsnapshot)
      · exact ⟨ops, List.prefix_refl ops, hevents⟩
      · exact hinv.snapshots id hsnapshot
    · intro hid
      exact (hinv.present id hid).imp_right And.right
  · rw [loadIdsPaginated, if_pos ⟨hlimit, hoffset⟩, parseIds_eq]

/-- A type that is registered, written and compacted, and gets a second stream. -/
def compactedHistory : List Op :=
  SchemaSystem.registeredHistory.map .code ++
    [.code (.commit none ⟨⟨"inventory", "b"⟩, none,
      [⟨"b", 1, "inventory", "Counted", "1.0", .int 3, .obj []⟩], none, []⟩),
    .discardSnapshot none "b", .code (.reconcile 2 .compactAfterSnapshot)]

theorem compacted_stream_is_listed :
    ((machine "inventory").run compactedHistory).db.hasEvents ⟨"inventory", "a"⟩ = false ∧
      ∃ rows order : List String, rows.Pairwise (· < ·) ∧
        (∀ id, id ∈ rows ↔ Written "inventory" compactedHistory id) ∧
        countAggregates "inventory" ((machine "inventory").run compactedHistory).db = rows.length ∧
        loadAllIds "inventory" some ((machine "inventory").run compactedHistory).db =
          Listed "inventory" some rows ∧
        order.Perm rows ∧
        (order.Pairwise fun a b =>
          (⟨fun _ q => q, fun _ => 9⟩ : RowIds).latest
              ((machine "inventory").run compactedHistory).db ⟨"inventory", b⟩ ≤
            (⟨fun _ q => q, fun _ => 9⟩ : RowIds).latest
              ((machine "inventory").run compactedHistory).db ⟨"inventory", a⟩) ∧
        ∀ limit ≤ i64Max, ∀ offset ≤ i64Max,
          loadIdsPaginated ⟨fun _ q => q, fun _ => 9⟩ "inventory" some limit offset
              ((machine "inventory").run compactedHistory).db =
            Listed "inventory" some ((order.drop offset).take limit) :=
  ⟨by decide +kernel, listing_is_complete "inventory" (by decide) compactedHistory
    (by decide +kernel) some ⟨fun _ q => q, fun _ => 9⟩⟩

-- Without the condition on startups a stream is lost to the listing: this type was compacted before it
-- was registered.
example :
    let ops := SchemaSystem.unregisteredHistory.map .code ++
      [.code (.reconcile 1 .compactAfterSnapshot)]
    Written "inventory" ops "a" ∧
      countAggregates "inventory" ((machine "inventory").run ops).db = 0 :=
  ⟨⟨[.code SchemaSystem.snapshotCommit], List.prefix_append [_] _, by decide +kernel⟩,
    by decide +kernel⟩

end Listing

end EventSorcery
