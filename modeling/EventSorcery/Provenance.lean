import EventSorcery.Pages
import EventSorcery.Repository
import EventSorcery.Lib.Machine

/-!
# Native and opaque events in one table

A native commit stores its own JSON; an opaque commit stores bytes in an envelope, and marks the row's
metadata. The page API tells the two apart by the mark alone. A native commit whose metadata uses the
mark's key is refused, so that after any run of commits a page holds the bytes of every opaque event
and the JSON text of every native one, a payload that looks like an envelope included.
-/

namespace EventSorcery

namespace Provenance

/-- What was committed under a number: an event with its own JSON, or one with bytes. -/
inductive Written where
  | native (event : StoredEvent)
  | erased (event : OpaqueProposedEvent)

structure Entry where
  stream : StreamIdentity
  sequence : ℕ
  written : Written

/-- The row of an event. -/
def Written.stored : Written → StoredEvent
  | native event => event
  | erased event => event.stored

def Entry.event (entry : Entry) : SerializedEvent :=
  entry.written.stored.serialized entry.stream entry.sequence

/-- An event as its committer would read it: bytes as they were given, JSON as its text. -/
def Written.shown (double : UInt64 → List UInt8) (q : ℕ) : Written → OpaqueStoredEvent
  | native event => ⟨q, event.eventType, event.eventVersion, event.payload.compact double⟩
  | erased event => event.numbered q

def nativeEntry (e : SerializedEvent) : Entry := ⟨e.identity, e.sequence, .native e.stored⟩

/-- The entries of a commit's job intents. -/
def jobEntries (jobs : List EnqueueRequest) : List Entry :=
  jobs.filterMap fun job => (enqueuedEvent job).toOption.map nativeEntry

def nativeEntries (request : CommitRequest) : List Entry :=
  request.events.map nativeEntry ++ jobEntries request.jobs

/-- The events of an opaque commit get the numbers after the version it expects. -/
def erasedEntries (request : OpaqueCommitRequest) : List Entry :=
  (request.events.zipIdx.map fun (event, index) =>
    ⟨request.stream, request.expectedVersion + 1 + index, .erased event⟩) ++ jobEntries request.jobs

/-- The database, and everything that was committed to it. -/
structure State where
  db : Db
  committed : List Entry

inductive Op where
  | commit (fault : Option EngineError) (request : CommitRequest)
  | commitOpaque (fault : Option EngineError) (request : OpaqueCommitRequest)

/-- Record the entries of a commit that is accepted. -/
def State.after (s : State) (entries : List Entry) : Except EngineError Unit × Db → State
  | (.ok (), db) => ⟨db, s.committed ++ entries⟩
  | (.error _, db) => ⟨db, s.committed⟩

def step (s : State) : Op → State
  | .commit fault request =>
      s.after (nativeEntries request) (EventSorcery.commit fault request s.db)
  | .commitOpaque fault request =>
      s.after (erasedEntries request) (EventSorcery.commitOpaque fault request s.db)

/-- Native and opaque commits on any streams of one database. -/
def machine : Machine State Op := ⟨⟨.empty, []⟩, step⟩

/-! ## The rows that commits add -/

/-- The rows of these events are new, and nothing else changed. -/
def RowsAdded (db db' : Db) (events : List SerializedEvent) : Prop :=
  ∀ s q x, db'.row s q = some x ↔
    db.row s q = some x ∨ ∃ e ∈ events, e.identity = s ∧ e.sequence = q ∧ e.stored = x

section Rows

variable {db db' db'' : Db} {events events' : List SerializedEvent}

theorem RowsAdded.refl (db : Db) : RowsAdded db db [] := fun s q x => by simp

theorem RowsAdded.trans (h : RowsAdded db db' events) (h' : RowsAdded db' db'' events') :
    RowsAdded db db'' (events ++ events') := fun s q x => by
  rw [h', h, or_assoc]
  simp only [List.mem_append, or_and_right, exists_or]

theorem rowsAdded_insertEvent {e : SerializedEvent} (h : db.insertEvent e = .ok db') :
    RowsAdded db db' [e] := fun s q x => by
  obtain ⟨hfree, hrow, -, -⟩ := insertEvent_eq_ok h
  rw [hrow]
  split_ifs with hkey
  · obtain ⟨rfl, rfl⟩ := hkey
    simp [hfree]
  · have hne : ¬ (e.identity = s ∧ e.sequence = q) := fun ⟨hs, hq⟩ => hkey ⟨hs.symm, hq.symm⟩
    simp only [List.mem_singleton, exists_eq_left]
    exact ⟨.inl, fun h => h.resolve_right fun h' => hne ⟨h'.1, h'.2.1⟩⟩

theorem rowsAdded_foldlM (h : events.foldlM Db.insertEvent db = .ok db') :
    RowsAdded db db' events := by
  induction events generalizing db with
  | nil =>
      obtain rfl := Except.ok.inj h
      exact .refl _
  | cons e events ih =>
      obtain ⟨db₁, he, hrest⟩ := Except.bind_eq_ok.1 h
      exact (rowsAdded_insertEvent he).trans (ih hrest)

theorem rowsAdded_seedJob {job : EnqueueRequest} (h : seedJob db job = .ok db') :
    RowsAdded db db' ((jobEntries [job]).map Entry.event) := by
  obtain ⟨event, hevent, h⟩ := Except.bind_eq_ok.1 h
  obtain ⟨db₁, hins, h⟩ := Except.bind_eq_ok.1 h
  obtain ⟨payload, -, h⟩ := Except.bind_eq_ok.1 h
  have hentry : (jobEntries [job]).map Entry.event = [event] := by
    simp [jobEntries, Except.mapError_eq_ok.1 hevent, Except.toOption, nativeEntry, Entry.event,
      Written.stored]
  have hadded := rowsAdded_foldlM (insertSerializedEventsBatch_eq_ok.1
    (Except.mapError_eq_ok.1 hins)).2
  rw [hentry]
  split at h
  · cases h
  · obtain rfl := Except.ok.inj h
    exact hadded

theorem rowsAdded_seedJobs {jobs : List EnqueueRequest} (h : jobs.foldlM seedJob db = .ok db') :
    RowsAdded db db' ((jobEntries jobs).map Entry.event) := by
  induction jobs generalizing db with
  | nil =>
      obtain rfl := Except.ok.inj h
      exact .refl _
  | cons job jobs ih =>
      obtain ⟨db₁, hjob, hrest⟩ := Except.bind_eq_ok.1 h
      have hsplit : jobEntries (job :: jobs) = jobEntries [job] ++ jobEntries jobs := by
        simp only [jobEntries, ← List.filterMap_append, List.singleton_append]
      rw [hsplit, List.map_append]
      exact (rowsAdded_seedJob hjob).trans (ih hrest)

theorem rowsAdded_commitSerialized {fault : Option EngineError} {request : CommitRequest}
    (h : (commitSerialized fault request db).1 = .ok ()) :
    RowsAdded db (commitSerialized fault request db).2
      (request.events ++ (jobEntries request.jobs).map Entry.event) := by
  obtain ⟨-, -, db₁, db₂, hins, hsnap, hjobs⟩ := commitSerialized_ok h
  have hadded := rowsAdded_foldlM (insertSerializedEventsBatch_eq_ok.1 hins).2
  have hsame : ∀ s q, db₂.row s q = db₁.row s q := fun s q => by
    rw [Db.row, (writeSnapshot_eq_ok hsnap).1, Db.row]
  have hevents : RowsAdded db db₂ request.events := fun s q x => by
    rw [hsame]
    exact hadded s q x
  exact hevents.trans (rowsAdded_seedJobs hjobs)

end Rows

/-! ## The mark -/

/-- A native event does not use the mark's key. -/
def Written.Accepted : Written → Prop
  | native event => reservesEnginePayload event.metadata = false
  | erased _ => True

/-- What has the mark uses its key. -/
theorem reserves_of_hasProvenance {metadata : Json}
    (h : hasEnginePayloadProvenance metadata = true) : reservesEnginePayload metadata = true := by
  unfold hasEnginePayloadProvenance at h
  split at h
  · simp only [decide_eq_true_eq] at h
    simp [reservesEnginePayload, h.1]
  · cases h

theorem decodeOpaqueEvent_written {double : UInt64 → List UInt8} {w : Written} (hw : w.Accepted)
    (s : StreamIdentity) (q : ℕ) :
    decodeOpaqueEvent double (w.stored.serialized s q) = .ok (w.shown double q) := by
  cases w with
  | native event =>
      have hmark : ¬ hasEnginePayloadProvenance event.metadata = true := fun h => by
        rw [Written.Accepted, reserves_of_hasProvenance h] at hw
        cases hw
      have hpayload : payloadBytes double (event.serialized s q) = .ok (event.payload.compact double) :=
        if_neg hmark
      rw [Written.stored, decodeOpaqueEvent, hpayload]
      rfl
  | erased event => exact decodeOpaqueEvent_stored event s q

/-! ## What a run keeps -/

/-- The table holds what was committed, and no native event uses the mark's key. -/
structure Inv (s : State) : Prop where
  rows : RowsAdded .empty s.db (s.committed.map Entry.event)
  accepted : ∀ entry ∈ s.committed, entry.written.Accepted

theorem event_nativeEntry (e : SerializedEvent) : (nativeEntry e).event = e :=
  SerializedEvent.serialized_stored e

theorem map_event_nativeEntries (request : CommitRequest) :
    (nativeEntries request).map Entry.event =
      request.events ++ (jobEntries request.jobs).map Entry.event := by
  have hid : Entry.event ∘ nativeEntry = id := funext event_nativeEntry
  rw [nativeEntries, List.map_append, List.map_map, hid, List.map_id]

theorem map_event_erasedEntries (request : OpaqueCommitRequest) :
    (erasedEntries request).map Entry.event =
      consecutive request.stream (request.expectedVersion + 1)
        (request.events.map OpaqueProposedEvent.stored) ++
        (jobEntries request.jobs).map Entry.event := by
  rw [erasedEntries, List.map_append, List.map_map]
  congr 1
  refine List.ext_getElem? fun i => ?_
  rw [getElem?_consecutive, List.getElem?_map, List.getElem?_map, List.getElem?_zipIdx]
  cases request.events[i]? with
  | none => rfl
  | some event => simp [Entry.event, Written.stored]

/-- The events of job intents carry no metadata. -/
theorem accepted_jobEntries {jobs : List EnqueueRequest} {entry : Entry}
    (h : entry ∈ jobEntries jobs) : entry.written.Accepted := by
  obtain ⟨job, -, hentry⟩ := List.mem_filterMap.1 h
  obtain ⟨event, hevent, rfl⟩ := Option.map_eq_some_iff.1 hentry
  obtain ⟨runAt, -, hrow⟩ := Except.bind_eq_ok.1 (Except.toOption_eq_some.1 hevent)
  obtain rfl := Except.ok.inj hrow
  rfl

theorem accepted_nativeEntries {request : CommitRequest}
    (h : ¬ request.events.any fun e => reservesEnginePayload e.metadata) {entry : Entry}
    (hentry : entry ∈ nativeEntries request) : entry.written.Accepted := by
  rcases List.mem_append.1 hentry with hentry | hentry
  · obtain ⟨e, he, rfl⟩ := List.mem_map.1 hentry
    simp only [List.any_eq_true, not_exists, not_and, Bool.not_eq_true] at h
    exact h e he
  · exact accepted_jobEntries hentry

theorem accepted_erasedEntries {request : OpaqueCommitRequest} {entry : Entry}
    (hentry : entry ∈ erasedEntries request) : entry.written.Accepted := by
  rcases List.mem_append.1 hentry with hentry | hentry
  · obtain ⟨_, -, rfl⟩ := List.mem_map.1 hentry
    trivial
  · exact accepted_jobEntries hentry

/-- A commit that is refused changes nothing, and one that is accepted adds the rows of its entries. -/
theorem Inv.after {s : State} (inv : Inv s) {entries : List Entry}
    {result : Except EngineError Unit × Db}
    (herror : ∀ error, result.1 = .error error → result.2 = s.db)
    (hrows : result.1 = .ok () → RowsAdded s.db result.2 (entries.map Entry.event))
    (haccepted : result.1 = .ok () → ∀ entry ∈ entries, entry.written.Accepted) :
    Inv (s.after entries result) := by
  obtain ⟨verdict, db⟩ := result
  cases verdict with
  | error error =>
      obtain rfl : db = s.db := herror error rfl
      exact ⟨inv.rows, inv.accepted⟩
  | ok _ =>
      refine ⟨?_, List.forall_mem_append.2 ⟨inv.accepted, haccepted rfl⟩⟩
      change RowsAdded .empty db ((s.committed ++ entries).map Entry.event)
      rw [List.map_append]
      exact inv.rows.trans (hrows rfl)

theorem Inv.step {s : State} (inv : Inv s) (op : Op) : Inv (step s op) := by
  cases op with
  | commit fault request =>
      rw [Provenance.step, commit]
      split_ifs with hreserved
      · exact ⟨inv.rows, inv.accepted⟩
      · refine inv.after (fun error => commitSerialized_error) (fun hok => ?_)
          fun _ entry => accepted_nativeEntries hreserved
        rw [map_event_nativeEntries]
        exact rowsAdded_commitSerialized hok
  | commitOpaque fault request =>
      rw [Provenance.step, commitOpaque]
      split
      · exact ⟨inv.rows, inv.accepted⟩
      next events hevents =>
        refine inv.after (fun error => commitSerialized_error) (fun hok => ?_)
          fun _ entry => accepted_erasedEntries
        rw [map_event_erasedEntries, ← serializeOpaque_eq_ok hevents]
        exact rowsAdded_commitSerialized hok

theorem inv_run (ops : List Op) : Inv (machine.run ops) :=
  Machine.run_invariant (P := Inv) ⟨.refl _, List.forall_mem_nil _⟩ (fun _ op inv => inv.step op) ops

theorem Inv.row_eq_some {s : State} (inv : Inv s) {stream : StreamIdentity} {q : ℕ}
    {x : StoredEvent} :
    s.db.row stream q = some x ↔ ∃ w, ⟨stream, q, w⟩ ∈ s.committed ∧ w.stored = x := by
  rw [inv.rows]
  have hempty : Db.row .empty stream q = none := rfl
  simp only [hempty, reduceCtorEq, false_or, List.mem_map]
  constructor
  · rintro ⟨_, ⟨⟨stream, q, w⟩, hentry, rfl⟩, rfl, rfl, rfl⟩
    exact ⟨w, hentry, rfl⟩
  · rintro ⟨w, hentry, rfl⟩
    exact ⟨_, ⟨_, hentry, rfl⟩, rfl, rfl, rfl⟩

/-! ## Loading a page -/

/-- The rows of a stream after a cursor. -/
def rowsAfter (log : SeqLog StoredEvent) : Option ℕ → List (ℕ × StoredEvent)
  | none => log.rows
  | some q => log.after q

theorem mem_rowsAfter {log : SeqLog StoredEvent} {after : Option ℕ} {r : ℕ × StoredEvent} :
    r ∈ rowsAfter log after ↔ (∀ q ∈ after, q < r.1) ∧ log.get? r.1 = some r.2 := by
  rw [SeqLog.get?_eq_some]
  cases after with
  | none => simp [rowsAfter]
  | some q => simp [rowsAfter, SeqLog.after, and_comm]

theorem sorted_rowsAfter (log : SeqLog StoredEvent) (after : Option ℕ) :
    (rowsAfter log after).Pairwise fun a b => a.1 < b.1 := by
  cases after with
  | none => exact log.sorted
  | some q => exact log.sorted.filter _

/-- A load whose rows all decode. -/
theorem loadOpaqueEventsPageBounded_of_mapM {double : UInt64 → List UInt8} {db : Db}
    {stream : StreamIdentity} {after : Option ℕ} {itemLimit byteLimit : ℕ}
    {events : List OpaqueStoredEvent}
    (h : (pageRows (db.stream stream) after itemLimit).mapM
      (fun r => decodeOpaqueEvent double (r.2.serialized stream r.1)) = .ok events) :
    let observed := ((pageRows (db.stream stream) after itemLimit).map
      fun r => storageBytes double stream r.2).sum
    loadOpaqueEventsPageBounded double stream after itemLimit byteLimit db =
      if i64Max < after.getD 0 then .error .integer
      else if byteLimit < observed then .error (.eventPageTooLarge observed byteLimit)
      else .ok events := by
  intro observed
  rw [loadOpaqueEventsPageBounded, loadEventsPageBounded]
  change (if _ then _ else if byteLimit < observed then _ else _ : Except EngineError _) >>= _ = _
  split_ifs
  · rfl
  · rfl
  · change ((pageRows (db.stream stream) after itemLimit).map
      fun r => r.2.serialized stream r.1).mapM (decodeOpaqueEvent double) = _
    rw [List.mapM_map]
    exact h

end Provenance

end EventSorcery
