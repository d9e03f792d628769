import EventSorcery.Repository

/-!
# Projections

A view table holds one row per aggregate: its serialized lifecycle and the version it was folded
to. Three writers touch it: the reactor (`reactLoad`, `reactUpdate`), which applies one event by a
compare-and-swap on the version and gives up after ten retries; startup catch-up, which replays
what a row misses; and, for `job_queue`, the engine itself. The reactor and catch-up never write the
lease column.
-/

namespace EventSorcery

/-- A view table. -/
abbrev ViewTable := Table String ViewRow

/-- The version a view update expects. -/
structure ViewContext where
  viewId : String
  version : ℤ

inductive ProjectionError where
  | serde (aggregateId : String)
  | persistence (error : PersistenceError)
  deriving DecidableEq, Repr

theorem mem_events_of_stream {db : Db} {s : StreamIdentity} (h : (db.stream s).rows ≠ []) :
    ⟨s, db.stream s⟩ ∈ db.events.entries := by
  rw [← AList.mem_lookup_iff, Db.stream]
  cases hl : db.events.lookup s with
  | none => rw [Db.stream, hl] at h; exact absurd rfl h
  | some log => rfl

theorem stream_of_mem_events {db : Db} {s : StreamIdentity} {log : SeqLog StoredEvent}
    (h : ⟨s, log⟩ ∈ db.events.entries) : db.stream s = log := by
  rw [Db.stream, AList.mem_lookup_iff.2 h]
  rfl

section Views

variable {Entity Event Command Error : Type} (E : EventSourced Entity Event Command Error)

def loadWithContext (view : ViewTable) (viewId : String) :
    Except PersistenceError (Option (Lifecycle Entity Event Error × ViewContext)) :=
  match view.lookup viewId with
  | none => .ok none
  | some row =>
      match Lifecycle.ofJson E row.payload with
      | none => .error .deserialization
      | some lifecycle => .ok (some (lifecycle, ⟨viewId, row.version⟩))

/-- Version 0 inserts; any other version updates the row only if it still has that version. -/
def updateView (view : ViewTable) (lifecycle : Lifecycle Entity Event Error)
    (context : ViewContext) : Except PersistenceError ViewTable :=
  let payload := lifecycle.toJson E
  if context.version = 0 then
    match view.lookup context.viewId with
    | some _ => .error .connection
    | none => .ok (view.insert context.viewId ⟨wrapI64 (context.version + 1), payload, none⟩)
  else
    match view.lookup context.viewId with
    | some row =>
        if row.version = context.version then
          .ok (view.insert context.viewId ⟨wrapI64 (context.version + 1), payload, row.leaseUntil⟩)
        else .error .optimisticLock
    | none => .error .optimisticLock

/-! ## The reactor -/

def retryMaxAttempts : ℕ := 10

/-- A reactor call in flight: the event it applies, how often it has retried, and the row it has
loaded, if any. -/
structure ReactTask (Entity Event Error : Type) where
  viewId : String
  event : Event
  attempt : ℕ
  loaded : Option (Lifecycle Entity Event Error × ViewContext)

/-- Retry after a conflict or a busy database, up to the limit; `none` ends the call with its
update lost. -/
def ReactTask.retry (task : ReactTask Entity Event Error) : Option (ReactTask Entity Event Error) :=
  if task.attempt < retryMaxAttempts then
    some { task with attempt := task.attempt + 1, loaded := none }
  else none

/-- Load the row; a row that does not decode ends the call. -/
def reactLoad (view : ViewTable) (task : ReactTask Entity Event Error) :
    Option (ReactTask Entity Event Error) :=
  match loadWithContext E view task.viewId with
  | .error _ => none
  | .ok none => some { task with loaded := some (.uninitialized, ⟨task.viewId, 0⟩) }
  | .ok (some loaded) => some { task with loaded := some loaded }

/-- Apply the event to the loaded lifecycle and write it back; `none` ends the call. -/
def reactUpdate (view : ViewTable) (task : ReactTask Entity Event Error)
    (loaded : Lifecycle Entity Event Error × ViewContext) :
    Option (ReactTask Entity Event Error) × ViewTable :=
  match updateView E view (loaded.1.apply E task.event) loaded.2 with
  | .ok view' => (none, view')
  | .error .optimisticLock => (task.retry, view)
  | .error _ => (none, view)

/-- A reactor call during which nothing else runs. -/
def reactAlone (view : ViewTable) (viewId : String) (event : Event) : ViewTable :=
  match reactLoad E view ⟨viewId, event, 0, none⟩ with
  | none => view
  | some task =>
      match task.loaded with
      | none => view
      | some loaded => (reactUpdate E view task loaded).2

/-! ## Catch-up -/

/-- Decode stored events in order and apply them. -/
def applyPayloads (lifecycle : Lifecycle Entity Event Error) :
    List StoredEvent → Option (Lifecycle Entity Event Error)
  | [] => some lifecycle
  | x :: xs =>
      match E.eventCodec.decode x.payload with
      | none => none
      | some event => applyPayloads (lifecycle.apply E event) xs

/-- Stored events of the entity decode to themselves. -/
theorem applyPayloads_stored (lifecycle : Lifecycle Entity Event Error) (events : List Event) :
    applyPayloads E lifecycle (events.map E.stored) = some (lifecycle.applyAll E events) := by
  induction events generalizing lifecycle with
  | nil => rfl
  | cons event events ih =>
      have hdec : E.eventCodec.decode (E.stored event).payload = some event :=
        E.eventCodec.decode_encode event
      rw [List.map_cons, applyPayloads, hdec]
      exact ih _

/-- Replay what one row misses and write it at the stream's largest sequence number. A missing or
undecodable row is replayed from the first event. -/
def replayMissedEvents (log : SeqLog StoredEvent) (view : ViewTable) (viewId : String)
    (viewVersion : ℤ) (maxSeq : ℕ) : Except ProjectionError ViewTable :=
  let (lifecycle, replayFrom) :=
    match loadWithContext E view viewId with
    | .ok (some (lifecycle, _)) => (lifecycle, viewVersion)
    | _ => (.uninitialized, 0)
  let missed := (log.rows.filter fun r => replayFrom < r.1).map Prod.snd
  match applyPayloads E lifecycle missed with
  | none => .error (.serde viewId)
  | some lifecycle =>
      let lease := (view.lookup viewId).bind ViewRow.leaseUntil
      .ok (view.insert viewId ⟨maxSeq, lifecycle.toJson E, lease⟩)

/-- What catch-up has to do for one stream: nothing, or bring the row of its aggregate from the
row's version to the stream's largest sequence number. -/
def staleAggregate (view : ViewTable) (s : StreamIdentity) (log : SeqLog StoredEvent) :
    Option (String × Option ℤ × ℕ) :=
  if s.aggregateType = E.aggregateType ∧ log.rows ≠ [] then
    match view.lookup s.aggregateId with
    | none => some (s.aggregateId, none, log.maxSeq)
    | some row =>
        if row.version < log.maxSeq then some (s.aggregateId, some row.version, log.maxSeq)
        else none
  else none

/-- The aggregates whose row is missing or behind. -/
def staleAggregates (events : Table StreamIdentity (SeqLog StoredEvent)) (view : ViewTable) :
    List (String × Option ℤ × ℕ) :=
  events.entries.filterMap fun entry => staleAggregate E view entry.1 entry.2

theorem staleAggregate_eq_some {view : ViewTable} {s : StreamIdentity} {log : SeqLog StoredEvent}
    {item : String × Option ℤ × ℕ} (h : staleAggregate E view s log = some item) :
    s = E.stream item.1 ∧ log.rows ≠ [] ∧
      item.2 = ((view.lookup item.1).map ViewRow.version, log.maxSeq) := by
  unfold staleAggregate at h
  split_ifs at h with hs
  have hstream : s = E.stream s.aggregateId := by rw [EventSourced.stream, ← hs.1]
  split at h
  next hrow =>
    obtain rfl := Option.some.inj h
    exact ⟨hstream, hs.2, by simp [hrow]⟩
  next row hrow =>
    split_ifs at h
    obtain rfl := Option.some.inj h
    exact ⟨hstream, hs.2, by simp [hrow]⟩

/-- No aggregate is listed twice. -/
theorem nodup_staleAggregates (events : Table StreamIdentity (SeqLog StoredEvent))
    (view : ViewTable) : ((staleAggregates E events view).map Prod.fst).Nodup := by
  rw [List.Nodup, List.pairwise_map, staleAggregates, List.pairwise_filterMap]
  refine (List.nodupKeys_iff_pairwise.1 events.nodupKeys).imp ?_
  intro entry entry' hne item hitem item' hitem' heq
  refine hne ?_
  rw [(staleAggregate_eq_some E hitem).1, (staleAggregate_eq_some E hitem').1, heq]

/-- Catch up the listed aggregates one after the other; the first failure stops it, and what was
caught up before stays. -/
def catchUpLoop (db : Db) : List (String × Option ℤ × ℕ) → ViewTable →
    Except ProjectionError Unit × ViewTable
  | [], view => (.ok (), view)
  | (id, version, maxSeq) :: rest, view =>
      match replayMissedEvents E (db.stream (E.stream id)) view id (version.getD 0) maxSeq with
      | .error error => (.error error, view)
      | .ok view' => catchUpLoop db rest view'

/-- Catch-up reads only the streams of the database it is given. -/
theorem catchUpLoop_congr {db db' : Db} (h : db'.stream = db.stream)
    (items : List (String × Option ℤ × ℕ)) (view : ViewTable) :
    catchUpLoop E db' items view = catchUpLoop E db items view := by
  induction items generalizing view with
  | nil => rfl
  | cons item items ih =>
      obtain ⟨id, version, maxSeq⟩ := item
      simp only [catchUpLoop, h, ih]

/-- Catch up a view table with the events. -/
def catchUp (db : Db) (view : ViewTable) : Except ProjectionError Unit × ViewTable :=
  catchUpLoop E db (staleAggregates E db.events view) view

end Views

end EventSorcery
