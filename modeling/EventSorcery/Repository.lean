import EventSorcery.Commit

/-!
# The event repository of the native store

How a command reaches the database: the jobs its handler dispatched wait in a task-local buffer,
`persist` encodes them into the commit's job intents, and drains the buffer only once the commit is
durable. Around it stands the framework that calls it (`CqrsEs`): it loads a snapshot and the later
events, hands the command to the aggregate, numbers the resulting events and writes a snapshot of
the first `k` of them.
-/

namespace EventSorcery

/-- Errors the repository reports to the framework. `panicked` is the unwinding of a command whose
clock arithmetic overflowed. -/
inductive PersistenceError where
  | optimisticLock
  | connection
  | deserialization
  | unknown
  | panicked
  deriving DecidableEq, Repr

def PersistenceError.ofEngine : EngineError → PersistenceError
  | .optimisticLock => .optimisticLock
  | .sql => .connection
  | .json => .deserialization
  | _ => .unknown

/-! ## The pending buffer -/

/-- A job's due time in milliseconds, from the clock in nanoseconds and an optional delay. A delay
beyond the duration type is an error; a sum beyond the date-time range panics. -/
def resolveRunAtMs (now : ℤ) : Option ℕ → Except PersistenceError ℤ
  | none => .ok (now / 1000000)
  | some delay =>
      if i64Max * 1000000 < delay then .error .unknown
      else if InstantRange ((now + delay) / 1000000) then .ok ((now + delay) / 1000000)
      else .error .panicked

/-- Encode one buffered push. -/
def encodePush (now : ℤ) (push : PendingPush) : Except PersistenceError EnqueueRequest :=
  match push.payload with
  | none => .error .unknown
  | some payload =>
      (resolveRunAtMs now push.delay).map fun runAtMs => ⟨push.jobId, push.kind, payload, runAtMs⟩

/-- Encode the buffered pushes without removing them; `clock i` is what the clock shows for the
`i`th. The count is `none` outside a command's scope. -/
def preparePending (clock : ℕ → ℤ) :
    PendingScope → Except PersistenceError (List EnqueueRequest × Option ℕ)
  | none => .ok ([], none)
  | some pending =>
      (pending.zipIdx.mapM fun (push, i) => encodePush (clock i) push).map fun requests =>
        (requests, some pending.length)

/-- Remove the prepared pushes from the front of the buffer. -/
def markCommitted : Option ℕ → PendingScope → PendingScope
  | some count, some pending => some (pending.drop count)
  | _, scope => scope

/-- The aggregate a persist call writes: the snapshot's, or else the first event's. -/
def persistedAggregateId (events : List SerializedEvent)
    (snapshotUpdate : Option (String × SnapshotUpdate)) : String :=
  match snapshotUpdate with
  | some update => update.1
  | none => (events.head?.map SerializedEvent.aggregateId).getD ""

/-- Write a command's events, with the snapshot the framework asks for and the jobs in the buffer.
No expected version is attached: only a taken sequence number reports a conflict. -/
def persist (fault : Option EngineError) (clock : ℕ → ℤ) (aggregateType : String)
    (events : List SerializedEvent) (snapshotUpdate : Option (String × SnapshotUpdate))
    (scope : PendingScope) (db : Db) : Except PersistenceError Unit × PendingScope × Db :=
  match preparePending clock scope with
  | .error error => (.error error, scope, db)
  | .ok (requests, count) =>
      if snapshotUpdate.isSome ∧ events = [] then (.error .unknown, scope, db)
      else
        match commit fault ⟨⟨aggregateType, persistedAggregateId events snapshotUpdate⟩, none,
          events, snapshotUpdate.map Prod.snd, requests⟩ db with
        | (.error error, db') => (.error (.ofEngine error), scope, db')
        | (.ok (), db') => (.ok (), markCommitted count scope, db')

theorem commit_error {fault : Option EngineError} {request : CommitRequest} {db : Db}
    {error : EngineError} (h : (commit fault request db).1 = .error error) :
    (commit fault request db).2 = db := by
  unfold commit at *
  split_ifs with hres
  · rfl
  · rw [if_neg hres] at h
    exact commitSerialized_error h

theorem markCommitted_of_prepare {clock : ℕ → ℤ} {scope : PendingScope}
    {requests : List EnqueueRequest} {count : Option ℕ}
    (h : preparePending clock scope = .ok (requests, count)) :
    markCommitted count scope = scope.map fun _ => [] := by
  cases scope with
  | none => obtain ⟨-, rfl⟩ := Prod.mk.inj (Except.ok.inj h); rfl
  | some pending =>
      simp only [preparePending] at h
      cases hm : pending.zipIdx.mapM (fun x => encodePush (clock x.2) x.1) with
      | error e => rw [hm] at h; cases h
      | ok rs =>
          rw [hm] at h
          obtain ⟨-, rfl⟩ := Prod.mk.inj (Except.ok.inj h)
          simp [markCommitted]

theorem persist_error {fault : Option EngineError} {clock : ℕ → ℤ} {aggregateType : String}
    {events : List SerializedEvent} {snapshotUpdate : Option (String × SnapshotUpdate)}
    {scope : PendingScope} {db : Db} {error : PersistenceError}
    (h : (persist fault clock aggregateType events snapshotUpdate scope db).1 = .error error) :
    (persist fault clock aggregateType events snapshotUpdate scope db).2 = (scope, db) := by
  unfold persist at *
  cases hp : preparePending clock scope with
  | error e => rfl
  | ok prepared =>
      obtain ⟨requests, count⟩ := prepared
      simp only [hp] at h ⊢
      split_ifs at h ⊢ with hempty
      · rfl
      · split at h
        next e db' hc =>
          have := commit_error (congrArg Prod.fst hc)
          rw [hc] at this
          exact congrArg (Prod.mk scope) this
        next => cases h

/-- A commit that went through emptied the buffer, and ran the engine on the encoded jobs. -/
theorem persist_ok {fault : Option EngineError} {clock : ℕ → ℤ} {aggregateType : String}
    {events : List SerializedEvent} {snapshotUpdate : Option (String × SnapshotUpdate)}
    {scope : PendingScope} {db : Db}
    (h : (persist fault clock aggregateType events snapshotUpdate scope db).1 = .ok ()) :
    (persist fault clock aggregateType events snapshotUpdate scope db).2.1 =
        scope.map (fun _ => []) ∧
      ∃ requests count, preparePending clock scope = .ok (requests, count) ∧
        commitSerialized fault ⟨⟨aggregateType, persistedAggregateId events snapshotUpdate⟩, none,
            events, snapshotUpdate.map Prod.snd, requests⟩ db =
          (.ok (), (persist fault clock aggregateType events snapshotUpdate scope db).2.2) := by
  unfold persist at *
  cases hp : preparePending clock scope with
  | error e => rw [hp] at h; cases h
  | ok prepared =>
      obtain ⟨requests, count⟩ := prepared
      simp only [hp] at h ⊢
      split_ifs at h ⊢ with hempty
      split at h
      next => cases h
      next db' hc =>
        refine ⟨markCommitted_of_prepare hp, requests, count, rfl, ?_⟩
        unfold commit at hc
        split_ifs at hc with hres
        · cases congrArg Prod.fst hc
        · exact hc

/-! ## The framework around it -/

/-- The snapshot rule of the framework: how many events of a batch the snapshot written with it
covers, given the snapshot size and the version the batch starts from. -/
structure CqrsEs where
  commitSnapshotToEvent : (snapshotSize currentSequence numEvents : ℕ) → ℕ
  le_numEvents : ∀ size seq n, commitSnapshotToEvent size seq n ≤ n
  size_one : ∀ seq n, commitSnapshotToEvent 1 seq n = n

/-- A rule that snapshots at every multiple of the snapshot size. -/
def CqrsEs.atMultiples : CqrsEs where
  commitSnapshotToEvent size seq n :=
    let next := size - seq % size
    if n < next then 0 else next + (n - next) / size * size
  le_numEvents size seq n := by
    dsimp only
    split_ifs with h
    · exact Nat.zero_le _
    · have := Nat.div_mul_le_self (n - (size - seq % size)) size
      omega
  size_one seq n := by
    dsimp only
    rw [Nat.mod_one]
    split_ifs with h <;> omega

/-- A loaded aggregate: its fold, its version, and the version of the snapshot it came from. -/
structure AggregateContext (Entity Event Error : Type) where
  aggregate : Lifecycle Entity Event Error
  currentSequence : ℕ
  currentSnapshot : Option ℕ

section Framework

variable {Entity Event Command Error : Type} (E : EventSourced Entity Event Command Error)

/-- The stream of an entity. -/
def EventSourced.stream (id : String) : StreamIdentity := ⟨E.aggregateType, id⟩

/-- The row an entity's event is stored as; the store attaches no metadata. -/
def EventSourced.stored (e : Event) : StoredEvent :=
  ⟨E.eventType e, E.eventVersion e, E.eventCodec.encode e, .obj []⟩

/-- Number the events after the loaded version, snapshot the fold of the first `k` of them, and
persist. -/
def CqrsEs.commitEvents (K : CqrsEs) (fault : Option EngineError) (clock : ℕ → ℤ) (id : String)
    (ctx : AggregateContext Entity Event Error) (events : List Event) (scope : PendingScope)
    (db : Db) : Except PersistenceError Unit × PendingScope × Db :=
  let k := K.commitSnapshotToEvent E.snapshotSize ctx.currentSequence events.length
  persist fault clock E.aggregateType
    (consecutive (E.stream id) (ctx.currentSequence + 1) (events.map E.stored))
    (if k = 0 then none
      else some (id, ⟨(ctx.aggregate.applyAll E (events.take k)).toJson E,
        ctx.currentSnapshot.getD 0 + 1⟩))
    scope db

/-- Errors of a command sent through the store. -/
inductive SendError (Entity Event Error : Type) where
  | userError (error : LifecycleError Entity Event Error)
  | aggregateConflict
  | databaseConnection
  | deserialization
  | unexpected

def SendError.ofPersistence : PersistenceError → SendError Entity Event Error
  | .optimisticLock => .aggregateConflict
  | .connection => .databaseConnection
  | .deserialization => .deserialization
  | .unknown | .panicked => .unexpected

/-- The second half of a command: hand it to the loaded aggregate in a scope of its own, and commit
the events it answers with. Nothing is retried. -/
def CqrsEs.handleAndCommit (K : CqrsEs) (fault : Option EngineError) (clock : ℕ → ℤ) (id : String)
    (ctx : AggregateContext Entity Event Error) (command : Command) (mint : JobId) (db : Db) :
    Except (SendError Entity Event Error) (List Event) × Db :=
  match ctx.aggregate.handle E command mint (some []) with
  | (.error error, _) => (.error (.userError error), db)
  | (.ok events, scope) =>
      match K.commitEvents E fault clock id ctx events scope db with
      | (.error error, _, db') => (.error (.ofPersistence error), db')
      | (.ok (), _, db') => (.ok events, db')

end Framework

theorem zipIdx_mapM_serializeOpaque {s : StreamIdentity} {v k : ℕ}
    {events : List OpaqueProposedEvent} {out : List SerializedEvent}
    (h : (events.zipIdx k).mapM (fun x =>
      match (checkedAddUsize v x.2).bind fun q => checkedAddUsize q 1 with
      | none => (.error .optimisticLock : Except EngineError SerializedEvent)
      | some q => .ok (x.1.stored.serialized s q)) = .ok out) :
    out = consecutive s (v + k + 1) (events.map OpaqueProposedEvent.stored) := by
  induction events generalizing k out with
  | nil => exact (Except.ok.inj h).symm
  | cons e events ih =>
      rw [List.zipIdx_cons, List.mapM_cons] at h
      obtain ⟨x, hx, h⟩ := Except.bind_eq_ok.1 h
      obtain ⟨xs, hxs, h⟩ := Except.bind_eq_ok.1 h
      obtain rfl := Except.ok.inj h
      have hq : ∃ q, ((checkedAddUsize v k).bind fun q => checkedAddUsize q 1) = some q ∧
          x = e.stored.serialized s q := by
        split at hx
        · cases hx
        next q hq => exact ⟨q, hq, (Except.ok.inj hx).symm⟩
      obtain ⟨q, hq, rfl⟩ := hq
      simp only [Option.bind_eq_some_iff, checkedAddUsize_eq_some] at hq
      obtain rfl : q = v + k + 1 := by omega
      rw [ih hxs]
      rfl

/-- Opaque events are stored under the numbers after the expected version, in order. -/
theorem serializeOpaque_eq_ok {s : StreamIdentity} {v : ℕ} {events : List OpaqueProposedEvent}
    {out : List SerializedEvent} (h : serializeOpaque s v events = .ok out) :
    out = consecutive s (v + 1) (events.map OpaqueProposedEvent.stored) :=
  zipIdx_mapM_serializeOpaque h

/-! ## Atomicity -/

/-- The opaque request as the engine writes it. -/
def OpaqueCommitRequest.serialized (request : OpaqueCommitRequest) : CommitRequest :=
  ⟨request.stream, some request.expectedVersion,
    consecutive request.stream (request.expectedVersion + 1)
      (request.events.map OpaqueProposedEvent.stored), none, request.jobs⟩

theorem commitOpaque_error {fault : Option EngineError} {request : OpaqueCommitRequest} {db : Db}
    {error : EngineError} (h : (commitOpaque fault request db).1 = .error error) :
    (commitOpaque fault request db).2 = db := by
  unfold commitOpaque at *
  split
  · rfl
  next events hser =>
    rw [hser] at h
    exact commitSerialized_error h

theorem committedAt_of_commitOpaque {fault : Option EngineError} {request : OpaqueCommitRequest}
    {db : Db} (h : (commitOpaque fault request db).1 = .ok ()) :
    CommittedAt db (commitOpaque fault request db).2 request.serialized
      request.expectedVersion := by
  unfold commitOpaque at *
  split at h
  · cases h
  next events hser =>
    obtain rfl := serializeOpaque_eq_ok hser
    exact committedAt_of_commitSerialized rfl h

theorem committedAt_of_commit {fault : Option EngineError} {request : CommitRequest} {db : Db}
    {v : ℕ} (hv : request.expectedVersion = some v) (h : (commit fault request db).1 = .ok ()) :
    CommittedAt db (commit fault request db).2 request v := by
  unfold commit at *
  split_ifs at h ⊢ with hres
  exact committedAt_of_commitSerialized hv h

section Framework

variable {Entity Event Command Error : Type} {K : CqrsEs}
  {E : EventSourced Entity Event Command Error} {fault : Option EngineError} {clock : ℕ → ℤ}
  {id : String} {ctx : AggregateContext Entity Event Error} {command : Command} {mint : JobId}
  {db : Db}

/-- A command that failed, at whatever point, left the database as it was. -/
theorem handleAndCommit_error {error : SendError Entity Event Error}
    (h : (K.handleAndCommit E fault clock id ctx command mint db).1 = .error error) :
    (K.handleAndCommit E fault clock id ctx command mint db).2 = db := by
  unfold CqrsEs.handleAndCommit at *
  split at h
  next => rfl
  next events scope hhandle =>
    split at h
    next e scope' db' hc =>
      exact (Prod.mk.inj ((congrArg Prod.snd hc).symm.trans
        (persist_error (congrArg Prod.fst hc)))).2
    next => cases h

/-- A command that succeeded committed what its handler answered, with the jobs it dispatched. -/
theorem handleAndCommit_ok {events : List Event}
    (h : (K.handleAndCommit E fault clock id ctx command mint db).1 = .ok events) :
    ∃ scope, ctx.aggregate.handle E command mint (some []) = (.ok events, scope) ∧
      (K.commitEvents E fault clock id ctx events scope db).1 = .ok () ∧
      (K.handleAndCommit E fault clock id ctx command mint db).2 =
        (K.commitEvents E fault clock id ctx events scope db).2.2 := by
  unfold CqrsEs.handleAndCommit at *
  split at h
  next => cases h
  next events' scope hhandle =>
    split at h
    next => cases h
    next scope' db' hc =>
      obtain rfl := Except.ok.inj h
      exact ⟨scope, hhandle, congrArg Prod.fst hc, (congrArg (·.2.2) hc).symm⟩

end Framework

/-- A handler that ran in a fresh scope leaves a scope. -/
theorem handle_scope {Entity Event Command Error : Type}
    (E : EventSourced Entity Event Command Error) (self : Lifecycle Entity Event Error)
    (command : Command) (mint : JobId) (pending : List PendingPush) :
    ∃ pending', (self.handle E command mint (some pending)).2 = some pending' := by
  unfold Lifecycle.handle
  split
  · exact ⟨pending, rfl⟩
  · exact ⟨pending, rfl⟩
  next event push _ => exact ⟨pending ++ [push], rfl⟩

end EventSorcery
