import EventSorcery.JobQueue

/-!
# Loading, committing and compacting a stream

The reads behind `Store::load` and `Store::send`: the repository's snapshot read, which refuses an
undecodable snapshot only where compaction may have deleted the events behind it, and the framework's
replay of the events after it. `StreamHolds` is what the tables hold of a stream: all its events,
less the first ones that compaction deleted, and a snapshot that covers at least those.
-/

namespace EventSorcery

section Store

variable {Entity Event Command Error : Type} (E : EventSourced Entity Event Command Error)

/-- The repository's snapshot read. -/
def getSnapshot (row : Option SnapshotRow) : Except PersistenceError (Option SnapshotRow) :=
  match row with
  | none => .ok none
  | some row =>
      match E.compactionPolicy with
      | .retain => .ok (some row)
      | .compactAfterSnapshot =>
          match (Lifecycle.ofJson E row.payload : Option (Lifecycle Entity Event Error)) with
          | some _ => .ok (some row)
          | none => .error .deserialization

/-- Where the framework starts to replay: at the snapshot, or at the first event if there is none or
it does not decode. -/
def startContext (snapshot : Option SnapshotRow) : AggregateContext Entity Event Error :=
  match snapshot with
  | none => ⟨.uninitialized, 0, none⟩
  | some row =>
      match Lifecycle.ofJson E row.payload with
      | some aggregate => ⟨aggregate, row.lastSequence, some row.snapshotVersion⟩
      | none => ⟨.uninitialized, 0, none⟩

/-- Apply the events read after the snapshot; `none` when one does not decode. -/
def replayRows (ctx : AggregateContext Entity Event Error) :
    List (ℕ × StoredEvent) → Option (AggregateContext Entity Event Error)
  | [] => some ctx
  | (q, x) :: rows =>
      match E.eventCodec.decode x.payload with
      | none => none
      | some event =>
          replayRows { ctx with aggregate := ctx.aggregate.apply E event, currentSequence := q } rows

/-- Delete the events that snapshots cover, if the entity's policy allows it. -/
def compactEvents (db : Db) : Db :=
  match E.compactionPolicy with
  | .retain => db
  | .compactAfterSnapshot =>
      { db with events := db.events.mapRows fun s log =>
          if s.aggregateType = E.aggregateType then
            log.deleteUpTo (((db.snapshots.lookup s).map SnapshotRow.lastSequence).getD 0)
          else log }

/-! ## What the tables hold of a stream -/

/-- The tables hold the history `log` of a stream, whose first `base` events compaction has deleted
and whose snapshot covers the first `covered` ones. -/
structure StreamHolds (db : Db) (id : String) (log : List Event) (base covered : ℕ) : Prop where
  stream : db.stream (E.stream id) = SeqLog.ofList base ((log.drop base).map E.stored)
  snapshot : db.snapshots.lookup (E.stream id) = none ∧ covered = 0 ∨
    ∃ version, db.snapshots.lookup (E.stream id) =
      some ⟨covered, version, (Lifecycle.replay E (log.take covered)).toJson E⟩
  base_le : base ≤ covered
  covered_le : covered ≤ log.length
  live : (Lifecycle.replay E log).isFailed = false

/-- A context holds the fold of a prefix of the history. -/
structure FoldAt (ctx : AggregateContext Entity Event Error) (log : List Event) : Prop where
  aggregate : ctx.aggregate = Lifecycle.replay E (log.take ctx.currentSequence)
  le : ctx.currentSequence ≤ log.length

variable {E} {db : Db} {id : String} {log : List Event} {base covered : ℕ}

theorem FoldAt.append {ctx : AggregateContext Entity Event Error} (h : FoldAt E ctx log)
    (events : List Event) : FoldAt E ctx (log ++ events) := by
  refine ⟨?_, h.le.trans (by simp)⟩
  rw [h.aggregate, List.take_append_of_le_length h.le]

theorem FoldAt.isFailed {ctx : AggregateContext Entity Event Error} (h : FoldAt E ctx log)
    (live : (Lifecycle.replay E log).isFailed = false) : ctx.aggregate.isFailed = false := by
  rw [h.aggregate]
  refine Lifecycle.not_isFailed_of_append E (log.drop ctx.currentSequence) ?_
  rwa [List.take_append_drop]

theorem StreamHolds.empty (E : EventSourced Entity Event Command Error) (id : String) :
    StreamHolds E .empty id [] 0 0 :=
  ⟨rfl, .inl ⟨rfl, rfl⟩, le_rfl, le_rfl, rfl⟩

/-- The greatest number the stream's snapshot covers. -/
theorem StreamHolds.lastSequence (h : StreamHolds E db id log base covered) :
    ((db.snapshots.lookup (E.stream id)).map SnapshotRow.lastSequence).getD 0 = covered := by
  rcases h.snapshot with ⟨hnone, rfl⟩ | ⟨version, hsome⟩
  · rw [hnone]; rfl
  · rw [hsome]; rfl

/-- The engine's own notion of the stream's version is the length of its history, compacted or
not. -/
theorem StreamHolds.committedStreamVersion (h : StreamHolds E db id log base covered) :
    EventSorcery.committedStreamVersion db (E.stream id) = log.length := by
  have hbase := h.base_le
  have hle := h.covered_le
  rw [EventSorcery.committedStreamVersion, h.lastSequence, h.stream, SeqLog.maxSeq_ofList]
  simp only [List.length_map, List.length_drop]
  split_ifs <;> simp_all <;> omega

/-! ## Loading -/

theorem startContext_foldAt (h : StreamHolds E db id log base covered)
    {snapshot : Option SnapshotRow}
    (hs : getSnapshot E (db.snapshots.lookup (E.stream id)) = .ok snapshot) :
    FoldAt E (startContext E snapshot) log ∧
      (E.compactionPolicy = .compactAfterSnapshot →
        (startContext E snapshot).currentSequence = covered) := by
  have hzero : FoldAt E (⟨.uninitialized, 0, none⟩ : AggregateContext Entity Event Error) log :=
    ⟨by simp, Nat.zero_le _⟩
  rcases h.snapshot with ⟨hnone, rfl⟩ | ⟨version, hsome⟩
  · rw [hnone] at hs
    obtain rfl := Except.ok.inj hs
    exact ⟨hzero, fun _ => rfl⟩
  · rw [hsome] at hs
    have hlive : (Lifecycle.replay E (log.take covered)).isFailed = false := by
      refine Lifecycle.not_isFailed_of_append E (log.drop covered) ?_
      rw [List.take_append_drop]
      exact h.live
    have hstart : snapshot = some ⟨covered, version, (Lifecycle.replay E (log.take covered)).toJson E⟩ ∧
        (E.compactionPolicy = .compactAfterSnapshot → ∃ l,
          Lifecycle.ofJson E ((Lifecycle.replay E (log.take covered)).toJson E) = some l) := by
      unfold getSnapshot at hs
      split at hs
      next hrow => cases hrow
      next row hrow =>
        obtain rfl := Option.some.inj hrow
        split at hs
        next hpol => exact ⟨(Except.ok.inj hs).symm, fun hc => by rw [hpol] at hc; cases hc⟩
        next hpol =>
          split at hs
          next l hl => exact ⟨(Except.ok.inj hs).symm, fun _ => ⟨l, hl⟩⟩
          next => cases hs
    obtain ⟨rfl, hdec⟩ := hstart
    cases hjson : (Lifecycle.ofJson E ((Lifecycle.replay E (log.take covered)).toJson E) :
        Option (Lifecycle Entity Event Error)) with
    | none =>
        simp only [startContext, hjson]
        refine ⟨hzero, fun hc => ?_⟩
        obtain ⟨l, hl⟩ := hdec hc
        rw [hjson] at hl
        cases hl
    | some aggregate =>
        simp only [startContext, hjson]
        exact ⟨⟨Lifecycle.ofJson_toJson_eq E hlive hjson, h.covered_le⟩, fun _ => trivial⟩

theorem replayRows_stored (ctx : AggregateContext Entity Event Error) (events : List Event) :
    replayRows E ctx (SeqLog.rowsFrom (ctx.currentSequence + 1) (events.map E.stored)) =
      some ⟨ctx.aggregate.applyAll E events, ctx.currentSequence + events.length,
        ctx.currentSnapshot⟩ := by
  induction events generalizing ctx with
  | nil => rfl
  | cons event events ih =>
      have hdec : E.eventCodec.decode (E.stored event).payload = some event :=
        E.eventCodec.decode_encode event
      rw [List.map_cons, SeqLog.rowsFrom, replayRows]
      simp only [hdec]
      rw [ih ⟨ctx.aggregate.apply E event, ctx.currentSequence + 1, ctx.currentSnapshot⟩]
      simp only [Lifecycle.applyAll_cons, List.length_cons, Option.some.injEq,
        AggregateContext.mk.injEq, true_and, and_true]
      omega

/-- The events a load reads follow its snapshot without a gap. -/
def Contiguous (ctx : AggregateContext Entity Event Error) (rows : List (ℕ × StoredEvent)) : Prop :=
  ∀ row ∈ rows.head?, row.1 = ctx.currentSequence + 1

instance (ctx : AggregateContext Entity Event Error) (rows : List (ℕ × StoredEvent)) :
    Decidable (Contiguous ctx rows) :=
  inferInstanceAs (Decidable (∀ row ∈ rows.head?, _))

theorem StreamHolds.after (h : StreamHolds E db id log base covered) {q : ℕ} (hq : base ≤ q) :
    (db.stream (E.stream id)).after q =
      SeqLog.rowsFrom (q + 1) ((log.drop q).map E.stored) := by
  obtain ⟨k, rfl⟩ : ∃ k, q = base + k := ⟨q - base, by omega⟩
  rw [h.stream, SeqLog.after_ofList, ← List.map_drop, List.drop_drop]

/-- A load that reads on without a gap ends at the fold of a prefix no shorter than the one it
started from, and of the whole history if none of what it had to read was compacted. -/
theorem replayRows_foldAt (h : StreamHolds E db id log base covered)
    {ctx : AggregateContext Entity Event Error} (hctx : FoldAt E ctx log)
    (hcont : base ≤ ctx.currentSequence ∨
      Contiguous ctx ((db.stream (E.stream id)).after ctx.currentSequence)) :
    ∃ ctx', replayRows E ctx ((db.stream (E.stream id)).after ctx.currentSequence) = some ctx' ∧
      FoldAt E ctx' log ∧ ctx.currentSequence ≤ ctx'.currentSequence ∧
      (base ≤ ctx.currentSequence → ctx'.currentSequence = log.length) := by
  by_cases hbase : base ≤ ctx.currentSequence
  · have hend : ctx.currentSequence + (log.drop ctx.currentSequence).length = log.length := by
      have := hctx.le
      rw [List.length_drop]
      omega
    rw [h.after hbase, replayRows_stored, hend]
    refine ⟨_, rfl, ⟨?_, le_rfl⟩, hctx.le, fun _ => rfl⟩
    rw [hctx.aggregate, Lifecycle.applyAll_replay_take_drop, List.take_length]
  · -- The rows left start above the gap, so there are none.
    have hcont := hcont.resolve_left hbase
    have hnil : (db.stream (E.stream id)).after ctx.currentSequence = [] := by
      have hall : (db.stream (E.stream id)).after ctx.currentSequence =
          SeqLog.rowsFrom (base + 1) ((log.drop base).map E.stored) := by
        rw [h.stream, SeqLog.after, SeqLog.rows_ofList, List.filter_eq_self]
        intro row hrow
        have := ((SeqLog.mem_rowsFrom (r := row.1) (a := row.2)).1 hrow).1
        simp only [decide_eq_true_eq]
        omega
      rw [hall] at hcont ⊢
      cases hlog : (log.drop base).map E.stored with
      | nil => rfl
      | cons x xs =>
          have := hcont (base + 1, x) (by rw [hlog]; rfl)
          simp only at this
          omega
    exact ⟨ctx, by rw [hnil]; rfl, hctx, le_rfl, fun hle => absurd hle hbase⟩

/-! ## Committing -/

/-- The jobs a command dispatched, and no others, were enqueued: each got its `Enqueued` event and
its queue row, both new. Streams other than those jobs' and the command's own are as they were. -/
structure JobsEnqueued (db db' : Db) (s : StreamIdentity) (pending : List PendingPush) : Prop where
  enqueued : ∀ push ∈ pending, ∃ payload runAt, push.payload = some payload ∧
    db.row (jobStream push.jobId) 1 = none ∧ db.jobQueue.lookup push.jobId = none ∧
    db'.row (jobStream push.jobId) 1 = some (JobEvent.enqueued push.kind payload runAt).stored ∧
    db'.jobQueue.lookup push.jobId = some ⟨1, liveJson (.pending push.kind payload runAt 0 0), none⟩
  queue : ∀ jobId, (∀ push ∈ pending, jobId ≠ push.jobId) →
    db'.jobQueue.lookup jobId = db.jobQueue.lookup jobId
  streams : ∀ t ≠ s, (∀ push ∈ pending, t ≠ jobStream push.jobId) → db'.stream t = db.stream t

/-- What a commit of a command's events did. -/
structure CommitEffect (K : CqrsEs) (E : EventSourced Entity Event Command Error) (db db' : Db)
    (id : String) (ctx : AggregateContext Entity Event Error) (events : List Event)
    (pending : List PendingPush) : Prop where
  stream : (db.stream (E.stream id)).insertFrom? (ctx.currentSequence + 1) (events.map E.stored) =
    some (db'.stream (E.stream id))
  snapshot : db'.snapshots.lookup (E.stream id) =
    let k := K.commitSnapshotToEvent E.snapshotSize ctx.currentSequence events.length
    if k = 0 then db.snapshots.lookup (E.stream id)
    else some ⟨ctx.currentSequence + events.length, ctx.currentSnapshot.getD 0 + 1,
      (ctx.aggregate.applyAll E (events.take k)).toJson E⟩
  jobs : JobsEnqueued db db' (E.stream id) pending

theorem encodePush_eq_ok {now : ℤ} {push : PendingPush} {request : EnqueueRequest}
    (h : encodePush now push = .ok request) : request.jobId = push.jobId ∧
      request.kind = push.kind ∧ push.payload = some request.payload := by
  unfold encodePush at h
  split at h
  · cases h
  next payload hpayload =>
    cases hrun : resolveRunAtMs now push.delay with
    | error error => rw [hrun] at h; cases h
    | ok runAtMs =>
        rw [hrun] at h
        obtain rfl := Except.ok.inj h
        exact ⟨rfl, rfl, hpayload⟩

/-- The encoded requests are the buffered pushes. -/
theorem preparePending_eq_ok {clock : ℕ → ℤ} {pending : List PendingPush}
    {requests : List EnqueueRequest} {count : Option ℕ}
    (h : preparePending clock (some pending) = .ok (requests, count)) :
    (∀ push ∈ pending, ∃ request ∈ requests, ∃ now, encodePush now push = .ok request) ∧
      ∀ request ∈ requests, ∃ push ∈ pending, ∃ now, encodePush now push = .ok request := by
  simp only [preparePending] at h
  cases hm : pending.zipIdx.mapM (fun x => encodePush (clock x.2) x.1) with
  | error e => rw [hm] at h; cases h
  | ok rs =>
      rw [hm] at h
      obtain ⟨rfl, -⟩ := Prod.mk.inj (Except.ok.inj h)
      obtain ⟨hleft, hright⟩ := List.mem_of_mapM_eq_ok hm
      refine ⟨fun push hmem => ?_, fun request hmem => ?_⟩
      · obtain ⟨i, hi⟩ := List.mem_iff_getElem?.1 hmem
        obtain ⟨request, hreq, henc⟩ := hleft (push, i) (List.mem_zipIdx_iff_getElem?.2 hi)
        exact ⟨request, hreq, _, henc⟩
      · obtain ⟨⟨push, i⟩, hpush, henc⟩ := hright request hmem
        exact ⟨push, List.mem_of_getElem? (List.mem_zipIdx_iff_getElem?.1 hpush), _, henc⟩

/-- The row of a job that a commit enqueues is the fold of its first event. -/
theorem seedRow_eq (request : EnqueueRequest) (runAt : Instant) :
    request.seedRow runAt =
      ⟨1, liveJson (.pending request.kind request.payload runAt 0 0), none⟩ := rfl

/-- Jobs seeded after an append to a stream that is none of theirs. -/
theorem jobsEnqueued_of_seeded {db db₂ db' : Db} {s : StreamIdentity} {pending : List PendingPush}
    {requests : List EnqueueRequest}
    (hreq : (∀ push ∈ pending, ∃ request ∈ requests, ∃ now, encodePush now push = .ok request) ∧
      ∀ request ∈ requests, ∃ push ∈ pending, ∃ now, encodePush now push = .ok request)
    (hfresh : ∀ push ∈ pending, jobStream push.jobId ≠ s)
    (hstream : ∀ t ≠ s, db₂.stream t = db.stream t) (hqueue : db₂.jobQueue = db.jobQueue)
    (hseeded : JobsSeeded db₂ db' requests) :
    JobsEnqueued db db' s pending ∧ db'.stream s = db₂.stream s := by
  have hpush : ∀ request ∈ requests, ∃ push ∈ pending, request.jobId = push.jobId := by
    intro request hmem
    obtain ⟨push, hpush, now, henc⟩ := hreq.2 request hmem
    exact ⟨push, hpush, (encodePush_eq_ok henc).1⟩
  refine ⟨⟨fun push hmem => ?_, fun jobId hne => ?_, fun t ht hne => ?_⟩, ?_⟩
  · obtain ⟨request, hrequest, now, henc⟩ := hreq.1 push hmem
    obtain ⟨hid, hkind, hpayload⟩ := encodePush_eq_ok henc
    obtain ⟨runAt, -, hfree, hnone, hrow, hview⟩ := hseeded.seeded request hrequest
    rw [Db.row, hid, hstream _ (hfresh push hmem)] at hfree
    rw [hqueue, hid] at hnone
    refine ⟨request.payload, runAt, hpayload, hfree, hnone, ?_, ?_⟩
    · rw [← hid, hrow, ← hkind, EnqueueRequest.event]
    · rw [← hid, hview, seedRow_eq, hkind]
  · rw [hseeded.queue jobId fun request hmem => ?_, hqueue]
    obtain ⟨push, hpush, hid⟩ := hpush request hmem
    exact hid ▸ hne push hpush
  · rw [← hstream t ht]
    refine SeqLog.ext_get? fun q => hseeded.rows t q fun _ request hmem => ?_
    obtain ⟨push, hpush, hid⟩ := hpush request hmem
    exact hid ▸ hne push hpush
  · refine SeqLog.ext_get? fun q => hseeded.rows s q fun _ request hmem => ?_
    obtain ⟨push, hpush, hid⟩ := hpush request hmem
    exact hid ▸ (hfresh push hpush).symm

theorem getLast?_consecutive {s : StreamIdentity} {q : ℕ} {xs : List StoredEvent}
    {last : SerializedEvent} (h : (consecutive s (q + 1) xs).getLast? = some last) :
    last.sequence = q + xs.length := by
  rw [List.getLast?_eq_getElem?, getElem?_consecutive, Option.map_eq_some_iff] at h
  obtain ⟨x, hx, rfl⟩ := h
  have := (List.getElem?_eq_some_iff.1 hx).1
  rw [length_consecutive] at this ⊢
  rw [StoredEvent.sequence_serialized]
  omega

theorem commitEvents_ok {K : CqrsEs} {fault : Option EngineError} {clock : ℕ → ℤ}
    {ctx : AggregateContext Entity Event Error} {events : List Event} {pending : List PendingPush}
    (hfresh : ∀ push ∈ pending, jobStream push.jobId ≠ E.stream id)
    (h : (K.commitEvents E fault clock id ctx events (some pending) db).1 = .ok ()) :
    CommitEffect K E db (K.commitEvents E fault clock id ctx events (some pending) db).2.2 id ctx
      events pending := by
  obtain ⟨-, requests, count, hprep, hcommit⟩ := persist_ok h
  change _ = (_, (K.commitEvents E fault clock id ctx events (some pending) db).2.2) at hcommit
  generalize (K.commitEvents E fault clock id ctx events (some pending) db).2.2 = db' at hcommit ⊢
  obtain ⟨-, -, db₁, db₂, hins, hsnap, hjobs⟩ := commitSerialized_ok (congrArg Prod.fst hcommit)
  rw [hcommit] at hjobs
  have hseeded := foldlM_seedJob_eq_ok hjobs
  obtain ⟨hstream₂, hqueue₂, hsnap₂⟩ := writeSnapshot_eq_ok hsnap
  -- The events are one batch of consecutive rows of the stream.
  have hspec := foldlM_insertEvent_consecutive db (E.stream id) (ctx.currentSequence + 1)
    (events.map E.stored)
  have hfold := (insertSerializedEventsBatch_eq_ok.1 hins).2
  cases hl : (db.stream (E.stream id)).insertFrom? (ctx.currentSequence + 1)
      (events.map E.stored) with
  | none => rw [hl] at hspec; rw [hspec] at hfold; cases hfold
  | some l =>
      rw [hl] at hspec
      obtain ⟨db₁', hok, happ⟩ := hspec
      obtain rfl : db₁' = db₁ := Except.ok.inj (hok.symm.trans hfold)
      obtain ⟨henq, hself⟩ := jobsEnqueued_of_seeded (preparePending_eq_ok hprep) hfresh
        (fun t ht => (congrFun hstream₂ t).trans (happ.stream_of_ne ht))
        (hqueue₂.trans happ.jobQueue) hseeded
      refine ⟨?_, ?_, henq⟩
      · rw [hl, hself, hstream₂, happ.stream_self]
      · dsimp only
        rw [hseeded.snapshots]
        split_ifs at hsnap₂ ⊢ with hk
        · rcases hsnap₂ with ⟨-, heq⟩ | ⟨u, last, hu, -⟩
          · rw [heq, happ.snapshots]
          · cases hu
        · rcases hsnap₂ with ⟨hnone, -⟩ | ⟨u, last, hu, hlast, heq⟩
          · cases hnone
          · obtain rfl := Option.some.inj hu
            rw [heq, getLast?_consecutive hlast, List.length_map]
            exact AList.lookup_insert _

/-- A commit of a command writes no other stream's snapshot. -/
theorem commitEvents_snapshots_of_ne {K : CqrsEs} {fault : Option EngineError} {clock : ℕ → ℤ}
    {ctx : AggregateContext Entity Event Error} {events : List Event} {scope : PendingScope}
    (h : (K.commitEvents E fault clock id ctx events scope db).1 = .ok ()) {t : StreamIdentity}
    (ht : t ≠ E.stream id) :
    (K.commitEvents E fault clock id ctx events scope db).2.2.snapshots.lookup t =
      db.snapshots.lookup t := by
  obtain ⟨-, requests, count, -, hcommit⟩ := persist_ok h
  change _ = (_, (K.commitEvents E fault clock id ctx events scope db).2.2) at hcommit
  generalize (K.commitEvents E fault clock id ctx events scope db).2.2 = db' at hcommit ⊢
  obtain ⟨-, -, db₁, db₂, hins, hsnap, hjobs⟩ := commitSerialized_ok (congrArg Prod.fst hcommit)
  rw [hcommit] at hjobs
  have hins₁ := insertSerializedEventsBatch_consecutive hins
  rw [(foldlM_seedJob_eq_ok hjobs).snapshots, ← hins₁.snapshots]
  rcases (writeSnapshot_eq_ok hsnap).2.2 with ⟨-, heq⟩ | ⟨u, last, hu, -, heq⟩
  · rw [heq]
  · split_ifs at hu heq
    · cases hu
    · rw [heq]
      exact AList.lookup_insert_ne ht

/-- One of the numbers a commit would take has a row. -/
def NumberTaken (E : EventSourced Entity Event Command Error) (id : String) (db : Db)
    (ctx : AggregateContext Entity Event Error) (events : List Event) : Prop :=
  ∃ i < events.length, (db.row (E.stream id) (ctx.currentSequence + 1 + i)).isSome

instance (ctx : AggregateContext Entity Event Error) (events : List Event) :
    Decidable (NumberTaken E id db ctx events) :=
  inferInstanceAs (Decidable (∃ i < events.length, _))

theorem numberTaken_iff {ctx : AggregateContext Entity Event Error} {events : List Event} :
    NumberTaken E id db ctx events ↔
      (db.stream (E.stream id)).insertFrom? (ctx.currentSequence + 1) (events.map E.stored) =
        none := by
  rw [SeqLog.insertFrom?_eq_none_iff, List.length_map]
  constructor
  · rintro ⟨i, hi, hrow⟩
    exact ⟨ctx.currentSequence + 1 + i, by omega, by omega, hrow⟩
  · rintro ⟨r, hle, hlt, hrow⟩
    refine ⟨r - (ctx.currentSequence + 1), by omega, ?_⟩
    rwa [Nat.add_sub_cancel' hle]

/-- A taken number is a conflict, whatever else the commit writes. -/
theorem commitEvents_taken {K : CqrsEs} {clock : ℕ → ℤ}
    {ctx : AggregateContext Entity Event Error} {events : List Event} {scope : PendingScope}
    {prepared : List EnqueueRequest × Option ℕ} (htaken : NumberTaken E id db ctx events)
    (hprep : preparePending clock scope = .ok prepared)
    (hmax : ctx.currentSequence + events.length ≤ i64Max) :
    (K.commitEvents E none clock id ctx events scope db).1 = .error .optimisticLock := by
  obtain ⟨event, rest, rfl⟩ : ∃ event rest, events = event :: rest := by
    obtain ⟨i, hi, -⟩ := htaken
    exact List.exists_cons_of_length_pos (by omega)
  generalize hbatch : consecutive (E.stream id) (ctx.currentSequence + 1)
    ((event :: rest).map E.stored) = batch
  have hmem : ∀ e ∈ batch, e.identity = E.stream id ∧ e.sequence ≤ i64Max ∧
      e.metadata = .obj [] := by
    intro e he
    obtain ⟨i, hi⟩ := List.mem_iff_getElem?.1 he
    rw [← hbatch, getElem?_consecutive, List.getElem?_map] at hi
    simp only [Option.map_map, Option.map_eq_some_iff] at hi
    obtain ⟨x, hx, rfl⟩ := hi
    have := (List.getElem?_eq_some_iff.1 hx).1
    exact ⟨rfl, by simp only [Function.comp, StoredEvent.sequence_serialized]; omega, rfl⟩
  have hins : insertSerializedEventsBatch db batch = .error .optimisticLock := by
    have hspec := foldlM_insertEvent_consecutive db (E.stream id) (ctx.currentSequence + 1)
      ((event :: rest).map E.stored)
    rw [numberTaken_iff.1 htaken, hbatch] at hspec
    rw [insertSerializedEventsBatch_of_le fun e he => (hmem e he).2.1]
    exact hspec
  have hreserved : ¬ batch.any fun e => reservesEnginePayload e.metadata := by
    simp only [List.any_eq_true, not_exists, not_and]
    intro e he
    rw [(hmem e he).2.2]
    simp [reservesEnginePayload]
  have hne : batch ≠ [] := by rw [← hbatch]; simp [consecutive]
  have haggregate : ∀ update : Option (String × SnapshotUpdate), (∀ u ∈ update, u.1 = id) →
      persistedAggregateId batch update = id := by
    rintro (_ | u) hu
    · rw [← hbatch]; rfl
    · exact hu u rfl
  rw [CqrsEs.commitEvents, persist, hprep, hbatch]
  simp only [hne, and_false, if_false]
  rw [haggregate _ fun u hu => by
    split_ifs at hu
    · cases hu
    · exact Option.mem_some_iff.1 hu ▸ rfl]
  have hval : validateEventStream ⟨E.aggregateType, id⟩ batch = .ok () :=
    validateEventStream_eq_ok.2 fun e he => (hmem e he).1
  rw [commit, if_neg hreserved, commitSerialized]
  simp only [hval, Option.any_none, Bool.false_eq_true, if_false, inTransaction, commitStatements,
    checkVersion, hins]
  rfl

/-- Every command answers with at most one event. -/
def EventSourced.EmitsSingleEvents (E : EventSourced Entity Event Command Error) : Prop :=
  ∀ (self : Lifecycle Entity Event Error) command mint events,
    self.decision E command mint = .ok (.events events) → events.length ≤ 1

/-- The framework's snapshots always cover whole commits. -/
def SnapshotsWhole (E : EventSourced Entity Event Command Error) : Prop :=
  E.snapshotSize = 1 ∨ E.EmitsSingleEvents

theorem EventSourced.EmitsSingleEvents.length_le (h : E.EmitsSingleEvents)
    {self : Lifecycle Entity Event Error} {command : Command} {mint : JobId} {scope : PendingScope}
    {events : List Event} (hhandle : (self.handle E command mint scope).1 = .ok events) :
    events.length ≤ 1 := by
  unfold Lifecycle.handle at hhandle
  split at hhandle
  next => cases hhandle
  next es hdec =>
    cases hw : self.writeAll E es with
    | error error => rw [hw] at hhandle; cases hhandle
    | ok u =>
        rw [hw] at hhandle
        obtain rfl := Except.ok.inj hhandle
        exact h _ _ _ _ hdec
  next event push hdec =>
    cases scope with
    | none => cases hhandle
    | some pending =>
        cases hw : self.writeAll E [event] with
        | error error => simp only [buffer, hw] at hhandle; cases hhandle
        | ok u =>
            simp only [buffer, hw] at hhandle
            obtain rfl := Except.ok.inj hhandle
            exact le_rfl

theorem SnapshotsWhole.commitSnapshotToEvent (h : SnapshotsWhole E)
    {self : Lifecycle Entity Event Error} {command : Command} {mint : JobId}
    {scope scope' : PendingScope} {events : List Event}
    (hhandle : self.handle E command mint scope = (.ok events, scope')) (K : CqrsEs) (seq : ℕ) :
    K.commitSnapshotToEvent E.snapshotSize seq events.length = 0 ∨
      K.commitSnapshotToEvent E.snapshotSize seq events.length = events.length := by
  rcases h with hone | hsingle
  · exact .inr (by rw [hone, K.size_one])
  · have hlen := hsingle.length_le (congrArg Prod.fst hhandle)
    have hle := K.le_numEvents E.snapshotSize seq events.length
    omega

/-! ## What keeps the tables in order -/

theorem StreamHolds.of_same (h : StreamHolds E db id log base covered) {db' : Db}
    (hstream : db'.stream (E.stream id) = db.stream (E.stream id))
    (hsnap : db'.snapshots.lookup (E.stream id) = db.snapshots.lookup (E.stream id)) :
    StreamHolds E db' id log base covered :=
  ⟨hstream ▸ h.stream, hsnap ▸ h.snapshot, h.base_le, h.covered_le, h.live⟩

/-- Compaction deletes the covered events and nothing else of the stream. -/
theorem StreamHolds.compact (h : StreamHolds E db id log base covered) :
    ∃ base', StreamHolds E (compactEvents E db) id log base' covered ∧
      (E.compactionPolicy = .retain → base' = base) := by
  unfold compactEvents
  split
  next => exact ⟨base, h, fun _ => rfl⟩
  next hpol =>
    refine ⟨covered, ⟨?_, h.snapshot, le_rfl, h.covered_le, h.live⟩, fun hr => by
      rw [hpol] at hr; cases hr⟩
    have hstream : ∀ events : Table StreamIdentity (SeqLog StoredEvent), Db.stream
        { db with events := events.mapRows fun s log =>
            if s.aggregateType = E.aggregateType then
              log.deleteUpTo (((db.snapshots.lookup s).map SnapshotRow.lastSequence).getD 0)
            else log } (E.stream id) =
        ((events.lookup (E.stream id)).getD SeqLog.empty).deleteUpTo covered := by
      intro events
      rw [Db.stream]
      simp only [Table.lookup_mapRows]
      cases events.lookup (E.stream id) with
      | none => rfl
      | some l => simp [EventSourced.stream, ← h.lastSequence]
    rw [hstream]
    change (db.stream (E.stream id)).deleteUpTo covered = _
    obtain ⟨k, rfl⟩ : ∃ k, covered = base + k := ⟨covered - base, by have := h.base_le; omega⟩
    rw [h.stream, SeqLog.deleteUpTo_ofList, ← List.map_drop, List.drop_drop]

/-- A commit from the current version appends its events; the snapshot, if it wrote one, covers
them all. -/
theorem StreamHolds.commit (h : StreamHolds E db id log base covered) {K : CqrsEs} {db' : Db}
    {ctx : AggregateContext Entity Event Error} {events : List Event} {pending : List PendingPush}
    (hctx : FoldAt E ctx log) (heff : CommitEffect K E db db' id ctx events pending)
    (hcur : ctx.currentSequence = log.length)
    (hlive : (ctx.aggregate.applyAll E events).isFailed = false)
    (hk : K.commitSnapshotToEvent E.snapshotSize ctx.currentSequence events.length = 0 ∨
      K.commitSnapshotToEvent E.snapshotSize ctx.currentSequence events.length = events.length) :
    StreamHolds E db' id (log ++ events) base
      (if K.commitSnapshotToEvent E.snapshotSize ctx.currentSequence events.length = 0 then covered
        else (log ++ events).length) := by
  have hagg : ctx.aggregate.applyAll E events = Lifecycle.replay E (log ++ events) := by
    rw [hctx.aggregate, hcur, List.take_length, Lifecycle.replay_append]
  have hbase : base ≤ log.length := h.base_le.trans h.covered_le
  have hlen : log.length ≤ (log ++ events).length := by simp
  have hstream : db'.stream (E.stream id) =
      SeqLog.ofList base (((log ++ events).drop base).map E.stored) := by
    have hend : base + ((log.drop base).map E.stored).length = log.length := by
      rw [List.length_map, List.length_drop]
      omega
    have hins := heff.stream
    rw [h.stream, hcur, ← hend, SeqLog.insertFrom?_ofList_next] at hins
    rw [← Option.some.inj hins, List.drop_append_of_le_length hbase, List.map_append]
  have hsnap := heff.snapshot
  dsimp only at hsnap
  split_ifs at hsnap ⊢ with hzero
  · refine ⟨hstream, ?_, h.base_le, h.covered_le.trans hlen, hagg ▸ hlive⟩
    rw [hsnap, List.take_append_of_le_length h.covered_le]
    exact h.snapshot
  · refine ⟨hstream, .inr ⟨ctx.currentSnapshot.getD 0 + 1, ?_⟩, hbase.trans hlen, le_rfl,
      hagg ▸ hlive⟩
    rw [hsnap, hk.resolve_left hzero, List.take_length, List.take_length, hagg, hcur,
      List.length_append]

/-- A commit whose load was overtaken, and which found none of its numbers free, did not succeed. -/
theorem CommitEffect.not_taken {K : CqrsEs} {db' : Db}
    {ctx : AggregateContext Entity Event Error} {events : List Event} {pending : List PendingPush}
    (heff : CommitEffect K E db db' id ctx events pending) : ¬ NumberTaken E id db ctx events := by
  rw [numberTaken_iff, heff.stream]
  exact fun h => by cases h

/-- While all events are in the table, the first number of an overtaken commit is taken. -/
theorem StreamHolds.taken_of_lt (h : StreamHolds E db id log base covered)
    {ctx : AggregateContext Entity Event Error} {events : List Event}
    (hbase : base ≤ ctx.currentSequence) (hlt : ctx.currentSequence < log.length)
    (hne : events ≠ []) : NumberTaken E id db ctx events := by
  refine ⟨0, List.length_pos_iff.2 hne, ?_⟩
  rw [Db.row, h.stream, SeqLog.get?_ofList, if_pos (by omega)]
  rw [List.getElem?_eq_getElem (by simp; omega)]
  rfl

/-- A commit of nothing changes nothing of the stream. -/
theorem StreamHolds.commit_nil (h : StreamHolds E db id log base covered) {K : CqrsEs} {db' : Db}
    {ctx : AggregateContext Entity Event Error} {pending : List PendingPush}
    (heff : CommitEffect K E db db' id ctx [] pending) :
    StreamHolds E db' id log base covered := by
  refine h.of_same (Option.some.inj heff.stream).symm ?_
  have hk := K.le_numEvents E.snapshotSize ctx.currentSequence ([] : List Event).length
  have hsnap := heff.snapshot
  dsimp only at hsnap
  rwa [if_pos (by simpa using hk)] at hsnap

/-! ## Calls that run alone -/

/-- The whole load of a call during which nothing else runs. -/
def loadAggregate (E : EventSourced Entity Event Command Error) (db : Db) (id : String) :
    Except (SendError Entity Event Error) (AggregateContext Entity Event Error) :=
  match getSnapshot E (db.snapshots.lookup (E.stream id)) with
  | .error error => .error (.ofPersistence error)
  | .ok snapshot =>
      let ctx := startContext E snapshot
      match replayRows E ctx ((db.stream (E.stream id)).after ctx.currentSequence) with
      | none => .error .deserialization
      | some ctx' => .ok ctx'

/-- A whole command. -/
def sendAlone (K : CqrsEs) (E : EventSourced Entity Event Command Error)
    (fault : Option EngineError) (clock : ℕ → ℤ) (id : String) (command : Command) (mint : JobId)
    (db : Db) : Except (SendError Entity Event Error) (List Event) × Db :=
  match loadAggregate E db id with
  | .error error => (.error error, db)
  | .ok ctx => K.handleAndCommit E fault clock id ctx command mint db

/-- A snapshot that decodes is the fold of the prefix it covers. -/
def SnapshotSound (E : EventSourced Entity Event Command Error) (log : List Event)
    (row : SnapshotRow) : Prop :=
  ∀ l, Lifecycle.ofJson E row.payload = some l →
    row.lastSequence ≤ log.length ∧ l = Lifecycle.replay E (log.take row.lastSequence)

theorem replayRows_currentSnapshot {ctx ctx' : AggregateContext Entity Event Error}
    {rows : List (ℕ × StoredEvent)} (h : replayRows E ctx rows = some ctx') :
    ctx'.currentSnapshot = ctx.currentSnapshot := by
  induction rows generalizing ctx with
  | nil => rw [← Option.some.inj h]
  | cons row rows ih =>
      rw [replayRows] at h
      split at h
      · cases h
      · have hrest := ih h
        exact hrest

/-- The snapshot a load started from is the stored one. -/
theorem loadAggregate_snapshot {ctx : AggregateContext Entity Event Error}
    (h : loadAggregate E db id = .ok ctx) :
    ∀ version ∈ ctx.currentSnapshot, ∃ row, db.snapshots.lookup (E.stream id) = some row ∧
      row.snapshotVersion = version := by
  unfold loadAggregate at h
  split at h
  · cases h
  next snapshot hget =>
    have hstored : snapshot = db.snapshots.lookup (E.stream id) := by
      unfold getSnapshot at hget
      split at hget
      next hnone => rw [← Except.ok.inj hget, hnone]
      next row hrow =>
        split at hget
        · rw [← Except.ok.inj hget, hrow]
        · split at hget
          · rw [← Except.ok.inj hget, hrow]
          · cases hget
    dsimp only at h
    split at h
    · cases h
    next ctx' hreplay =>
      obtain rfl := Except.ok.inj h
      intro version hversion
      rw [replayRows_currentSnapshot hreplay] at hversion
      unfold startContext at hversion
      split at hversion
      · cases hversion
      next row =>
        split at hversion
        · exact ⟨row, hstored.symm, Option.some.inj hversion⟩
        · cases hversion

/-- On a retained stream the load gives the whole history, whatever its snapshot is worth. -/
theorem loadAggregate_retain (hpol : E.compactionPolicy = .retain)
    (hstream : db.stream (E.stream id) = SeqLog.ofList 0 (log.map E.stored))
    (hsnap : ∀ row, db.snapshots.lookup (E.stream id) = some row → SnapshotSound E log row) :
    ∃ version, loadAggregate E db id = .ok ⟨Lifecycle.replay E log, log.length, version⟩ := by
  have hget : getSnapshot E (db.snapshots.lookup (E.stream id)) =
      .ok (db.snapshots.lookup (E.stream id)) := by
    unfold getSnapshot
    cases db.snapshots.lookup (E.stream id) with
    | none => rfl
    | some row => simp only [hpol]
  have hstart : FoldAt E (startContext E (db.snapshots.lookup (E.stream id))) log := by
    have hzero : FoldAt E (⟨.uninitialized, 0, none⟩ : AggregateContext Entity Event Error) log :=
      ⟨by simp, Nat.zero_le _⟩
    cases hrow : db.snapshots.lookup (E.stream id) with
    | none => exact hzero
    | some row =>
        unfold startContext
        cases hdec : (Lifecycle.ofJson E row.payload : Option (Lifecycle Entity Event Error)) with
        | none => simp only [hdec]; exact hzero
        | some l =>
            obtain ⟨hle, rfl⟩ := hsnap row hrow l hdec
            simp only [hdec]
            exact ⟨rfl, hle⟩
  rw [loadAggregate, hget]
  dsimp only
  generalize startContext E (db.snapshots.lookup (E.stream id)) = ctx at hstart
  have hafter : (db.stream (E.stream id)).after ctx.currentSequence =
      SeqLog.rowsFrom (ctx.currentSequence + 1) ((log.drop ctx.currentSequence).map E.stored) := by
    have := SeqLog.after_ofList 0 ctx.currentSequence (log.map E.stored)
    rwa [Nat.zero_add, ← List.map_drop, ← hstream] at this
  rw [hafter, replayRows_stored, hstart.aggregate, Lifecycle.applyAll_replay_take_drop,
    List.length_drop, Nat.add_sub_cancel' hstart.le]
  exact ⟨_, rfl⟩

end Store

end EventSorcery
