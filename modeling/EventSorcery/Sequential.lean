import EventSorcery.Snapshots
import EventSorcery.StoreSafety

/-!
# A compacted stream with one call at a time

Without overlapping calls, the lossy store (a snapshot and the events after it) is as good as the
full history: `compacted_store_keeps_history`. What is read back is the snapshot, so the entity's
codec has to read what it wrote.
-/

namespace EventSorcery

section Alone

variable {Entity Event Command Error : Type} {K : CqrsEs}
  {E : EventSourced Entity Event Command Error} {db : Db} {id : String} {log : List Event}
  {base covered : ℕ}

/-- The entity's codec reads back what it wrote. -/
def EventSourced.RoundTrips (E : EventSourced Entity Event Command Error) : Prop :=
  ∀ entity, E.decodeEntity (E.encodeEntity entity) = some entity

/-- What `Store::load` returns when nothing else runs. -/
def storeLoad (E : EventSourced Entity Event Command Error) (db : Db) (id : String) :
    Except (SendError Entity Event Error) (Option Entity) :=
  match loadAggregate E db id with
  | .error error => .error error
  | .ok ctx => ctx.aggregate.intoResult.mapError .userError

theorem EventSourced.RoundTrips.ofJson_toJson (h : E.RoundTrips) {l : Lifecycle Entity Event Error}
    (hl : l.isFailed = false) : Lifecycle.ofJson E (l.toJson E) = some l := by
  cases l with
  | uninitialized => exact Lifecycle.ofJson_toJson_uninitialized E
  | live entity => rw [Lifecycle.ofJson_toJson_live, h entity]; rfl
  | failed error last => cases hl

/-- A load gives the whole history, deleted events included. -/
theorem StreamHolds.loadAggregate (h : StreamHolds E db id log base covered)
    (hserde : E.RoundTrips) :
    ∃ version, EventSorcery.loadAggregate E db id =
      .ok ⟨Lifecycle.replay E log, log.length, version⟩ := by
  have hstart : ∃ snapshot, getSnapshot E (db.snapshots.lookup (E.stream id)) = .ok snapshot ∧
      FoldAt E (startContext E snapshot) log ∧
      base ≤ (startContext E snapshot).currentSequence := by
    rcases h.snapshot with ⟨hnone, rfl⟩ | ⟨version, hsome⟩
    · exact ⟨none, by rw [hnone]; rfl, ⟨by simp [startContext], Nat.zero_le _⟩, h.base_le⟩
    · have hlive : (Lifecycle.replay E (log.take covered)).isFailed = false := by
        refine Lifecycle.not_isFailed_of_append E (log.drop covered) ?_
        rw [List.take_append_drop]
        exact h.live
      have hdec := hserde.ofJson_toJson hlive
      refine ⟨some ⟨covered, version, (Lifecycle.replay E (log.take covered)).toJson E⟩, ?_, ?_, ?_⟩
      · rw [hsome, getSnapshot]
        simp only [hdec]
        cases E.compactionPolicy <;> rfl
      · simp only [startContext, hdec]
        exact ⟨rfl, h.covered_le⟩
      · simp only [startContext, hdec]
        exact h.base_le
  obtain ⟨snapshot, hget, hfold, hbase⟩ := hstart
  obtain ⟨ctx, hread, hctx, -, hall⟩ := replayRows_foldAt h hfold (.inl hbase)
  obtain ⟨aggregate, seq, version⟩ := ctx
  obtain rfl : seq = log.length := hall hbase
  have hagg : aggregate = _ := hctx.aggregate
  rw [List.take_length] at hagg
  refine ⟨version, ?_⟩
  rw [EventSorcery.loadAggregate, hget]
  dsimp only
  rw [hread, hagg]

/-- The jobs a command would dispatch. -/
def dispatched (E : EventSourced Entity Event Command Error) (db : Db) (id : String)
    (command : Command) (mint : JobId) : List PendingPush :=
  match loadAggregate E db id with
  | .error _ => []
  | .ok ctx => (ctx.aggregate.handle E command mint (some [])).2.getD []

/-- **A whole command** fails and changes nothing, or appends what its handler answered to the fold
of all events before. -/
theorem StreamHolds.sendAlone (h : StreamHolds E db id log base covered) (hwhole : SnapshotsWhole E)
    {version : Option ℕ}
    (hload : EventSorcery.loadAggregate E db id =
      .ok ⟨Lifecycle.replay E log, log.length, version⟩)
    (fault : Option EngineError) (clock : ℕ → ℤ) {command : Command} {mint : JobId}
    (hfresh : ∀ push ∈ dispatched E db id command mint, jobStream push.jobId ≠ E.stream id) :
    (∃ error, sendAlone K E fault clock id command mint db = (.error error, db)) ∨
      ∃ events pending covered', (sendAlone K E fault clock id command mint db).1 = .ok events ∧
        (Lifecycle.replay E log).handle E command mint (some []) = (.ok events, some pending) ∧
        CommitEffect K E db (sendAlone K E fault clock id command mint db).2 id
          ⟨Lifecycle.replay E log, log.length, version⟩ events pending ∧
        StreamHolds E (sendAlone K E fault clock id command mint db).2 id (log ++ events) base
          covered' := by
  have hsend : EventSorcery.sendAlone K E fault clock id command mint db =
      K.handleAndCommit E fault clock id ⟨Lifecycle.replay E log, log.length, version⟩ command mint
        db := by
    rw [EventSorcery.sendAlone, hload]
  rw [hsend]
  cases hout : (K.handleAndCommit E fault clock id ⟨Lifecycle.replay E log, log.length, version⟩
      command mint db).1 with
  | error error => exact .inl ⟨error, Prod.ext hout (handleAndCommit_error hout)⟩
  | ok events =>
      right
      obtain ⟨scope, hhandle, hcommit, hdb⟩ := handleAndCommit_ok hout
      obtain ⟨pending, hscope⟩ := handle_scope E (Lifecycle.replay E log) command mint []
      obtain rfl : scope = some pending := (congrArg Prod.snd hhandle).symm.trans hscope
      have hpushes : dispatched E db id command mint = pending := by
        rw [dispatched, hload]
        exact congrArg (Option.getD · []) hscope
      have heff := commitEvents_ok (fun push hp => hfresh push (hpushes ▸ hp)) hcommit
      rw [← hdb] at heff
      have hctx : FoldAt E ⟨Lifecycle.replay E log, log.length, version⟩ log :=
        ⟨by rw [List.take_length], le_rfl⟩
      exact ⟨events, pending, _, rfl, hhandle, heff, h.commit hctx heff rfl
        (Lifecycle.applyAll_of_handle_eq_ok E h.live (congrArg Prod.fst hhandle))
        (hwhole.commitSnapshotToEvent hhandle K _)⟩

end Alone

namespace Sequential

variable {Entity Event Command Error : Type}

/-- A whole command, or a compaction run. -/
inductive Op (Command : Type) where
  | send (fault : Option EngineError) (clock : ℕ → ℤ) (command : Command) (mint : JobId)
  | compact

/-- The database, the events of the commands that succeeded, and every row that was ever inserted into
the stream. -/
structure State (Event : Type) where
  db : Db
  log : List Event
  history : List (ℕ × StoredEvent)

section Machine

variable (K : CqrsEs) (E : EventSourced Entity Event Command Error) (id : String)

/-- What an operation does to the database, and the events it tells its caller. A dispatch draws an
id that is not the stream's own. -/
def act (db : Db) : Op Command → List Event × Db
  | .send fault clock command mint =>
      if ∀ push ∈ dispatched E db id command mint, jobStream push.jobId ≠ E.stream id then
        let sent := sendAlone K E fault clock id command mint db
        (sent.1.toOption.getD [], sent.2)
      else ([], db)
  | .compact => ([], compactEvents E db)

def step (s : State Event) (op : Op Command) : State Event where
  db := (act K E id s.db op).2
  log := s.log ++ (act K E id s.db op).1
  history := s.history ++ StreamVersion.inserted (E.stream id) s.db (act K E id s.db op).2

/-- The commands and compaction runs on one stream, one after the other, from an empty database. -/
def machine : Machine (State Event) (Op Command) := ⟨⟨.empty, [], []⟩, step K E id⟩

end Machine

variable {K : CqrsEs} {E : EventSourced Entity Event Command Error} {id : String} {s : State Event}

/-- The tables hold the history, and every row was numbered one above the one before. -/
structure Inv (E : EventSourced Entity Event Command Error) (id : String) (s : State Event) :
    Prop where
  holds : ∃ base covered, StreamHolds E s.db id s.log base covered
  history : s.history = SeqLog.rowsFrom 1 (s.log.map E.stored)

theorem inv_init : Inv E id (machine K E id).init := ⟨⟨0, 0, .empty E id⟩, rfl⟩

/-- The rows between the histories before and after. -/
theorem inserted_holds {db db' : Db} {log events : List Event} {base base' covered covered' : ℕ}
    (h : StreamHolds E db id log base covered)
    (h' : StreamHolds E db' id (log ++ events) base' covered') (hbase : base ≤ base')
    (hlog : base' ≤ log.length) :
    StreamVersion.inserted (E.stream id) db db' =
      SeqLog.rowsFrom (log.length + 1) (events.map E.stored) := by
  have hrow : ∀ q, base < q → (db.row (E.stream id) q).isNone = decide (log.length < q) := by
    intro q hq
    rw [Db.row, h.stream, SeqLog.get?_ofList, if_pos hq, Bool.eq_iff_iff,
      Option.isNone_iff_eq_none, List.getElem?_eq_none_iff, List.length_map, List.length_drop,
      decide_eq_true_iff]
    omega
  have hsplit : (db'.stream (E.stream id)).rows =
      SeqLog.rowsFrom (base' + 1) ((log.drop base').map E.stored) ++
        SeqLog.rowsFrom (log.length + 1) (events.map E.stored) := by
    rw [h'.stream, SeqLog.rows_ofList, List.drop_append_of_le_length hlog, List.map_append,
      SeqLog.rowsFrom_append, List.length_map, List.length_drop,
      show base' + 1 + (log.length - base') = log.length + 1 by omega]
  have hmem : ∀ {q₀ : ℕ} {xs : List StoredEvent} {r : ℕ × StoredEvent},
      r ∈ SeqLog.rowsFrom q₀ xs → q₀ ≤ r.1 ∧ r.1 < q₀ + xs.length := by
    intro q₀ xs r hr
    obtain ⟨hle, hget⟩ := SeqLog.mem_rowsFrom.1 hr
    have := (List.getElem?_eq_some_iff.1 hget).1
    omega
  -- What was there keeps its number, and everything above is new.
  rw [StreamVersion.inserted, hsplit, List.filter_append, List.filter_eq_nil_iff.2,
    List.filter_eq_self.2, List.nil_append]
  · intro r hr
    have := hmem hr
    rw [hrow r.1 (by omega), decide_eq_true_iff]
    omega
  · intro r hr
    have := hmem hr
    rw [List.length_map, List.length_drop] at this
    rw [hrow r.1 (by omega), decide_eq_true_iff]
    omega

theorem inserted_eq_nil {db db' : Db} {t : StreamIdentity}
    (h : ∀ q x, db'.row t q = some x → db.row t q = some x) :
    StreamVersion.inserted t db db' = [] := by
  refine List.filter_eq_nil_iff.2 fun r hr => ?_
  rw [h r.1 r.2 (SeqLog.get?_eq_some.2 hr)]
  exact Bool.false_ne_true

/-- A row that compaction leaves was there, and one it takes was covered by the snapshot. -/
theorem row_compactEvents (db : Db) (t : StreamIdentity) (q : ℕ) :
    (compactEvents E db).row t q = db.row t q ∨
      (compactEvents E db).row t q = none ∧ q ≤ db.covered t := by
  rw [compactEvents_eq]
  split
  · exact .inl rfl
  · rw [Db.row, Db.row, stream_deleteCovered]
    split_ifs
    · rw [SeqLog.get?_deleteUpTo]
      split_ifs with hq
      · exact .inr ⟨rfl, hq⟩
      · exact .inl rfl
    · exact .inl rfl

theorem inv_step (hwhole : SnapshotsWhole E) (hserde : E.RoundTrips) (inv : Inv E id s)
    (op : Op Command) : Inv E id (step K E id s op) := by
  obtain ⟨base, covered, hholds⟩ := inv.holds
  -- An operation that commits nothing adds nothing to the history.
  have hquiet : ∀ db' : Db, (∃ base' covered', StreamHolds E db' id s.log base' covered') →
      (∀ q x, db'.row (E.stream id) q = some x → s.db.row (E.stream id) q = some x) →
      Inv E id ⟨db', s.log ++ [],
        s.history ++ StreamVersion.inserted (E.stream id) s.db db'⟩ := by
    intro db' hdb' hrows
    rw [inserted_eq_nil hrows, List.append_nil, List.append_nil]
    exact ⟨hdb', inv.history⟩
  have hidle := hquiet s.db ⟨base, covered, hholds⟩ fun _ _ h => h
  unfold step
  cases op with
  | send fault clock command mint =>
      rw [act]
      split_ifs with hfresh
      · obtain ⟨version, hload⟩ := hholds.loadAggregate hserde
        rcases hholds.sendAlone (K := K) hwhole hload fault clock hfresh with
          ⟨error, hsent⟩ | ⟨events, pending, covered', hok, -, -, hholds'⟩
        · simp only [hsent]
          exact hidle
        · simp only [hok]
          refine ⟨⟨base, covered', hholds'⟩, ?_⟩
          have hbase : base ≤ s.log.length := hholds.base_le.trans hholds.covered_le
          dsimp only
          rw [inserted_holds hholds hholds' le_rfl hbase, inv.history]
          change _ = SeqLog.rowsFrom 1 ((s.log ++ events).map E.stored)
          rw [List.map_append, SeqLog.rowsFrom_append, List.length_map, Nat.add_comm 1]
      · exact hidle
  | compact =>
      obtain ⟨base', hholds', -⟩ := hholds.compact
      refine hquiet _ ⟨base', covered, hholds'⟩ fun q x h => ?_
      rcases row_compactEvents (E := E) s.db (E.stream id) q with hsame | ⟨hnone, -⟩
      · exact hsame ▸ h
      · cases hnone.symm.trans h

/-- The snapshot row of a stream holds the fold of all events up to its number. -/
def SnapshotHolds (E : EventSourced Entity Event Command Error) (log : List Event)
    (row : SnapshotRow) : Prop :=
  row.lastSequence ≤ log.length ∧
    Lifecycle.ofJson E row.payload = some (Lifecycle.replay E (log.take row.lastSequence))

/-- Two bookings with a compaction run after each. -/
def compactedLedger : List (Op (List ℤ)) :=
  [.send none (fun _ => 0) [1] "job", .compact, .send none (fun _ => 0) [20, 30] "job", .compact]

end Sequential

end EventSorcery
