import EventSorcery.Projection

/-!
# The job tables refine abstract jobs

A job is represented when its stream holds the events of a `JobRecord` under the numbers 1, 2, ...
and its queue row holds the fold of the first `version` of them with the record's lease. Each
operation on a represented job is an operation on its record, and leaves every other job alone.
-/

namespace EventSorcery

/-- The tables hold the job `r` under `id`. -/
structure Represents (db : Db) (id : JobId) (r : JobRecord) : Prop where
  stream : db.stream (jobStream id) = SeqLog.ofList 0 (r.log.map JobEvent.stored)
  row : db.jobQueue.lookup id = some ⟨r.version, r.rowState.toJson jobEntity, r.lease⟩
  bounded : r.log.length ≤ i64Max

/-- The tables hold nothing under `id`. -/
structure Absent (db : Db) (id : JobId) : Prop where
  stream : db.stream (jobStream id) = SeqLog.empty
  row : db.jobQueue.lookup id = none

/-- The tables agree on a job. -/
structure SameJob (db db' : Db) (id : JobId) : Prop where
  stream : db'.stream (jobStream id) = db.stream (jobStream id)
  row : db'.jobQueue.lookup id = db.jobQueue.lookup id

theorem SameJob.refl (db : Db) (id : JobId) : SameJob db db id := ⟨rfl, rfl⟩

theorem SameJob.symm {db db' : Db} {id : JobId} (h : SameJob db db' id) : SameJob db' db id :=
  ⟨h.stream.symm, h.row.symm⟩

theorem Represents.of_same {db db' : Db} {id : JobId} {r : JobRecord} (h : Represents db id r)
    (hs : SameJob db db' id) : Represents db' id r :=
  ⟨hs.stream.trans h.stream, hs.row.trans h.row, h.bounded⟩

theorem Absent.of_same {db db' : Db} {id : JobId} (h : Absent db id) (hs : SameJob db db' id) :
    Absent db' id :=
  ⟨hs.stream.trans h.stream, hs.row.trans h.row⟩

theorem stored_injective : Function.Injective JobEvent.stored := fun e e' h => by
  have : e.toJson = e'.toJson := congrArg StoredEvent.payload h
  have := congrArg JobEvent.ofJson this
  simpa using this

/-- The history a stream stands for is determined. -/
theorem log_unique {db : Db} {s : StreamIdentity} {log log' : List JobEvent}
    (h : db.stream s = SeqLog.ofList 0 (log.map JobEvent.stored))
    (h' : db.stream s = SeqLog.ofList 0 (log'.map JobEvent.stored)) : log = log' := by
  refine stored_injective.list_map ?_
  rw [← SeqLog.values_ofList 0 (log.map JobEvent.stored), ← h, h', SeqLog.values_ofList]

/-- The rows of a represented stream are its events. -/
theorem Represents.row_eq {db : Db} {id : JobId} {r : JobRecord} (h : Represents db id r) (k : ℕ) :
    db.row (jobStream id) (k + 1) = r.log[k]?.map JobEvent.stored := by
  rw [Db.row, h.stream, SeqLog.get?_ofList, if_pos (Nat.succ_pos k), List.getElem?_map]
  simp

theorem Absent.row_eq {db : Db} {id : JobId} (h : Absent db id) (q : ℕ) :
    db.row (jobStream id) q = none := by
  rw [Db.row, h.stream, SeqLog.get?_empty]

/-- The record the tables stand for is determined. -/
theorem Represents.unique {db : Db} {id : JobId} {r r' : JobRecord} (h : Represents db id r)
    (h' : Represents db id r') : r = r' := by
  obtain ⟨hversion, -, hlease⟩ := ViewRow.mk.inj (Option.some.inj (h.row.symm.trans h'.row))
  exact JobRecord.ext (log_unique h.stream h'.stream) (Int.ofNat_inj.1 hversion) hlease

theorem Absent.not_represents {db : Db} {id : JobId} {r : JobRecord} (h : Absent db id) :
    ¬ Represents db id r := fun hr => by
  have := h.row.symm.trans hr.row
  cases this

/-! ## Writing an event of a job -/

theorem insert?_next {db : Db} {id : JobId} {r : JobRecord} (h : Represents db id r)
    (e : JobEvent) :
    (db.stream (jobStream id)).insert? (r.log.length + 1) e.stored =
      some (SeqLog.ofList 0 ((r.log ++ [e]).map JobEvent.stored)) := by
  rw [h.stream, List.map_append, List.map_singleton]
  have := SeqLog.insert?_ofList_next 0 (r.log.map JobEvent.stored) e.stored
  rwa [Nat.zero_add, List.length_map] at this

theorem insert?_taken {db : Db} {id : JobId} {r : JobRecord} (h : Represents db id r) {q : ℕ}
    (hpos : 0 < q) (hq : q ≤ r.log.length) (x : StoredEvent) :
    (db.stream (jobStream id)).insert? q x = none := by
  rw [h.stream]
  exact SeqLog.insert?_ofList_taken hpos (by simpa using hq) x

/-- The engine's append for a represented job, at the number after the row's version: it goes in
when the row is up to date, is contended when the row is behind, and fails beyond the column. -/
theorem appendJobEvent_represented {db : Db} {id : JobId} {r : JobRecord} (h : Represents db id r)
    (e : JobEvent) :
    appendJobEvent db (e.serialized id (r.version + 1)) =
      if r.version + 1 ≤ i64Max then
        if r.version = r.log.length then
          .ok (some ((r.version + 1 : ℕ), db.setStream (jobStream id)
            (SeqLog.ofList 0 ((r.log ++ [e]).map JobEvent.stored))))
        else .ok none
      else .error (.append .tryFromInt) := by
  rw [JobEvent.serialized, appendJobEvent_eq]
  by_cases hb : r.version + 1 ≤ i64Max
  · rw [if_pos hb, if_pos hb]
    by_cases hv : r.version = r.log.length
    · rw [if_pos hv, hv, insert?_next h]
    · have := r.version_le
      rw [if_neg hv, insert?_taken h (Nat.succ_pos _) (by omega)]
  · rw [if_neg hb, if_neg hb]

theorem sameJob_setStream {db : Db} {id id' : JobId} (hne : id' ≠ id) (l : SeqLog StoredEvent) :
    SameJob db (db.setStream (jobStream id) l) id' :=
  ⟨by rw [Db.stream_setStream, Function.update_of_ne fun h => hne (jobStream_inj.1 h)], rfl⟩

theorem sameJob_setRow {db : Db} {id id' : JobId} (hne : id' ≠ id) (row : ViewRow) :
    SameJob db (db.setRow id row) id' :=
  ⟨rfl, by rw [Db.lookup_jobQueue_setRow, if_neg hne]⟩

theorem SameJob.trans {db db' db'' : Db} {id : JobId} (h : SameJob db db' id)
    (h' : SameJob db' db'' id) : SameJob db db'' id :=
  ⟨h'.stream.trans h.stream, h'.row.trans h.row⟩

/-- An event written together with its row. -/
theorem represents_appendWithRow (db : Db) (id : JobId) {r : JobRecord} {e : JobEvent}
    {st : JobState} (lease : Option ℤ) (hv : r.version = r.log.length)
    (hst : jobFold (r.log ++ [e]) = .live st) (hb : r.version + 1 ≤ i64Max) :
    Represents
      ((db.setStream (jobStream id) (SeqLog.ofList 0 ((r.log ++ [e]).map JobEvent.stored))).setRow
        id ⟨(r.version + 1 : ℕ), liveJson st, lease⟩)
      id (r.appendWithRow e lease hv (.of_eq hst)) := by
  have hrow : (r.appendWithRow e lease hv (.of_eq hst)).rowState = .live st :=
    (JobRecord.rowState_eq (by simp [hv])).trans hst
  refine ⟨by simp [Db.stream_setStream], ?_, by simpa [← hv] using hb⟩
  rw [Db.lookup_jobQueue_setRow, if_pos rfl, hrow]
  rfl

/-! ## Claims -/

/-- Run a claim call against the database. -/
def ClaimCall.run (fault : Option SqliteJobError) (call : ClaimCall) (db : Db) :
    Except SqliteJobError (ClaimOutcome WonClaim) × Db :=
  claimJob fault call.jobId call.plan db

theorem evolve_claimed {st : JobState} {job : JobFields} (h : st.fields? = some job)
    (worker : WorkerId) (c : ClaimId) (lease : Instant) :
    st.evolve (.claimed worker c lease) = .ok (some
      (.claimed job.kind job.payload worker c job.runAt job.attempt (job.claims + 1))) := by
  cases st <;> simp only [JobState.fields?, Option.some.injEq, reduceCtorEq] at h <;>
    subst h <;> rfl

theorem evolve_dead {st : JobState} {job : JobFields} (h : st.fields? = some job)
    (reason : DeadReason) (error : String) :
    st.evolve (.dead reason error) = .ok (some (.dead reason)) := by
  cases st <;> simp only [JobState.fields?, Option.some.injEq, reduceCtorEq] at h <;> rfl

/-- A claim call found nothing to do, lost the race, or met a storage fault. -/
def NothingClaimed (fault : Option SqliteJobError)
    (out : Except SqliteJobError (ClaimOutcome WonClaim)) : Prop :=
  (∃ error, fault = some error ∧ out = .error error) ∨ out = .ok .contended ∨ out = .ok .skip

/-- What a claim call on a represented job did when it changed something: the row was up to date
and runnable, and one event went in together with its row. -/
inductive ClaimEffect (call : ClaimCall) (r : JobRecord) :
    ClaimOutcome WonClaim → JobRecord → Prop where
  | won {st : JobState} {job : JobFields} {leaseUntil : Instant}
      (hv : r.version = r.log.length) (live : LiveLog (r.log ++ [call.event leaseUntil]))
      (row : r.rowState = .live st) (fields : st.fields? = some job)
      (runs : runnable st r.lease call.nowMs) (budget : job.claims < call.maxClaims)
      (lease : leaseUntil.1 = call.nowMs + call.leaseMs) :
      ClaimEffect call r (.won ⟨(r.version + 1 : ℕ), call.mint, job.attempt, job.payload⟩)
        (r.appendWithRow (call.event leaseUntil) (some leaseUntil.1) hv live)
  | abandoned {st : JobState} {job : JobFields}
      (hv : r.version = r.log.length) (live : LiveLog (r.log ++ [abandonedEvent]))
      (row : r.rowState = .live st) (fields : st.fields? = some job)
      (runs : runnable st r.lease call.nowMs) (budget : call.maxClaims ≤ job.claims) :
      ClaimEffect call r .abandoned (r.appendWithRow abandonedEvent none hv live)

theorem readJobProjection_represented {db : Db} {id : JobId} {r : JobRecord}
    (h : Represents db id r) {st : JobState} (hst : r.rowState = .live st) :
    readJobProjectionForClaim db id = some ⟨r.version, liveJson st, r.lease⟩ := by
  rw [readJobProjectionForClaim, h.row, hst]
  rfl

/-- The two decisions that write append an event the row's state accepts and write its fold. -/
theorem claim_append {db : Db} {id : JobId} {r : JobRecord} (h : Represents db id r)
    {e : JobEvent} {st st' : JobState} (hst : r.rowState = .live st)
    (hev : st.evolve e = .ok (some st')) (hb : r.version + 1 ≤ i64Max) (lease : Option ℤ) :
    appendJobEvent db (e.serialized id (r.version + 1)) = .ok none ∨
      ∃ (hv : r.version = r.log.length) (live : LiveLog (r.log ++ [e])) (db₁ : Db),
        appendJobEvent db (e.serialized id (r.version + 1)) = .ok (some ((r.version + 1 : ℕ), db₁)) ∧
        Represents (writeJobProjection db₁ id (r.version + 1 : ℕ) (liveJson st') lease) id
          (r.appendWithRow e lease hv live) ∧
        ∀ id' ≠ id,
          SameJob db (writeJobProjection db₁ id (r.version + 1 : ℕ) (liveJson st') lease) id' := by
  rw [appendJobEvent_represented h, if_pos hb]
  by_cases hv : r.version = r.log.length
  · have hfold : jobFold (r.log ++ [e]) = .live st' :=
      (liveLog_concat_iff ((JobRecord.rowState_eq hv).symm.trans hst)).2 hev
    refine .inr ⟨hv, .of_eq hfold, _, if_pos hv, represents_appendWithRow db id lease hv hfold hb,
      fun id' hne => (sameJob_setStream hne _).trans (sameJob_setRow hne _)⟩
  · exact .inl (if_neg hv)

/-- **A claim call on a represented job** changes nothing, or wins or abandons as its decision says
and leaves every other job alone. -/
theorem ClaimCall.run_cases {db : Db} {call : ClaimCall} {r : JobRecord}
    (h : Represents db call.jobId r) (fault : Option SqliteJobError) :
    NothingClaimed fault (call.run fault db).1 ∧ (call.run fault db).2 = db ∨
      ∃ out r', (call.run fault db).1 = .ok out ∧ ClaimEffect call r out r' ∧
        Represents (call.run fault db).2 call.jobId r' ∧
        ∀ id' ≠ call.jobId, SameJob db (call.run fault db).2 id' := by
  unfold ClaimCall.run
  cases fault with
  | some error => exact .inl ⟨.inl ⟨error, rfl, rfl⟩, rfl⟩
  | none =>
      obtain ⟨st, hst⟩ := r.rowState_live
      have hread := readJobProjection_represented h hst
      rcases call.plan_live st r.lease (r.version_le.trans h.bounded) with
        hskip | ⟨hb, job, hjob, hrun, ⟨hbud, hplan⟩ | ⟨hbud, leaseUntil, hlease, hplan⟩⟩
      · rw [claimJob_skip (hread ▸ hskip)]
        exact .inl ⟨.inr (.inr rfl), rfl⟩
      · rw [claimJob_abandon (hread ▸ hplan)]
        rcases claim_append (e := abandonedEvent) h hst (evolve_dead hjob _ _) hb none with
          hcont | ⟨hv, live, db₁, happ, hrep, hsame⟩
        · rw [hcont]
          exact .inl ⟨.inr (.inl rfl), rfl⟩
        · rw [happ]
          exact .inr ⟨_, _, rfl, .abandoned hv live hst hjob hrun hbud, hrep, hsame⟩
      · rw [claimJob_claim (hread ▸ hplan)]
        rcases claim_append (e := call.event leaseUntil) h hst (evolve_claimed hjob _ _ _) hb
          (some leaseUntil.1) with hcont | ⟨hv, live, db₁, happ, hrep, hsame⟩
        · rw [hcont]
          exact .inl ⟨.inr (.inl rfl), rfl⟩
        · rw [happ]
          exact .inr ⟨_, _, rfl, .won hv live hst hjob hrun hbud hlease, hrep, hsame⟩

/-- A claim call on an unknown job skips. -/
theorem ClaimCall.run_absent {db : Db} {call : ClaimCall} (h : Absent db call.jobId)
    (fault : Option SqliteJobError) :
    NothingClaimed fault (call.run fault db).1 ∧ (call.run fault db).2 = db := by
  unfold ClaimCall.run
  cases fault with
  | some error => exact ⟨.inl ⟨error, rfl, rfl⟩, rfl⟩
  | none =>
      have hread : readJobProjectionForClaim db call.jobId = none := by
        rw [readJobProjectionForClaim, h.row]; rfl
      rw [claimJob_skip (by rw [hread]; rfl)]
      exact ⟨.inr (.inr rfl), rfl⟩

/-- The event a claim appended, and where. -/
theorem ClaimEffect.log_eq {call : ClaimCall} {r r' : JobRecord} {out : ClaimOutcome WonClaim}
    (h : ClaimEffect call r out r') :
    r.version = r.log.length ∧ ∃ e, r'.log = r.log ++ [e] ∧
      ((∃ lease, e = call.event lease) ∨ e = abandonedEvent) := by
  cases h with
  | won hv => exact ⟨hv, _, rfl, .inl ⟨_, rfl⟩⟩
  | abandoned hv => exact ⟨hv, _, rfl, .inr rfl⟩

/-! ## Renewals -/

def JobState.status : JobState → JobStatus
  | .pending .. => .pending
  | .claimed .. => .claimed
  | .done => .done
  | .dead _ => .dead

/-- The generated column shows the status of the state it is computed from. -/
theorem jobStatus_liveJson (st : JobState) : jobStatus (liveJson st) = some st.status := by
  cases st <;> rfl

/-- A renewal writes the lease column of one row and nothing else. -/
theorem renewJob_frame (id : JobId) (claimSeq newLease : ℤ) (db : Db) :
    (renewJob id claimSeq newLease db).2.events = db.events ∧
      (renewJob id claimSeq newLease db).2.snapshots = db.snapshots ∧
      ∀ id', ((renewJob id claimSeq newLease db).2.jobQueue.lookup id').map
          (fun row => (row.version, row.payload)) =
        (db.jobQueue.lookup id').map fun row => (row.version, row.payload) := by
  unfold renewJob
  split
  · exact ⟨rfl, rfl, fun _ => rfl⟩
  next row hrow =>
    split_ifs
    · refine ⟨rfl, rfl, fun id' => ?_⟩
      rw [Db.lookup_jobQueue_setRow]
      split_ifs with hid
      · rw [hid, hrow]; rfl
      · rfl
    · exact ⟨rfl, rfl, fun _ => rfl⟩

theorem renewJob_absent {db : Db} {id : JobId} (h : Absent db id) (claimSeq newLease : ℤ) :
    renewJob id claimSeq newLease db = (.lost, db) := by
  rw [renewJob, h.row]

/-- **A renewal on a represented job** holds exactly when the row shows a claim at its number; then
it writes the lease, otherwise it does nothing. -/
theorem renewJob_represented {db : Db} {id : JobId} {r : JobRecord} (h : Represents db id r)
    {st : JobState} (hst : r.rowState = .live st) (claimSeq newLease : ℤ) :
    (r.version = claimSeq ∧ st.status = .claimed) ∧
        (renewJob id claimSeq newLease db).1 = .held ∧
        Represents (renewJob id claimSeq newLease db).2 id (r.withLease (some newLease)) ∧
        (∀ id' ≠ id, SameJob db (renewJob id claimSeq newLease db).2 id') ∨
      ¬ (r.version = claimSeq ∧ st.status = .claimed) ∧
        renewJob id claimSeq newLease db = (.lost, db) := by
  have hstatus : jobStatus (r.rowState.toJson jobEntity) = some st.status :=
    hst ▸ jobStatus_liveJson st
  unfold renewJob
  rw [h.row]
  simp only [hstatus, Option.some.injEq]
  split_ifs with hc
  · refine .inl ⟨hc, rfl, ⟨h.stream, ?_, h.bounded⟩, fun id' hne => sameJob_setRow hne _⟩
    rw [Db.lookup_jobQueue_setRow, if_pos rfl]
    rfl
  · exact .inr ⟨hc, rfl⟩

/-! ## Enqueues -/

/-- The tables hold a record, or nothing, under every id. -/
def JobsHeld (db : Db) : Prop := ∀ id, Absent db id ∨ ∃ r, Represents db id r

theorem JobsHeld.absent_of_row {db : Db} (h : JobsHeld db) {id : JobId}
    (hrow : db.jobQueue.lookup id = none) : Absent db id := by
  rcases h id with habs | ⟨r, hr⟩
  · exact habs
  · rw [hr.row] at hrow
    cases hrow

/-- A stream that holds one event under number 1. -/
theorem stream_eq_singleton {db : Db} {s : StreamIdentity} {x : StoredEvent}
    (hone : db.row s 1 = some x) (hrest : ∀ q, q ≠ 1 → db.row s q = none) :
    db.stream s = SeqLog.ofList 0 [x] := by
  refine SeqLog.ext_get? fun q => ?_
  change db.row s q = _
  rw [SeqLog.get?_ofList]
  by_cases hq : q = 1
  · subst hq
    simpa using hone
  · rw [hrest q hq]
    split_ifs with h
    · rw [List.getElem?_eq_none (by simp; omega)]
    · rfl

/-- A seeded job is a new record; the job intents of a commit change no other job. -/
theorem JobsSeeded.represents {db db' : Db} {jobs : List EnqueueRequest} (h : JobsSeeded db db' jobs)
    {job : EnqueueRequest} (hjob : job ∈ jobs) (habs : Absent db job.jobId) :
    ∃ runAt, Represents db' job.jobId (.enqueue job.kind job.payload runAt) := by
  obtain ⟨runAt, -, -, -, hone, hrow⟩ := h.seeded job hjob
  refine ⟨runAt, stream_eq_singleton hone fun q hq => ?_, hrow, one_le_i64Max⟩
  rw [h.rows _ _ fun h1 => absurd h1 hq, Db.row, habs.stream, SeqLog.get?_empty]

theorem JobsSeeded.sameJob {db db' : Db} {jobs : List EnqueueRequest} (h : JobsSeeded db db' jobs)
    {id : JobId} (hid : ∀ job ∈ jobs, id ≠ job.jobId) : SameJob db db' id :=
  ⟨SeqLog.ext_get? fun q => h.rows _ q fun _ job hjob heq => hid job hjob (jobStream_inj.1 heq),
    h.queue id hid⟩

/-- Inserting events leaves every stream that none of them names. -/
theorem foldlM_insertEvent_frame {db db' : Db} {events : List SerializedEvent} {s : StreamIdentity}
    (h : events.foldlM Db.insertEvent db = .ok db') (hs : ∀ e ∈ events, e.identity ≠ s) :
    db'.stream s = db.stream s ∧ db'.jobQueue = db.jobQueue := by
  induction events generalizing db with
  | nil => obtain rfl := Except.ok.inj h; exact ⟨rfl, rfl⟩
  | cons e events ih =>
      obtain ⟨db₁, he, hrest⟩ := Except.bind_eq_ok.1 h
      obtain ⟨-, hrow, -, hqueue⟩ := insertEvent_eq_ok he
      obtain ⟨hstream', hqueue'⟩ := ih hrest fun e' h' => hs e' (List.mem_cons_of_mem _ h')
      refine ⟨hstream'.trans (SeqLog.ext_get? fun q => ?_), hqueue'.trans hqueue⟩
      exact (hrow s q).trans (if_neg fun hk => hs e List.mem_cons_self hk.1.symm)

/-- A commit touches its own stream and those of its job intents. -/
theorem commitSerialized_frame (fault : Option EngineError) (request : CommitRequest) (db : Db)
    {t : StreamIdentity} (ht : t ≠ request.stream) (hjob : t.aggregateType ≠ jobAggregateType) :
    (commitSerialized fault request db).2.stream t = db.stream t := by
  cases h : (commitSerialized fault request db).1 with
  | error error => rw [commitSerialized_error h]
  | ok u =>
      obtain ⟨hid, -, db₁, db₂, hins, hsnap, hjobs⟩ := commitSerialized_ok h
      have hseeded := foldlM_seedJob_eq_ok hjobs
      have hstream₂ := (writeSnapshot_eq_ok hsnap).1
      have hstream₁ := (foldlM_insertEvent_frame (insertSerializedEventsBatch_eq_ok.1 hins).2
        (s := t) fun e he heq => ht (heq.symm.trans (hid e he))).1
      rw [← hstream₁, ← hstream₂]
      exact SeqLog.ext_get? fun q => hseeded.rows t q fun _ job _ heq =>
        hjob (congrArg StreamIdentity.aggregateType heq)

theorem commit_frame (fault : Option EngineError) (request : CommitRequest) (db : Db)
    {t : StreamIdentity} (ht : t ≠ request.stream) (hjob : t.aggregateType ≠ jobAggregateType) :
    (commit fault request db).2.stream t = db.stream t := by
  unfold commit
  split_ifs
  · rfl
  · exact commitSerialized_frame fault request db ht hjob

theorem commitOpaque_frame (fault : Option EngineError) (request : OpaqueCommitRequest) (db : Db)
    {t : StreamIdentity} (ht : t ≠ request.stream) (hjob : t.aggregateType ≠ jobAggregateType) :
    (commitOpaque fault request db).2.stream t = db.stream t := by
  unfold commitOpaque
  split
  · rfl
  · exact commitSerialized_frame fault _ db ht hjob

/-- **A commit with job intents**, on a stream that is not a job's: each intent is a new record, and
every other job is as it was. -/
theorem commitSerialized_jobs {fault : Option EngineError} {request : CommitRequest} {db : Db}
    (hheld : JobsHeld db) (hs : request.stream.aggregateType ≠ jobAggregateType)
    (h : (commitSerialized fault request db).1 = .ok ()) (id : JobId) :
    SameJob db (commitSerialized fault request db).2 id ∨
      ∃ kind payload runAt, Absent db id ∧
        Represents (commitSerialized fault request db).2 id (.enqueue kind payload runAt) := by
  obtain ⟨hid, -, db₁, db₂, hins, hsnap, hjobs⟩ := commitSerialized_ok h
  have hseeded := foldlM_seedJob_eq_ok hjobs
  obtain ⟨hstream, hqueue, -⟩ := writeSnapshot_eq_ok hsnap
  -- Up to the job intents, no job was touched.
  have hsame : ∀ id, SameJob db db₂ id := fun id => by
    obtain ⟨hstream₁, hqueue₁⟩ := foldlM_insertEvent_frame
      (insertSerializedEventsBatch_eq_ok.1 hins).2 (s := jobStream id) fun e he heq =>
        hs (congrArg StreamIdentity.aggregateType ((hid e he).symm.trans heq))
    exact ⟨by rw [hstream, hstream₁], by rw [hqueue, hqueue₁]⟩
  by_cases hmem : ∃ job ∈ request.jobs, job.jobId = id
  · obtain ⟨job, hjob, rfl⟩ := hmem
    obtain ⟨_, -, -, hnone, -, -⟩ := hseeded.seeded job hjob
    have habs : Absent db job.jobId :=
      hheld.absent_of_row ((hsame job.jobId).row.symm.trans hnone)
    obtain ⟨runAt, hrep⟩ := hseeded.represents hjob (habs.of_same (hsame _))
    exact .inr ⟨_, _, runAt, habs, hrep⟩
  · push Not at hmem
    exact .inl ((hsame id).trans (hseeded.sameJob fun job hjob => (hmem job hjob).symm))

theorem commit_jobs {db : Db} (hheld : JobsHeld db) {request : CommitRequest}
    (hs : request.stream.aggregateType ≠ jobAggregateType) (fault : Option EngineError)
    (id : JobId) :
    SameJob db (commit fault request db).2 id ∨
      ∃ kind payload runAt, Absent db id ∧
        Represents (commit fault request db).2 id (.enqueue kind payload runAt) := by
  cases h : (commit fault request db).1 with
  | error error => rw [commit_error h]; exact .inl (.refl db id)
  | ok u =>
      unfold commit at h ⊢
      split_ifs at h ⊢
      exact commitSerialized_jobs hheld hs h id

theorem commitOpaque_jobs {db : Db} (hheld : JobsHeld db) {request : OpaqueCommitRequest}
    (hs : request.stream.aggregateType ≠ jobAggregateType) (fault : Option EngineError)
    (id : JobId) :
    SameJob db (commitOpaque fault request db).2 id ∨
      ∃ kind payload runAt, Absent db id ∧
        Represents (commitOpaque fault request db).2 id (.enqueue kind payload runAt) := by
  cases h : (commitOpaque fault request db).1 with
  | error error => rw [commitOpaque_error h]; exact .inl (.refl db id)
  | ok u =>
      unfold commitOpaque at h ⊢
      split at h
      · cases h
      · exact commitSerialized_jobs hheld hs h id

/-- The engine's own enqueue of an absent job. -/
theorem enqueueJob_absent {db : Db} {id : JobId} (h : Absent db id) (kind : JobKind)
    (payload : Json) (runAt : Instant) :
    ∃ db', enqueueJob none ((JobEvent.enqueued kind payload runAt).serialized id 1)
        (liveJson (.pending kind payload runAt 0 0)) db = (.ok (), db') ∧
      Represents db' id (.enqueue kind payload runAt) ∧ ∀ id' ≠ id, SameJob db db' id' := by
  have hins : (db.stream (jobStream id)).insert? 1 (JobEvent.enqueued kind payload runAt).stored =
      some (SeqLog.ofList 0 [(JobEvent.enqueued kind payload runAt).stored]) := by
    rw [h.stream]; rfl
  refine ⟨(db.setStream (jobStream id) (SeqLog.ofList 0
    [(JobEvent.enqueued kind payload runAt).stored])).setRow id
      ⟨(1 : ℕ), liveJson (.pending kind payload runAt 0 0), none⟩, ?_,
    ⟨by simp [Db.stream_setStream], by rw [Db.lookup_jobQueue_setRow, if_pos rfl]; rfl,
      one_le_i64Max⟩,
    fun id' hne => (sameJob_setStream hne _).trans (sameJob_setRow hne _)⟩
  rw [enqueueJob_eq, JobEvent.serialized, appendJobEvent_eq, if_pos one_le_i64Max, hins]
  rfl

/-- Enqueueing a job that exists is refused. -/
theorem enqueueJob_represented {db : Db} {id : JobId} {r : JobRecord} (h : Represents db id r)
    (e : JobEvent) (payload : Json) :
    enqueueJob none (e.serialized id 1) payload db = (.error (.duplicateEnqueue id), db) := by
  rw [enqueueJob_eq, JobEvent.serialized, appendJobEvent_eq, if_pos one_le_i64Max,
    insert?_taken h one_pos r.live.length_pos]
  rfl

end EventSorcery
