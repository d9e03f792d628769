import EventSorcery.Abi

/-!
# Engine-owned streams under the C ABI

The engine keeps two kinds of streams of its own in the table that bindings write to: the jobs and
the schema registry. Both are read back when a database is opened. `EngineIntact` is what opening
needs: every job is held with a live history, snapshots of jobs that decode are sound, and the
registry decodes. Every call keeps it, unless it is a commit that names such a stream at its current
version.
-/

namespace EventSorcery

/-- A write that touches job streams and the queue only. -/
structure JobsOnly (db db' : Db) : Prop where
  streams : ∀ t : StreamIdentity, t.aggregateType ≠ jobAggregateType → db'.stream t = db.stream t
  snapshots : db'.snapshots = db.snapshots

theorem JobsOnly.refl (db : Db) : JobsOnly db db := ⟨fun _ _ => rfl, rfl⟩

theorem appendJobEvent_only {db db' : Db} {e : JobEvent} {id : JobId} {q : ℕ} {version : ℤ}
    (h : appendJobEvent db (e.serialized id q) = .ok (some (version, db'))) : JobsOnly db db' := by
  rw [JobEvent.serialized, appendJobEvent_eq] at h
  split_ifs at h
  split at h
  · cases h
  next l _ =>
    obtain ⟨-, rfl⟩ := Prod.mk.inj (Option.some.inj (Except.ok.inj h))
    refine ⟨fun t ht => ?_, rfl⟩
    rw [Db.stream_setStream, Function.update_of_ne fun heq => ht (by rw [heq]; rfl)]

theorem enqueueJobPayload_only (fault : Option SqliteJobError) (request : EnqueueRequest) (db : Db) :
    JobsOnly db (enqueueJobPayload fault request db).2 := by
  unfold enqueueJobPayload enqueuedEvent pendingSeedPayload
  cases instantFromMillis request.runAtMs with
  | error error => exact .refl db
  | ok runAt =>
      cases fault with
      | some error => exact .refl db
      | none =>
          simp only [bind, Except.bind]
          rw [enqueueJob_eq]
          split
          · exact .refl db
          · exact .refl db
          next version db' h =>
            exact ⟨(appendJobEvent_only h).streams, (appendJobEvent_only h).snapshots⟩

/-- A claim's event goes to the job's own stream. -/
theorem ClaimCall.plan_event (call : ClaimCall) (read : Option ClaimRead) :
    call.plan read = .skip ∨
      ∃ e q payload, call.plan read = .abandon (JobEvent.serialized e call.jobId q) payload ∨
        ∃ lease won, call.plan read = .claim (e.serialized call.jobId q) payload lease won := by
  unfold ClaimCall.plan planClaim
  split
  · exact .inl rfl
  next read =>
    split
    next state _ =>
      split_ifs
      · split
        next job _ =>
          unfold planClaimRunnable planAbandon
          dsimp only
          split_ifs
          · exact .inl rfl
          · exact .inr ⟨_, _, _, .inl rfl⟩
          · split
            · exact .inl rfl
            · split
              · exact .inl rfl
              · exact .inr ⟨_, _, _, .inr ⟨_, _, rfl⟩⟩
        · exact .inl rfl
      · exact .inl rfl
    · exact .inl rfl

theorem claimJobAs_only (fault : Option SqliteJobError) (call : ClaimCall) (db : Db) :
    JobsOnly db (claimJobAs fault call db).2 := by
  unfold claimJobAs
  split_ifs
  · change JobsOnly db (claimJob fault call.jobId call.plan db).2
    cases fault with
    | some error => exact .refl db
    | none =>
        rcases call.plan_event (readJobProjectionForClaim db call.jobId) with
          hskip | ⟨e, q, payload, habandon | ⟨lease, won, hclaim⟩⟩
        · rw [claimJob_skip hskip]; exact .refl db
        · rw [claimJob_abandon habandon]
          split
          · exact .refl db
          · exact .refl db
          next h => exact ⟨(appendJobEvent_only h).streams, (appendJobEvent_only h).snapshots⟩
        · rw [claimJob_claim hclaim]
          split
          · exact .refl db
          · exact .refl db
          next h => exact ⟨(appendJobEvent_only h).streams, (appendJobEvent_only h).snapshots⟩
  · exact .refl db

theorem renewJob_only (jobId : JobId) (claimSeq newLease : ℤ) (db : Db) :
    JobsOnly db (renewJob jobId claimSeq newLease db).2 := by
  unfold renewJob
  split
  · exact .refl db
  · split_ifs
    · exact ⟨fun _ _ => rfl, rfl⟩
    · exact .refl db

/-! ## Jobs only grow -/

/-- A job is as it was, or its history has grown. -/
def JobGrows (db db' : Db) (id : JobId) : Prop :=
  SameJob db db' id ∨ ∃ r', Represents db' id r' ∧
    (Absent db id ∨ ∃ r, Represents db id r ∧ r.log <+: r'.log)

theorem JobGrows.refl (db : Db) (id : JobId) : JobGrows db db id := .inl (.refl db id)

theorem JobGrows.trans {db db' db'' : Db} {id : JobId} (h : JobGrows db db' id)
    (h' : JobGrows db' db'' id) : JobGrows db db'' id := by
  rcases h, h' with ⟨hsame | ⟨r', hr', hbefore⟩, hsame' | ⟨r'', hr'', habs' | ⟨r₁, hr₁, hprefix⟩⟩⟩
  · exact .inl (hsame.trans hsame')
  · exact .inr ⟨r'', hr'', .inl (habs'.of_same hsame.symm)⟩
  · exact .inr ⟨r'', hr'', .inr ⟨r₁, hr₁.of_same hsame.symm, hprefix⟩⟩
  · exact .inr ⟨r', hr'.of_same hsame', hbefore⟩
  · exact absurd hr' habs'.not_represents
  · have hlog : r₁.log = r'.log := log_unique hr₁.stream hr'.stream
    rw [hlog] at hprefix
    exact .inr ⟨r'', hr'', hbefore.imp_right fun ⟨r, hr, hle⟩ => ⟨r, hr, hle.trans hprefix⟩⟩

/-- A job that is there stays. -/
theorem JobGrows.represents {db db' : Db} {id : JobId} {r : JobRecord} (h : JobGrows db db' id)
    (hr : Represents db id r) : ∃ r', Represents db' id r' ∧ r.log <+: r'.log := by
  rcases h with hsame | ⟨r', hr', habs | ⟨r₁, hr₁, hprefix⟩⟩
  · exact ⟨r, hr.of_same hsame, List.prefix_rfl⟩
  · exact absurd hr habs.not_represents
  · have hlog : r₁.log = r.log := log_unique hr₁.stream hr.stream
    exact ⟨r', hr', hlog ▸ hprefix⟩

theorem JobsHeld.of_grows {db db' : Db} (h : JobsHeld db) (hgrows : ∀ id, JobGrows db db' id) :
    JobsHeld db' := by
  intro id
  rcases hgrows id with hsame | ⟨r', hr', -⟩
  · exact (h id).imp (fun habs => habs.of_same hsame) fun ⟨r, hr⟩ => ⟨r, hr.of_same hsame⟩
  · exact .inr ⟨r', hr'⟩

section Held

variable {db : Db} (hheld : JobsHeld db)

include hheld

theorem enqueueJobPayload_grows (fault : Option SqliteJobError) (request : EnqueueRequest)
    (id : JobId) : JobGrows db (enqueueJobPayload fault request db).2 id := by
  rcases enqueueJobPayload_cases hheld fault request with ⟨-, hdb⟩ | ⟨runAt, habs, -, hrep, hsame⟩
  · rw [hdb]; exact .refl db id
  · by_cases hid : id = request.jobId
    · subst hid
      exact .inr ⟨_, hrep, .inl habs⟩
    · exact .inl (hsame id hid)

theorem commitOpaque_grows (fault : Option EngineError) {request : OpaqueCommitRequest}
    (hs : request.stream.aggregateType ≠ jobAggregateType) (id : JobId) :
    JobGrows db (commitOpaque fault request db).2 id := by
  rcases commitOpaque_jobs hheld hs fault id with hsame | ⟨kind, payload, runAt, habs, hrep⟩
  · exact .inl hsame
  · exact .inr ⟨_, hrep, .inl habs⟩

theorem claimJobAs_grows (fault : Option SqliteJobError) (call : ClaimCall) (id : JobId) :
    JobGrows db (claimJobAs fault call db).2 id := by
  rcases claimJobAs_cases hheld fault call with ⟨-, hdb⟩ | ⟨r, out, r', hr, -, heff, hrep, hsame⟩
  · rw [hdb]; exact .refl db id
  · by_cases hid : id = call.jobId
    · subst hid
      obtain ⟨-, e, hlog, -⟩ := heff.log_eq
      exact .inr ⟨r', hrep, .inr ⟨r, hr, hlog ▸ List.prefix_append _ _⟩⟩
    · exact .inl (hsame id hid)

theorem renewJob_grows (jobId : JobId) (claimSeq newLease : ℤ) (id : JobId) :
    JobGrows db (renewJob jobId claimSeq newLease db).2 id := by
  rcases hheld jobId with habs | ⟨r, hr⟩
  · rw [renewJob_absent habs]; exact .refl db id
  · obtain ⟨st, hst⟩ := r.rowState_live
    rcases renewJob_represented hr hst claimSeq newLease with ⟨-, -, hrep, hsame⟩ | ⟨-, hlost⟩
    · by_cases hid : id = jobId
      · subst hid
        exact .inr ⟨_, hrep, .inr ⟨r, hr, List.prefix_rfl⟩⟩
      · exact .inl (hsame id hid)
    · rw [hlost]; exact .refl db id

end Held

/-! ## Settlements -/

/-- Snapshots of jobs that decode are folds of the prefixes they cover. -/
def JobSnapshotsSound (db : Db) : Prop :=
  ∀ id (log : List JobEvent), db.stream (jobStream id) = SeqLog.ofList 0 (log.map JobEvent.stored) →
    ∀ row, db.snapshots.lookup (jobStream id) = some row → SnapshotSound jobEntity log row

theorem SnapshotSound.mono {log log' : List JobEvent} {row : SnapshotRow}
    (h : SnapshotSound jobEntity log row) (hlog : log <+: log') :
    SnapshotSound jobEntity log' row := by
  obtain ⟨rest, rfl⟩ := hlog
  intro l hl
  obtain ⟨hle, rfl⟩ := h l hl
  exact ⟨hle.trans (by simp), by rw [List.take_append_of_le_length hle]⟩

/-- Soundness survives when histories grow and every new snapshot is sound. -/
theorem JobSnapshotsSound.of_grows {db db' : Db} (h : JobSnapshotsSound db)
    (hgrows : ∀ id, JobGrows db db' id)
    (hsnap : ∀ id row, db'.snapshots.lookup (jobStream id) = some row →
      db.snapshots.lookup (jobStream id) = some row ∨
        ∀ log, db'.stream (jobStream id) = SeqLog.ofList 0 (log.map JobEvent.stored) →
          SnapshotSound jobEntity log row) : JobSnapshotsSound db' := by
  intro id log hlog row hrow
  rcases hsnap id row hrow with hold | hnew
  · rcases hgrows id with hsame | ⟨r', hr', habs | ⟨r, hr, hprefix⟩⟩
    · exact h id log (hsame.stream.symm.trans hlog) row hold
    · exact (h id [] habs.stream row hold).mono (List.nil_prefix)
    · obtain rfl := log_unique hr'.stream hlog
      exact (h id r.log hr.stream row hold).mono hprefix
  · exact hnew log hlog

theorem reactAlone_represented {db : Db} {id : JobId} {e : JobEvent} {r : JobRecord}
    (h : Represents db id r) (hlag : r.log.length = r.version + 1)
    (hev : r.log[r.version]? = some e) :
    reactAlone jobEntity db.jobQueue id e = (db.setRow id (projectedRow r)).jobQueue := by
  have hload : reactLoad jobEntity db.jobQueue ⟨id, e, 0, none⟩ =
      some ⟨id, e, 0, some (r.rowState, ⟨id, r.version⟩)⟩ := reactLoad_represented h
  have hupdate : reactUpdate jobEntity db.jobQueue
      ⟨id, e, 0, some (r.rowState, ⟨id, r.version⟩)⟩ (r.rowState, ⟨id, r.version⟩) =
        (none, (db.setRow id (projectedRow r)).jobQueue) := reactUpdate_represented h hlag hev
  rw [reactAlone, hload]
  exact congrArg Prod.snd hupdate

/-- A command on a job that does not exist commits nothing. -/
theorem commitEvents_job_nil {K : CqrsEs} {fault : Option EngineError} {clock : ℕ → ℤ} {id : JobId}
    {ctx : AggregateContext JobState JobEvent JobError} {db : Db}
    (h : (K.commitEvents jobEntity fault clock id ctx [] (some []) db).1 = .ok ()) :
    (K.commitEvents jobEntity fault clock id ctx [] (some []) db).2.2 = db := by
  obtain ⟨-, requests, count, hprep, hcommit⟩ := persist_ok h
  obtain ⟨rfl, -⟩ := Prod.mk.inj (Except.ok.inj hprep)
  change _ = (_, (K.commitEvents jobEntity fault clock id ctx [] (some []) db).2.2) at hcommit
  obtain ⟨-, -, db₁, db₂, hins, hsnap, hjobs⟩ := commitSerialized_ok (congrArg Prod.fst hcommit)
  rw [hcommit] at hjobs
  obtain rfl : db = db₁ := Except.ok.inj hins
  have hk : K.commitSnapshotToEvent jobEntity.snapshotSize ctx.currentSequence 0 = 0 :=
    Nat.le_zero.1 (K.le_numEvents _ _ 0)
  simp only [List.length_nil, hk, if_true] at hsnap
  obtain rfl : db = db₂ := Except.ok.inj hsnap
  exact (Except.ok.inj hjobs).symm

/-- What a command that was sent to a job did, apart from the queue. -/
structure Settled (db db' : Db) (id : JobId) (e : JobEvent) (r r' : JobRecord) : Prop where
  rep : Represents db id r
  rep' : Represents db' id r'
  log : r'.log = r.log ++ [e]
  lag : r'.log.length = r'.version + 1
  missing : r'.log[r'.version]? = some e
  other : ∀ id' ≠ id, SameJob db db' id'
  streams : ∀ t ≠ jobStream id, db'.stream t = db.stream t
  snapshots : ∀ t ≠ jobStream id, db'.snapshots.lookup t = db.snapshots.lookup t
  snapshot : ∀ row, db'.snapshots.lookup (jobStream id) = some row →
    db.snapshots.lookup (jobStream id) = some row ∨ SnapshotSound jobEntity r'.log row

/-- The snapshot a settlement may write is the fold of the history with its event. -/
theorem snapshotSound_settled {K : CqrsEs} {db db' : Db} {id : JobId} {e : JobEvent}
    {r r' : JobRecord} {version : Option ℕ} (hlog : r'.log = r.log ++ [e])
    (h : CommitEffect K jobEntity db db' id ⟨jobFold r.log, r.log.length, version⟩ [e] [])
    {row : SnapshotRow} (hrow : db'.snapshots.lookup (jobStream id) = some row) :
    db.snapshots.lookup (jobStream id) = some row ∨ SnapshotSound jobEntity r'.log row := by
  have hsnap := h.snapshot
  dsimp only at hsnap
  split_ifs at hsnap with hk
  · exact .inl (hsnap.symm.trans hrow)
  · right
    have hone : K.commitSnapshotToEvent jobEntity.snapshotSize r.log.length 1 = 1 :=
      le_antisymm (K.le_numEvents _ _ 1) (Nat.pos_of_ne_zero hk)
    have hfold : (jobFold r.log).applyAll jobEntity ([e].take 1) = jobFold r'.log := by
      rw [hlog, jobFold_concat]
      rfl
    obtain rfl := Option.some.inj (hsnap.symm.trans hrow)
    rw [List.length_singleton, hone, hfold]
    intro l hl
    obtain ⟨st, hst⟩ := r'.live
    have hlen : r.log.length + 1 = r'.log.length := by rw [hlog, List.length_append]; rfl
    dsimp only at hl ⊢
    rw [hlen, List.take_length]
    have hnot : (jobFold r'.log).isFailed = false := by rw [hst]; rfl
    exact ⟨le_rfl, Lifecycle.ofJson_toJson_eq jobEntity hnot hl⟩

/-- **A settlement's commit**, whenever it loaded its job, is not applied and changes nothing, or
appends its event to the job. -/
theorem SettleTask.commit_settled {db : Db} {task : SettleTask} {r : JobRecord}
    (hr : Represents db task.jobId r) (hload : task.LoadedFrom r) (K : CqrsEs)
    (fault : Option EngineError) (clock : ℕ → ℤ) :
    (task.commit K fault clock db).1 ≠ .applied ∧ (task.commit K fault clock db).2 = db ∨
      (K.handleAndCommit jobEntity fault clock task.jobId task.ctx task.command "" db).1 =
          .ok [task.command.event] ∧
        ∃ r', Settled db (task.commit K fault clock db).2 task.jobId task.command.event r r' := by
  rcases task.commit_cases hr hload K fault clock with hsame | ⟨happ, hv, live, -, -, -, hrep, hsame⟩
  · exact .inl hsame
  · right
    obtain ⟨events, hok⟩ := classifySettlement_eq_applied.1 happ
    obtain ⟨scope, hhandle, hevents, hdb⟩ := handleAndCommit_ok hok
    obtain ⟨st, hst⟩ := r.live.take hload.pos
    rw [hload.aggregate, hst] at hhandle
    obtain ⟨rfl, rfl, -⟩ := handle_job_eq_ok hhandle
    -- Had anything been appended since the load, the number would be taken.
    have hcurrent : task.ctx.currentSequence = r.log.length := by
      obtain ⟨-, l, hl, -⟩ := commitEvents_job_ok hevents
      refine le_antisymm hload.le (not_lt.1 fun hlt => ?_)
      rw [insert?_taken hr (Nat.succ_pos _) hlt] at hl
      cases hl
    have hctx : task.ctx = ⟨jobFold r.log, r.log.length, task.ctx.currentSnapshot⟩ := by
      have haggregate := hload.aggregate
      rw [hcurrent, List.take_length] at haggregate
      rw [← haggregate, ← hcurrent]
    have heffect := commitEvents_ok (E := jobEntity) (fun _ h => (List.not_mem_nil h).elim) hevents
    rw [← hdb, ← task.commit_snd, hctx] at heffect
    refine ⟨hok, _, hr, hrep, rfl, ?_, ?_, hsame, ?_, ?_, ?_⟩
    · simp [hv]
    · simp [hv]
    · exact fun t ht => heffect.jobs.streams t ht (fun _ h => (List.not_mem_nil h).elim)
    · intro t ht
      rw [task.commit_snd, hdb]
      exact commitEvents_snapshots_of_ne hevents ht
    · exact fun row hrow => snapshotSound_settled rfl heffect hrow

/-- **A command sent to the job aggregate** changes nothing and hands no event on, or appends its
event to a job the claim holds. -/
theorem sendAlone_job {db : Db} (hheld : JobsHeld db) (hsound : JobSnapshotsSound db) (K : CqrsEs)
    (fault : Option EngineError) (clock : ℕ → ℤ) (id : JobId) (command : JobCommand) :
    (sendAlone K jobEntity fault clock id command "" db).2 = db ∧
        (∀ events, (sendAlone K jobEntity fault clock id command "" db).1 = .ok events →
          events = []) ∨
      (sendAlone K jobEntity fault clock id command "" db).1 = .ok [command.event] ∧
        ∃ r r', Settled db (sendAlone K jobEntity fault clock id command "" db).2 id
          command.event r r' := by
  have hload : ∀ log : List JobEvent,
      db.stream (jobStream id) = SeqLog.ofList 0 (log.map JobEvent.stored) →
        ∃ version, sendAlone K jobEntity fault clock id command "" db =
          K.handleAndCommit jobEntity fault clock id ⟨jobFold log, log.length, version⟩ command ""
            db := by
    intro log hlog
    obtain ⟨version, hload⟩ : ∃ version, loadAggregate jobEntity db id =
        .ok ⟨jobFold log, log.length, version⟩ := loadAggregate_retain rfl hlog (hsound id log hlog)
    exact ⟨version, by rw [sendAlone, hload]⟩
  rcases hheld id with habs | ⟨r, hr⟩
  · obtain ⟨version, heq⟩ := hload [] habs.stream
    rw [heq]
    left
    cases hout : (K.handleAndCommit jobEntity fault clock id ⟨jobFold [], 0, version⟩ command ""
        db).1 with
    | error error => exact ⟨handleAndCommit_error hout, fun events h => by cases h⟩
    | ok events =>
        obtain ⟨scope, hhandle, hcommit, hdb⟩ := handleAndCommit_ok hout
        obtain ⟨hev, rfl⟩ := Prod.mk.inj hhandle
        obtain rfl := Except.ok.inj hev
        exact ⟨hdb.trans (commitEvents_job_nil hcommit), fun events h => (Except.ok.inj h).symm⟩
  · obtain ⟨version, heq⟩ := hload r.log hr.stream
    let task : SettleTask := ⟨none, id, command, ⟨jobFold r.log, r.log.length, version⟩⟩
    have hloaded : task.LoadedFrom r := ⟨by rw [List.take_length], r.live.length_pos, le_rfl⟩
    rw [heq]
    rcases task.commit_settled hr hloaded K fault clock with ⟨hne, hdb⟩ | ⟨hok, r', hsettled⟩
    · refine .inl ⟨hdb, fun events hok => absurd ?_ hne⟩
      exact classifySettlement_eq_applied.2 ⟨events, hok⟩
    · exact .inr ⟨hok, r, r', hsettled⟩

/-! ## What opening needs -/

/-- What a database needs to be opened: every job is held, its snapshots can be trusted, and the
registry decodes. -/
structure EngineIntact (db : Db) : Prop where
  held : JobsHeld db
  sound : JobSnapshotsSound db
  registry : ∃ events, RegistryHolds db events

/-- A write that extends jobs and leaves the streams and snapshots of every other type alone. -/
structure JobWrite (db db' : Db) : Prop where
  grows : ∀ id, JobGrows db db' id
  streams : ∀ t : StreamIdentity, t.aggregateType ≠ jobAggregateType → db'.stream t = db.stream t
  snapshots : ∀ id row, db'.snapshots.lookup (jobStream id) = some row →
    db.snapshots.lookup (jobStream id) = some row ∨
      ∀ log, db'.stream (jobStream id) = SeqLog.ofList 0 (log.map JobEvent.stored) →
        SnapshotSound jobEntity log row

theorem registryStream_ne_job : registryStream.aggregateType ≠ jobAggregateType := by decide

theorem jobStream_ne_registry (id : JobId) : jobStream id ≠ registryStream := fun heq =>
  registryStream_ne_job (congrArg StreamIdentity.aggregateType heq.symm)

theorem JobWrite.refl (db : Db) : JobWrite db db :=
  ⟨fun id => .refl db id, fun _ _ => rfl, fun _ _ h => .inl h⟩

theorem JobWrite.of_only {db db' : Db} (hgrows : ∀ id, JobGrows db db' id) (h : JobsOnly db db') :
    JobWrite db db' :=
  ⟨hgrows, h.streams, fun id row hrow => .inl (by rwa [← h.snapshots])⟩

/-- A call that leaves the database intact and its jobs grown. -/
structure EngineStep (db db' : Db) : Prop where
  intact : EngineIntact db'
  grows : ∀ id, JobGrows db db' id

theorem EngineStep.trans {db db' db'' : Db} (h : EngineStep db db') (h' : EngineStep db' db'') :
    EngineStep db db'' :=
  ⟨h'.intact, fun id => (h.grows id).trans (h'.grows id)⟩

theorem EngineIntact.same {db : Db} (h : EngineIntact db) : EngineStep db db :=
  ⟨h, fun id => .refl db id⟩

theorem EngineIntact.write {db db' : Db} (h : EngineIntact db) (hw : JobWrite db db') :
    EngineStep db db' := by
  obtain ⟨events, hreg⟩ := h.registry
  exact ⟨⟨h.held.of_grows hw.grows, h.sound.of_grows hw.grows hw.snapshots,
    events, (hw.streams _ registryStream_ne_job).trans hreg⟩, hw.grows⟩

/-- A settlement leaves its job's row behind by its event; the reactor then folds it. -/
theorem Settled.write {db db' : Db} {id : JobId} {e : JobEvent} {r r' : JobRecord}
    (h : Settled db db' id e r r') : JobWrite db db' := by
  refine ⟨fun id' => ?_, fun t ht => h.streams t fun heq => ht (by rw [heq]; rfl),
    fun id' row hrow => ?_⟩
  · by_cases hid : id' = id
    · subst hid
      exact .inr ⟨r', h.rep', .inr ⟨r, h.rep, h.log ▸ List.prefix_append _ _⟩⟩
    · exact .inl (h.other id' hid)
  · by_cases hid : id' = id
    · subst hid
      refine (h.snapshot row hrow).imp id fun hsound log hlog => ?_
      rwa [← log_unique h.rep'.stream hlog]
    · exact .inl (h.snapshots _ (fun heq => hid (jobStream_inj.1 heq)) ▸ hrow)

theorem JobWrite.project {db : Db} {id : JobId} {r : JobRecord} (h : Represents db id r) :
    JobWrite db (db.setRow id (projectedRow r)) := by
  refine .of_only (fun id' => ?_) ⟨fun t _ => congrFun (db.stream_setRow id _) t, rfl⟩
  by_cases hid : id' = id
  · subst hid
    exact .inr ⟨r.project, represents_setRow_project h, .inr ⟨r, h, List.prefix_rfl⟩⟩
  · exact .inl (sameJob_setRow hid _)

/-! ## What the calls on jobs do to the database -/

/-- A settlement is refused and changes nothing, or its event is appended; the reactor may then bring
the row up to date. -/
theorem settleJob_cases {db : Db} (hheld : JobsHeld db) (hsound : JobSnapshotsSound db) (K : CqrsEs)
    (env : SettleEnv) (id : JobId) (command : JobCommand) :
    (settleJob K env id command db).2 = db ∨
      ∃ sent r r', Settled db sent id command.event r r' ∧
        ((settleJob K env id command db).2 = sent ∨
          (settleJob K env id command db).2 = sent.setRow id (projectedRow r')) := by
  unfold settleJob
  rcases sendAlone_job hheld hsound K env.fault env.clock id command with
    ⟨hdb, hnil⟩ | ⟨hok, r, r', hsettled⟩
  · refine .inl ?_
    dsimp only
    rw [hdb]
    split
    · rfl
    next events hev =>
      obtain rfl := hnil events hev
      split_ifs <;> rfl
  · refine .inr ⟨_, r, r', hsettled, ?_⟩
    simp only [hok]
    split_ifs
    · rw [List.foldl_cons, List.foldl_nil,
        reactAlone_represented hsettled.rep' hsettled.lag hsettled.missing]
      exact .inr rfl
    · exact .inl rfl

theorem settleClaimWith_cases (K : CqrsEs) (env : SettleEnv) (handle : JobClaimHandle)
    (validate : Except AbiError Unit) (command : Except JobRuntimeError JobCommand) (db : Db) :
    (settleClaimWith K env handle validate command db).2 = db ∨
      ∃ checked, (settleClaimWith K env handle validate command db).2 =
        (settleJob K env handle.jobId checked db).2 := by
  unfold settleClaimWith
  split
  · exact .inl rfl
  · exact .inl rfl
  next checked => exact .inr ⟨checked, rfl⟩

/-- A claim call is refused, makes its claim, or makes it and settles it. -/
theorem esJobClaim_cases (parseJobId : String → Option JobId) (K : CqrsEs) (env : SettleEnv)
    (fault : Option SqliteJobError) (capacity : Except AbiError Unit) (worker : WorkerId)
    (mint : ClaimId) (wire : ClaimWire) (db : Db) :
    (esJobClaim parseJobId K env fault capacity worker mint wire db).2 = db ∨
      ∃ call, (esJobClaim parseJobId K env fault capacity worker mint wire db).2 =
          (claimJobAs fault call db).2 ∨
        ∃ id command, (esJobClaim parseJobId K env fault capacity worker mint wire db).2 =
          (settleJob K env id command (claimJobAs fault call db).2).2 := by
  unfold esJobClaim
  dsimp only
  split
  · exact .inl rfl
  next jobId _ =>
    refine .inr ⟨⟨jobId, worker, wire.nowMs, wire.leaseMs, wire.maxClaims, mint⟩, ?_⟩
    split
    · exact .inl rfl
    · exact .inl rfl
    · exact .inl rfl
    · exact .inl rfl
    next handle payload _ =>
      split
      · exact .inl rfl
      next refusal _ =>
        refine .inr ⟨handle.jobId, .kill handle.claimId .undecodable refusal.text, ?_⟩
        unfold deadLetterUnusableClaim
        dsimp only
        split <;> rfl

namespace EngineIntact

variable {db : Db} (h : EngineIntact db)

include h

theorem settleJob (K : CqrsEs) (env : SettleEnv) (id : JobId) (command : JobCommand) :
    EngineStep db (settleJob K env id command db).2 := by
  rcases settleJob_cases h.held h.sound K env id command with
    hsame | ⟨sent, r, r', hsettled, hsent | hreacted⟩
  · rw [hsame]
    exact h.same
  · rw [hsent]
    exact h.write hsettled.write
  · have hstep := h.write hsettled.write
    rw [hreacted]
    exact hstep.trans (hstep.intact.write (.project hsettled.rep'))

theorem settleClaimWith (K : CqrsEs) (env : SettleEnv) (handle : JobClaimHandle)
    (validate : Except AbiError Unit) (command : Except JobRuntimeError JobCommand) :
    EngineStep db (settleClaimWith K env handle validate command db).2 := by
  rcases settleClaimWith_cases K env handle validate command db with hsame | ⟨checked, hsettled⟩
  · rw [hsame]
    exact h.same
  · rw [hsettled]
    exact h.settleJob K env handle.jobId checked

theorem esJobDeadLetter (K : CqrsEs) (env : SettleEnv) (version : UInt8) (handle : JobClaimHandle)
    (reason : UInt8) (error : String) :
    EngineStep db (esJobDeadLetter K env version handle reason error db).2 := by
  unfold EventSorcery.esJobDeadLetter
  split <;> exact h.settleClaimWith K env handle _ _

theorem claimJobAs (fault : Option SqliteJobError) (call : ClaimCall) :
    EngineStep db (claimJobAs fault call db).2 :=
  h.write (.of_only (claimJobAs_grows h.held fault call) (claimJobAs_only fault call db))

theorem esJobClaim (parseJobId : String → Option JobId) (K : CqrsEs) (env : SettleEnv)
    (fault : Option SqliteJobError) (capacity : Except AbiError Unit) (worker : WorkerId)
    (mint : ClaimId) (wire : ClaimWire) :
    EngineStep db (esJobClaim parseJobId K env fault capacity worker mint wire db).2 := by
  rcases esJobClaim_cases parseJobId K env fault capacity worker mint wire db with
    hsame | ⟨call, hclaimed | ⟨id, command, hsettled⟩⟩
  · rw [hsame]
    exact h.same
  · rw [hclaimed]
    exact h.claimJobAs fault call
  · have hstep := h.claimJobAs fault call
    rw [hsettled]
    exact hstep.trans (hstep.intact.settleJob K env id command)

theorem esJobRenew (version : UInt8) (handle : JobClaimHandle) (newLeaseUntilMs : ℤ) :
    EngineStep db (esJobRenew version handle newLeaseUntilMs db).2 := by
  unfold EventSorcery.esJobRenew
  split
  · exact h.same
  · exact h.write (.of_only (renewJob_grows h.held _ _ _) (renewJob_only _ _ _ db))

theorem esJobEnqueue (parseJobId : String → Option JobId) (fault : Option SqliteJobError)
    (version : UInt8) (job : JobSeedWire) :
    EngineStep db (esJobEnqueue parseJobId fault version job db).2 := by
  unfold EventSorcery.esJobEnqueue
  split
  · exact h.same
  · exact h.same
  next request _ _ =>
    exact h.write (.of_only (enqueueJobPayload_grows h.held fault request)
      (enqueueJobPayload_only fault request db))

end EngineIntact

/-- The streams the engine keeps for itself. -/
def EngineOwned (s : StreamIdentity) : Prop :=
  s.aggregateType = jobAggregateType ∨ s = registryStream

instance (s : StreamIdentity) : Decidable (EngineOwned s) :=
  inferInstanceAs (Decidable (_ ∨ _))

theorem commitResult_snd (fault : Option EngineError) (request : OpaqueCommitRequest) (db : Db) :
    (commitResult fault request db).2 = (commitOpaque fault request db).2 := by
  unfold commitResult
  split <;> simp_all

/-- A commit at another version than the current one changes nothing. -/
theorem commitOpaque_stale {fault : Option EngineError} {request : OpaqueCommitRequest} {db : Db}
    (h : committedStreamVersion db request.stream ≠ request.expectedVersion) :
    (commitOpaque fault request db).2 = db := by
  cases hresult : (commitOpaque fault request db).1 with
  | error error => exact commitOpaque_error hresult
  | ok u => exact absurd (committedAt_of_commitOpaque hresult).version h

theorem commitOpaque_snapshots (fault : Option EngineError) (request : OpaqueCommitRequest) (db : Db)
    (s : StreamIdentity) :
    (commitOpaque fault request db).2.snapshots.lookup s = db.snapshots.lookup s := by
  cases hresult : (commitOpaque fault request db).1 with
  | error error => rw [commitOpaque_error hresult]
  | ok u =>
      rw [(committedAt_of_commitOpaque hresult).snapshots s]
      split_ifs <;> rfl

/-- A payload of a binding is not an aggregate of the engine. -/
theorem ofJson_encodeOpaquePayload {Entity Event Command Error : Type}
    (E : EventSourced Entity Event Command Error) (payload : List UInt8) :
    (Lifecycle.ofJson E (encodeOpaquePayload payload) : Option (Lifecycle Entity Event Error)) =
      none := by
  simp [Lifecycle.ofJson, encodeOpaquePayload]

theorem snapshotSound_opaque (log : List JobEvent) (last version : ℕ) (payload : List UInt8) :
    SnapshotSound jobEntity log ⟨last, version, encodeOpaquePayload payload⟩ := by
  intro l hl
  rw [ofJson_encodeOpaquePayload] at hl
  cases hl

/-- A write to the snapshots alone, whose new rows are opaque. -/
theorem JobWrite.of_snapshots {db : Db} {snapshots : Table StreamIdentity SnapshotRow}
    (h : ∀ id row, snapshots.lookup (jobStream id) = some row →
      db.snapshots.lookup (jobStream id) = some row ∨ ∀ log, SnapshotSound jobEntity log row) :
    JobWrite db { db with snapshots := snapshots } :=
  ⟨fun _ => .inl ⟨rfl, rfl⟩, fun _ _ => rfl,
    fun id row hrow => (h id row hrow).imp_right fun hsound log _ => hsound log⟩

namespace EngineIntact

variable {db : Db} (h : EngineIntact db)

include h

/-- A commit keeps the engine's streams readable, unless it names one at its current version. -/
theorem commitResult {fault : Option EngineError} {request : OpaqueCommitRequest}
    (hsafe : EngineOwned request.stream →
      committedStreamVersion db request.stream ≠ request.expectedVersion) :
    EngineStep db (commitResult fault request db).2 := by
  rw [commitResult_snd]
  by_cases howned : EngineOwned request.stream
  · rw [commitOpaque_stale (hsafe howned)]
    exact h.same
  · obtain ⟨hjob, hreg⟩ := not_or.1 howned
    obtain ⟨events, hevents⟩ := h.registry
    have hgrows := commitOpaque_grows h.held fault hjob
    refine ⟨⟨h.held.of_grows hgrows, h.sound.of_grows hgrows fun id row hrow => ?_, events, ?_⟩,
      hgrows⟩
    · exact .inl ((commitOpaque_snapshots fault request db _).symm.trans hrow)
    · exact (commitOpaque_frame fault request db (Ne.symm hreg) registryStream_ne_job).trans hevents

theorem esSnapshotStore (fault : Option EngineError) (wire : SnapshotWire) :
    EngineStep db (esSnapshotStore fault wire db).2 := by
  unfold EventSorcery.esSnapshotStore
  dsimp only
  split
  · exact h.same
  · rcases storeSnapshot_cases fault ⟨wire.aggregateType, wire.aggregateId⟩
      ⟨encodeOpaquePayload wire.payload, wire.sequence.toNat⟩ db with hdb | ⟨version, hdb, -⟩
    · rw [hdb]; exact h.same
    · rw [hdb]
      refine h.write (.of_snapshots fun id row hrow => ?_)
      by_cases hs : jobStream id = ⟨wire.aggregateType, wire.aggregateId⟩
      · rw [hs, AList.lookup_insert] at hrow
        obtain rfl := Option.some.inj hrow
        exact .inr fun log => snapshotSound_opaque log _ _ _
      · rw [AList.lookup_insert_ne hs] at hrow
        exact .inl hrow

theorem esSnapshotDiscard (fault : Option EngineError) (wire : StreamWire) :
    EngineStep db (esSnapshotDiscard fault wire db).2 := by
  unfold EventSorcery.esSnapshotDiscard
  dsimp only
  split
  · exact h.same
  · cases fault with
    | some error => exact h.same
    | none =>
        refine h.write (.of_snapshots fun id row hrow => .inl ?_)
        by_cases hs : jobStream id = ⟨wire.aggregateType, wire.aggregateId⟩
        · rw [hs, AList.lookup_erase] at hrow
          cases hrow
        · rwa [AList.lookup_erase_ne hs] at hrow

theorem esSchemaReconcile (wire : SchemaWire) : EngineStep db (esSchemaReconcile wire db).2 := by
  unfold EventSorcery.esSchemaReconcile
  split
  · exact h.same
  next target _ =>
    obtain ⟨events, hevents⟩ := h.registry
    rw [hevents.reconcileTarget]
    split_ifs
    · exact h.same
    · exact h.same
    · refine h.write (.of_snapshots fun id row hrow => .inl ?_)
      rw [Table.lookup_filterRows, Option.filter_eq_some_iff] at hrow
      exact hrow.1

theorem esSchemaRecord (wire : SchemaWire) : EngineStep db (esSchemaRecord wire db).2 := by
  unfold EventSorcery.esSchemaRecord
  split
  · exact h.same
  next target _ =>
    obtain ⟨events, hevents⟩ := h.registry
    obtain ⟨events', hheld, -⟩ := hevents.record target
    obtain ⟨hstreams, hsnapshots, hqueue⟩ := hevents.record_frame target
    have hgrows : ∀ id, JobGrows db (recordTarget target db).2 id := fun id =>
      .inl ⟨hstreams _ (jobStream_ne_registry id), by rw [hqueue]⟩
    refine ⟨⟨h.held.of_grows hgrows, h.sound.of_grows hgrows fun id row hrow => ?_, events', hheld⟩,
      hgrows⟩
    exact .inl (hsnapshots ▸ hrow)

end EngineIntact

/-! ## Opening -/

theorem Represents.ofJson_row {r : JobRecord} :
    Lifecycle.ofJson jobEntity (r.rowState.toJson jobEntity) = some r.rowState := by
  obtain ⟨st, hst⟩ := r.rowState_live
  rw [hst, Lifecycle.ofJson_toJson_live]
  exact congrArg (Option.map Lifecycle.live) (JobState.ofJson_toJson st)

theorem decodeRows_job {db : Db} {id : JobId} (log : List JobEvent)
    (h : db.stream (jobStream id) = SeqLog.ofList 0 (log.map JobEvent.stored)) :
    decodeRows jobEntity (db.stream (jobEntity.stream id)).rows =
      some (SeqLog.rowsFrom 1 log) := decodeRows_stream h

/-- What opening needs of the job streams. -/
theorem EngineIntact.eventsDecode {db : Db} (h : EngineIntact db) : EventsDecode jobEntity db := by
  intro id
  rcases h.held id with habs | ⟨r, hr⟩
  · rw [decodeRows_job [] habs.stream]; rfl
  · rw [decodeRows_job r.log hr.stream]; rfl

/-- A job's row after opening folds its whole history, whether it was caught up or rebuilt. -/
theorem rowAfterCatchUp_represented {db : Db} (db' : Db) {id : JobId} {r : JobRecord}
    (h : Represents db id r) (hstream : db'.stream (jobStream id) = db.stream (jobStream id))
    {row : Option ViewRow} (hrow : row = db.jobQueue.lookup id ∨ row = none)
    (hlookup : db'.jobQueue.lookup id = rowAfterCatchUp jobEntity (SeqLog.rowsFrom 1 r.log) row) :
    ∃ lease, Represents db' id (r.project.withLease lease) := by
  have hstate : ∀ lease, (r.project.withLease lease).rowState = jobFold r.log := fun _ =>
    JobRecord.rowState_eq rfl
  rcases hrow with rfl | rfl
  · rw [h.row, rowAfterCatchUp_take r.version_le rfl Represents.ofJson_row] at hlookup
    refine ⟨r.lease, hstream.trans h.stream, hlookup.trans ?_, h.bounded⟩
    rw [hstate]
    split_ifs with hlen
    · rw [JobRecord.rowState_eq hlen]
      rfl
    · rfl
  · rw [rowAfterCatchUp_none, if_neg r.live.ne_nil] at hlookup
    refine ⟨none, hstream.trans h.stream, hlookup.trans ?_, h.bounded⟩
    rw [hstate]
    rfl

/-- **Opening** an intact database succeeds, and it stays intact. -/
theorem EngineIntact.esOpen {db : Db} (h : EngineIntact db)
    (hroom : (db.stream registryStream).maxSeq < i64Max) :
    (esOpen db).1 = .ok () ∧ EngineStep db (esOpen db).2 := by
  obtain ⟨events, hevents⟩ := h.registry
  rw [hevents, SeqLog.maxSeq_ofList_zero, List.length_map] at hroom
  obtain ⟨db', view', hbuild, hbuilt, hrows⟩ :=
    build_eq_ok (E := jobEntity) rfl hevents h.eventsDecode hroom 1 db.jobQueue
  have hopen : EventSorcery.esOpen db = (.ok (), db'.withQueue view') := by
    simp only [EventSorcery.esOpen, hbuild]
  rw [hopen]
  have hgrows : ∀ id, JobGrows db (db'.withQueue view') id := by
    intro id
    have hstream := hbuilt.streams _ (jobStream_ne_registry id)
    rcases h.held id with habs | ⟨r, hr⟩
    · refine .inl ⟨hstream, ?_⟩
      have hlookup := hrows id _ (decodeRows_job [] habs.stream)
      rw [habs.row, ite_self, rowAfterCatchUp_none, if_pos rfl] at hlookup
      exact hlookup.trans habs.row.symm
    · obtain ⟨lease, hrep⟩ := rowAfterCatchUp_represented (db'.withQueue view') hr hstream
        (by split_ifs <;> simp) (hrows id _ (decodeRows_job r.log hr.stream))
      exact .inr ⟨_, hrep, .inr ⟨r, hr, List.prefix_rfl⟩⟩
  refine ⟨rfl, ⟨h.held.of_grows hgrows, h.sound.of_grows hgrows fun id row hrow => ?_, _,
    hbuilt.registry⟩, hgrows⟩
  rcases hbuilt.snapshots (jobStream id) with hsame | hnone
  · exact .inl (hsame.symm.trans hrow)
  · cases hnone.symm.trans hrow

/-! ## Any sequence of calls -/

namespace AbiSystem

/-- The calls of the ABI that write, and closing the store and opening it again. -/
inductive Op where
  | commit (fault : Option EngineError) (wire : CommitWire)
  | commitWithJob (fault : Option EngineError) (wire : CommitWire) (job : JobSeedWire)
  | snapshotStore (fault : Option EngineError) (wire : SnapshotWire)
  | snapshotDiscard (fault : Option EngineError) (wire : StreamWire)
  | schemaReconcile (wire : SchemaWire)
  | schemaRecord (wire : SchemaWire)
  | jobEnqueue (fault : Option SqliteJobError) (version : UInt8) (job : JobSeedWire)
  | jobClaim (env : SettleEnv) (fault : Option SqliteJobError) (capacity : Except AbiError Unit)
      (worker : WorkerId) (mint : ClaimId) (wire : ClaimWire)
  | jobRenew (version : UInt8) (handle : JobClaimHandle) (newLeaseUntilMs : ℤ)
  | jobAck (env : SettleEnv) (version : UInt8) (handle : JobClaimHandle)
  | jobRetry (env : SettleEnv) (version : UInt8) (handle : JobClaimHandle) (runAtMs : ℤ)
      (error : String)
  | jobDefer (env : SettleEnv) (version : UInt8) (handle : JobClaimHandle) (runAtMs : ℤ)
  | jobDeadLetter (env : SettleEnv) (version : UInt8) (handle : JobClaimHandle) (reason : UInt8)
      (error : String)
  | reopen

section System

variable (parseJobId : String → Option JobId) (K : CqrsEs)

/-- What a call leaves of the database, whether it succeeds or fails. -/
def step (db : Db) : Op → Db
  | .commit fault wire => (esCommit fault wire db).2
  | .commitWithJob fault wire job => (esCommitWithJob parseJobId fault wire job db).2
  | .snapshotStore fault wire => (esSnapshotStore fault wire db).2
  | .snapshotDiscard fault wire => (esSnapshotDiscard fault wire db).2
  | .schemaReconcile wire => (esSchemaReconcile wire db).2
  | .schemaRecord wire => (esSchemaRecord wire db).2
  | .jobEnqueue fault version job => (esJobEnqueue parseJobId fault version job db).2
  | .jobClaim env fault capacity worker mint wire =>
      (esJobClaim parseJobId K env fault capacity worker mint wire db).2
  | .jobRenew version handle newLeaseUntilMs => (esJobRenew version handle newLeaseUntilMs db).2
  | .jobAck env version handle => (esJobAck K env version handle db).2
  | .jobRetry env version handle runAtMs error =>
      (esJobRetry K env version handle runAtMs error db).2
  | .jobDefer env version handle runAtMs => (esJobDefer K env version handle runAtMs db).2
  | .jobDeadLetter env version handle reason error =>
      (esJobDeadLetter K env version handle reason error db).2
  | .reopen => (esOpen db).2

/-- A freshly migrated database, opened. -/
def machine : Machine Db Op := ⟨(esOpen .empty).2, step parseJobId K⟩

end System

/-- The registry stream has a number left for the record of a version. -/
def RegistryRoom (db : Db) : Prop := (db.stream registryStream).maxSeq < i64Max

instance (db : Db) : Decidable (RegistryRoom db) := inferInstanceAs (Decidable (_ < _))

/-- The commit does not write to a stream of the engine. -/
def CommitSafe (db : Db) (wire : CommitWire) : Prop :=
  EngineOwned ⟨wire.aggregateType, wire.aggregateId⟩ →
    committedStreamVersion db ⟨wire.aggregateType, wire.aggregateId⟩ ≠ wire.expected.toNat

instance (db : Db) (wire : CommitWire) : Decidable (CommitSafe db wire) :=
  inferInstanceAs (Decidable (_ → _))

/-- No commit at the current version of a stream of the engine, and no reopening with a full
registry. -/
def Safe (db : Db) : Op → Prop
  | .commit _ wire | .commitWithJob _ wire _ => CommitSafe db wire
  | .reopen => RegistryRoom db
  | _ => True

instance (db : Db) : ∀ op, Decidable (Safe db op)
  | .commit _ wire | .commitWithJob _ wire _ => inferInstanceAs (Decidable (CommitSafe db wire))
  | .reopen => inferInstanceAs (Decidable (RegistryRoom db))
  | .snapshotStore .. | .snapshotDiscard .. | .schemaReconcile .. | .schemaRecord ..
  | .jobEnqueue .. | .jobClaim .. | .jobRenew .. | .jobAck .. | .jobRetry .. | .jobDefer ..
  | .jobDeadLetter .. => inferInstanceAs (Decidable True)

variable {parseJobId : String → Option JobId} {K : CqrsEs} {db : Db}

theorem intact_empty : EngineIntact .empty where
  held _ := .inl ⟨rfl, rfl⟩
  sound _ _ _ _ hrow := nomatch hrow
  registry := ⟨[], rfl⟩

theorem intact_init : EngineIntact (machine parseJobId K).init :=
  (intact_empty.esOpen (by decide)).2.intact

theorem engineStep_esCommit (h : EngineIntact db) {fault : Option EngineError} {wire : CommitWire}
    (hsafe : CommitSafe db wire) : EngineStep db (esCommit fault wire db).2 := by
  unfold esCommit
  split
  · exact h.same
  next request hparts =>
    obtain ⟨rfl, -⟩ := commitParts_eq_ok hparts
    exact h.commitResult hsafe

theorem engineStep_esCommitWithJob (h : EngineIntact db) {fault : Option EngineError}
    {wire : CommitWire} {job : JobSeedWire} (hsafe : CommitSafe db wire) :
    EngineStep db (esCommitWithJob parseJobId fault wire job db).2 := by
  unfold esCommitWithJob
  split
  · exact h.same
  · exact h.same
  next request seed hparts _ =>
    obtain ⟨rfl, -⟩ := commitParts_eq_ok hparts
    exact h.commitResult hsafe

theorem engineStep_step {op : Op} (h : EngineIntact db) (hsafe : Safe db op) :
    EngineStep db (step parseJobId K db op) := by
  cases op with
  | commit fault wire => exact engineStep_esCommit h hsafe
  | commitWithJob fault wire job => exact engineStep_esCommitWithJob h hsafe
  | snapshotStore fault wire => exact h.esSnapshotStore fault wire
  | snapshotDiscard fault wire => exact h.esSnapshotDiscard fault wire
  | schemaReconcile wire => exact h.esSchemaReconcile wire
  | schemaRecord wire => exact h.esSchemaRecord wire
  | jobEnqueue fault version job => exact h.esJobEnqueue parseJobId fault version job
  | jobClaim env fault capacity worker mint wire =>
      exact h.esJobClaim parseJobId K env fault capacity worker mint wire
  | jobRenew version handle newLeaseUntilMs => exact h.esJobRenew version handle newLeaseUntilMs
  | jobAck env version handle => exact h.settleClaimWith K env handle _ _
  | jobRetry env version handle runAtMs error => exact h.settleClaimWith K env handle _ _
  | jobDefer env version handle runAtMs => exact h.settleClaimWith K env handle _ _
  | jobDeadLetter env version handle reason error =>
      exact h.esJobDeadLetter K env version handle reason error
  | reopen => exact (h.esOpen hsafe).2

/-- A job stream that decodes and folds to a live job, or holds nothing. -/
def JobReadable (db : Db) (id : JobId) : Prop :=
  (db.stream (jobStream id)).rows = [] ∨
    ∃ log st, decodeRows jobEntity (db.stream (jobStream id)).rows = some log ∧
      jobFold (log.map Prod.snd) = .live st

/-- After any calls none of which commits at the current version of a stream of the engine, every
job stream decodes and folds to a live job, the registry decodes, and the database can be opened
again as long as its registry has room for a record. -/
theorem engine_streams_stay_readable (parseJobId : String → Option JobId) (K : CqrsEs)
    (ops : List Op)
    (h : (machine parseJobId K).Meets Safe (machine parseJobId K).init ops) :
    let db := (machine parseJobId K).run ops
    (∀ id, JobReadable db id) ∧ (∃ registry, loadRegistry db = .ok registry) ∧
      (RegistryRoom db → (esOpen db).1 = .ok ()) := by
  intro db
  have hintact : EngineIntact db := Machine.run_invariant_of_meets intact_init
    (fun _ _ hdb hsafe => (engineStep_step hdb hsafe).intact) h
  obtain ⟨events, hevents⟩ := hintact.registry
  obtain ⟨registry, hload, -⟩ := hevents.loadRegistry
  refine ⟨fun id => ?_, ⟨registry, hload⟩, fun hroom => (hintact.esOpen hroom).1⟩
  rcases hintact.held id with habs | ⟨r, hr⟩
  · exact .inl (by rw [habs.stream]; rfl)
  · obtain ⟨st, hst⟩ := r.live
    exact .inr ⟨_, st, decodeRows_job r.log hr.stream, by rw [SeqLog.map_snd_rowsFrom, hst]⟩

/-- A one-event commit to a stream. -/
def commitTo (aggregateType aggregateId : String) (expected : UInt64) : CommitWire :=
  ⟨1, aggregateType, aggregateId, expected, ⟨[⟨"Opened", "1.0", [7]⟩], 1⟩⟩

/-- A binding commits with a job, snapshots, probes a job stream at a version it is not at, claims
the job, and the store is opened again. -/
def ordinaryUse : List Op :=
  [.commitWithJob none (commitTo "account" "a" 0) ⟨"j", "mail", [1], 0⟩,
    .snapshotStore none ⟨1, "account", "a", 1, [9]⟩,
    .commit none (commitTo "job" "j" 0),
    .jobClaim ⟨none, fun _ => 0, true⟩ none (.ok ()) "w" "c" ⟨1, "j", "w", 5, 10, 3⟩,
    .schemaRecord ⟨1, "account", 2, 0⟩, .reopen]

theorem ordinary_use_reopens :
    (esOpen ((machine some .atMultiples).run ordinaryUse)).1 = .ok () :=
  (engine_streams_stay_readable some .atMultiples ordinaryUse (by decide +kernel)).2.2
    (by decide +kernel)

/-- A fresh database after one commit. -/
def committed (wire : CommitWire) : Db := (machine some .atMultiples).run [.commit none wire]

/-- A commit to a job's stream, or to the registry's, is accepted like any other; afterwards the
stream does not decode and the database cannot be opened. -/
theorem commit_to_engine_stream_blocks_opening :
    (esCommit none (commitTo "job" "j" 0) (machine some .atMultiples).init).1.isOk ∧
      ((committed (commitTo "job" "j" 0)).stream (jobStream "j")).rows.length = 1 ∧
      (decodeRows jobEntity
        ((committed (commitTo "job" "j" 0)).stream (jobStream "j")).rows).isNone ∧
      ¬ (esOpen (committed (commitTo "job" "j" 0))).1.isOk ∧
    (esCommit none (commitTo "SchemaRegistry" "schema" 1)
        (machine some .atMultiples).init).1.isOk ∧
      ¬ (loadRegistry (committed (commitTo "SchemaRegistry" "schema" 1))).isOk ∧
      ¬ (esOpen (committed (commitTo "SchemaRegistry" "schema" 1))).1.isOk := by
  decide +kernel

end AbiSystem

end EventSorcery
