import EventSorcery.PageWalk
import EventSorcery.Responses
import EventSorcery.AbiSafety

/-!
# What a refused commit means

The engine has one error for two causes: the stream is not at the version the caller expected, or the
number 1 of the stream of the job in the commit is taken. The boundary tells both as a conflict, with a
version of the stream that it reads in a transaction of its own. The first half says for which commits
this version can be the one the caller expected. The second half compares a job that comes with a
commit with one that is enqueued by itself.
-/

namespace EventSorcery

/-! ## The statements of a commit -/

section Statements

variable {db : Db} {s : StreamIdentity} {request : OpaqueCommitRequest}

theorem foldlM_insertEvent_above {v : ℕ} (hfree : ∀ q, v < q → db.row s q = none)
    (xs : List StoredEvent) :
    ∃ db', (consecutive s (v + 1) xs).foldlM Db.insertEvent db = .ok db' := by
  have hspec := foldlM_insertEvent_consecutive db s (v + 1) xs
  cases hl : (db.stream s).insertFrom? (v + 1) xs with
  | none =>
      obtain ⟨q, hq, -, htaken⟩ := SeqLog.insertFrom?_eq_none_iff.1 hl
      have hnone : (db.stream s).get? q = none := hfree q hq
      rw [hnone] at htaken
      cases htaken
  | some l =>
      rw [hl] at hspec
      obtain ⟨db', hok, -⟩ := hspec
      exact ⟨db', hok⟩

theorem take_consecutive (s : StreamIdentity) (q : ℕ) (xs : List StoredEvent) (n : ℕ) :
    (consecutive s q xs).take n = consecutive s q (xs.take n) := by
  refine List.ext_getElem? fun i => ?_
  rw [List.getElem?_take, getElem?_consecutive, getElem?_consecutive, List.getElem?_take]
  split_ifs <;> rfl

/-- Events above every row of their stream go in, unless a number does not fit. -/
theorem insertSerializedEventsBatch_above {v : ℕ} (hfree : ∀ q, v < q → db.row s q = none)
    (xs : List StoredEvent) :
    (i64Max < v + xs.length ∧
        insertSerializedEventsBatch db (consecutive s (v + 1) xs) = .error .tryFromInt) ∨
      ∃ db', insertSerializedEventsBatch db (consecutive s (v + 1) xs) = .ok db' ∧
        EventsAppended db db' s v xs := by
  cases h : insertSerializedEventsBatch db (consecutive s (v + 1) xs) with
  | ok db' => exact .inr ⟨db', rfl, insertSerializedEventsBatch_consecutive h⟩
  | error error =>
      refine .inl ⟨not_le.1 fun hroom => ?_, ?_⟩
      · have hfits : ∀ e ∈ consecutive s (v + 1) xs, e.sequence ≤ i64Max := fun e he => by
          obtain ⟨i, hi⟩ := List.mem_iff_getElem?.1 he
          rw [getElem?_consecutive] at hi
          obtain ⟨x, hx, rfl⟩ := Option.map_eq_some_iff.1 hi
          have hlt := (List.getElem?_eq_some_iff.1 hx).1
          rw [StoredEvent.sequence_serialized]
          omega
        obtain ⟨db', hok⟩ := foldlM_insertEvent_above hfree xs
        rw [insertSerializedEventsBatch_of_le hfits, hok] at h
        cases h
      · rcases List.foldlM_chunks_eq_error h with rfl | ⟨n, hn⟩
        · rfl
        · rw [List.flatten_toChunks, take_consecutive] at hn
          obtain ⟨db', hok⟩ := foldlM_insertEvent_above hfree (xs.take n)
          cases hok.symm.trans hn

/-- The number of an event decides whether it goes in. -/
theorem insertEvent_of_row (db : Db) (e : SerializedEvent) :
    (db.row e.identity e.sequence).isSome ∧ db.insertEvent e = .error .optimisticLock ∨
      db.row e.identity e.sequence = none ∧
        ∃ db', db.insertEvent e = .ok db' ∧ db'.jobQueue = db.jobQueue := by
  rw [Db.insertEvent]
  cases hl : (db.stream e.identity).insert? e.sequence e.stored with
  | none => exact .inl ⟨SeqLog.insert?_eq_none_iff.1 hl, rfl⟩
  | some l => exact .inr ⟨SeqLog.get?_eq_none_of_insert? hl, _, rfl, rfl⟩

theorem seedJob_eq {job : EnqueueRequest} {runAt : Instant}
    (hrun : instantFromMillis job.runAtMs = .ok runAt) (db : Db) : seedJob db job =
      (db.insertEvent ((job.event runAt).serialized job.jobId 1)).mapError .ofAggregate >>= fun db =>
        match db.jobQueue.lookup job.jobId with
        | some _ => .error .sql
        | none => .ok (db.setRow job.jobId
            ⟨1, liveJson (.pending job.kind job.payload runAt 0 0), none⟩) := by
  have hevent : enqueuedEvent job = .ok ((job.event runAt).serialized job.jobId 1) := by
    rw [enqueuedEvent, hrun]
    rfl
  have hpayload : pendingSeedPayload job =
      .ok (liveJson (.pending job.kind job.payload runAt 0 0)) := by
    rw [pendingSeedPayload, hrun]
    rfl
  have hbatch : insertSerializedEventsBatch db [(job.event runAt).serialized job.jobId 1] =
      db.insertEvent ((job.event runAt).serialized job.jobId 1) := by
    rw [insertSerializedEventsBatch_singleton]
    exact if_pos one_le_i64Max
  rw [seedJob, hevent, hpayload, ← hbatch]
  rfl

/-- How an intent is seeded in a commit: an instant out of range is refused, then the number 1 of the
job's stream must be free, and then its queue row. -/
theorem seedJob_outcome (db : Db) (job : EnqueueRequest) :
    match instantFromMillis job.runAtMs with
    | .error error => seedJob db job = .error (.jobFlush error)
    | .ok _ =>
        if (db.row (jobStream job.jobId) 1).isSome then seedJob db job = .error .optimisticLock
        else if (db.jobQueue.lookup job.jobId).isSome then seedJob db job = .error .sql
        else ∃ db', seedJob db job = .ok db' := by
  cases hrun : instantFromMillis job.runAtMs with
  | error error =>
      have hevent : enqueuedEvent job = .error error := by rw [enqueuedEvent, hrun]; rfl
      dsimp only
      rw [seedJob, hevent]
      rfl
  | ok runAt =>
      dsimp only
      rw [seedJob_eq hrun]
      rcases insertEvent_of_row db ((job.event runAt).serialized job.jobId 1) with
        ⟨htaken, hinsert⟩ | ⟨hfree, db', hinsert, hqueue⟩
      · rw [hinsert, if_pos (show (db.row (jobStream job.jobId) 1).isSome from htaken)]
        rfl
      · have hfree : ¬ (db.row (jobStream job.jobId) 1).isSome := by
          rw [show db.row (jobStream job.jobId) 1 = none from hfree]
          exact Bool.false_ne_true
        rw [hinsert, if_neg hfree, ← hqueue]
        cases hrow : db'.jobQueue.lookup job.jobId with
        | none => exact ⟨_, by simp only [Except.mapError, bind, Except.bind, hrow]; rfl⟩
        | some row => simp [Except.mapError, bind, Except.bind, hrow]

/-- How an intent is enqueued by itself: its queue row is written, whether there is one or not. -/
theorem enqueueJobPayload_outcome (db : Db) (job : EnqueueRequest) :
    (enqueueJobPayload none job db).1 =
      match instantFromMillis job.runAtMs with
      | .error error => .error (.ofStore error)
      | .ok _ =>
          if (db.row (jobStream job.jobId) 1).isSome then
            .error (.backend (.duplicateEnqueue job.jobId))
          else .ok () := by
  unfold enqueueJobPayload enqueuedEvent pendingSeedPayload
  cases hrun : instantFromMillis job.runAtMs with
  | error error => rfl
  | ok runAt =>
      simp only [bind, Except.bind, enqueueJob_eq, JobEvent.serialized, appendJobEvent_eq,
        if_pos one_le_i64Max]
      cases hl : (db.stream (jobStream job.jobId)).insert? 1
          (JobEvent.enqueued job.kind job.payload runAt).stored with
      | none =>
          have htaken : (db.row (jobStream job.jobId) 1).isSome := SeqLog.insert?_eq_none_iff.1 hl
          rw [if_pos htaken]
          rfl
      | some l =>
          have hfree : db.row (jobStream job.jobId) 1 = none := SeqLog.get?_eq_none_of_insert? hl
          rw [hfree]
          rfl

theorem validateEventStream_consecutive (s : StreamIdentity) (q : ℕ) (xs : List StoredEvent) :
    validateEventStream s (consecutive s q xs) = .ok () := by
  refine validateEventStream_eq_ok.2 fun e he => ?_
  obtain ⟨i, hi⟩ := List.mem_iff_getElem?.1 he
  rw [getElem?_consecutive] at hi
  obtain ⟨x, -, rfl⟩ := Option.map_eq_some_iff.1 hi
  rfl

/-- A commit that is well numbered is a transaction of its statements. -/
theorem commitOpaque_eq (hlt : request.expectedVersion + request.events.length < 2 ^ 64)
    (fault : Option EngineError) (db : Db) :
    commitOpaque fault request db =
      match fault, commitStatements request.serialized db with
      | some error, _ | none, .error error => (.error error, db)
      | none, .ok db' => (.ok (), db') := by
  have hfollow : eventsFollowVersion (consecutive request.stream (request.expectedVersion + 1)
      (request.events.map OpaqueProposedEvent.stored)) request.expectedVersion = true :=
    eventsFollowVersion_consecutive (by rwa [List.length_map])
  have hnumbered : ¬ ((some request.expectedVersion).any fun expected => !eventsFollowVersion
      (consecutive request.stream (request.expectedVersion + 1)
        (request.events.map OpaqueProposedEvent.stored)) expected) = true := by
    rw [Option.any_some, hfollow]
    exact Bool.false_ne_true
  rw [commitOpaque, serializeOpaque_of_lt hlt]
  dsimp only
  rw [commitSerialized, validateEventStream_consecutive]
  dsimp only
  rw [if_neg hnumbered]
  change inTransaction fault (fun db => (commitStatements request.serialized db).map
    fun db' => (.commit (), db')) db = _
  unfold inTransaction
  cases fault with
  | some error => rfl
  | none => cases hbody : commitStatements request.serialized db <;> simp only [hbody, Except.map]

/-- The statements at the stream's version: the events go in, and then the jobs are seeded. -/
theorem commitStatements_eq
    (hcurrent : committedStreamVersion db request.stream = request.expectedVersion) :
    commitStatements request.serialized db =
      (insertSerializedEventsBatch db (consecutive request.stream (request.expectedVersion + 1)
        (request.events.map OpaqueProposedEvent.stored))).mapError .ofAggregate >>= fun db =>
          request.jobs.foldlM seedJob db := by
  have hcheck : checkVersion db request.stream (some request.expectedVersion) = .ok () :=
    if_pos hcurrent
  unfold commitStatements OpaqueCommitRequest.serialized
  dsimp only
  rw [hcheck]
  rfl

/-- At the stream's version, only a number that does not fit keeps the events out. -/
theorem commitStatements_current
    (hcurrent : committedStreamVersion db request.stream = request.expectedVersion) :
    (i64Max < request.expectedVersion + request.events.length ∧
        commitStatements request.serialized db = .error .integer) ∨
      ∃ db', EventsAppended db db' request.stream request.expectedVersion
          (request.events.map OpaqueProposedEvent.stored) ∧
        commitStatements request.serialized db = request.jobs.foldlM seedJob db' := by
  have hfree : ∀ q, request.expectedVersion < q → db.row request.stream q = none := fun q hq =>
    row_eq_none_of_version_lt (hcurrent ▸ hq)
  rw [commitStatements_eq hcurrent]
  rcases insertSerializedEventsBatch_above hfree (request.events.map OpaqueProposedEvent.stored) with
    ⟨hlarge, herror⟩ | ⟨db', hok, happended⟩
  · rw [List.length_map] at hlarge
    exact .inl ⟨hlarge, by rw [herror]; rfl⟩
  · exact .inr ⟨db', happended, by rw [hok]; rfl⟩

/-- The first number of a stream is taken after the events of a commit went in. -/
theorem EventsAppended.row_one_isSome {db' : Db} {v : ℕ} {xs : List StoredEvent}
    (h : EventsAppended db db' s v xs) (hne : xs ≠ []) (t : StreamIdentity) :
    (db'.row t 1).isSome ↔ (db.row t 1).isSome ∨ t = s ∧ v = 0 := by
  have hpos := List.length_pos_iff.2 hne
  by_cases hin : t = s ∧ v = 0
  · obtain ⟨rfl, rfl⟩ := hin
    have hrow := h.appended 0 xs[0] (List.getElem?_eq_getElem hpos)
    refine iff_of_true ?_ (.inr ⟨rfl, rfl⟩)
    rw [show 0 + 1 + 0 = 1 from rfl] at hrow
    rw [hrow]
    rfl
  · rw [h.rows t 1 fun hlt => hin ⟨hlt.1, by omega⟩]
    exact (or_iff_left hin).symm

end Statements

/-! ## Conflicts -/

/-- The answer of a commit, when the version of a conflict is read in `later`. -/
def commitAnswer (fault : Option EngineError) (request : OpaqueCommitRequest) (db later : Db) :
    Except AbiError Unit :=
  match (commitOpaque fault request db).1 with
  | .ok () => .ok ()
  | .error .optimisticLock =>
      .error (.conflict request.stream.aggregateType request.stream.aggregateId
        request.expectedVersion (committedStreamVersion later request.stream))
  | .error error => .error (.ofEngine error)

/-- The boundary's call without anything in between. -/
theorem commitResult_fst (fault : Option EngineError) (request : OpaqueCommitRequest) (db : Db) :
    (commitResult fault request db).1 =
      commitAnswer fault request db (commitResult fault request db).2 := by
  unfold commitResult commitAnswer
  split
  next hresult => rw [hresult]
  next hresult => rw [hresult]
  next error _ hother hresult =>
    rw [hresult]
    cases error <;> first | rfl | exact absurd rfl hother

def StreamVersion.Op.isDiscard : StreamVersion.Op → Bool
  | .discardSnapshot _ => true
  | _ => false

/-- The job's first number is taken, by a job of this id or by a commit at version
`v` of the stream `s`. -/
def JobTaken (db : Db) (s : StreamIdentity) (v : ℕ) (job : EnqueueRequest) : Prop :=
  (db.row (jobStream job.jobId) 1).isSome ∨ jobStream job.jobId = s ∧ v = 0

instance (db : Db) (s : StreamIdentity) (v : ℕ) (job : EnqueueRequest) :
    Decidable (JobTaken db s v job) := inferInstanceAs (Decidable (_ ∨ _))

/-- The expected version is not ahead of the stream, and if it is the stream's version, the commit's
job can be seeded. -/
def NotAhead (db : Db) (request : OpaqueCommitRequest) : Prop :=
  request.expectedVersion ≤ committedStreamVersion db request.stream ∧
    (committedStreamVersion db request.stream = request.expectedVersion →
      ∀ job ∈ request.jobs, ¬ JobTaken db request.stream request.expectedVersion job)

section Conflicts

variable {db : Db} {request : OpaqueCommitRequest} {fault : Option EngineError}

/-- No call but a discard lowers the version. -/
theorem version_le_of_not_discard (s : StreamIdentity) {ops : List StreamVersion.Op}
    (hops : ∀ op ∈ ops, op.isDiscard = false) (σ : StreamVersion.State) :
    committedStreamVersion σ.db s ≤
      committedStreamVersion ((StreamVersion.machine s).exec σ ops).db s := by
  induction ops generalizing σ with
  | nil => exact le_rfl
  | cons op ops ih =>
      rw [List.forall_mem_cons] at hops
      refine le_trans ?_ (ih hops.2 (StreamVersion.step s σ op))
      cases op with
      | commitOpaque fault v events jobs => exact StreamVersion.version_le_commitOpaque ..
      | storeSnapshot fault snapshot => exact (StreamVersion.advances_storeSnapshot ..).version_le
      | discardSnapshot fault => cases hops.1
      | compact => exact StreamVersion.advances_deleteCovered.version_le

/-- A conflict at the version the caller expected comes from the job. -/
theorem jobTaken_of_conflict (hlt : request.expectedVersion + request.events.length < 2 ^ 64)
    (hne : request.events ≠ []) (hjobs : request.jobs.length ≤ 1)
    (hfault : fault ≠ some .optimisticLock)
    (hconflict : (commitOpaque fault request db).1 = .error .optimisticLock)
    (hcurrent : committedStreamVersion db request.stream = request.expectedVersion) :
    ∃ job ∈ request.jobs, JobTaken db request.stream request.expectedVersion job := by
  have hstatements : commitStatements request.serialized db = .error .optimisticLock := by
    rw [commitOpaque_eq hlt] at hconflict
    cases fault with
    | some error => exact absurd (congrArg some (Except.error.inj hconflict)) hfault
    | none =>
        cases hresult : commitStatements request.serialized db with
        | ok db' => rw [hresult] at hconflict; cases hconflict
        | error error => rw [hresult] at hconflict; rw [Except.error.inj hconflict]
  rcases commitStatements_current hcurrent with ⟨-, herror⟩ | ⟨db', happended, hseeds⟩
  · cases herror.symm.trans hstatements
  · rw [hstatements] at hseeds
    obtain ⟨stream, expected, events, jobs⟩ := request
    match jobs, hjobs with
    | [], _ => cases hseeds
    | [job], _ =>
        refine ⟨job, List.mem_singleton_self _, ?_⟩
        have htaken := happended.row_one_isSome (List.map_eq_nil_iff.not.2 hne)
          (jobStream job.jobId)
        refine htaken.1 (by_contra fun hfree => ?_)
        have hout := seedJob_outcome db' job
        have hseed : seedJob db' job = .error .optimisticLock := by
          cases hjob : seedJob db' job with
          | error error =>
              rw [List.foldlM_cons, hjob] at hseeds
              exact hseeds.symm
          | ok db'' =>
              rw [List.foldlM_cons, hjob] at hseeds
              cases hseeds
        rw [hseed] at hout
        cases hrun : instantFromMillis job.runAtMs with
        | error error => rw [hrun] at hout; cases hout
        | ok runAt =>
            rw [hrun] at hout
            dsimp only at hout
            rw [if_neg hfree] at hout
            split_ifs at hout
            · cases hout
            · obtain ⟨_, hok⟩ := hout
              cases hok

/-- Another writer can take the stream to any later version that a number has room for. -/
theorem exists_commit_to {s : StreamIdentity} {n : ℕ} (hlt : committedStreamVersion db s < n)
    (hle : n ≤ i64Max) : ∃ op : StreamVersion.Op, op.isDiscard = false ∧
      committedStreamVersion (StreamVersion.act s db op) s = n := by
  let v := committedStreamVersion db s
  let events : List OpaqueProposedEvent := .replicate (n - v) ⟨"", "", []⟩
  let request : OpaqueCommitRequest := ⟨s, v, events, []⟩
  have hlength : v + events.length = n := by
    rw [List.length_replicate]
    exact Nat.add_sub_cancel' hlt.le
  refine ⟨.commitOpaque none v events [], rfl, ?_⟩
  have hok : (commitOpaque none request db).1 = .ok () := by
    rcases @commitStatements_current db request rfl with ⟨hlarge, -⟩ | ⟨db', -, hseeds⟩
    · exact absurd hle (hlength ▸ hlarge).not_ge
    · rw [commitOpaque_eq (hlength ▸ hle.trans_lt (by decide)), hseeds]
      rfl
  have hat := committedAt_of_commitOpaque hok
  change committedStreamVersion (commitOpaque none request db).2 s = n
  generalize (commitOpaque none request db).2 = db' at hat
  have hcount : request.serialized.events.length = n - v := by
    rw [OpaqueCommitRequest.serialized, length_consecutive, List.length_map, List.length_replicate]
  have hcovered : db'.covered s = db.covered s := by
    rw [Db.covered, hat.snapshots s]
    exact congrArg (fun row => (Option.map SnapshotRow.lastSequence row).getD 0) (if_pos rfl)
  refine le_antisymm (max_le (SeqLog.maxSeq_le fun q x hx => ?_) ?_) ?_
  · by_contra hgt
    have hkept : db'.row s q = db.row s q := hat.rows s q
      (fun hin => by have := hin.2.2; rw [hcount] at this; change q ≤ v + (n - v) at this; omega)
      fun _ job hjob => (List.not_mem_nil hjob).elim
    have hq : q ≤ v := (SeqLog.le_maxSeq (hkept.symm.trans hx)).trans (le_max_left _ _)
    omega
  · change db'.covered s ≤ n
    rw [hcovered]
    exact (le_max_right _ _).trans hlt.le
  · have hlast := List.getElem?_eq_getElem (l := request.serialized.events) (i := n - v - 1)
      (by rw [hcount]; omega)
    have hrow := (hat.appended _ _ hlast).2
    change db'.row s (v + 1 + (n - v - 1)) = _ at hrow
    rw [show v + 1 + (n - v - 1) = n by omega] at hrow
    exact (SeqLog.le_maxSeq hrow).trans (le_max_left _ _)

theorem commitParts_room {wire : CommitWire} {request : OpaqueCommitRequest}
    (h : commitParts wire = .ok request) :
    wire.expected.toNat + wire.events.values.length < 2 ^ 64 := by
  obtain ⟨_, -, h⟩ := Except.bind_eq_ok.1 h
  obtain ⟨_, -, h⟩ := Except.bind_eq_ok.1 h
  obtain ⟨_, -, h⟩ := Except.bind_eq_ok.1 h
  obtain ⟨_, -, h⟩ := Except.bind_eq_ok.1 h
  obtain ⟨_, -, h⟩ := Except.bind_eq_ok.1 h
  obtain ⟨_, hadd, -⟩ := Except.bind_eq_ok.1 h
  by_contra hlarge
  rw [checkedAddUsize, if_neg hlarge] at hadd
  cases hadd

/-- A commit of one event that expects the stream to be at `v`. -/
def oneEvent (id : String) (v : UInt64) : CommitWire :=
  ⟨1, "account", id, v, ⟨[⟨"Opened", "1.0", []⟩], 1⟩⟩

/-- The database after a commit to the stream `a` that enqueued the job `job`. -/
def withJob : Db :=
  (esCommitWithJob some none (oneEvent "a" 0) ⟨"job", "mail", [], 0⟩ .empty).2

/-- The versions a conflict is told with. -/
def conflictVersions : Except AbiError Unit → Option (ℕ × ℕ)
  | .error (.conflict _ _ expected actual) => some (expected, actual)
  | _ => none

/-- The database `withJob` after another writer's commit to the stream `a`. -/
def overtaken : Db :=
  ((StreamVersion.machine ⟨"account", "a"⟩).exec ⟨withJob, []⟩
    [.commitOpaque none 1 [⟨"Opened", "1.0", []⟩] []]).db

end Conflicts

/-! ## Jobs with and without a commit -/

section Intents

variable (parseJobId : String → Option JobId) {wire : CommitWire} {parts : OpaqueCommitRequest}
  {job : JobSeedWire} {seed : EnqueueRequest} {db : Db}

theorem instantFromMillis_eq_error {ms : ℤ} {error : JobStoreError}
    (h : instantFromMillis ms = .error error) : error = .invalidInstant ms := by
  rw [instantFromMillis] at h
  split_ifs at h
  exact (Except.error.inj h).symm

theorem esJobEnqueue_eq (hseed : jobSeed parseJobId job = .ok seed) :
    (esJobEnqueue parseJobId none 1 job db).1 =
      match instantFromMillis seed.runAtMs with
      | .error _ => .error .malformedInput
      | .ok _ =>
          if (db.row (jobStream seed.jobId) 1).isSome then
            .error (.jobRuntime (.backend (.duplicateEnqueue seed.jobId)))
          else .ok () := by
  have henqueue : (esJobEnqueue parseJobId none 1 job db).1 =
      (enqueueJobPayload none seed db).1.mapError (jobRuntimeError seed.jobId) := by
    rw [esJobEnqueue, hseed]
    rfl
  rw [henqueue, enqueueJobPayload_outcome]
  cases hrun : instantFromMillis seed.runAtMs with
  | error error =>
      obtain rfl := instantFromMillis_eq_error hrun
      rfl
  | ok runAt =>
      dsimp only
      split_ifs <;> rfl

theorem esCommitWithJob_eq (hparts : commitParts wire = .ok parts)
    (hseed : jobSeed parseJobId job = .ok seed)
    (hcurrent : committedStreamVersion db parts.stream = parts.expectedVersion)
    (hroom : parts.expectedVersion + parts.events.length ≤ i64Max) :
    (esCommitWithJob parseJobId none wire job db).1 =
      match instantFromMillis seed.runAtMs with
      | .error _ => .error .malformedInput
      | .ok _ =>
          if JobTaken db parts.stream parts.expectedVersion seed then
            .error (.conflict wire.aggregateType wire.aggregateId wire.expected.toNat
              wire.expected.toNat)
          else if (db.jobQueue.lookup seed.jobId).isSome then .error (.engine .sql)
          else .ok () := by
  have hevents := (commitParts_eq_ok hparts).2.2
  have hlt := commitParts_room hparts
  obtain ⟨rfl, -, -⟩ := commitParts_eq_ok hparts
  let request : OpaqueCommitRequest := ⟨⟨wire.aggregateType, wire.aggregateId⟩, wire.expected.toNat,
    wire.events.values, [seed]⟩
  obtain ⟨db', happended, hstatements⟩ :=
    (@commitStatements_current db request hcurrent).resolve_left fun h => h.1.not_ge hroom
  have htaken := happended.row_one_isSome (List.map_eq_nil_iff.not.2 hevents) (jobStream seed.jobId)
  have hanswer : (esCommitWithJob parseJobId none wire job db).1 =
      commitAnswer none request db (commitResult none request db).2 := by
    rw [esCommitWithJob, hparts, hseed]
    exact commitResult_fst none request db
  have hcommit : (commitOpaque none request db).1 = (seedJob db' seed).map fun _ => () := by
    have hone : request.jobs.foldlM seedJob db' = seedJob db' seed := bind_pure _
    rw [commitOpaque_eq hlt, hstatements, hone]
    cases seedJob db' seed <;> rfl
  have hout := seedJob_outcome db' seed
  rw [hanswer, commitAnswer, hcommit]
  cases hrun : instantFromMillis seed.runAtMs with
  | error error =>
      obtain rfl := instantFromMillis_eq_error hrun
      rw [hrun] at hout
      rw [show seedJob db' seed = _ from hout]
      rfl
  | ok runAt =>
      rw [hrun] at hout
      dsimp only at hout ⊢
      by_cases hjob : JobTaken db request.stream request.expectedVersion seed
      · rw [if_pos (htaken.2 hjob)] at hout
        have hsame : (commitResult none request db).2 = db := by
          have herror : (commitOpaque none request db).1 = .error .optimisticLock := by
            rw [hcommit, hout]
            rfl
          rw [commitResult_snd]
          exact commitOpaque_error herror
        rw [hout, hsame, if_pos (show JobTaken db _ _ seed from hjob)]
        exact congrArg (fun v => Except.error (AbiError.conflict _ _ _ v)) hcurrent
      · rw [if_neg fun h => hjob (htaken.1 h), happended.jobQueue] at hout
        rw [if_neg (show ¬ JobTaken db _ _ seed from hjob)]
        split_ifs at hout ⊢
        · rw [hout]
          rfl
        · obtain ⟨db'', hok⟩ := hout
          rw [hok]
          rfl

/-- The intent's first event and its queue row are both free, beside the commit's own events. -/
def IntentFree (db : Db) (s : StreamIdentity) (v : ℕ) (seed : EnqueueRequest) : Prop :=
  ¬ JobTaken db s v seed ∧ db.jobQueue.lookup seed.jobId = none

/-- A refused intent is malformed or over a limit. -/
theorem jobSeed_error_code {error : AbiError} (h : jobSeed parseJobId job = .error error) :
    error.code ≠ 4 := by
  have hlimit : ∀ {resource : String} {limit observed : ℕ} {error : AbiError},
      requireLimit resource limit observed = .error error → error.code ≠ 4 := by
    intro resource limit observed error hresult
    rw [requireLimit] at hresult
    split_ifs at hresult
    rw [← Except.error.inj hresult]
    exact fun hcode => by cases hcode
  rcases Except.bind_eq_error.1 h with h | ⟨_, -, h⟩
  · exact hlimit h
  rcases Except.bind_eq_error.1 h with h | ⟨_, -, h⟩
  · exact hlimit h
  rcases Except.bind_eq_error.1 h with h | ⟨_, -, h⟩
  · exact hlimit h
  split at h
  · rw [← Except.error.inj h]
    exact fun hcode => by cases hcode
  · cases h

/-- **The two ways to enqueue a job.** At the stream's version, a commit with a job and an enqueue of
the same intent both succeed or fail with the same class exactly if the intent is refused for what it
is, or its first event and its queue row are free. Then neither fails as storage. -/
theorem enqueue_agrees_with_commit_iff (wire : CommitWire) (parts : OpaqueCommitRequest)
    (job : JobSeedWire) (db : Db) (hparts : commitParts wire = .ok parts)
    (hcurrent : committedStreamVersion db parts.stream = parts.expectedVersion)
    (hroom : parts.expectedVersion + parts.events.length ≤ i64Max) :
    ((esJobEnqueue parseJobId none 1 job db).1.mapError AbiError.code =
        (esCommitWithJob parseJobId none wire job db).1.mapError AbiError.code ↔
      ∀ seed runAt, jobSeed parseJobId job = .ok seed →
        instantFromMillis seed.runAtMs = .ok runAt →
        IntentFree db parts.stream parts.expectedVersion seed) ∧
    ((∀ seed runAt, jobSeed parseJobId job = .ok seed →
        instantFromMillis seed.runAtMs = .ok runAt →
        IntentFree db parts.stream parts.expectedVersion seed) →
      (esJobEnqueue parseJobId none 1 job db).1.mapError AbiError.code ≠ .error 4 ∧
        (esCommitWithJob parseJobId none wire job db).1.mapError AbiError.code ≠ .error 4) := by
  cases hseed : jobSeed parseJobId job with
  | error error =>
      have henqueue : (esJobEnqueue parseJobId none 1 job db).1 = .error error := by
        rw [esJobEnqueue, hseed]
        rfl
      have hcommit : (esCommitWithJob parseJobId none wire job db).1 = .error error := by
        rw [esCommitWithJob, hparts, hseed]
      have hcode : (.error error.code : Except UInt32 Unit) ≠ .error 4 := fun h =>
        jobSeed_error_code parseJobId hseed (Except.error.inj h)
      rw [henqueue, hcommit]
      exact ⟨iff_of_true rfl fun _ _ h => (by cases h), fun _ => ⟨hcode, hcode⟩⟩
  | ok seed =>
      rw [esJobEnqueue_eq parseJobId hseed, esCommitWithJob_eq parseJobId hparts hseed hcurrent hroom]
      cases hrun : instantFromMillis seed.runAtMs with
      | error error =>
          have hinput : (.error 1 : Except UInt32 Unit) ≠ .error 4 := by decide
          refine ⟨iff_of_true rfl fun seed' runAt h h' => ?_, fun _ => ⟨hinput, hinput⟩⟩
          obtain rfl := Except.ok.inj h
          cases hrun.symm.trans h'
      | ok runAt =>
          have hall : (∀ seed' runAt', (.ok seed : Except AbiError EnqueueRequest) = .ok seed' →
              instantFromMillis seed'.runAtMs = .ok runAt' →
              IntentFree db parts.stream parts.expectedVersion seed') ↔
              IntentFree db parts.stream parts.expectedVersion seed := by
            refine ⟨fun h => h seed runAt rfl hrun, fun h seed' runAt' heq _ => ?_⟩
            rwa [← Except.ok.inj heq]
          rw [hall]
          dsimp only
          by_cases htaken : (db.row (jobStream seed.jobId) 1).isSome
          · have hjob : JobTaken db parts.stream parts.expectedVersion seed := .inl htaken
            rw [if_pos htaken, if_pos hjob]
            refine ⟨iff_of_false (fun h => ?_) fun hfree => hfree.1 hjob,
              fun hfree => absurd hjob hfree.1⟩
            cases h
          · rw [if_neg htaken]
            by_cases hjob : JobTaken db parts.stream parts.expectedVersion seed
            · rw [if_pos hjob]
              refine ⟨iff_of_false (fun h => ?_) fun hfree => hfree.1 hjob,
                fun hfree => absurd hjob hfree.1⟩
              cases h
            · rw [if_neg hjob]
              cases hqueue : db.jobQueue.lookup seed.jobId with
              | none =>
                  have haccepted : (.ok () : Except UInt32 Unit) ≠ .error 4 := by decide
                  exact ⟨iff_of_true rfl ⟨hjob, hqueue⟩, fun _ => ⟨haccepted, haccepted⟩⟩
              | some row =>
                  have hrow : ¬ IntentFree db parts.stream parts.expectedVersion seed := fun hfree =>
                    by cases hqueue.symm.trans hfree.2
                  refine ⟨iff_of_false (fun h => ?_) hrow, fun hfree => absurd hfree hrow⟩
                  cases h

/-- A job id that is taken is a storage failure to one of the calls and a conflict to the other. -/
theorem taken_job_is_told_two_ways :
    (esJobEnqueue some none 1 ⟨"job", "mail", [], 0⟩ withJob).1.mapError AbiError.code = .error 4 ∧
      (esCommitWithJob some none (oneEvent "b" 0) ⟨"job", "mail", [], 0⟩ withJob).1.mapError
        AbiError.code = .error 2 := by
  decide +kernel

/-- A free intent is accepted by both, or by neither for the same reason. -/
theorem fresh_intent_agrees :
    (esJobEnqueue some none 1 ⟨"other", "mail", [], 0⟩ withJob).1.mapError AbiError.code =
      (esCommitWithJob some none (oneEvent "b" 0) ⟨"other", "mail", [], 0⟩ withJob).1.mapError
        AbiError.code := by
  refine (enqueue_agrees_with_commit_iff some (oneEvent "b" 0) _ ⟨"other", "mail", [], 0⟩ withJob rfl
    (by decide +kernel) (by decide)).1.2 fun seed runAt hseed _ => ?_
  obtain rfl := Except.ok.inj hseed
  exact ⟨by decide +kernel, by decide +kernel⟩

end Intents

end EventSorcery
