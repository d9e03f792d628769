import EventSorcery.Engine

/-!
# What a commit does

A successful commit inserts exactly the requested rows, replaces at most the stream's snapshot row,
and seeds each job intent once; a failed one changes nothing. The statements read the tables row by
row, so they hold in every database state, contiguous or not.
-/

namespace EventSorcery

/-- The row of the `events` table under a primary key. -/
def Db.row (db : Db) (s : StreamIdentity) (q : ℕ) : Option StoredEvent := (db.stream s).get? q

/-- The `Enqueued` event a job intent stands for. -/
def EnqueueRequest.event (request : EnqueueRequest) (runAt : Instant) : JobEvent :=
  .enqueued request.kind request.payload runAt

/-- The queue row a job intent seeds: version 1, no lease, the fold of its `Enqueued` event. -/
def EnqueueRequest.seedRow (request : EnqueueRequest) (runAt : Instant) : ViewRow :=
  ⟨1, Lifecycle.toJson jobEntity (jobFold [request.event runAt]), none⟩

/-! ## Job intents -/

/-- One job intent seeded: its event and row were free and are there now, nothing else changed. -/
structure JobSeeded (db db' : Db) (request : EnqueueRequest) (runAt : Instant) : Prop where
  instant : instantFromMillis request.runAtMs = .ok runAt
  free_event : db.row (jobStream request.jobId) 1 = none
  free_row : db.jobQueue.lookup request.jobId = none
  row : ∀ s q, db'.row s q =
    if s = jobStream request.jobId ∧ q = 1 then some (request.event runAt).stored else db.row s q
  queue : ∀ id, db'.jobQueue.lookup id =
    if id = request.jobId then some (request.seedRow runAt) else db.jobQueue.lookup id
  snapshots : db'.snapshots = db.snapshots

/-- Inserting one event: its primary key was free, and only that row is new. -/
theorem insertEvent_eq_ok {db db' : Db} {e : SerializedEvent} (h : db.insertEvent e = .ok db') :
    db.row e.identity e.sequence = none ∧
      (∀ s q, db'.row s q =
        if s = e.identity ∧ q = e.sequence then some e.stored else db.row s q) ∧
      db'.snapshots = db.snapshots ∧ db'.jobQueue = db.jobQueue := by
  unfold Db.insertEvent at h
  split at h
  · cases h
  next l hl =>
    obtain rfl := Except.ok.inj h
    refine ⟨SeqLog.get?_eq_none_of_insert? hl, fun s q => ?_, rfl, rfl⟩
    rw [Db.row, Db.stream_setStream, Db.row]
    by_cases hs : s = e.identity
    · subst hs
      simp [SeqLog.get?_insert? hl]
    · simp [hs]

theorem seedJob_eq_ok {db db' : Db} {request : EnqueueRequest} (h : seedJob db request = .ok db') :
    ∃ runAt, JobSeeded db db' request runAt := by
  obtain ⟨event, hevent, h⟩ := Except.bind_eq_ok.1 h
  obtain ⟨db₁, hins, h⟩ := Except.bind_eq_ok.1 h
  obtain ⟨payload, hpayload, h⟩ := Except.bind_eq_ok.1 h
  obtain ⟨runAt, hrun, hev⟩ := Except.bind_eq_ok.1 (Except.mapError_eq_ok.1 hevent)
  obtain ⟨runAt', hrun', hpay⟩ := Except.bind_eq_ok.1 (Except.mapError_eq_ok.1 hpayload)
  obtain rfl : runAt = runAt' := Except.ok.inj (hrun.symm.trans hrun')
  obtain rfl := Except.ok.inj hev
  obtain rfl := Except.ok.inj hpay
  rw [Except.mapError_eq_ok, insertSerializedEventsBatch_singleton,
    JobEvent.sequence_serialized, if_pos one_le_i64Max] at hins
  obtain ⟨hfree, hrow, hsnap, hqueue⟩ := insertEvent_eq_ok hins
  split at h
  · cases h
  next hnone =>
    obtain rfl := Except.ok.inj h
    rw [hqueue] at hnone
    refine ⟨runAt, hrun, hfree, hnone, hrow, fun id => ?_, hsnap⟩
    rw [Db.lookup_jobQueue_setRow, hqueue]
    rfl

/-- A list of job intents seeded: their ids differ, each got its event and row, all else is as it
was. -/
structure JobsSeeded (db db' : Db) (jobs : List EnqueueRequest) : Prop where
  nodup : (jobs.map EnqueueRequest.jobId).Nodup
  seeded : ∀ job ∈ jobs, ∃ runAt, instantFromMillis job.runAtMs = .ok runAt ∧
    db.row (jobStream job.jobId) 1 = none ∧ db.jobQueue.lookup job.jobId = none ∧
    db'.row (jobStream job.jobId) 1 = some (job.event runAt).stored ∧
    db'.jobQueue.lookup job.jobId = some (job.seedRow runAt)
  rows : ∀ s q, (q = 1 → ∀ job ∈ jobs, s ≠ jobStream job.jobId) → db'.row s q = db.row s q
  queue : ∀ id, (∀ job ∈ jobs, id ≠ job.jobId) →
    db'.jobQueue.lookup id = db.jobQueue.lookup id
  snapshots : db'.snapshots = db.snapshots

theorem jobStream_inj {id id' : JobId} : jobStream id = jobStream id' ↔ id = id' := by
  simp [jobStream]

theorem foldlM_seedJob_eq_ok {db db' : Db} {jobs : List EnqueueRequest}
    (h : jobs.foldlM seedJob db = .ok db') : JobsSeeded db db' jobs := by
  induction jobs generalizing db with
  | nil =>
      obtain rfl := Except.ok.inj h
      exact ⟨.nil, by simp, fun _ _ _ => rfl, fun _ _ => rfl, rfl⟩
  | cons job jobs ih =>
      obtain ⟨db₁, hseed, hrest⟩ := Except.bind_eq_ok.1 h
      obtain ⟨runAt, hjob⟩ := seedJob_eq_ok hseed
      have htail := ih hrest
      -- The head's keys are taken once it is seeded, so no later intent can reuse its id.
      have hfresh : ∀ job' ∈ jobs, job'.jobId ≠ job.jobId := fun job' hmem heq => by
        obtain ⟨_, -, -, hq, -⟩ := htail.seeded job' hmem
        rw [hjob.queue, if_pos heq] at hq
        cases hq
      refine ⟨?_, fun job' hmem => ?_, fun s q hs => ?_, fun id hid => ?_,
        htail.snapshots.trans hjob.snapshots⟩
      · rw [List.map_cons, List.nodup_cons]
        refine ⟨fun hmem => ?_, htail.nodup⟩
        obtain ⟨job', hmem', heq⟩ := List.mem_map.1 hmem
        exact hfresh job' hmem' heq
      · rcases List.mem_cons.1 hmem with rfl | hmem
        · refine ⟨runAt, hjob.instant, hjob.free_event, hjob.free_row, ?_, ?_⟩
          · rw [htail.rows _ _ fun _ k hk => fun heq => hfresh k hk (jobStream_inj.1 heq).symm,
              hjob.row, if_pos ⟨rfl, rfl⟩]
          · rw [htail.queue _ fun k hk => (hfresh k hk).symm, hjob.queue, if_pos rfl]
        · obtain ⟨runAt', hinst, hrow, hqueue, hrow', hqueue'⟩ := htail.seeded job' hmem
          have hne := hfresh job' hmem
          rw [hjob.row, if_neg fun hk => hne (jobStream_inj.1 hk.1)] at hrow
          rw [hjob.queue, if_neg hne] at hqueue
          exact ⟨runAt', hinst, hrow, hqueue, hrow', hqueue'⟩
      · rw [htail.rows s q fun hq k hk => hs hq k (List.mem_cons_of_mem _ hk), hjob.row,
          if_neg fun hk => hs hk.2 job List.mem_cons_self hk.1]
      · rw [htail.queue id fun k hk => hid k (List.mem_cons_of_mem _ hk), hjob.queue,
          if_neg (hid job List.mem_cons_self)]

/-! ## The whole commit -/

theorem validateEventStream_eq_ok {s : StreamIdentity} {events : List SerializedEvent} :
    validateEventStream s events = .ok () ↔ ∀ e ∈ events, e.identity = s := by
  unfold validateEventStream
  split
  next h => simpa using h
  next e h =>
    have hmem := List.mem_of_find?_eq_some h
    have hne : e.identity ≠ s := by simpa using List.find?_some h
    simp only [reduceCtorEq, false_iff, not_forall]
    exact ⟨e, hmem, hne⟩

theorem checkedAddUsize_eq_some {a b c : ℕ} :
    checkedAddUsize a b = some c ↔ a + b = c ∧ c < 2 ^ 64 := by
  unfold checkedAddUsize
  split_ifs with h
  · simp only [Option.some.injEq]
    exact ⟨fun heq => ⟨heq, heq ▸ h⟩, fun heq => heq.1⟩
  · simp only [false_iff, not_and]
    rintro rfl
    exact h

/-- Events of one stream with consecutive numbers are their rows, numbered. -/
theorem eq_consecutive {s : StreamIdentity} {events : List SerializedEvent} {v : ℕ}
    (hs : ∀ e ∈ events, e.identity = s)
    (hq : ∀ i e, events[i]? = some e → e.sequence = v + i + 1) :
    events = consecutive s (v + 1) (events.map SerializedEvent.stored) := by
  induction events generalizing v with
  | nil => rfl
  | cons e events ih =>
      have he : e.stored.serialized s (v + 1) = e := by
        rw [← hs e List.mem_cons_self, show v + 1 = e.sequence from (hq 0 e rfl).symm,
          SerializedEvent.serialized_stored]
      rw [List.map_cons, consecutive, he,
        ← ih (fun e' h => hs e' (List.mem_cons_of_mem _ h)) fun i e' h => by
          rw [hq (i + 1) e' h]; omega]

theorem eventsFollowVersion_eq_true {events : List SerializedEvent} {v : ℕ}
    (h : eventsFollowVersion events v) (i : ℕ) (e : SerializedEvent) (he : events[i]? = some e) :
    e.sequence = v + i + 1 := by
  have hmem : (e, i) ∈ events.zipIdx := List.mem_zipIdx_iff_getElem?.2 he
  have := List.all_eq_true.1 h _ hmem
  simp only [decide_eq_true_eq, Option.bind_eq_some_iff, checkedAddUsize_eq_some] at this
  omega

theorem inTransaction_commit {ε : Type} {fault : Option ε} {body : Db → Except ε Db} {db : Db}
    (h : (inTransaction fault
      (fun db => (body db).map fun db' => (TransactionOutcome.commit (), db')) db).1 = .ok ()) :
    body db = .ok (inTransaction fault
      (fun db => (body db).map fun db' => (TransactionOutcome.commit (), db')) db).2 := by
  unfold inTransaction at *
  cases fault with
  | some e => cases h
  | none => cases hb : body db <;> simp_all [Except.map]

/-- What a commit that succeeded did, whatever version it expected: its guards held, and its rows
went in one after the other. -/
theorem commitSerialized_ok {fault : Option EngineError} {request : CommitRequest} {db : Db}
    (h : (commitSerialized fault request db).1 = .ok ()) :
    (∀ e ∈ request.events, e.identity = request.stream) ∧
      (∀ v, request.expectedVersion = some v → eventsFollowVersion request.events v ∧
        committedStreamVersion db request.stream = v) ∧
      ∃ db₁ db₂, insertSerializedEventsBatch db request.events = .ok db₁ ∧
        writeSnapshot db₁ request.stream request.events request.snapshot = .ok db₂ ∧
        request.jobs.foldlM seedJob db₂ = .ok (commitSerialized fault request db).2 := by
  unfold commitSerialized at h ⊢
  split at h
  · cases h
  next hval =>
    split_ifs at h ⊢ with hany
    have hbody := inTransaction_commit h
    obtain ⟨_, hver, hbody⟩ := Except.bind_eq_ok.1 hbody
    obtain ⟨db₁, hins, hbody⟩ := Except.bind_eq_ok.1 hbody
    obtain ⟨db₂, hsnap, hjobs⟩ := Except.bind_eq_ok.1 hbody
    refine ⟨validateEventStream_eq_ok.1 hval, fun v hv => ?_, db₁, db₂,
      Except.mapError_eq_ok.1 hins, hsnap, hjobs⟩
    rw [hv] at hany hver
    refine ⟨by simpa using hany, ?_⟩
    simp only [checkVersion] at hver
    split_ifs at hver with heq
    exact heq

theorem commitSerialized_error {fault : Option EngineError} {request : CommitRequest} {db : Db}
    {error : EngineError} (h : (commitSerialized fault request db).1 = .error error) :
    (commitSerialized fault request db).2 = db := by
  unfold commitSerialized at *
  split
  · rfl
  next hval =>
    rw [hval] at h
    simp only at h ⊢
    split_ifs with hany
    · rfl
    · rw [if_neg hany] at h
      exact inTransaction_of_error h

/-- Consecutive events went into free numbers of their stream, and nothing else changed. -/
structure EventsAppended (db db' : Db) (s : StreamIdentity) (v : ℕ) (xs : List StoredEvent) :
    Prop where
  free : ∀ i < xs.length, db.row s (v + 1 + i) = none
  appended : ∀ i x, xs[i]? = some x → db'.row s (v + 1 + i) = some x
  rows : ∀ t q, ¬ (t = s ∧ v < q ∧ q ≤ v + xs.length) → db'.row t q = db.row t q
  snapshots : db'.snapshots = db.snapshots
  jobQueue : db'.jobQueue = db.jobQueue

/-- The batch insert of consecutive events. -/
theorem insertSerializedEventsBatch_consecutive {db db' : Db} {s : StreamIdentity} {v : ℕ}
    {xs : List StoredEvent}
    (h : insertSerializedEventsBatch db (consecutive s (v + 1) xs) = .ok db') :
    EventsAppended db db' s v xs := by
  have hspec := foldlM_insertEvent_consecutive db s (v + 1) xs
  have hfold := (insertSerializedEventsBatch_eq_ok.1 h).2
  cases hl : (db.stream s).insertFrom? (v + 1) xs with
  | none => rw [hl] at hspec; rw [hspec] at hfold; cases hfold
  | some l =>
      rw [hl] at hspec
      obtain ⟨db'', hok, happ⟩ := hspec
      obtain rfl : db'' = db' := Except.ok.inj (hok.symm.trans hfold)
      have hrow := SeqLog.get?_insertFrom? hl
      refine ⟨fun i hi => ?_, fun i x hx => ?_, fun t q ht => ?_, happ.snapshots, happ.jobQueue⟩
      · by_contra hne
        have hnone : (db.stream s).insertFrom? (v + 1) xs = none :=
          SeqLog.insertFrom?_eq_none_iff.2
            ⟨v + 1 + i, by omega, by omega, Option.isSome_iff_ne_none.2 hne⟩
        rw [hl] at hnone
        cases hnone
      · have hi := (List.getElem?_eq_some_iff.1 hx).1
        rw [Db.row, happ.stream_self, hrow, if_pos (by omega), Nat.add_sub_cancel_left, hx]
      · by_cases hts : t = s
        · subst hts
          rw [Db.row, happ.stream_self, hrow, if_neg fun hq => ht ⟨rfl, by omega, by omega⟩]
          rfl
        · rw [Db.row, happ.stream_of_ne hts]
          rfl

/-- The snapshot row a commit leaves for its stream. -/
def snapshotAfter (request : CommitRequest) (v : ℕ) (row : Option SnapshotRow) :
    Option SnapshotRow :=
  match request.snapshot with
  | none => row
  | some snapshot =>
      some ⟨v + request.events.length, snapshot.snapshotVersion, snapshot.aggregate⟩

/-- The effect of a commit of a request that expected version `v`. -/
structure CommittedAt (db db' : Db) (request : CommitRequest) (v : ℕ) : Prop where
  /-- The stream's committed version was `v`. -/
  version : committedStreamVersion db request.stream = v
  /-- The requested events are the ones after `v`, in order, and none of them was there before. -/
  numbered : ∀ i e, request.events[i]? = some e →
    e.identity = request.stream ∧ e.sequence = v + 1 + i
  appended : ∀ i e, request.events[i]? = some e →
    db.row request.stream (v + 1 + i) = none ∧
      db'.row request.stream (v + 1 + i) = some e.stored
  /-- Each job intent got its own `Enqueued` event and queue row, both new. -/
  jobs_nodup : (request.jobs.map EnqueueRequest.jobId).Nodup
  jobs : ∀ job ∈ request.jobs, ∃ runAt, instantFromMillis job.runAtMs = .ok runAt ∧
    db.row (jobStream job.jobId) 1 = none ∧ db.jobQueue.lookup job.jobId = none ∧
    db'.row (jobStream job.jobId) 1 = some (job.event runAt).stored ∧
    db'.jobQueue.lookup job.jobId = some (job.seedRow runAt)
  /-- No other row of any table changed. -/
  rows : ∀ s q, ¬ (s = request.stream ∧ v < q ∧ q ≤ v + request.events.length) →
    (q = 1 → ∀ job ∈ request.jobs, s ≠ jobStream job.jobId) → db'.row s q = db.row s q
  queue : ∀ id, (∀ job ∈ request.jobs, id ≠ job.jobId) →
    db'.jobQueue.lookup id = db.jobQueue.lookup id
  snapshots : ∀ s, db'.snapshots.lookup s =
    if s = request.stream then snapshotAfter request v (db.snapshots.lookup s)
    else db.snapshots.lookup s

theorem writeSnapshot_eq_ok {db db' : Db} {s : StreamIdentity} {events : List SerializedEvent}
    {snapshot : Option SnapshotUpdate} (h : writeSnapshot db s events snapshot = .ok db') :
    db'.stream = db.stream ∧ db'.jobQueue = db.jobQueue ∧
      (snapshot = none ∧ db'.snapshots = db.snapshots ∨
        ∃ u last, snapshot = some u ∧ events.getLast? = some last ∧
          db'.snapshots = db.snapshots.insert s ⟨last.sequence, u.snapshotVersion, u.aggregate⟩) := by
  cases snapshot with
  | none =>
      obtain rfl := Except.ok.inj h
      exact ⟨rfl, rfl, .inl ⟨rfl, rfl⟩⟩
  | some u =>
      simp only [writeSnapshot] at h
      split at h
      · cases h
      next last hlast =>
        split_ifs at h
        obtain rfl := Except.ok.inj h
        exact ⟨rfl, rfl, .inr ⟨u, last, rfl, hlast, rfl⟩⟩

theorem committedAt_of_commitSerialized {fault : Option EngineError} {request : CommitRequest}
    {db : Db} {v : ℕ} (hv : request.expectedVersion = some v)
    (h : (commitSerialized fault request db).1 = .ok ()) :
    CommittedAt db (commitSerialized fault request db).2 request v := by
  obtain ⟨hid, hguard, db₁, db₂, hins, hsnap, hjobs⟩ := commitSerialized_ok h
  obtain ⟨hfollow, hversion⟩ := hguard v hv
  have hnum := eventsFollowVersion_eq_true hfollow
  have hseeded := foldlM_seedJob_eq_ok hjobs
  obtain ⟨hstream, hqueue, hsnapshots⟩ := writeSnapshot_eq_ok hsnap
  have hrow₂ : ∀ s q, db₂.row s q = db₁.row s q := fun s q => by rw [Db.row, hstream]; rfl
  rw [eq_consecutive hid hnum] at hins
  have happ := insertSerializedEventsBatch_consecutive hins
  have hlen : (request.events.map SerializedEvent.stored).length = request.events.length :=
    List.length_map _
  have hafter : ∀ i e, request.events[i]? = some e →
      db₂.row request.stream (v + 1 + i) = some e.stored := fun i e he => by
    rw [hrow₂]
    exact happ.appended i e.stored (by rw [List.getElem?_map, he]; rfl)
  refine ⟨hversion, fun i e he => ⟨hid e (List.mem_of_getElem? he), ?_⟩, fun i e he => ⟨?_, ?_⟩,
    hseeded.nodup, fun job hjob => ?_, fun s q hs hq => ?_, fun id hne => ?_, fun s => ?_⟩
  · rw [hnum i e he]; omega
  · exact happ.free i (by rw [hlen]; exact (List.getElem?_eq_some_iff.1 he).1)
  · rw [hseeded.rows, hafter i e he]
    -- A job intent never lands on a requested event: its number would be taken.
    intro hq job hjob heq
    obtain ⟨_, -, hfree, -⟩ := hseeded.seeded job hjob
    have := hafter i e he
    rw [hq, heq, hfree] at this
    cases this
  · obtain ⟨runAt, hinst, hfree, hnone, hev, hrow⟩ := hseeded.seeded job hjob
    rw [hqueue, happ.jobQueue] at hnone
    refine ⟨runAt, hinst, ?_, hnone, hev, hrow⟩
    rw [hrow₂] at hfree
    by_cases hin : jobStream job.jobId = request.stream ∧ v < 1 ∧
        1 ≤ v + (request.events.map SerializedEvent.stored).length
    · rw [hin.1, show 1 = v + 1 + 0 by omega]
      exact happ.free 0 (by omega)
    · rwa [happ.rows _ _ hin] at hfree
  · rw [hseeded.rows s q hq, hrow₂, happ.rows s q (by rwa [hlen])]
  · rw [hseeded.queue id hne, hqueue, happ.jobQueue]
  · rw [hseeded.snapshots]
    rcases hsnapshots with ⟨hnone, heq⟩ | ⟨u, last, hsome, hlast, heq⟩
    · rw [heq, happ.snapshots, snapshotAfter, hnone]
      simp
    · have hpos : last.sequence = v + request.events.length := by
        rw [List.getLast?_eq_getElem?] at hlast
        have := (List.getElem?_eq_some_iff.1 hlast).1
        rw [hnum _ _ hlast]; omega
      rw [heq, happ.snapshots, snapshotAfter, hsome, ← hpos]
      by_cases hs : s = request.stream
      · subst hs; simp
      · simp [hs]

/-- The number of a requested event was free. -/
theorem CommittedAt.free {db db' : Db} {request : CommitRequest} {v q : ℕ}
    (h : CommittedAt db db' request v) (hlt : v < q) (hle : q ≤ v + request.events.length) :
    db.row request.stream q = none := by
  have hi : q - (v + 1) < request.events.length := by omega
  have hfree := (h.appended _ _ (List.getElem?_eq_getElem hi)).1
  rwa [show v + 1 + (q - (v + 1)) = q by omega] at hfree

end EventSorcery
