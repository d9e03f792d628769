import EventSorcery.Lib.Machine
import EventSorcery.Store

/-!
# Snapshot calls and the version of a stream

The engine's standalone snapshot calls: storing a snapshot at a committed version, and discarding
one. A stream's version is the greater of two records that different calls shrink: its events, which
compaction deletes, and its snapshot, which a discard deletes. The second half says when the version
survives that: for one stream under commits, snapshot calls and compaction in any order.
-/

namespace EventSorcery

/-- A snapshot to store, covering the events through `lastSequence`. -/
structure SnapshotWrite where
  aggregate : Json
  lastSequence : ℕ

/-- The version a new snapshot row gets. -/
def nextSnapshotVersion : Option SnapshotRow → Option ℕ
  | none => some 1
  | some row => checkedAddUsize row.snapshotVersion 1

/-- The statements of a snapshot's transaction: it must not run ahead of the stream nor fall behind
the stored one. -/
def storeSnapshotInTransaction (s : StreamIdentity) (snapshot : SnapshotWrite) (db : Db) :
    Except EngineError (ℕ × Db) :=
  if committedStreamVersion db s = 0 then .error .emptySnapshotUpdate
  else if committedStreamVersion db s < snapshot.lastSequence then
    .error (.snapshotBeyondCurrentVersion snapshot.lastSequence (committedStreamVersion db s))
  else if (db.snapshots.lookup s).any fun row => snapshot.lastSequence < row.lastSequence then
    .error .optimisticLock
  else
    match nextSnapshotVersion (db.snapshots.lookup s) with
    | none => .error .snapshotVersionExhausted
    | some version =>
        if snapshot.lastSequence ≤ i64Max ∧ version ≤ i64Max then
          .ok (version, db.setSnapshot s ⟨snapshot.lastSequence, version, snapshot.aggregate⟩)
        else .error .integer

/-- Store a snapshot of a stream; the answer is the version of the row. -/
def storeSnapshot (fault : Option EngineError) (s : StreamIdentity) (snapshot : SnapshotWrite)
    (db : Db) : Except EngineError ℕ × Db :=
  inTransaction fault (fun db =>
    (storeSnapshotInTransaction s snapshot db).map fun r => (.commit r.1, r.2)) db

/-- Delete a stream's snapshot. -/
def discardSnapshot (fault : Option EngineError) (s : StreamIdentity) (db : Db) :
    Except EngineError Unit × Db :=
  inTransaction fault
    (fun db => .ok (.commit (), { db with snapshots := db.snapshots.erase s })) db

/-- The last event a stream's snapshot covers. -/
def Db.covered (db : Db) (s : StreamIdentity) : ℕ :=
  ((db.snapshots.lookup s).map SnapshotRow.lastSequence).getD 0

/-- Delete every event of an aggregate type that a snapshot covers. -/
def deleteCovered (aggregateType : String) (db : Db) : Db :=
  { db with events := db.events.mapRows fun s log =>
      if s.aggregateType = aggregateType then log.deleteUpTo (db.covered s) else log }

section Effects

variable {db : Db} {s : StreamIdentity}

theorem committedStreamVersion_eq (db : Db) (s : StreamIdentity) :
    committedStreamVersion db s = max (db.stream s).maxSeq (db.covered s) := rfl

theorem row_eq_none_of_version_lt {q : ℕ} (h : committedStreamVersion db s < q) :
    db.row s q = none := by
  by_contra hne
  obtain ⟨x, hx⟩ := Option.ne_none_iff_exists'.1 hne
  have hle : q ≤ (db.stream s).maxSeq := SeqLog.le_maxSeq hx
  exact absurd (hle.trans (le_max_left _ _)) h.not_ge

/-- A commit across the boundary leaves every snapshot alone. -/
theorem lookup_snapshots_commitOpaque {fault : Option EngineError} {request : OpaqueCommitRequest}
    (hok : (commitOpaque fault request db).1 = .ok ()) (s : StreamIdentity) :
    (commitOpaque fault request db).2.snapshots.lookup s = db.snapshots.lookup s := by
  rw [(committedAt_of_commitOpaque hok).snapshots s]
  split_ifs <;> rfl

theorem compactEvents_eq {Entity Event Command Error : Type}
    (E : EventSourced Entity Event Command Error) (db : Db) :
    compactEvents E db =
      match E.compactionPolicy with
      | .retain => db
      | .compactAfterSnapshot => deleteCovered E.aggregateType db := rfl

theorem stream_deleteCovered (aggregateType : String) (db : Db) (s : StreamIdentity) :
    (deleteCovered aggregateType db).stream s =
      if s.aggregateType = aggregateType then (db.stream s).deleteUpTo (db.covered s)
      else db.stream s := by
  simp only [Db.stream, deleteCovered, Table.lookup_mapRows]
  cases db.events.lookup s with
  | none => split_ifs <;> rfl
  | some log => split_ifs <;> simp_all

/-- A snapshot call writes nothing, or the one row it was asked for, which covers no less than the
stored one and nothing that was not committed. -/
theorem storeSnapshot_cases (fault : Option EngineError) (s : StreamIdentity)
    (snapshot : SnapshotWrite) (db : Db) :
    (storeSnapshot fault s snapshot db).2 = db ∨
      ∃ version, (storeSnapshot fault s snapshot db).2 =
          db.setSnapshot s ⟨snapshot.lastSequence, version, snapshot.aggregate⟩ ∧
        db.covered s ≤ snapshot.lastSequence ∧
        snapshot.lastSequence ≤ committedStreamVersion db s := by
  cases fault with
  | some error => exact .inl rfl
  | none =>
      cases hbody : storeSnapshotInTransaction s snapshot db with
      | error error => exact .inl (by simp only [storeSnapshot, inTransaction, hbody, Except.map])
      | ok written =>
          refine .inr ?_
          simp only [storeSnapshot, inTransaction, hbody, Except.map]
          unfold storeSnapshotInTransaction at hbody
          split_ifs at hbody with hzero hahead hbehind
          split at hbody
          · cases hbody
          next version _ =>
            split_ifs at hbody
            obtain rfl := Except.ok.inj hbody
            refine ⟨version, rfl, ?_, not_lt.1 hahead⟩
            rw [Db.covered]
            cases hrow : db.snapshots.lookup s with
            | none => exact Nat.zero_le _
            | some row => simpa [hrow] using hbehind

theorem covered_setSnapshot (db : Db) (s : StreamIdentity) (row : SnapshotRow) :
    (db.setSnapshot s row).covered s = row.lastSequence := by
  simp [Db.covered, Db.setSnapshot]

theorem covered_discardSnapshot (db : Db) (s : StreamIdentity) :
    (discardSnapshot none s db).2.covered s = 0 := by
  simp [Db.covered, discardSnapshot, inTransaction]

/-- A discard lowers the version of a stream exactly when no event left reaches its snapshot. -/
theorem committedStreamVersion_discardSnapshot_lt_iff (db : Db) (s : StreamIdentity) :
    committedStreamVersion (discardSnapshot none s db).2 s < committedStreamVersion db s ↔
      (db.stream s).maxSeq < db.covered s := by
  rw [committedStreamVersion_eq, committedStreamVersion_eq, covered_discardSnapshot]
  change max (db.stream s).maxSeq 0 < _ ↔ _
  simp

end Effects

/-! ## One stream under commits, snapshot calls and compaction -/

namespace StreamVersion

/-- The calls on the stream. -/
inductive Op where
  | commitOpaque (fault : Option EngineError) (expectedVersion : ℕ)
      (events : List OpaqueProposedEvent) (jobs : List EnqueueRequest)
  | storeSnapshot (fault : Option EngineError) (snapshot : SnapshotWrite)
  | discardSnapshot (fault : Option EngineError)
  | compact

/-- The database, and every event ever committed to the stream with the number it got. -/
structure State where
  db : Db
  committed : List (ℕ × StoredEvent)

/-- What a call does to the database. -/
def act (s : StreamIdentity) (db : Db) : Op → Db
  | .commitOpaque fault expectedVersion events jobs =>
      (EventSorcery.commitOpaque fault ⟨s, expectedVersion, events, jobs⟩ db).2
  | .storeSnapshot fault snapshot => (EventSorcery.storeSnapshot fault s snapshot db).2
  | .discardSnapshot fault => (EventSorcery.discardSnapshot fault s db).2
  | .compact => deleteCovered s.aggregateType db

/-- The rows of the stream that a call inserted. -/
def inserted (s : StreamIdentity) (db db' : Db) : List (ℕ × StoredEvent) :=
  (db'.stream s).rows.filter fun r => (db.row s r.1).isNone

def step (s : StreamIdentity) (σ : State) (op : Op) : State :=
  ⟨act s σ.db op, σ.committed ++ inserted s σ.db (act s σ.db op)⟩

/-- The stream from the freshly migrated database on. -/
def machine (s : StreamIdentity) : Machine State Op := ⟨⟨.empty, []⟩, step s⟩

/-- A discard only where the events left still reach the snapshot, and no job enqueued under the
stream's own name once it has events. -/
def Safe (s : StreamIdentity) (σ : State) : Op → Prop
  | .discardSnapshot _ => σ.db.covered s ≤ (σ.db.stream s).maxSeq
  | .commitOpaque _ _ _ jobs =>
      ∀ job ∈ jobs, jobStream job.jobId = s → committedStreamVersion σ.db s = 0
  | _ => True

instance (s : StreamIdentity) (σ : State) : ∀ op, Decidable (Safe s σ op)
  | .discardSnapshot _ => inferInstanceAs (Decidable (_ ≤ _))
  | .commitOpaque _ _ _ jobs => inferInstanceAs (Decidable (∀ job ∈ jobs, _ → _))
  | .storeSnapshot _ _ => inferInstanceAs (Decidable True)
  | .compact => inferInstanceAs (Decidable True)

/-- What a call that is safe does to the stream: its version does not fall, and every new row is
numbered above it. -/
structure Advances (s : StreamIdentity) (db db' : Db) : Prop where
  version_le : committedStreamVersion db s ≤ committedStreamVersion db' s
  above : ∀ q x, db'.row s q = some x → db.row s q = none → committedStreamVersion db s < q

variable {s : StreamIdentity} {db : Db} {σ : State}

theorem Advances.refl (s : StreamIdentity) (db : Db) : Advances s db db :=
  ⟨le_rfl, fun q x hx hnone => by rw [hx] at hnone; cases hnone⟩

/-- Writes that insert no row of the stream. -/
theorem Advances.of_rows {db' : Db} (hrow : ∀ q x, db'.row s q = some x → db.row s q = some x)
    (hle : committedStreamVersion db s ≤ committedStreamVersion db' s) : Advances s db db' :=
  ⟨hle, fun q x hx hnone => by rw [hrow q x hx] at hnone; cases hnone⟩

/-- A commit deletes no row and keeps the snapshot. -/
theorem version_le_commitOpaque (fault : Option EngineError) (v : ℕ)
    (events : List OpaqueProposedEvent) (jobs : List EnqueueRequest) :
    committedStreamVersion db s ≤
      committedStreamVersion (EventSorcery.commitOpaque fault ⟨s, v, events, jobs⟩ db).2 s := by
  cases hresult : (EventSorcery.commitOpaque fault ⟨s, v, events, jobs⟩ db).1 with
  | error error => rw [commitOpaque_error hresult]
  | ok u =>
      have hat := committedAt_of_commitOpaque hresult
      have hsnapshot := lookup_snapshots_commitOpaque hresult s
      generalize (EventSorcery.commitOpaque fault ⟨s, v, events, jobs⟩ db).2 = db' at hat hsnapshot ⊢
      have hcovered : db'.covered s = db.covered s := by
        rw [Db.covered, hsnapshot, Db.covered]
      -- Every row is still there: the commit only took numbers that were free.
      rw [committedStreamVersion_eq, committedStreamVersion_eq, hcovered]
      refine max_le_max (SeqLog.maxSeq_le fun q x hx => ?_) le_rfl
      have hkept : db'.row s q = db.row s q := by
        refine hat.rows s q ?_ ?_
        · rintro ⟨-, hlt, hle⟩
          have hfree := hat.free hlt hle
          change (db.stream s).get? q = none at hfree
          rw [hx] at hfree
          cases hfree
        · rintro rfl job hjob rfl
          obtain ⟨_, -, hfree, -⟩ := hat.jobs job hjob
          change (db.stream _).get? 1 = none at hfree
          rw [hx] at hfree
          cases hfree
      exact SeqLog.le_maxSeq (hkept.trans hx)

theorem advances_commitOpaque {fault : Option EngineError} {v : ℕ}
    {events : List OpaqueProposedEvent} {jobs : List EnqueueRequest}
    (hsafe : ∀ job ∈ jobs, jobStream job.jobId = s → committedStreamVersion db s = 0) :
    Advances s db (EventSorcery.commitOpaque fault ⟨s, v, events, jobs⟩ db).2 := by
  refine ⟨version_le_commitOpaque fault v events jobs, fun q x hx hnone => ?_⟩
  cases hresult : (EventSorcery.commitOpaque fault ⟨s, v, events, jobs⟩ db).1 with
  | error error =>
      rw [commitOpaque_error hresult, hnone] at hx
      cases hx
  | ok u =>
      have hat := committedAt_of_commitOpaque hresult
      have hversion : committedStreamVersion db s = v := hat.version
      by_contra hle
      have hkept := hat.rows s q (fun hin => hle (hversion ▸ hin.2.1)) fun hq job hjob heq => by
        have := hsafe job hjob heq.symm
        omega
      rw [hkept, hnone] at hx
      cases hx

theorem advances_storeSnapshot (fault : Option EngineError) (snapshot : SnapshotWrite) :
    Advances s db (EventSorcery.storeSnapshot fault s snapshot db).2 := by
  rcases storeSnapshot_cases fault s snapshot db with heq | ⟨version, heq, hle, -⟩
  · rw [heq]; exact .refl s db
  · rw [heq]
    refine .of_rows (fun q x hx => hx) ?_
    rw [committedStreamVersion_eq, committedStreamVersion_eq, covered_setSnapshot]
    exact max_le_max le_rfl hle

theorem advances_discardSnapshot {fault : Option EngineError}
    (hsafe : db.covered s ≤ (db.stream s).maxSeq) :
    Advances s db (EventSorcery.discardSnapshot fault s db).2 := by
  cases fault with
  | some error => exact .refl s db
  | none =>
      refine .of_rows (fun q x hx => hx) (not_lt.1 fun hlt => ?_)
      exact absurd ((committedStreamVersion_discardSnapshot_lt_iff db s).1 hlt) (not_lt.2 hsafe)

/-- Compaction deletes nothing above the snapshot, so the greater record keeps its value. -/
theorem advances_deleteCovered : Advances s db (deleteCovered s.aggregateType db) := by
  have hstream : (deleteCovered s.aggregateType db).stream s =
      (db.stream s).deleteUpTo (db.covered s) := by
    rw [stream_deleteCovered, if_pos rfl]
  refine .of_rows (fun q x hx => ?_) ?_
  · rw [Db.row, hstream, SeqLog.get?_deleteUpTo] at hx
    split_ifs at hx
    exact hx
  · rw [committedStreamVersion_eq, committedStreamVersion_eq, hstream]
    change _ ≤ max _ (db.covered s)
    refine max_le (SeqLog.maxSeq_le fun q x hx => ?_) (le_max_right _ _)
    by_cases hq : q ≤ db.covered s
    · exact hq.trans (le_max_right _ _)
    · exact le_max_of_le_left (SeqLog.le_maxSeq (a := x)
        (by rw [SeqLog.get?_deleteUpTo, if_neg hq, hx]))

theorem advances_act {op : Op} (hsafe : Safe s σ op) : Advances s σ.db (act s σ.db op) := by
  cases op with
  | commitOpaque fault v events jobs => exact advances_commitOpaque hsafe
  | storeSnapshot fault snapshot => exact advances_storeSnapshot fault snapshot
  | discardSnapshot fault => exact advances_discardSnapshot hsafe
  | compact => exact advances_deleteCovered

/-- No number was given out twice, and none lies above the stream's version. -/
structure Inv (s : StreamIdentity) (σ : State) : Prop where
  nodup : (σ.committed.map Prod.fst).Nodup
  le : ∀ r ∈ σ.committed, r.1 ≤ committedStreamVersion σ.db s

theorem inv_init : Inv s (machine s).init :=
  ⟨List.nodup_nil, fun _ hr => by cases hr⟩

theorem inv_step (hinv : Inv s σ) {op : Op} (hsafe : Safe s σ op) : Inv s (step s σ op) := by
  have hadv := advances_act hsafe
  rw [step]
  generalize act s σ.db op = db' at hadv ⊢
  have hnew : ∀ r ∈ inserted s σ.db db',
      committedStreamVersion σ.db s < r.1 ∧ r.1 ≤ committedStreamVersion db' s := by
    intro r hr
    obtain ⟨hmem, hnone⟩ := List.mem_filter.1 hr
    have hget : (db'.stream s).get? r.1 = some r.2 := SeqLog.get?_eq_some.2 hmem
    exact ⟨hadv.above r.1 r.2 hget (Option.isNone_iff_eq_none.1 hnone),
      (SeqLog.le_maxSeq hget).trans (le_max_left _ _)⟩
  refine ⟨?_, fun r hr => ?_⟩
  · rw [List.map_append, List.nodup_append]
    refine ⟨hinv.nodup, ?_, ?_⟩
    · have hsorted : (inserted s σ.db db').Pairwise fun a b => a.1 < b.1 :=
        (db'.stream s).sorted.filter _
      exact List.pairwise_map.2 (hsorted.imp fun h => h.ne)
    · rintro q hq q' hq' rfl
      obtain ⟨r, hr, rfl⟩ := List.mem_map.1 hq
      obtain ⟨r', hr', heq⟩ := List.mem_map.1 hq'
      have := hinv.le r hr
      have := hnew r' hr'
      omega
  · rcases List.mem_append.1 hr with hr | hr
    · exact (hinv.le r hr).trans hadv.version_le
    · exact (hnew r hr).2

theorem version_le_exec {ops : List Op} (h : (machine s).Meets (Safe s) σ ops) :
    committedStreamVersion σ.db s ≤ committedStreamVersion ((machine s).exec σ ops).db s := by
  induction ops generalizing σ with
  | nil => exact le_rfl
  | cons op ops ih => exact (advances_act h.1).version_le.trans (ih h.2)

/-- As long as discards and job ids are safe, the version of a stream never falls, no number is given
to two committed events, and a commit whose expected version was once overtaken stays refused. -/
theorem versions_only_grow (s : StreamIdentity) (ops ops' : List Op)
    (h : (machine s).Meets (Safe s) (machine s).init (ops ++ ops')) :
    committedStreamVersion ((machine s).run ops).db s ≤
        committedStreamVersion ((machine s).run (ops ++ ops')).db s ∧
      (((machine s).run (ops ++ ops')).committed.map Prod.fst).Nodup ∧
      ∀ fault v events jobs, v < committedStreamVersion ((machine s).run ops).db s →
        (EventSorcery.commitOpaque fault ⟨s, v, events, jobs⟩
          ((machine s).run (ops ++ ops')).db).1 ≠ .ok () := by
  have hle : committedStreamVersion ((machine s).run ops).db s ≤
      committedStreamVersion ((machine s).run (ops ++ ops')).db s := by
    rw [Machine.run_append]
    exact version_le_exec h.after
  have hinv : Inv s ((machine s).run (ops ++ ops')) :=
    Machine.run_invariant_of_meets (P := Inv s) inv_init
      (fun _ _ hinv hsafe => inv_step hinv hsafe) h
  refine ⟨hle, hinv.nodup, fun fault v events jobs hlt hok => ?_⟩
  have hversion : committedStreamVersion ((machine s).run (ops ++ ops')).db s = v :=
    (committedAt_of_commitOpaque hok).version
  omega

/-- A stream that is committed to, snapshotted and compacted. -/
def compacted : List Op :=
  [.commitOpaque none 0 [⟨"Opened", "1.0", [1]⟩] [], .storeSnapshot none ⟨.null, 1⟩, .compact]

theorem compacted_stream_keeps_version :
    committedStreamVersion ((machine ⟨"account", "a"⟩).run compacted).db ⟨"account", "a"⟩ = 1 ∧
      (EventSorcery.commitOpaque none ⟨⟨"account", "a"⟩, 0, [⟨"Opened", "1.0", [2]⟩], []⟩
        ((machine ⟨"account", "a"⟩).run (compacted ++ [.compact])).db).1 ≠ .ok () :=
  ⟨by decide +kernel, (versions_only_grow ⟨"account", "a"⟩ compacted [.compact]
    (by decide +kernel)).2.2 none 0 _ _ (by decide +kernel)⟩

/-- Discarding the snapshot of a compacted stream takes its version back to zero: the first number
is then given out again, to a commit that expects the empty stream. -/
theorem discarded_snapshot_resets_version :
    committedStreamVersion ((machine ⟨"account", "a"⟩).run compacted).db ⟨"account", "a"⟩ = 1 ∧
      committedStreamVersion ((machine ⟨"account", "a"⟩).run
        (compacted ++ [.discardSnapshot none])).db ⟨"account", "a"⟩ = 0 ∧
      (EventSorcery.commitOpaque none ⟨⟨"account", "a"⟩, 0, [⟨"Opened", "1.0", [2]⟩], []⟩
        ((machine ⟨"account", "a"⟩).run (compacted ++ [.discardSnapshot none])).db).1 = .ok () ∧
      (((machine ⟨"account", "a"⟩).run (compacted ++ [.discardSnapshot none,
        .commitOpaque none 0 [⟨"Opened", "1.0", [2]⟩] []])).committed.map Prod.fst) = [1, 1] := by
  decide +kernel

end StreamVersion

end EventSorcery
