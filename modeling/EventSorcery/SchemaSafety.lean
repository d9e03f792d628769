import EventSorcery.Schema

/-!
# Schema changes and compacted streams

The history of one aggregate type: commits with their snapshots, compaction runs, and startups that
reconcile and record a schema version, where each startup and each compaction brings the version and
the policy of its own code. The question is when reconciling leaves alone the snapshots that are the
only record of compacted events. Its guard sees the target's policy and whether a version is
recorded, not what was compacted: so a type must be registered before its first compaction, and must
not change its version together with going back to the retaining policy.
-/

namespace EventSorcery

namespace SchemaSystem

/-- The database, and the streams from which compaction has deleted an event. -/
structure State where
  db : Db
  erased : List StreamIdentity

/-- One step: the commit of a command, a compaction run under the policy of the running code, or one
half of a startup. -/
inductive Op where
  | commit (fault : Option EngineError) (request : CommitRequest)
  | compact (policy : CompactionPolicy)
  | reconcile (version : UInt64) (policy : CompactionPolicy)
  | record (version : UInt64) (policy : CompactionPolicy)

/-- A compaction run of a type's code. -/
def compactType (aggregateType : String) (policy : CompactionPolicy) (db : Db) : Db :=
  match policy with
  | .retain => db
  | .compactAfterSnapshot => deleteCovered aggregateType db

/-- The streams that differ, of those the table knows. -/
def changedStreams (db db' : Db) : List StreamIdentity :=
  db.events.keys.filter fun s => db'.stream s ≠ db.stream s

/-- One step of the type; a commit to another type's stream is none of its commands. -/
def step (aggregateType : String) (σ : State) : Op → State
  | .commit fault request =>
      if request.stream.aggregateType = aggregateType then
        { σ with db := (EventSorcery.commit fault request σ.db).2 }
      else σ
  | .compact policy =>
      let db := compactType aggregateType policy σ.db
      ⟨db, σ.erased ++ changedStreams σ.db db⟩
  | .reconcile version policy =>
      { σ with db := (reconcileTarget ⟨aggregateType, version, policy⟩ σ.db).2 }
  | .record version policy =>
      { σ with db := (recordTarget ⟨aggregateType, version, policy⟩ σ.db).2 }

/-- The type from the freshly migrated database on. -/
def machine (aggregateType : String) : Machine State Op := ⟨⟨.empty, []⟩, step aggregateType⟩

/-- The version the registry holds for a type. -/
def storedVersion (db : Db) (aggregateType : String) : Option UInt64 :=
  match loadRegistry db with
  | .ok registry => registry.bind fun r => r.versionOf aggregateType
  | .error _ => none

/-- Compaction only once the type is registered, and no other version under the retaining policy
while a compacted stream still has its snapshot. -/
def Safe (aggregateType : String) (σ : State) : Op → Prop
  | .compact policy => policy = .compactAfterSnapshot → (storedVersion σ.db aggregateType).isSome
  | .reconcile version policy => policy = .retain →
      storedVersion σ.db aggregateType = some version ∨
        ∀ s ∈ σ.erased, σ.db.snapshots.lookup s = none
  | _ => True

instance (row : Option SnapshotRow) : Decidable (row = none) :=
  decidable_of_iff (row.isNone) Option.isNone_iff_eq_none

instance (aggregateType : String) (σ : State) : ∀ op, Decidable (Safe aggregateType σ op)
  | .commit _ _ => inferInstanceAs (Decidable True)
  | .compact _ => inferInstanceAs (Decidable (_ → _))
  | .reconcile _ _ => inferInstanceAs (Decidable (_ → _ ∨ ∀ s ∈ σ.erased, _))
  | .record _ _ => inferInstanceAs (Decidable True)

/-- The registry is readable, only the type's own streams were compacted, and it is registered once
one of them was. -/
structure Inv (aggregateType : String) (σ : State) : Prop where
  registry : ∃ events, RegistryHolds σ.db events
  erased_type : ∀ s ∈ σ.erased, s.aggregateType = aggregateType
  registered : σ.erased ≠ [] → (storedVersion σ.db aggregateType).isSome

variable {aggregateType : String} {σ : State}

theorem storedVersion_eq {db : Db} {events : List SchemaRegistryEvent}
    (h : RegistryHolds db events) (name : String) :
    storedVersion db name = recordedVersion events name := by
  obtain ⟨registry, hload, hversions⟩ := h.loadRegistry
  rw [storedVersion, hload]
  exact hversions name

/-- What keeps the registry stream keeps the versions it holds. -/
theorem storedVersion_congr {db db' : Db} (h : db'.stream registryStream = db.stream registryStream)
    (name : String) : storedVersion db' name = storedVersion db name := by
  rw [storedVersion, storedVersion, loadRegistry, loadRegistry, h]

theorem Inv.of_stream (hinv : Inv aggregateType σ) (db : Db)
    (h : db.stream registryStream = σ.db.stream registryStream) :
    Inv aggregateType ⟨db, σ.erased⟩ := by
  obtain ⟨events, hevents⟩ := hinv.registry
  refine ⟨⟨events, h.trans hevents⟩, hinv.erased_type, fun hne => ?_⟩
  rw [storedVersion_congr h]
  exact hinv.registered hne

theorem inv_init : Inv aggregateType (machine aggregateType).init :=
  ⟨⟨[], rfl⟩, (fun _ hs => by cases hs), fun hne => absurd rfl hne⟩

theorem compactType_changed {policy : CompactionPolicy} {db : Db} {s : StreamIdentity}
    (h : s ∈ changedStreams db (compactType aggregateType policy db)) :
    s.aggregateType = aggregateType ∧ policy = .compactAfterSnapshot := by
  have hne : (compactType aggregateType policy db).stream s ≠ db.stream s := by
    simpa using (List.mem_filter.1 h).2
  cases policy with
  | retain => exact absurd rfl hne
  | compactAfterSnapshot =>
      refine ⟨by_contra fun htype => hne ?_, rfl⟩
      rw [compactType, stream_deleteCovered, if_neg htype]

theorem stream_compactType {policy : CompactionPolicy} {db : Db} {s : StreamIdentity}
    (h : s.aggregateType ≠ aggregateType) :
    (compactType aggregateType policy db).stream s = db.stream s := by
  cases policy with
  | retain => rfl
  | compactAfterSnapshot => rw [compactType, stream_deleteCovered, if_neg h]

/-- Reconciling reads the registry and writes snapshots only. -/
theorem stream_reconcileTarget (target : SchemaTarget) (db : Db) :
    (reconcileTarget target db).2.stream = db.stream := by
  unfold reconcileTarget
  split
  · rfl
  · dsimp only
    split_ifs <;> rfl

theorem inv_step (htype : aggregateType ≠ registryEntity.aggregateType)
    (hinv : Inv aggregateType σ) {op : Op} (hsafe : Safe aggregateType σ op) :
    Inv aggregateType (step aggregateType σ op) := by
  have hother : registryStream.aggregateType ≠ aggregateType := htype.symm
  cases op with
  | commit fault request =>
      rw [step]
      split_ifs with hreq
      · exact hinv.of_stream _ (commit_frame fault request σ.db
          (fun heq => hother (heq ▸ hreq)) (by decide))
      · exact hinv
  | compact policy =>
      have hkept := hinv.of_stream (compactType aggregateType policy σ.db)
        (stream_compactType hother)
      refine ⟨hkept.registry, fun s hs => ?_, fun hne => ?_⟩
      · rcases List.mem_append.1 hs with hs | hs
        · exact hinv.erased_type s hs
        · exact (compactType_changed hs).1
      · change (storedVersion (compactType aggregateType policy σ.db) aggregateType).isSome
        rw [storedVersion_congr (stream_compactType hother)]
        by_cases hold : σ.erased = []
        · obtain ⟨s, hs⟩ := List.exists_mem_of_ne_nil _ hne
          rw [step, hold, List.nil_append] at hs
          exact hsafe (compactType_changed hs).2
        · exact hinv.registered hold
  | reconcile version policy =>
      exact hinv.of_stream _ (congrFun (stream_reconcileTarget _ σ.db) registryStream)
  | record version policy =>
      obtain ⟨events, hevents⟩ := hinv.registry
      obtain ⟨events', hheld, hcases, -⟩ := hevents.record ⟨aggregateType, version, policy⟩
      refine ⟨⟨events', hheld⟩, hinv.erased_type, fun hne => ?_⟩
      have hold := hinv.registered hne
      rw [storedVersion_eq hevents] at hold
      change (storedVersion (recordTarget ⟨aggregateType, version, policy⟩ σ.db).2
        aggregateType).isSome
      rw [storedVersion_eq hheld]
      rcases hcases with rfl | rfl
      · exact hold
      · rw [recordedVersion_recordVersion, if_pos rfl]
        rfl

theorem lookup_clearSnapshots (db : Db) {s : StreamIdentity}
    (h : s.aggregateType = aggregateType) :
    (clearSnapshots aggregateType db).snapshots.lookup s = none := by
  rw [clearSnapshots, Table.lookup_filterRows]
  cases db.snapshots.lookup s <;> simp [h]

/-- Reconciling keeps the snapshots of all compacted streams exactly when it is safe. -/
theorem reconcile_keeps_iff (hinv : Inv aggregateType σ) (version : UInt64)
    (policy : CompactionPolicy) :
    (∀ s ∈ σ.erased, (reconcileTarget ⟨aggregateType, version, policy⟩ σ.db).2.snapshots.lookup s =
        σ.db.snapshots.lookup s) ↔
      Safe aggregateType σ (.reconcile version policy) := by
  obtain ⟨events, hevents⟩ := hinv.registry
  have hstored := storedVersion_eq hevents aggregateType
  have hclear : ∀ s ∈ σ.erased,
      (clearSnapshots aggregateType σ.db).snapshots.lookup s = none := fun s hs =>
    lookup_clearSnapshots σ.db (hinv.erased_type s hs)
  rw [hevents.reconcileTarget, Safe, hstored]
  dsimp only
  split_ifs with hsame hguard
  · exact ⟨fun _ _ => .inl hsame, fun _ _ _ => rfl⟩
  · refine ⟨fun _ hretain => ?_, fun _ _ _ => rfl⟩
    rw [hguard.2] at hretain
    cases hretain
  · constructor
    · exact fun hkeep _ => .inr fun s hs => (hkeep s hs).symm.trans (hclear s hs)
    · intro hsafe s hs
      rw [hclear s hs]
      -- A registered type under the compacting policy never gets here.
      have hretain : policy = .retain := by
        cases policy with
        | retain => rfl
        | compactAfterSnapshot =>
            have hreg := hinv.registered (List.ne_nil_of_mem hs)
            rw [hstored] at hreg
            exact absurd ⟨hreg, rfl⟩ hguard
      exact (((hsafe hretain).resolve_left hsame) s hs).symm

/-- After every safe history, reconciling with any version and policy leaves the snapshot of every
compacted stream as it was, exactly when it does not bring another version under the retaining policy
while such a snapshot exists. -/
theorem reconcile_keeps_compacted_snapshots (aggregateType : String)
    (htype : aggregateType ≠ registryEntity.aggregateType) (ops : List Op)
    (h : (machine aggregateType).Meets (Safe aggregateType) (machine aggregateType).init ops)
    (version : UInt64) (policy : CompactionPolicy) :
    (∀ s ∈ ((machine aggregateType).run ops).erased,
      ((machine aggregateType).run (ops ++ [.reconcile version policy])).db.snapshots.lookup s =
        ((machine aggregateType).run ops).db.snapshots.lookup s) ↔
      Safe aggregateType ((machine aggregateType).run ops) (.reconcile version policy) := by
  have hinv : Inv aggregateType ((machine aggregateType).run ops) :=
    Machine.run_invariant_of_meets (P := Inv aggregateType) inv_init
      (fun _ _ hinv hsafe => inv_step htype hinv hsafe) h
  rw [Machine.run_concat]
  exact reconcile_keeps_iff hinv version policy

/-- A command's commit of one event with a snapshot of the state after it. -/
def snapshotCommit : Op :=
  .commit none ⟨⟨"inventory", "a"⟩, none,
    [⟨"a", 1, "inventory", "Counted", "1.0", .int 7, .obj []⟩], some ⟨.int 7, 1⟩, []⟩

/-- A type that is registered, written and compacted. -/
def registeredHistory : List Op :=
  [.record 1 .compactAfterSnapshot, snapshotCommit, .compact .compactAfterSnapshot]

/-- A type that is written and compacted before it is ever registered. -/
def unregisteredHistory : List Op := [snapshotCommit, .compact .compactAfterSnapshot]

theorem registered_type_keeps_snapshot :
    ((machine "inventory").run registeredHistory).erased = [⟨"inventory", "a"⟩] ∧
      ∀ s ∈ ((machine "inventory").run registeredHistory).erased,
        ((machine "inventory").run
            (registeredHistory ++ [.reconcile 2 .compactAfterSnapshot])).db.snapshots.lookup s =
          ((machine "inventory").run registeredHistory).db.snapshots.lookup s :=
  ⟨by decide +kernel, (reconcile_keeps_compacted_snapshots "inventory" (by decide) _
    (by decide +kernel) 2 .compactAfterSnapshot).2 (by decide +kernel)⟩

/-- Reconciling clears the one record of a compacted stream in two ways: when the policy went back
to retaining with the version change, and when the type had never been registered. -/
theorem reconcile_clears_compacted_snapshots :
    (∃ s ∈ ((machine "inventory").run registeredHistory).erased,
      (((machine "inventory").run registeredHistory).db.snapshots.lookup s).isSome ∧
      (((machine "inventory").run
        (registeredHistory ++ [.reconcile 2 .retain])).db.snapshots.lookup s).isNone) ∧
    ∃ s ∈ ((machine "inventory").run unregisteredHistory).erased,
      (((machine "inventory").run unregisteredHistory).db.snapshots.lookup s).isSome ∧
      (((machine "inventory").run (unregisteredHistory ++
        [.reconcile 1 .compactAfterSnapshot])).db.snapshots.lookup s).isNone := by
  decide +kernel

end SchemaSystem

end EventSorcery
