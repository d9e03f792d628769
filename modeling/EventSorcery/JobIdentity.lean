import EventSorcery.AbiSafety
import EventSorcery.DispatchedJob
import EventSorcery.JobPoll
import EventSorcery.Lib.Crockford

/-!
# The identity of a job on both sides of the ABI

The bindings keep a job's id as the text they were given; the engine reads it as a number and keys
its tables with that number's text. A poll hands the engine's text back. After any run of calls, a
polled id is the text that the job was enqueued with exactly when that text is written with
Crockford's symbols alone: `polled_id_eq_enqueued_iff`.
-/

namespace EventSorcery

namespace JobIdentity

/-! ## The two libraries -/

/-- What the engine relies on its ULID library for: what is read is Crockford text of 26 characters,
of which the number keeps 128 bits, and a number is written with Crockford's symbols. -/
structure EngineUlid where
  parse : String → Option ℕ
  display : ℕ → String
  parse_eq_some : ∀ text u, parse text = some u →
    text.length = 26 ∧ ∃ n, Crockford.value text.toList = some n ∧ u = n % 2 ^ 128
  display_eq : ∀ u, display u = String.ofList (Crockford.print 26 u)

/-- What the bindings rely on theirs for: a decoded text is read as Crockford text, and the numbers
that are taken for an id have 128 bits. -/
structure BindingUlid where
  decode : String → List (ℕ × String)
  ulidFromInteger : ℕ → Option ℕ
  decode_eq : ∀ text n, decode text = [(n, "")] → Crockford.value text.toList = some n
  lt_of_ulidFromInteger : ∀ n u, ulidFromInteger n = some u → n < 2 ^ 128

/-- A job id is the text itself, if it is one of a ULID. -/
def BindingUlid.mkJobId (binding : BindingUlid) (text : String) : Option JobId :=
  match binding.decode text with
  | [(decoded, remaining)] =>
      if remaining = "" then (binding.ulidFromInteger decoded).map fun _ => text else none
  | _ => none

/-- The engine's tables are keyed with the text of the number. -/
def EngineUlid.parseJobId (engine : EngineUlid) (text : String) : Option JobId :=
  (engine.parse text).map engine.display

theorem mkJobId_eq_some {binding : BindingUlid} {text : String} {id : JobId}
    (h : binding.mkJobId text = some id) :
    id = text ∧ ∃ n, Crockford.value text.toList = some n ∧ n < 2 ^ 128 := by
  unfold BindingUlid.mkJobId at h
  split at h
  next decoded remaining hdecode =>
    split_ifs at h with hrest
    obtain ⟨u, hu, rfl⟩ := Option.map_eq_some_iff.1 h
    subst hrest
    exact ⟨rfl, decoded, binding.decode_eq text decoded hdecode,
      binding.lt_of_ulidFromInteger decoded u hu⟩
  · cases h

/-- The engine writes an id that the bindings accept as its text with symbols for characters. -/
theorem display_eq_text_iff {engine : EngineUlid} {binding : BindingUlid} {text : String}
    {id : JobId} {u : ℕ} (hid : binding.mkJobId text = some id) (hu : engine.parse text = some u) :
    engine.display u = text ↔ ∀ c ∈ text.toList, c ∈ Crockford.symbols := by
  obtain ⟨-, n, hn, hlt⟩ := mkJobId_eq_some hid
  obtain ⟨hlength, m, hm, hum⟩ := engine.parse_eq_some text u hu
  obtain rfl := Option.some.inj (hn.symm.trans hm)
  rw [Nat.mod_eq_of_lt hlt] at hum
  subst hum
  have hchars : text.toList.length = 26 := hlength
  rw [engine.display_eq, ← Crockford.print_eq_iff hn, hchars]
  constructor
  · intro h
    rw [← h, String.toList_ofList]
  · intro h
    rw [h, String.ofList_toList]

/-- What is written for a number reads as that number. -/
theorem parse_display {engine : EngineUlid} {u v : ℕ} (hu : u < 2 ^ 128)
    (h : engine.parse (engine.display u) = some v) : v = u := by
  obtain ⟨-, n, hn, rfl⟩ := engine.parse_eq_some _ _ h
  rw [engine.display_eq, String.toList_ofList, Crockford.value_print] at hn
  obtain rfl := Option.some.inj hn
  have hwidth : u < 32 ^ 26 := hu.trans (by norm_num)
  rw [Nat.mod_eq_of_lt hwidth, Nat.mod_eq_of_lt hu]

/-! ## The keys of the queue -/

/-- Every job in the queue has an id of this kind. -/
def Keyed (P : JobId → Prop) (db : Db) : Prop := ∀ id, Absent db id ∨ P id

section Keys

variable {P : JobId → Prop} {db db' : Db} {id : JobId}

/-- Jobs that are not there do not appear. -/
def Unborn (db db' : Db) : Prop := ∀ id, Absent db id → Absent db' id

theorem Unborn.refl (db : Db) : Unborn db db := fun _ h => h

theorem Unborn.trans {db'' : Db} (h : Unborn db db') (h' : Unborn db' db'') : Unborn db db'' :=
  fun id habs => h' id (h id habs)

theorem Unborn.of_same (h : ∀ id, SameJob db db' id) : Unborn db db' :=
  fun id habs => habs.of_same (h id)

theorem Unborn.keyed (h : Unborn db db') (hkeyed : Keyed P db) : Keyed P db' :=
  fun id => (hkeyed id).imp_left (h id)

/-- Only the job of a call changes, and only if it is there. -/
theorem Unborn.of_represents {r : JobRecord} (hr : Represents db id r)
    (h : ∀ id' ≠ id, SameJob db db' id') : Unborn db db' := by
  intro id' habs
  have hne : id' ≠ id := by
    rintro rfl
    exact habs.not_represents hr
  exact habs.of_same (h id' hne)

theorem Absent.of_row (hheld : JobsHeld db) (hrow : db.jobQueue.lookup id = none) :
    Absent db id := by
  rcases hheld id with habs | ⟨r, hr⟩
  · exact habs
  · rw [hr.row] at hrow
    cases hrow

variable (h : EngineIntact db)

include h

theorem unborn_settleJob (K : CqrsEs) (env : SettleEnv) (id : JobId) (command : JobCommand) :
    Unborn db (settleJob K env id command db).2 := by
  rcases settleJob_cases h.held h.sound K env id command with
    hsame | ⟨sent, r, r', hsettled, hsent | hreacted⟩
  · rw [hsame]
    exact .refl db
  · rw [hsent]
    exact .of_represents hsettled.rep hsettled.other
  · rw [hreacted]
    exact .of_represents hsettled.rep fun id' hne =>
      (hsettled.other id' hne).trans (sameJob_setRow hne _)

theorem unborn_settleClaimWith (K : CqrsEs) (env : SettleEnv) (handle : JobClaimHandle)
    (validate : Except AbiError Unit) (command : Except JobRuntimeError JobCommand) :
    Unborn db (settleClaimWith K env handle validate command db).2 := by
  rcases settleClaimWith_cases K env handle validate command db with hsame | ⟨checked, hsettled⟩
  · rw [hsame]
    exact .refl db
  · rw [hsettled]
    exact unborn_settleJob h K env handle.jobId checked

theorem unborn_claimJobAs (fault : Option SqliteJobError) (call : ClaimCall) :
    Unborn db (claimJobAs fault call db).2 := by
  rcases claimJobAs_cases h.held fault call with ⟨-, hdb⟩ | ⟨r, out, r', hr, -, -, -, hsame⟩
  · rw [hdb]
    exact .refl db
  · exact .of_represents hr hsame

theorem unborn_esJobClaim (parseJobId : String → Option JobId) (K : CqrsEs) (env : SettleEnv)
    (fault : Option SqliteJobError) (capacity : Except AbiError Unit) (worker : WorkerId)
    (mint : ClaimId) (wire : ClaimWire) :
    Unborn db (esJobClaim parseJobId K env fault capacity worker mint wire db).2 := by
  rcases esJobClaim_cases parseJobId K env fault capacity worker mint wire db with
    hsame | ⟨call, hclaimed | ⟨id, command, hsettled⟩⟩
  · rw [hsame]
    exact .refl db
  · rw [hclaimed]
    exact unborn_claimJobAs h fault call
  · have hintact := (h.claimJobAs fault call).intact
    rw [hsettled]
    exact (unborn_claimJobAs h fault call).trans (unborn_settleJob hintact K env id command)

theorem unborn_esJobRenew (version : UInt8) (handle : JobClaimHandle) (newLeaseUntilMs : ℤ) :
    Unborn db (esJobRenew version handle newLeaseUntilMs db).2 := by
  unfold esJobRenew
  split
  · exact .refl db
  · rcases h.held handle.jobId with habs | ⟨r, hr⟩
    · rw [renewJob_absent habs]
      exact .refl db
    · obtain ⟨st, hst⟩ := r.rowState_live
      rcases renewJob_represented hr hst handle.claimSeq newLeaseUntilMs with
        ⟨-, -, -, hsame⟩ | ⟨-, hlost⟩
      · exact .of_represents hr hsame
      · rw [hlost]
        exact .refl db

/-- An enqueue and a commit bring their own jobs into the queue, and no other. -/
theorem keyed_esJobEnqueue {parseJobId : String → Option JobId}
    (hparse : ∀ text id, parseJobId text = some id → P id) (hkeyed : Keyed P db)
    (fault : Option SqliteJobError) (version : UInt8) (job : JobSeedWire) :
    Keyed P (esJobEnqueue parseJobId fault version job db).2 := by
  unfold esJobEnqueue
  split
  · exact hkeyed
  · exact hkeyed
  next request _ hseed =>
    rcases enqueueJobPayload_cases h.held fault request with ⟨-, hdb⟩ | ⟨runAt, -, -, -, hsame⟩
    · rw [hdb]
      exact hkeyed
    · intro id
      by_cases hid : id = request.jobId
      · exact .inr (hid ▸ hparse _ _ (parsed_of_jobSeed hseed))
      · exact (hkeyed id).imp_left fun habs => habs.of_same (hsame id hid)

omit h in
theorem keyed_commitResult (hkeyed : Keyed P db) {fault : Option EngineError}
    {request : OpaqueCommitRequest} (hjobs : ∀ job ∈ request.jobs, P job.jobId)
    (hheld : JobsHeld (commitResult fault request db).2) :
    Keyed P (commitResult fault request db).2 := by
  rw [commitResult_snd] at hheld ⊢
  cases hresult : (commitOpaque fault request db).1 with
  | error error =>
      rw [commitOpaque_error hresult]
      exact hkeyed
  | ok u =>
      have hcommitted := committedAt_of_commitOpaque hresult
      intro id
      by_cases hmem : ∃ job ∈ request.jobs, id = job.jobId
      · obtain ⟨job, hjob, rfl⟩ := hmem
        exact .inr (hjobs job hjob)
      · refine (hkeyed id).imp_left fun habs => Absent.of_row hheld ?_
        have hrow := hcommitted.queue id fun job hjob heq => hmem ⟨job, hjob, heq⟩
        exact hrow.trans habs.row

omit h in
theorem Unborn.of_streams (hheld : JobsHeld db')
    (hstreams : ∀ id, db'.stream (jobStream id) = db.stream (jobStream id)) : Unborn db db' := by
  intro id habs
  rcases hheld id with habs' | ⟨r, hr⟩
  · exact habs'
  · have hempty : db'.stream (jobStream id) =
        SeqLog.ofList 0 (([] : List JobEvent).map JobEvent.stored) :=
      (hstreams id).trans habs.stream
    exact absurd (log_unique hr.stream hempty) r.live.ne_nil

theorem unborn_esOpen (hroom : (db.stream registryStream).maxSeq < i64Max) :
    Unborn db (esOpen db).2 := by
  refine .of_streams (h.esOpen hroom).2.intact.held fun id => ?_
  obtain ⟨events, hevents⟩ := h.registry
  rw [hevents, SeqLog.maxSeq_ofList_zero, List.length_map] at hroom
  obtain ⟨db', view', hbuild, hbuilt, -⟩ :=
    build_eq_ok (E := jobEntity) rfl hevents h.eventsDecode hroom 1 db.jobQueue
  have hopen : esOpen db = (.ok (), db'.withQueue view') := by
    simp only [esOpen, hbuild]
  rw [hopen]
  exact hbuilt.streams _ (jobStream_ne_registry id)

theorem unborn_schema (wire : SchemaWire) :
    Unborn db (esSchemaReconcile wire db).2 ∧ Unborn db (esSchemaRecord wire db).2 := by
  obtain ⟨events, hevents⟩ := h.registry
  refine ⟨.of_streams (h.esSchemaReconcile wire).intact.held fun id => ?_,
    .of_streams (h.esSchemaRecord wire).intact.held fun id => ?_⟩
  · unfold esSchemaReconcile
    split
    · rfl
    · rw [hevents.reconcileTarget]
      split_ifs <;> rfl
  · unfold esSchemaRecord
    split
    · rfl
    next target _ => exact (hevents.record_frame target).1 _ (jobStream_ne_registry id)

theorem unborn_snapshots (fault : Option EngineError) (store : SnapshotWire)
    (discard : StreamWire) :
    Unborn db (esSnapshotStore fault store db).2 ∧
      Unborn db (esSnapshotDiscard fault discard db).2 := by
  refine ⟨.of_streams (h.esSnapshotStore fault store).intact.held fun id => ?_,
    .of_streams (h.esSnapshotDiscard fault discard).intact.held fun id => ?_⟩
  · unfold esSnapshotStore
    dsimp only
    split
    · rfl
    · rcases storeSnapshot_cases fault ⟨store.aggregateType, store.aggregateId⟩
        ⟨encodeOpaquePayload store.payload, store.sequence.toNat⟩ db with hdb | ⟨version, hdb, -⟩
      · rw [hdb]
      · rw [hdb]
        rfl
  · unfold esSnapshotDiscard
    dsimp only
    split
    · rfl
    · cases fault <;> rfl

open AbiSystem in
/-- **One call** brings no job into the queue but those whose id it parsed. -/
theorem keyed_step {parseJobId : String → Option JobId} {K : CqrsEs}
    (hparse : ∀ text id, parseJobId text = some id → P id) (hkeyed : Keyed P db) {op : Op}
    (hsafe : Safe db op) : Keyed P (step parseJobId K db op) := by
  have hheld : JobsHeld (step parseJobId K db op) := (engineStep_step h hsafe).intact.held
  cases op with
  | commit fault wire =>
      change Keyed P (esCommit fault wire db).2
      change JobsHeld (esCommit fault wire db).2 at hheld
      unfold esCommit at hheld ⊢
      split at hheld
      · exact hkeyed
      next request hparts =>
        obtain ⟨rfl, -⟩ := commitParts_eq_ok hparts
        exact keyed_commitResult hkeyed (fun _ hjob => (List.not_mem_nil hjob).elim) hheld
  | commitWithJob fault wire job =>
      change Keyed P (esCommitWithJob parseJobId fault wire job db).2
      change JobsHeld (esCommitWithJob parseJobId fault wire job db).2 at hheld
      unfold esCommitWithJob at hheld ⊢
      split at hheld
      · exact hkeyed
      · exact hkeyed
      next request seed _ hseed =>
        refine keyed_commitResult hkeyed (fun job hjob => ?_) hheld
        obtain rfl := List.mem_singleton.1 hjob
        exact hparse _ _ (parsed_of_jobSeed hseed)
  | snapshotStore fault wire => exact (unborn_snapshots h fault wire ⟨0, "", ""⟩).1.keyed hkeyed
  | snapshotDiscard fault wire =>
      exact (unborn_snapshots h fault ⟨0, "", "", 0, []⟩ wire).2.keyed hkeyed
  | schemaReconcile wire => exact (unborn_schema h wire).1.keyed hkeyed
  | schemaRecord wire => exact (unborn_schema h wire).2.keyed hkeyed
  | jobEnqueue fault version job => exact keyed_esJobEnqueue h hparse hkeyed fault version job
  | jobClaim env fault capacity worker mint wire =>
      exact (unborn_esJobClaim h parseJobId K env fault capacity worker mint wire).keyed hkeyed
  | jobRenew version handle newLeaseUntilMs =>
      exact (unborn_esJobRenew h version handle newLeaseUntilMs).keyed hkeyed
  | jobAck env version handle => exact (unborn_settleClaimWith h K env handle _ _).keyed hkeyed
  | jobRetry env version handle runAtMs error =>
      exact (unborn_settleClaimWith h K env handle _ _).keyed hkeyed
  | jobDefer env version handle runAtMs =>
      exact (unborn_settleClaimWith h K env handle _ _).keyed hkeyed
  | jobDeadLetter env version handle reason error =>
      have hunborn : Unborn db (esJobDeadLetter K env version handle reason error db).2 := by
        unfold esJobDeadLetter
        split <;> exact unborn_settleClaimWith h K env handle _ _
      exact hunborn.keyed hkeyed
  | reopen => exact (unborn_esOpen h hsafe).keyed hkeyed

end Keys

/-- The ids that the engine writes. -/
def EngineUlid.Canonical (engine : EngineUlid) (id : JobId) : Prop :=
  ∃ u < 2 ^ 128, id = engine.display u

theorem canonical_parseJobId {engine : EngineUlid} {text : String} {id : JobId}
    (h : engine.parseJobId text = some id) : engine.Canonical id := by
  obtain ⟨u, hu, rfl⟩ := Option.map_eq_some_iff.1 h
  obtain ⟨-, n, -, rfl⟩ := engine.parse_eq_some text u hu
  exact ⟨_, Nat.mod_lt _ (by decide), rfl⟩

/-- **Every run** of calls keys the queue with ids that the engine writes. -/
theorem keyed_run (engine : EngineUlid) (K : CqrsEs) {ops : List AbiSystem.Op}
    (hsafe : (AbiSystem.machine engine.parseJobId K).Meets AbiSystem.Safe
      (AbiSystem.machine engine.parseJobId K).init ops) :
    Keyed engine.Canonical ((AbiSystem.machine engine.parseJobId K).run ops) := by
  have hopened : Keyed engine.Canonical (AbiSystem.machine engine.parseJobId K).init :=
    (unborn_esOpen AbiSystem.intact_empty (by decide)).keyed fun _ => .inl ⟨rfl, rfl⟩
  have hboth := Machine.run_invariant_of_meets
    (P := fun db => EngineIntact db ∧ Keyed engine.Canonical db)
    ⟨AbiSystem.intact_init, hopened⟩ (fun db op hdb hop =>
      ⟨(AbiSystem.engineStep_step hdb.1 hop).intact,
        keyed_step hdb.1 (fun _ _ h => canonical_parseJobId h) hdb.2 hop⟩) hsafe
  exact hboth.2

/-- A polled id is one of the queue's keys. -/
theorem mem_of_mem_pollJobs {scan : List QueueEntry} {kind : JobKind} {nowMs : ℤ} {limit : UInt32}
    {id : JobId} (h : id ∈ pollJobs scan kind nowMs limit) : ∃ row, ⟨id, row⟩ ∈ scan := by
  obtain ⟨entry, hentry, rfl⟩ := List.mem_map.1 h
  obtain ⟨sorted, hperm, -, hselect⟩ := Sql.select_ordered queueColumns (pollPredicate kind nowMs)
    pollOrder limit.toNat scan
  rw [hselect, Sql.limited, if_neg (by omega)] at hentry
  have hmem := hperm.mem_iff.1 (List.mem_of_mem_take hentry)
  exact ⟨entry.2, List.mem_of_mem_filter hmem⟩

/-- A verdict is refused as a mismatch unless it names the job in flight. -/
theorem settleDispatch_ne_mismatch_iff {Job Output Error : Type} (id : JobId)
    (outcome : DispatchOutcome Output Error) :
    (Binding.settleDispatch (.inFlight id) outcome :
        Except DispatchRefused (List (DispatchEvent Job Output Error))) ≠ .error .outcomeMismatch ↔
      outcome.jobId = id := by
  cases outcome with
  | confirmed jobId output attempts =>
      by_cases hid : id = jobId
      · simp [Binding.settleDispatch, DispatchOutcome.jobId, hid]
      · simp [Binding.settleDispatch, DispatchOutcome.jobId, hid, Ne.symm hid]
  | failed jobId failure attempts =>
      by_cases hid : id = jobId
      · simp [Binding.settleDispatch, DispatchOutcome.jobId, hid]
      · simp [Binding.settleDispatch, DispatchOutcome.jobId, hid, Ne.symm hid]

/-- The Crockford reader on the engine's side. -/
def strictUlid : EngineUlid where
  parse text :=
    if text.length = 26 then (Crockford.value text.toList).map (· % 2 ^ 128) else none
  display u := String.ofList (Crockford.print 26 u)
  parse_eq_some text u h := by
    split_ifs at h with hlength
    obtain ⟨n, hn, rfl⟩ := Option.map_eq_some_iff.1 h
    exact ⟨hlength, n, hn, rfl⟩
  display_eq _ := rfl

/-- The Crockford reader on the side of the bindings. -/
def plainUlid : BindingUlid where
  decode text :=
    match Crockford.value (text.toList.take 26) with
    | some n => [(n, String.ofList (text.toList.drop 26))]
    | none => []
  ulidFromInteger n := if n < 2 ^ 128 then some n else none
  decode_eq text n h := by
    split at h
    next m hm =>
      obtain ⟨rfl, hrest⟩ := Prod.mk.inj (List.singleton_inj.1 h)
      have hdrop : text.toList.drop 26 = [] := by
        rw [← String.toList_ofList (l := text.toList.drop 26), hrest]
        rfl
      have htake : text.toList.take 26 = text.toList := by
        rw [← List.take_append_drop 26 text.toList, hdrop, List.append_nil, List.take_take]
        rfl
      rwa [htake] at hm
    · cases h
  lt_of_ulidFromInteger n u h := by
    split_ifs at h with hlt
    exact hlt

/-- An order is committed together with a mail job of this id. -/
def orderWithMail (text : String) : List AbiSystem.Op :=
  [.commitWithJob none (AbiSystem.commitTo "order" "o" 0) ⟨text, "mail", [1], 0⟩]

/-- The mail jobs that are then found. -/
def mailFound (text : String) : List JobId :=
  pollJobs ((AbiSystem.machine strictUlid.parseJobId .atMultiples).run
    (orderWithMail text)).jobQueue.entries "mail" 5 1

/-- **Polled ids.** After any run of calls that leaves the engine's streams to the engine, a poll
that returns the job of an id which the bindings and the engine accepted returns the id itself, and
verdicts for it are not refused as a mismatch, exactly if the id is written with Crockford's
symbols. -/
theorem polled_id_eq_enqueued_iff (engine : EngineUlid) (binding : BindingUlid) (K : CqrsEs)
    {ops : List AbiSystem.Op}
    (hsafe : (AbiSystem.machine engine.parseJobId K).Meets AbiSystem.Safe
      (AbiSystem.machine engine.parseJobId K).init ops)
    {scan : List QueueEntry}
    (hscan : scan.Perm ((AbiSystem.machine engine.parseJobId K).run ops).jobQueue.entries)
    (kind : JobKind) (nowMs : ℤ) (limit : UInt32) {text : String} {id polled : JobId} {u : ℕ}
    (hid : binding.mkJobId text = some id) (hu : engine.parse text = some u)
    (hpolled : polled ∈ pollJobs scan kind nowMs limit) (hjob : engine.parse polled = some u)
    (Job Output Error : Type) :
    (polled = id ∧ ∀ outcome : DispatchOutcome Output Error, outcome.jobId = polled →
        (Binding.settleDispatch (.inFlight id) outcome :
          Except DispatchRefused (List (DispatchEvent Job Output Error))) ≠
            .error .outcomeMismatch) ↔
      ∀ c ∈ text.toList, c ∈ Crockford.symbols := by
  obtain ⟨row, hrow⟩ := mem_of_mem_pollJobs hpolled
  have hlookup := AList.mem_lookup_iff.2 (hscan.mem_iff.1 hrow)
  obtain ⟨v, hv, rfl⟩ : engine.Canonical polled := by
    refine (keyed_run engine K hsafe polled).resolve_left fun habs => ?_
    cases habs.row.symm.trans hlookup
  obtain rfl := parse_display hv hjob
  obtain rfl := (mkJobId_eq_some hid).1
  rw [← display_eq_text_iff hid hu]
  exact ⟨fun h => h.1, fun h => ⟨h, fun outcome houtcome =>
    (settleDispatch_ne_mismatch_iff _ outcome).2 (houtcome.trans h)⟩⟩

theorem capital_id_is_polled :
    (AbiSystem.machine strictUlid.parseJobId .atMultiples).Meets AbiSystem.Safe
        (AbiSystem.machine strictUlid.parseJobId .atMultiples).init
        (orderWithMail "0000000000000000000000000A") ∧
      ∀ outcome : DispatchOutcome Unit Unit, outcome.jobId = "0000000000000000000000000A" →
        (Binding.settleDispatch (.inFlight "0000000000000000000000000A") outcome :
          Except DispatchRefused (List (DispatchEvent Unit Unit Unit))) ≠
            .error .outcomeMismatch := by
  have hsafe : (AbiSystem.machine strictUlid.parseJobId .atMultiples).Meets AbiSystem.Safe
      (AbiSystem.machine strictUlid.parseJobId .atMultiples).init
      (orderWithMail "0000000000000000000000000A") := ⟨by decide +kernel, trivial⟩
  have hpolled : "0000000000000000000000000A" ∈ mailFound "0000000000000000000000000A" := by
    decide +kernel
  have hid : plainUlid.mkJobId "0000000000000000000000000A" =
      some "0000000000000000000000000A" := by decide +kernel
  have hu : strictUlid.parse "0000000000000000000000000A" = some 10 := by decide +kernel
  have hsymbols : ∀ c ∈ "0000000000000000000000000A".toList, c ∈ Crockford.symbols :=
    (Crockford.print_eq_iff (n := 10) (by decide +kernel)).1 (by decide +kernel)
  exact ⟨hsafe, ((polled_id_eq_enqueued_iff strictUlid plainUlid .atMultiples hsafe
    (List.Perm.refl _) "mail" 5 1 hid hu hpolled hu Unit Unit Unit).2 hsymbols).2⟩

/-- An id with a small letter comes back with a capital one, and the verdict for the job does not
match the dispatch. -/
theorem small_letter_id_mismatches :
    plainUlid.mkJobId "0000000000000000000000000a" = some "0000000000000000000000000a" ∧
      strictUlid.parse "0000000000000000000000000a" = some 10 ∧
      mailFound "0000000000000000000000000a" = ["0000000000000000000000000A"] ∧
      strictUlid.parse "0000000000000000000000000A" = some 10 ∧
      (Binding.settleDispatch (.inFlight "0000000000000000000000000a")
        (.confirmed "0000000000000000000000000A" () 1 : DispatchOutcome Unit Unit) :
          Except DispatchRefused (List (DispatchEvent Unit Unit Unit))) =
            .error .outcomeMismatch := by
  refine ⟨?_, ?_, ?_, ?_, rfl⟩ <;> decide +kernel

end JobIdentity

end EventSorcery
