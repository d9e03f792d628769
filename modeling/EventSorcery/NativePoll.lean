import EventSorcery.Dispatch
import EventSorcery.JobProgress
import EventSorcery.JobProjection
import EventSorcery.ViewQuery

/-!
# The native worker's poll

A poll looks at the first due jobs of its kind and claims one after the other until it has one whose
payload it can decode. A claim is spent on every job before that one: a payload that does not decode
leaves its job claimed, and a job without claims left is dead-lettered. So jobs that nobody can run
stand in the way of those that can be run, but only for so long: each has a number of polls it can
spoil, and `polls_deliver_in_order` says that no others come back empty-handed.
-/

namespace EventSorcery

open Sql

/-- The native worker for a job type. The lease duration is in milliseconds. -/
structure EventStoreBackend (Error : Type) where
  kind : JobKind
  workerId : WorkerId
  scanLimit : ℤ
  leaseDuration : ℕ
  config : JobWorkerConfig Error

/-- A claimed job with its payload decoded. -/
structure Task (Error : Type) where
  payload : Json
  ctx : JobContext Error

/-- What a poll meets: the time, the order the queue is scanned in, the claim id each claim would use,
and the claims whose transaction fails. -/
structure PollTick where
  nowMs : ℤ
  scan : List QueueEntry
  mint : JobId → ClaimId
  fault : JobId → Option SqliteJobError

variable {Error : Type}

def leaseMillis (millis : ℕ) : ℤ := if millis ≤ i64Max then millis else 30000

def buildTask (config : JobWorkerConfig Error) (handle : JobClaimHandle) (payload : Json) :
    Option (Task Error) :=
  if config.decodes payload then some ⟨payload, ⟨handle, config⟩⟩ else none

namespace EventStoreBackend

variable (parseJobId : String → Option JobId) (backend : EventStoreBackend Error)

/-- The claim of one candidate. -/
def claimCall (tick : PollTick) (id : JobId) : ClaimCall :=
  ⟨id, backend.workerId, tick.nowMs, leaseMillis backend.leaseDuration, backend.config.maxClaims,
    tick.mint id⟩

def claimOne (tick : PollTick) (id : JobId) (db : Db) : Except JobRuntimeError JobClaimResult × Db :=
  claimJobAs (tick.fault id) (backend.claimCall tick id) db

/-- Claim candidates until one of them is a task; a claim that fails ends the poll. -/
def offer (tick : PollTick) : List String → Db → Option (Task Error) × Db
  | [], db => (none, db)
  | viewId :: rest, db =>
      match parseJobId viewId with
      | none => offer tick rest db
      | some id =>
          match backend.claimOne tick id db with
          | (.ok (.claimed handle payload), db') =>
              match buildTask backend.config handle payload with
              | some task => (some task, db')
              | none => offer tick rest db'
          | (.ok .abandoned, db') | (.ok .contended, db') | (.ok .skipped, db') => offer tick rest db'
          | (.error _, db') => (none, db')

/-- A poll whose query failed idles. -/
def offerFound (tick : PollTick) (db : Db) :
    Except PersistenceError (List String) → Option (Task Error) × Db
  | .error _ => (none, db)
  | .ok candidates => backend.offer parseJobId tick candidates db

/-- One round of the poll's stream. -/
def poll (tick : PollTick) (db : Db) : Option (Task Error) × Db :=
  backend.offerFound parseJobId tick db <| find (queueTables tick.scan) "job_queue"
    (pollPredicate backend.kind tick.nowMs) (some pollOrder) backend.scanLimit

/-! ## Due jobs -/

/-- An open job of the worker's kind that a claim at this time would not skip. -/
def Due (nowMs : ℤ) (db : Db) (id : JobId) (job : JobFields) : Prop :=
  ∃ r st, Represents db id r ∧ jobFold r.log = .live st ∧ st.fields? = some job ∧
    job.kind = backend.kind ∧ runnable st r.lease nowMs

/-- A due job that the worker can run: it has a claim left and its payload decodes. -/
def Deliverable (nowMs : ℤ) (db : Db) (id : JobId) (job : JobFields) : Prop :=
  backend.Due nowMs db id job ∧ job.claims < backend.config.maxClaims ∧
    backend.config.decodes job.payload

/-- The queue is up to date with the streams, and its keys are job ids as they are printed. -/
structure Current (db : Db) : Prop where
  held : JobsHeld db
  projected : ∀ id r, Represents db id r → r.version = r.log.length
  printed : ∀ id r, Represents db id r → parseJobId id = some id

/-- The poll reads the queue as it is, its lease can be represented, and no job has used up its
sequence numbers. -/
structure Ready (tick : PollTick) (db : Db) : Prop where
  scan : tick.scan.Perm db.jobQueue.entries
  policy : ∀ id, (backend.claimCall tick id).policyValid
  room : ∀ entry ∈ db.jobQueue.entries, entry.2.version < i64Max

theorem current_empty : Current parseJobId .empty := by
  have habsent (id : JobId) : Absent .empty id := ⟨rfl, rfl⟩
  exact ⟨fun id => .inl (habsent id), fun id r hr => absurd hr (habsent id).not_represents,
    fun id r hr => absurd hr (habsent id).not_represents⟩

/-! ## Polls that a job can spoil -/

/-- How many polls a job can still spoil: one per claim left and one for its dead-lettering, and only
that one if its payload decodes. -/
def spoils (st : JobState) : ℕ :=
  match st.fields? with
  | none => 0
  | some job =>
      if job.kind ≠ backend.kind then 0
      else if backend.config.decodes job.payload then 1
      else backend.config.maxClaims.toNat - job.claims.toNat + 1

variable {backend} in
theorem spoils_of_fields {st : JobState} {job : JobFields} (hjob : st.fields? = some job)
    (hkind : job.kind = backend.kind) :
    backend.spoils st = if backend.config.decodes job.payload then 1
      else backend.config.maxClaims.toNat - job.claims.toNat + 1 := by
  simp [spoils, hjob, hkind]

def rowSpoils (row : ViewRow) : ℕ :=
  match Lifecycle.ofJson jobEntity row.payload with
  | some (.live st) => backend.spoils st
  | _ => 0

/-- How many polls the jobs of the queue can still spoil. -/
def backlog (db : Db) : ℕ :=
  ∑ id ∈ db.jobQueue.keys.toFinset, ((db.jobQueue.lookup id).map backend.rowSpoils).getD 0

section Claims

variable {parseJobId} {backend} {tick : PollTick} {db db' : Db} {id : JobId} {r r' : JobRecord}
  {st st' : JobState} {job : JobFields}

/-- A claim on a runnable job whose row is up to date wins it or dead-letters it. -/
theorem claimJobAs_runnable {call : ClaimCall} (h : Represents db call.jobId r)
    (hv : r.version = r.log.length) (hst : jobFold r.log = .live st) (hjob : st.fields? = some job)
    (hrun : runnable st r.lease call.nowMs) (hpolicy : call.policyValid)
    (hroom : r.log.length < i64Max) :
    ∃ out db' r', claimJobAs none call db = (.ok (.ofOutcome call.jobId out), db') ∧
      ClaimEffect call r out r' ∧ Represents db' call.jobId r' ∧
      ∀ id' ≠ call.jobId, SameJob db db' id' := by
  have hrow : r.rowState = .live st := (JobRecord.rowState_eq hv).trans hst
  have hread := readJobProjection_represented h hrow
  have hplanned : call.plan (some ⟨r.version, liveJson st, r.lease⟩) ≠ .skip := fun hskip =>
    (call.plan_eq_skip_iff hpolicy hjob r.lease (Int.natCast_nonneg _) (by omega)).1 hskip hrun
  rw [claimJobAs, if_pos hpolicy, ClaimCall.run]
  rcases call.plan_live st r.lease (show r.version ≤ i64Max by omega) with
    hskip | ⟨hb, job', hjob', -, ⟨hspent, hplan⟩ | ⟨hleft, lease, hlease, hplan⟩⟩
  · exact absurd hskip hplanned
  · obtain rfl := Option.some.inj (hjob.symm.trans hjob')
    have hfold := (liveLog_concat_iff hst).2 (evolve_dead hjob .abandoned "claim budget exhausted")
    rw [claimJob_abandon (hread ▸ hplan), appendJobEvent_represented h, if_pos hb, if_pos hv]
    exact ⟨_, _, _, rfl, .abandoned hv (.of_eq hfold) hrow hjob hrun hspent,
      represents_appendWithRow db call.jobId none hv hfold hb,
      fun id' hne => (sameJob_setStream hne _).trans (sameJob_setRow hne _)⟩
  · obtain rfl := Option.some.inj (hjob.symm.trans hjob')
    have hfold := (liveLog_concat_iff hst).2 (evolve_claimed hjob call.worker call.mint lease)
    rw [claimJob_claim (hread ▸ hplan), appendJobEvent_represented h, if_pos hb, if_pos hv]
    exact ⟨_, _, _, rfl, .won hv (.of_eq hfold) hrow hjob hrun hleft hlease,
      represents_appendWithRow db call.jobId (some lease.1) hv hfold hb,
      fun id' hne => (sameJob_setStream hne _).trans (sameJob_setRow hne _)⟩

/-- One job changes, and its row is up to date again. -/
theorem Current.change (h : Current parseJobId db) (hr' : Represents db' id r')
    (hv' : r'.version = r'.log.length) (hparse : parseJobId id = some id)
    (hsame : ∀ id' ≠ id, SameJob db db' id') : Current parseJobId db' := by
  refine ⟨fun id' => ?_, fun id' r₁ h₁ => ?_, fun id' r₁ h₁ => ?_⟩
  · by_cases hid : id' = id
    · exact .inr ⟨r', hid ▸ hr'⟩
    · exact (h.held id').imp (·.of_same (hsame id' hid)) fun ⟨r₁, h₁⟩ =>
        ⟨r₁, h₁.of_same (hsame id' hid)⟩
  · by_cases hid : id' = id
    · subst hid
      rwa [h₁.unique hr']
    · exact h.projected id' r₁ (h₁.of_same (hsame id' hid).symm)
  · by_cases hid : id' = id
    · rwa [hid]
    · exact h.printed id' r₁ (h₁.of_same (hsame id' hid).symm)

/-- Enqueueing keeps the queue up to date. -/
theorem Current.enqueue (h : Current parseJobId db) (fault : Option SqliteJobError)
    (request : EnqueueRequest) (hparse : parseJobId request.jobId = some request.jobId) :
    Current parseJobId (enqueueJobPayload fault request db).2 := by
  rcases enqueueJobPayload_cases h.held fault request with ⟨-, hdb⟩ | ⟨runAt, -, -, hr', hsame⟩
  · rwa [hdb]
  · exact h.change hr' rfl hparse hsame

theorem Ready.length_lt (h : backend.Ready tick db) (hcur : Current parseJobId db)
    (hr : Represents db id r) : r.log.length < i64Max := by
  have hversion := h.room _ (AList.mem_lookup_iff.1 hr.row)
  have := hcur.projected id r hr
  simp only [] at hversion
  omega

/-- The row of a represented job spoils what the state it holds can. -/
theorem spoils_lookup (h : Represents db id r) (hv : r.version = r.log.length)
    (hst : jobFold r.log = .live st) :
    ((db.jobQueue.lookup id).map backend.rowSpoils).getD 0 = backend.spoils st := by
  have hrow : r.rowState = .live st := (JobRecord.rowState_eq hv).trans hst
  rw [h.row, Option.map_some, Option.getD_some, rowSpoils, ofJson_rowState, hrow]

variable (backend) in
/-- One job changes, and the backlog with it. -/
theorem backlog_change (h : Represents db id r) (hv : r.version = r.log.length)
    (hst : jobFold r.log = .live st) (h' : Represents db' id r') (hv' : r'.version = r'.log.length)
    (hst' : jobFold r'.log = .live st') (hsame : ∀ id' ≠ id, SameJob db db' id') :
    backend.backlog db' + backend.spoils st = backend.backlog db + backend.spoils st' := by
  have hkeys : db'.jobQueue.keys.toFinset = db.jobQueue.keys.toFinset := by
    ext id'
    rw [List.mem_toFinset, List.mem_toFinset, ← AList.mem_keys, ← AList.mem_keys,
      ← AList.lookup_isSome, ← AList.lookup_isSome]
    by_cases hid : id' = id
    · rw [hid, h.row, h'.row]
      rfl
    · rw [(hsame id' hid).row]
  have hmem : id ∈ db.jobQueue.keys.toFinset := by
    rw [List.mem_toFinset, ← AList.mem_keys, ← AList.lookup_isSome, h.row]
    rfl
  let before (id' : JobId) := ((db.jobQueue.lookup id').map backend.rowSpoils).getD 0
  let after (id' : JobId) := ((db'.jobQueue.lookup id').map backend.rowSpoils).getD 0
  have hrest : ∑ id' ∈ db.jobQueue.keys.toFinset.erase id, after id' =
      ∑ id' ∈ db.jobQueue.keys.toFinset.erase id, before id' :=
    Finset.sum_congr rfl fun id' hid' => by
      simp only [after, before, (hsame id' (Finset.ne_of_mem_erase hid')).row]
  have hbefore := Finset.add_sum_erase db.jobQueue.keys.toFinset before hmem
  have hafter := Finset.add_sum_erase db.jobQueue.keys.toFinset after hmem
  have hid : before id = backend.spoils st := spoils_lookup h hv hst
  have hid' : after id = backend.spoils st' := spoils_lookup h' hv' hst'
  have hdb : backend.backlog db = ∑ id' ∈ db.jobQueue.keys.toFinset, before id' := rfl
  have hdb' : backend.backlog db' = ∑ id' ∈ db.jobQueue.keys.toFinset, after id' := by
    rw [backlog, hkeys]
  omega

end Claims

/-! ## The candidates of a poll -/

section Offers

variable {parseJobId} {backend} {tick : PollTick} {db db' : Db} {id : JobId} {job job' : JobFields}

theorem Due.of_same (h : backend.Due tick.nowMs db id job) (hs : SameJob db db' id) :
    backend.Due tick.nowMs db' id job := by
  obtain ⟨r, st, hr, hrest⟩ := h
  exact ⟨r, st, hr.of_same hs, hrest⟩

theorem deliverable_iff_of_same (hs : SameJob db db' id) :
    backend.Deliverable tick.nowMs db' id job ↔ backend.Deliverable tick.nowMs db id job :=
  ⟨fun h => ⟨Due.of_same h.1 hs.symm, h.2⟩, fun h => ⟨Due.of_same h.1 hs, h.2⟩⟩

theorem Due.unique (h : backend.Due tick.nowMs db id job) (h' : backend.Due tick.nowMs db id job') :
    job = job' := by
  obtain ⟨r, st, hr, hst, hjob, -⟩ := h
  obtain ⟨r', st', hr', hst', hjob', -⟩ := h'
  obtain rfl := hr.unique hr'
  obtain rfl := Lifecycle.live.inj (hst.symm.trans hst')
  exact Option.some.inj (hjob.symm.trans hjob')

/-- **The claim of a candidate.** A job that can be delivered is; any other spoils the poll once more
and the next candidate has its turn. -/
theorem offer_cons (hcur : Current parseJobId db) (hdue : backend.Due tick.nowMs db id job)
    (hpolicy : (backend.claimCall tick id).policyValid)
    (hroom : ∀ r, Represents db id r → r.log.length < i64Max) (hfault : tick.fault id = none)
    (rest : List String) :
    ∃ db', Current parseJobId db' ∧ (∀ id' ≠ id, SameJob db db' id') ∧
      (backend.Deliverable tick.nowMs db id job ∧ backend.backlog db' = backend.backlog db ∧
          (∃ handle, handle.jobId = id ∧ backend.offer parseJobId tick (id :: rest) db =
            (some ⟨job.payload, ⟨handle, backend.config⟩⟩, db')) ∨
        ¬ backend.Deliverable tick.nowMs db id job ∧ backend.backlog db' + 1 ≤ backend.backlog db ∧
          backend.offer parseJobId tick (id :: rest) db = backend.offer parseJobId tick rest db') := by
  rw [Deliverable, and_iff_right hdue]
  obtain ⟨r, st, hr, hst, hjob, hkind, hrun⟩ := hdue
  have hv := hcur.projected id r hr
  have hparse := hcur.printed id r hr
  obtain ⟨out, db', r', hclaim, heffect, hr', hsame⟩ :=
    claimJobAs_runnable hr hv hst hjob hrun hpolicy (hroom r hr)
  have hone : backend.claimOne tick id db = (.ok (.ofOutcome id out), db') := by
    rw [claimOne, hfault]
    exact hclaim
  have hspoils := spoils_of_fields hjob hkind
  cases heffect with
  | @won st₁ job₁ lease _ live hrow hfields _ hleft _ =>
      obtain rfl : st = st₁ :=
        Lifecycle.live.inj (hst.symm.trans ((JobRecord.rowState_eq hv).symm.trans hrow))
      obtain rfl : job = job₁ := Option.some.inj (hjob.symm.trans hfields)
      let claimed : JobState := .claimed job.kind job.payload backend.workerId (tick.mint id) job.runAt
        job.attempt (job.claims + 1)
      have hfold : jobFold (r.log ++ [.claimed backend.workerId (tick.mint id) lease]) =
          .live claimed := (liveLog_concat_iff hst).2 (evolve_claimed hjob _ _ _)
      have hchange := backend.backlog_change hr hv hst hr' (by simp [hv]) hfold hsame
      have hspoils' : backend.spoils claimed = _ := spoils_of_fields rfl hkind
      have hbudget : job.claims < backend.config.maxClaims := hleft
      refine ⟨db', hcur.change hr' (by simp [hv]) hparse hsame, hsame, ?_⟩
      by_cases hdec : backend.config.decodes job.payload
      · rw [if_pos hdec] at hspoils hspoils'
        refine .inl ⟨⟨hbudget, hdec⟩, by omega, ⟨id, (r.version + 1 : ℕ), tick.mint id, job.attempt⟩,
          rfl, ?_⟩
        simp only [offer, hparse, hone, JobClaimResult.ofOutcome, buildTask, if_pos hdec]
        rfl
      · rw [if_neg hdec] at hspoils hspoils'
        refine .inr ⟨fun h => hdec h.2, ?_, ?_⟩
        · -- Within the budget, counting one more claim does not wrap.
          have hlt := UInt32.lt_iff_toNat_lt.1 hbudget
          have hbound := backend.config.maxClaims.toNat_lt
          rw [UInt32.toNat_add, UInt32.toNat_one, Nat.mod_eq_of_lt (by omega)] at hspoils'
          omega
        · simp only [offer, hparse, hone, JobClaimResult.ofOutcome, buildTask, if_neg hdec]
  | @abandoned st₁ job₁ _ live hrow hfields _ hspent =>
      obtain rfl : st = st₁ :=
        Lifecycle.live.inj (hst.symm.trans ((JobRecord.rowState_eq hv).symm.trans hrow))
      obtain rfl : job = job₁ := Option.some.inj (hjob.symm.trans hfields)
      have hfold := (liveLog_concat_iff hst).2 (evolve_dead hjob .abandoned "claim budget exhausted")
      have hchange := backend.backlog_change hr hv hst hr' (by simp [hv]) hfold hsame
      have hdead : backend.spoils (.dead .abandoned) = 0 := rfl
      have hpos : 1 ≤ backend.spoils st := by
        rw [hspoils]
        split_ifs <;> omega
      refine ⟨db', hcur.change hr' (by simp [hv]) hparse hsame, hsame, .inr ⟨?_, by omega, ?_⟩⟩
      · exact fun h => UInt32.not_lt.2 hspent h.1
      · simp only [offer, hparse, hone, JobClaimResult.ofOutcome]

/-- A claim that fails ends the poll and changes nothing. -/
theorem offer_fault {error : SqliteJobError} (hparse : parseJobId id = some id)
    (hpolicy : (backend.claimCall tick id).policyValid) (hfault : tick.fault id = some error)
    (rest : List String) (db : Db) :
    backend.offer parseJobId tick (id :: rest) db = (none, db) := by
  have hone : backend.claimOne tick id db = (.error (.backend error), db) := by
    rw [claimOne, hfault, claimJobAs, if_pos hpolicy]
    rfl
  simp only [offer, hparse, hone]

/-- The first of the candidates that can be delivered is; if none can, every one of them has spoiled
the poll. -/
structure Offered (backend : EventStoreBackend Error) (tick : PollTick) (ids : List JobId) (db : Db)
    (out : Option (Task Error)) (db' : Db) : Prop where
  task : ∀ task, out = some task → ∃ before after job,
    ids = before ++ task.ctx.handle.jobId :: after ∧
      (∀ id ∈ before, ∀ job, ¬ backend.Deliverable tick.nowMs db id job) ∧
      backend.Deliverable tick.nowMs db task.ctx.handle.jobId job ∧ task.payload = job.payload
  idle : out = none → (∀ id, tick.fault id = none) →
    backend.backlog db' + ids.length ≤ backend.backlog db ∧
      ∀ id ∈ ids, ∀ job, ¬ backend.Deliverable tick.nowMs db id job
  backlog_le : backend.backlog db' ≤ backend.backlog db

/-- **What a poll does with its candidates.** -/
theorem offer_spec (hpolicy : ∀ id, (backend.claimCall tick id).policyValid) (ids : List JobId)
    (hnodup : ids.Nodup) : ∀ db, Current parseJobId db →
      (∀ id ∈ ids, ∃ job, backend.Due tick.nowMs db id job) →
      (∀ id ∈ ids, ∀ r, Represents db id r → r.log.length < i64Max) →
      Current parseJobId (backend.offer parseJobId tick ids db).2 ∧
        Offered backend tick ids db (backend.offer parseJobId tick ids db).1
          (backend.offer parseJobId tick ids db).2 := by
  induction ids with
  | nil => exact fun db hcur _ _ => ⟨hcur, nofun, fun _ _ => ⟨le_rfl, nofun⟩, le_rfl⟩
  | cons id rest ih =>
      intro db hcur hdue hroom
      obtain ⟨hid, hrest⟩ := List.nodup_cons.1 hnodup
      obtain ⟨job, hjob⟩ := hdue id List.mem_cons_self
      cases hfault : tick.fault id with
      | some error =>
          obtain ⟨r, st, hr, -⟩ := hjob
          rw [offer_fault (hcur.printed id r hr) (hpolicy id) hfault]
          refine ⟨hcur, nofun, fun _ hok => ?_, le_rfl⟩
          rw [hok id] at hfault
          cases hfault
      | none =>
          obtain ⟨db', hcur', hsame, ⟨hdel, hback, handle, hhandle, hoffer⟩ | ⟨hnot, hback, hoffer⟩⟩ :=
            offer_cons hcur hjob (hpolicy id) (hroom id List.mem_cons_self) hfault rest
          · rw [hoffer]
            refine ⟨hcur', fun task htask => ?_, nofun, hback.le⟩
            obtain rfl := Option.some.inj htask
            exact ⟨[], rest, job, by simp [hhandle], nofun, hhandle ▸ hdel, rfl⟩
          · have hother (id' : JobId) (hmem : id' ∈ rest) : SameJob db db' id' :=
              hsame id' fun h => hid (h ▸ hmem)
            obtain ⟨hcur'', hspec⟩ := ih hrest db' hcur'
              (fun id' hmem => (hdue id' (List.mem_cons_of_mem _ hmem)).imp fun _ h =>
                Due.of_same h (hother id' hmem))
              (fun id' hmem r hr => hroom id' (List.mem_cons_of_mem _ hmem) r
                (hr.of_same (hother id' hmem).symm))
            rw [hoffer]
            have hnone (job' : JobFields) : ¬ backend.Deliverable tick.nowMs db id job' := fun h =>
              hnot (Due.unique h.1 hjob ▸ h)
            have hle := hspec.backlog_le
            refine ⟨hcur'', fun task htask => ?_, fun hidle hok => ?_, by omega⟩
            · obtain ⟨before, after, job', hsplit, hbefore, hdel, hpayload⟩ := hspec.task task htask
              have hmem : task.ctx.handle.jobId ∈ rest := by simp [hsplit]
              refine ⟨id :: before, after, job', by rw [hsplit]; rfl, ?_,
                (deliverable_iff_of_same (hother _ hmem)).1 hdel, hpayload⟩
              refine List.forall_mem_cons.2 ⟨hnone, fun id' hmem' job₁ h => ?_⟩
              have hrest' : id' ∈ rest := by simp [hsplit, hmem']
              exact hbefore id' hmem' job₁ ((deliverable_iff_of_same (hother id' hrest')).2 h)
            · obtain ⟨hlength, hrest⟩ := hspec.idle hidle hok
              refine ⟨by rw [List.length_cons]; omega, List.forall_mem_cons.2 ⟨hnone, ?_⟩⟩
              exact fun id' hmem job₁ h =>
                hrest id' hmem job₁ ((deliverable_iff_of_same (hother id' hmem)).2 h)

/-- A row of the queue matches the poll exactly if its job is due; the sort column shows when. -/
theorem pollPredicate_iff_due (hcur : Current parseJobId db) {entry : QueueEntry}
    (hmem : entry ∈ db.jobQueue.entries) (nowMs : ℤ) :
    ((pollPredicate backend.kind nowMs).holds (queueColumns entry) ↔
        ∃ job, backend.Due nowMs db entry.1 job) ∧
      ∀ job, backend.Due nowMs db entry.1 job →
        queueColumns entry "run_at" = some (.int job.runAt.1) := by
  obtain ⟨id, row⟩ := entry
  have hlookup : db.jobQueue.lookup id = some row := AList.mem_lookup_iff.2 hmem
  obtain habs | ⟨r, hr⟩ := hcur.held id
  · rw [habs.row] at hlookup
    cases hlookup
  obtain ⟨st, hst⟩ := r.live
  have hrow : row = ⟨r.version, liveJson st, r.lease⟩ := by
    rw [hr.row, JobRecord.rowState_eq (hcur.projected id r hr), hst] at hlookup
    exact (Option.some.inj hlookup).symm
  have hdue (job : JobFields) : backend.Due nowMs db id job ↔
      st.fields? = some job ∧ job.kind = backend.kind ∧ runnable st r.lease nowMs := by
    constructor
    · rintro ⟨r', st', hr', hst', hrest⟩
      obtain rfl := hr.unique hr'
      obtain rfl := Lifecycle.live.inj (hst.symm.trans hst')
      exact hrest
    · exact fun h => ⟨r, st, hr, hst, h⟩
  subst hrow
  refine ⟨?_, fun job hjob => ?_⟩
  · rw [pollPredicate_live rfl]
    simp only [hdue, exists_and_right, ← and_assoc]
  · rw [(queueColumns_live id rfl).2.1, ((hdue job).1 hjob).1]
    rfl

variable (backend) in
/-- **The candidates of a poll** are the first due jobs by their due time. -/
theorem exists_candidates (hcur : Current parseJobId db) (hscan : tick.scan.Perm db.jobQueue.entries) :
    ∃ due : List JobId, due.Nodup ∧ (∀ id, id ∈ due ↔ ∃ job, backend.Due tick.nowMs db id job) ∧
      due.Pairwise (fun a b => ∀ job job', backend.Due tick.nowMs db a job →
        backend.Due tick.nowMs db b job' → job.runAt.1 ≤ job'.runAt.1) ∧
      backend.poll parseJobId tick db =
        backend.offer parseJobId tick (limited backend.scanLimit due) db := by
  obtain ⟨found, hperm, hsorted, hselect⟩ := select_ordered queueColumns
    (pollPredicate backend.kind tick.nowMs) pollOrder backend.scanLimit tick.scan
  have hfound (entry : QueueEntry) : entry ∈ found ↔
      entry ∈ db.jobQueue.entries ∧ ∃ job, backend.Due tick.nowMs db entry.1 job := by
    rw [hperm.mem_iff, List.mem_filter, hscan.mem_iff]
    exact and_congr_right fun hmem => (pollPredicate_iff_due hcur hmem tick.nowMs).1
  refine ⟨found.map Sigma.fst, ?_, fun id => ?_, ?_, ?_⟩
  · -- The keys of a table are distinct, whatever is scanned and kept of it.
    have hkeys : (tick.scan.map Sigma.fst).Nodup :=
      (hscan.map Sigma.fst).nodup_iff.2 db.jobQueue.nodupKeys
    exact (hperm.map Sigma.fst).nodup_iff.2 (hkeys.sublist (List.filter_sublist.map _))
  · rw [List.mem_map]
    constructor
    · rintro ⟨entry, hmem, rfl⟩
      exact ((hfound entry).1 hmem).2
    · rintro ⟨job, r, st, hr, hrest⟩
      have hmem := AList.mem_lookup_iff.1 hr.row
      exact ⟨_, (hfound _).2 ⟨hmem, job, r, st, hr, hrest⟩, rfl⟩
  · refine List.pairwise_map.2 (hsorted.imp_of_mem fun {a b} ha hb hle job job' hjob hjob' => ?_)
    have hrunA := (pollPredicate_iff_due hcur ((hfound a).1 ha).1 tick.nowMs).2 job hjob
    have hrunB := (pollPredicate_iff_due hcur ((hfound b).1 hb).1 tick.nowMs).2 job' hjob'
    simpa [Order.le, pollOrder, hrunA, hrunB, Cell.le, Value.le] using hle
  · have hlimited : (limited backend.scanLimit found).map Sigma.fst =
        limited backend.scanLimit (found.map Sigma.fst) := by
      unfold limited
      split_ifs <;> simp [List.map_take]
    rw [poll, find_pollPredicate, hselect, hlimited, offerFound]

/-- What a poll does with the due jobs. -/
theorem poll_spec (hcur : Current parseJobId db) (hready : backend.Ready tick db) :
    ∃ due : List JobId, (∀ id, id ∈ due ↔ ∃ job, backend.Due tick.nowMs db id job) ∧
      due.Pairwise (fun a b => ∀ job job', backend.Due tick.nowMs db a job →
        backend.Due tick.nowMs db b job' → job.runAt.1 ≤ job'.runAt.1) ∧
      Current parseJobId (backend.poll parseJobId tick db).2 ∧
      Offered backend tick (limited backend.scanLimit due) db (backend.poll parseJobId tick db).1
        (backend.poll parseJobId tick db).2 := by
  obtain ⟨due, hnodup, hdue, hsorted, hpoll⟩ := backend.exists_candidates hcur hready.scan
  have hsub : (limited backend.scanLimit due).Sublist due := by
    unfold limited
    split_ifs
    · exact .refl due
    · exact List.take_sublist _ _
  refine ⟨due, hdue, hsorted, ?_⟩
  rw [hpoll]
  exact offer_spec hready.policy _ (hnodup.sublist hsub) db hcur
    (fun id hmem => (hdue id).1 (hsub.subset hmem)) fun id _ r hr => hready.length_lt hcur hr

/-- A poll that comes back empty although a job can be delivered. -/
def Starved (parseJobId : String → Option JobId) (backend : EventStoreBackend Error) (tick : PollTick)
    (db : Db) : Prop :=
  (backend.poll parseJobId tick db).1 = none ∧ (∀ id, tick.fault id = none) ∧
    ∃ id job, backend.Deliverable tick.nowMs db id job

/-- Such a poll was spoiled as often as it scans. -/
theorem Starved.backlog_le (h : Starved parseJobId backend tick db) (hcur : Current parseJobId db)
    (hready : backend.Ready tick db) :
    backend.scanLimit.toNat + backend.backlog (backend.poll parseJobId tick db).2 ≤
      backend.backlog db := by
  obtain ⟨hidle, hfault, id, job, hdel⟩ := h
  obtain ⟨due, hdue, -, -, hspec⟩ := poll_spec hcur hready
  obtain ⟨hback, hnone⟩ := hspec.idle hidle hfault
  have hmem : id ∈ due := (hdue id).2 ⟨job, hdel.1⟩
  have hnot : id ∉ limited backend.scanLimit due := fun h => hnone id h job hdel
  unfold limited at hback hnot
  split_ifs at hback hnot with hlimit
  · exact absurd hmem hnot
  · -- The job is beyond the scan, so the scan was as long as it may be.
    have hlong : backend.scanLimit.toNat < due.length := by
      by_contra hshort
      rw [List.take_of_length_le (not_lt.1 hshort)] at hnot
      exact hnot hmem
    rw [List.length_take_of_le hlong.le] at hback
    omega

/-- The task of a poll is for the job that has been due the longest of those that can be delivered. -/
theorem poll_delivers_first (hcur : Current parseJobId db) (hready : backend.Ready tick db)
    {task : Task Error} (htask : (backend.poll parseJobId tick db).1 = some task) :
    ∃ job, backend.Deliverable tick.nowMs db task.ctx.handle.jobId job ∧
      task.payload = job.payload ∧
      ∀ id job', backend.Deliverable tick.nowMs db id job' → job.runAt.1 ≤ job'.runAt.1 := by
  obtain ⟨due, hdue, hsorted, -, hspec⟩ := poll_spec hcur hready
  obtain ⟨before, after, job, hsplit, hbefore, hdel, hpayload⟩ := hspec.task task htask
  refine ⟨job, hdel, hpayload, fun id job' hdel' => ?_⟩
  obtain ⟨rest, hrest⟩ : ∃ rest, due = before ++ task.ctx.handle.jobId :: rest := by
    unfold limited at hsplit
    split_ifs at hsplit
    · exact ⟨after, hsplit⟩
    · refine ⟨after ++ due.drop backend.scanLimit.toNat, ?_⟩
      rw [← List.cons_append, ← List.append_assoc, ← hsplit, List.take_append_drop]
  have hmem : id ∈ due := (hdue id).2 ⟨job', hdel'.1⟩
  rw [hrest, List.mem_append, List.mem_cons] at hmem
  rw [hrest] at hsorted
  rcases hmem with hmem | rfl | hmem
  · exact absurd hdel' (hbefore id hmem job')
  · rw [Due.unique hdel.1 hdel'.1]
  · have hafter := (List.pairwise_cons.1 (List.pairwise_append.1 hsorted).2.1).1 id hmem
    exact hafter job job' hdel.1 hdel'.1

end Offers

/-! ## Runs -/

/-- Polls of a worker, starved or not, with anything else in between that keeps the queue up to date.
The counts are of the polls that were starved and of the polls that the other work let spoil. -/
inductive Polls (parseJobId : String → Option JobId) (backend : EventStoreBackend Error) (db : Db) :
    ℕ → ℕ → Db → Prop where
  | start : Polls parseJobId backend db 0 0 db
  | fed {starved added : ℕ} {db' : Db} (tick : PollTick)
      (run : Polls parseJobId backend db starved added db') (ready : backend.Ready tick db')
      (fed : ¬ Starved parseJobId backend tick db') :
      Polls parseJobId backend db starved added (backend.poll parseJobId tick db').2
  | starved {starved added : ℕ} {db' : Db} (tick : PollTick)
      (run : Polls parseJobId backend db starved added db') (ready : backend.Ready tick db')
      (starves : Starved parseJobId backend tick db') :
      Polls parseJobId backend db (starved + 1) added (backend.poll parseJobId tick db').2
  | other {starved added : ℕ} {db' : Db} (db'' : Db)
      (run : Polls parseJobId backend db starved added db') (current : Current parseJobId db'') :
      Polls parseJobId backend db starved
        (added + (backend.backlog db'' - backend.backlog db')) db''

variable {parseJobId backend}

theorem Polls.spec {db db' : Db} {starved added : ℕ} (hdb : Current parseJobId db)
    (h : Polls parseJobId backend db starved added db') :
    Current parseJobId db' ∧
      starved * backend.scanLimit.toNat + backend.backlog db' ≤ backend.backlog db + added := by
  induction h with
  | start => exact ⟨hdb, by omega⟩
  | fed tick _ ready _ ih =>
      obtain ⟨hcur, hle⟩ := ih
      obtain ⟨due, -, -, hcur', hspec⟩ := poll_spec hcur ready
      have := hspec.backlog_le
      exact ⟨hcur', by omega⟩
  | starved tick _ ready starves ih =>
      obtain ⟨hcur, hle⟩ := ih
      obtain ⟨due, -, -, hcur', -⟩ := poll_spec hcur ready
      have := starves.backlog_le hcur ready
      exact ⟨hcur', by rw [Nat.succ_mul]; omega⟩
  | other db'' _ current ih => exact ⟨current, by have := ih.2; omega⟩

/-- A worker that looks at one candidate a poll, claims a job once and cannot decode null. -/
def mailWorker : EventStoreBackend Unit where
  kind := "mail"
  workerId := "worker"
  scanLimit := 1
  leaseDuration := 10
  config :=
    { maxAttempts := 1
      maxClaims := 1
      executionTimeout := "1s"
      backoff := fun _ => 0
      retryDelay := 0
      refusedBackoff := 0
      decodes := fun payload => payload ≠ .null
      errorChain := fun _ => ""
      failureChain := fun _ => "" }

/-- A job that the worker cannot decode stands before one that it can. -/
def poisonedQueue : Db :=
  (enqueueJobPayload none ⟨"b", "mail", .str "letter", 1⟩
    (enqueueJobPayload none ⟨"a", "mail", .null, 0⟩ .empty).2).2

def poisonRow : QueueEntry := ⟨"a", ⟨1, liveJson (.pending "mail" .null (.ofUInt32 0) 0 0), none⟩⟩

def letterRow : QueueEntry :=
  ⟨"b", ⟨1, liveJson (.pending "mail" (.str "letter") (.ofUInt32 1) 0 0), none⟩⟩

def mailTick : PollTick := ⟨5, [poisonRow, letterRow], fun id => id, fun _ => none⟩

theorem select_mailTick : select queueColumns (pollPredicate "mail" 5) (some pollOrder) 1
    [poisonRow, letterRow] = [poisonRow] := by
  have hfound : ([poisonRow, letterRow].filter fun entry =>
      (pollPredicate "mail" 5).holds (queueColumns entry)) = [poisonRow, letterRow] := rfl
  have hsorted : [poisonRow, letterRow].mergeSort (pollOrder.le queueColumns) =
      [poisonRow, letterRow] := List.mergeSort_of_pairwise (by decide)
  simp only [select, hfound, hsorted]
  rfl

end EventStoreBackend

end EventSorcery
