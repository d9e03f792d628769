import EventSorcery.JobRuntime
import EventSorcery.Lib.Sql

/-!
# Which jobs a poll finds, and what a claim plans for them

A runnable job is described twice: a poll is a query over columns generated from the stored state, and
a claim decides from the decoded state inside its transaction. This module models the query and shows
that both describe the same jobs. The planner builds the next state by hand; it is compared with the
fold of the event it plans.
-/

namespace EventSorcery

open Sql

/-! ## The columns of the queue -/

/-- A row of `job_queue` with its key. -/
abbrev QueueEntry := Σ _ : JobId, ViewRow

def JobStatus.text : JobStatus → String
  | .pending => "pending"
  | .claimed => "claimed"
  | .done => "done"
  | .dead => "dead"

/-- What `json_extract` reads at a path: texts and integers; no column holds anything else. -/
def jsonExtract (payload : Json) (path : List String) : Cell :=
  match path.foldl (fun j key => j.bind fun j => j.field? key) (some payload) with
  | some (.str s) => some (.text s)
  | some (.int n) => some (.int n)
  | _ => none

/-- A column that pending and claimed jobs have under the same name. -/
def openColumn (payload : Json) (name : String) : Cell :=
  (jsonExtract payload ["Live", "Pending", name]).or (jsonExtract payload ["Live", "Claimed", name])

def queueColumns (entry : QueueEntry) (column : String) : Cell :=
  if column = "view_id" then some (.text entry.1)
  else if column = "version" then some (.int entry.2.version)
  else if column = "lease_until" then entry.2.leaseUntil.map .int
  else if column = "kind" then openColumn entry.2.payload "kind"
  else if column = "status" then (jobStatus entry.2.payload).map fun status => .text status.text
  else if column = "run_at" then openColumn entry.2.payload "run_at"
  else none

/-! ## The poll -/

def pollPredicate (kind : JobKind) (nowMs : ℤ) : Predicate :=
  let kindEq : Term := ⟨"kind", .eq, some (.text kind)⟩
  let statusEq (status : String) : Term := ⟨"status", .eq, some (.text status)⟩
  ⟨[[kindEq, statusEq "pending", ⟨"run_at", .le, some (.int nowMs)⟩],
    [kindEq, statusEq "claimed", ⟨"lease_until", .lt, some (.int nowMs)⟩],
    [kindEq, statusEq "claimed", ⟨"lease_until", .isNull, none⟩]]⟩

def pollOrder : Order := ⟨"run_at", true⟩

/-- The runnable jobs of a kind, in whatever order the table is scanned. -/
def pollJobs (scan : List QueueEntry) (kind : JobKind) (nowMs : ℤ) (limit : UInt32) : List JobId :=
  (select queueColumns (pollPredicate kind nowMs) (some pollOrder) limit.toNat scan).map Sigma.fst

/-! ## What the columns of a stored job show -/

theorem jobEntity_serde : jobEntity.Serde :=
  ⟨fun st => JobState.ofJson_toJson st, fun _ => rfl, fun st => by cases st <;> nofun⟩

variable {id : JobId} {row : ViewRow}

/-- The generated columns of a live job show its state. -/
theorem queueColumns_live (id : JobId) {st : JobState} (h : row.payload = liveJson st) :
    queueColumns ⟨id, row⟩ "kind" = st.fields?.map (fun job => .text job.kind) ∧
      queueColumns ⟨id, row⟩ "run_at" = st.fields?.map (fun job => .int job.runAt.1) ∧
      queueColumns ⟨id, row⟩ "status" = some (.text st.status.text) := by
  simp only [queueColumns, h]
  cases st <;> exact ⟨rfl, rfl, rfl⟩

/-- A row whose lifecycle is not live shows no kind. -/
theorem queueColumns_kind_of_not_live {l : JobLifecycle} (h : row.payload = l.toJson jobEntity)
    (hl : ∀ st, l ≠ .live st) : queueColumns ⟨id, row⟩ "kind" = none := by
  simp only [queueColumns, h]
  cases l with
  | live st => exact absurd rfl (hl st)
  | uninitialized | failed => rfl

theorem queueColumns_leaseUntil :
    queueColumns ⟨id, row⟩ "lease_until" = row.leaseUntil.map .int := rfl

theorem pollPredicate_holds_iff (columns : String → Cell) (kind : JobKind) (nowMs : ℤ) :
    (pollPredicate kind nowMs).holds columns ↔ columns "kind" = some (.text kind) ∧
      (columns "status" = some (.text "pending") ∧
          Cmp.le.holds (columns "run_at") (some (.int nowMs)) ∨
        columns "status" = some (.text "claimed") ∧
          (Cmp.lt.holds (columns "lease_until") (some (.int nowMs)) ∨
            columns "lease_until" = none)) := by
  have heq (cell : Cell) (s : String) :
      Cmp.eq.holds cell (some (.text s)) ↔ cell = some (.text s) := by
    cases cell <;> simp [Cmp.holds]
  have hnull (cell : Cell) : Cmp.isNull.holds cell none ↔ cell = none := by
    cases cell <;> simp [Cmp.holds]
  simp only [Predicate.holds, pollPredicate, List.any_cons, List.any_nil, List.all_cons,
    List.all_nil, Bool.or_false, Bool.and_true, Bool.or_eq_true, Bool.and_eq_true, heq, hnull]
  tauto

/-- The query finds the open jobs of the kind that the planner calls runnable. -/
theorem pollPredicate_live {st : JobState} (h : row.payload = liveJson st) (kind : JobKind)
    (nowMs : ℤ) : (pollPredicate kind nowMs).holds (queueColumns ⟨id, row⟩) ↔
      (∃ job, st.fields? = some job ∧ job.kind = kind) ∧ runnable st row.leaseUntil nowMs := by
  obtain ⟨hkind, hrunAt, hstatus⟩ := queueColumns_live id h
  rw [pollPredicate_holds_iff, hkind, hrunAt, hstatus, queueColumns_leaseUntil]
  cases st with
  | pending k payload runAt attempt claims =>
      simp [JobState.fields?, JobState.status, JobStatus.text, runnable, Cmp.holds, Value.le]
  | claimed k payload worker claimId runAt attempt claims =>
      cases row.leaseUntil <;>
        simp [JobState.fields?, JobState.status, JobStatus.text, runnable, Cmp.holds, Value.le]
  | done | dead => simp [JobState.fields?]

/-! ## What a claim plans -/

/-- The planner looks at a row's payload only through the state it decodes to. -/
theorem ClaimCall.plan_congr (call : ClaimCall) {st : JobState} {payload : Json}
    (h : Lifecycle.ofJson jobEntity payload = some (.live st)) (version : ℤ) (lease : Option ℤ) :
    call.plan (some ⟨version, payload, lease⟩) = call.plan (some ⟨version, liveJson st, lease⟩) := by
  simp only [ClaimCall.plan, planClaim, h, ofJson_liveJson]

/-- Under an accepted policy a claim skips only what is not runnable. -/
theorem ClaimCall.plan_eq_skip_iff (call : ClaimCall) (hpolicy : call.policyValid) {st : JobState}
    {job : JobFields} (hjob : st.fields? = some job) (lease : Option ℤ) {version : ℤ}
    (hv : 0 ≤ version) (hmax : version < i64Max) :
    call.plan (some ⟨version, liveJson st, lease⟩) = .skip ↔ ¬ runnable st lease call.nowMs := by
  simp only [ClaimCall.plan, planClaim, ofJson_liveJson, hjob]
  by_cases hrun : runnable st lease call.nowMs
  · rw [if_pos hrun]
    refine iff_of_false ?_ (not_not.2 hrun)
    rw [ClaimCall.policyValid, Bool.and_eq_true, Option.any_eq_true] at hpolicy
    obtain ⟨leaseUntilMs, hadd, hrange⟩ := hpolicy.2
    have hinstant : instantFromMillis leaseUntilMs = .ok ⟨leaseUntilMs, of_decide_eq_true hrange⟩ :=
      dif_pos (of_decide_eq_true hrange)
    have hseq : ¬ wrapI64 (version + 1) < 0 := by
      rw [wrapI64_of_le (by omega) (by omega)]
      omega
    rw [planClaimRunnable, if_neg hseq]
    split_ifs
    · nofun
    · simp only [hadd, hinstant]
      nofun
  · rw [if_neg hrun]
    exact iff_of_true rfl hrun

/-- The event, the stored payload and the state it stands for: the next event of the stream, and the
fold of the row's state with it, within the claim budget. -/
structure ClaimCall.Applies (call : ClaimCall) (st : JobState) (version : ℕ)
    (event : SerializedEvent) (payload : Json) : Prop where
  sequence : event.sequence = version + 1
  fold : ∃ e st', event = e.serialized call.jobId (version + 1) ∧ st.evolve e = .ok (some st') ∧
    payload = liveJson st' ∧ ∀ job, st'.fields? = some job → job.claims ≤ call.maxClaims

/-- **What a claim plans is what the fold computes.** -/
theorem ClaimCall.plan_applies (call : ClaimCall) (st : JobState) (payload : Json)
    (lease : Option ℤ) (version : ℕ)
    (hlive : Lifecycle.ofJson jobEntity payload = some (.live st)) (hv : version < i64Max) :
    (∀ event payload' leaseUntil won,
      call.plan (some ⟨version, payload, lease⟩) = .claim event payload' leaseUntil won →
        call.Applies st version event payload' ∧ leaseUntil = call.nowMs + call.leaseMs ∧
          ∃ job, st.fields? = some job ∧ won.attempt = job.attempt ∧ won.args = job.payload) ∧
    ∀ event payload', call.plan (some ⟨version, payload, lease⟩) = .abandon event payload' →
      call.Applies st version event payload' := by
  rw [call.plan_congr hlive]
  rcases call.plan_live st lease hv.le with hskip | ⟨-, job, hjob, -, ⟨-, habandon⟩ |
    ⟨hclaims, leaseUntil, hlease, hclaim⟩⟩
  · rw [hskip]
    exact ⟨nofun, nofun⟩
  · rw [habandon]
    refine ⟨nofun, fun event payload' h => ?_⟩
    obtain ⟨rfl, rfl⟩ := ClaimDecision.abandon.inj h
    exact ⟨rfl, abandonedEvent, .dead .abandoned, rfl, evolve_dead hjob _ _, rfl,
      fun _ h => by cases h⟩
  · rw [hclaim]
    refine ⟨fun event payload' leaseUntil' won h => ?_, nofun⟩
    obtain ⟨rfl, rfl, rfl, rfl⟩ := ClaimDecision.claim.inj h
    refine ⟨⟨rfl, call.event leaseUntil, _, rfl, evolve_claimed hjob _ _ _, rfl, ?_⟩, hlease, job,
      hjob, rfl, rfl⟩
    intro job' hjob'
    obtain rfl := Option.some.inj hjob'
    -- below the budget, counting one more claim does not wrap
    have hlt := UInt32.lt_iff_toNat_lt.1 hclaims
    have hbound := call.maxClaims.toNat_lt
    rw [UInt32.le_iff_toNat_le, UInt32.toNat_add, UInt32.toNat_one]
    omega

/-- A job that was due at the epoch and claimed once before. -/
def dueJob : JobState := .pending "mail" .null (.ofUInt32 0) 0 1

/-- A claim ten milliseconds long, the second and last one allowed. -/
def secondClaim : ClaimCall := ⟨"job", "worker", 5, 10, 2, "claim"⟩

theorem secondClaim_applies :
    ∃ event payload' leaseUntil won,
      secondClaim.plan (some ⟨3, liveJson dueJob, none⟩) = .claim event payload' leaseUntil won ∧
        secondClaim.Applies dueJob 3 event payload' ∧ leaseUntil = 15 := by
  have happlies := secondClaim.plan_applies dueJob (liveJson dueJob) none 3
    (ofJson_liveJson dueJob) (by decide)
  refine ⟨_, _, _, _, rfl, ?_⟩
  obtain ⟨hfold, hlease, -⟩ := happlies.1 _ _ _ _ rfl
  exact ⟨hfold, hlease⟩

/-! ## The poll and the planner agree -/

/-- The row's job is open and of this kind, and a claim under this policy would not skip it. -/
def Claimable (db : Db) (kind : JobKind) (call : ClaimCall) (id : JobId) : Prop :=
  ∃ row st job, db.jobQueue.lookup id = some row ∧
    Lifecycle.ofJson jobEntity row.payload = some (.live st) ∧ st.fields? = some job ∧
    job.kind = kind ∧ { call with jobId := id }.plan (readJobProjectionForClaim db id) ≠ .skip

/-- When the job of a row is due. -/
def dueAt (row : ViewRow) : Option ℤ :=
  match Lifecycle.ofJson jobEntity row.payload with
  | some (.live st) => st.fields?.map fun job => job.runAt.1
  | _ => none

/-- Every row holds a stored lifecycle and has a version that leaves room for one more event. -/
def QueueRows (db : Db) : Prop :=
  ∀ entry ∈ db.jobQueue.entries, (∃ l : JobLifecycle, entry.2.payload = l.toJson jobEntity) ∧
    1 ≤ entry.2.version ∧ entry.2.version < i64Max

variable {db : Db} {call : ClaimCall}

/-- The query matches a row exactly if a claim would not skip its job. -/
theorem pollPredicate_iff_claimable (hrows : QueueRows db) (hpolicy : call.policyValid)
    (kind : JobKind) {entry : QueueEntry} (hmem : entry ∈ db.jobQueue.entries) :
    (pollPredicate kind call.nowMs).holds (queueColumns entry) ↔
      Claimable db kind call entry.1 := by
  obtain ⟨id, row⟩ := entry
  obtain ⟨⟨l, hl⟩, hone, hmax⟩ := hrows _ hmem
  have hlookup : db.jobQueue.lookup id = some row := AList.mem_lookup_iff.2 hmem
  have hdecode : Lifecycle.ofJson jobEntity row.payload = some l := by
    rw [show row.payload = l.toJson jobEntity from hl]
    exact Lifecycle.ofJson_toJson jobEntity_serde l
  by_cases hlive : ∃ st, l = .live st
  · obtain ⟨st, rfl⟩ := hlive
    rw [pollPredicate_live hl]
    have hskip (job : JobFields) (hjob : st.fields? = some job) :
        { call with jobId := id }.plan (readJobProjectionForClaim db id) = .skip ↔
          ¬ runnable st row.leaseUntil call.nowMs := by
      rw [readJobProjectionForClaim, hlookup, Option.map_some, ClaimCall.plan_congr _ hdecode]
      exact ClaimCall.plan_eq_skip_iff { call with jobId := id } hpolicy hjob _
        (zero_le_one.trans hone) hmax
    constructor
    · rintro ⟨⟨job, hjob, hkind⟩, hrun⟩
      exact ⟨row, st, job, hlookup, hdecode, hjob, hkind,
        fun h => (hskip job hjob).1 h hrun⟩
    · rintro ⟨row', st', job, hlookup', hdecode', hjob, hkind, hplan⟩
      obtain rfl := Option.some.inj (hlookup.symm.trans hlookup')
      obtain rfl : st = st' := by
        have := hdecode.symm.trans hdecode'
        simpa using this
      exact ⟨⟨job, hjob, hkind⟩, not_not.1 fun h => hplan ((hskip job hjob).2 h)⟩
  · push Not at hlive
    refine iff_of_false ?_ ?_
    · rw [pollPredicate_holds_iff, queueColumns_kind_of_not_live hl hlive]
      rintro ⟨h, -⟩
      cases h
    · rintro ⟨row', st', job, hlookup', hdecode', -⟩
      obtain rfl := Option.some.inj (hlookup.symm.trans hlookup')
      exact hlive st' (Option.some.inj (hdecode.symm.trans hdecode'))

/-- The sort column of a claimable row is the due time of its job. -/
theorem queueColumns_runAt (hrows : QueueRows db) {kind : JobKind} {entry : QueueEntry}
    (hmem : entry ∈ db.jobQueue.entries) (h : Claimable db kind call entry.1) :
    ∃ millis, dueAt entry.2 = some millis ∧
      queueColumns entry "run_at" = some (.int millis) := by
  obtain ⟨id, row⟩ := entry
  obtain ⟨⟨l, hl⟩, -⟩ := hrows _ hmem
  obtain ⟨row', st, job, hlookup, hdecode, hjob, -⟩ := h
  obtain rfl : row = row' :=
    Option.some.inj ((AList.mem_lookup_iff.2 hmem).symm.trans hlookup)
  have hlive : l = .live st := by
    rw [show row.payload = l.toJson jobEntity from hl,
      Lifecycle.ofJson_toJson jobEntity_serde] at hdecode
    exact Option.some.inj hdecode
  subst hlive
  refine ⟨job.runAt.1, ?_, ?_⟩
  · simp only [dueAt, hdecode, hjob, Option.map_some]
  · rw [(queueColumns_live id hl).2.1, hjob]
    rfl

/-- A queue that holds the due job only. -/
def dueQueue : Db := Db.empty.setRow "job" ⟨3, liveJson dueJob, none⟩

end EventSorcery
