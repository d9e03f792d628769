import EventSorcery.AbiSafety
import EventSorcery.JobProgress
import EventSorcery.Responses

/-!
# How a claim call ends

`es_job_claim` wins its claim before it has seen the payload. One call is followed here, step by step,
while any other calls run on the same store between its steps: they change the database as calls of
the ABI do, and the registry of tokens in any way. A call that has won a claim ends with a token for
it, or it has settled the claim, unless the settlement failed: `won_claims_are_not_stranded`.
-/

namespace EventSorcery

namespace ClaimEnding

/-- How the call ended: the claim it won, what became of the settlement if it tried one, the claim that
the registry held for its token when it issued that, and what it returned. -/
structure Return where
  won : Option (JobClaimHandle × Json)
  settlement : Option (Except JobRuntimeError JobSettlementResult)
  issued : Option (ClaimToken × Option JobClaimHandle)
  answer : Except AbiError (List UInt8)

/-- Where the call is. -/
inductive Pc where
  | entered
  | claiming (token : ClaimToken) (jobId : JobId) (leaseUntilMs : ℤ)
  | won (token : ClaimToken) (handle : JobClaimHandle) (payload : Json) (leaseUntilMs : ℤ)
  | settling (handle : JobClaimHandle) (payload : Json) (refusal : JobRefusal)
  | committing (handle : JobClaimHandle) (payload : Json) (refusal : JobRefusal) (task : SettleTask)
  | encoding (token : ClaimToken) (answer : ClaimAnswer) (won : Option (JobClaimHandle × Json))
      (issued : Option (ClaimToken × Option JobClaimHandle))
  | returned (result : Return)

structure State where
  db : Db
  registry : ClaimRegistry
  pc : Pc

inductive Op where
  /-- Another call on the store. -/
  | other (op : AbiSystem.Op)
  /-- What other calls make of the registry. -/
  | registry (registry : ClaimRegistry)
  /-- The checks; `draw` is the random generator's answer. -/
  | enter (draw : Option ClaimToken) (pick : ClaimToken)
  | transact (fault : Option SqliteJobError) (worker : WorkerId) (mint : ClaimId)
  /-- Look at the payload. -/
  | inspect
  /-- The settlement reads its job; the read may fail. -/
  | load (fails : Bool)
  /-- The settlement's transaction, which may fail, and the queue's reactor after it. -/
  | commit (fails : Bool) (clock : ℕ → ℤ) (reacts : Bool)
  | encode

section System

variable (parseJobId : String → Option JobId) (K : CqrsEs) (wire : ClaimWire)

/-- What the call checks before it claims. -/
def claimChecks (draw : Option ClaimToken) (pick : ClaimToken) (registry : ClaimRegistry) :
    Except AbiError (ClaimToken × JobId × ℤ × ClaimRegistry) := do
  requireVersion wire.version
  requireIdentifierLimit wire.jobId.utf8ByteSize
  requireIdentifierLimit wire.workerName.utf8ByteSize
  if wire.leaseMs ≤ 0 ∨ wire.maxClaims = 0 then .error .malformedInput
  let jobId ← match parseJobId wire.jobId with
    | none => .error .jobIdentifier
    | some jobId => .ok jobId
  let leaseUntilMs ← match checkedAddI64 wire.nowMs wire.leaseMs with
    | none => .error (.state "claim lease instant overflowed")
    | some leaseUntilMs => .ok leaseUntilMs
  let token ← match draw with
    | none => .error (.state "claim token generation failed")
    | some token => .ok token
  let registry ← registry.prepareClaim wire.nowMs pick
  .ok (token, jobId, leaseUntilMs, registry)

/-- The call returns without having issued a token, and gives its reservation back. -/
def State.return (s : State) (won : Option (JobClaimHandle × Json))
    (settlement : Option (Except JobRuntimeError JobSettlementResult)) (error : AbiError) : State :=
  { s with
    registry := s.registry.releaseReservation
    pc := .returned ⟨won, settlement, none, .error error⟩ }

/-- The answer to a settlement of a claim whose payload the caller cannot be handed. -/
def unusableClaim (jobId : JobId) (refusal : JobRefusal) :
    Except JobRuntimeError JobSettlementResult → AbiError
  | .ok _ => .jobRefusal jobId refusal
  | .error error => jobRuntimeError jobId error

/-- The call returns after the settlement of a claim that it cannot hand out. -/
def State.settled (s : State) (handle : JobClaimHandle) (payload : Json) (refusal : JobRefusal)
    (verdict : SettlementVerdict) : State :=
  let result := verdict.result handle.jobId
  s.return (some (handle, payload)) (some result) (unusableClaim handle.jobId refusal result)

/-- The answer of a call that won nothing. -/
def State.answered (s : State) (token : ClaimToken) (answer : ClaimAnswer) : State :=
  { s with
    registry := s.registry.releaseReservation
    pc := .encoding token answer none none }

/-- One step; an operation that is not the call's next one does nothing. -/
def step (s : State) : Op → State
  | .other op => { s with db := AbiSystem.step parseJobId K s.db op }
  | .registry registry => { s with registry }
  | .enter draw pick =>
      match s.pc with
      | .entered =>
          match claimChecks parseJobId wire draw pick s.registry with
          | .error error => { s with pc := .returned ⟨none, none, none, .error error⟩ }
          | .ok (token, jobId, leaseUntilMs, registry) =>
              { s with registry, pc := .claiming token jobId leaseUntilMs }
      | _ => s
  | .transact fault worker mint =>
      match s.pc with
      | .claiming token jobId leaseUntilMs =>
          let call : ClaimCall := ⟨jobId, worker, wire.nowMs, wire.leaseMs, wire.maxClaims, mint⟩
          let claimed := claimJobAs fault call s.db
          let s := { s with db := claimed.2 }
          match claimed.1 with
          | .error error => s.return none none (jobRuntimeError jobId error)
          | .ok (.claimed handle payload) => { s with pc := .won token handle payload leaseUntilMs }
          | .ok .contended => s.answered token .contended
          | .ok .abandoned =>
              { s with registry := s.registry.retireExpiredClaims jobId wire.nowMs }.answered token
                .abandoned
          | .ok .skipped =>
              { s with registry := s.registry.retireExpiredClaims jobId wire.nowMs }.answered token
                .skipped
      | _ => s
  | .inspect =>
      match s.pc with
      | .won token handle payload leaseUntilMs =>
          match claimedPayloadBytes payload with
          | .error refusal => { s with pc := .settling handle payload refusal }
          | .ok bytes =>
              let registry := s.registry.issue token handle leaseUntilMs
              let held := (registry.retained.lookup token).map RetainedClaim.handle
              { s with
                registry
                pc := .encoding token (.claimed handle bytes) (some (handle, payload))
                  (some (token, held)) }
      | _ => s
  | .load fails =>
      match s.pc with
      | .settling handle payload refusal =>
          let loaded := if fails then .error .databaseConnection
            else loadAggregate jobEntity s.db handle.jobId
          match loaded with
          | .error error =>
              s.settled handle payload refusal (classifySettlement (.error error : Except _ Unit))
          | .ok ctx =>
              let command := .kill handle.claimId .undecodable refusal.text
              { s with pc := .committing handle payload refusal ⟨none, handle.jobId, command, ctx⟩ }
      | _ => s
  | .commit fails clock reacts =>
      match s.pc with
      | .committing handle payload refusal task =>
          let committed := task.commit K (if fails then some .sql else none) clock s.db
          let db :=
            if committed.1 = .applied ∧ reacts then
              committed.2.withQueue
                (reactAlone jobEntity committed.2.jobQueue task.jobId task.command.event)
            else committed.2
          { s with db }.settled handle payload refusal committed.1
      | _ => s
  | .encode =>
      match s.pc with
      | .encoding token answer won issued =>
          { s with pc := .returned ⟨won, none, issued,
            encodeResponse Wire.claimAnswer (answer.wire token)⟩ }
      | _ => s

/-- The call on a store with this database and registry. -/
def machine (db : Db) (registry : ClaimRegistry) : Machine State Op :=
  ⟨⟨db, registry, .entered⟩, step parseJobId K wire⟩

end System

/-- A call that won a claim returned a token that was retained for it with the bytes of the payload, or
its settlement of the claim was applied or fenced, or it returned the storage error that the settlement
failed with. -/
def Return.NotStranded (result : Return) : Prop :=
  ∀ handle payload, result.won = some (handle, payload) →
    (∃ token bytes, payload = .arr (bytes.map fun b => .int b.toNat) ∧
      result.issued = some (token, some handle) ∧
      result.answer = .ok (Wire.claimAnswer.bytes ((ClaimAnswer.claimed handle bytes).wire token))) ∨
    (∃ settlement refusal, result.settlement = some (.ok settlement) ∧
      result.answer = .error (.jobRefusal handle.jobId refusal)) ∨
    (result.settlement = some (.error .aggregate) ∧
      result.answer = .error (.jobRuntime .aggregate))

/-! ## Each step -/

theorem asNatBelow?_eq_some {bound n : ℕ} {j : Json} (h : j.asNatBelow? bound = some n) :
    j = .int n ∧ n < bound := by
  cases j with
  | int k =>
      simp only [Json.asNatBelow?, Json.asInt?, Option.bind_some] at h
      split_ifs at h with hk
      obtain rfl := Option.some.inj h
      exact ⟨by rw [Int.toNat_of_nonneg hk.1], hk.2⟩
  | _ => cases h

/-- The bytes handed out are the ones the payload spells. -/
theorem claimedPayloadBytes_eq_ok {payload : Json} {bytes : List UInt8}
    (h : claimedPayloadBytes payload = .ok bytes) :
    payload = .arr (bytes.map fun b => .int b.toNat) ∧ bytes.length ≤ maxPayloadBytes := by
  cases payload with
  | arr items =>
      obtain ⟨read, hread, h⟩ := Except.bind_eq_ok.1 h
      split_ifs at h with hlength
      obtain rfl := Except.ok.inj h
      refine ⟨congrArg Json.arr (List.ext_getElem? fun i => ?_), hlength⟩
      have hi := congrArg (·[i]?) (List.mapM_eq_ok.1 hread)
      simp only [List.getElem?_map] at hi ⊢
      cases hitem : items[i]? with
      | none =>
          rw [hitem, Option.map_none, eq_comm, Option.map_eq_none_iff] at hi
          rw [hi, Option.map_none]
      | some item =>
          rw [hitem, Option.map_some, eq_comm, Option.map_eq_some_iff] at hi
          obtain ⟨b, hb, hok⟩ := hi
          rw [hb, Option.map_some]
          split at hok
          next n hn =>
            obtain ⟨rfl, hlt⟩ := asNatBelow?_eq_some hn
            obtain rfl := Except.ok.inj hok
            rw [UInt8.toNat_ofNat_of_lt' hlt]
          · cases hok
  | _ => cases h

/-- The response with a claim is far from the limit. -/
theorem length_claimAnswer_le (token : ClaimToken) (handle : JobClaimHandle) {bytes : List UInt8}
    (h : bytes.length ≤ maxPayloadBytes) :
    (Wire.claimAnswer.bytes ((ClaimAnswer.claimed handle bytes).wire token)).length ≤
      maxResponseBytes := by
  have hheads := fun major n => Cbor.length_headWrites_le major n
  have hsix := hheads 4 6
  have hversion := hheads 0 (1 : UInt8).toNat
  have htag := hheads 0 (0 : UInt8).toNat
  have htoken := hheads 2 (Vector.toList token).length
  have hattempt := hheads 0 handle.attempt.toNat
  have hprior := hheads 0 handle.hasPriorExecution.toNat
  have hpayload := hheads 2 bytes.length
  have hsize : (Vector.toList token).length = 16 := Vector.length_toList
  simp only [ClaimAnswer.wire, Wire.claimAnswer, Cbor.Layout.bytes, Cbor.Layout.writes_tuple,
    Cbor.Layout.writes_pair, Cbor.Layout.writes_option_some, Cbor.Layout.writes_blob,
    Cbor.Layout.writes_u8, Cbor.Layout.writes_u32, Cbor.arrayWrites, Cbor.uintWrites,
    Cbor.bytesWrites, List.flatten_append, List.length_append, List.flatten_singleton, hsize] at *
  simp only [maxPayloadBytes, maxResponseBytes] at *
  omega

/-- No other call commits to a stream of the engine at its current version, and the settlement finds
room. -/
def Safe (s : State) : Op → Prop
  | .other op => AbiSystem.Safe s.db op
  | .load _ | .commit _ _ _ =>
      match s.pc with
      | .settling handle _ _ | .committing handle _ _ _ => JobRoom s.db handle.jobId
      | _ => True
  | _ => True

instance (s : State) : ∀ op, Decidable (Safe s op)
  | .other op => inferInstanceAs (Decidable (AbiSystem.Safe s.db op))
  | .load _ | .commit _ _ _ => by
      unfold Safe
      cases s.pc <;> infer_instance
  | .registry _ | .enter _ _ | .transact _ _ _ | .inspect | .encode =>
      inferInstanceAs (Decidable True)

/-- A settlement that has loaded its job. -/
structure Loaded (db : Db) (task : SettleTask) : Prop where
  record : ∃ r, Represents db task.jobId r ∧ task.LoadedFrom r
  snapshot : task.ctx.currentSnapshot.getD 0 < i64Max

/-- What holds where the call is. -/
def PcHolds (db : Db) : Pc → Prop
  | .won _ handle _ _ | .settling handle _ _ => ∃ r, Represents db handle.jobId r
  | .committing handle _ _ task => task.jobId = handle.jobId ∧ Loaded db task
  | .encoding token answer won issued => ∀ handle payload, won = some (handle, payload) →
      ∃ bytes, answer = .claimed handle bytes ∧ claimedPayloadBytes payload = .ok bytes ∧
        issued = some (token, some handle)
  | .returned result => result.NotStranded
  | .entered | .claiming _ _ _ => True

structure Inv (s : State) : Prop where
  intact : EngineIntact s.db
  pc : PcHolds s.db s.pc

section Steps

variable {db db' : Db} {s : State}

theorem Loaded.grow {task : SettleTask} (h : Loaded db task) (hgrows : JobGrows db db' task.jobId) :
    Loaded db' task := by
  obtain ⟨r, hr, hload⟩ := h.record
  obtain ⟨r', hr', hprefix⟩ := hgrows.represents hr
  exact ⟨⟨r', hr', hload.mono hprefix⟩, h.snapshot⟩

/-- Other calls do not disturb the call. -/
theorem PcHolds.grow {pc : Pc} (h : PcHolds db pc) (hgrows : ∀ id, JobGrows db db' id) :
    PcHolds db' pc := by
  cases pc with
  | won token handle payload leaseUntilMs =>
      obtain ⟨r, hr⟩ := h
      obtain ⟨r', hr', -⟩ := (hgrows _).represents hr
      exact ⟨r', hr'⟩
  | settling handle payload refusal =>
      obtain ⟨r, hr⟩ := h
      obtain ⟨r', hr', -⟩ := (hgrows _).represents hr
      exact ⟨r', hr'⟩
  | committing handle payload refusal task => exact ⟨h.1, h.2.grow (hgrows _)⟩
  | _ => exact h

theorem Inv.grow {registry : ClaimRegistry} (h : Inv s) (hstep : EngineStep s.db db') :
    Inv ⟨db', registry, s.pc⟩ :=
  ⟨hstep.intact, h.pc.grow hstep.grows⟩

/-- A call that returns without a claim is not one to be stranded. -/
theorem notStranded_of_none {result : Return} (h : result.won = none) : result.NotStranded := by
  intro handle payload hwon
  rw [h] at hwon
  cases hwon

/-- The three verdicts that a settlement of a job of the engine meets. -/
theorem notStranded_settled (handle : JobClaimHandle) (payload : Json) (refusal : JobRefusal)
    {verdict : SettlementVerdict} (h : verdict ≠ .rejected) :
    PcHolds db (s.settled handle payload refusal verdict).pc := by
  intro handle' payload' hwon
  obtain ⟨rfl, rfl⟩ := Prod.mk.inj (Option.some.inj hwon)
  cases verdict with
  | applied => exact .inr (.inl ⟨.applied, refusal, rfl, rfl⟩)
  | fenced => exact .inr (.inl ⟨.fenced, refusal, rfl, rfl⟩)
  | transient => exact .inr (.inr ⟨rfl, rfl⟩)
  | rejected => exact absurd rfl h

variable {parseJobId : String → Option JobId} {K : CqrsEs} {wire : ClaimWire}

theorem Inv.transact (h : Inv s) (fault : Option SqliteJobError) (worker : WorkerId)
    (mint : ClaimId) : Inv (step parseJobId K wire s (.transact fault worker mint)) := by
  unfold step
  dsimp only
  split
  next token jobId leaseUntilMs hpc =>
    let call : ClaimCall := ⟨jobId, worker, wire.nowMs, wire.leaseMs, wire.maxClaims, mint⟩
    have hstep := h.intact.claimJobAs fault call
    split
    · exact ⟨hstep.intact, notStranded_of_none rfl⟩
    next handle payload hclaimed =>
      refine ⟨hstep.intact, ?_⟩
      rcases claimJobAs_cases h.intact.held fault call with
        ⟨hnothing, -⟩ | ⟨r, out, r', -, hout, -, hrep, -⟩
      · rw [hclaimed] at hnothing
        rcases hnothing with ⟨-, hout⟩ | ⟨_, -, hout⟩ | hout | hout <;> cases hout
      · have hid : handle.jobId = jobId := by
          rw [hclaimed] at hout
          cases out with
          | won won => rw [(JobClaimResult.claimed.inj (Except.ok.inj hout)).1]
          | _ => cases hout
        refine ⟨r', ?_⟩
        rw [hid]
        exact hrep
    all_goals exact ⟨hstep.intact, fun _ _ hwon => by cases hwon⟩
  · exact h

theorem Inv.inspect (h : Inv s) : Inv (step parseJobId K wire s .inspect) := by
  unfold step
  dsimp only
  split
  next token handle payload leaseUntilMs hpc =>
    have hrep := h.pc
    rw [hpc] at hrep
    split
    · exact ⟨h.intact, hrep⟩
    next bytes hbytes =>
      refine ⟨h.intact, fun handle' payload' hwon => ?_⟩
      obtain ⟨rfl, rfl⟩ := Prod.mk.inj (Option.some.inj hwon)
      refine ⟨bytes, rfl, hbytes, ?_⟩
      rw [ClaimRegistry.issue, ClaimRegistry.releaseReservation, AList.lookup_insert]
      rfl
  · exact h

theorem Inv.load (h : Inv s) {fails : Bool} (hsafe : Safe s (.load fails)) :
    Inv (step parseJobId K wire s (.load fails)) := by
  unfold step
  dsimp only
  split
  next handle payload refusal hpc =>
    have hpcHolds := h.pc
    have hroom : JobRoom s.db handle.jobId := by simpa only [Safe, hpc] using hsafe
    rw [hpc] at hpcHolds
    obtain ⟨r, hr⟩ := hpcHolds
    cases fails with
    | true => exact ⟨h.intact, notStranded_settled handle payload refusal nofun⟩
    | false =>
        obtain ⟨version, hload, hversion⟩ := 
          loadAggregate_job hr (h.intact.sound _ _ hr.stream) hroom
        simp only [Bool.false_eq_true, if_false, hload]
        exact ⟨h.intact, rfl, ⟨r, hr, by rw [List.take_length], r.live.length_pos, le_rfl⟩, hversion⟩
  · exact h

theorem Inv.commit (h : Inv s) {fails reacts : Bool} {clock : ℕ → ℤ}
    (hsafe : Safe s (.commit fails clock reacts)) :
    Inv (step parseJobId K wire s (.commit fails clock reacts)) := by
  unfold step
  dsimp only
  split
  next handle payload refusal task hpc =>
    have hpcHolds := h.pc
    have hroom : JobRoom s.db handle.jobId := by simpa only [Safe, hpc] using hsafe
    rw [hpc] at hpcHolds
    obtain ⟨hid, ⟨r, hr, hload⟩, hsnapshot⟩ := hpcHolds
    have hlength : r.log.length < i64Max := JobRoom.length_lt (hid ▸ hroom) hr
    have hfault : ∀ error ∈ if fails then some EngineError.sql else none, error = .sql := by
      intro error herror
      split_ifs at herror
      · exact (Option.some.inj herror).symm
      · cases herror
    generalize (if fails then some EngineError.sql else none) = fault at hfault ⊢
    have hverdict := task.commit_verdict hr hload hlength hsnapshot K hfault clock
    refine ⟨?_, notStranded_settled handle payload refusal ?_⟩
    · change EngineIntact (if _ then _ else _)
      rcases task.commit_settled hr hload K fault clock with
        ⟨hne, hdb⟩ | ⟨-, r', hsettled⟩
      · rw [if_neg fun h => hne h.1, hdb]
        exact h.intact
      · have hstep := h.intact.write hsettled.write
        have hreact := reactAlone_represented hsettled.rep' hsettled.lag hsettled.missing
        split_ifs
        · rw [hreact]
          exact (hstep.intact.write (.project hsettled.rep')).intact
        · exact hstep.intact
    · rintro hrejected
      rw [hrejected] at hverdict
      rcases hverdict with h | h | ⟨h, -⟩ <;> cases h
  · exact h

theorem Inv.encode (h : Inv s) : Inv (step parseJobId K wire s .encode) := by
  unfold step
  dsimp only
  split
  next token answer won issued hpc =>
    have hpcHolds := h.pc
    rw [hpc] at hpcHolds
    refine ⟨h.intact, fun handle payload hwon => ?_⟩
    obtain ⟨bytes, rfl, hbytes, hissued⟩ := hpcHolds handle payload hwon
    obtain ⟨hpayload, hlength⟩ := claimedPayloadBytes_eq_ok hbytes
    exact .inl ⟨token, bytes, hpayload, hissued,
      encodeResponse_eq_ok.2 ⟨length_claimAnswer_le token handle hlength, rfl⟩⟩
  · exact h

theorem Inv.step {op : Op} (h : Inv s) (hsafe : Safe s op) : Inv (step parseJobId K wire s op) := by
  cases op with
  | other op => exact h.grow (AbiSystem.engineStep_step h.intact hsafe)
  | registry registry => exact ⟨h.intact, h.pc⟩
  | enter draw pick =>
      unfold ClaimEnding.step
      dsimp only
      split
      · split
        · exact ⟨h.intact, notStranded_of_none rfl⟩
        · exact ⟨h.intact, trivial⟩
      · exact h
  | transact fault worker mint => exact h.transact fault worker mint
  | inspect => exact h.inspect
  | load fails => exact h.load hsafe
  | commit fails clock reacts => exact h.commit hsafe
  | encode => exact h.encode

end Steps

/-- **No claim is stranded.** A claim call on an intact database, whatever other calls do meanwhile: if
it won a claim and has returned, it returned a token for the claim with the payload, or the claim was
settled, or the settlement failed with the storage error that was returned. -/
theorem won_claims_are_not_stranded (parseJobId : String → Option JobId) (K : CqrsEs)
    (wire : ClaimWire) {db : Db} (hdb : EngineIntact db) (registry : ClaimRegistry) (ops : List Op)
    (hsafe : (machine parseJobId K wire db registry).Meets Safe
      (machine parseJobId K wire db registry).init ops) (result : Return)
    (hreturned : ((machine parseJobId K wire db registry).run ops).pc = .returned result) :
    result.NotStranded := by
  have hinit : Inv (machine parseJobId K wire db registry).init := ⟨hdb, trivial⟩
  have hinv : Inv ((machine parseJobId K wire db registry).run ops) :=
    Machine.run_invariant_of_meets hinit (fun _ _ hs hop => hs.step hop) hsafe
  have hpc := hinv.pc
  rwa [hreturned] at hpc

/-- What the call returned, if it has. -/
def State.result? (s : State) : Option Return :=
  match s.pc with
  | .returned result => some result
  | _ => none

theorem pc_of_result? {s : State} {result : Return} (h : s.result? = some result) :
    s.pc = .returned result := by
  unfold State.result? at h
  split at h
  next hpc => rw [hpc, Option.some.inj h]
  · cases h

/-- A database with a job whose payload is no array of bytes. -/
def objectJob : Db := (enqueueJobPayload none ⟨"j", "mail", .obj [], 0⟩ .empty).2

theorem intact_objectJob : EngineIntact objectJob :=
  (AbiSystem.intact_empty.write (.of_only (enqueueJobPayload_grows AbiSystem.intact_empty.held none _)
    (enqueueJobPayload_only none _ _))).intact

def anyToken : ClaimToken := Vector.replicate 16 7

/-- The call wins the job, and then another call may run before the settlement. -/
def claimsObject (between : List Op) : List Op :=
  [.enter (some anyToken) anyToken, .transact none "w" "c", .inspect] ++ between ++
    [.load false, .commit false (fun _ => 0) true]

/-- The claim call on that database. -/
def objectCall : Machine State Op :=
  machine some .atMultiples ⟨1, "j", "w", 5, 10, 3⟩ objectJob ⟨∅, 0⟩

theorem object_claim_is_settled :
    objectCall.Meets Safe objectCall.init (claimsObject []) ∧
      ((objectCall.run (claimsObject [])).result?.map fun result =>
        (result.won, result.settlement)) =
          some (some (⟨"j", 2, "c", 0⟩, .obj []), some (.ok .applied)) ∧
      ∀ result, (objectCall.run (claimsObject [])).pc = .returned result → result.NotStranded := by
  have hsafe : objectCall.Meets Safe objectCall.init (claimsObject []) := by decide +kernel
  exact ⟨hsafe, by decide +kernel, won_claims_are_not_stranded some .atMultiples _ intact_objectJob _
    _ hsafe⟩

/-- Another call commits to the job's stream between the claim and its settlement. The settlement is
refused, and the claim is left won, without a token and without an outcome. -/
theorem commit_to_job_strands_claim :
    ∃ result, (objectCall.run (claimsObject
        [.other (.commit none (AbiSystem.commitTo "job" "j" 2))])).pc = .returned result ∧
      result.won = some (⟨"j", 2, "c", 0⟩, .obj []) ∧
      result.settlement = some (.error (.settlementRefused "j")) ∧ result.issued = none ∧
      ¬ result.NotStranded := by
  have hreturned : ((objectCall.run (claimsObject
      [.other (.commit none (AbiSystem.commitTo "job" "j" 2))])).result?.map fun result =>
        (result.won, result.settlement, result.issued.isNone)) =
          some (some (⟨"j", 2, "c", 0⟩, .obj []), some (.error (.settlementRefused "j")), true) := by
    decide +kernel
  obtain ⟨result, hresult, hfields⟩ := Option.map_eq_some_iff.1 hreturned
  obtain ⟨hwon, hsettlement, hissued⟩ := Prod.mk.inj hfields |>.imp_right Prod.mk.inj
  rw [Option.isNone_iff_eq_none] at hissued
  refine ⟨result, pc_of_result? hresult, hwon, hsettlement, hissued, fun hsafe => ?_⟩
  rcases hsafe _ _ hwon with ⟨_, _, -, h, -⟩ | ⟨_, _, h, -⟩ | ⟨h, -⟩
  · cases hissued.symm.trans h
  · cases hsettlement.symm.trans h
  · cases hsettlement.symm.trans h

end ClaimEnding

end EventSorcery
