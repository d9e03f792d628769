import EventSorcery.ClaimRegistry
import EventSorcery.LeaseSafety

/-!
# Claim tokens over the job queue

The calls on one store run over the database that their claims are won in. A claim call that gets its
answer from the database wins the claim in that step and issues its token in a later one. Whatever
else changes the database, a settlement's or a renewal's own transaction included, is a step of its
own, and what those two are told is left free.
-/

namespace EventSorcery

open ClaimSystem (Pc Choice Entry Shared TokenStep Drops)

namespace TokenSystem

structure State where
  jobs : JobSystem.State
  calls : Pool Shared Pc

inductive Op where
  | transact (op : JobSystem.Op)
  | start (entry : Entry)
  | step (i : ℕ) (choice : Choice)
  /-- The claim call at position `i` runs its transaction. -/
  | claim (i : ℕ) (fault : Option SqliteJobError)

def answer : Except JobRuntimeError JobClaimResult → Choice
  | .ok result => .claimed result
  | .error _ => .fail

variable (K : CqrsEs)

/-- What an operation does; one that is not enabled does nothing. A claim draws a claim id nobody has
drawn before. -/
def step (s : State) : Op → State
  | .transact op => { s with jobs := JobSystem.step K s.jobs op }
  | .start entry => { s with calls := ClaimSystem.machine.step s.calls (.start entry) }
  | .step i choice =>
      match s.calls.threads[i]?, choice with
      | some (.claiming _ _ _), .claimed _ => s
      | _, _ => { s with calls := ClaimSystem.machine.step s.calls (.step i choice) }
  | .claim i fault =>
      match s.calls.threads[i]? with
      | some (.claiming _ call _) =>
          if call.mint ∈ s.jobs.claimIds then s
          else
            { jobs := JobSystem.step K s.jobs (.claim fault call)
              calls := ClaimSystem.machine.step s.calls
                (.step i (answer (claimJobAs fault call s.jobs.db).1)) }
      | _ => s

end TokenSystem

/-- Every interleaving of the calls on one store, over a fresh database. -/
def tokenSystem (K : CqrsEs) : Machine TokenSystem.State TokenSystem.Op :=
  ⟨⟨(jobSystem K).init, ClaimSystem.machine.init⟩, TokenSystem.step K⟩

namespace TokenSystem

def State.registry (s : State) : ClaimRegistry := s.calls.shared.registry

/-- The sequence number of the last event of a job. -/
def lastSeq (db : Db) (id : JobId) : ℕ := (db.stream (jobStream id)).maxSeq

/-- The claim is the last event of its job's stream. -/
def IsLast (db : Db) (handle : JobClaimHandle) : Prop := handle.claimSeq = lastSeq db handle.jobId

instance (db : Db) (handle : JobClaimHandle) : Decidable (IsLast db handle) :=
  inferInstanceAs (Decidable (handle.claimSeq = _))

/-- A call that issues a token finds no available token of the job whose claim is the last event. -/
def issuesInOrder (s : State) : Op → Bool
  | .step i _ =>
      match s.calls.threads[i]? with
      | some (.issue _ handle _) =>
          s.registry.retained.entries.all fun entry =>
            !(entry.2.state = .available && entry.2.handle.jobId = handle.jobId &&
              IsLast s.jobs.db entry.2.handle)
      | _ => true
  | _ => true

/-- A call at this point may end the use of `t`: by its own settlement, by its own renewal that finds
the lease lost, by an eviction at full capacity, or by a claim call on the same job after the lease
has lapsed. -/
def mayEnd (s : Shared) (t : ClaimToken) : Pc → Bool
  | .completeSettlement token _ | .retireRenewal token => token = t
  | .prepare _ call _ =>
      maxActiveClaims ≤ s.registry.retained.len + s.registry.reservations &&
        (s.registry.retained.lookup t).any fun claim => claim.isExpired call.nowMs
  | .retireExpired call =>
      (s.registry.retained.lookup t).any fun claim =>
        claim.handle.jobId = call.jobId && claim.isExpired call.nowMs
  | _ => false

/-- The operation removes `t` in one of these ways. -/
def ends (K : CqrsEs) (t : ClaimToken) (s : State) : Op → Bool
  | .step i choice =>
      s.calls.threads[i]?.any (mayEnd s.calls.shared t) &&
        ((step K s (.step i choice)).registry.retained.lookup t).isNone
  | _ => false

/-! ## What a run keeps -/

/-- The claim that the call won. -/
def won : Pc → Option JobClaimHandle
  | .issue _ handle _ | .encode _ handle | .claimed _ handle => some handle
  | _ => none

/-- The token that the call issued, and the claim it stands for. -/
def issued : Pc → Option (ClaimToken × JobClaimHandle)
  | .encode token handle | .claimed token handle => some (token, handle)
  | _ => none

structure Inv (t : ClaimToken) (s : State) : Prop where
  jobs : JobSystem.Inv s.jobs
  calls : ClaimSystem.Inv s.calls.shared s.calls.threads
  bounded : ∀ pc ∈ s.calls.threads, ∀ handle, won pc = some handle →
    handle.claimSeq ≤ lastSeq s.jobs.db handle.jobId
  retained : ∀ pc ∈ s.calls.threads, ∀ handle, issued pc = some (t, handle) →
    IsLast s.jobs.db handle → ∃ claim, s.registry.retained.lookup t = some claim ∧
      claim.handle = handle

section Steps

variable {K : CqrsEs} {s : State} {t : ClaimToken}

/-- Streams of jobs only grow. -/
theorem lastSeq_mono {jobs : JobSystem.State} (inv : JobSystem.Inv jobs) (op : JobSystem.Op)
    (id : JobId) : lastSeq jobs.db id ≤ lastSeq (JobSystem.step K jobs op).db id := by
  unfold lastSeq
  rcases inv.held id with habs | ⟨r, hr⟩
  · rw [habs.stream]
    exact Nat.zero_le _
  · obtain ⟨r', hr', hprefix⟩ := (JobSystem.step_change inv op id (K := K)).log_mono hr
    rw [hr.stream, hr'.stream, SeqLog.maxSeq_ofList_zero, SeqLog.maxSeq_ofList_zero,
      List.length_map, List.length_map]
    exact hprefix.length_le

theorem won_of_issued {pc : Pc} {handle : JobClaimHandle} (h : issued pc = some (t, handle)) :
    won pc = some handle := by
  fun_cases issued pc <;> simp_all [issued, won]

theorem Inv.transact (inv : Inv t s) (op : JobSystem.Op) :
    Inv t { s with jobs := JobSystem.step K s.jobs op } := by
  have hmono := lastSeq_mono (K := K) inv.jobs op
  refine ⟨JobSystem.inv_step inv.jobs op, inv.calls, fun pc hpc handle hwon => ?_,
    fun pc hpc handle hissued hlast => ?_⟩
  · exact (inv.bounded pc hpc handle hwon).trans (Nat.cast_le.2 (hmono _))
  · -- What is last now was last before.
    have hbound := inv.bounded pc hpc handle (won_of_issued hissued)
    refine inv.retained pc hpc handle hissued (le_antisymm hbound ?_)
    rw [show handle.claimSeq = _ from hlast]
    exact Nat.cast_le.2 (hmono _)

theorem Inv.start (inv : Inv t s) (entry : Entry) :
    Inv t { s with calls := ⟨s.calls.shared, s.calls.threads ++ [entry.pc]⟩ } := by
  have hold : ∀ pc ∈ s.calls.threads ++ [entry.pc], pc ∈ s.calls.threads ∨ won pc = none := by
    intro pc hpc
    rcases List.mem_append.1 hpc with hpc | hpc
    · exact .inl hpc
    · obtain rfl := List.mem_singleton.1 hpc
      exact .inr (by cases entry <;> rfl)
  refine ⟨inv.jobs, inv.calls.start entry, fun pc hpc handle hwon => ?_,
    fun pc hpc handle hissued => ?_⟩
  · rcases hold pc hpc with hpc | hnone
    · exact inv.bounded pc hpc handle hwon
    · rw [hnone] at hwon
      cases hwon
  · rcases hold pc hpc with hpc | hnone
    · exact inv.retained pc hpc handle hissued
    · rw [won_of_issued hissued] at hnone
      cases hnone

section Advance

variable {shared shared' : Shared} {pc pc' : Pc} {choice : Choice} {before after : List Pc}

theorem issued_of_next {handle : JobClaimHandle}
    (h : ClaimSystem.next shared pc choice = some (shared', pc'))
    (hissued : issued pc' = some (t, handle)) :
    issued pc = some (t, handle) ∨ ∃ leaseUntilMs, pc = .issue t handle leaseUntilMs ∧
      shared'.registry = shared.registry.issue t handle leaseUntilMs := by
  revert h
  fun_cases ClaimSystem.next shared pc choice <;> intro h
  all_goals first
    | cases h; done
    | obtain ⟨rfl, rfl⟩ := Prod.mk.inj (Option.some.inj h)
  all_goals first
    | cases hissued; done
    | exact .inl hissued
    | skip
  case case15 token handle leaseUntilMs =>
    obtain ⟨rfl, rfl⟩ := Prod.mk.inj (Option.some.inj hissued)
    exact .inr ⟨leaseUntilMs, rfl, rfl⟩

/-- A claim is won by the answer of the database. -/
theorem won_of_next {handle : JobClaimHandle}
    (h : ClaimSystem.next shared pc choice = some (shared', pc')) (hwon : won pc' = some handle) :
    won pc = some handle ∨ ∃ token call leaseUntilMs payload,
      pc = .claiming token call leaseUntilMs ∧ choice = .claimed (.claimed handle payload) := by
  revert h
  fun_cases ClaimSystem.next shared pc choice <;> intro h
  all_goals first
    | cases h; done
    | obtain ⟨rfl, rfl⟩ := Prod.mk.inj (Option.some.inj h)
  all_goals first
    | cases hwon; done
    | exact .inl hwon
    | skip
  case case8 token call leaseUntilMs handle payload _ _ =>
    obtain rfl := Option.some.inj hwon
    exact .inr ⟨token, call, leaseUntilMs, payload, rfl, rfl⟩

/-- The step of a call leaves the claim of an issued token retained, unless the step ends its use or
issues another token of the job. -/
theorem lookup_of_next (inv : ClaimSystem.Inv shared (before ++ pc :: after))
    (h : ClaimSystem.next shared pc choice = some (shared', pc')) {claim : RetainedClaim}
    (hclaim : shared.registry.retained.lookup t = some claim)
    (hspared : mayEnd shared t pc = true → shared'.registry.retained.lookup t ≠ none)
    (horder : ∀ token handle leaseUntilMs, pc = .issue token handle leaseUntilMs →
      claim.state = .available → claim.handle.jobId ≠ handle.jobId) :
    ∃ claim', shared'.registry.retained.lookup t = some claim' ∧ claim'.handle = claim.handle := by
  have hmem : pc ∈ before ++ pc :: after := List.mem_append_cons_self
  have hheld : ∀ {claim'}, shared.registry.retained.lookup t = some claim' → claim' = claim :=
    fun h => Option.some.inj (h.symm.trans hclaim)
  cases ClaimSystem.tokenStep_of_next (t := t) (inv.finds hmem) h with
  | same entry _ => exact ⟨claim, entry.trans hclaim, rfl⟩
  | drawn entry _ _ _ _ => exact ⟨claim, entry.trans hclaim, rfl⟩
  | issued _ hpc _ =>
      have hnone := inv.lookup_of_pending (t := t) hmem (hpc ▸ if_pos rfl)
      rw [hclaim] at hnone
      cases hnone
  | began held _ _ entry _ _ =>
      obtain rfl := hheld held
      exact ⟨_, entry, rfl⟩
  | freed held entry _ _ =>
      obtain rfl := hheld held
      exact ⟨_, entry, rfl⟩
  | retired _ entry _ why _ =>
      refine absurd entry (hspared ?_)
      rcases why with rfl | ⟨result, rfl⟩ <;> exact decide_eq_true rfl
  | dropped held why entry _ =>
      obtain rfl := hheld held
      cases why with
      | evicted full lapsed => exact absurd entry (hspared (by simp [mayEnd, full, hclaim, lapsed]))
      | lapsed job lapsed => exact absurd entry (hspared (by simp [mayEnd, hclaim, job, lapsed]))
      | replaced _ free job => exact absurd job (horder _ _ _ rfl free)

/-- A step of a call keeps the invariant, if a claim it wins is within its job's stream. -/
theorem Inv.advance {jobs : JobSystem.State} (inv : Inv t ⟨jobs, ⟨shared, before ++ pc :: after⟩⟩)
    (h : ClaimSystem.next shared pc choice = some (shared', pc'))
    (hwon : ∀ handle, won pc' = some handle →
      won pc = some handle ∨ handle.claimSeq ≤ lastSeq jobs.db handle.jobId)
    (hspared : mayEnd shared t pc = true → shared'.registry.retained.lookup t ≠ none)
    (horder : ∀ token handle leaseUntilMs, pc = .issue token handle leaseUntilMs →
      ∀ claim, shared.registry.retained.lookup t = some claim → claim.state = .available →
        claim.handle.jobId = handle.jobId → ¬ IsLast jobs.db claim.handle) :
    Inv t ⟨jobs, ⟨shared', before ++ pc' :: after⟩⟩ := by
  have hmem : pc ∈ before ++ pc :: after := List.mem_append_cons_self
  have hold : ∀ u ∈ before ++ pc' :: after, u = pc' ∨ u ∈ before ++ pc :: after := by
    intro u hu
    rcases List.mem_append.1 hu with hu | hu
    · exact .inr (List.mem_append_left _ hu)
    · rcases List.mem_cons.1 hu with rfl | hu
      · exact .inl rfl
      · exact .inr (List.mem_append_right _ (List.mem_cons_of_mem _ hu))
  -- A token that was issued before the step is still retained.
  have hkept : ∀ u ∈ before ++ pc :: after, ∀ handle, issued u = some (t, handle) →
      IsLast jobs.db handle →
        ∃ claim, shared'.registry.retained.lookup t = some claim ∧ claim.handle = handle := by
    intro u hu handle hissued hlast
    obtain ⟨claim, hclaim, rfl⟩ := inv.retained u hu handle hissued hlast
    exact lookup_of_next inv.calls h hclaim hspared fun token handle lease hpc hfree hjob =>
      horder token handle lease hpc claim hclaim hfree hjob hlast
  refine ⟨inv.jobs, inv.calls.step h, fun u hu handle hu' => ?_, fun u hu handle hissued hlast => ?_⟩
  · rcases hold u hu with rfl | hu
    · rcases hwon handle hu' with hpc | hbound
      · exact inv.bounded pc hmem handle hpc
      · exact hbound
    · exact inv.bounded u hu handle hu'
  · rcases hold u hu with rfl | hu
    · rcases issued_of_next h hissued with hpc | ⟨leaseUntilMs, rfl, hregistry⟩
      · exact hkept pc hmem handle hpc hlast
      · refine ⟨⟨handle, leaseUntilMs, .available⟩, ?_, rfl⟩
        rw [State.registry, hregistry]
        exact AList.lookup_insert _
    · exact hkept u hu handle hissued hlast

end Advance

/-- A call's step is one of the calls' own machine, unless it would make up the answer to a claim. -/
theorem step_call (i : ℕ) (choice : Choice) :
    step K s (.step i choice) = s ∨
      step K s (.step i choice) =
          { s with calls := ClaimSystem.machine.step s.calls (.step i choice) } ∧
        ∀ token call leaseUntilMs result,
          s.calls.threads[i]? = some (.claiming token call leaseUntilMs) →
          choice ≠ .claimed result := by
  dsimp only [step]
  split
  · exact .inl rfl
  · rename_i hother
    exact .inr ⟨rfl, fun token call lease result hpc hchoice => hother _ _ _ _ hpc hchoice⟩

theorem ne_none_of_not_ends {i : ℕ} {choice : Choice} {pc : Pc}
    (h : ends K t s (.step i choice) = false) (hi : s.calls.threads[i]? = some pc)
    (hends : mayEnd s.calls.shared t pc = true) :
    (step K s (.step i choice)).registry.retained.lookup t ≠ none := by
  intro hnone
  simp [ends, hi, hends, hnone] at h

theorem not_isLast_of_issuesInOrder {i : ℕ} {choice : Choice} {token : ClaimToken}
    {handle : JobClaimHandle} {leaseUntilMs : ℤ} {claim : RetainedClaim}
    (h : issuesInOrder s (.step i choice) = true)
    (hi : s.calls.threads[i]? = some (.issue token handle leaseUntilMs))
    (hclaim : s.registry.retained.lookup t = some claim) (hfree : claim.state = .available)
    (hjob : claim.handle.jobId = handle.jobId) : ¬ IsLast s.jobs.db claim.handle := by
  simp only [issuesInOrder, hi, List.all_eq_true] at h
  have hentry := h ⟨t, claim⟩ (AList.mem_lookup_iff.1 hclaim)
  simpa [hfree, hjob] using hentry

theorem Inv.stepCall (inv : Inv t s) {i : ℕ} {choice : Choice}
    (hspared : ends K t s (.step i choice) = false)
    (horder : issuesInOrder s (.step i choice) = true) : Inv t (step K s (.step i choice)) := by
  rcases step_call (K := K) (s := s) i choice with hsame | ⟨hstep, hanswer⟩
  · rwa [hsame]
  rcases Pool.step_cases s.calls (.step i choice) with
    hsame | ⟨e, he, -⟩ | ⟨before, pc, after, choice, shared', pc', hop, hthreads, hnext, hmoved⟩
  · rw [hstep, ClaimSystem.machine, hsame]
    exact inv
  · cases he
  · cases hop
    have hi : s.calls.threads[before.length]? = some pc := by rw [hthreads]; simp
    have hresult : step K s (.step before.length choice) =
        ⟨s.jobs, ⟨shared', before ++ pc' :: after⟩⟩ := by
      rw [hstep, ClaimSystem.machine, hmoved]
    have hends := ne_none_of_not_ends hspared hi
    rw [hresult] at hends ⊢
    obtain ⟨jobs, shared, threads⟩ := s
    obtain rfl : threads = before ++ pc :: after := hthreads
    refine inv.advance hnext (fun handle hwon => ?_) hends fun token handle lease hpc claim hclaim =>
      not_isLast_of_issuesInOrder horder (by rw [← hpc]; exact hi) hclaim
    rcases won_of_next hnext hwon with hpc | ⟨token, call, lease, payload, rfl, hchoice⟩
    · exact .inl hpc
    · exact absurd hchoice (hanswer token call lease _ hi)

/-- A claim that the database grants is within its job's stream. -/
theorem claimSeq_le_of_won {jobs : JobSystem.State} (inv : JobSystem.Inv jobs)
    {fault : Option SqliteJobError} {call : ClaimCall} {handle : JobClaimHandle} {payload : Json}
    (hfresh : call.mint ∉ jobs.claimIds)
    (hwon : (claimJobAs fault call jobs.db).1 = .ok (.claimed handle payload)) :
    handle.claimSeq ≤ lastSeq (JobSystem.step K jobs (.claim fault call)).db handle.jobId := by
  obtain ⟨i, attempt, r, rfl, hheld⟩ := leaseHeld_of_won (K := K) inv hfresh hwon
  obtain ⟨worker, lease, hclaim⟩ := hheld.claim
  rw [lastSeq, hheld.rep.stream, SeqLog.maxSeq_ofList_zero, List.length_map]
  exact Nat.cast_le.2 (List.getElem?_eq_some_iff.1 hclaim).1

theorem Inv.claim (inv : Inv t s) {i : ℕ} (fault : Option SqliteJobError) :
    Inv t (TokenSystem.step K s (.claim i fault)) := by
  simp only [TokenSystem.step]
  split
  · rename_i token call lease hi
    split_ifs with hmint
    · exact inv
    have inv' := inv.transact (K := K) (.claim fault call)
    rcases Pool.step_cases s.calls (.step i (answer (claimJobAs fault call s.jobs.db).1)) with
      hsame | ⟨e, he, -⟩ | ⟨before, pc, after, choice, shared', pc', hop, hthreads, hnext, hmoved⟩
    · rw [ClaimSystem.machine, hsame]
      exact inv'
    · cases he
    · cases hop
      obtain ⟨jobs, shared, threads⟩ := s
      obtain rfl : threads = before ++ pc :: after := hthreads
      obtain rfl : pc = .claiming token call lease := by simpa using hi
      rw [ClaimSystem.machine, hmoved]
      refine inv'.advance hnext (fun handle hwon => .inr ?_) (fun h => by cases h)
        fun _ _ _ h => by cases h
      rcases won_of_next hnext hwon with hpc | ⟨_, _, _, payload, -, hchoice⟩
      · cases hpc
      · cases hdb : (claimJobAs fault call jobs.db).1 with
        | error error => rw [hdb] at hchoice; cases hchoice
        | ok result =>
            rw [hdb] at hchoice
            cases hchoice
            exact claimSeq_le_of_won inv.jobs hmint hdb
  · exact inv

theorem Inv.step (inv : Inv t s) {op : Op} (hspared : ends K t s op = false)
    (horder : issuesInOrder s op = true) : Inv t (TokenSystem.step K s op) := by
  cases op with
  | transact op => exact inv.transact op
  | start entry => exact inv.start entry
  | step i choice => exact inv.stepCall hspared horder
  | claim i fault => exact inv.claim fault

end Steps

/-- The calls' own invariant holds after every run. -/
theorem calls_inv (K : CqrsEs) (ops : List Op) :
    ClaimSystem.Inv ((tokenSystem K).run ops).calls.shared
      ((tokenSystem K).run ops).calls.threads := by
  refine Machine.run_invariant (m := tokenSystem K)
    (P := fun s => ClaimSystem.Inv s.calls.shared s.calls.threads) (ClaimSystem.inv_run [])
    (fun s op inv => ?_) ops
  have hcalls : ∀ op, ClaimSystem.Inv (ClaimSystem.machine.step s.calls op).shared
      (ClaimSystem.machine.step s.calls op).threads := fun op => ClaimSystem.inv_exec inv [op]
  dsimp only [tokenSystem]
  fun_cases step K s op
  all_goals first
    | exact inv
    | dsimp only; exact hcalls _

theorem inv_init (K : CqrsEs) (t : ClaimToken) : Inv t (tokenSystem K).init :=
  ⟨jobSystem_inv K [], ClaimSystem.inv_run [], List.forall_mem_nil _, List.forall_mem_nil _⟩

/-- Issuing out of order drops the token of the job's current claim. -/
theorem dropped_of_not_issuesInOrder {K : CqrsEs} {s : State} {i : ℕ}
    (inv : ClaimSystem.Inv s.calls.shared s.calls.threads)
    (h : issuesInOrder s (.step i .proceed) = false) :
    ∃ t claim, s.registry.retained.lookup t = some claim ∧ claim.state = .available ∧
      IsLast (step K s (.step i .proceed)).jobs.db claim.handle ∧
      (step K s (.step i .proceed)).registry.retained.lookup t = none := by
  dsimp only [issuesInOrder] at h
  split at h
  · rename_i token handle lease hi
    obtain ⟨⟨t, claim⟩, hentry, hclaim⟩ := List.all_eq_false.1 h
    simp only [Bool.not_eq_true, Bool.not_eq_false', Bool.and_eq_true, decide_eq_true_eq] at hclaim
    obtain ⟨⟨hfree, hjob⟩, hlast⟩ := hclaim
    have hlookup : s.registry.retained.lookup t = some claim := AList.mem_lookup_iff.2 hentry
    have hne : token ≠ t := fun htoken => by
      have hnone := inv.lookup_of_pending (t := t) (List.mem_of_getElem? hi) (if_pos htoken)
      cases hlookup.symm.trans hnone
    have hstep : step K s (.step i .proceed) = { s with calls := ⟨{ s.calls.shared with
        registry := s.registry.issue token handle lease }, s.calls.threads.set i
          (.encode token handle)⟩ } := by
      dsimp only [step]
      rw [hi, ClaimSystem.machine, Pool.step_of_next hi rfl]
      rfl
    rw [hstep]
    refine ⟨t, claim, hlookup, hfree, hlast, (ClaimSystem.lookup_insert_of_ne hne).trans ?_⟩
    rw [Table.lookup_filterRows, hlookup]
    simp [hfree, hjob]
  · cases h

/-- In every run that issues tokens in order, a token that was returned and whose claim is still the
last event of its job is retained, and available unless its own operation is running, as long as no
step has ended its use. A step that does not issue in order drops an available token whose claim is
the last event. -/
theorem returned_token_stays_usable (K : CqrsEs) (ops : List Op)
    (horder : (tokenSystem K).Meets (fun s op => issuesInOrder s op = true) (tokenSystem K).init ops) :
    (∀ (i : ℕ) t handle,
      ((tokenSystem K).run ops).calls.threads[i]? = some (Pc.claimed t handle) →
      IsLast ((tokenSystem K).run ops).jobs.db handle →
      (tokenSystem K).Meets (fun s op => ends K t s op = false) (tokenSystem K).init ops →
      ∃ claim, ((tokenSystem K).run ops).registry.retained.lookup t = some claim ∧
        claim.handle = handle ∧ (claim.state = .available ∨
          ∃ pc ∈ ((tokenSystem K).run ops).calls.threads,
            pc.stake t = some (.operating claim.state))) ∧
    ∀ i, let s := (tokenSystem K).run ops
      issuesInOrder s (.step i .proceed) = false →
      ∃ t claim, s.registry.retained.lookup t = some claim ∧ claim.state = .available ∧
        IsLast (TokenSystem.step K s (.step i .proceed)).jobs.db claim.handle ∧
        (TokenSystem.step K s (.step i .proceed)).registry.retained.lookup t = none := by
  refine ⟨fun i t handle hi hlast hspared => ?_, fun i => ?_⟩
  · have inv : Inv t ((tokenSystem K).run ops) :=
      Machine.run_invariant_of_meets (inv_init K t)
        (fun s op inv h => inv.step h.2 h.1) (horder.and hspared)
    have hmem := List.mem_of_getElem? hi
    obtain ⟨claim, hclaim, hhandle⟩ := inv.retained _ hmem handle rfl hlast
    refine ⟨claim, hclaim, hhandle, ?_⟩
    by_cases hfree : claim.state = .available
    · exact .inl hfree
    · -- A token out of circulation belongs to the call that took it out.
      have hcount := inv.calls.operations t claim.state hfree
      have hstate : ((tokenSystem K).run ops).calls.shared.registry.stateOf t = some claim.state :=
        ClaimRegistry.stateOf_eq_some.2 ⟨claim, hclaim, rfl⟩
      rw [decide_eq_true hstate, Bool.toNat_true] at hcount
      obtain ⟨pc, hpc, hstake⟩ := List.countP_pos_iff.1 (hcount ▸ one_pos)
      exact .inr ⟨pc, hpc, of_decide_eq_true hstake⟩
  · exact dropped_of_not_issuesInOrder (calls_inv K ops)

/-! ## Two calls that claim one job -/

def firstToken : ClaimToken := Vector.replicate 16 0
def secondToken : ClaimToken := Vector.replicate 16 1

/-- A job is enqueued, and a call draws its token and wins the job at time 0 for 10 ms. -/
def firstWins : List Op :=
  [.transact (.enqueue none ⟨"j", "k", .arr [], 0⟩), .start (.claim ⟨"j", "w", 0, 10, 5, "c1"⟩),
    .step 0 (.draw firstToken), .step 0 (.walk firstToken), .claim 0 none]

/-- The call issues its token and returns it. -/
def firstReturns : List Op := firstWins ++ [.step 0 .proceed, .step 0 .proceed]

theorem first_token_is_usable :
    ∃ claim, ((tokenSystem .atMultiples).run firstReturns).registry.retained.lookup firstToken =
        some claim ∧
      claim.handle = ⟨"j", 2, "c1", 0⟩ ∧ (claim.state = .available ∨
        ∃ pc ∈ ((tokenSystem .atMultiples).run firstReturns).calls.threads,
          pc.stake firstToken = some (.operating claim.state)) :=
  (returned_token_stays_usable .atMultiples firstReturns (by decide +kernel)).1 0 firstToken
    ⟨"j", 2, "c1", 0⟩ (by decide +kernel) (by decide +kernel) (by decide +kernel)

/-- A second call wins the job after the first call's lease has lapsed, and returns its token before
the first call, which has not issued its own, goes on. -/
def secondOvertakes : List Op :=
  firstWins ++ [.start (.claim ⟨"j", "v", 100, 10, 5, "c2"⟩), .step 1 (.draw secondToken),
    .step 1 (.walk secondToken), .claim 1 none, .step 1 .proceed, .step 1 .proceed, .step 0 .proceed]

/-- The first call's token takes the place of the second's, whose claim is the last event. -/
theorem late_issue_drops_current_token :
    let s := (tokenSystem .atMultiples).run secondOvertakes
    s.calls.threads[1]? = some (.claimed secondToken ⟨"j", 3, "c2", 0⟩) ∧
      IsLast s.jobs.db ⟨"j", 3, "c2", 0⟩ ∧
      (tokenSystem .atMultiples).Meets (fun s op => ends .atMultiples secondToken s op = false)
        (tokenSystem .atMultiples).init secondOvertakes ∧
      s.registry.stateOf secondToken = none := by
  decide +kernel

end TokenSystem

end EventSorcery
