import EventSorcery.Abi
import EventSorcery.Lib.Pool

/-!
# The claim tokens of one store

A claim call reserves a slot, wins the job in the database and only then retains the token it returns.
A renewal or a settlement takes the token out of circulation for as long as its own database call
runs, and a destructor puts it back if that call fails. The registry's lock is held for one of these
steps at a time, so that any number of calls interleave between them. The machine below has one step
for each hold of the lock and one for each database call, whose answer is free.
-/

namespace EventSorcery

def ClaimToken := Vector UInt8 16
  deriving DecidableEq

inductive ClaimState where
  | available
  | renewing
  | settling
  deriving DecidableEq, Repr

structure RetainedClaim where
  handle : JobClaimHandle
  leaseUntilMs : ℤ
  state : ClaimState

def RetainedClaim.isExpired (claim : RetainedClaim) (nowMs : ℤ) : Bool :=
  claim.state = .available && claim.leaseUntilMs < nowMs

theorem RetainedClaim.available_of_isExpired {claim : RetainedClaim} {nowMs : ℤ}
    (h : claim.isExpired nowMs = true) : claim.state = .available := by
  simp only [RetainedClaim.isExpired, Bool.and_eq_true, decide_eq_true_eq] at h
  exact h.1

structure ClaimRegistry where
  retained : Table ClaimToken RetainedClaim
  reservations : ℕ

def maxActiveClaims : ℕ := maxListItems

namespace ClaimRegistry

variable (r : ClaimRegistry)

/-- The lapsed tokens whose lease ended first. -/
def oldestExpired (nowMs : ℤ) : List ClaimToken :=
  let expired := r.retained.entries.filter fun entry => entry.2.isExpired nowMs
  (expired.filter fun entry =>
    expired.all fun other => entry.2.leaseUntilMs ≤ other.2.leaseUntilMs).map Sigma.fst

/-- Free the slot of a longest-lapsed token. The map is walked in no fixed order, so which of several
goes is up to `pick`. -/
def evictOldestExpired (nowMs : ℤ) (pick : ClaimToken) : Option ClaimRegistry :=
  let oldest := r.oldestExpired nowMs
  (if pick ∈ oldest then some pick else oldest.head?).map fun token =>
    { r with retained := r.retained.erase token }

def releaseReservation : ClaimRegistry := { r with reservations := r.reservations - 1 }

/-- Make room for one more claim, where the registry would be beyond its capacity with it. -/
def makeRoom (nowMs : ℤ) (pick : ClaimToken) (observed : ℕ) : Except AbiError ClaimRegistry :=
  if observed > maxActiveClaims then
    match r.evictOldestExpired nowMs pick with
    | none => .error (.resourceLimit "active_claims" observed maxActiveClaims)
    | some r => .ok r
  else .ok r

/-- Reserve a slot for a claim in flight. -/
def prepareClaim (nowMs : ℤ) (pick : ClaimToken) : Except AbiError ClaimRegistry :=
  match (checkedAddUsize r.retained.len r.reservations).bind fun used => checkedAddUsize used 1 with
  | none => .error (.state "active claim capacity overflowed")
  | some observed => do
      let r ← r.makeRoom nowMs pick observed
      match checkedAddUsize r.reservations 1 with
      | none => .error (.state "active claim capacity overflowed")
      | some reservations => .ok { r with reservations }

/-- Take an available token out of circulation. -/
def beginOperation (state : ClaimState) (token : ClaimToken) :
    Except AbiError (JobClaimHandle × ClaimRegistry) :=
  match (r.retained.lookup token).filter fun claim => claim.state = .available with
  | none => .error (.state "claim handle is invalid")
  | some claim =>
      .ok (claim.handle, { r with retained := r.retained.insert token { claim with state } })

def beginRenewal : ClaimToken → Except AbiError (JobClaimHandle × ClaimRegistry) :=
  r.beginOperation .renewing

def beginSettlement : ClaimToken → Except AbiError (JobClaimHandle × ClaimRegistry) :=
  r.beginOperation .settling

/-- What the destructor of an operation that did not complete does. -/
def dropOperation (state : ClaimState) (token : ClaimToken) : ClaimRegistry :=
  match (r.retained.lookup token).filter fun claim => claim.state = state with
  | none => r
  | some claim =>
      { r with retained := r.retained.insert token { claim with state := .available } }

def completeRenewal (token : ClaimToken) (leaseUntilMs : ℤ) : Except AbiError ClaimRegistry :=
  match (r.retained.lookup token).filter fun claim => claim.state = .renewing with
  | none => .error (.state "renewing claim is no longer retained")
  | some claim =>
      .ok { r with
        retained := r.retained.insert token { claim with leaseUntilMs, state := .available } }

def retireClaim (token : ClaimToken) : ClaimRegistry :=
  { r with retained := r.retained.erase token }

def retireExpiredClaims (jobId : JobId) (nowMs : ℤ) : ClaimRegistry :=
  { r with
    retained := r.retained.filterRows fun _ claim =>
      claim.handle.jobId ≠ jobId || !claim.isExpired nowMs }

/-- Retain a token as its job's only available one, and give its reservation back. -/
def issue (token : ClaimToken) (handle : JobClaimHandle) (leaseUntilMs : ℤ) : ClaimRegistry :=
  releaseReservation
    { r with
      retained := (r.retained.filterRows fun _ existing =>
        existing.state ≠ .available || existing.handle.jobId ≠ handle.jobId).insert token
          ⟨handle, leaseUntilMs, .available⟩ }

/-- The state of a token, if it is retained. -/
def stateOf (token : ClaimToken) : Option ClaimState :=
  (r.retained.lookup token).map RetainedClaim.state

/-! ## What the registry's functions do -/

section Specs

variable {r : ClaimRegistry}

theorem mem_oldestExpired {nowMs : ℤ} {t : ClaimToken} (h : t ∈ r.oldestExpired nowMs) :
    ∃ claim, r.retained.lookup t = some claim ∧ claim.isExpired nowMs = true := by
  obtain ⟨⟨_, claim⟩, hmem, rfl⟩ := List.mem_map.1 h
  obtain ⟨hentry, hexpired⟩ := List.mem_filter.1 (List.mem_filter.1 hmem).1
  exact ⟨claim, AList.mem_lookup_iff.2 hentry, hexpired⟩

theorem evictOldestExpired_eq_some {nowMs : ℤ} {pick : ClaimToken} {r' : ClaimRegistry}
    (h : r.evictOldestExpired nowMs pick = some r') :
    ∃ t claim, r.retained.lookup t = some claim ∧ claim.isExpired nowMs = true ∧
      r' = { r with retained := r.retained.erase t } := by
  obtain ⟨t, ht, rfl⟩ := Option.map_eq_some_iff.1 h
  have hmem : t ∈ r.oldestExpired nowMs := by
    split_ifs at ht with hpick
    · exact Option.some.inj ht ▸ hpick
    · exact List.mem_of_head? ht
  obtain ⟨claim, hlookup, hexpired⟩ := mem_oldestExpired hmem
  exact ⟨t, claim, hlookup, hexpired, rfl⟩

/-- A slot is free, or the registry is full and a lapsed token's slot becomes free. -/
theorem prepareClaim_eq_ok {nowMs : ℤ} {pick : ClaimToken} {r' : ClaimRegistry}
    (h : r.prepareClaim nowMs pick = .ok r') :
    (r.retained.len + r.reservations < maxActiveClaims ∧
        r' = { r with reservations := r.reservations + 1 }) ∨
      maxActiveClaims ≤ r.retained.len + r.reservations ∧ ∃ t claim, r.retained.lookup t = some claim ∧
        claim.isExpired nowMs = true ∧
        r' = { retained := r.retained.erase t, reservations := r.reservations + 1 } := by
  unfold prepareClaim at h
  split at h
  · cases h
  rename_i observed hobserved
  obtain ⟨used, hused, hone⟩ := Option.bind_eq_some_iff.1 hobserved
  obtain ⟨rfl, -⟩ := checkedAddUsize_eq_some.1 hused
  obtain ⟨rfl, -⟩ := checkedAddUsize_eq_some.1 hone
  obtain ⟨r₁, hroom, hreserve⟩ := Except.bind_eq_ok.1 h
  split at hreserve
  · cases hreserve
  rename_i reservations hadd
  obtain ⟨rfl, -⟩ := checkedAddUsize_eq_some.1 hadd
  obtain rfl := Except.ok.inj hreserve
  unfold makeRoom at hroom
  split_ifs at hroom with hfull
  · split at hroom
    · cases hroom
    rename_i r₂ hevict
    obtain rfl := Except.ok.inj hroom
    obtain ⟨t, claim, hlookup, hexpired, rfl⟩ := evictOldestExpired_eq_some hevict
    exact .inr ⟨Nat.lt_succ_iff.1 hfull, t, claim, hlookup, hexpired, rfl⟩
  · obtain rfl := Except.ok.inj hroom
    exact .inl ⟨Nat.succ_le_iff.1 (not_lt.1 hfull), rfl⟩

theorem beginOperation_eq_ok {state : ClaimState} {t : ClaimToken} {handle : JobClaimHandle}
    {r' : ClaimRegistry} (h : r.beginOperation state t = .ok (handle, r')) :
    ∃ claim, r.retained.lookup t = some claim ∧ claim.state = .available ∧ handle = claim.handle ∧
      r' = { r with retained := r.retained.insert t { claim with state } } := by
  unfold beginOperation at h
  split at h
  · cases h
  · rename_i claim hclaim
    obtain ⟨hlookup, hstate⟩ := Option.filter_eq_some_iff.1 hclaim
    obtain ⟨rfl, rfl⟩ := Prod.mk.inj (Except.ok.inj h)
    exact ⟨claim, hlookup, of_decide_eq_true hstate, rfl, rfl⟩

theorem dropOperation_of_lookup {t : ClaimToken} {claim : RetainedClaim}
    (h : r.retained.lookup t = some claim) : r.dropOperation claim.state t =
      { r with retained := r.retained.insert t { claim with state := .available } } := by
  have hfilter : (r.retained.lookup t).filter (fun c => c.state = claim.state) = some claim :=
    Option.filter_eq_some_iff.2 ⟨h, decide_eq_true rfl⟩
  simp only [dropOperation, hfilter]

theorem completeRenewal_of_lookup {t : ClaimToken} {claim : RetainedClaim}
    (h : r.retained.lookup t = some claim) (hstate : claim.state = .renewing) (leaseUntilMs : ℤ) :
    r.completeRenewal t leaseUntilMs = .ok { r with
      retained := r.retained.insert t { claim with leaseUntilMs, state := .available } } := by
  have hfilter : (r.retained.lookup t).filter (fun c => c.state = .renewing) = some claim :=
    Option.filter_eq_some_iff.2 ⟨h, decide_eq_true hstate⟩
  simp only [completeRenewal, hfilter]

theorem stateOf_eq_some {t : ClaimToken} {state : ClaimState} :
    r.stateOf t = some state ↔ ∃ claim, r.retained.lookup t = some claim ∧ claim.state = state :=
  Option.map_eq_some_iff

end Specs

end ClaimRegistry

/-! ## The calls -/

namespace ClaimSystem

/-- Where a call is. A name says what the call does next, up to the names of what it returned. -/
inductive Pc where
  -- `es_job_claim`; `release` is the destructor of the reservation.
  | claim (call : ClaimCall)
  | prepare (token : ClaimToken) (call : ClaimCall) (leaseUntilMs : ℤ)
  | claiming (token : ClaimToken) (call : ClaimCall) (leaseUntilMs : ℤ)
  | issue (token : ClaimToken) (handle : JobClaimHandle) (leaseUntilMs : ℤ)
  | deadLetter
  | retireExpired (call : ClaimCall)
  | release
  | encode (token : ClaimToken) (handle : JobClaimHandle)
  | claimed (token : ClaimToken) (handle : JobClaimHandle)
  -- `es_job_renew`
  | renew (token : ClaimToken) (newLeaseUntilMs : ℤ)
  | renewing (token : ClaimToken) (handle : JobClaimHandle) (newLeaseUntilMs : ℤ)
  | completeRenewal (token : ClaimToken) (newLeaseUntilMs : ℤ)
  | retireRenewal (token : ClaimToken)
  | dropRenewal (token : ClaimToken)
  | renewed (token : ClaimToken) (result : LeaseRenewal)
  -- `settle_claim_with`
  | settle (token : ClaimToken)
  | settling (token : ClaimToken) (handle : JobClaimHandle)
  | completeSettlement (token : ClaimToken) (result : JobSettlementResult)
  | dropSettlement (token : ClaimToken)
  | settled (token : ClaimToken) (result : JobSettlementResult)
  -- The call returned an error, or an answer that hands out no token.
  | ended
  deriving DecidableEq

/-- What a step meets from outside. -/
inductive Choice where
  | proceed
  /-- The operation fails or unwinds. -/
  | fail
  /-- The random generator's answer. -/
  | draw (token : ClaimToken)
  /-- Which of the longest-lapsed tokens the map's walk meets first. -/
  | walk (pick : ClaimToken)
  | claimed (result : JobClaimResult)
  | renewed (result : LeaseRenewal)
  | settled (result : JobSettlementResult)

/-- The registry, and the tokens drawn so far. -/
structure Shared where
  registry : ClaimRegistry
  drawn : List ClaimToken

variable (s : Shared)

/-- One step of a call; `none` where the choice is not one that the step can meet. -/
def next : Pc → Choice → Option (Shared × Pc)
  | .claim call, .draw token =>
      match checkedAddI64 call.nowMs call.leaseMs with
      | none => some (s, .ended)
      | some leaseUntilMs =>
          if token ∈ s.drawn then none
          else some ({ s with drawn := token :: s.drawn }, .prepare token call leaseUntilMs)
  | .claim _, .fail => some (s, .ended)
  | .prepare token call leaseUntilMs, .walk pick =>
      match s.registry.prepareClaim call.nowMs pick with
      | .error _ => some (s, .ended)
      | .ok registry => some ({ s with registry }, .claiming token call leaseUntilMs)
  | .claiming token _ leaseUntilMs, .claimed (.claimed handle payload) =>
      match claimedPayloadBytes payload with
      | .error _ => some (s, .deadLetter)
      | .ok _ => some (s, .issue token handle leaseUntilMs)
  | .claiming _ call _, .claimed .abandoned => some (s, .retireExpired call)
  | .claiming _ _ _, .claimed .contended => some (s, .release)
  | .claiming _ call _, .claimed .skipped => some (s, .retireExpired call)
  | .claiming _ _ _, .fail => some (s, .release)
  | .deadLetter, .settled _ => some (s, .release)
  | .deadLetter, .fail => some (s, .release)
  | .issue token handle leaseUntilMs, .proceed =>
      some ({ s with registry := s.registry.issue token handle leaseUntilMs }, .encode token handle)
  | .retireExpired call, .proceed =>
      some ({ s with registry := s.registry.retireExpiredClaims call.jobId call.nowMs }, .release)
  | .release, .proceed => some ({ s with registry := s.registry.releaseReservation }, .ended)
  | .encode token handle, .proceed => some (s, .claimed token handle)
  | .encode _ _, .fail => some (s, .ended)
  | .renew token newLeaseUntilMs, .proceed =>
      match s.registry.beginRenewal token with
      | .error _ => some (s, .ended)
      | .ok (handle, registry) => some ({ s with registry }, .renewing token handle newLeaseUntilMs)
  | .renewing token _ newLeaseUntilMs, .renewed .held =>
      some (s, .completeRenewal token newLeaseUntilMs)
  | .renewing token _ _, .renewed .lost => some (s, .retireRenewal token)
  | .renewing token _ _, .fail => some (s, .dropRenewal token)
  | .completeRenewal token newLeaseUntilMs, .proceed =>
      match s.registry.completeRenewal token newLeaseUntilMs with
      | .error _ => some (s, .dropRenewal token)
      | .ok registry => some ({ s with registry }, .renewed token .held)
  | .retireRenewal token, .proceed =>
      some ({ s with registry := s.registry.retireClaim token }, .renewed token .lost)
  | .dropRenewal token, .proceed =>
      some ({ s with registry := s.registry.dropOperation .renewing token }, .ended)
  | .settle token, .proceed =>
      match s.registry.beginSettlement token with
      | .error _ => some (s, .ended)
      | .ok (handle, registry) => some ({ s with registry }, .settling token handle)
  | .settling token _, .settled result => some (s, .completeSettlement token result)
  | .settling token _, .fail => some (s, .dropSettlement token)
  | .completeSettlement token result, .proceed =>
      some ({ s with registry := s.registry.retireClaim token }, .settled token result)
  | .dropSettlement token, .proceed =>
      some ({ s with registry := s.registry.dropOperation .settling token }, .ended)
  | _, _ => none

/-- The calls that threads make. -/
inductive Entry where
  | claim (call : ClaimCall)
  | renew (token : ClaimToken) (newLeaseUntilMs : ℤ)
  | settle (token : ClaimToken)

def Entry.pc : Entry → Pc
  | .claim call => .claim call
  | .renew token newLeaseUntilMs => .renew token newLeaseUntilMs
  | .settle token => .settle token

/-- Any number of calls on one store. -/
def machine : Machine (Pool Shared Pc) (Pool.Op Entry Choice) :=
  Pool.machine ⟨⟨∅, 0⟩, []⟩ Entry.pc next

/-! ## What one step does -/

/-- What a call has to do with a token. -/
inductive Stake where
  /-- It has drawn the token and may still issue it. -/
  | pending
  /-- It has taken the token out of circulation. -/
  | operating (state : ClaimState)
  /-- It has settled the claim. -/
  | settled
  deriving DecidableEq

namespace Pc

/-- The call has a reservation. -/
def holdsReservation : Pc → Bool
  | claiming _ _ _ | issue _ _ _ | deadLetter | retireExpired _ | release => true
  | _ => false

def stake (t : ClaimToken) : Pc → Option Stake
  | prepare token _ _ | claiming token _ _ | issue token _ _ =>
      if token = t then some .pending else none
  | renewing token _ _ | completeRenewal token _ | retireRenewal token | dropRenewal token =>
      if token = t then some (.operating .renewing) else none
  | settling token _ | completeSettlement token _ | dropSettlement token =>
      if token = t then some (.operating .settling) else none
  | settled token _ => if token = t then some .settled else none
  | _ => none

end Pc

/-- The call retires the token it operates on. -/
def Pc.Retires (t : ClaimToken) (pc : Pc) : Prop :=
  pc = .retireRenewal t ∨ ∃ result, pc = .completeSettlement t result

/-- Why a call at a point of its program drops an available token that it has no stake in. -/
inductive Drops (s : Shared) (t : ClaimToken) (claim : RetainedClaim) : Pc → Prop where
  | evicted {token : ClaimToken} {call : ClaimCall} {leaseUntilMs : ℤ}
      (full : maxActiveClaims ≤ s.registry.retained.len + s.registry.reservations)
      (lapsed : claim.isExpired call.nowMs = true) :
      Drops s t claim (.prepare token call leaseUntilMs)
  | lapsed {call : ClaimCall} (job : claim.handle.jobId = call.jobId)
      (lapsed : claim.isExpired call.nowMs = true) : Drops s t claim (.retireExpired call)
  | replaced {token : ClaimToken} {handle : JobClaimHandle} {leaseUntilMs : ℤ} (other : t ≠ token)
      (free : claim.state = .available) (job : claim.handle.jobId = handle.jobId) :
      Drops s t claim (.issue token handle leaseUntilMs)

/-- What a step of a call, from `pc` to `pc'`, does to the token `t`. -/
inductive TokenStep (s s' : Shared) (pc pc' : Pc) (t : ClaimToken) : Prop where
  | same (entry : s'.registry.retained.lookup t = s.registry.retained.lookup t)
      (stake : pc'.stake t = pc.stake t ∨ pc.stake t = some .pending ∧ pc'.stake t = none)
  | drawn (entry : s'.registry.retained.lookup t = s.registry.retained.lookup t)
      (fresh : t ∉ s.drawn) (drawn : t ∈ s'.drawn) (before : pc.stake t = none)
      (after : pc'.stake t = some .pending)
  | issued {handle : JobClaimHandle} {leaseUntilMs : ℤ}
      (entry : s'.registry.retained.lookup t = some ⟨handle, leaseUntilMs, .available⟩)
      (before : pc = .issue t handle leaseUntilMs) (after : pc' = .encode t handle)
  | began {claim : RetainedClaim} {state : ClaimState}
      (held : s.registry.retained.lookup t = some claim)
      (free : claim.state = .available) (busy : state ≠ .available)
      (entry : s'.registry.retained.lookup t = some { claim with state })
      (before : pc.stake t = none) (after : pc'.stake t = some (.operating state))
  | freed {claim : RetainedClaim} {leaseUntilMs : ℤ}
      (held : s.registry.retained.lookup t = some claim)
      (entry : s'.registry.retained.lookup t = some ⟨claim.handle, leaseUntilMs, .available⟩)
      (before : pc.stake t = some (.operating claim.state)) (after : pc'.stake t = none)
  | retired {claim : RetainedClaim} (held : s.registry.retained.lookup t = some claim)
      (entry : s'.registry.retained.lookup t = none)
      (before : pc.stake t = some (.operating claim.state)) (why : pc.Retires t)
      (after : pc'.stake t = none ∨ pc'.stake t = some .settled)
  | dropped {claim : RetainedClaim} (held : s.registry.retained.lookup t = some claim)
      (why : Drops s t claim pc) (entry : s'.registry.retained.lookup t = none)
      (stake : pc'.stake t = pc.stake t ∨ pc.stake t = some .pending ∧ pc'.stake t = none)

theorem Drops.available {s : Shared} {t : ClaimToken} {claim : RetainedClaim} {pc : Pc}
    (h : Drops s t claim pc) : claim.state = .available := by
  cases h with
  | evicted _ lapsed => exact RetainedClaim.available_of_isExpired lapsed
  | lapsed _ lapsed => exact RetainedClaim.available_of_isExpired lapsed
  | replaced _ free _ => exact free

section Steps

variable {s s' : Shared} {pc pc' : Pc} {choice : Choice} {t : ClaimToken}

/-- A step that takes a token out of circulation or puts it back leaves the others alone. -/
theorem lookup_insert_of_ne {r : Table ClaimToken RetainedClaim} {token : ClaimToken}
    {claim : RetainedClaim} (h : token ≠ t) : (r.insert token claim).lookup t = r.lookup t :=
  AList.lookup_insert_ne h.symm

theorem tokenStep_of_prepare {call : ClaimCall} {token pick : ClaimToken} {leaseUntilMs : ℤ}
    {registry : ClaimRegistry} (h : s.registry.prepareClaim call.nowMs pick = .ok registry) :
    TokenStep s { s with registry } (.prepare token call leaseUntilMs)
      (.claiming token call leaseUntilMs) t := by
  rcases ClaimRegistry.prepareClaim_eq_ok h with ⟨-, rfl⟩ | ⟨hfull, u, claim, hu, hexpired, rfl⟩
  · exact .same rfl (.inl rfl)
  · by_cases hut : u = t
    · subst hut
      exact .dropped hu (.evicted hfull hexpired) (AList.lookup_erase _ _) (.inl rfl)
    · exact .same (AList.lookup_erase_ne (Ne.symm hut)) (.inl rfl)

theorem tokenStep_of_retireExpired {call : ClaimCall} :
    TokenStep s { s with registry := s.registry.retireExpiredClaims call.jobId call.nowMs }
      (.retireExpired call) .release t := by
  have hlookup := Table.lookup_filterRows (fun _ (claim : RetainedClaim) =>
    claim.handle.jobId ≠ call.jobId || !claim.isExpired call.nowMs) s.registry.retained t
  cases hentry : s.registry.retained.lookup t with
  | none => exact .same (hlookup.trans (by rw [hentry]; rfl)) (.inl rfl)
  | some claim =>
      rw [hentry, Option.filter_some] at hlookup
      split_ifs at hlookup with hkeep
      · exact .same (hlookup.trans hentry.symm) (.inl rfl)
      · simp only [Bool.or_eq_true, not_or, Bool.not_eq_true, Bool.not_eq_false',
          decide_eq_false_iff_not, not_not] at hkeep
        exact .dropped hentry (.lapsed hkeep.1 hkeep.2) hlookup (.inl rfl)

theorem tokenStep_of_issue {token : ClaimToken} {handle : JobClaimHandle} {leaseUntilMs : ℤ} :
    TokenStep s { s with registry := s.registry.issue token handle leaseUntilMs }
      (.issue token handle leaseUntilMs) (.encode token handle) t := by
  by_cases htoken : token = t
  · subst htoken
    exact .issued (AList.lookup_insert _) rfl rfl
  have hstake : (Pc.issue token handle leaseUntilMs).stake t = none := if_neg htoken
  have hlookup := Table.lookup_filterRows (fun _ (existing : RetainedClaim) =>
    existing.state ≠ .available || existing.handle.jobId ≠ handle.jobId) s.registry.retained t
  have hentry' : (s.registry.issue token handle leaseUntilMs).retained.lookup t = _ :=
    (lookup_insert_of_ne htoken).trans hlookup
  cases hentry : s.registry.retained.lookup t with
  | none => exact .same (hentry'.trans (by rw [hentry]; rfl)) (.inl hstake.symm)
  | some claim =>
      rw [hentry, Option.filter_some] at hentry'
      split_ifs at hentry' with hkeep
      · exact .same (hentry'.trans hentry.symm) (.inl hstake.symm)
      · simp only [Bool.or_eq_true, not_or, decide_eq_true_eq, not_not] at hkeep
        exact .dropped hentry (.replaced (Ne.symm htoken) hkeep.1 hkeep.2) hentry' (.inl hstake.symm)

/-- A call takes a token out of circulation. -/
theorem tokenStep_of_begin {state : ClaimState} {token : ClaimToken} {handle : JobClaimHandle}
    {registry : ClaimRegistry} (h : s.registry.beginOperation state token = .ok (handle, registry))
    (hbusy : state ≠ .available) (hpc : pc.stake t = none)
    (hpc' : pc'.stake t = if token = t then some (.operating state) else none) :
    TokenStep s { s with registry } pc pc' t := by
  obtain ⟨claim, hclaim, hfree, -, rfl⟩ := ClaimRegistry.beginOperation_eq_ok h
  by_cases htoken : token = t
  · subst htoken
    rw [if_pos rfl] at hpc'
    exact .began hclaim hfree hbusy (AList.lookup_insert _) hpc hpc'
  · rw [if_neg htoken] at hpc'
    exact .same (lookup_insert_of_ne htoken) (.inl (hpc'.trans hpc.symm))

/-- A call puts the token it operates on back. -/
theorem tokenStep_of_free {token : ClaimToken} {claim : RetainedClaim} {leaseUntilMs : ℤ}
    (hclaim : s.registry.retained.lookup token = some claim)
    (hpc : pc.stake t = if token = t then some (.operating claim.state) else none)
    (hpc' : pc'.stake t = none) :
    TokenStep s { s with registry := { s.registry with
      retained := s.registry.retained.insert token ⟨claim.handle, leaseUntilMs, .available⟩ } }
      pc pc' t := by
  by_cases htoken : token = t
  · subst htoken
    rw [if_pos rfl] at hpc
    exact .freed hclaim (AList.lookup_insert _) hpc hpc'
  · rw [if_neg htoken] at hpc
    exact .same (lookup_insert_of_ne htoken) (.inl (hpc'.trans hpc.symm))

/-- A call retires the token it operates on. -/
theorem tokenStep_of_retire {token : ClaimToken} {claim : RetainedClaim} {ending : Option Stake}
    (hclaim : s.registry.retained.lookup token = some claim) (hretires : pc.Retires token)
    (hpc : pc.stake t = if token = t then some (.operating claim.state) else none)
    (hpc' : pc'.stake t = if token = t then ending else none)
    (hending : ending = none ∨ ending = some .settled) :
    TokenStep s { s with registry := s.registry.retireClaim token } pc pc' t := by
  by_cases htoken : token = t
  · subst htoken
    rw [if_pos rfl] at hpc hpc'
    exact .retired hclaim (AList.lookup_erase _ _) hpc hretires (hpc'.symm ▸ hending)
  · rw [if_neg htoken] at hpc hpc'
    exact .same (AList.lookup_erase_ne (Ne.symm htoken)) (.inl (hpc'.trans hpc.symm))

/-- The tokens that a call operates on are as it left them. -/
def Finds (s : Shared) (pc : Pc) : Prop :=
  ∀ t state, pc.stake t = some (.operating state) →
    ∃ claim, s.registry.retained.lookup t = some claim ∧ claim.state = state

theorem stake_pending_or_none {token : ClaimToken} :
    (none : Option Stake) = (if token = t then some .pending else none) ∨
      (if token = t then some Stake.pending else none) = some .pending ∧
        (none : Option Stake) = none := by
  split_ifs
  · exact .inr ⟨rfl, rfl⟩
  · exact .inl rfl

/-- What a step of a call does to a token. -/
theorem tokenStep_of_next (hfinds : Finds s pc) (h : next s pc choice = some (s', pc')) :
    TokenStep s s' pc pc' t := by
  revert h
  fun_cases next s pc choice <;> intro h
  all_goals first
    | cases h; done
    | obtain ⟨rfl, rfl⟩ := Prod.mk.inj (Option.some.inj h)
  all_goals first
    | exact .same rfl (.inl rfl)
    | exact .same rfl stake_pending_or_none
    | skip
  case case3 call token leaseUntilMs _ hfresh =>
    by_cases htoken : token = t
    · subst htoken
      exact .drawn rfl hfresh List.mem_cons_self rfl (if_pos rfl)
    · exact .same rfl (.inl (if_neg htoken))
  case case6 hprepare => exact tokenStep_of_prepare hprepare
  case case15 => exact tokenStep_of_issue
  case case16 => exact tokenStep_of_retireExpired
  case case21 hbegin => exact tokenStep_of_begin hbegin nofun rfl rfl
  case case26 token leaseUntilMs registry hcomplete =>
    obtain ⟨claim, hclaim, hstate⟩ := hfinds token _ (if_pos rfl)
    rw [ClaimRegistry.completeRenewal_of_lookup hclaim hstate] at hcomplete
    cases hcomplete
    exact tokenStep_of_free hclaim (by rw [hstate]; rfl) rfl
  case case27 token =>
    obtain ⟨claim, hclaim, hstate⟩ := hfinds token _ (if_pos rfl)
    exact tokenStep_of_retire hclaim (.inl rfl) (by rw [hstate]; rfl) (ite_self _).symm (.inl rfl)
  case case28 token =>
    obtain ⟨claim, hclaim, hstate⟩ := hfinds token _ (if_pos rfl)
    rw [← hstate, ClaimRegistry.dropOperation_of_lookup hclaim]
    exact tokenStep_of_free hclaim (by rw [hstate]; rfl) rfl
  case case30 hbegin => exact tokenStep_of_begin hbegin nofun rfl rfl
  case case33 token result =>
    obtain ⟨claim, hclaim, hstate⟩ := hfinds token _ (if_pos rfl)
    exact tokenStep_of_retire hclaim (.inr ⟨result, rfl⟩) (by rw [hstate]; rfl) rfl (.inr rfl)
  case case34 token =>
    obtain ⟨claim, hclaim, hstate⟩ := hfinds token _ (if_pos rfl)
    rw [← hstate, ClaimRegistry.dropOperation_of_lookup hclaim]
    exact tokenStep_of_free hclaim (by rw [hstate]; rfl) rfl

/-- The slots that a step takes and gives back. -/
theorem slots_of_next (hfinds : Finds s pc)
    (hreserved : pc.holdsReservation = true → 0 < s.registry.reservations)
    (hcapacity : s.registry.retained.len + s.registry.reservations ≤ maxActiveClaims)
    (h : next s pc choice = some (s', pc')) :
    s'.registry.reservations + pc.holdsReservation.toNat =
        s.registry.reservations + pc'.holdsReservation.toNat ∧
      s'.registry.retained.len + s'.registry.reservations ≤ maxActiveClaims := by
  -- Most steps keep the reservations and do not grow the table.
  have hkeeps : ∀ {retained : Table ClaimToken RetainedClaim},
      retained.len ≤ s.registry.retained.len →
        retained.len + s.registry.reservations ≤ maxActiveClaims :=
    fun hlen => (Nat.add_le_add_right hlen _).trans hcapacity
  revert h
  fun_cases next s pc choice <;> intro h
  all_goals first
    | cases h; done
    | obtain ⟨rfl, rfl⟩ := Prod.mk.inj (Option.some.inj h)
  all_goals first
    | exact ⟨rfl, hcapacity⟩
    | exact ⟨rfl, hkeeps (Table.len_erase_le _ _)⟩
    | exact ⟨rfl, hkeeps (Table.len_filterRows_le _ _)⟩
    | skip
  case case6 token call leaseUntilMs pick registry hprepare =>
    rcases ClaimRegistry.prepareClaim_eq_ok hprepare with ⟨hroom, rfl⟩ | ⟨-, u, claim, hu, -, rfl⟩
    · exact ⟨rfl, hroom⟩
    · have hlen := Table.len_erase hu
      exact ⟨rfl, by dsimp only; omega⟩
  case case15 token handle leaseUntilMs =>
    have hpos := hreserved rfl
    have hlen : (s.registry.issue token handle leaseUntilMs).retained.len ≤
        s.registry.retained.len + 1 :=
      (Table.len_insert_le _ _ _).trans (Nat.succ_le_succ (Table.len_filterRows_le _ _))
    refine ⟨Nat.sub_add_cancel hpos, ?_⟩
    change _ + (s.registry.reservations - 1) ≤ _
    dsimp only
    omega
  case case17 =>
    have hpos := hreserved rfl
    exact ⟨Nat.sub_add_cancel hpos, (Nat.add_le_add_left (Nat.sub_le _ _) _).trans hcapacity⟩
  case case21 token leaseUntilMs handle registry hbegin =>
    obtain ⟨claim, hclaim, -, -, rfl⟩ := ClaimRegistry.beginOperation_eq_ok hbegin
    exact ⟨rfl, hkeeps (Table.len_insert_of_lookup hclaim _).le⟩
  case case26 token leaseUntilMs registry hcomplete =>
    obtain ⟨claim, hclaim, hstate⟩ := hfinds token _ (if_pos rfl)
    rw [ClaimRegistry.completeRenewal_of_lookup hclaim hstate] at hcomplete
    cases hcomplete
    exact ⟨rfl, hkeeps (Table.len_insert_of_lookup hclaim _).le⟩
  case case28 token =>
    obtain ⟨claim, hclaim, hstate⟩ := hfinds token _ (if_pos rfl)
    rw [← hstate, ClaimRegistry.dropOperation_of_lookup hclaim]
    exact ⟨rfl, hkeeps (Table.len_insert_of_lookup hclaim _).le⟩
  case case30 token handle registry hbegin =>
    obtain ⟨claim, hclaim, -, -, rfl⟩ := ClaimRegistry.beginOperation_eq_ok hbegin
    exact ⟨rfl, hkeeps (Table.len_insert_of_lookup hclaim _).le⟩
  case case34 token =>
    obtain ⟨claim, hclaim, hstate⟩ := hfinds token _ (if_pos rfl)
    rw [← hstate, ClaimRegistry.dropOperation_of_lookup hclaim]
    exact ⟨rfl, hkeeps (Table.len_insert_of_lookup hclaim _).le⟩

theorem drawn_of_next (h : next s pc choice = some (s', pc')) : s.drawn ⊆ s'.drawn := by
  revert h
  fun_cases next s pc choice <;> intro h
  all_goals first
    | cases h; done
    | obtain ⟨rfl, rfl⟩ := Prod.mk.inj (Option.some.inj h)
  all_goals first
    | exact List.Subset.refl _
    | exact List.subset_cons_self _ _

end Steps

/-! ## The invariant -/

/-- The laws of the registry: how full it is, and how many calls have a stake in a token. -/
structure Inv (s : Shared) (threads : List Pc) : Prop where
  capacity : s.registry.retained.len + s.registry.reservations ≤ maxActiveClaims
  reservations : threads.countP Pc.holdsReservation = s.registry.reservations
  operations : ∀ t state, state ≠ .available →
    threads.countP (fun pc => pc.stake t = some (.operating state)) =
      (decide (s.registry.stateOf t = some state)).toNat
  once : ∀ t, threads.countP (fun pc => pc.stake t = some .pending) +
    (s.registry.retained.lookup t).isSome.toNat +
      threads.countP (fun pc => pc.stake t = some .settled) ≤ (decide (t ∈ s.drawn)).toNat

section Invariant

variable {s s' : Shared} {pc pc' : Pc} {choice : Choice} {t : ClaimToken}
  {threads before after : List Pc}

theorem ne_available_of_stake {state : ClaimState} (h : pc.stake t = some (.operating state)) :
    state ≠ .available := by
  rintro rfl
  revert h
  fun_cases Pc.stake t pc <;> simp

theorem Inv.finds (inv : Inv s threads) (hpc : pc ∈ threads) : Finds s pc := by
  intro t state hstake
  have hcount := inv.operations t state (ne_available_of_stake hstake)
  exact ClaimRegistry.stateOf_eq_some.1
    (of_decide_eq_true (Pool.eq_true_of_mem hcount hpc (decide_eq_true hstake)))

theorem Inv.reserved (inv : Inv s threads) (hpc : pc ∈ threads)
    (hholds : pc.holdsReservation = true) : 0 < s.registry.reservations := by
  rw [← inv.reservations]
  exact List.countP_pos_iff.2 ⟨pc, hpc, hholds⟩

theorem Inv.lookup_of_pending (inv : Inv s threads) (hpc : pc ∈ threads)
    (hstake : pc.stake t = some .pending) : s.registry.retained.lookup t = none := by
  have honce := inv.once t
  have hpos : 0 < threads.countP (fun pc => pc.stake t = some .pending) :=
    List.countP_pos_iff.2 ⟨pc, hpc, decide_eq_true hstake⟩
  have hdrawn := Bool.toNat_le (decide (t ∈ s.drawn))
  cases hentry : s.registry.retained.lookup t with
  | none => rfl
  | some claim => rw [hentry, Option.isSome_some, Bool.toNat_true] at honce; omega

/-- The calls that operate on a token and the token's state change together. -/
theorem TokenStep.operations (h : TokenStep s s' pc pc' t)
    (hpending : pc.stake t = some .pending → s.registry.retained.lookup t = none)
    {state : ClaimState} (hbusy : state ≠ .available) :
    (decide (s'.registry.stateOf t = some state)).toNat +
        (decide (pc.stake t = some (.operating state))).toNat =
      (decide (s.registry.stateOf t = some state)).toNat +
        (decide (pc'.stake t = some (.operating state))).toNat := by
  have hbusy' : ¬ ClaimState.available = state := hbusy.symm
  unfold ClaimRegistry.stateOf
  cases h with
  | same entry stake => rw [entry]; rcases stake with h | ⟨h, h'⟩ <;> simp_all
  | drawn entry _ _ before after => rw [entry, before, after]; simp
  | issued entry before after =>
      have hstake : pc.stake t = some .pending := before ▸ if_pos rfl
      rw [entry, hpending hstake, hstake, after]
      simp [hbusy', Pc.stake]
  | began held free _ entry before after => rw [held, entry, before, after]; simp_all
  | freed held entry before after => rw [held, entry, before, after]; simp [hbusy']
  | retired held entry before _ after =>
      rw [held, entry, before]; rcases after with h | h <;> simp [h]
  | dropped held why entry stake =>
      rw [held, entry]; rcases stake with h | ⟨h, h'⟩ <;> simp [*, why.available]

/-- A drawn token is with one call, in the registry or settled, and nowhere else. -/
theorem TokenStep.once (h : TokenStep s s' pc pc' t) (hdrawn : s.drawn ⊆ s'.drawn) :
    (decide (pc'.stake t = some .pending)).toNat + (s'.registry.retained.lookup t).isSome.toNat +
        (decide (pc'.stake t = some .settled)).toNat + (decide (t ∈ s.drawn)).toNat ≤
      (decide (pc.stake t = some .pending)).toNat + (s.registry.retained.lookup t).isSome.toNat +
        (decide (pc.stake t = some .settled)).toNat + (decide (t ∈ s'.drawn)).toNat := by
  have hmono : (decide (t ∈ s.drawn)).toNat ≤ (decide (t ∈ s'.drawn)).toNat := by
    by_cases ht : t ∈ s.drawn
    · rw [decide_eq_true ht, decide_eq_true (hdrawn ht)]
    · rw [decide_eq_false ht]
      exact Nat.zero_le _
  cases h with
  | same entry stake => rw [entry]; rcases stake with h | ⟨h, h'⟩ <;> simp_all; omega
  | drawn entry fresh drawn before after => rw [entry, before, after]; simp [fresh, drawn, add_comm]
  | issued entry before after =>
      have hstake : pc.stake t = some .pending := before ▸ if_pos rfl
      rw [entry, hstake, after]
      simp [Pc.stake]
      omega
  | began held free _ entry before after => rw [held, entry, before, after]; simp_all
  | freed held entry before after => rw [held, entry, before, after]; simpa using hmono
  | retired held entry before _ after =>
      rw [held, entry, before]; rcases after with h | h <;> simp [h] <;> omega
  | dropped held why entry stake =>
      rw [held, entry]; rcases stake with h | ⟨h, h'⟩ <;> simp [*] <;> omega

theorem Inv.step (inv : Inv s (before ++ pc :: after)) (h : next s pc choice = some (s', pc')) :
    Inv s' (before ++ pc' :: after) := by
  have hmem : pc ∈ before ++ pc :: after := List.mem_append_cons_self
  have hfinds := inv.finds hmem
  obtain ⟨hslots, hcapacity⟩ := slots_of_next hfinds (inv.reserved hmem) inv.capacity h
  refine ⟨hcapacity, Pool.countP_step inv.reservations hslots, fun t state hbusy => ?_, fun t => ?_⟩
  · exact Pool.countP_step (inv.operations t state hbusy)
      ((tokenStep_of_next hfinds h).operations (inv.lookup_of_pending hmem) hbusy)
  · have honce := inv.once t
    have hstep := (tokenStep_of_next (t := t) hfinds h).once (drawn_of_next h)
    have hpending := Pool.countP_move (fun pc => pc.stake t = some .pending) before after pc pc'
    have hsettled := Pool.countP_move (fun pc => pc.stake t = some .settled) before after pc pc'
    omega

/-- A new call has no reservation and no stake. -/
theorem Inv.start (inv : Inv s threads) (entry : Entry) : Inv s (threads ++ [entry.pc]) := by
  have hstake : ∀ t stake, (threads ++ [entry.pc]).countP (fun pc => pc.stake t = some stake) =
      threads.countP (fun pc => pc.stake t = some stake) :=
    fun t stake => Pool.countP_start (by cases entry <;> rfl)
  have hreservation : entry.pc.holdsReservation = false := by cases entry <;> rfl
  refine ⟨inv.capacity, ?_, fun t state hbusy => ?_, fun t => ?_⟩
  · rw [Pool.countP_start hreservation, inv.reservations]
  · rw [hstake, inv.operations t state hbusy]
  · rw [hstake, hstake]
    exact inv.once t

theorem inv_exec {p : Pool Shared Pc} (inv : Inv p.shared p.threads)
    (ops : List (Pool.Op Entry Choice)) :
    Inv (machine.exec p ops).shared (machine.exec p ops).threads :=
  Pool.exec_invariant (P := Inv) (fun _ _ entry inv => inv.start entry)
    (fun _ _ _ _ _ _ _ inv h => inv.step h) inv ops

theorem inv_run (ops : List (Pool.Op Entry Choice)) :
    Inv (machine.run ops).shared (machine.run ops).threads :=
  inv_exec ⟨Nat.zero_le _, rfl, fun _ _ _ => rfl, fun _ => le_rfl⟩ ops

/-- Only the call that operates on a token changes it. -/
theorem Inv.lookup_of_other (inv : Inv s (before ++ pc :: after))
    (h : next s pc choice = some (s', pc')) {user : Pc} (huser : user ∈ before ++ after)
    {claim : RetainedClaim} (hclaim : s.registry.retained.lookup t = some claim)
    (hstake : user.stake t = some (.operating claim.state)) :
    s'.registry.retained.lookup t = some claim := by
  have hmem : pc ∈ before ++ pc :: after := List.mem_append_cons_self
  have hbusy := ne_available_of_stake hstake
  -- No second call operates on the token.
  have halone : pc.stake t ≠ some (.operating claim.state) := fun hpc => by
    have hone : (before ++ pc :: after).countP
        (fun pc => pc.stake t = some (.operating claim.state)) ≤ 1 := by
      rw [inv.operations t _ hbusy]
      exact Bool.toNat_le _
    have hnot := Pool.not_of_countP_le_one hone (decide_eq_true hpc) huser
    exact of_decide_eq_false hnot hstake
  cases tokenStep_of_next (t := t) (inv.finds hmem) h with
  | same entry _ => rw [entry, hclaim]
  | drawn entry _ _ _ _ => rw [entry, hclaim]
  | issued _ hpc _ =>
      have hnone := inv.lookup_of_pending (t := t) hmem (hpc ▸ if_pos rfl)
      rw [hclaim] at hnone
      cases hnone
  | began held free _ _ _ _ =>
      rw [hclaim] at held
      exact absurd (Option.some.inj held ▸ free) hbusy
  | freed held _ hpc _ =>
      rw [hclaim] at held
      exact absurd (Option.some.inj held ▸ hpc) halone
  | retired held _ hpc _ _ =>
      rw [hclaim] at held
      exact absurd (Option.some.inj held ▸ hpc) halone
  | dropped held why _ _ =>
      rw [hclaim] at held
      exact absurd (Option.some.inj held ▸ why.available) hbusy

end Invariant

/-- What holds of the claim tokens after any run: the slots in use and reserved are within the
capacity, and each reservation is one claim call's, so that a release finds one to give back; a token
out of circulation belongs to one call, no other call's step changes it, its renewal completes, and it
is available again once its operation has failed; at most one call settles it. -/
theorem claim_tokens_are_exclusive (ops : List (Pool.Op Entry Choice)) :
    let p := machine.run ops
    let registry := p.shared.registry
    registry.retained.len + registry.reservations ≤ maxActiveClaims ∧
    registry.reservations = p.threads.countP Pc.holdsReservation ∧
    (∀ pc ∈ p.threads, pc.holdsReservation = true → 0 < registry.reservations) ∧
    (∀ t state, state ≠ .available →
      p.threads.countP (fun pc => pc.stake t = some (.operating state)) =
        (decide (registry.stateOf t = some state)).toNat) ∧
    (∀ i pc t state, p.threads[i]? = some pc → pc.stake t = some (.operating state) →
      ∃ claim, registry.retained.lookup t = some claim ∧ claim.state = state ∧
        (∀ op, (∀ choice, op ≠ .step i choice) →
          (machine.step p op).shared.registry.retained.lookup t = some claim) ∧
        (∀ leaseUntilMs, pc = .completeRenewal t leaseUntilMs →
          (machine.step p (.step i .proceed)).threads[i]? = some (.renewed t .held) ∧
          (machine.step p (.step i .proceed)).shared.registry.retained.lookup t =
            some ⟨claim.handle, leaseUntilMs, .available⟩) ∧
        (pc = .dropRenewal t ∨ pc = .dropSettlement t →
          (machine.step p (.step i .proceed)).shared.registry.retained.lookup t =
            some { claim with state := .available })) ∧
    ∀ t, p.threads.countP (fun pc => pc.stake t = some .settled) ≤ 1 := by
  intro p registry
  have inv : Inv p.shared p.threads := inv_run ops
  refine ⟨inv.capacity, inv.reservations.symm, fun pc hpc => inv.reserved hpc, inv.operations,
    fun i pc t state hi hstake => ?_, fun t => ?_⟩
  · have hmem : pc ∈ p.threads := List.mem_of_getElem? hi
    obtain ⟨claim, hclaim, rfl⟩ := inv.finds hmem t state hstake
    refine ⟨claim, hclaim, rfl, fun op hother => ?_, ?_, ?_⟩
    · rw [machine]
      rcases Pool.step_cases p op with
        hsame | ⟨e, -, hnew⟩ | ⟨before, user, after, choice, s', pc', rfl, hthreads, hnext, hmoved⟩
      · rwa [hsame]
      · rwa [hnew]
      · rw [hmoved]
        rw [hthreads] at inv hi
        have hne : i ≠ before.length := fun h => hother choice (h ▸ rfl)
        exact inv.lookup_of_other hnext (Pool.mem_others hi hne) hclaim hstake
    · rintro leaseUntilMs rfl
      have hcomplete := ClaimRegistry.completeRenewal_of_lookup hclaim
        (Stake.operating.inj (Option.some.inj (hstake.symm.trans (if_pos rfl)))) leaseUntilMs
      rw [machine, Pool.step_of_next hi (by rw [next, hcomplete])]
      exact ⟨List.getElem?_set_self (List.getElem?_eq_some_iff.1 hi).1, AList.lookup_insert _⟩
    · rintro (rfl | rfl)
      all_goals
        have hstate := Stake.operating.inj (Option.some.inj (hstake.symm.trans (if_pos rfl)))
        rw [machine, Pool.step_of_next hi rfl, ← hstate,
          ClaimRegistry.dropOperation_of_lookup hclaim]
        exact AList.lookup_insert _
  · have honce := inv.once t
    have hdrawn := Bool.toNat_le (decide (t ∈ p.shared.drawn))
    omega

end ClaimSystem

end EventSorcery
