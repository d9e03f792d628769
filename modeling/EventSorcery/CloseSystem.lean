import EventSorcery.Lib.Pool

/-!
# Opening, using and closing one store across the ABI

A store is shared by threads that run calls on it and threads that close it. A call takes a lease and
gives it back; a close moves the store to `closing`, waits until the leases are back, takes the engine
out and marks the store closed; the closes after it join. The model has one step for each lock that is
taken or given back and for each access in between, so that a run is any interleaving of them. The end
of a wait on the condition variable may come at any time, as it may in Rust. An owner cell is opened
once, and only the library writes it.
-/

namespace EventSorcery

inductive CloseRole where
  | destroy
  | join
  deriving DecidableEq, Repr

inductive CloseOutcome where
  | ok
  | panic
  deriving DecidableEq, Repr

inductive StoreState where
  | opened (activeCalls : ℕ)
  | closing (activeCalls : ℕ)
  | closed (outcome : CloseOutcome)
  deriving DecidableEq, Repr

/-- The calls that the store counts. -/
def StoreState.active : StoreState → ℕ
  | opened n | closing n => n
  | closed _ => 0

def StoreState.isOpen : StoreState → Bool
  | opened _ => true
  | closing _ | closed _ => false

theorem StoreState.eq_succ_of_active_pos {state : StoreState} (h : 0 < state.active) :
    ∃ n, state = .opened (n + 1) ∨ state = .closing (n + 1) := by
  cases state with
  | opened n => exact ⟨n - 1, .inl (congrArg opened (Nat.succ_pred_eq_of_pos h).symm)⟩
  | closing n => exact ⟨n - 1, .inr (congrArg closing (Nat.succ_pred_eq_of_pos h).symm)⟩
  | closed outcome => exact absurd h (lt_irrefl 0)

/-- What the threads share: the store, its entry in the registry and the owner's cell, with the locks
that are taken. `inner` is the store's own reference to the engine. -/
structure EsStore where
  state : StoreState
  inner : Bool
  poisoned : Bool
  registered : Bool
  owned : Bool
  registryLock : Bool
  stateLock : Bool
  innerLock : Bool
  deriving DecidableEq, Repr

namespace CloseSystem

/-- Where a thread is. A name says what the thread does next. -/
inductive Pc where
  -- `EsStore::acquire`
  | acquire | lookup | lockState | checkOpen | lockInner | cloneInner | countCall | unlockState
  | unlockRegistry | failState | failRegistry | refused
  -- The call, and `StoreLease::drop` after it: the destructor's body, then the fields.
  | call | lockDrop | uncount | unlockDrop (drained : Bool) | notifyDrained | release | dropped
  -- `linearize_close`
  | close | closeLookup | closeAbsent | absorbed | closeLock | linearize
  | closeUnlock (role : CloseRole) | closeNotify (role : CloseRole) | closeLeave (role : CloseRole)
  -- `EsStore::close` in the join role
  | joinLock | joinCheck | joinWait
  -- `EsStore::close` in the destroy role
  | drainLock | drainCheck | drainWait | takeLock | take | dropInner (engine : Bool)
  | closedLock (outcome : CloseOutcome) | setClosed (outcome : CloseOutcome)
  | closedNotify (outcome : CloseOutcome)
  -- `retire_store`, and the return of `es_close`
  | retire (role : CloseRole) (outcome : CloseOutcome)
  | retireRemove (role : CloseRole) (outcome : CloseOutcome)
  | returned (role : CloseRole) (outcome : CloseOutcome)
  deriving DecidableEq, Repr

variable (s : EsStore)

/-- Take the registry's lock, if it is free. -/
def lockRegistry (pc : Pc) : Option (EsStore × Pc) :=
  if s.registryLock then none else some ({ s with registryLock := true }, pc)

def lockState (pc : Pc) : Option (EsStore × Pc) :=
  if s.stateLock then none else some ({ s with stateLock := true }, pc)

def lockInner (pc : Pc) : Option (EsStore × Pc) :=
  if s.innerLock then none else some ({ s with innerLock := true }, pc)

/-- One step of a thread, `none` while it has to wait for a lock. `choice` is whether the code of the
call, or the engine's destructor, panics. -/
def next : Pc → Bool → Option (EsStore × Pc)
  | .acquire, _ => lockRegistry s .lookup
  | .lookup, _ =>
      if s.registered && s.owned then some (s, .lockState) else some (s, .failRegistry)
  | .lockState, _ => lockState s .checkOpen
  | .checkOpen, _ =>
      match s.state with
      | .opened _ => some (s, .lockInner)
      | _ => some (s, .failState)
  | .lockInner, _ => lockInner s .cloneInner
  | .cloneInner, _ =>
      if s.inner then some ({ s with innerLock := false }, .countCall)
      else some ({ s with innerLock := false }, .failState)
  | .countCall, _ =>
      match s.state with
      | .opened n =>
          if n + 1 < 2 ^ 64 then some ({ s with state := .opened (n + 1) }, .unlockState)
          else some (s, .failState)
      | _ => some (s, .failState)
  | .unlockState, _ => some ({ s with stateLock := false }, .unlockRegistry)
  | .unlockRegistry, _ => some ({ s with registryLock := false }, .call)
  | .failState, _ => some ({ s with stateLock := false }, .failRegistry)
  | .failRegistry, _ => some ({ s with registryLock := false }, .refused)
  | .refused, _ => none
  | .call, panics => some ({ s with poisoned := s.poisoned || panics }, .lockDrop)
  | .lockDrop, _ => lockState s .uncount
  | .uncount, _ =>
      match s.state with
      | .opened (n + 1) => some ({ s with state := .opened n }, .unlockDrop (n = 0))
      | .closing (n + 1) => some ({ s with state := .closing n }, .unlockDrop (n = 0))
      | _ => some ({ s with poisoned := true }, .unlockDrop true)
  | .unlockDrop true, _ => some ({ s with stateLock := false }, .notifyDrained)
  | .unlockDrop false, _ => some ({ s with stateLock := false }, .release)
  | .notifyDrained, _ => some (s, .release)
  | .release, _ => some (s, .dropped)
  | .dropped, _ => none
  | .close, _ => lockRegistry s .closeLookup
  | .closeLookup, _ =>
      if s.registered then some (s, .closeLock) else some ({ s with owned := false }, .closeAbsent)
  | .closeAbsent, _ => some ({ s with registryLock := false }, .absorbed)
  | .absorbed, _ => none
  | .closeLock, _ => lockState s .linearize
  | .linearize, _ =>
      match s.state with
      | .opened n => some ({ s with state := .closing n, owned := false }, .closeUnlock .destroy)
      | _ => some ({ s with owned := false }, .closeUnlock .join)
  | .closeUnlock role, _ => some ({ s with stateLock := false }, .closeNotify role)
  | .closeNotify role, _ => some (s, .closeLeave role)
  | .closeLeave .join, _ => some ({ s with registryLock := false }, .joinLock)
  | .closeLeave .destroy, _ => some ({ s with registryLock := false }, .drainLock)
  | .joinLock, _ => lockState s .joinCheck
  | .joinCheck, _ =>
      match s.state with
      | .closed outcome => some ({ s with stateLock := false }, .retire .join outcome)
      | _ => some ({ s with stateLock := false }, .joinWait)
  | .joinWait, _ => some (s, .joinLock)
  | .drainLock, _ => lockState s .drainCheck
  | .drainCheck, _ =>
      match s.state with
      | .closing (_ + 1) => some ({ s with stateLock := false }, .drainWait)
      | _ => some ({ s with stateLock := false }, .takeLock)
  | .drainWait, _ => some (s, .drainLock)
  | .takeLock, _ => lockInner s .take
  | .take, _ => some ({ s with inner := false, innerLock := false }, .dropInner s.inner)
  | .dropInner _, false => some (s, .closedLock .ok)
  | .dropInner _, true => some (s, .closedLock .panic)
  | .closedLock outcome, _ => lockState s (.setClosed outcome)
  | .setClosed outcome, _ =>
      some ({ s with state := .closed outcome, stateLock := false }, .closedNotify outcome)
  | .closedNotify outcome, _ => some (s, .retire .destroy outcome)
  | .retire role outcome, _ => lockRegistry s (.retireRemove role outcome)
  | .retireRemove role outcome, _ =>
      some ({ s with registered := false, registryLock := false }, .returned role outcome)
  | .returned _ _, _ => none

/-- The calls that threads make. -/
inductive Entry where
  | call
  | close

def Entry.pc : Entry → Pc
  | .call => .acquire
  | .close => .close

/-- The store as `es_open` publishes it. -/
def published : EsStore := ⟨.opened 0, true, false, true, true, false, false, false⟩

/-- Any number of calls and closes on one store. -/
def machine : Machine (Pool EsStore Pc) (Pool.Op Entry Bool) := Pool.machine published Entry.pc next

/-! ## Where a thread is -/

namespace Pc

def holdsRegistry : Pc → Bool
  | lookup | lockState | checkOpen | lockInner | cloneInner | countCall | unlockState
  | unlockRegistry | failState | failRegistry | closeLookup | closeAbsent | closeLock | linearize
  | closeUnlock _ | closeNotify _ | closeLeave _ | retireRemove _ _ => true
  | _ => false

def holdsState : Pc → Bool
  | checkOpen | lockInner | cloneInner | countCall | unlockState | failState | uncount
  | unlockDrop _ | linearize | closeUnlock _ | joinCheck | drainCheck | setClosed _ => true
  | _ => false

def holdsInner : Pc → Bool
  | cloneInner | take => true
  | _ => false

/-- The thread has a lease: it was counted, and its drop has not counted it off. -/
def hasLease : Pc → Bool
  | unlockState | unlockRegistry | call | lockDrop | uncount => true
  | _ => false

/-- The acquisition succeeded. -/
def hasAcquired : Pc → Bool
  | call | lockDrop | uncount | unlockDrop _ | notifyDrained | release | dropped => true
  | _ => false

/-- The thread is between its lease's destructor and the release of the lease's own references. -/
def inDrop : Pc → Bool
  | unlockDrop _ | notifyDrained | release => true
  | _ => false

/-- The close took the destroy role. -/
def isDestroyer : Pc → Bool
  | closeUnlock role | closeNotify role | closeLeave role | retire role _ | retireRemove role _
  | returned role _ => role = .destroy
  | drainLock | drainCheck | drainWait | takeLock | take | dropInner _ | closedLock _ | setClosed _
  | closedNotify _ => true
  | _ => false

/-- The close has taken the engine out of the store. -/
def hasTaken : Pc → Bool
  | dropInner _ | closedLock _ | setClosed _ | closedNotify _ => true
  | retire role _ | retireRemove role _ | returned role _ => role = .destroy
  | _ => false

/-- The thread owns a reference to the engine. -/
def holdsEngine : Pc → Bool
  | countCall | unlockState | unlockRegistry | call | lockDrop | uncount | unlockDrop _
  | notifyDrained | release => true
  | dropInner engine => engine
  | _ => false

end Pc

/-- The references to the engine: the store's own, and those of threads. The engine is destroyed when
there are none. -/
def engineReferences (p : Pool EsStore Pc) : ℕ :=
  p.shared.inner.toNat + p.threads.countP Pc.holdsEngine

/-! ## What one step does -/

/-- What a thread relies on while others move. -/
inductive Reliance where
  /-- Nothing. -/
  | free
  /-- The store is open. -/
  | isOpen
  /-- A close has begun. -/
  | begun
  /-- The store is closing and has its engine. -/
  | draining
  /-- No call is active, and the store has its engine. -/
  | drained
  /-- No call is active. -/
  | taken
  | closed (outcome : CloseOutcome)
  /-- The thread never gets there. -/
  | never

def Reliance.Holds (s : EsStore) : Reliance → Prop
  | free => True
  | isOpen => s.state.isOpen = true
  | begun => s.state.isOpen = false
  | draining => (∃ n, s.state = .closing n) ∧ s.inner = true
  | drained => s.state = .closing 0 ∧ s.inner = true
  | taken => s.state = .closing 0
  | closed outcome => s.state = .closed outcome
  | never => False

def CloseRole.relies : CloseRole → Reliance
  | .destroy => .draining
  | .join => .begun

/-- What a thread relies on at a point of its program. -/
def Pc.relies : Pc → Reliance
  | lockInner | cloneInner | countCall | unlockState | unlockRegistry => .isOpen
  | closeUnlock role | closeNotify role | closeLeave role => CloseRole.relies role
  | joinLock | joinCheck | joinWait => .begun
  | drainLock | drainCheck | drainWait => .draining
  | takeLock | take => .drained
  | dropInner true => .taken
  | dropInner false => .never
  | closedLock _ | setClosed _ => .taken
  | closedNotify outcome | retire _ outcome | retireRemove _ outcome | returned _ outcome =>
      .closed outcome
  | _ => .free

/-- The laws of the store: each number it keeps is the number of threads at certain points. -/
structure Inv (s : EsStore) (threads : List Pc) : Prop where
  registryLock : threads.countP Pc.holdsRegistry = s.registryLock.toNat
  stateLock : threads.countP Pc.holdsState = s.stateLock.toNat
  innerLock : threads.countP Pc.holdsInner = s.innerLock.toNat
  leases : threads.countP Pc.hasLease = s.state.active
  destroyers : threads.countP Pc.isDestroyer = (!s.state.isOpen).toNat
  takers : threads.countP Pc.hasTaken = (!s.inner).toNat
  relied : ∀ pc ∈ threads, pc.relies.Holds s

section Steps

variable {s s' : EsStore} {pc pc' : Pc} {choice : Bool} {threads before after : List Pc}

theorem lockRegistry_eq_some : lockRegistry s pc = some (s', pc') ↔
    s.registryLock = false ∧ s' = { s with registryLock := true } ∧ pc' = pc := by
  unfold lockRegistry
  split_ifs with h <;> simp [h, eq_comm]

theorem lockState_eq_some : lockState s pc = some (s', pc') ↔
    s.stateLock = false ∧ s' = { s with stateLock := true } ∧ pc' = pc := by
  unfold lockState
  split_ifs with h <;> simp [h, eq_comm]

theorem lockInner_eq_some : lockInner s pc = some (s', pc') ↔
    s.innerLock = false ∧ s' = { s with innerLock := true } ∧ pc' = pc := by
  unfold lockInner
  split_ifs with h <;> simp [h, eq_comm]

/-- What a thread finds at a point of its program. -/
structure Finds (s : EsStore) (pc : Pc) : Prop where
  registry : pc.holdsRegistry = true → s.registryLock = true
  state : pc.holdsState = true → s.stateLock = true
  inner : pc.holdsInner = true → s.innerLock = true
  lease : pc.hasLease = true → 0 < s.state.active
  relied : pc.relies.Holds s

theorem Inv.finds (hinv : Inv s threads) (hmem : pc ∈ threads) : Finds s pc where
  registry h := Pool.eq_true_of_mem hinv.registryLock hmem h
  state h := Pool.eq_true_of_mem hinv.stateLock hmem h
  inner h := Pool.eq_true_of_mem hinv.innerLock hmem h
  lease h := hinv.leases ▸ List.countP_pos_iff.2 ⟨pc, hmem, h⟩
  relied := hinv.relied pc hmem

/-- The engine stays in the store until a close takes it out, and no close has begun while the store
is open. -/
theorem Inv.inner_of_isOpen (hinv : Inv s threads) (hopen : s.state.isOpen = true) :
    s.inner = true := by
  have hnone : threads.countP Pc.isDestroyer = 0 := by rw [hinv.destroyers, hopen]; rfl
  have hle : threads.countP Pc.hasTaken ≤ threads.countP Pc.isDestroyer := by
    refine List.countP_mono_left fun pc _ h => ?_
    cases pc <;> first | rfl | exact h | cases h
  rw [hnone, hinv.takers] at hle
  cases hinner : s.inner with
  | true => rfl
  | false => rw [hinner] at hle; exact absurd hle (by decide)

attribute [local simp] Pc.holdsRegistry Pc.holdsState Pc.holdsInner Pc.hasLease Pc.isDestroyer
  Pc.hasTaken Pc.relies CloseRole.relies Reliance.Holds StoreState.active StoreState.isOpen

/-- What a step adds to a number that the store keeps, it adds to the threads at the points that
number counts. -/
structure Laws (s : EsStore) (pc : Pc) (s' : EsStore) (pc' : Pc) : Prop where
  registryLock : s'.registryLock.toNat + pc.holdsRegistry.toNat =
    s.registryLock.toNat + pc'.holdsRegistry.toNat
  stateLock : s'.stateLock.toNat + pc.holdsState.toNat = s.stateLock.toNat + pc'.holdsState.toNat
  innerLock : s'.innerLock.toNat + pc.holdsInner.toNat = s.innerLock.toNat + pc'.holdsInner.toNat
  leases : s'.state.active + pc.hasLease.toNat = s.state.active + pc'.hasLease.toNat
  destroyers : (!s'.state.isOpen).toNat + pc.isDestroyer.toNat =
    (!s.state.isOpen).toNat + pc'.isDestroyer.toNat
  takers : (!s'.inner).toNat + pc.hasTaken.toNat = (!s.inner).toNat + pc'.hasTaken.toNat

theorem laws_of_next (hfinds : Finds s pc) (h : next s pc choice = some (s', pc')) :
    Laws s pc s' pc' := by
  obtain ⟨hregistry, hstate, hinner, hlease, hok⟩ := hfinds
  revert h
  fun_cases next s pc choice <;> intro h <;>
    simp only [lockRegistry_eq_some, lockState_eq_some, lockInner_eq_some, Option.some.injEq,
      Prod.mk.injEq, reduceCtorEq] at h
  all_goals
    first
    | obtain ⟨rfl, rfl⟩ := h
    | obtain ⟨hfree, rfl, rfl⟩ := h
  all_goals
    simp only [Pc.holdsRegistry, Pc.holdsState, Pc.holdsInner, Pc.hasLease, Pc.relies,
      Reliance.Holds, forall_const, false_implies, Bool.false_eq_true]
      at hregistry hstate hinner hlease hok
  case case22 hopened hclosing =>
    -- A lease that is dropped is counted.
    obtain ⟨n, hs | hs⟩ := StoreState.eq_succ_of_active_pos hlease
    · exact absurd hs (hopened n)
    · exact absurd hs (hclosing n)
  all_goals constructor <;> first | rfl | simp [*]

/-- The thread that moved can rely on what it should. -/
theorem relied_of_next (hinv : Inv s threads) (hmem : pc ∈ threads)
    (h : next s pc choice = some (s', pc')) : pc'.relies.Holds s' := by
  have hok := hinv.relied pc hmem
  have hinner := hinv.inner_of_isOpen
  revert h
  fun_cases next s pc choice <;> intro h <;>
    simp only [lockRegistry_eq_some, lockState_eq_some, lockInner_eq_some, Option.some.injEq,
      Prod.mk.injEq, reduceCtorEq] at h
  all_goals
    first
    | obtain ⟨rfl, rfl⟩ := h
    | obtain ⟨hfree, rfl, rfl⟩ := h
  case case35 hclosed =>
    cases hs : s.state with
    | opened n => exact absurd hs (hclosed n)
    | closing n => rfl
    | closed outcome => rfl
  case case46 hdrained =>
    obtain ⟨⟨n, hs⟩, hengine⟩ := hok
    cases n with
    | zero => exact ⟨hs, hengine⟩
    | succ n => exact absurd hs (hdrained n)
  case case50 engine => cases engine <;> simp_all
  case case51 engine => cases engine <;> simp_all
  all_goals first | trivial | exact hok | simp_all

/-- What a step does to the state and the engine, and at which points of the program. -/
theorem next_effect (h : next s pc choice = some (s', pc')) :
    (s'.state = s.state ∧ s'.inner = s.inner) ∨
      (s.state.isOpen = true ∧ s'.state.isOpen = true ∧ s'.inner = s.inner) ∨
      (∃ n, s.state = .closing (n + 1) ∧ s'.state = .closing n ∧ s'.inner = s.inner) ∨
      (pc = .linearize ∧ s.state.isOpen = true ∧ ∃ n, s'.state = .closing n) ∨
      (∃ outcome, pc = .setClosed outcome ∧ s'.state = .closed outcome ∧ s'.inner = s.inner) ∨
      (pc = .take ∧ s'.state = s.state) := by
  revert h
  fun_cases next s pc choice <;> intro h <;>
    simp only [lockRegistry_eq_some, lockState_eq_some, lockInner_eq_some, Option.some.injEq,
      Prod.mk.injEq, reduceCtorEq] at h
  all_goals
    first
    | obtain ⟨rfl, rfl⟩ := h
    | obtain ⟨hfree, rfl, rfl⟩ := h
  all_goals first | exact .inl ⟨rfl, rfl⟩ | simp_all

theorem Pc.holdsRegistry_of_relies (h : pc.relies = .isOpen) : pc.holdsRegistry = true := by
  cases pc with
  | dropInner engine => cases engine <;> cases h
  | _ => first | rfl | cases h

theorem Pc.isDestroyer_of_relies
    (h : pc.relies = .draining ∨ pc.relies = .drained ∨ pc.relies = .taken) :
    pc.isDestroyer = true := by
  cases pc with
  | closeUnlock role | closeNotify role | closeLeave role => cases role <;> simp_all
  | _ => first | rfl | simp_all

/-- The other threads can still rely on what they did. -/
theorem relied_of_other {other : Pc} (hinv : Inv s (before ++ pc :: after))
    (h : next s pc choice = some (s', pc')) (hother : other ∈ before ++ after) :
    other.relies.Holds s' := by
  have hmem : pc ∈ before ++ pc :: after := List.mem_append_cons_self
  have hrelied : other.relies.Holds s := by
    refine hinv.relied other ?_
    rcases List.mem_append.1 hother with hb | ha
    · exact List.mem_append_left _ hb
    · exact List.mem_append_right _ (List.mem_cons_of_mem _ ha)
  -- What another thread relies on keeps this one from the steps that would change it.
  have hopen : other.relies = .isOpen → pc.holdsRegistry = false := fun hr => by
    by_contra hpc
    have hfree := Pool.not_of_countP_le_one (hinv.registryLock.trans_le (Bool.toNat_le _))
      (Bool.not_eq_false _ ▸ hpc) hother
    rw [Pc.holdsRegistry_of_relies hr] at hfree
    cases hfree
  have hsole : other.relies = .draining ∨ other.relies = .drained ∨ other.relies = .taken →
      pc.isDestroyer = false := fun hr => by
    by_contra hpc
    have hfree := Pool.not_of_countP_le_one (hinv.destroyers.trans_le (Bool.toNat_le _))
      (Bool.not_eq_false _ ▸ hpc) hother
    rw [Pc.isDestroyer_of_relies hr] at hfree
    cases hfree
  have hown := hinv.relied pc hmem
  generalize other.relies = r at hrelied hopen hsole ⊢
  rcases next_effect h with
    ⟨hs, hinner⟩ | ⟨hs, hs', hinner⟩ | ⟨n, hs, hs', hinner⟩ | ⟨rfl, hs, -⟩ |
      ⟨outcome, rfl, hs', hinner⟩ | ⟨rfl, hs⟩
  · -- The step touches neither the state nor the engine.
    cases r <;> simp_all
  · -- The store stays open.
    cases r with
    | draining =>
        obtain ⟨⟨n, hn⟩, -⟩ := hrelied
        simp [hn] at hs
    | _ => simp_all
  · -- A lease is dropped while the store is closing.
    cases r <;> simp_all
  · -- The store leaves the open state.
    cases r with
    | isOpen => exact absurd (hopen rfl) (by decide)
    | free => trivial
    | draining =>
        obtain ⟨⟨n, hn⟩, -⟩ := hrelied
        simp [hn] at hs
    | _ => simp_all
  · -- The destroyer marks the store closed.
    replace hown : s.state = .closing 0 := hown
    cases r <;> simp_all
  · -- The destroyer takes the engine.
    cases r <;> simp_all

theorem Inv.start (hinv : Inv s threads) (entry : Entry) : Inv s (threads ++ [entry.pc]) := by
  obtain ⟨hregistry, hstate, hinner, hleases, hdestroyers, htakers, hrelied⟩ := hinv
  cases entry <;>
    exact ⟨by simpa [Entry.pc] using hregistry, by simpa [Entry.pc] using hstate,
      by simpa [Entry.pc] using hinner, by simpa [Entry.pc] using hleases,
      by simpa [Entry.pc] using hdestroyers, by simpa [Entry.pc] using htakers,
      List.forall_mem_append.2 ⟨hrelied, by simp [Entry.pc]⟩⟩

theorem Inv.step (hinv : Inv s (before ++ pc :: after)) (h : next s pc choice = some (s', pc')) :
    Inv s' (before ++ pc' :: after) := by
  have hmem : pc ∈ before ++ pc :: after := List.mem_append_cons_self
  have hlaws := laws_of_next (hinv.finds hmem) h
  refine ⟨Pool.countP_step hinv.registryLock hlaws.registryLock,
    Pool.countP_step hinv.stateLock hlaws.stateLock, Pool.countP_step hinv.innerLock hlaws.innerLock,
    Pool.countP_step hinv.leases hlaws.leases, Pool.countP_step hinv.destroyers hlaws.destroyers,
    Pool.countP_step hinv.takers hlaws.takers, fun other hother => ?_⟩
  rw [List.mem_append, List.mem_cons] at hother
  rcases hother with hb | rfl | ha
  · exact relied_of_other hinv h (List.mem_append_left _ hb)
  · exact relied_of_next hinv hmem h
  · exact relied_of_other hinv h (List.mem_append_right _ ha)

/-- A call acquires the store by leaving the registry, and its lease comes into its drop by being
counted off. -/
theorem points_of_next (h : next s pc choice = some (s', pc')) :
    (pc'.hasAcquired = pc.hasAcquired ∨ pc = .unlockRegistry) ∧
      (pc'.inDrop = true → pc.inDrop = true ∨ pc = .uncount) := by
  revert h
  fun_cases next s pc choice <;> intro h <;>
    simp only [lockRegistry_eq_some, lockState_eq_some, lockInner_eq_some, Option.some.injEq,
      Prod.mk.injEq, reduceCtorEq] at h
  all_goals
    first
    | obtain ⟨rfl, rfl⟩ := h
    | obtain ⟨hfree, rfl, rfl⟩ := h
  all_goals
    refine ⟨?_, fun hdrop => ?_⟩
    · first | exact .inl rfl | exact .inr rfl
    · first | cases hdrop; done | exact .inl rfl | exact .inr rfl

/-- A store that is closing never opens again, and no call acquires it any more. -/
theorem hasAcquired_of_next (hinv : Inv s (before ++ pc :: after)) (hclosed : s.state.isOpen = false)
    (h : next s pc choice = some (s', pc')) :
    s'.state.isOpen = false ∧ pc'.hasAcquired = pc.hasAcquired := by
  have hmem : pc ∈ before ++ pc :: after := List.mem_append_cons_self
  constructor
  · rcases next_effect h with ⟨hs, -⟩ | ⟨hs, -⟩ | ⟨n, -, hs, -⟩ | ⟨-, hs, -⟩ | ⟨_, -, hs, -⟩ |
      ⟨-, hs⟩
    · rwa [hs]
    · rw [hs] at hclosed; cases hclosed
    · rw [hs]; rfl
    · rw [hs] at hclosed; cases hclosed
    · rw [hs]; rfl
    · rwa [hs]
  · rcases (points_of_next h).1 with hsame | rfl
    · exact hsame
    · -- A call that is about to leave the registry keeps the store open.
      have hopen : s.state.isOpen = true := hinv.relied _ hmem
      rw [hopen] at hclosed; cases hclosed

end Steps

theorem inv_run (ops : List (Pool.Op Entry Bool)) :
    Inv (machine.run ops).shared (machine.run ops).threads :=
  Pool.exec_invariant (P := Inv) (fun _ _ e hinv => hinv.start e)
    (fun _ _ _ _ _ _ _ hinv h => hinv.step h)
    ⟨rfl, rfl, rfl, rfl, rfl, rfl, List.forall_mem_nil _⟩ ops

theorem acquisitions_after_closing {p : Pool EsStore Pc} (hinv : Inv p.shared p.threads)
    (hclosed : p.shared.state.isOpen = false) (ops : List (Pool.Op Entry Bool)) :
    (machine.exec p ops).threads.countP Pc.hasAcquired = p.threads.countP Pc.hasAcquired := by
  let P (s : EsStore) (threads : List Pc) : Prop :=
    Inv s threads ∧ s.state.isOpen = false ∧
      threads.countP Pc.hasAcquired = p.threads.countP Pc.hasAcquired
  have hrun : P (machine.exec p ops).shared (machine.exec p ops).threads := by
    refine Pool.exec_invariant (P := P) (fun s threads e hp => ⟨hp.1.start e, hp.2.1, ?_⟩)
      (fun s before pc after choice s' pc' hp h => ?_) ⟨hinv, hclosed, rfl⟩ ops
    · rw [← hp.2.2, List.countP_append]
      cases e <;> rfl
    · obtain ⟨hs', hacquired⟩ := hasAcquired_of_next hp.1 hp.2.1 h
      exact ⟨hp.1.step h, hs', Pool.countP_step hp.2.2 (by rw [hacquired])⟩
  exact hrun.2.2

/-- The drop of a counted lease does not poison the store. -/
theorem next_uncount {s : EsStore} (hactive : 0 < s.state.active) (choice : Bool) :
    (((next s .uncount choice).map Prod.fst).getD s).poisoned = s.poisoned := by
  obtain ⟨n, hs | hs⟩ := StoreState.eq_succ_of_active_pos hactive <;> simp [next, hs]

/-- **Closing a store**, over any interleaving of calls and closes.
The store counts the leases that were acquired and not yet dropped, so a drop finds the store open or
closing with an active call and does not poison it. Once a close has begun, no call acquires the store.
One close takes the destroy role; it takes the engine out once, when no call is active. Every close
returns after the store is closed, and with the outcome it was closed with. -/
theorem closing_drains_once (ops : List (Pool.Op Entry Bool)) :
    let p := machine.run ops
    p.threads.countP Pc.hasLease = p.shared.state.active ∧
      (∀ i choice, p.threads[i]? = some .uncount →
        (∃ n, p.shared.state = .opened (n + 1) ∨ p.shared.state = .closing (n + 1)) ∧
          (machine.step p (.step i choice)).shared.poisoned = p.shared.poisoned) ∧
      (p.shared.state.isOpen = false → ∀ ops',
        (machine.exec p ops').threads.countP Pc.hasAcquired = p.threads.countP Pc.hasAcquired) ∧
      p.threads.countP Pc.isDestroyer = (if p.shared.state.isOpen then 0 else 1) ∧
      p.threads.countP Pc.hasTaken = (if p.shared.inner then 0 else 1) ∧
      (.take ∈ p.threads → p.shared.state = .closing 0 ∧ p.shared.inner = true) ∧
      ∀ role outcome, .returned role outcome ∈ p.threads → p.shared.state = .closed outcome := by
  intro p
  have hinv : Inv p.shared p.threads := inv_run ops
  refine ⟨hinv.leases, fun i choice hi => ?_, acquisitions_after_closing hinv, ?_, ?_,
    fun htake => hinv.relied _ htake, fun role outcome hmem => hinv.relied _ hmem⟩
  · have hactive := (hinv.finds (List.mem_of_getElem? hi)).lease rfl
    refine ⟨StoreState.eq_succ_of_active_pos hactive, ?_⟩
    rw [machine, Pool.shared_step hi]
    exact next_uncount hactive choice
  · rw [hinv.destroyers]
    cases p.shared.state.isOpen <;> rfl
  · rw [hinv.takers]
    cases p.shared.inner <;> rfl

/-! ## When the engine is destroyed

The drop of a lease counts the call off before it releases the lease's own reference to the engine. A
close that runs in between drops a reference that is not the last. -/

/-- A closed store has no engine. -/
theorem Inv.inner_of_closed {s : EsStore} {threads : List Pc} (hinv : Inv s threads)
    {outcome : CloseOutcome} (hs : s.state = .closed outcome) : s.inner = false := by
  have hone : 0 < threads.countP Pc.isDestroyer := by rw [hinv.destroyers, hs]; exact one_pos
  obtain ⟨pc, hmem, hdestroyer⟩ := List.countP_pos_iff.1 hone
  have hrelied := hinv.relied pc hmem
  have htaken : pc.hasTaken = true := by
    cases pc <;> first | rfl | exact hdestroyer |
      simp_all [Pc.isDestroyer, Pc.relies, Reliance.Holds, CloseRole.relies]
  have hpos := List.countP_pos_iff.2 ⟨pc, hmem, htaken⟩
  rw [hinv.takers] at hpos
  cases hinner : s.inner with
  | true => rw [hinner] at hpos; exact absurd hpos (by decide)
  | false => rfl

/-- The references that are left when a store is closed are those of leases in their drop. -/
theorem Inv.engineReferences_of_closed {p : Pool EsStore Pc} (hinv : Inv p.shared p.threads)
    {outcome : CloseOutcome} (hs : p.shared.state = .closed outcome) :
    engineReferences p = p.threads.countP Pc.inDrop := by
  have hnone : p.threads.countP Pc.hasLease = 0 := by rw [hinv.leases, hs]; rfl
  rw [engineReferences, hinv.inner_of_closed hs, Bool.toNat_false, Nat.zero_add]
  refine List.countP_congr fun pc hmem => ?_
  have hlease := List.countP_eq_zero.1 hnone pc hmem
  have hrelied := hinv.relied pc hmem
  cases pc with
  | dropInner engine => cases engine <;> simp_all [Pc.relies, Reliance.Holds]
  | _ => first | exact Iff.rfl | simp_all [Pc.hasLease, Pc.relies, Reliance.Holds,
      StoreState.isOpen]

/-- The thread is about to mark the store closed. -/
def Pc.marksClosed : Pc → Bool
  | setClosed _ => true
  | _ => false

/-- When a close marks the store closed, no lease is between its destructor and its release. -/
def LeasesReleased (p : Pool EsStore Pc) : Pool.Op Entry Bool → Prop
  | .start _ => True
  | .step i _ => p.threads[i]?.any Pc.marksClosed = true → p.threads.countP Pc.inDrop = 0

instance (p : Pool EsStore Pc) : ∀ op, Decidable (LeasesReleased p op)
  | .start _ => inferInstanceAs (Decidable True)
  | .step _ _ => inferInstanceAs (Decidable (_ → _))

section Release

variable {s s' : EsStore} {pc pc' : Pc} {choice : Bool} {outcome : CloseOutcome}

/-- Only the destroyer's last step closes the store. -/
theorem closed_of_next (h : next s pc choice = some (s', pc')) (hs' : s'.state = .closed outcome) :
    s.state = .closed outcome ∨ pc = .setClosed outcome := by
  rcases next_effect h with ⟨hs, -⟩ | ⟨-, hopen, -⟩ | ⟨n, -, hs, -⟩ | ⟨-, -, n, hs⟩ |
    ⟨other, hpc, hs, -⟩ | ⟨-, hs⟩
  · exact .inl (hs ▸ hs')
  · rw [hs'] at hopen; cases hopen
  · rw [hs'] at hs; cases hs
  · rw [hs'] at hs; cases hs
  · rw [hs'] at hs
    cases hs
    exact .inr hpc
  · exact .inl (hs ▸ hs')

end Release

/-- **A close returns when the engine is destroyed**, in every run in which no lease is between its
destructor and its release when the store is marked closed. -/
theorem close_returns_after_destruction {ops : List (Pool.Op Entry Bool)}
    (h : machine.Meets LeasesReleased machine.init ops) {role : CloseRole}
    (hreturned : .returned role .ok ∈ (machine.run ops).threads) :
    engineReferences (machine.run ops) = 0 := by
  let P (s : EsStore) (threads : List Pc) : Prop :=
    Inv s threads ∧ ∀ outcome, s.state = .closed outcome → threads.countP Pc.inDrop = 0
  have hrun : P (machine.run ops).shared (machine.run ops).threads := by
    refine Pool.run_invariant_of_meets (P := P) ⟨inv_run [], nofun⟩
      (fun s threads e hp => ⟨hp.1.start e, fun outcome hs => ?_⟩)
      (fun s before pc after choice s' pc' hp hG hnext => ?_) h
    · rw [List.countP_append, hp.2 outcome hs]
      cases e <;> rfl
    · obtain ⟨hinv, hreleased⟩ := hp
      refine ⟨hinv.step hnext, fun outcome hs' => ?_⟩
      have hmem : pc ∈ before ++ pc :: after := List.mem_append_cons_self
      -- No lease is in its drop, and none comes into it.
      have hnone : (before ++ pc :: after).countP Pc.inDrop = 0 ∧ pc ≠ .uncount := by
        rcases closed_of_next hnext hs' with hs | rfl
        · refine ⟨hreleased outcome hs, ?_⟩
          rintro rfl
          have hactive := (hinv.finds hmem).lease rfl
          rw [hs] at hactive
          exact absurd hactive (lt_irrefl 0)
        · exact ⟨hG (by simp [Pc.marksClosed]), nofun⟩
      have hold : pc.inDrop = false := by
        simpa using List.countP_eq_zero.1 hnone.1 pc hmem
      have hnew : pc'.inDrop = false := by
        by_contra hdrop
        rcases (points_of_next hnext).2 (Bool.not_eq_false _ ▸ hdrop) with hpc | hpc
        · rw [hold] at hpc
          cases hpc
        · exact hnone.2 hpc
      exact Pool.countP_step hnone.1 (by rw [hold, hnew])
  have hs := hrun.1.relied _ hreturned
  rw [hrun.1.engineReferences_of_closed hs, hrun.2 _ hs]

/-- A call of which `n` steps are taken, and then a whole close. -/
def callThenClose (n : ℕ) : List (Pool.Op Entry Bool) :=
  .start .call :: List.replicate n (.step 0 false) ++
    .start .close :: List.replicate 17 (.step 1 false)

/-- The close of a store whose call is over. -/
theorem close_after_call_destroys :
    machine.Meets LeasesReleased machine.init (callThenClose 15) ∧
      .returned .destroy .ok ∈ (machine.run (callThenClose 15)).threads ∧
      engineReferences (machine.run (callThenClose 15)) = 0 := by
  have hmeets : machine.Meets LeasesReleased machine.init (callThenClose 15) := by decide +kernel
  have hreturned : .returned .destroy .ok ∈ (machine.run (callThenClose 15)).threads := by
    decide +kernel
  exact ⟨hmeets, hreturned, close_returns_after_destruction hmeets hreturned⟩

/-- A close that runs while the call's lease is in its drop returns success, and the lease still holds
the engine. -/
theorem close_during_drop_leaves_engine :
    .returned .destroy .ok ∈ (machine.run (callThenClose 13)).threads ∧
      engineReferences (machine.run (callThenClose 13)) = 1 := by
  decide +kernel

end CloseSystem

end EventSorcery
