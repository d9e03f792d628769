import EventSorcery.Lib.RefCount
import EventSorcery.CloseSystem

/-!
# Owner cells, the store registry and the stores in memory

Bindings own cells that a handle is written to. Opening builds a store, registers it under the
cell's address and leaks one reference to it into the cell; calls find the store again through the
registry; closing takes the handle back, and whoever retires the registration reclaims the leaked
reference. Any number of cells is opened, used, closed and opened again, by any number of threads,
and a freed store's address may be given to the next one.

One step is what a thread does while it holds a lock. A thread that waits on the condition variable
takes its step when the state allows it. The engine inside a store is not modelled, only whether the
store still has it.
-/

namespace EventSorcery.OwnerSystem

/-! ## The model -/

/-- A store in memory. The first two fields are for the statements only: the cell the store was
built for, and which store it is. -/
structure OwnedStore where
  owner : ℕ
  serial : ℕ
  state : StoreState
  inner : Bool
  poisoned : Bool

/-- What threads share. `registry` has the store registered for an owner's address and `cells` has
what the owner's cell holds, `none` for null. -/
structure Shared where
  heap : RcHeap OwnedStore
  registry : ℕ → Option ℕ
  cells : ℕ → Option ℕ
  built : ℕ

/-- A reference to a store, as a thread has it. -/
structure Handle where
  owner : ℕ
  addr : ℕ
  serial : ℕ

/-- Where a thread that has a reference is. A name says what the thread does next. -/
inductive Point where
  -- `publish_store`, and the end of `es_open` after it was refused
  | publish | unpublished
  -- `ffi_call` under a lease, and `StoreLease::drop`
  | enter | call | uncount (ran : Bool) | leave (ran : Bool)
  -- `EsStore::close` in either role
  | join | drain | take | markClosed (outcome : CloseOutcome)
  -- `retire_store`, and the return of `es_close`
  | retire (outcome : CloseOutcome) | reclaim (outcome : CloseOutcome)
  | discard (outcome : CloseOutcome) | returning (outcome : CloseOutcome)

inductive Refusal where
  | storeIsClosed
  | storeIsClosing
  | activeCallCountOverflow

/-- What a call returned. -/
inductive Result where
  | opened
  | openFailed
  | alreadyOpen
  | refused (why : Refusal)
  /-- The call had a lease; it did not run if the store was poisoned. -/
  | called (ran : Bool)
  | absorbed
  | ownerMismatch
  | closed (outcome : CloseOutcome)
  /-- The call used a store that was freed. -/
  | faulted

inductive Pc where
  | opening (owner : ℕ)
  | building (owner : ℕ)
  | acquiring (owner : ℕ)
  | closing (owner : ℕ)
  | holding (handle : Handle) (point : Point)
  | done (result : Result)

/-- What a step meets from outside: whether what the thread runs succeeds, and the address that the
allocator has for a new store. -/
structure Choice where
  ok : Bool
  addr : ℕ

namespace Shared

variable (s : Shared)

def clearCell (owner : ℕ) : Shared := { s with cells := Function.update s.cells owner none }

def modify (a : ℕ) (f : OwnedStore → OwnedStore) : Shared := { s with heap := s.heap.modify a f }

def clone (a : ℕ) : Shared := { s with heap := s.heap.clone a }

def release (a : ℕ) : Shared := { s with heap := s.heap.release a }

/-- A new store for an owner's cell. -/
def build (owner a : ℕ) : Shared :=
  { s with
    heap := s.heap.alloc a ⟨owner, s.built, .opened 0, true, false⟩
    built := s.built + 1 }

/-- Look at the store behind a reference. -/
def onStore (a : ℕ) (k : OwnedStore → Option (Shared × Pc)) : Option (Shared × Pc) :=
  match s.heap.get a with
  | none => some ({ s with heap := { s.heap with fault := true } }, .done .faulted)
  | some store => k store

/-- One more reference, which goes into the owner's cell, and an entry for the store. -/
def register (handle : Handle) : Shared :=
  { s.clone handle.addr with
    registry := Function.update s.registry handle.owner (some handle.addr)
    cells := Function.update s.cells handle.owner (some handle.addr) }

/-- `publish_store`, under the registry's lock. -/
def publishStore (handle : Handle) : Shared × Pc :=
  if (s.registry handle.owner).isSome then (s, .holding handle .unpublished)
  else (s.register handle, .done .opened)

/-- `EsStore::acquire`, under the registry's lock and the store's. -/
def acquire (owner : ℕ) : Option (Shared × Pc) :=
  match s.registry owner with
  | none => some (s, .done (.refused .storeIsClosed))
  | some a =>
      if s.cells owner ≠ some a then some (s, .done (.refused .storeIsClosed))
      else s.onStore a fun store =>
        match store.state with
        | .opened n =>
            if !store.inner then some (s, .done (.refused .storeIsClosed))
            else if n + 1 < 2 ^ 64 then
              some ((s.clone a).modify a fun store => { store with state := .opened (n + 1) },
                .holding ⟨owner, a, store.serial⟩ .enter)
            else some (s, .done (.refused .activeCallCountOverflow))
        | _ => some (s, .done (.refused .storeIsClosing))

/-- `linearize_close`, under the registry's lock and the store's. -/
def linearizeClose (owner : ℕ) : Option (Shared × Pc) :=
  match s.registry owner with
  | none => some (s.clearCell owner, .done .absorbed)
  | some a =>
      if (s.cells owner).any (· ≠ a) then some (s, .done .ownerMismatch)
      else s.onStore a fun store =>
        match store.state with
        | .opened n =>
            some (((s.clearCell owner).clone a).modify a fun store =>
              { store with state := .closing n }, .holding ⟨owner, a, store.serial⟩ .drain)
        | _ => some ((s.clearCell owner).clone a, .holding ⟨owner, a, store.serial⟩ .join)

/-- `StoreLease::drop`, under the store's lock. -/
def uncount (a : ℕ) (store : OwnedStore) : Shared :=
  match store.state with
  | .opened (n + 1) => s.modify a fun store => { store with state := .opened n }
  | .closing (n + 1) => s.modify a fun store => { store with state := .closing n }
  | _ => s.modify a fun store => { store with poisoned := true }

/-- One step of a thread that has a reference; `none` while it waits. -/
def move (handle : Handle) (ok : Bool) : Point → Option (Shared × Pc)
  | .publish => some (s.publishStore handle)
  | .unpublished => some (s.release handle.addr, .done .alreadyOpen)
  | .enter =>
      s.onStore handle.addr fun store =>
        if store.poisoned then some (s, .holding handle (.uncount false))
        else some (s, .holding handle .call)
  | .call =>
      if ok then some (s, .holding handle (.uncount true))
      else some (s.modify handle.addr fun store => { store with poisoned := true },
        .holding handle (.uncount true))
  | .uncount ran =>
      s.onStore handle.addr fun store =>
        some (s.uncount handle.addr store, .holding handle (.leave ran))
  | .leave ran => some (s.release handle.addr, .done (.called ran))
  | .join =>
      s.onStore handle.addr fun store =>
        match store.state with
        | .closed outcome => some (s, .holding handle (.retire outcome))
        | _ => none
  | .drain =>
      s.onStore handle.addr fun store =>
        match store.state with
        | .closing (_ + 1) => none
        | _ => some (s, .holding handle .take)
  | .take =>
      some (s.modify handle.addr fun store => { store with inner := false },
        .holding handle (.markClosed (if ok then .ok else .panic)))
  | .markClosed outcome =>
      some (s.modify handle.addr fun store => { store with state := .closed outcome },
        .holding handle (.retire outcome))
  | .retire outcome =>
      if s.registry handle.owner = some handle.addr then
        some ({ s with registry := Function.update s.registry handle.owner none },
          .holding handle (.reclaim outcome))
      else some (s, .holding handle (.returning outcome))
  | .reclaim outcome => some (s.release handle.addr, .holding handle (.discard outcome))
  | .discard outcome => some (s.release handle.addr, .holding handle (.returning outcome))
  | .returning outcome => some (s.release handle.addr, .done (.closed outcome))

end Shared

/-- One step of a thread. `es_open` clears the cell before it builds anything, without a lock. -/
def next (s : Shared) : Pc → Choice → Option (Shared × Pc)
  | .opening owner, choice =>
      some (s.clearCell owner, if choice.ok then .building owner else .done .openFailed)
  | .building owner, choice =>
      if !choice.ok then some (s, .done .openFailed)
      else if (s.heap.cells choice.addr).isSome then none
      else some (s.build owner choice.addr, .holding ⟨owner, choice.addr, s.built⟩ .publish)
  | .acquiring owner, _ => s.acquire owner
  | .closing owner, _ => s.linearizeClose owner
  | .holding handle point, choice => s.move handle choice.ok point
  | .done _, _ => none

/-- The entry points of the library; `call` is any call on a store but `es_close`. -/
inductive Entry where
  | esOpen (owner : ℕ)
  | call (owner : ℕ)
  | esClose (owner : ℕ)

def Entry.pc : Entry → Pc
  | .esOpen owner => .opening owner
  | .call owner => .acquiring owner
  | .esClose owner => .closing owner

def Shared.init : Shared := ⟨.empty, fun _ => none, fun _ => none, 0⟩

/-- Any number of threads on any number of owner cells. -/
def machine : Machine (Pool Shared Pc) (Pool.Op Entry Choice) := Pool.machine .init Entry.pc next

/-! ## What threads hold -/

/-- The references of a thread: its own, and those it has taken over from the registry. -/
def Point.refs : Point → ℕ
  | .reclaim _ => 3
  | .discard _ => 2
  | _ => 1

/-- The thread has a lease: it was counted, and its drop has not counted it off. -/
def Point.hasLease : Point → Bool
  | .enter | .call | .uncount _ => true
  | _ => false

/-- The thread has taken the role of closing the store, and has not done it. -/
def Point.isCloser : Point → Bool
  | .drain | .take | .markClosed _ => true
  | _ => false

def Point.isRetirer : Point → Bool
  | .retire _ => true
  | _ => false

namespace Pc

def refs (a : ℕ) : Pc → ℕ
  | holding handle point => if handle.addr = a then point.refs else 0
  | _ => 0

/-- Whether the thread is at one of some points with the store at `a`. -/
def isAt (p : Point → Bool) (a : ℕ) : Pc → Bool
  | holding handle point => handle.addr = a && p point
  | _ => false

end Pc

/-- The references of the registry to the store at `a`: the entry's own, and the leaked one. -/
def entryRefs (s : Shared) (a : ℕ) : ℕ :=
  2 * ((s.heap.get a).any fun store => s.registry store.owner == some a).toNat

/-- All references to the store at `a`. -/
def references (s : Shared) (threads : List Pc) (a : ℕ) : ℕ :=
  entryRefs s a + (threads.map (Pc.refs a)).sum

end EventSorcery.OwnerSystem
