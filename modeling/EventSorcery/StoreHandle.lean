import EventSorcery.Lib.Masked
import EventSorcery.Lib.Pool

/-!
# The store handle of the bindings

A store of the bindings is a foreign pointer to the cell that the engine keeps its handle in, and a
gate that lets one call at a time through. Opening one allocates the cell, opens the engine and hands
the cell to a finalizer; a call takes the gate, looks whether the cell holds a handle and makes its
foreign call; the buffers that the engine answers with are copied and given back. Any number of
threads do that, and exceptions may be thrown into them.

The actions are those of the bindings, over the calls they make to the runtime and to the engine.
What the calls do is `effect`; a foreign call is entered and left, and nothing interrupts it between
the two. The memory behind cells and variables is reused.
-/

namespace EventSorcery.StoreHandle

open Masked

/-! ## Calls -/

/-- A function of the engine: it opens the store, closes it, or does anything else, with an output
buffer or without. -/
inductive Foreign where
  | esOpen
  | esClose
  | request (hasOutput : Bool)
  deriving DecidableEq, Repr

inductive Buffer where
  | output
  | error
  deriving DecidableEq, Repr

/-- A store: its cell and its gate. -/
structure Store where
  owner : ℕ
  gate : ℕ
  deriving DecidableEq, Repr

/-- What a thread calls. The last four stand for what the rest of the program does with a store: pass
it to a call, get it from an opener, drop it, and collect it. -/
inductive Call where
  | malloc
  | poke (cell : ℕ)
  | peek (cell : ℕ)
  | free (cell : ℕ)
  | enter (function : Foreign) (cell : ℕ)
  | leave (function : Foreign) (cell : ℕ)
  | readBuffer (buffer : Buffer)
  | esBufFree (buffer : Buffer)
  | newMVar
  | takeMVar (gate : ℕ)
  | putMVar (gate : ℕ)
  | newForeignPtr (cell : ℕ)
  | touch (cell : ℕ)
  | receive (cell : ℕ)
  | deliver (store : Store)
  | forget (cell : ℕ)
  | collect (cell : ℕ)
  deriving DecidableEq, Repr

/-- A new cell or variable, whether a cell is null, whether a foreign call succeeded, and the gate of
a store. -/
def Call.Answer : Call → Type
  | malloc | newMVar | receive _ => ℕ
  | peek _ | leave _ _ => Bool
  | _ => Unit

abbrev Io := Act Call Call.Answer

/-- A call at which exceptions may arrive before and after. -/
def io (c : Call) : Io c.Answer := Act.lift c

/-- A call that nothing interrupts. -/
def atomically (c : Call) : Io c.Answer := Act.perform c

/-! ## The bindings -/

/-- Failures of a call, without their contents. -/
inductive Failure where
  | storeIsClosed
  | engine
  deriving DecidableEq, Repr

structure StoreAcquisition (Cell Gate Owner Error St : Type) where
  allocate : Io Cell
  openCell : Cell → Io (Except Error Unit)
  close : Cell → Io Unit
  free : Cell → Io Unit
  createGate : Io Gate
  createOwner : Cell → Io Unit → Io Owner
  assemble : Owner → Gate → St

variable {Cell Gate Owner Error St R : Type}

def StoreAcquisition.release (acquisition : StoreAcquisition Cell Gate Owner Error St) (cell : Cell) :
    Io Unit :=
  .andFinally (acquisition.close cell) (acquisition.free cell)

def acquireStore (acquisition : StoreAcquisition Cell Gate Owner Error St) : Io (Except Error St) :=
  .mask fun restore => do
    let cell ← acquisition.allocate
    let opened ← .onException (restore (acquisition.openCell cell)) (acquisition.release cell)
    match opened with
    | .error failure => do
        acquisition.release cell
        pure (.error failure)
    | .ok () => do
        let gate ← .onException acquisition.createGate (acquisition.release cell)
        let owner ← .onException (acquisition.createOwner cell (acquisition.release cell))
          (acquisition.release cell)
        pure (.ok (acquisition.assemble owner gate))

def foreign (function : Foreign) (cell : ℕ) : Io Bool := do
  Act.poll
  atomically (.enter function cell)
  let ok ← atomically (.leave function cell)
  Act.poll
  pure ok

def withErrorBuffer (action : Io R) : Io R := .andFinally action (io (.esBufFree .error))

def readOwnedBuffer : Io (Except Failure Unit) := do
  io (.readBuffer .output)
  pure (.ok ())

def readEngineError : Io (Except Failure Unit) := do
  io (.readBuffer .error)
  pure (.error .engine)

def callWithoutOutput (call : Io Bool) : Io (Except Failure Unit) :=
  withErrorBuffer do
    let ok ← call
    if ok then pure (.ok ()) else readEngineError

def callWithOutput (call : Io Bool) : Io (Except Failure Unit) :=
  .andFinally
    (withErrorBuffer do
      let ok ← call
      if ok then readOwnedBuffer else readEngineError)
    (io (.esBufFree .output))

def allocateStoreCell : Io ℕ := do
  let cell ← io .malloc
  Act.onException (io (.poke cell)) (io (.free cell))
  pure cell

def closeStoreCell (cell : ℕ) : Io Unit := do
  let _ ← foreign .esClose cell
  pure ()

def storeAcquisition : StoreAcquisition ℕ ℕ ℕ Failure Store where
  allocate := allocateStoreCell
  openCell cell := callWithoutOutput (foreign .esOpen cell)
  close := closeStoreCell
  free cell := io (.free cell)
  createGate := io .newMVar
  createOwner cell _ := do
    io (.newForeignPtr cell)
    pure cell
  assemble owner gate := ⟨owner, gate⟩

def openCompatibleStore : Io (Except Failure Store) := acquireStore storeAcquisition

/-- The pointer is kept alive to the end of the action. -/
def withForeignPtr (cell : ℕ) (action : Io R) : Io R := do
  let r ← Act.onException action (atomically (.touch cell))
  atomically (.touch cell)
  pure r

def withGate (store : Store) (action : Io R) : Io R :=
  .withMVar (atomically (.takeMVar store.gate)) (atomically (.putMVar store.gate)) action

def withOpenStore (store : Store) (action : ℕ → Io (Except Failure R)) : Io (Except Failure R) :=
  withGate store <| withForeignPtr store.owner do
    let null : Bool ← io (.peek store.owner)
    if null then pure (.error .storeIsClosed) else action store.owner

def closeStore (store : Store) : Io Bool :=
  withGate store <| withForeignPtr store.owner (foreign .esClose store.owner)

/-- Any other function of the bindings that calls the engine. -/
def request (store : Store) (hasOutput : Bool) : Io (Except Failure Unit) :=
  withOpenStore store fun cell =>
    if hasOutput then callWithOutput (foreign (.request true) cell)
    else callWithoutOutput (foreign (.request false) cell)

/-! ## Threads -/

inductive Entry where
  | openStore
  | closeStore (cell : ℕ)
  | request (cell : ℕ) (hasOutput : Bool)
  | forget (cell : ℕ)
  | finalize (cell : ℕ)
  deriving DecidableEq, Repr

/-- What a thread does. -/
def Entry.action : Entry → Io Unit
  | openStore => do
      match ← openCompatibleStore with
      | .error _ => pure ()
      | .ok store => atomically (.deliver store)
  | closeStore cell => do
      let gate ← atomically (.receive cell)
      let _ ← StoreHandle.closeStore ⟨cell, gate⟩
      pure ()
  | request cell hasOutput => do
      let gate ← atomically (.receive cell)
      let _ ← StoreHandle.request ⟨cell, gate⟩ hasOutput
      pure ()
  | forget cell => atomically (.forget cell)
  | finalize cell => do
      atomically (.collect cell)
      storeAcquisition.release cell

/-- No exception is thrown into a finalizer. -/
def Entry.masked : Entry → Bool
  | finalize _ => true
  | _ => false

def Entry.program (entry : Entry) : Prog Call Call.Answer Unit := entry.action entry.masked

/-- What a thread has in its hands: a cell that it has to free, the owner that it has created for a
cell, the store of its call, the gate it has taken, whether it knows the cell to hold a handle, the
foreign call it is in, and whether its buffers are filled. -/
structure Local where
  raw : Option ℕ := none
  owner : Option ℕ := none
  store : Option Store := none
  gate : Option ℕ := none
  seen : Option Bool := none
  calling : Option (Foreign × ℕ) := none
  output : Bool := false
  error : Bool := false
  deriving DecidableEq, Repr

namespace Local

def buffer (l : Local) : Buffer → Bool
  | .output => l.output
  | .error => l.error

def after (l : Local) : (c : Call) → c.Answer → Local
  | .malloc, cell => { l with raw := some cell, seen := some false }
  | .peek _, null => { l with seen := some (!null) }
  | .free _, _ => { l with raw := none, seen := none }
  | .enter function cell, _ => { l with calling := some (function, cell) }
  | .leave .esOpen _, ok => { l with calling := none, seen := some ok, error := !ok }
  | .leave .esClose _, _ => { l with calling := none, seen := some false }
  | .leave (.request hasOutput) _, ok =>
      { l with calling := none, output := hasOutput && ok, error := !ok }
  | .esBufFree .output, _ => { l with output := false }
  | .esBufFree .error, _ => { l with error := false }
  | .takeMVar gate, _ => { l with gate := some gate, seen := none }
  | .putMVar _, _ => { l with gate := none, seen := none }
  | .newForeignPtr cell, _ => { l with raw := none, owner := some cell, seen := none }
  | .touch _, _ => { l with store := none, seen := none }
  | .receive cell, gate => { l with store := some ⟨cell, gate⟩ }
  | .deliver _, _ => { l with owner := none }
  | .collect cell, _ => { l with raw := some cell, seen := none }
  | .poke _, _ | .readBuffer _, _ | .newMVar, _ | .forget _, _ => l

/-- A thread that has ended refers to nothing. -/
def ended (l : Local) : Local := { l with owner := none, store := none, seen := none }

end Local

/-- Who is to free a cell: a thread, or the finalizer of its owner. -/
inductive Phase where
  | raw
  | owned
  deriving DecidableEq, Repr

/-- A cell: whether it holds a handle, the gate of the store it was delivered in, and whether the
program still has that store. -/
structure CellState where
  phase : Phase
  handle : Bool
  gate : Option ℕ
  user : Bool
  deriving DecidableEq, Repr

/-- The cells and the variables that there are, the engine's buffers that have not been given back,
and whether memory or a variable was misused. A variable is `true` while it is full. -/
structure Shared where
  cells : ℕ → Option CellState
  gates : ℕ → Option Bool
  buffers : ℕ
  fault : Bool

namespace Shared

def empty : Shared := ⟨fun _ => none, fun _ => none, 0, false⟩

def setCell (s : Shared) (cell : ℕ) (state : Option CellState) : Shared :=
  { s with cells := Function.update s.cells cell state }

def setGate (s : Shared) (gate : ℕ) (full : Bool) : Shared :=
  { s with gates := Function.update s.gates gate (some full) }

/-- Memory that is not there was used. -/
def faulted (s : Shared) : Shared := { s with fault := true }

/-- Work on a cell that is there. -/
def withCell (s : Shared) (cell : ℕ) (f : CellState → Shared) : Shared :=
  match s.cells cell with
  | none => s.faulted
  | some state => f state

end Shared

/-- What a call meets from outside: whether an exception arrives, whether a foreign call succeeds, and
where memory is found. -/
structure Choice where
  throw : Bool
  ok : Bool
  address : ℕ

/-- Calls that may throw; a thread that waits for a variable may be interrupted. -/
def Call.throws : Call → Bool
  | malloc | poke _ | readBuffer _ | newMVar | takeMVar _ | newForeignPtr _ => true
  | _ => false

/-- What a foreign call leaves behind. A failed call fills the error buffer. -/
def Shared.leave (s : Shared) (function : Foreign) (cell : ℕ) (ok : Bool) : Shared :=
  s.withCell cell fun state =>
    match function with
    | .esOpen =>
        { s.setCell cell (some { state with handle := ok }) with
          buffers := s.buffers + (!ok).toNat }
    | .esClose => s.setCell cell (some { state with handle := false })
    | .request hasOutput =>
        { s with buffers := s.buffers + (hasOutput && ok).toNat + (!ok).toNat }

/-- A foreign call needs its cell; one that opens the store must not find a handle in it, and a request
must find one. -/
def Shared.enter (s : Shared) (function : Foreign) (cell : ℕ) : Shared :=
  s.withCell cell fun state =>
    match function with
    | .esOpen => if state.handle then s.faulted else s
    | .esClose => s
    | .request _ => if state.handle then s else s.faulted

/-- The answer to a call and what it does; nothing while it blocks. -/
def effect (s : Shared) (l : Local) (choice : Choice) : (c : Call) → Option (c.Answer × Shared)
  | .malloc =>
      if (s.cells choice.address).isNone then
        some (choice.address, s.setCell choice.address (some ⟨.raw, false, none, false⟩))
      else none
  | .poke cell => some ((), s.withCell cell fun _ => s)
  | .peek cell =>
      match s.cells cell with
      | none => some (true, s.faulted)
      | some state => some (!state.handle, s)
  | .free cell =>
      some ((), s.withCell cell fun state =>
        if state.handle then s.faulted else s.setCell cell none)
  | .enter function cell => some ((), s.enter function cell)
  | .leave function cell => some (choice.ok, s.leave function cell choice.ok)
  | .readBuffer buffer => some ((), if l.buffer buffer then s else s.faulted)
  | .esBufFree buffer => some ((), { s with buffers := s.buffers - (l.buffer buffer).toNat })
  | .newMVar =>
      if (s.gates choice.address).isNone then
        some (choice.address, s.setGate choice.address true)
      else none
  | .takeMVar gate => if s.gates gate = some true then some ((), s.setGate gate false) else none
  | .putMVar gate =>
      some ((), if s.gates gate = some false then s.setGate gate true else s.faulted)
  | .newForeignPtr cell =>
      some ((), s.withCell cell fun state => s.setCell cell (some { state with phase := .owned }))
  | .touch cell => some ((), s.withCell cell fun _ => s)
  | .receive cell =>
      match s.cells cell with
      | some ⟨_, _, some gate, true⟩ => some (gate, s)
      | _ => none
  | .deliver store =>
      some ((), s.withCell store.owner fun state =>
        s.setCell store.owner (some { state with gate := some store.gate, user := true }))
  | .forget cell =>
      some ((), match s.cells cell with
        | none => s
        | some state => s.setCell cell (some { state with user := false }))
  | .collect cell =>
      match s.cells cell with
      | some ⟨.owned, handle, _, _⟩ => some ((), s.setCell cell (some ⟨.raw, handle, none, false⟩))
      | _ => none

/-- A thread: what it has in its hands, and the rest of its program. -/
structure Thread where
  locals : Local
  program : Prog Call Call.Answer Unit

def Thread.resume (l : Local) : Prog Call Call.Answer Unit → Thread
  | .ret r => ⟨l.ended, .ret r⟩
  | program => ⟨l, program⟩

def next (s : Shared) (t : Thread) (choice : Choice) : Option (Shared × Thread) :=
  match t.program with
  | .ret _ => none
  | .call .point rest => some (s, .resume t.locals (rest choice.throw))
  | .call (.call c) rest =>
      if choice.throw && c.throws then some (s, .resume t.locals (rest none))
      else (effect s t.locals choice c).map fun (a, s') =>
        (s', .resume (t.locals.after c a) (rest (some a)))

def machine : Machine (Pool Shared Thread) (Pool.Op Entry Choice) :=
  Pool.machine .empty (fun entry => ⟨{}, entry.program⟩) next

/-- Neither the program nor a thread that has not ended refers to the owner of the cell. -/
def unreachable (p : Pool Shared Thread) (cell : ℕ) : Bool :=
  !(p.shared.cells cell).any CellState.user &&
    p.threads.all fun t =>
      t.locals.owner != some cell && t.locals.store.map Store.owner != some cell

/-- A finalizer starts when its owner cannot be reached any more. -/
def collects (p : Pool Shared Thread) : Pool.Op Entry Choice → Bool
  | .start _ => true
  | .step i _ =>
      match p.threads[i]?.map Thread.program with
      | some (.call (.call (.collect cell)) _) => unreachable p cell
      | _ => true

end EventSorcery.StoreHandle
