import EventSorcery.StoreHandle

/-!
# Safety of the store handle

Whatever threads open, use, close and drop stores, and wherever exceptions arrive in them, memory that
is gone is not touched, the engine is entered once at a time per store and asked only while the store
is open, and nothing is lost: `store_handles_are_safe`.

The first half is about one thread: every action of the bindings keeps to a protocol over what the
thread has in its hands, and ends with nothing in them. The second half is about all of them: what is
in the hands of the threads is what the cells, the gates and the engine's buffers say.
-/

namespace EventSorcery.StoreHandle

open Masked

/-! ## The protocol -/

/-- The thread is in a call on the store of the cell and has its gate. -/
def Local.Guards (l : Local) (cell : ℕ) : Prop :=
  ∃ gate, l.store = some ⟨cell, gate⟩ ∧ l.gate = some gate

/-- The calls that a thread may make with what it has in its hands. -/
def Local.Allowed (l : Local) : Call → Prop
  | .malloc | .receive _ | .collect _ => l = {}
  | .poke cell => l.raw = some cell ∧ l.calling = none
  | .peek cell => l.Guards cell ∧ l.calling = none
  | .free cell => l.raw = some cell ∧ l.seen = some false ∧ l.calling = none
  | .enter function cell =>
      l.calling = none ∧ l.output = false ∧ l.error = false ∧
        match function with
        | .esOpen => l.raw = some cell ∧ l.seen = some false
        | .esClose => l.raw = some cell ∨ l.Guards cell
        | .request _ => l.Guards cell ∧ l.seen = some true
  | .leave function cell => l.calling = some (function, cell)
  | .readBuffer buffer => l.buffer buffer = true
  | .newMVar => l.gate = none ∧ l.calling = none
  | .esBufFree _ | .forget _ => l.calling = none
  | .takeMVar gate => (∃ cell, l.store = some ⟨cell, gate⟩) ∧ l.gate = none ∧ l.calling = none
  | .putMVar gate => l.gate = some gate ∧ l.calling = none
  | .newForeignPtr cell => l.raw = some cell ∧ l.owner = none ∧ l.calling = none
  | .touch cell => (∃ gate, l.store = some ⟨cell, gate⟩) ∧ l.calling = none
  | .deliver store => l = { owner := some store.owner }

def protocol : Protocol Call Call.Answer Local where
  allowed := Local.Allowed
  throws := Call.throws
  after := Local.after

/-- There is nothing left that the thread would have to give back. -/
structure Local.Quiet (l : Local) : Prop where
  raw : l.raw = none
  gate : l.gate = none
  calling : l.calling = none
  output : l.output = false
  error : l.error = false

/-! ## Actions -/

section Actions

variable {Q : R → Local → Prop} {E : Local → Prop} {l l₀ : Local} {m : Bool} {function : Foreign}
  {cell : ℕ} {R : Type}

theorem wp_io {c : Call} {Q : c.Answer → Local → Prop} (hE : m = false → E l) (hallowed : l.Allowed c)
    (hthrows : c.throws → E l) (hE' : ∀ a, m = false → E (l.after c a)) (hQ : ∀ a, Q a (l.after c a)) :
    wp protocol (io c) m Q E l :=
  .lift hE hallowed hthrows hE' hQ

/-- In a masked action, a call that does not throw is just made. -/
theorem wp_io_masked {c : Call} {Q : c.Answer → Local → Prop} (hallowed : l.Allowed c)
    (hthrows : c.throws = false) (hQ : ∀ a, Q a (l.after c a)) : wp protocol (io c) true Q E l :=
  wp_io nofun hallowed (by simp [hthrows]) (fun _ => nofun) hQ

theorem wp_atomically {c : Call} {Q : c.Answer → Local → Prop} (hallowed : l.Allowed c)
    (hthrows : c.throws → E l) (hQ : ∀ a, Q a (l.after c a)) : wp protocol (atomically c) m Q E l :=
  .perform hallowed hthrows hQ

/-- What a thread has in its hands after a foreign call. -/
def Local.left (l : Local) (function : Foreign) (cell : ℕ) (ok : Bool) : Local :=
  (l.after (.enter function cell) ()).after (.leave function cell) ok

theorem wp_foreign {Q : Bool → Local → Prop} (hallowed : l.Allowed (.enter function cell))
    (hE : m = false → E l) (hE' : ∀ ok, m = false → E (l.left function cell ok))
    (hQ : ∀ ok, Q ok (l.left function cell ok)) : wp protocol (foreign function cell) m Q E l :=
  .bind (.poll hE (.bind (wp_atomically hallowed nofun fun _ =>
    .bind (wp_atomically rfl nofun fun ok => .bind (.poll (hE' ok) (.pure (hQ ok)))))))

/-- Up to what it knows of the cell, the thread has `l₀` in its hands. -/
def Clean (l₀ l : Local) : Prop := ∃ seen, l = { l₀ with seen := seen }

/-- Beside that, the buffers of its foreign call may be filled. -/
def Filled (function : Foreign) (l₀ l : Local) : Prop :=
  ∃ seen output error, (output = true → function = .request true) ∧
    l = { l₀ with seen := seen, output := output, error := error }

/-- It is not in a foreign call, and its buffers are empty. -/
structure Local.Tidy (l : Local) : Prop where
  calling : l.calling = none
  output : l.output = false
  error : l.error = false

theorem Clean.filled (hl₀ : l₀.Tidy) (h : Clean l₀ l) : Filled function l₀ l := by
  obtain ⟨seen, rfl⟩ := h
  exact ⟨seen, l₀.output, l₀.error, by simp [hl₀.output], rfl⟩

theorem filled_left (hl₀ : l₀.Tidy) (h : Clean l₀ l) (function : Foreign) (cell : ℕ) (ok : Bool) :
    Filled function l₀ (l.left function cell ok) := by
  obtain ⟨seen, rfl⟩ := h
  have hcalling := hl₀.calling
  have houtput := hl₀.output
  have herror := hl₀.error
  obtain ⟨raw, owner, store, gate, seen', calling, output, error⟩ := l₀
  subst hcalling houtput herror
  cases function with
  | esOpen => exact ⟨some ok, false, !ok, nofun, rfl⟩
  | esClose => exact ⟨some false, false, false, nofun, rfl⟩
  | request hasOutput =>
      refine ⟨seen, hasOutput && ok, !ok, fun h => ?_, rfl⟩
      rw [(Bool.and_eq_true _ _ ▸ h : hasOutput = true ∧ ok = true).1]

theorem wp_withErrorBuffer {action : Io R} {I J : Local → Prop} (hl : m = false → I l)
    (hx : wp protocol action m (fun _ => I) I l)
    (hfree : ∀ l, I l → l.calling = none ∧ J { l with error := false }) :
    wp protocol (withErrorBuffer action) m (fun _ => J) J l :=
  .andFinally hl hx fun l h => wp_io_masked (hfree l h).1 rfl fun _ => (hfree l h).2

/-- The answer to a foreign call is read from the buffer that was filled. -/
theorem wp_answered {success : Io R} {failure : Io R} (hl₀ : l₀.Tidy) (hl : Clean l₀ l)
    (hallowed : l.Allowed (.enter function cell))
    (hsuccess : wp protocol success m (fun _ => Filled function l₀) (Filled function l₀)
      (l.left function cell true))
    (hfailure : wp protocol failure m (fun _ => Filled function l₀) (Filled function l₀)
      (l.left function cell false)) :
    wp protocol (do let ok ← foreign function cell
                    if ok then success else failure) m
      (fun _ => Filled function l₀) (Filled function l₀) l := by
  refine .bind (wp_foreign hallowed (fun _ => hl.filled hl₀)
    (fun ok _ => filled_left hl₀ hl function cell ok) fun ok => ?_)
  cases ok with
  | true => exact hsuccess
  | false => exact hfailure

theorem wp_readBuffer {buffer : Buffer} {r : R} (hl : Filled function l₀ l)
    (hbuffer : l.buffer buffer = true) :
    wp protocol (do io (.readBuffer buffer); pure r) m (fun _ => Filled function l₀)
      (Filled function l₀) l :=
  .bind (wp_io (fun _ => hl) hbuffer (fun _ => hl) (fun _ _ => hl) fun _ => .pure hl)

theorem left_error (hfunction : function ≠ .esClose) (l : Local) (cell : ℕ) :
    (l.left function cell false).buffer .error = true := by
  cases function with
  | esClose => exact absurd rfl hfunction
  | esOpen | request => rfl

/-- **A call without an output buffer** leaves nothing behind. -/
theorem wp_callWithoutOutput (hl₀ : l₀.Tidy) (hl : Clean l₀ l)
    (hallowed : l.Allowed (.enter function cell)) (hfunction : function ≠ .esClose)
    (hnone : function ≠ .request true) :
    wp protocol (callWithoutOutput (foreign function cell)) m (fun _ => Clean l₀) (Clean l₀) l := by
  have hleft := filled_left hl₀ hl function cell
  refine wp_withErrorBuffer (fun _ => hl.filled hl₀) (wp_answered hl₀ hl hallowed (.pure (hleft true))
    (wp_readBuffer (hleft false) (left_error hfunction l cell))) ?_
  rintro l ⟨seen, output, error, houtput, rfl⟩
  refine ⟨hl₀.calling, seen, ?_⟩
  have hempty : output = false := by simpa [hnone] using houtput
  simp [hempty, hl₀.output, hl₀.error]

/-- **A call with an output buffer** leaves nothing behind. -/
theorem wp_callWithOutput (hl₀ : l₀.Tidy) (hl : Clean l₀ l)
    (hallowed : l.Allowed (.enter (.request true) cell)) :
    wp protocol (callWithOutput (foreign (.request true) cell)) m (fun _ => Clean l₀) (Clean l₀) l := by
  have hleft := filled_left hl₀ hl (.request true) cell
  let Spilled (l : Local) : Prop := ∃ seen output, l = { l₀ with seen := seen, output := output }
  have hspilled : Spilled l := by
    obtain ⟨seen, rfl⟩ := hl
    exact ⟨seen, l₀.output, rfl⟩
  refine .andFinally (I := Spilled) (fun _ => hspilled) (wp_withErrorBuffer (fun _ => hl.filled hl₀)
    (wp_answered hl₀ hl hallowed (wp_readBuffer (hleft true) rfl)
      (wp_readBuffer (hleft false) rfl)) ?_) ?_
  · rintro l ⟨seen, output, error, -, rfl⟩
    exact ⟨hl₀.calling, seen, output, by simp [hl₀.error]⟩
  · rintro l ⟨seen, output, rfl⟩
    exact wp_io_masked hl₀.calling rfl fun _ => ⟨seen, by simp [Local.after, hl₀.output]⟩

/-- **Opening a store**, whatever fails: the cell is released or has an owner. -/
theorem wp_acquireStore {Cell Gate Owner Error St : Type}
    {acquisition : StoreAcquisition Cell Gate Owner Error St} {Idle : Local → Prop}
    {New Held : Cell → Local → Prop} {Owned : Owner → Local → Prop}
    (hallocate : wp protocol acquisition.allocate true New Idle l)
    (hnew : ∀ cell l, New cell l → Held cell l)
    (hopen : ∀ cell l, New cell l →
      wp protocol (acquisition.openCell cell) m (fun _ => Held cell) (Held cell) l)
    (hrelease : ∀ cell l, Held cell l →
      wp protocol (acquisition.release cell) true (fun _ => Idle) (fun _ => False) l)
    (hgate : ∀ cell l, Held cell l →
      wp protocol acquisition.createGate true (fun _ => Held cell) (Held cell) l)
    (howner : ∀ cell l, Held cell l →
      wp protocol (acquisition.createOwner cell (acquisition.release cell)) true Owned (Held cell) l) :
    wp protocol (acquireStore acquisition) m
      (fun opened l => match opened with
        | .error _ => Idle l
        | .ok store => ∃ owner gate, store = acquisition.assemble owner gate ∧ Owned owner l)
      (fun l => Idle l ∨ ∃ owner, Owned owner l) l := by
  have hclean (cell : Cell) (l : Local) (h : Held cell l) :
      wp protocol (acquisition.release cell) true (fun _ l => Idle l ∨ ∃ owner, Owned owner l)
        (fun l => Idle l ∨ ∃ owner, Owned owner l) l :=
    (hrelease cell l h).mono (fun _ _ h => .inl h) fun _ => False.elim
  refine .mask (.bind (hallocate.mono (fun cell l hcell => ?_) fun _ h => .inl h))
  refine .bind (.onException (.restoring (fun _ => hclean cell l (hnew cell l hcell))
    ((hopen cell l hcell).mono (fun opened l hheld => ⟨fun _ => hclean cell l hheld, ?_⟩)
      (hclean cell))))
  cases opened with
  | error failure =>
      exact .bind ((hrelease cell l hheld).mono (fun _ _ h => .pure ⟨fun _ => .inl h, h⟩)
        fun _ => False.elim)
  | ok =>
      refine .bind (.onException ((hgate cell l hheld).mono (fun gate l hheld => ?_) (hclean cell)))
      refine .bind (.onException ((howner cell l hheld).mono (fun owner l howned => ?_) (hclean cell)))
      exact .pure ⟨fun _ => .inr ⟨owner, howned⟩, owner, gate, rfl, howned⟩

theorem tidy_raw (cell : ℕ) : ({ raw := some cell } : Local).Tidy := ⟨rfl, rfl, rfl⟩

/-- Releasing a cell closes what is open behind it. -/
theorem wp_release (hl : Clean { raw := some cell } l) :
    wp protocol (storeAcquisition.release cell) true (fun _ l => l = {}) (fun _ => False) l := by
  obtain ⟨seen, rfl⟩ := hl
  let closed : Local := { raw := some cell, seen := some false }
  have hclose : wp protocol (closeStoreCell cell) true (fun _ l => l = closed) (fun _ => False)
      { raw := some cell, seen := seen } :=
    .bind (wp_foreign ⟨rfl, rfl, rfl, .inl rfl⟩ nofun (fun _ => nofun) fun ok => .pure rfl)
  refine .andFinally_masked hclose fun l hl => ?_
  subst hl
  exact wp_io_masked ⟨rfl, rfl, rfl⟩ rfl fun _ => rfl

/-- A store is opened with an owner, or its cell is gone. -/
theorem wp_openCompatibleStore :
    wp protocol openCompatibleStore m
      (fun opened l => match opened with
        | .error _ => l = {}
        | .ok store => l = { owner := some store.owner })
      (fun l => l = {} ∨ ∃ owner, l = { owner := some owner }) {} := by
  let New (cell : ℕ) (l : Local) : Prop := l = { raw := some cell, seen := some false }
  have hnew (cell : ℕ) (l : Local) (hl : New cell l) : Clean { raw := some cell } l := ⟨some false, hl⟩
  have hallocate : wp protocol allocateStoreCell true New (fun l => l = {}) {} := by
    refine .bind (wp_io nofun rfl (fun _ => rfl) (fun _ => nofun) fun cell => ?_)
    refine .bind (.onException (wp_io nofun ⟨rfl, rfl⟩ (fun _ => ?_) (fun _ => nofun) fun _ => ?_))
    · exact wp_io_masked ⟨rfl, rfl, rfl⟩ rfl fun _ => rfl
    · exact .pure rfl
  have hopen (cell : ℕ) (l : Local) (hl : New cell l) :
      wp protocol (callWithoutOutput (foreign .esOpen cell)) m
        (fun _ => Clean { raw := some cell }) (Clean { raw := some cell }) l := by
    subst hl
    exact wp_callWithoutOutput (tidy_raw cell) ⟨some false, rfl⟩ ⟨rfl, rfl, rfl, rfl, rfl⟩ nofun nofun
  have hgate (cell : ℕ) (l : Local) (hl : Clean { raw := some cell } l) :
      wp protocol (io .newMVar) true (fun _ => Clean { raw := some cell })
        (Clean { raw := some cell }) l := by
    refine wp_io nofun ?_ (fun _ => hl) (fun _ => nofun) fun _ => hl
    obtain ⟨seen, rfl⟩ := hl
    exact ⟨rfl, rfl⟩
  have howner (cell : ℕ) (l : Local) (hl : Clean { raw := some cell } l) :
      wp protocol (storeAcquisition.createOwner cell (storeAcquisition.release cell)) true
        (fun owner l => l = { owner := some owner }) (Clean { raw := some cell }) l := by
    obtain ⟨seen, rfl⟩ := hl
    exact .bind (wp_io nofun ⟨rfl, rfl, rfl⟩ (fun _ => ⟨seen, rfl⟩) (fun _ => nofun) fun _ => .pure rfl)
  refine (wp_acquireStore hallocate hnew hopen (fun _ _ => wp_release) hgate howner).mono
    (fun opened l h => ?_) fun l h => h
  cases opened with
  | error failure => exact h
  | ok store =>
      obtain ⟨owner, gate, rfl, hl⟩ := h
      exact hl

/-- The thread has taken the gate for a call on the store. -/
def Local.gated (store : Store) : Local := { store := some store, gate := some store.gate }

theorem tidy_gated (store : Store) : (Local.gated store).Tidy := ⟨rfl, rfl, rfl⟩

/-- It still has the gate, and perhaps the store. -/
def Leaving (gate : ℕ) (l : Local) : Prop := ∃ store, Clean { store := store, gate := some gate } l

theorem wp_withForeignPtr {store : Store} {action : Io R}
    (hx : wp protocol action m (fun _ => Clean (.gated store)) (Clean (.gated store)) l) :
    wp protocol (withForeignPtr store.owner action) m (fun _ => Leaving store.gate)
      (Leaving store.gate) l := by
  have htouch (l : Local) (hl : Clean (.gated store) l) :
      wp protocol (atomically (.touch store.owner)) m (fun _ => Leaving store.gate)
        (Leaving store.gate) l := by
    obtain ⟨seen, rfl⟩ := hl
    exact wp_atomically ⟨⟨store.gate, rfl⟩, rfl⟩ nofun fun _ => ⟨none, none, rfl⟩
  refine .bind (.onException (hx.mono (fun r l hl => ?_) htouch))
  exact .bind ((htouch l hl).mono (fun _ _ h => .pure h) fun _ h => h)

theorem wp_withGate {store : Store} {action : Io R}
    (hx : wp protocol action m (fun _ => Leaving store.gate) (Leaving store.gate) (.gated store)) :
    wp protocol (withGate store action) m (fun _ => Local.Quiet) Local.Quiet
      { store := some store } := by
  refine .withMVar (I := fun l => l = .gated store) (V := Leaving store.gate) ?_ ?_ ?_ ?_
  · exact wp_atomically ⟨⟨store.owner, rfl⟩, rfl, rfl⟩ (fun _ => ⟨rfl, rfl, rfl, rfl, rfl⟩) fun _ => rfl
  · rintro l rfl
    exact ⟨some store, none, rfl⟩
  · rintro l rfl
    exact hx
  · rintro l ⟨st, seen, rfl⟩
    exact wp_atomically ⟨rfl, rfl⟩ nofun fun _ => ⟨rfl, rfl, rfl, rfl, rfl⟩

/-- Every other call is made while the store is open. -/
theorem wp_request (store : Store) (hasOutput : Bool) :
    wp protocol (request store hasOutput) m (fun _ => Local.Quiet) Local.Quiet
      { store := some store } := by
  refine wp_withGate (wp_withForeignPtr ?_)
  have hclean (seen : Option Bool) : Clean (.gated store) { Local.gated store with seen := seen } :=
    ⟨seen, rfl⟩
  refine .bind (wp_io (fun _ => hclean none) ⟨⟨store.gate, rfl, rfl⟩, rfl⟩ (fun _ => hclean none)
    (fun null _ => hclean (some (!null))) fun null => ?_)
  cases null with
  | true => exact .pure (hclean (some false))
  | false =>
      have hallowed : ({ Local.gated store with seen := some true } : Local).Allowed
          (.enter (.request hasOutput) store.owner) := ⟨rfl, rfl, rfl, ⟨store.gate, rfl, rfl⟩, rfl⟩
      cases hasOutput with
      | true => exact wp_callWithOutput (tidy_gated store) (hclean (some true)) hallowed
      | false =>
          exact wp_callWithoutOutput (tidy_gated store) (hclean (some true)) hallowed nofun nofun

theorem wp_closeStore (store : Store) :
    wp protocol (closeStore store) m (fun _ => Local.Quiet) Local.Quiet { store := some store } := by
  have hallowed : (Local.gated store).Allowed (.enter .esClose store.owner) :=
    ⟨rfl, rfl, rfl, .inr ⟨store.gate, rfl, rfl⟩⟩
  refine wp_withGate (wp_withForeignPtr (wp_foreign hallowed ?_ ?_ ?_))
  · exact fun _ => ⟨none, rfl⟩
  · exact fun _ _ => ⟨some false, rfl⟩
  · exact fun _ => ⟨some false, rfl⟩

/-- **Every thread** keeps to the protocol and ends with nothing in its hands. -/
theorem wp_action (entry : Entry) :
    wp protocol entry.action entry.masked (fun _ => Local.Quiet) Local.Quiet {} := by
  have hidle : ({} : Local).Quiet := ⟨rfl, rfl, rfl, rfl, rfl⟩
  have howner (cell : ℕ) : ({ owner := some cell } : Local).Quiet := ⟨rfl, rfl, rfl, rfl, rfl⟩
  cases entry with
  | openStore =>
      refine .bind (wp_openCompatibleStore.mono (fun opened l h => ?_) fun l h => ?_)
      · cases opened with
        | error failure => exact .pure (h ▸ hidle)
        | ok store => exact wp_atomically h nofun fun _ => (by rw [h]; exact hidle)
      · rcases h with rfl | ⟨cell, rfl⟩
        · exact hidle
        · exact howner cell
  | closeStore cell =>
      refine .bind (wp_atomically rfl nofun fun gate => .bind ?_)
      exact (wp_closeStore ⟨cell, gate⟩).mono (fun _ _ h => .pure h) fun _ h => h
  | request cell hasOutput =>
      refine .bind (wp_atomically rfl nofun fun gate => .bind ?_)
      exact (wp_request ⟨cell, gate⟩ hasOutput).mono (fun _ _ h => .pure h) fun _ h => h
  | forget cell => exact wp_atomically rfl nofun fun _ => hidle
  | finalize cell =>
      refine .bind (wp_atomically rfl nofun fun _ => ?_)
      exact (wp_release ⟨none, rfl⟩).mono (fun _ _ h => h ▸ hidle) fun _ => False.elim

end Actions

/-! ## The invariant -/

/-- What a thread has in its hands is what it says. -/
structure Local.Ok (s : Shared) (l : Local) : Prop where
  raw : ∀ cell, l.raw = some cell → ∃ state, s.cells cell = some state ∧ state.phase = .raw ∧
    ∀ handle, l.seen = some handle → state.handle = handle
  owner : ∀ cell, l.owner = some cell → ∃ state, s.cells cell = some state ∧ state.phase = .owned ∧
    state.gate = none ∧ state.user = false
  store : ∀ cell gate, l.store = some ⟨cell, gate⟩ → ∃ state, s.cells cell = some state ∧
    state.phase = .owned ∧ state.gate = some gate ∧
    (l.gate = some gate → ∀ handle, l.seen = some handle → state.handle = handle)
  calling : ∀ function cell, l.calling = some (function, cell) →
    (l.raw = some cell ∨ l.Guards cell) ∧ l.output = false ∧ l.error = false
  alone : l.raw ≠ none → l.owner = none ∧ l.store = none

/-- The buffers of a thread that are filled. -/
def Local.filled (l : Local) : ℕ := l.output.toNat + l.error.toNat

/-- Whether a thread is to free the cell. -/
def Shared.isRaw (s : Shared) (cell : ℕ) : Bool := (s.cells cell).any fun state => state.phase == .raw

structure Inv (s : Shared) (threads : List Thread) : Prop where
  fault : s.fault = false
  follows : ∀ t ∈ threads, Follows protocol (fun _ => Local.Quiet) Local.Quiet t.locals t.program
  locals : ∀ t ∈ threads, t.locals.Ok s
  cells : ∀ cell state, s.cells cell = some state → state.phase = .raw →
    state.gate = none ∧ state.user = false
  raws : ∀ cell, threads.countP (fun t => t.locals.raw == some cell) = (s.isRaw cell).toNat
  owners : ∀ cell, threads.countP (fun t => t.locals.owner == some cell) ≤ 1
  gates : ∀ gate, threads.countP (fun t => t.locals.gate == some gate) =
    (s.gates gate == some false).toNat
  buffers : (threads.map fun t => t.locals.filled).sum = s.buffers

section Steps

variable {s s' : Shared} {l l' : Local} {before after : List Thread} {t t' u : Thread} {cell gate : ℕ}
  {state : CellState} {program : Prog Call Call.Answer Unit}

/-- The thread refers to the cell. -/
def Local.Uses (l : Local) (cell : ℕ) : Prop :=
  l.raw = some cell ∨ l.owner = some cell ∨ ∃ gate, l.store = some ⟨cell, gate⟩

/-- What a thread has in its hands is not touched by what happens to other cells. -/
theorem Local.Ok.frame (h : l.Ok s) (hcells : ∀ cell, l.Uses cell → s'.cells cell = s.cells cell) :
    l.Ok s' := by
  refine ⟨fun cell hraw => ?_, fun cell howner => ?_, fun cell gate hstore => ?_, h.calling, h.alone⟩
  · rw [hcells cell (.inl hraw)]
    exact h.raw cell hraw
  · rw [hcells cell (.inr (.inl howner))]
    exact h.owner cell howner
  · rw [hcells cell (.inr (.inr ⟨gate, hstore⟩))]
    exact h.store cell gate hstore

/-- A cell that a thread refers to is there; unless the thread is to free it, it has an owner. -/
theorem Local.Ok.exists_cell (h : l.Ok s) (huses : l.Uses cell) :
    ∃ state, s.cells cell = some state ∧ (l.raw = some cell ∨ state.phase = .owned) := by
  rcases huses with hraw | howner | ⟨gate, hstore⟩
  · obtain ⟨state, hstate, -⟩ := h.raw cell hraw
    exact ⟨state, hstate, .inl hraw⟩
  · obtain ⟨state, hstate, hphase, -⟩ := h.owner cell howner
    exact ⟨state, hstate, .inr hphase⟩
  · obtain ⟨state, hstate, hphase, -⟩ := h.store cell gate hstore
    exact ⟨state, hstate, .inr hphase⟩

/-- A step of a thread: the counts change with what it has in its hands. -/
structure Step (s s' : Shared) (l l' : Local) : Prop where
  fault : s'.fault = false
  own : l'.Ok s'
  cells : ∀ cell state, s'.cells cell = some state → state.phase = .raw →
    state.gate = none ∧ state.user = false
  raws : ∀ cell, (s'.isRaw cell).toNat + (l.raw == some cell).toNat =
    (s.isRaw cell).toNat + (l'.raw == some cell).toNat
  gates : ∀ gate, (s'.gates gate == some false).toNat + (l.gate == some gate).toNat =
    (s.gates gate == some false).toNat + (l'.gate == some gate).toNat
  buffers : s'.buffers + l.filled = s.buffers + l'.filled

theorem Inv.step (hinv : Inv s (before ++ ⟨l, program⟩ :: after)) (hstep : Step s s' l l')
    (howner : ∀ cell, l'.owner = some cell →
      l.owner = some cell ∨ ∀ u ∈ before ++ after, u.locals.owner ≠ some cell)
    (hothers : ∀ u ∈ before ++ after, u.locals.Ok s')
    {rest : Prog Call Call.Answer Unit}
    (hfollows : Follows protocol (fun _ => Local.Quiet) Local.Quiet l' rest) :
    Inv s' (before ++ ⟨l', rest⟩ :: after) := by
  refine ⟨hstep.fault, ?_, ?_, hstep.cells, fun cell => ?_, fun cell => ?_, fun gate => ?_, ?_⟩
  · exact Pool.forall_mem_split.2 ⟨hfollows, (Pool.forall_mem_split.1 hinv.follows).2⟩
  · exact Pool.forall_mem_split.2 ⟨hstep.own, hothers⟩
  · exact Pool.countP_step (hinv.raws cell) (hstep.raws cell)
  · have hmove := Pool.countP_move (fun t : Thread => t.locals.owner == some cell) before after
      ⟨l, program⟩ ⟨l', rest⟩
    have hle := hinv.owners cell
    by_cases hl' : l'.owner = some cell
    · rcases howner cell hl' with hl | hnone
      · simp only [hl, hl', beq_self_eq_true] at hmove
        omega
      · have hzero : (before ++ after).countP (fun t : Thread => t.locals.owner == some cell) = 0 :=
          List.countP_eq_zero.2 fun u hu => by simpa using hnone u hu
        simp only [List.countP_append, List.countP_cons] at hzero ⊢
        split_ifs <;> omega
    · simp only [beq_eq_false_iff_ne.2 hl', Bool.toNat_false] at hmove
      omega
  · exact Pool.countP_step (hinv.gates gate) (hstep.gates gate)
  · have hmove := Pool.sum_move (fun t : Thread => t.locals.filled) before after ⟨l, program⟩ ⟨l', rest⟩
    have hsum := hinv.buffers
    have hbuffers := hstep.buffers
    simp only at hmove
    omega

theorem Inv.own (hinv : Inv s (before ++ ⟨l, program⟩ :: after)) : l.Ok s :=
  (Pool.forall_mem_split.1 hinv.locals).1

theorem Inv.other (hinv : Inv s (before ++ ⟨l, program⟩ :: after)) (hu : u ∈ before ++ after) :
    u.locals.Ok s :=
  (Pool.forall_mem_split.1 hinv.locals).2 u hu

/-- Nobody else refers to a cell that a thread is to free. -/
theorem Inv.not_uses_raw (hinv : Inv s (before ++ ⟨l, program⟩ :: after)) (hraw : l.raw = some cell)
    (hu : u ∈ before ++ after) : ¬ u.locals.Uses cell := by
  obtain ⟨state, hstate, hphase, -⟩ := hinv.own.raw cell hraw
  intro huses
  obtain ⟨state', hstate', huraw | howned⟩ := (hinv.other hu).exists_cell huses
  · have hle : (before ++ ⟨l, program⟩ :: after).countP (fun t => t.locals.raw == some cell) ≤ 1 := by
      rw [hinv.raws cell]
      exact Bool.toNat_le _
    have := Pool.not_of_countP_le_one hle (by simpa using hraw) hu
    simp [huraw] at this
  · obtain rfl := Option.some.inj (hstate.symm.trans hstate')
    rw [hphase] at howned
    cases howned

/-- A gate is in one thread's hands. -/
theorem Inv.gate_ne (hinv : Inv s (before ++ ⟨l, program⟩ :: after)) (hgate : l.gate = some gate)
    (hu : u ∈ before ++ after) : u.locals.gate ≠ some gate := by
  have hle : (before ++ ⟨l, program⟩ :: after).countP (fun t => t.locals.gate == some gate) ≤ 1 := by
    rw [hinv.gates gate]
    exact Bool.toNat_le _
  have := Pool.not_of_countP_le_one hle (by simpa using hgate) hu
  simpa using this

theorem Inv.frame_setCell (hinv : Inv s (before ++ ⟨l, program⟩ :: after)) (new : Option CellState)
    (hfree : ∀ u ∈ before ++ after, ¬ u.locals.Uses cell) :
    ∀ u ∈ before ++ after, u.locals.Ok (s.setCell cell new) := by
  refine fun u hu => (hinv.other hu).frame fun cell' huses => ?_
  have hne : cell' ≠ cell := by
    rintro rfl
    exact hfree u hu huses
  exact Function.update_of_ne hne _ _

theorem Shared.cells_setCell_self (s : Shared) (cell : ℕ) (new : Option CellState) :
    (s.setCell cell new).cells cell = new :=
  Function.update_self ..

theorem isRaw_setCell (s : Shared) (cell cell' : ℕ) (new : Option CellState) :
    (s.setCell cell new).isRaw cell' =
      if cell' = cell then new.any fun state => state.phase == .raw else s.isRaw cell' := by
  unfold Shared.isRaw Shared.setCell
  by_cases h : cell' = cell
  · simp [h]
  · simp [h]

/-- Cells keep their law where one is set to a state that meets it. -/
theorem Inv.cells_setCell (hinv : Inv s (before ++ ⟨l, program⟩ :: after)) {new : Option CellState}
    (hnew : ∀ state, new = some state → state.phase = .raw → state.gate = none ∧ state.user = false) :
    ∀ cell' state, (s.setCell cell new).cells cell' = some state → state.phase = .raw →
      state.gate = none ∧ state.user = false := by
  intro cell' state hstate hphase
  by_cases h : cell' = cell
  · subst h
    exact hnew state (by simpa [Shared.setCell] using hstate) hphase
  · exact hinv.cells cell' state (by simpa [Shared.setCell, h] using hstate) hphase

variable {rest : Prog Call Call.Answer Unit}

/-- The program that is left keeps to the protocol. -/
abbrev Continues (l : Local) (rest : Prog Call Call.Answer Unit) : Prop :=
  Follows protocol (fun _ => Local.Quiet) Local.Quiet l rest

/-- A call that leaves the shared data alone. -/
theorem Inv.still (hinv : Inv s (before ++ ⟨l, program⟩ :: after)) (hrest : Continues l' rest)
    (hown : l'.Ok s) (hraw : l'.raw = l.raw) (howner : l'.owner = l.owner) (hgate : l'.gate = l.gate)
    (hfilled : l'.filled = l.filled) : Inv s (before ++ ⟨l', rest⟩ :: after) :=
  hinv.step ⟨hinv.fault, hown, hinv.cells, fun _ => by rw [hraw], fun _ => by rw [hgate],
    by rw [hfilled]⟩ (fun _ h => .inl (howner ▸ h)) (fun _ hu => hinv.other hu) hrest

/-- A call that sets a cell nobody else refers to. -/
theorem Inv.set (hinv : Inv s (before ++ ⟨l, program⟩ :: after)) (hrest : Continues l' rest)
    {new : Option CellState} (hfree : ∀ u ∈ before ++ after, ¬ u.locals.Uses cell)
    (hown : l'.Ok (s.setCell cell new))
    (hnew : ∀ state, new = some state → state.phase = .raw → state.gate = none ∧ state.user = false)
    (hraw : (new.any fun state => state.phase == .raw).toNat + (l.raw == some cell).toNat =
      (s.isRaw cell).toNat + (l'.raw == some cell).toNat)
    (hraw' : ∀ cell' ≠ cell, l'.raw = some cell' ↔ l.raw = some cell')
    (howner : ∀ cell' ≠ cell, l'.owner = some cell' → l.owner = some cell') (hgate : l'.gate = l.gate)
    (hfilled : l'.filled = l.filled) : Inv (s.setCell cell new) (before ++ ⟨l', rest⟩ :: after) := by
  have hraws (cell' : ℕ) : ((s.setCell cell new).isRaw cell').toNat + (l.raw == some cell').toNat =
      (s.isRaw cell').toNat + (l'.raw == some cell').toNat := by
    rw [isRaw_setCell]
    by_cases h : cell' = cell
    · subst h
      rwa [if_pos rfl]
    · have hsame : (l'.raw == some cell') = (l.raw == some cell') :=
        Bool.eq_iff_iff.2 (by simpa using hraw' cell' h)
      rw [if_neg h, hsame]
  have hstep : Step s (s.setCell cell new) l l' :=
    ⟨hinv.fault, hown, hinv.cells_setCell hnew, hraws, fun gate => by rw [hgate]; rfl,
      by rw [hfilled]; rfl⟩
  refine hinv.step hstep (fun cell' h => ?_) (hinv.frame_setCell new hfree) hrest
  by_cases hcell : cell' = cell
  · subst hcell
    exact .inr fun u hu huowner => hfree u hu (.inr (.inl huowner))
  · exact .inl (howner cell' hcell h)

theorem Inv.malloc (hinv : Inv s (before ++ ⟨{}, program⟩ :: after)) (hcell : s.cells cell = none)
    (hrest : Continues { raw := some cell, seen := some false } rest) :
    Inv (s.setCell cell (some ⟨.raw, false, none, false⟩))
      (before ++ ⟨{ raw := some cell, seen := some false }, rest⟩ :: after) := by
  have hfree (u : Thread) (hu : u ∈ before ++ after) : ¬ u.locals.Uses cell := by
    intro huses
    obtain ⟨state, hstate, -⟩ := (hinv.other hu).exists_cell huses
    rw [hcell] at hstate
    cases hstate
  refine hinv.set hrest hfree ?_ ?_ ?_ ?_ ?_ rfl rfl
  · refine ⟨?_, nofun, nofun, nofun, fun _ => ⟨rfl, rfl⟩⟩
    rintro cell' ⟨rfl⟩
    exact ⟨_, s.cells_setCell_self _ _, rfl, by rintro handle ⟨rfl⟩; rfl⟩
  · rintro state ⟨rfl⟩ -
    exact ⟨rfl, rfl⟩
  · simp [Shared.isRaw, hcell]
  · intro cell' hne
    simp [hne.symm]
  · nofun

/-- A thread without a cell or a store. -/
theorem Local.Ok.of_none (hraw : l.raw = none) (howner : l.owner = none) (hstore : l.store = none)
    (hcalling : l.calling = none) : l.Ok s :=
  ⟨by simp [hraw], by simp [howner], by simp [hstore], by simp [hcalling], by simp [hraw]⟩

theorem isRaw_of_raw (hl : l.Ok s) (hraw : l.raw = some cell) : s.isRaw cell = true := by
  obtain ⟨state, hstate, hphase, -⟩ := hl.raw cell hraw
  simp [Shared.isRaw, hstate, hphase]

theorem Inv.free (hinv : Inv s (before ++ ⟨l, program⟩ :: after)) (hraw : l.raw = some cell)
    (hcalling : l.calling = none) (hrest : Continues { l with raw := none, seen := none } rest) :
    Inv (s.setCell cell none) (before ++ ⟨{ l with raw := none, seen := none }, rest⟩ :: after) := by
  obtain ⟨howner, hstore⟩ := hinv.own.alone (by simp [hraw])
  refine hinv.set hrest (fun u hu => hinv.not_uses_raw hraw hu) (.of_none rfl howner hstore hcalling)
    nofun ?_ ?_ (fun _ _ h => h) rfl rfl
  · simp [hraw, isRaw_of_raw hinv.own hraw]
  · intro cell' hne
    simp [hraw, hne.symm]

theorem Inv.newForeignPtr (hinv : Inv s (before ++ ⟨l, program⟩ :: after)) (hraw : l.raw = some cell)
    (hcalling : l.calling = none) (hstate : s.cells cell = some state)
    (hrest : Continues { l with raw := none, owner := some cell, seen := none } rest) :
    Inv (s.setCell cell (some { state with phase := .owned }))
      (before ++ ⟨{ l with raw := none, owner := some cell, seen := none }, rest⟩ :: after) := by
  obtain ⟨howner, hstore⟩ := hinv.own.alone (by simp [hraw])
  obtain ⟨state', hstate', hphase, -⟩ := hinv.own.raw cell hraw
  obtain rfl := Option.some.inj (hstate.symm.trans hstate')
  obtain ⟨hgate, huser⟩ := hinv.cells cell state hstate hphase
  refine hinv.set hrest (fun u hu => hinv.not_uses_raw hraw hu) ?_ ?_ ?_ ?_ ?_ rfl rfl
  · refine ⟨nofun, ?_, by simp [hstore], by simp [hcalling], nofun⟩
    rintro cell' ⟨rfl⟩
    exact ⟨_, s.cells_setCell_self _ _, rfl, hgate, huser⟩
  · rintro state ⟨rfl⟩ ⟨⟩
  · simp [hraw, isRaw_of_raw hinv.own hraw]
  · intro cell' hne
    simp [hraw, hne.symm]
  · rintro cell' hne ⟨rfl⟩
    exact absurd rfl hne

theorem Inv.deliver {store : Store}
    (hinv : Inv s (before ++ ⟨{ owner := some store.owner }, program⟩ :: after))
    (hstate : s.cells store.owner = some state) (hrest : Continues {} rest) :
    Inv (s.setCell store.owner (some { state with gate := some store.gate, user := true }))
      (before ++ ⟨{}, rest⟩ :: after) := by
  obtain ⟨state', hstate', hphase, hgate, -⟩ := hinv.own.owner store.owner rfl
  obtain rfl := Option.some.inj (hstate.symm.trans hstate')
  have hfree (u : Thread) (hu : u ∈ before ++ after) : ¬ u.locals.Uses store.owner := by
    have hother := hinv.other hu
    rintro (huraw | huowner | ⟨gate, hustore⟩)
    · obtain ⟨state', hstate', hraw, -⟩ := hother.raw store.owner huraw
      obtain rfl := Option.some.inj (hstate.symm.trans hstate')
      rw [hphase] at hraw
      cases hraw
    · have := Pool.not_of_countP_le_one (hinv.owners store.owner) (by simp) hu
      simp [huowner] at this
    · obtain ⟨state', hstate', -, hsome, -⟩ := hother.store store.owner gate hustore
      obtain rfl := Option.some.inj (hstate.symm.trans hstate')
      rw [hgate] at hsome
      cases hsome
  refine hinv.set hrest hfree (.of_none rfl rfl rfl rfl) ?_ ?_ ?_ nofun rfl rfl
  · rintro state' ⟨rfl⟩ hraw
    rw [show state.phase = .raw from hraw] at hphase
    cases hphase
  · simp [Shared.isRaw, hstate, hphase]
  · simp

theorem Inv.collect (hinv : Inv s (before ++ ⟨{}, program⟩ :: after))
    (hstate : s.cells cell = some state) (hphase : state.phase = .owned)
    (hunreachable : ∀ u ∈ before ++ after,
      u.locals.owner ≠ some cell ∧ ∀ gate, u.locals.store ≠ some ⟨cell, gate⟩)
    (hrest : Continues { raw := some cell } rest) :
    Inv (s.setCell cell (some ⟨.raw, state.handle, none, false⟩))
      (before ++ ⟨{ raw := some cell }, rest⟩ :: after) := by
  have hfree (u : Thread) (hu : u ∈ before ++ after) : ¬ u.locals.Uses cell := by
    rintro (huraw | huowner | ⟨gate, hustore⟩)
    · obtain ⟨state', hstate', hraw, -⟩ := (hinv.other hu).raw cell huraw
      obtain rfl := Option.some.inj (hstate.symm.trans hstate')
      rw [hphase] at hraw
      cases hraw
    · exact (hunreachable u hu).1 huowner
    · exact (hunreachable u hu).2 gate hustore
  refine hinv.set hrest hfree ?_ ?_ ?_ ?_ nofun rfl rfl
  · refine ⟨?_, nofun, nofun, nofun, fun _ => ⟨rfl, rfl⟩⟩
    rintro cell' ⟨rfl⟩
    exact ⟨_, s.cells_setCell_self _ _, rfl, nofun⟩
  · rintro state' ⟨rfl⟩ -
    exact ⟨rfl, rfl⟩
  · simp [Shared.isRaw, hstate, hphase]
  · intro cell' hne
    simp [hne.symm]

theorem Shared.cells_setCell_of_ne (s : Shared) {cell cell' : ℕ} (hne : cell' ≠ cell)
    (new : Option CellState) : (s.setCell cell new).cells cell' = s.cells cell' :=
  Function.update_of_ne hne _ _

/-- A cell is set to a state with the same owner and gate. What a thread knows of its handle stays
true. -/
theorem Local.Ok.replace {new : CellState} (h : l.Ok s) (hstate : s.cells cell = some state)
    (hphase : new.phase = state.phase) (hgate : new.gate = state.gate)
    (huser : new.user = state.user ∨ new.user = false)
    (hhandle : new.handle = state.handle ∨ l.raw ≠ some cell ∧
      ∀ gate, state.gate = some gate → l.gate ≠ some gate) :
    l.Ok (s.setCell cell (some new)) := by
  refine ⟨fun cell' hraw => ?_, fun cell' howner => ?_, fun cell' gate hstore => ?_, h.calling, h.alone⟩
  · obtain ⟨state', hstate', hphase', hseen⟩ := h.raw cell' hraw
    by_cases hcell : cell' = cell
    · subst hcell
      obtain rfl := Option.some.inj (hstate.symm.trans hstate')
      have hsame : new.handle = state.handle := hhandle.resolve_right fun hne => hne.1 hraw
      exact ⟨new, s.cells_setCell_self _ _, hphase.trans hphase', fun b hb => hsame.trans (hseen b hb)⟩
    · exact ⟨state', (s.cells_setCell_of_ne hcell _).trans hstate', hphase', hseen⟩
  · obtain ⟨state', hstate', hphase', hgate', huser'⟩ := h.owner cell' howner
    by_cases hcell : cell' = cell
    · subst hcell
      obtain rfl := Option.some.inj (hstate.symm.trans hstate')
      exact ⟨new, s.cells_setCell_self _ _, hphase.trans hphase', hgate.trans hgate',
        huser.elim (·.trans huser') id⟩
    · exact ⟨state', (s.cells_setCell_of_ne hcell _).trans hstate', hphase', hgate', huser'⟩
  · obtain ⟨state', hstate', hphase', hgate', hseen⟩ := h.store cell' gate hstore
    by_cases hcell : cell' = cell
    · subst hcell
      obtain rfl := Option.some.inj (hstate.symm.trans hstate')
      refine ⟨new, s.cells_setCell_self _ _, hphase.trans hphase', hgate.trans hgate', ?_⟩
      intro hheld b hb
      have hsame : new.handle = state.handle :=
        hhandle.resolve_right fun hne => hne.2 gate hgate' hheld
      exact hsame.trans (hseen hheld b hb)
    · exact ⟨state', (s.cells_setCell_of_ne hcell _).trans hstate', hphase', hgate', hseen⟩

/-- The thread has the cell for itself. -/
def Local.Commands (l : Local) (cell : ℕ) : Prop := l.raw = some cell ∨ l.Guards cell

theorem Local.Ok.commands (h : l.Ok s) (hc : l.Commands cell) :
    ∃ state, s.cells cell = some state ∧ (∀ b, l.seen = some b → state.handle = b) ∧
      (l.raw = some cell ∨ ∃ gate, l.gate = some gate ∧ state.gate = some gate) := by
  rcases hc with hraw | ⟨gate, hstore, hgate⟩
  · obtain ⟨state, hstate, -, hseen⟩ := h.raw cell hraw
    exact ⟨state, hstate, hseen, .inl hraw⟩
  · obtain ⟨state, hstate, -, hgate', hseen⟩ := h.store cell gate hstore
    exact ⟨state, hstate, hseen hgate, .inr ⟨gate, hgate, hgate'⟩⟩

/-- Nobody else can tell whether it holds a handle. -/
theorem Inv.blind (hinv : Inv s (before ++ ⟨l, program⟩ :: after)) (hc : l.Commands cell)
    (hstate : s.cells cell = some state) (hu : u ∈ before ++ after) :
    u.locals.raw ≠ some cell ∧ ∀ gate, state.gate = some gate → u.locals.gate ≠ some gate := by
  obtain ⟨state', hstate', -, hraw | ⟨gate, hgate, hgate'⟩⟩ := hinv.own.commands hc
  · refine ⟨fun huraw => hinv.not_uses_raw hraw hu (.inl huraw), fun gate hsome => ?_⟩
    obtain ⟨state₁, hstate₁, hphase, -⟩ := hinv.own.raw cell hraw
    obtain rfl := Option.some.inj (hstate.symm.trans hstate₁)
    rw [(hinv.cells cell state hstate hphase).1] at hsome
    cases hsome
  · obtain rfl := Option.some.inj (hstate.symm.trans hstate')
    refine ⟨fun huraw => ?_, fun gate' hsome => ?_⟩
    · obtain ⟨state₁, hstate₁, hphase, -⟩ := (hinv.other hu).raw cell huraw
      obtain rfl := Option.some.inj (hstate.symm.trans hstate₁)
      rw [(hinv.cells cell state hstate hphase).1] at hgate'
      cases hgate'
    · obtain rfl := Option.some.inj (hgate'.symm.trans hsome)
      exact hinv.gate_ne hgate hu

/-- A call that sets a cell to a state with the same owner and gate. -/
theorem Inv.replace {new : CellState} {n : ℕ} (hinv : Inv s (before ++ ⟨l, program⟩ :: after))
    (hrest : Continues l' rest) (hstate : s.cells cell = some state) (hphase : new.phase = state.phase)
    (hgate : new.gate = state.gate) (huser : new.user = state.user ∨ new.user = false)
    (hown : l'.Ok (s.setCell cell (some new)))
    (hhandle : ∀ u ∈ before ++ after, new.handle = state.handle ∨ u.locals.raw ≠ some cell ∧
      ∀ gate, state.gate = some gate → u.locals.gate ≠ some gate)
    (hraw : l'.raw = l.raw) (howner : l'.owner = l.owner) (hlgate : l'.gate = l.gate)
    (hfilled : n + l.filled = s.buffers + l'.filled) :
    Inv { s.setCell cell (some new) with buffers := n } (before ++ ⟨l', rest⟩ :: after) := by
  have hnew : ∀ state', some new = some state' → state'.phase = .raw →
      state'.gate = none ∧ state'.user = false := by
    rintro state' ⟨rfl⟩ hraw
    obtain ⟨hnone, hfalse⟩ := hinv.cells cell state hstate (hphase.symm.trans hraw)
    exact ⟨hgate.trans hnone, huser.elim (·.trans hfalse) id⟩
  have hraws (cell' : ℕ) : (s.setCell cell (some new)).isRaw cell' = s.isRaw cell' := by
    rw [isRaw_setCell]
    by_cases h : cell' = cell
    · simp [h, Shared.isRaw, hstate, hphase]
    · simp [h]
  have hstep : Step s { s.setCell cell (some new) with buffers := n } l l' := by
    refine ⟨hinv.fault, hown.frame fun _ _ => rfl, hinv.cells_setCell hnew, fun cell' => ?_,
      fun gate => by rw [hlgate]; rfl, hfilled⟩
    rw [hraw]
    exact congrArg (fun b => b.toNat + _) (hraws cell')
  refine hinv.step hstep (fun _ h => .inl (howner ▸ h)) (fun u hu => ?_) hrest
  exact ((hinv.other hu).replace hstate hphase hgate huser (hhandle u hu)).frame fun _ _ => rfl

theorem Inv.forget (hinv : Inv s (before ++ ⟨l, program⟩ :: after)) (hrest : Continues l rest)
    (hstate : s.cells cell = some state) :
    Inv (s.setCell cell (some { state with user := false })) (before ++ ⟨l, rest⟩ :: after) :=
  hinv.replace hrest hstate rfl rfl (.inr rfl)
    (hinv.own.replace hstate rfl rfl (.inr rfl) (.inl rfl)) (fun _ _ => .inl rfl) rfl rfl rfl rfl

/-- A thread that has the cell for itself may change whether it holds a handle. -/
theorem Local.Ok.handle {b : Bool} (h : l.Ok s) (hc : l.Commands cell)
    (hstate : s.cells cell = some state) (hraw : l'.raw = l.raw) (howner : l'.owner = l.owner)
    (hstore : l'.store = l.store) (hcalling : l'.calling = none)
    (hseen : ∀ handle, l'.seen = some handle → b = handle) :
    l'.Ok (s.setCell cell (some { state with handle := b })) := by
  refine ⟨fun cell' hraw' => ?_, fun cell' howner' => ?_, fun cell' gate hstore' => ?_,
    by simp [hcalling], by rw [hraw, howner, hstore]; exact h.alone⟩
  · rw [hraw] at hraw'
    obtain ⟨state', hstate', hphase, -⟩ := h.raw cell' hraw'
    rcases hc with hraw'' | ⟨gate, hstore'', -⟩
    · obtain rfl := Option.some.inj (hraw'.symm.trans hraw'')
      obtain rfl := Option.some.inj (hstate.symm.trans hstate')
      exact ⟨_, s.cells_setCell_self _ _, hphase, hseen⟩
    · have hnone := (h.alone (by simp [hraw'])).2
      rw [hstore''] at hnone
      cases hnone
  · rw [howner] at howner'
    obtain ⟨state', hstate', hphase, hgate, huser⟩ := h.owner cell' howner'
    by_cases hcell : cell' = cell
    · subst hcell
      obtain rfl := Option.some.inj (hstate.symm.trans hstate')
      exact ⟨_, s.cells_setCell_self _ _, hphase, hgate, huser⟩
    · exact ⟨state', (s.cells_setCell_of_ne hcell _).trans hstate', hphase, hgate, huser⟩
  · rw [hstore] at hstore'
    obtain ⟨state', hstate', hphase, hgate, -⟩ := h.store cell' gate hstore'
    rcases hc with hraw' | ⟨gate', hstore'', -⟩
    · have hnone := (h.alone (by simp [hraw'])).2
      rw [hstore'] at hnone
      cases hnone
    · obtain ⟨rfl, rfl⟩ := Store.mk.inj (Option.some.inj (hstore'.symm.trans hstore''))
      obtain rfl := Option.some.inj (hstate.symm.trans hstate')
      exact ⟨_, s.cells_setCell_self _ _, hphase, hgate, fun _ => hseen⟩

theorem Shared.setCell_self (hstate : s.cells cell = some state) : s.setCell cell (some state) = s := by
  unfold Shared.setCell
  rw [← hstate, Function.update_eq_self]

theorem Inv.leave {function : Foreign} {ok : Bool} (hinv : Inv s (before ++ ⟨l, program⟩ :: after))
    (hcalling : l.calling = some (function, cell))
    (hrest : Continues (l.after (.leave function cell) ok) rest) :
    Inv (s.leave function cell ok)
      (before ++ ⟨l.after (.leave function cell) ok, rest⟩ :: after) := by
  obtain ⟨hc, houtput, herror⟩ := hinv.own.calling function cell hcalling
  obtain ⟨state, hstate, hseen, -⟩ := hinv.own.commands hc
  have hblind (u : Thread) (hu : u ∈ before ++ after) := hinv.blind hc hstate hu
  simp only [Shared.leave, Shared.withCell, hstate]
  cases function with
  | esOpen =>
      have hown : (l.after (.leave .esOpen cell) ok).Ok
          (s.setCell cell (some { state with handle := ok })) :=
        hinv.own.handle hc hstate rfl rfl rfl rfl fun _ h => Option.some.inj h
      refine hinv.replace hrest hstate rfl rfl (.inl rfl) hown (fun u hu => .inr (hblind u hu))
        rfl rfl rfl ?_
      simp only [Local.after, Local.filled, houtput, herror, Bool.toNat_false]
      omega
  | esClose =>
      have hown : (l.after (.leave .esClose cell) ok).Ok
          (s.setCell cell (some { state with handle := false })) :=
        hinv.own.handle hc hstate rfl rfl rfl rfl fun _ h => Option.some.inj h
      exact hinv.replace hrest hstate rfl rfl (.inl rfl) hown
        (fun u hu => .inr (hblind u hu)) rfl rfl rfl rfl
  | request hasOutput =>
      have hown : (l.after (.leave (.request hasOutput) cell) ok).Ok
          (s.setCell cell (some { state with handle := state.handle })) :=
        hinv.own.handle hc hstate rfl rfl rfl rfl hseen
      have hinv' := hinv.replace (n := s.buffers + (hasOutput && ok).toNat + (!ok).toNat) hrest hstate
        rfl rfl (.inl rfl) hown (fun _ _ => .inl rfl) rfl rfl rfl (by
          simp only [Local.after, Local.filled, houtput, herror, Bool.toNat_false]
          omega)
      rwa [Shared.setCell_self hstate] at hinv'

theorem Inv.filled_le (hinv : Inv s (before ++ ⟨l, program⟩ :: after)) : l.filled ≤ s.buffers := by
  have hsum := hinv.buffers
  simp only [List.map_append, List.map_cons, List.sum_append, List.sum_cons] at hsum
  omega

theorem Inv.esBufFree {buffer : Buffer} (hinv : Inv s (before ++ ⟨l, program⟩ :: after))
    (hcalling : l.calling = none) (hrest : Continues (l.after (.esBufFree buffer) ()) rest) :
    Inv { s with buffers := s.buffers - (l.buffer buffer).toNat }
      (before ++ ⟨l.after (.esBufFree buffer) (), rest⟩ :: after) := by
  have hle := hinv.filled_le
  have hown := hinv.own
  have hstep : Step s { s with buffers := s.buffers - (l.buffer buffer).toNat } l
      (l.after (.esBufFree buffer) ()) := by
    cases buffer with
    | output =>
        refine ⟨hinv.fault, ⟨hown.raw, hown.owner, hown.store, ?_, hown.alone⟩, hinv.cells,
          fun _ => rfl, fun _ => rfl, ?_⟩
        · simp [Local.after, hcalling]
        · simp only [Local.filled, Local.buffer, Local.after, Bool.toNat_false] at hle ⊢
          omega
    | error =>
        refine ⟨hinv.fault, ⟨hown.raw, hown.owner, hown.store, ?_, hown.alone⟩, hinv.cells,
          fun _ => rfl, fun _ => rfl, ?_⟩
        · simp [Local.after, hcalling]
        · simp only [Local.filled, Local.buffer, Local.after, Bool.toNat_false] at hle ⊢
          omega
  refine hinv.step hstep (fun _ h => .inl ?_) (fun u hu => (hinv.other hu).frame fun _ _ => rfl) hrest
  cases buffer <;> exact h

/-- A call that fills or empties a variable. -/
theorem Inv.setGate {full : Bool} (hinv : Inv s (before ++ ⟨l, program⟩ :: after))
    (hrest : Continues l' rest) (hown : l'.Ok s) (hraw : l'.raw = l.raw) (howner : l'.owner = l.owner)
    (hfilled : l'.filled = l.filled)
    (hgate : (!full).toNat + (l.gate == some gate).toNat =
      (s.gates gate == some false).toNat + (l'.gate == some gate).toNat)
    (hgate' : ∀ gate' ≠ gate, l'.gate = some gate' ↔ l.gate = some gate') :
    Inv (s.setGate gate full) (before ++ ⟨l', rest⟩ :: after) := by
  have hgates (gate' : ℕ) : ((s.setGate gate full).gates gate' == some false).toNat +
      (l.gate == some gate').toNat = (s.gates gate' == some false).toNat +
        (l'.gate == some gate').toNat := by
    by_cases h : gate' = gate
    · subst h
      rw [← hgate]
      cases full <;> simp [Shared.setGate]
    · have hsame : (l'.gate == some gate') = (l.gate == some gate') :=
        Bool.eq_iff_iff.2 (by simpa using hgate' gate' h)
      rw [hsame]
      simp [Shared.setGate, h]
  have hstep : Step s (s.setGate gate full) l l' :=
    ⟨hinv.fault, hown.frame fun _ _ => rfl, hinv.cells, fun _ => by rw [hraw]; rfl, hgates,
      by rw [hfilled]; rfl⟩
  exact hinv.step hstep (fun _ h => .inl (howner ▸ h))
    (fun u hu => (hinv.other hu).frame fun _ _ => rfl) hrest

/-- Outside a foreign call, a thread may forget what it knows. -/
theorem Local.Ok.unseen (h : l.Ok s) (hcalling : l.calling = none) (gate : Option ℕ) :
    ({ l with gate := gate, seen := none } : Local).Ok s := by
  refine ⟨fun cell hraw => ?_, h.owner, fun cell gate' hstore => ?_, by simp [hcalling], h.alone⟩
  · obtain ⟨state, hstate, hphase, -⟩ := h.raw cell hraw
    exact ⟨state, hstate, hphase, nofun⟩
  · obtain ⟨state, hstate, hphase, hgate, -⟩ := h.store cell gate' hstore
    exact ⟨state, hstate, hphase, hgate, fun _ => nofun⟩

theorem Inv.newMVar (hinv : Inv s (before ++ ⟨l, program⟩ :: after)) (hnone : s.gates gate = none)
    (hrest : Continues l rest) : Inv (s.setGate gate true) (before ++ ⟨l, rest⟩ :: after) :=
  hinv.setGate hrest hinv.own rfl rfl rfl (by simp [hnone]) fun _ _ => .rfl

theorem Inv.takeMVar (hinv : Inv s (before ++ ⟨l, program⟩ :: after)) (hlgate : l.gate = none)
    (hcalling : l.calling = none) (hfull : s.gates gate = some true)
    (hrest : Continues { l with gate := some gate, seen := none } rest) :
    Inv (s.setGate gate false)
      (before ++ ⟨{ l with gate := some gate, seen := none }, rest⟩ :: after) := by
  refine hinv.setGate hrest (hinv.own.unseen hcalling _) rfl rfl rfl (by simp [hlgate, hfull]) ?_
  intro gate' hne
  simp [hlgate, hne.symm]

/-- The gate that a thread has taken is empty. -/
theorem Inv.gate_empty (hinv : Inv s (before ++ ⟨l, program⟩ :: after)) (hlgate : l.gate = some gate) :
    s.gates gate = some false := by
  have hmem : (⟨l, program⟩ : Thread) ∈ before ++ ⟨l, program⟩ :: after := by simp
  simpa using Pool.eq_true_of_mem (hinv.gates gate) hmem (by simp [hlgate])

theorem Inv.putMVar (hinv : Inv s (before ++ ⟨l, program⟩ :: after)) (hlgate : l.gate = some gate)
    (hcalling : l.calling = none) (hrest : Continues { l with gate := none, seen := none } rest) :
    Inv (s.setGate gate true) (before ++ ⟨{ l with gate := none, seen := none }, rest⟩ :: after) := by
  refine hinv.setGate hrest (hinv.own.unseen hcalling _) rfl rfl rfl ?_ ?_
  · simp [hlgate, hinv.gate_empty hlgate]
  · intro gate' hne
    simp [hlgate, hne.symm]

theorem Local.Ok.guards (h : l.Ok s) (hg : l.Guards cell) : l.raw = none := by
  obtain ⟨gate, hstore, -⟩ := hg
  by_contra hraw
  rw [(h.alone hraw).2] at hstore
  cases hstore

theorem Local.Ok.peek (h : l.Ok s) (hg : l.Guards cell) (hcalling : l.calling = none)
    (hstate : s.cells cell = some state) : ({ l with seen := some state.handle } : Local).Ok s := by
  have hraw := h.guards hg
  obtain ⟨gate, hstore, -⟩ := hg
  refine ⟨by simp [hraw], h.owner, fun cell' gate' hstore' => ?_, by simp [hcalling], h.alone⟩
  obtain ⟨rfl, rfl⟩ := Store.mk.inj (Option.some.inj (hstore.symm.trans hstore'))
  obtain ⟨state', hstate', hphase, hgate, -⟩ := h.store cell gate hstore
  obtain rfl := Option.some.inj (hstate.symm.trans hstate')
  exact ⟨state, hstate, hphase, hgate, fun _ _ hb => Option.some.inj hb⟩

theorem Local.Ok.enter {function : Foreign} (h : l.Ok s)
    (hallowed : l.Allowed (.enter function cell)) :
    ({ l with calling := some (function, cell) } : Local).Ok s := by
  obtain ⟨-, houtput, herror, hfunction⟩ := hallowed
  have hc : l.Commands cell := by
    cases function with
    | esOpen => exact .inl hfunction.1
    | esClose => exact hfunction
    | request hasOutput => exact .inr hfunction.1
  refine ⟨h.raw, h.owner, h.store, ?_, h.alone⟩
  rintro function' cell' ⟨rfl, rfl⟩
  exact ⟨hc, houtput, herror⟩

/-- The engine is entered as it has to be. -/
theorem enter_eq {function : Foreign} (h : l.Ok s) (hallowed : l.Allowed (.enter function cell)) :
    s.enter function cell = s := by
  obtain ⟨-, -, -, hfunction⟩ := hallowed
  cases function with
  | esOpen =>
      obtain ⟨state, hstate, -, hseen⟩ := h.raw cell hfunction.1
      simp [Shared.enter, Shared.withCell, hstate, hseen false hfunction.2]
  | esClose =>
      obtain ⟨state, hstate, -⟩ := h.commands hfunction
      simp [Shared.enter, Shared.withCell, hstate]
  | request hasOutput =>
      obtain ⟨state, hstate, hseen, -⟩ := h.commands (.inr hfunction.1)
      simp [Shared.enter, Shared.withCell, hstate, hseen true hfunction.2]

theorem Local.Ok.touch (h : l.Ok s) (hcalling : l.calling = none) :
    ({ l with store := none, seen := none } : Local).Ok s := by
  refine ⟨fun cell hraw => ?_, h.owner, nofun, by simp [hcalling], fun hraw => ⟨(h.alone hraw).1, rfl⟩⟩
  obtain ⟨state, hstate, hphase, -⟩ := h.raw cell hraw
  exact ⟨state, hstate, hphase, nofun⟩

theorem Inv.receive (hinv : Inv s (before ++ ⟨{}, program⟩ :: after))
    (hstate : s.cells cell = some state) (hgate : state.gate = some gate)
    (hrest : Continues { store := some ⟨cell, gate⟩ } rest) :
    Inv s (before ++ ⟨{ store := some ⟨cell, gate⟩ }, rest⟩ :: after) := by
  refine hinv.still hrest ⟨nofun, nofun, ?_, nofun, nofun⟩ rfl rfl rfl rfl
  rintro cell' gate' ⟨rfl, rfl⟩
  refine ⟨state, hstate, ?_, hgate, nofun⟩
  cases hphase : state.phase with
  | owned => rfl
  | raw =>
      rw [(hinv.cells cell state hstate hphase).1] at hgate
      cases hgate

/-- **One call** that the protocol allows; a finalizer starts only if nobody refers to its owner. -/
theorem Inv.effect {choice : Choice} {c : Call} {a : c.Answer}
    (hinv : Inv s (before ++ ⟨l, program⟩ :: after)) (hallowed : l.Allowed c)
    (hcollect : ∀ cell, c = .collect cell → ∀ u ∈ before ++ after,
      u.locals.owner ≠ some cell ∧ ∀ gate, u.locals.store ≠ some ⟨cell, gate⟩)
    (heffect : effect s l choice c = some (a, s')) (hrest : Continues (l.after c a) rest) :
    Inv s' (before ++ ⟨l.after c a, rest⟩ :: after) := by
  have hown := hinv.own
  cases c with
  | malloc =>
      obtain rfl : l = {} := hallowed
      simp only [StoreHandle.effect] at heffect
      split_ifs at heffect with hnone
      obtain ⟨rfl, rfl⟩ := heffect
      exact hinv.malloc (Option.isNone_iff_eq_none.1 hnone) hrest
  | poke cell =>
      obtain ⟨hraw, hcalling⟩ := hallowed
      obtain ⟨state, hstate, -⟩ := hown.raw cell hraw
      simp only [StoreHandle.effect, Shared.withCell, hstate] at heffect
      obtain ⟨rfl, rfl⟩ := heffect
      exact hinv.still hrest hown rfl rfl rfl rfl
  | peek cell =>
      obtain ⟨hguards, hcalling⟩ := hallowed
      obtain ⟨state, hstate, -⟩ := hown.commands (.inr hguards)
      simp only [StoreHandle.effect, hstate] at heffect
      obtain ⟨rfl, rfl⟩ := heffect
      rw [show l.after (.peek cell) (!state.handle) = { l with seen := some state.handle } by
        simp [Local.after]] at hrest ⊢
      exact hinv.still hrest (hown.peek hguards hcalling hstate) rfl rfl rfl rfl
  | free cell =>
      obtain ⟨hraw, hseen, hcalling⟩ := hallowed
      obtain ⟨state, hstate, -, hhandle⟩ := hown.raw cell hraw
      simp only [StoreHandle.effect, Shared.withCell, hstate, hhandle false hseen] at heffect
      obtain ⟨rfl, rfl⟩ := heffect
      exact hinv.free hraw hcalling hrest
  | enter function cell =>
      simp only [StoreHandle.effect, enter_eq hown hallowed] at heffect
      obtain ⟨rfl, rfl⟩ := heffect
      exact hinv.still hrest (hown.enter hallowed) rfl rfl rfl rfl
  | leave function cell =>
      obtain ⟨rfl, rfl⟩ := heffect
      exact hinv.leave hallowed hrest
  | readBuffer buffer =>
      simp only [StoreHandle.effect, show l.buffer buffer = true from hallowed, if_true] at heffect
      obtain ⟨rfl, rfl⟩ := heffect
      exact hinv.still hrest hown rfl rfl rfl rfl
  | esBufFree buffer =>
      obtain ⟨rfl, rfl⟩ := heffect
      exact hinv.esBufFree hallowed hrest
  | newMVar =>
      simp only [StoreHandle.effect] at heffect
      split_ifs at heffect with hnone
      obtain ⟨rfl, rfl⟩ := heffect
      exact hinv.newMVar (Option.isNone_iff_eq_none.1 hnone) hrest
  | takeMVar gate =>
      obtain ⟨-, hlgate, hcalling⟩ := hallowed
      simp only [StoreHandle.effect] at heffect
      split_ifs at heffect with hfull
      obtain ⟨rfl, rfl⟩ := heffect
      exact hinv.takeMVar hlgate hcalling hfull hrest
  | putMVar gate =>
      obtain ⟨hlgate, hcalling⟩ := hallowed
      simp only [StoreHandle.effect, hinv.gate_empty hlgate, if_true] at heffect
      obtain ⟨rfl, rfl⟩ := heffect
      exact hinv.putMVar hlgate hcalling hrest
  | newForeignPtr cell =>
      obtain ⟨hraw, -, hcalling⟩ := hallowed
      obtain ⟨state, hstate, -⟩ := hown.raw cell hraw
      simp only [StoreHandle.effect, Shared.withCell, hstate] at heffect
      obtain ⟨rfl, rfl⟩ := heffect
      exact hinv.newForeignPtr hraw hcalling hstate hrest
  | touch cell =>
      obtain ⟨⟨gate, hstore⟩, hcalling⟩ := hallowed
      obtain ⟨state, hstate, -⟩ := hown.store cell gate hstore
      simp only [StoreHandle.effect, Shared.withCell, hstate] at heffect
      obtain ⟨rfl, rfl⟩ := heffect
      exact hinv.still hrest (hown.touch hcalling) rfl rfl rfl rfl
  | receive cell =>
      obtain rfl : l = {} := hallowed
      simp only [StoreHandle.effect] at heffect
      split at heffect
      · rename_i hstate
        obtain ⟨rfl, rfl⟩ := heffect
        exact hinv.receive hstate rfl hrest
      · cases heffect
  | deliver store =>
      obtain rfl : l = { owner := some store.owner } := hallowed
      obtain ⟨state, hstate, -⟩ := hown.owner store.owner rfl
      simp only [StoreHandle.effect, Shared.withCell, hstate] at heffect
      obtain ⟨rfl, rfl⟩ := heffect
      exact hinv.deliver hstate hrest
  | forget cell =>
      simp only [StoreHandle.effect] at heffect
      obtain ⟨rfl, rfl⟩ := heffect
      split
      · exact hinv.still hrest hown rfl rfl rfl rfl
      · rename_i state hstate
        exact hinv.forget hrest hstate
  | collect cell =>
      obtain rfl : l = {} := hallowed
      simp only [StoreHandle.effect] at heffect
      split at heffect
      · rename_i hstate
        obtain ⟨rfl, rfl⟩ := heffect
        exact hinv.collect hstate rfl (hcollect cell rfl) hrest
      · cases heffect

/-- A thread that ends lets go of what it refers to. -/
theorem Inv.resume (hinv : Inv s (before ++ ⟨l, program⟩ :: after)) :
    Inv s (before ++ .resume l program :: after) := by
  cases program with
  | call c rest => exact hinv
  | ret r =>
      have hquiet : l.Quiet := by
        have hfollows := (Pool.forall_mem_split.1 hinv.follows).1
        cases r <;> exact hfollows
      have hended : l.ended.Quiet :=
        ⟨hquiet.raw, hquiet.gate, hquiet.calling, hquiet.output, hquiet.error⟩
      have hrest : Continues l.ended (.ret r) := by cases r <;> exact hended
      have hstep : Step s s l l.ended := ⟨hinv.fault, .of_none hquiet.raw rfl rfl hquiet.calling,
        hinv.cells, fun _ => rfl, fun _ => rfl, rfl⟩
      exact hinv.step hstep nofun (fun _ hu => hinv.other hu) hrest

/-- **One step** of a thread among any others. -/
theorem Inv.next {choice : Choice} (hinv : Inv s (before ++ t :: after))
    (hcollects : collects ⟨s, before ++ t :: after⟩ (.step before.length choice) = true)
    (hnext : next s t choice = some (s', t')) : Inv s' (before ++ t' :: after) := by
  obtain ⟨l, program⟩ := t
  have hfollows := (Pool.forall_mem_split.1 hinv.follows).1
  match program with
  | .ret r => cases hnext
  | .call .point rest =>
      obtain ⟨rfl, rfl⟩ := hnext
      exact (hinv.still (hfollows choice.throw) hinv.own rfl rfl rfl rfl).resume
  | .call (.call c) rest =>
      obtain ⟨hallowed, hthrows, hanswer⟩ := hfollows
      simp only [StoreHandle.next] at hnext
      split_ifs at hnext with hthrow
      · obtain ⟨rfl, rfl⟩ := hnext
        exact (hinv.still (hthrows (Bool.and_eq_true_iff.1 hthrow).2) hinv.own rfl rfl rfl rfl).resume
      · obtain ⟨⟨a, s'⟩, heffect, hnext⟩ := Option.map_eq_some_iff.1 hnext
        obtain ⟨rfl, rfl⟩ := hnext
        refine (hinv.effect hallowed ?_ heffect (hanswer a)).resume
        rintro cell rfl u hu
        have hunreachable := hcollects
        simp only [collects, List.getElem?_append_right le_rfl, Nat.sub_self, List.getElem?_cons_zero,
          Option.map_some, unreachable, Bool.and_eq_true, List.all_eq_true] at hunreachable
        have := (Pool.forall_mem_split.1 hunreachable.2).2 u hu
        simp only [bne_iff_ne, ne_eq, Option.map_eq_some_iff, not_exists, not_and] at this
        exact ⟨this.1, fun gate hstore => this.2 _ hstore rfl⟩

end Steps

theorem Inv.start {s : Shared} {threads : List Thread} (hinv : Inv s threads) (entry : Entry) :
    Inv s (threads ++ [⟨{}, entry.program⟩]) := by
  refine ⟨hinv.fault, ?_, ?_, hinv.cells, fun cell => ?_, fun cell => ?_, fun gate => ?_, ?_⟩
  · exact List.forall_mem_append.2 ⟨hinv.follows, List.forall_mem_singleton.2 (wp_action entry)⟩
  · exact List.forall_mem_append.2 ⟨hinv.locals, List.forall_mem_singleton.2 (.of_none rfl rfl rfl rfl)⟩
  · rw [Pool.countP_start (by simp)]
    exact hinv.raws cell
  · rw [Pool.countP_start (by simp)]
    exact hinv.owners cell
  · rw [Pool.countP_start (by simp)]
    exact hinv.gates gate
  · simpa [Local.filled] using hinv.buffers

/-- **The invariant holds in every run** whose finalizers start when their owner cannot be reached. -/
theorem inv_run {ops : List (Pool.Op Entry Choice)}
    (hops : machine.Meets (fun p op => collects p op = true) machine.init ops) :
    Inv (machine.run ops).shared (machine.run ops).threads := by
  refine Pool.run_invariant_of_meets (P := Inv) (G := fun p op => collects p op = true) ?_
    (fun _ _ entry hinv => hinv.start entry)
    (fun _ _ _ _ _ _ _ hinv hcollects hnext => hinv.next hcollects hnext) hops
  exact ⟨rfl, nofun, nofun, nofun, fun _ => rfl, fun _ => Nat.zero_le 1, fun _ => rfl, rfl⟩

/-! ## Runs -/

/-- The thread is in a foreign call on the cell. -/
def Thread.calls (cell : ℕ) (t : Thread) : Bool := t.locals.calling.any fun call => call.2 == cell

def Thread.hasEnded (t : Thread) : Bool :=
  match t.program with
  | .ret _ => true
  | .call _ _ => false

section Reached

variable {s : Shared} {threads : List Thread} {t : Thread} {cell gate : ℕ}

/-- Two threads are not in foreign calls on one cell. -/
theorem Inv.countP_calls_le_one (hinv : Inv s threads) (cell : ℕ) :
    threads.countP (Thread.calls cell) ≤ 1 := by
  refine Pool.countP_le_one fun before t after hthreads hcalls u hu => ?_
  subst hthreads
  have hcommands {t : Thread} (ht : t.locals.Ok s) (h : t.calls cell = true) :
      t.locals.Commands cell := by
    obtain ⟨⟨function, cell'⟩, hcalling, hcell⟩ := (Option.any_eq_true _ _).1 h
    obtain rfl : cell' = cell := by simpa using hcell
    exact (ht.calling function cell' hcalling).1
  have hc := hcommands hinv.own hcalls
  obtain ⟨state, hstate, -⟩ := hinv.own.commands hc
  obtain ⟨hraw, hgate⟩ := hinv.blind hc hstate hu
  by_contra hu'
  obtain ⟨state', hstate', -, huraw | ⟨gate, hugate, hsome⟩⟩ :=
    (hinv.other hu).commands (hcommands (hinv.other hu) (by simpa using hu'))
  · exact hraw huraw
  · obtain rfl := Option.some.inj (hstate.symm.trans hstate')
    exact hgate gate hsome hugate

/-- A thread that has a gate is not held up. -/
theorem Inv.isSome_next (hinv : Inv s threads) (ht : t ∈ threads) (hgate : t.locals.gate = some gate)
    (choice : Choice) : (StoreHandle.next s t choice).isSome = true := by
  obtain ⟨l, program⟩ := t
  have hfollows := hinv.follows _ ht
  have hne : l ≠ {} := by
    rintro rfl
    cases hgate
  match program with
  | .ret r =>
      have hquiet : l.Quiet := by cases r <;> exact hfollows
      rw [show l.gate = none from hquiet.gate] at hgate
      cases hgate
  | .call .point rest => rfl
  | .call (.call c) rest =>
      have hallowed : l.Allowed c := hfollows.1
      simp only [StoreHandle.next]
      split_ifs
      · rfl
      rw [Option.isSome_map]
      cases c with
      | malloc | receive _ | collect _ => exact absurd hallowed hne
      | newMVar =>
          rw [hallowed.1] at hgate
          cases hgate
      | takeMVar gate' =>
          rw [hallowed.2.1] at hgate
          cases hgate
      | peek cell =>
          simp only [StoreHandle.effect]
          split <;> rfl
      | _ => rfl

/-- When all threads have ended, none of them has anything in its hands. -/
theorem Inv.quiet (hinv : Inv s threads) (hended : ∀ t ∈ threads, t.hasEnded = true)
    (ht : t ∈ threads) : t.locals.Quiet := by
  have hfollows := hinv.follows t ht
  have hret := hended t ht
  obtain ⟨l, program⟩ := t
  match program with
  | .ret (some r) => exact hfollows
  | .ret none => exact hfollows
  | .call c rest => cases hret

end Reached

/-- **Stores are used safely**, whatever threads open, use, close and drop them, in any order of their
steps and with exceptions thrown into them anywhere. No memory that is gone is touched, no cell is
freed with a handle in it, the engine is asked only where there is a handle, and no buffer is read that
was not filled. At most one thread at a time is in a foreign call on a store. A gate that is taken is
in the hands of a thread that can go on. Once all threads have ended, every buffer of the engine has
been given back, and the cells that are left are those whose finalizer has not run. -/
theorem store_handles_are_safe {ops : List (Pool.Op Entry Choice)}
    (hops : machine.Meets (fun p op => collects p op = true) machine.init ops) :
    (machine.run ops).shared.fault = false ∧
      (∀ cell, (machine.run ops).threads.countP (Thread.calls cell) ≤ 1) ∧
      (∀ gate, (machine.run ops).shared.gates gate = some false →
        ∃ t ∈ (machine.run ops).threads, t.locals.gate = some gate ∧
          ∀ choice, (next (machine.run ops).shared t choice).isSome = true) ∧
      ((∀ t ∈ (machine.run ops).threads, t.hasEnded = true) →
        (machine.run ops).shared.buffers = 0 ∧
          ∀ cell state, (machine.run ops).shared.cells cell = some state → state.phase = .owned) := by
  have hinv := inv_run hops
  refine ⟨hinv.fault, hinv.countP_calls_le_one, fun gate hgate => ?_, fun hended => ⟨?_, ?_⟩⟩
  · have hpos : 0 < (machine.run ops).threads.countP fun t => t.locals.gate == some gate := by
      rw [hinv.gates gate, hgate]
      decide
    obtain ⟨t, ht, hholds⟩ := List.countP_pos_iff.1 hpos
    have hheld : t.locals.gate = some gate := by simpa using hholds
    exact ⟨t, ht, hheld, hinv.isSome_next ht hheld⟩
  · rw [← hinv.buffers, List.sum_eq_zero_iff]
    intro n hn
    obtain ⟨t, ht, rfl⟩ := List.mem_map.1 hn
    obtain ⟨-, -, -, houtput, herror⟩ := hinv.quiet hended ht
    simp [Local.filled, houtput, herror]
  · intro cell state hstate
    cases hphase : state.phase with
    | owned => rfl
    | raw =>
        have hpos : 0 < (machine.run ops).threads.countP fun t => t.locals.raw == some cell := by
          rw [hinv.raws cell]
          simp [Shared.isRaw, hstate, hphase]
        obtain ⟨t, ht, hholds⟩ := List.countP_pos_iff.1 hpos
        have hraw : t.locals.raw = some cell := by simpa using hholds
        rw [(hinv.quiet hended ht).raw] at hraw
        cases hraw

/-- A store is opened; a request is interrupted once it has the gate and its answer, while another one
waits; the store is closed, dropped, and collected. -/
def interruptedRequest : List (Pool.Op Entry Choice) :=
  let go (i n : ℕ) : List (Pool.Op Entry Choice) := .replicate n (.step i ⟨false, true, 7⟩)
  .start .openStore :: go 0 40 ++ .start (.request 7 true) :: .start (.request 7 false) :: go 1 11 ++
    go 2 8 ++ .step 1 ⟨true, true, 7⟩ :: go 1 40 ++ go 2 40 ++ .start (.closeStore 7) :: go 3 40 ++
    .start (.forget 7) :: .start (.finalize 7) :: go 4 1 ++ go 5 40

theorem interrupted_request_is_safe :
    machine.Meets (fun p op => collects p op = true) machine.init interruptedRequest ∧
      (machine.run interruptedRequest).shared.fault = false ∧
      (machine.run interruptedRequest).shared.buffers = 0 ∧
      (machine.run interruptedRequest).shared.cells 7 = none := by
  have hmeets : machine.Meets (fun p op => collects p op = true) machine.init interruptedRequest := by
    decide +kernel
  obtain ⟨hfault, -, -, hquiet⟩ := store_handles_are_safe hmeets
  exact ⟨hmeets, hfault, (hquiet (by decide +kernel)).1, by decide +kernel⟩

end EventSorcery.StoreHandle
