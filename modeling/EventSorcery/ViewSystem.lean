import EventSorcery.StoreSafety
import EventSorcery.Views

/-!
# A projection beside concurrent sends

`Store::send` hands the events it committed to the projection after the commit and with no lock held,
one event after the other; the dispatches of different sends interleave freely. The state is the
store's, the view table, and the dispatches in flight. The number under which an event was committed
stands in its envelope, but the reactor does not get it.
-/

namespace EventSorcery

namespace StoreSystem

variable {Entity Event Command Error : Type} {K : CqrsEs}
  {E : EventSourced Entity Event Command Error} {id : String}
  {s : State Entity Event Command Error}

/-! ## A retained stream under concurrent sends -/

/-- A call in flight has not read past the end of the stream. -/
def CallNumbered (E : EventSourced Entity Event Command Error) (id : String) (log : List Event)
    (call : Call Entity Event Command Error) : Prop :=
  match call.phase with
  | .start => True
  | .snapshotRead ctx | .loaded ctx => ctx.currentSequence ≤ log.length
  | .handled ctx _ pending => ctx.currentSequence ≤ log.length ∧
      ∀ push ∈ pending, jobStream push.jobId ≠ E.stream id

/-- The stream is numbered, whatever the calls in flight have read. -/
structure StoreNumbered (E : EventSourced Entity Event Command Error) (id : String)
    (s : State Entity Event Command Error) : Prop where
  numbered : Numbered E.eventCodec s.db (E.stream id) s.log
  calls : ∀ call ∈ s.calls, CallNumbered E id s.log call

theorem StoreNumbered.init :
    StoreNumbered E id (⟨.empty, [], []⟩ : State Entity Event Command Error) :=
  ⟨.empty _ _, fun _ h => nomatch h⟩

theorem CallNumbered.append {log : List Event} {call : Call Entity Event Command Error}
    (h : CallNumbered E id log call) (events : List Event) :
    CallNumbered E id (log ++ events) call := by
  have hlen : log.length ≤ (log ++ events).length := by simp
  unfold CallNumbered at *
  split at h
  · trivial
  · exact h.trans hlen
  · exact h.trans hlen
  · exact ⟨h.1.trans hlen, h.2⟩

theorem StoreNumbered.finish (h : StoreNumbered E id s) (i : ℕ) : StoreNumbered E id (s.finish i) :=
  ⟨h.numbered, fun c hc => h.calls c (List.mem_of_mem_eraseIdx hc)⟩

theorem StoreNumbered.put (h : StoreNumbered E id s) (i : ℕ)
    {call : Call Entity Event Command Error} (hcall : CallNumbered E id s.log call) :
    StoreNumbered E id (s.put i call) := by
  refine ⟨h.numbered, fun c hc => ?_⟩
  rcases List.mem_or_eq_of_mem_set hc with hmem | rfl
  · exact h.calls c hmem
  · exact hcall

/-- **One operation on a retained stream** keeps it numbered. -/
theorem storeNumbered_step (hpol : E.compactionPolicy = .retain) (h : StoreNumbered E id s)
    (op : Op Command) : StoreNumbered E id (step K E id s op) := by
  have hchange := act_change K E id s op
  generalize step K E id s op = s' at hchange ⊢
  generalize answer K E id s op = out at hchange
  have hin : ∀ {i : ℕ} {call : Call Entity Event Command Error}, s.calls[i]? = some call →
      CallNumbered E id s.log call := fun hcall => h.calls _ (List.mem_of_getElem? hcall)
  cases hchange with
  | idle => exact h
  | began request =>
      refine ⟨h.numbered, fun call hmem => ?_⟩
      rcases List.mem_append.1 hmem with hmem | hmem
      · exact h.calls call hmem
      · obtain rfl := List.mem_singleton.1 hmem
        trivial
  | unreadableSnapshot hcall hread => exact h.finish _
  | snapshotRead hcall hread => exact h.put _ (h.numbered.startContext hread)
  | unreadableEvents hcall hread => exact h.finish _
  | read hcall hread => exact h.finish _
  | loaded hcall hread => exact h.put _ (h.numbered.replayRows (hin hcall) hread).le
  | refused hcall hdecided => exact h.finish _
  | handled hcall hdecided hfresh => exact h.put _ ⟨hin hcall, hfresh⟩
  | uncommitted hcall hresult => exact h.finish _
  | committed hcall hresult =>
      obtain ⟨hle, hfresh⟩ := hin hcall
      refine ⟨(h.numbered.commit (commitEvents_ok hfresh hresult) hle
        (commitEvents_bounded hresult)).1, fun call hmem => ?_⟩
      exact (h.calls call (List.mem_of_mem_eraseIdx hmem)).append _
  | dropped i => exact h.finish i
  | compacted =>
      have hsame : compactEvents E s.db = s.db := by rw [compactEvents, hpol]
      exact ⟨hsame.symm ▸ h.numbered, h.calls⟩
  | elsewhere other =>
      refine ⟨h.numbered.of_same (stream_replaceElsewhere _ _ _) fun row hrow => ?_, h.calls⟩
      rwa [snapshots_replaceElsewhere] at hrow

/-- Only an acknowledged commit adds to the history, and it adds what it acknowledges. -/
theorem log_step (s : State Entity Event Command Error) (op : Op Command) :
    (step K E id s op).log = s.log ++ match answer K E id s op with
      | some (.sent events) => events
      | _ => [] := by
  have hchange := act_change K E id s op
  generalize step K E id s op = s' at hchange ⊢
  generalize answer K E id s op = out at hchange
  cases hchange with
  | committed hcall hresult => rfl
  | _ => exact (List.append_nil _).symm

end StoreSystem

namespace ViewSystem

section Defs

variable (Entity Event Command Error : Type)

/-- The events of one commit that still have to reach the projection, each with its number; the
reactor call of the first one, by its retries and the row it has loaded. -/
structure Dispatch where
  envelopes : List (ℕ × Event)
  attempt : ℕ
  loaded : Option (Lifecycle Entity Event Error × ViewContext)

structure State where
  store : StoreSystem.State Entity Event Command Error
  view : ViewTable
  dispatches : List (Dispatch Entity Event Error)

/-- An operation of the store, or one statement of a reactor call. `elsewhere` is any change to the
rows of other aggregates. -/
inductive Op where
  | store (op : StoreSystem.Op Command)
  | reactLoad (i : ℕ)
  | reactUpdate (i : ℕ)
  | reactBusy (i : ℕ)
  | elsewhere (other : ViewTable)

end Defs

variable {Entity Event Command Error : Type}

/-- A reactor call that goes on, or that has ended and leaves the events after its own. -/
def Dispatch.resume (d : Dispatch Entity Event Error) :
    Option (ReactTask Entity Event Error) → Dispatch Entity Event Error
  | none => ⟨d.envelopes.tail, 0, none⟩
  | some task => ⟨d.envelopes, task.attempt, task.loaded⟩

/-- The dispatch `i` goes on, or is done. -/
def State.put (s : State Entity Event Command Error) (i : ℕ) (d : Dispatch Entity Event Error) :
    State Entity Event Command Error :=
  { s with dispatches :=
      if d.envelopes = [] then s.dispatches.eraseIdx i else s.dispatches.set i d }

variable (K : CqrsEs) (E : EventSourced Entity Event Command Error) (id : String)

/-- The reactor call a dispatch is at. -/
def Dispatch.task (d : Dispatch Entity Event Error) : Option (ReactTask Entity Event Error) :=
  d.envelopes.head?.map fun envelope => ⟨id, envelope.2, d.attempt, d.loaded⟩

/-- The rows of `other`, and the one `view` has for the aggregate. -/
def replaceRows (view other : ViewTable) : ViewTable :=
  match view.lookup id with
  | none => other.erase id
  | some row => other.insert id row

/-- What an operation does; one that is not enabled does nothing. -/
def step (s : State Entity Event Command Error) : Op Command → State Entity Event Command Error
  | .store op =>
      let store := StoreSystem.step K E id s.store op
      match StoreSystem.answer K E id s.store op with
      | some (.sent (event :: events)) =>
          { s with
            store := store
            dispatches := s.dispatches ++
              [⟨SeqLog.rowsFrom (s.store.log.length + 1) (event :: events), 0, none⟩] }
      | _ => { s with store := store }
  | .reactLoad i =>
      match s.dispatches[i]? with
      | none => s
      | some d =>
          match d.task id, d.loaded with
          | some task, none => s.put i (d.resume (reactLoad E s.view task))
          | _, _ => s
  | .reactUpdate i =>
      match s.dispatches[i]? with
      | none => s
      | some d =>
          match d.task id, d.loaded with
          | some task, some loaded =>
              let updated := reactUpdate E s.view task loaded
              { s.put i (d.resume updated.1) with view := updated.2 }
          | _, _ => s
  | .reactBusy i =>
      match s.dispatches[i]? with
      | none => s
      | some d =>
          match d.task id with
          | none => s
          | some task => s.put i (d.resume task.retry)
  | .elsewhere other => { s with view := replaceRows id s.view other }

/-- Concurrent sends on one stream of an entity with a projection, from empty tables. -/
def machine : Machine (State Entity Event Command Error) (Op Command) :=
  ⟨⟨⟨.empty, [], []⟩, ∅, []⟩, step K E id⟩

/-- The write would be refused because the row has another version by now. -/
def conflicts (view : ViewTable) (event : Event)
    (loaded : Lifecycle Entity Event Error × ViewContext) : Bool :=
  match updateView E view (loaded.1.apply E event) loaded.2 with
  | .error .optimisticLock => true
  | _ => false

/-- No reactor call runs out of retries. -/
def WithinBudget (s : State Entity Event Command Error) : Op Command → Prop
  | .reactUpdate i => ∀ d ∈ s.dispatches[i]?, ∀ envelope ∈ d.envelopes.head?, ∀ loaded ∈ d.loaded,
      conflicts E s.view envelope.2 loaded → d.attempt < retryMaxAttempts
  | .reactBusy i => ∀ d ∈ s.dispatches[i]?, d.attempt < retryMaxAttempts
  | _ => True

instance (s : State Entity Event Command Error) : ∀ op, Decidable (WithinBudget E s op)
  | .reactUpdate i => inferInstanceAs (Decidable (∀ d ∈ s.dispatches[i]?, _))
  | .reactBusy i => inferInstanceAs (Decidable (∀ d ∈ s.dispatches[i]?, _))
  | .store _ | .reactLoad _ | .elsewhere _ => isTrue trivial

/-- A reactor call that writes to the row it loaded applies the event that comes next there, and no
two first rows race. -/
def InOrder (s : State Entity Event Command Error) : Op Command → Prop
  | .reactUpdate i => ∀ d ∈ s.dispatches[i]?, ∀ envelope ∈ d.envelopes.head?, ∀ loaded ∈ d.loaded,
      (rowVersion s.view id = loaded.2.version → loaded.2.version + 1 = envelope.1) ∧
        (loaded.2.version = 0 → rowVersion s.view id = 0)
  | _ => True

instance (s : State Entity Event Command Error) : ∀ op, Decidable (InOrder id s op)
  | .reactUpdate i => inferInstanceAs (Decidable (∀ d ∈ s.dispatches[i]?, _))
  | .store _ | .reactLoad _ | .reactBusy _ | .elsewhere _ => isTrue trivial

variable {K E id} {s : State Entity Event Command Error}

/-- A dispatch holds events of the history under their numbers, and has loaded the row of a prefix. -/
structure DispatchOk (E : EventSourced Entity Event Command Error) (id : String) (log : List Event)
    (d : Dispatch Entity Event Error) : Prop where
  envelopes : ∀ envelope ∈ d.envelopes, 0 < envelope.1 ∧ log[envelope.1 - 1]? = some envelope.2
  loaded : ∀ loaded ∈ d.loaded, ∃ k ≤ log.length,
    loaded = (Lifecycle.replay E (log.take k), ⟨id, (k : ℤ)⟩)

/-- The row has folded the first `v` events, and every later one is on its way. -/
structure RowOk (E : EventSourced Entity Event Command Error) (id : String)
    (s : State Entity Event Command Error) (v : ℕ) : Prop where
  le : v ≤ s.store.log.length
  row : s.view.lookup id = rowAt E s.store.log v
  underway : ∀ q, v < q → q ≤ s.store.log.length →
    ∃ d ∈ s.dispatches, q ∈ d.envelopes.map Prod.fst

structure Inv (E : EventSourced Entity Event Command Error) (id : String)
    (s : State Entity Event Command Error) : Prop where
  store : StoreSystem.StoreNumbered E id s.store
  dispatches : ∀ d ∈ s.dispatches, DispatchOk E id s.store.log d
  row : ∃ v, RowOk E id s v

theorem Inv.init : Inv E id (machine K E id).init :=
  ⟨.init, (fun _ h => nomatch h), 0, le_rfl, rfl, fun _ hlt hle => absurd hle (not_le.2 hlt)⟩

theorem DispatchOk.append {log : List Event} {d : Dispatch Entity Event Error}
    (h : DispatchOk E id log d) (events : List Event) : DispatchOk E id (log ++ events) d := by
  refine ⟨fun envelope hmem => ?_, fun loaded hmem => ?_⟩
  · obtain ⟨hpos, hget⟩ := h.envelopes envelope hmem
    refine ⟨hpos, ?_⟩
    rw [List.getElem?_append_left (List.getElem?_eq_some_iff.1 hget).1, hget]
  · obtain ⟨k, hk, rfl⟩ := h.loaded loaded hmem
    exact ⟨k, hk.trans (by simp), by rw [List.take_append_of_le_length hk]⟩

theorem mem_put {i : ℕ} {d d' : Dispatch Entity Event Error} (h : d' ∈ (s.put i d).dispatches) :
    d' = d ∨ d' ∈ s.dispatches := by
  unfold State.put at h
  split_ifs at h
  · exact .inr (List.mem_of_mem_eraseIdx h)
  · exact (List.mem_or_eq_of_mem_set h).symm

theorem mem_put_self {i : ℕ} {d d' : Dispatch Entity Event Error} (hd : s.dispatches[i]? = some d)
    (hne : d'.envelopes ≠ []) : d' ∈ (s.put i d').dispatches := by
  rw [State.put, if_neg hne]
  exact List.mem_set (List.getElem?_eq_some_iff.1 hd).1 d'

theorem mem_put_of_ne {i j : ℕ} {d d' : Dispatch Entity Event Error} (hij : j ≠ i)
    (hd : s.dispatches[j]? = some d) : d ∈ (s.put i d').dispatches := by
  unfold State.put
  split_ifs
  · exact List.mem_eraseIdx_iff_getElem?.2 ⟨j, hij, hd⟩
  · exact List.mem_of_getElem? (i := j) (by rw [List.getElem?_set_ne hij.symm, hd])

/-- The events that are underway stay underway, but for those the dispatch `i` has dropped. -/
theorem RowOk.underway_put {v : ℕ} (h : RowOk E id s v) {i : ℕ}
    {d d' : Dispatch Entity Event Error} (hd : s.dispatches[i]? = some d) {q : ℕ} (hlt : v < q)
    (hle : q ≤ s.store.log.length)
    (hkeep : q ∈ d.envelopes.map Prod.fst → q ∈ d'.envelopes.map Prod.fst) :
    ∃ d₁ ∈ (s.put i d').dispatches, q ∈ d₁.envelopes.map Prod.fst := by
  obtain ⟨d₁, hmem, hq⟩ := h.underway q hlt hle
  obtain ⟨j, hj⟩ := List.mem_iff_getElem?.1 hmem
  by_cases hij : j = i
  · subst hij
    obtain rfl := Option.some.inj (hd.symm.trans hj)
    refine ⟨d', mem_put_self hd fun hnil => ?_, hkeep hq⟩
    have := hkeep hq
    rw [hnil] at this
    cases this
  · exact ⟨d₁, mem_put_of_ne hij hj, hq⟩

/-- A reactor call that goes on with the same event changes nothing of the row. -/
theorem Inv.retry (h : Inv E id s) {i : ℕ} {d d' : Dispatch Entity Event Error}
    (hd : s.dispatches[i]? = some d) (henvelopes : d'.envelopes = d.envelopes)
    (hok : DispatchOk E id s.store.log d') : Inv E id (s.put i d') := by
  obtain ⟨v, hv⟩ := h.row
  refine ⟨h.store, fun d₁ hmem => ?_, v, hv.le, hv.row, fun q hlt hle =>
    hv.underway_put hd hlt hle fun hq => henvelopes ▸ hq⟩
  rcases mem_put hmem with rfl | hmem
  · exact hok
  · exact h.dispatches d₁ hmem

/-- A reactor call that wrote the next event to the row. -/
theorem Inv.advance (h : Inv E id s) {v : ℕ} (hv : RowOk E id s v) {i : ℕ}
    {d : Dispatch Entity Event Error} {event : Event} {rest : List (ℕ × Event)}
    (hd : s.dispatches[i]? = some d) (henvelopes : d.envelopes = (v + 1, event) :: rest)
    {view : ViewTable} (hrow : view.lookup id = rowAt E s.store.log (v + 1)) :
    Inv E id { s.put i (d.resume none) with view := view } := by
  have hok := h.dispatches d (List.mem_of_getElem? hd)
  obtain ⟨-, hget⟩ := hok.envelopes (v + 1, event) (by rw [henvelopes]; exact List.mem_cons_self)
  have hlt := (List.getElem?_eq_some_iff.1 hget).1
  refine ⟨h.store, fun d₁ hmem => ?_, v + 1, hlt, hrow, fun q hq hle => ?_⟩
  · rcases mem_put hmem with rfl | hmem
    · exact ⟨fun envelope hmem => hok.envelopes envelope (List.mem_of_mem_tail hmem), nofun⟩
    · exact h.dispatches d₁ hmem
  · refine hv.underway_put hd (Nat.lt_of_succ_lt hq) hle fun hmem => ?_
    rw [henvelopes, List.map_cons, List.mem_cons] at hmem
    rw [Dispatch.resume, henvelopes]
    exact hmem.resolve_left (Nat.ne_of_gt hq)

/-- The store moves on; what it commits is handed to a new dispatch. -/
theorem Inv.committed (h : Inv E id s) {store : StoreSystem.State Entity Event Command Error}
    (hstore : StoreSystem.StoreNumbered E id store) {events : List Event}
    (hlog : store.log = s.store.log ++ events) {dispatches : List (Dispatch Entity Event Error)}
    (hdispatches : events = [] ∧ dispatches = s.dispatches ∨
      dispatches = s.dispatches ++ [⟨SeqLog.rowsFrom (s.store.log.length + 1) events, 0, none⟩]) :
    Inv E id ⟨store, s.view, dispatches⟩ := by
  have hnew : ∀ q, s.store.log.length < q → q ≤ store.log.length →
      ∃ d ∈ dispatches, q ∈ d.envelopes.map Prod.fst := by
    intro q hlt hle
    rw [hlog, List.length_append] at hle
    rcases hdispatches with ⟨rfl, -⟩ | rfl
    · rw [List.length_nil] at hle
      omega
    · refine ⟨_, List.mem_append_cons_self, ?_⟩
      rw [SeqLog.map_fst_rowsFrom, List.mem_range'_1]
      omega
  have hold : ∀ d ∈ s.dispatches, d ∈ dispatches := by
    rcases hdispatches with ⟨-, rfl⟩ | rfl
    · exact fun d hd => hd
    · exact fun d hd => List.mem_append_left _ hd
  obtain ⟨v, hv⟩ := h.row
  have hlen : s.store.log.length ≤ store.log.length := by rw [hlog]; simp
  refine ⟨hstore, fun d hd => ?_, v, hv.le.trans hlen, ?_, fun q hlt hle => ?_⟩
  · rw [hlog]
    have hkept : ∀ d ∈ s.dispatches, DispatchOk E id (s.store.log ++ events) d := fun d hd =>
      (h.dispatches d hd).append events
    rcases hdispatches with ⟨-, rfl⟩ | rfl
    · exact hkept d hd
    · rcases List.mem_append.1 hd with hd | hd
      · exact hkept d hd
      · obtain rfl := List.mem_singleton.1 hd
        refine ⟨fun envelope hmem => ?_, nofun⟩
        obtain ⟨hle, hget⟩ := SeqLog.mem_rowsFrom.1 hmem
        refine ⟨by omega, ?_⟩
        rw [List.getElem?_append_right (by omega), ← hget]
        congr 1
        omega
  · rw [hlog, rowAt_append hv.le]
    exact hv.row
  · by_cases hq : q ≤ s.store.log.length
    · obtain ⟨d, hd, hmem⟩ := hv.underway q hlt hq
      exact ⟨d, hold d hd, hmem⟩
    · exact hnew q (not_le.1 hq) hle

theorem inv_store (hpol : E.compactionPolicy = .retain) (h : Inv E id s)
    (op : StoreSystem.Op Command) : Inv E id (step K E id s (.store op)) := by
  have hstore := StoreSystem.storeNumbered_step (K := K) hpol h.store op
  have hlog : (StoreSystem.step K E id s.store op).log = s.store.log ++ _ :=
    StoreSystem.log_step s.store op
  rw [step]
  split
  next event events hsent =>
    rw [hsent] at hlog
    exact h.committed hstore hlog (.inr rfl)
  next hother =>
    refine h.committed hstore (hlog.trans (congrArg (s.store.log ++ ·) ?_)) (.inl ⟨rfl, rfl⟩)
    split
    next events hsent =>
      cases events with
      | nil => rfl
      | cons event events => exact absurd hsent (hother event events)
    next => rfl

theorem inv_reactLoad (hserde : E.Serde) (h : Inv E id s) (i : ℕ) :
    Inv E id (step K E id s (.reactLoad i)) := by
  obtain ⟨v, hv⟩ := h.row
  rw [step]
  split
  next => exact h
  next d hd =>
    split
    next task htask hloaded =>
      obtain ⟨envelope, -, rfl⟩ := Option.map_eq_some_iff.1 htask
      have hload : reactLoad E s.view ⟨id, envelope.2, d.attempt, d.loaded⟩ =
          some ⟨id, envelope.2, d.attempt,
            some (Lifecycle.replay E (s.store.log.take v), ⟨id, v⟩)⟩ := reactLoad_rowAt hserde hv.row
      rw [hload]
      refine h.retry hd rfl
        ⟨(h.dispatches d (List.mem_of_getElem? hd)).envelopes, fun loaded hmem => ?_⟩
      exact ⟨v, hv.le, (Option.mem_some_iff.1 hmem).symm⟩
    next => exact h

theorem inv_reactBusy (h : Inv E id s) {i : ℕ} (hbudget : WithinBudget E s (.reactBusy i)) :
    Inv E id (step K E id s (.reactBusy i)) := by
  rw [step]
  split
  next => exact h
  next d hd =>
    split
    next => exact h
    next task htask =>
      obtain ⟨envelope, -, rfl⟩ := Option.map_eq_some_iff.1 htask
      rw [ReactTask.retry, if_pos (hbudget d hd)]
      exact h.retry hd rfl ⟨(h.dispatches d (List.mem_of_getElem? hd)).envelopes, nofun⟩

theorem inv_reactUpdate (h : Inv E id s) {i : ℕ} (hbudget : WithinBudget E s (.reactUpdate i))
    (horder : InOrder id s (.reactUpdate i)) : Inv E id (step K E id s (.reactUpdate i)) := by
  obtain ⟨v, hv⟩ := h.row
  rw [step]
  split
  next => exact h
  next d hd =>
    split
    next task loaded htask hloaded =>
      obtain ⟨envelope, henvelope, rfl⟩ := Option.map_eq_some_iff.1 htask
      have hok := h.dispatches d (List.mem_of_getElem? hd)
      obtain ⟨k, hk, rfl⟩ := hok.loaded loaded hloaded
      obtain ⟨hnext, hfirst⟩ := horder d hd envelope henvelope _ hloaded
      have hbudget := hbudget d hd envelope henvelope _ hloaded
      rw [rowVersion_rowAt hv.row] at hnext hfirst
      dsimp only at hnext hfirst hbudget ⊢
      by_cases hkv : k = v
      · subst hkv
        -- The row is as it was loaded, so the event is the next one.
        obtain ⟨q, event⟩ := envelope
        obtain rfl : q = k + 1 := by have := hnext rfl; dsimp only at this; omega
        obtain ⟨rest, hrest⟩ := List.head?_eq_some_iff.1 henvelope
        obtain ⟨-, hget⟩ := hok.envelopes (k + 1, event) (by rw [hrest]; exact List.mem_cons_self)
        rw [Nat.add_sub_cancel] at hget
        have hbound : k + 1 ≤ i64Max :=
          (List.getElem?_eq_some_iff.1 hget).1.trans_le h.store.numbered.bounded
        have hwrite : updateView E s.view
            ((Lifecycle.replay E (s.store.log.take k)).apply E event) ⟨id, k⟩ = _ :=
          updateView_rowAt hv.row hbound _
        rw [replay_take_succ hget] at hwrite
        simp only [reactUpdate, replay_take_succ hget, hwrite]
        refine h.advance hv hd hrest ?_
        rw [AList.lookup_insert, rowAt_pos (Nat.succ_ne_zero k), Nat.cast_succ]
      · have hconflict := updateView_conflict hv.row (k := (k : ℤ))
          (fun hzero => hkv (by have := hfirst hzero; omega)) (by exact_mod_cast hkv)
          ((Lifecycle.replay E (s.store.log.take k)).apply E envelope.2)
        simp only [reactUpdate, hconflict, ReactTask.retry,
          if_pos (hbudget (by rw [conflicts, hconflict]))]
        exact h.retry hd rfl ⟨hok.envelopes, fun loaded hnone => by cases hnone⟩
    next => exact h

theorem lookup_replaceRows (view other : ViewTable) :
    (replaceRows id view other).lookup id = view.lookup id := by
  unfold replaceRows
  cases h : view.lookup id with
  | none => exact AList.lookup_erase _ _
  | some row => exact AList.lookup_insert _

/-- **One operation** keeps the invariant if no reactor call gives up and every write is in order. -/
theorem inv_step (hpol : E.compactionPolicy = .retain) (hserde : E.Serde) (h : Inv E id s)
    (op : Op Command) (hop : WithinBudget E s op ∧ InOrder id s op) :
    Inv E id (step K E id s op) := by
  cases op with
  | store op => exact inv_store hpol h op
  | reactLoad i => exact inv_reactLoad hserde h i
  | reactUpdate i => exact inv_reactUpdate h hop.1 hop.2
  | reactBusy i => exact inv_reactBusy h hop.1
  | elsewhere other =>
      obtain ⟨v, hv⟩ := h.row
      exact ⟨h.store, h.dispatches, v, hv.le, (lookup_replaceRows s.view other).trans hv.row,
        hv.underway⟩

/-- An account whose events overwrite each other. -/
def register : EventSourced ℤ ℤ (List ℤ) Unit :=
  { ledger .retain with evolve := fun _ amount => .ok (some amount) }

theorem register_serde : register.Serde := ⟨fun _ => rfl, fun _ => rfl, nofun⟩

/-- Two sends that both commit before the reactor calls in `reacts`. -/
def twoSends (reacts : List (Op (List ℤ))) : List (Op (List ℤ)) :=
  (sendAt 0 [1] ++ sendAt 0 [20]).map .store ++ reacts

/-- The register's system after `twoSends`. -/
def raced (reacts : List (Op (List ℤ))) : State ℤ ℤ (List ℤ) Unit :=
  (machine .atMultiples register "a").run (twoSends reacts)

/-- Both events are committed and no call is left or gave up, but the row has the first event's fold
alone. -/
def Missed (reacts : List (Op (List ℤ))) : Prop :=
  (machine .atMultiples register "a").Meets (WithinBudget register)
      (machine .atMultiples register "a").init (twoSends reacts) ∧
    (raced reacts).dispatches.length = 0 ∧ (raced reacts).store.log = [1, 20] ∧
    ((raced reacts).view.lookup "a").map ViewRow.payload = some (.tagged "Live" (.int 1)) ∧
    (Lifecycle.replay register [1, 20]).toJson register = .tagged "Live" (.int 20)

instance (reacts : List (Op (List ℤ))) : Decidable (Missed reacts) :=
  inferInstanceAs (Decidable (_ ∧ _ ∧ _ ∧ _ ∧ _))

end ViewSystem

end EventSorcery
