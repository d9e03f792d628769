import EventSorcery.BindingStore
import EventSorcery.PageWalk

/-!
# Calls of the bindings' store on one stream

The events that were committed to a stream, in order, are its *history*. The database holds the
history's rows above the stored snapshot, and perhaps some below it; the snapshot is the entity of the
history up to it. A load can meet the stream in several states, but replay takes nothing that does not
follow on, so what it returns is the entity of some beginning of the history, with that beginning's
length for a version. A commit is then accepted only at the history's end. The exception is a dispatch
whose job has the stream itself for its own: `calls_keep_history`.
-/

namespace EventSorcery

namespace Binding

variable {Entity Event Command CommandError ApplyError : Type}
  (E : EventSourced Entity Event Command CommandError ApplyError)

/-- Both codecs give back what was encoded. -/
structure EventSourced.RoundTrips : Prop where
  event : ∀ event, E.decodeEvent (E.encodeEvent event) = .ok event
  snapshot : ∀ entity, E.decodeSnapshot (E.encodeSnapshot entity) = .ok entity

/-! ## Histories -/

/-- The row that an event is stored in. -/
def storedRow (event : Event) : StoredEvent := (proposed E event).stored

/-- The entity that events add up to. -/
def foldEvents (events : List Event) : Except ApplyError (Option Entity) :=
  events.foldlM (fun state event => some <$> applyEvent E state event) none

/-- After the first `n` events of the history, the entity is this. -/
def At (history : List Event) (n : ℕ) (current : Option Entity) : Prop :=
  n ≤ history.length ∧ foldEvents E (history.take n) = .ok current

/-- A page's event is one of the history, under its number. -/
def Read (history : List Event) (stored : OpaqueStoredEvent) : Prop :=
  ∃ n event, history[n]? = some event ∧ stored = (proposed E event).numbered (n + 1)

variable {E} {history more : List Event} {n : ℕ} {current : Option Entity}

theorem foldEvents_concat (events : List Event) (event : Event) :
    foldEvents E (events ++ [event]) =
      foldEvents E events >>= fun state => some <$> applyEvent E state event := by
  rw [foldEvents, List.foldlM_append]
  simp [foldEvents]

theorem At.start : At E history 0 none := ⟨Nat.zero_le _, rfl⟩

theorem At.succ {event : Event} {entity : Entity} (h : At E history n current)
    (hevent : history[n]? = some event) (happly : applyEvent E current event = .ok entity) :
    At E history (n + 1) (some entity) := by
  obtain ⟨hlt, -⟩ := List.getElem?_eq_some_iff.1 hevent
  refine ⟨hlt, ?_⟩
  rw [List.take_add_one, hevent, Option.toList_some, foldEvents_concat, h.2]
  change some <$> applyEvent E current event = _
  rw [happly]
  rfl

theorem At.append (h : At E history n current) : At E (history ++ more) n current :=
  ⟨h.1.trans (by simp), by rw [List.take_append_of_le_length h.1]; exact h.2⟩

theorem Read.append {stored : OpaqueStoredEvent} (h : Read E history stored) :
    Read E (history ++ more) stored := by
  obtain ⟨n, event, hevent, hstored⟩ := h
  obtain ⟨hlt, -⟩ := List.getElem?_eq_some_iff.1 hevent
  exact ⟨n, event, by rw [List.getElem?_append_left hlt, hevent], hstored⟩

theorem getElem?_of_drop {event : Event} {rest : List Event} (h : history.drop n = event :: rest) :
    history[n]? = some event ∧ history.drop (n + 1) = rest := by
  refine ⟨?_, ?_⟩
  · rw [← List.head?_drop, h, List.head?_cons]
  · rw [← List.tail_drop, h, List.tail_cons]

/-- Events that evolve an entity add up after it. -/
theorem At.evolve {entity next : Entity} {events : List Event} (hat : At E history n (some entity))
    (hevents : history.drop n = events ++ more) (hnext : events.foldlM E.evolve entity = .ok next) :
    At E history (n + events.length) (some next) := by
  induction events generalizing n entity with
  | nil =>
      obtain rfl := Except.ok.inj hnext
      exact hat
  | cons event events ih =>
      obtain ⟨state, hstate, hrest⟩ := Except.bind_eq_ok.1 hnext
      obtain ⟨hevent, htail⟩ := getElem?_of_drop hevents
      have hlater := ih (hat.succ hevent hstate) htail hrest
      rwa [List.length_cons, Nat.add_comm events.length, ← Nat.add_assoc]

/-- What a decision's events lead to is the entity of the history with them. -/
theorem At.applyEvents {first : Event} {rest : List Event} {next : Entity}
    (hat : At E history n current) (hevents : history.drop n = (first :: rest) ++ more)
    (hnext : applyEvents E current first rest = .ok next) :
    At E history (n + (first :: rest).length) (some next) := by
  cases current with
  | some entity => exact hat.evolve hevents hnext
  | none =>
      obtain ⟨initial, hinitial, hrest⟩ := Except.bind_eq_ok.1 hnext
      obtain ⟨hevent, htail⟩ := getElem?_of_drop hevents
      have hlater := (hat.succ hevent hinitial).evolve htail hrest
      rwa [List.length_cons, Nat.add_comm rest.length, ← Nat.add_assoc]

/-! ## Replay -/

/-- Replay takes an event only at its place. -/
theorem replayEvent_eq_ok (hE : E.RoundTrips) {stored : OpaqueStoredEvent}
    {state : Option Entity × ℕ} (hread : Read E history stored)
    (h : replayEvent E (current, n + 1) stored = .ok state) :
    stored.sequence = n + 1 ∧ ∃ entity, state = (some entity, n + 2) ∧
      (At E history n current → At E history (n + 1) (some entity)) := by
  obtain ⟨m, event, hevent, rfl⟩ := hread
  obtain ⟨_, hsequence, h⟩ := Except.bind_eq_ok.1 h
  obtain ⟨decoded, hdecode, h⟩ := Except.bind_eq_ok.1 h
  obtain ⟨_, -, h⟩ := Except.bind_eq_ok.1 h
  obtain ⟨next, hnext, h⟩ := Except.bind_eq_ok.1 h
  obtain ⟨following, hfollowing, h⟩ := Except.bind_eq_ok.1 h
  have hnumber : m + 1 = n + 1 := by
    unfold validateSequence at hsequence
    split_ifs at hsequence with heq
    exact heq
  obtain rfl : m = n := Nat.succ.inj hnumber
  obtain rfl : event = decoded :=
    Except.ok.inj ((hE.event event).symm.trans (Except.mapError_eq_ok.1 hdecode))
  have hafter : m + 2 = following := by
    unfold nextPosition at hfollowing
    split_ifs at hfollowing
    exact Except.ok.inj hfollowing
  subst hafter
  exact ⟨rfl, next, (Except.ok.inj h).symm,
    fun hat => hat.succ hevent (Except.mapError_eq_ok.1 hnext)⟩

/-- **Replay.** What is replayed behind a beginning of the history is a longer one, and the last
event's number is its length. -/
theorem foldlM_replayEvent_eq_ok (hE : E.RoundTrips) {events : List OpaqueStoredEvent}
    {state : Option Entity × ℕ} (hread : ∀ e ∈ events, Read E history e)
    (hat : At E history n current)
    (h : events.foldlM (replayEvent E) (current, n + 1) = .ok state) :
    At E history (latestSequenceAfter n events) state.1 ∧ (current.isSome → state.1.isSome) := by
  induction events generalizing n current with
  | nil =>
      obtain rfl := Except.ok.inj h
      exact ⟨hat, id⟩
  | cons stored events ih =>
      obtain ⟨mid, hmid, hrest⟩ := Except.bind_eq_ok.1 h
      rw [List.forall_mem_cons] at hread
      obtain ⟨hnumber, entity, rfl, hnext⟩ := replayEvent_eq_ok hE hread.1 hmid
      have hlater := ih hread.2 (hnext hat) hrest
      rw [latestSequenceAfter, List.foldl_cons, hnumber]
      exact ⟨hlater.1, fun _ => hlater.2 rfl⟩

/-- What a load returns is the entity of a beginning of the history, with its length. -/
theorem loadedCurrent_eq_ok (hE : E.RoundTrips) {base : Option (ℕ × Entity)}
    {events : List OpaqueStoredEvent} {loaded : Option Entity × ℕ}
    (hbase : ∀ b ∈ base, At E history b.1 (some b.2)) (hread : ∀ e ∈ events, Read E history e)
    (h : (loadedCurrent E base events : Except (StoreError CommandError ApplyError) _) =
      .ok loaded) : At E history loaded.2 loaded.1 := by
  cases base with
  | none =>
      obtain ⟨entity, hentity, hloaded⟩ := Except.bind_eq_ok.1 h
      obtain ⟨state, hstate, hresult⟩ := Except.bind_eq_ok.1 (Except.mapError_eq_ok.1 hentity)
      obtain rfl := Except.ok.inj hloaded
      obtain rfl := Except.ok.inj hresult
      exact (foldlM_replayEvent_eq_ok hE hread At.start hstate).1
  | some base =>
      obtain ⟨resumed, hresumed, hloaded⟩ := Except.bind_eq_ok.1 h
      obtain ⟨position, hposition, hresume⟩ :=
        Except.bind_eq_ok.1 (Except.mapError_eq_ok.1 hresumed)
      obtain ⟨state, hstate, hresult⟩ := Except.bind_eq_ok.1 hresume
      have hfrom : base.1 + 1 = position := by
        unfold nextPosition at hposition
        split_ifs at hposition
        exact Except.ok.inj hposition
      subst hfrom
      obtain ⟨hat, hsome⟩ := foldlM_replayEvent_eq_ok hE hread (hbase base rfl) hstate
      obtain ⟨entity, hentity⟩ := Option.isSome_iff_exists.1 (hsome rfl)
      rw [hentity] at hat
      obtain rfl := Except.ok.inj hloaded
      obtain rfl := Except.ok.inj hresult
      rw [hentity]
      exact hat

/-! ## The stream in the database -/

/-- The stream with nothing deleted. -/
def fullLog (E : EventSourced Entity Event Command CommandError ApplyError)
    (history : List Event) : SeqLog StoredEvent :=
  SeqLog.ofList 0 (history.map (storedRow E))

/-- What the database has of a history. -/
structure Holds (E : EventSourced Entity Event Command CommandError ApplyError) (s : StreamIdentity)
    (history : List Event) (db : Db) : Prop where
  /-- Every row is the history's. -/
  get_eq : ∀ q x, db.row s q = some x → (fullLog E history).get? q = some x
  /-- No row is missing above the snapshot. -/
  kept : ∀ q x, db.covered s < q → (fullLog E history).get? q = some x → db.row s q = some x
  /-- The snapshot is the entity of the history up to it. -/
  snapshot : ∀ row, db.snapshots.lookup s = some row → ∃ entity,
    At E history row.lastSequence (some entity) ∧
      row.payload = encodeOpaquePayload (E.encodeSnapshot entity)
  bounded : history.length ≤ i64Max

section Database

variable {s : StreamIdentity} {db db' : Db}

theorem get?_fullLog (q : ℕ) : (fullLog E history).get? (q + 1) =
    history[q]?.map (storedRow E) := by
  rw [fullLog, SeqLog.get?_ofList, if_pos (Nat.succ_pos q), List.getElem?_map]
  rfl

theorem le_of_get?_fullLog {q : ℕ} {x : StoredEvent} (h : (fullLog E history).get? q = some x) :
    q ≤ history.length := by
  have hle := SeqLog.le_maxSeq h
  rwa [fullLog, SeqLog.maxSeq_ofList_zero, List.length_map] at hle

theorem get?_fullLog_append {q : ℕ} (hq : q ≤ history.length) :
    (fullLog E (history ++ more)).get? q = (fullLog E history).get? q := by
  cases q with
  | zero => rw [fullLog, fullLog, SeqLog.get?_ofList, SeqLog.get?_ofList, if_neg, if_neg] <;> simp
  | succ q => rw [get?_fullLog, get?_fullLog, List.getElem?_append_left hq]

/-- A stream without rows or snapshot has the empty history. -/
theorem Holds.of_unused (hrows : ∀ q, db.row s q = none) (hsnapshot : db.snapshots.lookup s = none) :
    Holds E s [] db where
  get_eq q x hx := by rw [hrows q] at hx; cases hx
  kept q x _ hx := by cases hx
  snapshot row hrow := by rw [hsnapshot] at hrow; cases hrow
  bounded := Nat.zero_le _

theorem Holds.covered_le (h : Holds E s history db) : db.covered s ≤ history.length := by
  rw [Db.covered]
  cases hrow : db.snapshots.lookup s with
  | none => exact Nat.zero_le _
  | some row =>
      obtain ⟨entity, hat, -⟩ := h.snapshot row hrow
      exact hat.1

/-- The version of the stream is the length of its history. -/
theorem Holds.version (h : Holds E s history db) :
    committedStreamVersion db s = history.length := by
  rw [committedStreamVersion_eq]
  refine le_antisymm (max_le (SeqLog.maxSeq_le fun q x hx => ?_) h.covered_le) ?_
  · exact le_of_get?_fullLog (h.get_eq q x hx)
  · rcases h.covered_le.eq_or_lt with heq | hlt
    · exact heq ▸ le_max_right _ _
    · -- The last event lies above the snapshot, so its row is there.
      obtain ⟨q, hq⟩ : ∃ q, history.length = q + 1 := ⟨history.length - 1, by omega⟩
      have hlast : (fullLog E history).get? (q + 1) = some (storedRow E history[q]) := by
        rw [get?_fullLog, List.getElem?_eq_getElem, Option.map_some]
      rw [hq] at hlt ⊢
      exact le_max_of_le_left (SeqLog.le_maxSeq (h.kept _ _ hlt hlast))

/-- What a page brings is of the history. -/
theorem Holds.read_page {double : UInt64 → List UInt8} (h : Holds E s history db)
    {after : Option UInt64} {page : List OpaqueStoredEvent}
    (hpage : loadStreamPage double s after db = .ok page) : ∀ e ∈ page, Read E history e := by
  have hrow : ∀ r ∈ (db.stream s).rows, (fullLog E history).get? r.1 = some r.2 :=
    fun r hr => h.get_eq r.1 r.2 (SeqLog.get?_eq_some.2 hr)
  have hbound : ∀ r ∈ (db.stream s).rows, r.1 ≤ i64Max :=
    fun r hr => (le_of_get?_fullLog (hrow r hr)).trans h.bounded
  obtain ⟨-, -, hdecode, -⟩ := (loadStreamPage_eq_ok hbound).1 hpage
  intro e he
  obtain ⟨r, hr, hevent⟩ := (List.mem_of_mapM_eq_ok hdecode).2 e he
  have hget := hrow r (mem_rows_of_mem_pageRows hr)
  obtain ⟨q, x⟩ := r
  cases q with
  | zero =>
      rw [fullLog, SeqLog.get?_ofList, if_neg (lt_irrefl 0)] at hget
      cases hget
  | succ q =>
      rw [get?_fullLog] at hget
      obtain ⟨event, hmem, rfl⟩ := Option.map_eq_some_iff.1 hget
      rw [storedRow, decodeOpaqueEvent_stored] at hevent
      exact ⟨q, event, hmem, (Except.ok.inj hevent).symm⟩

theorem snapshotToWire_eq_ok {row : SnapshotRow} {sequence version : UInt64}
    {payload : List UInt8} (h : snapshotToWire row = .ok (sequence, version, payload)) :
    sequence = UInt64.ofNat row.lastSequence ∧ decodeOpaquePayload row.payload = .ok payload := by
  obtain ⟨bytes, hbytes, h⟩ := Except.bind_eq_ok.1 h
  obtain ⟨_, -, h⟩ := Except.bind_eq_ok.1 h
  obtain ⟨rfl, hrest⟩ := Prod.mk.inj (Except.ok.inj h)
  obtain ⟨-, rfl⟩ := Prod.mk.inj hrest
  exact ⟨rfl, Except.mapError_eq_ok.1 hbytes⟩

/-- A loaded snapshot is the stored row. -/
theorem loadSnapshot_eq_ok {stored : StoredSnapshot} (h : loadSnapshot s db = .ok (some stored)) :
    ∃ row, db.snapshots.lookup s = some row ∧ stored.sequence = UInt64.ofNat row.lastSequence ∧
      decodeOpaquePayload row.payload = .ok stored.payload := by
  unfold loadSnapshot at h
  split at h
  · cases h
  next bytes hload =>
    obtain ⟨_, -, hload⟩ := Except.bind_eq_ok.1 hload
    obtain ⟨_, -, hload⟩ := Except.bind_eq_ok.1 hload
    obtain ⟨_, -, hload⟩ := Except.bind_eq_ok.1 hload
    obtain ⟨wire, hwire, hencode⟩ := Except.bind_eq_ok.1 hload
    obtain ⟨hsize, rfl⟩ := encodeResponse_eq_ok.1 hencode
    rw [(reads_storedSnapshot (hsize.trans_lt (by decide))).complete] at h
    have hstored := Except.ok.inj h
    obtain ⟨⟨sequence, version, payload⟩, rfl, rfl⟩ := Option.map_eq_some_iff.1 hstored
    change (db.snapshots.lookup s).mapM snapshotToWire = _ at hwire
    cases hrow : db.snapshots.lookup s with
    | none =>
        rw [hrow] at hwire
        cases hwire
    | some row =>
        rw [hrow, Option.mapM_some] at hwire
        cases hfields : snapshotToWire row with
        | error error =>
            rw [hfields] at hwire
            cases hwire
        | ok fields =>
            rw [hfields] at hwire
            obtain rfl := Option.some.inj (Except.ok.inj hwire)
            exact ⟨row, rfl, snapshotToWire_eq_ok hfields⟩

/-- The entity of a loaded snapshot is the one of the history up to it. -/
theorem Holds.read_snapshot (hE : E.RoundTrips) (h : Holds E s history db) {stored : StoredSnapshot}
    {entity : Entity} (hload : loadSnapshot s db = .ok (some stored))
    (hdecode : E.decodeSnapshot stored.payload = .ok entity) :
    At E history stored.sequence.toNat (some entity) := by
  obtain ⟨row, hrow, hsequence, hpayload⟩ := loadSnapshot_eq_ok hload
  obtain ⟨current, hat, hencoded⟩ := h.snapshot row hrow
  rw [hencoded, decodeOpaquePayload_encodeOpaquePayload] at hpayload
  rw [← Except.ok.inj hpayload, hE.snapshot] at hdecode
  obtain rfl := Except.ok.inj hdecode
  have hlt : row.lastSequence < 2 ^ 64 := (hat.1.trans h.bounded).trans_lt (by decide)
  rwa [hsequence, UInt64.toNat_ofNat_of_lt' hlt]

/-! ## What the writes insert -/

theorem inserted_eq_nil (h : ∀ q x, db'.row s q = some x → db.row s q = some x) :
    StreamVersion.inserted s db db' = [] := by
  refine List.filter_eq_nil_iff.2 fun r hr => ?_
  rw [h r.1 r.2 (SeqLog.get?_eq_some.2 hr)]
  simp

/-- What a call adds to a history: the rows of its events, and nothing else in the stream. -/
structure Extends (E : EventSourced Entity Event Command CommandError ApplyError)
    (s : StreamIdentity) (history events : List Event) (db db' : Db) : Prop where
  holds : Holds E s (history ++ events) db'
  inserted : StreamVersion.inserted s db db' =
    SeqLog.rowsFrom (history.length + 1) (events.map (storedRow E))

theorem Extends.of_rows (hholds : Holds E s history db')
    (hrows : ∀ q x, db'.row s q = some x → db.row s q = some x) :
    Extends E s history [] db db' :=
  ⟨by rwa [List.append_nil], inserted_eq_nil hrows⟩

theorem Extends.refl (h : Holds E s history db) : Extends E s history [] db db :=
  .of_rows h fun _ _ hx => hx

/-- Compaction deletes nothing above the snapshot. -/
theorem Holds.deleteCovered (h : Holds E s history db) :
    Extends E s history [] db (deleteCovered s.aggregateType db) := by
  have hrow : ∀ q, (EventSorcery.deleteCovered s.aggregateType db).row s q =
      if q ≤ db.covered s then none else db.row s q := by
    intro q
    rw [Db.row, stream_deleteCovered, if_pos rfl, SeqLog.get?_deleteUpTo]
    rfl
  have hsub : ∀ q x, (EventSorcery.deleteCovered s.aggregateType db).row s q = some x →
      db.row s q = some x := by
    intro q x hx
    rw [hrow q] at hx
    split_ifs at hx
    exact hx
  refine .of_rows ⟨fun q x hx => h.get_eq q x (hsub q x hx), fun q x hq hx => ?_, h.snapshot,
    h.bounded⟩ hsub
  change db.covered s < q at hq
  rw [hrow q, if_neg (not_le.2 hq)]
  exact h.kept q x hq hx

/-- A snapshot of a beginning of the history takes the place of a shorter one. -/
theorem Holds.storeSnapshot (h : Holds E s history db) {entity : Entity}
    (hat : At E history n (some entity)) :
    Extends E s history [] db (storeSnapshot s n (E.encodeSnapshot entity) db).2 := by
  have hlt : n < 2 ^ 64 := (hat.1.trans h.bounded).trans_lt (by decide)
  change Extends E s history [] db (esSnapshotStore none _ db).2
  unfold esSnapshotStore
  dsimp only
  split
  · exact .refl h
  · rcases storeSnapshot_cases none s
      ⟨encodeOpaquePayload (E.encodeSnapshot entity), (UInt64.ofNat n).toNat⟩ db with
      hdb | ⟨version, hdb, hle, -⟩
    · rw [hdb]
      exact .refl h
    · rw [hdb]
      rw [UInt64.toNat_ofNat_of_lt' hlt] at hle ⊢
      refine .of_rows ⟨h.get_eq, fun q x hq hx => ?_, fun row hrow => ?_, h.bounded⟩
        fun _ _ hx => hx
      · rw [covered_setSnapshot] at hq
        exact h.kept q x (hle.trans_lt hq) hx
      · rw [Db.setSnapshot, AList.lookup_insert] at hrow
        obtain rfl := Option.some.inj hrow
        exact ⟨entity, hat, rfl⟩

/-- Rows that are the numbered events, in a stream that had none of them. -/
theorem inserted_eq_rowsFrom {xs : List StoredEvent} {v : ℕ}
    (hnew : ∀ i x, xs[i]? = some x → db.row s (v + 1 + i) = none ∧ db'.row s (v + 1 + i) = some x)
    (hold : ∀ q, ¬ (v < q ∧ q ≤ v + xs.length) → db'.row s q = db.row s q) :
    StreamVersion.inserted s db db' = SeqLog.rowsFrom (v + 1) xs := by
  have hsorted : (StreamVersion.inserted s db db').Pairwise fun a b => a.1 < b.1 :=
    (db'.stream s).sorted.filter _
  suffices heq : (⟨_, hsorted⟩ : SeqLog StoredEvent) = SeqLog.ofList v xs from
    congrArg SeqLog.rows heq
  refine SeqLog.ext_get? fun q => Option.ext fun x => ?_
  rw [SeqLog.get?_eq_some, SeqLog.get?_eq_some, SeqLog.rows_ofList, SeqLog.mem_rowsFrom]
  constructor
  · intro hmem
    obtain ⟨hrow, hnone⟩ := List.mem_filter.1 hmem
    have hget : db'.row s q = some x := SeqLog.get?_eq_some.2 hrow
    have hfree : db.row s q = none := Option.isNone_iff_eq_none.1 hnone
    by_cases hin : v < q ∧ q ≤ v + xs.length
    · have hi : q - (v + 1) < xs.length := by omega
      have hat := (hnew _ _ (List.getElem?_eq_getElem hi)).2
      rw [show v + 1 + (q - (v + 1)) = q by omega, hget] at hat
      exact ⟨hin.1, by rw [List.getElem?_eq_getElem hi, Option.some.inj hat]⟩
    · rw [hold q hin, hfree] at hget
      cases hget
  · rintro ⟨hq, hx⟩
    obtain ⟨hfree, hget⟩ := hnew _ x hx
    rw [show v + 1 + (q - (v + 1)) = q by omega] at hfree hget
    exact List.mem_filter.2 ⟨SeqLog.get?_eq_some.1 hget, by rw [hfree]; rfl⟩

/-- New events behind the history, with the other rows and the snapshot left alone. -/
theorem Holds.extend {events : List Event} (h : Holds E s history db)
    (hnew : ∀ i x, (events.map (storedRow E))[i]? = some x →
      db.row s (history.length + 1 + i) = none ∧ db'.row s (history.length + 1 + i) = some x)
    (hold : ∀ q, ¬ (history.length < q ∧ q ≤ history.length + events.length) →
      db'.row s q = db.row s q)
    (hsnapshot : db'.snapshots.lookup s = db.snapshots.lookup s)
    (hbound : history.length + events.length ≤ i64Max) : Extends E s history events db db' := by
  have hcovered : db'.covered s = db.covered s := by rw [Db.covered, hsnapshot, Db.covered]
  have hrow : ∀ q, history.length < q → db'.row s q = (fullLog E (history ++ events)).get? q := by
    intro q hq
    obtain ⟨i, rfl⟩ : ∃ i, q = history.length + i + 1 := ⟨q - history.length - 1, by omega⟩
    rw [get?_fullLog, List.getElem?_append_right (Nat.le_add_right _ _), Nat.add_sub_cancel_left,
      Nat.add_right_comm]
    cases hi : events[i]? with
    | some event => exact (hnew i _ (by rw [List.getElem?_map, hi]; rfl)).2
    | none =>
        have hpast := List.getElem?_eq_none_iff.1 hi
        rw [hold _ (by omega)]
        exact row_eq_none_of_version_lt (h.version.trans_lt (by omega))
  refine ⟨⟨fun q x hx => ?_, fun q x hq hx => ?_, fun row hrow => ?_, ?_⟩, ?_⟩
  · rcases le_or_gt q history.length with hle | hlt
    · rw [hold q (by omega)] at hx
      rw [get?_fullLog_append hle]
      exact h.get_eq q x hx
    · rwa [← hrow q hlt]
  · rcases le_or_gt q history.length with hle | hlt
    · rw [get?_fullLog_append hle] at hx
      rw [hold q (by omega)]
      exact h.kept q x (hcovered ▸ hq) hx
    · rwa [hrow q hlt]
  · obtain ⟨entity, hat, hpayload⟩ := h.snapshot row (hsnapshot ▸ hrow)
    exact ⟨entity, hat.append, hpayload⟩
  · rwa [List.length_append]
  · exact inserted_eq_rowsFrom hnew (by rwa [List.length_map])

/-- **A commit** is accepted only at the end of the history, and adds its events to it. -/
theorem Holds.commitOpaque (h : Holds E s history db) {events : List Event} {v : ℕ}
    {jobs : List EnqueueRequest} (hne : events ≠ [])
    (hok : (commitOpaque none ⟨s, v, events.map (proposed E), jobs⟩ db).1 = .ok ())
    (hapart : ∀ job ∈ jobs, jobStream job.jobId = s → v = 0 ∨ (db.row s 1).isSome) :
    v = history.length ∧ Extends E s history events db
      (EventSorcery.commitOpaque none ⟨s, v, events.map (proposed E), jobs⟩ db).2 := by
  have hat := committedAt_of_commitOpaque hok
  have hjobs : ∀ job ∈ jobs, jobStream job.jobId ≠ s := by
    intro job hjob heq
    rcases hapart job hjob heq with hzero | hsome
    · exact jobStream_ne_of_commitOpaque hok (by simpa using hne) hzero job hjob heq
    · obtain ⟨_, -, hfree, -⟩ := hat.jobs job hjob
      rw [heq] at hfree
      rw [hfree] at hsome
      cases hsome
  have hlength : (events.map (proposed E)).length = events.length := List.length_map _
  obtain rfl : v = history.length := hat.version.symm.trans h.version
  refine ⟨rfl, h.extend (fun i x hx => ?_) (fun q hq => ?_)
    (lookup_snapshots_commitOpaque hok s) ?_⟩
  · rw [List.getElem?_map] at hx
    obtain ⟨event, hevent, rfl⟩ := Option.map_eq_some_iff.1 hx
    refine ⟨row_eq_none_of_version_lt (h.version.trans_lt (by omega)), ?_⟩
    exact row_commitOpaque_new hok (by rw [List.getElem?_map, hevent]; rfl)
  · exact row_commitOpaque_old hok hjobs (by rwa [hlength])
  · have hpos := List.length_pos_of_ne_nil hne
    have hlast := commitOpaque_bounded hok (events.length - 1) (by rw [hlength]; omega)
    change history.length + 1 + (events.length - 1) ≤ i64Max at hlast
    omega

/-! ## Commits of the bindings -/

/-- The answer was an error, and nothing was written. -/
def Refused {ε α : Type} (answer : Except ε α × Db) (db : Db) : Prop :=
  ∃ error, answer = (.error error, db)

theorem commitResult_cases (request : OpaqueCommitRequest) (db : Db) :
    Refused (commitResult none request db) db ∨
      (EventSorcery.commitOpaque none request db).1 = .ok () ∧
        commitResult none request db = (.ok (), (EventSorcery.commitOpaque none request db).2) := by
  cases hok : (EventSorcery.commitOpaque none request db).1 with
  | ok u => exact .inr ⟨rfl, PagedStream.commitResult_of_ok hok⟩
  | error error =>
      refine .inl ?_
      cases hresult : commitResult none request db with
      | mk answer db' =>
          cases answer with
          | error error => exact ⟨error, by rw [PagedStream.commitResult_error hresult]⟩
          | ok u =>
              rw [(PagedStream.commitResult_ok hresult).1] at hok
              cases hok

/-- What a commit's bytes ask the engine for. -/
theorem commitCall_cases (s : StreamIdentity) (db : Db) {events : List OpaqueProposedEvent}
    (hne : events ≠ []) (hn : n < 2 ^ 64) :
    Refused (commitCall none (encodeCommit s (UInt64.ofNat n) events) db) db ∨
      (EventSorcery.commitOpaque none ⟨s, n, events, []⟩ db).1 = .ok () ∧
        commitCall none (encodeCommit s (UInt64.ofNat n) events) db =
          (.ok (), (EventSorcery.commitOpaque none ⟨s, n, events, []⟩ db).2) := by
  rcases lt_or_ge maxRequestBytes (encodeCommit s (UInt64.ofNat n) events).length with hbig | hsize
  · rw [commitCall, decodeValidated, if_pos hbig]
    exact .inl ⟨_, rfl⟩
  rcases lt_or_ge maxCommitEvents events.length with hmany | hcount
  · have hbytes := Request.encode_eq_bytes (.commit s (UInt64.ofNat n) events)
    change encodeCommit s (UInt64.ofNat n) events = _ at hbytes
    rw [hbytes] at hsize ⊢
    exact .inl ⟨_, commitCall_overlong none db hmany hsize⟩
  · have hdecode : decodeValidated Wire.commit
        (fun wire => requireCommitEventCount wire.events.observed)
        (encodeCommit s (UInt64.ofNat n) events) = _ :=
      Request.decode_encode (.commit s (UInt64.ofNat n) events) ⟨hne, hcount⟩ hsize
    rw [commitCall, hdecode]
    dsimp only
    unfold esCommit
    split
    · exact .inl ⟨_, rfl⟩
    next request hparts =>
      have hrequest : request = ⟨s, (UInt64.ofNat n).toNat, events, []⟩ :=
        (commitParts_eq_ok hparts).1
      rw [hrequest, UInt64.toNat_ofNat_of_lt' hn]
      exact commitResult_cases _ db

theorem commitWithJobCall_cases (s : StreamIdentity) {parseJobId : String → Option JobId}
    {event : OpaqueProposedEvent} {seed : JobSeed} (hn : n < 2 ^ 64) :
    Refused (commitWithJobCall parseJobId none
        (encodeCommitWithJob s (UInt64.ofNat n) [event] seed) db) db ∨
      ∃ job, jobSeed parseJobId seed.wire = .ok job ∧
        (EventSorcery.commitOpaque none ⟨s, n, [event], [job]⟩ db).1 = .ok () ∧
        commitWithJobCall parseJobId none
            (encodeCommitWithJob s (UInt64.ofNat n) [event] seed) db =
          (.ok (), (EventSorcery.commitOpaque none ⟨s, n, [event], [job]⟩ db).2) := by
  rcases lt_or_ge maxRequestBytes
    (encodeCommitWithJob s (UInt64.ofNat n) [event] seed).length with hbig | hsize
  · rw [commitWithJobCall, decodeValidated, if_pos hbig]
    exact .inl ⟨_, rfl⟩
  · have hcount : [event].length ≤ maxCommitEvents := Nat.one_le_ofNat
    have hdecode : decodeValidated Wire.commitWithJob
        (fun wire => requireCommitEventCount wire.1.events.observed)
        (encodeCommitWithJob s (UInt64.ofNat n) [event] seed) = _ :=
      Request.decode_encode (.commitWithJob s (UInt64.ofNat n) [event] seed)
        ⟨List.cons_ne_nil _ _, hcount⟩ hsize
    rw [commitWithJobCall, hdecode]
    dsimp only [Request.wire]
    unfold esCommitWithJob
    split
    · exact .inl ⟨_, rfl⟩
    · exact .inl ⟨_, rfl⟩
    next request job hparts hjob =>
      have hrequest : request = ⟨s, (UInt64.ofNat n).toNat, [event], []⟩ :=
        (commitParts_eq_ok hparts).1
      rw [hrequest, UInt64.toNat_ofNat_of_lt' hn]
      exact (commitResult_cases _ db).imp_right fun h => ⟨job, hjob, h⟩

/-! ## Commands -/

/-- The events that a decision stands for. -/
def Effect.recorded (mint : JobId) : Effect Event → List Event
  | .events first rest => first :: rest
  | .unchanged => []
  | .dispatch _ _ intent => [intent mint]

/-- A plan was prepared for a command on the entity of a beginning of the history. -/
def Prepared (E : EventSourced Entity Event Command CommandError ApplyError) (history : List Event)
    (command : Command) (plan : CommitPlan Entity) : Prop :=
  ∃ n current effect mint, At E history n current ∧ decideEffect E current command = .ok effect ∧
    prepareEffect E mint n current effect = .ok plan

/-- A command was executed: it inserted the events of its decision on the entity of all events before
them, and returned the entity of the history up to and including them. -/
def Executed (E : EventSourced Entity Event Command CommandError ApplyError) (history : List Event)
    (command : Command) (entity : Entity) (appended : List (ℕ × StoredEvent)) : Prop :=
  ∃ n current effect mint, At E history n current ∧ decideEffect E current command = .ok effect ∧
    effect.recorded mint <+: history.drop n ∧
    appended = SeqLog.rowsFrom (n + 1) ((effect.recorded mint).map (storedRow E)) ∧
    At E history (n + (effect.recorded mint).length) (some entity)

/-- A dispatch whose job has the stream for its own does not find the number of the job's first event
free: the stream is empty, so that the intent takes it, or has its first event still. -/
def CommitPlan.Apart (parseJobId : String → Option JobId) (s : StreamIdentity) (db : Db) :
    CommitPlan Entity → Prop
  | .dispatch _ expected _ seed => ∀ id, parseJobId seed.jobId = some id → jobStream id = s →
      committedStreamVersion db s = expected → expected = 0 ∨ (db.row s 1).isSome
  | .events .. | .unchanged _ => True

theorem Prepared.append {command : Command} {plan : CommitPlan Entity}
    (h : Prepared E history command plan) : Prepared E (history ++ more) command plan := by
  obtain ⟨n, current, effect, mint, hat, hrest⟩ := h
  exact ⟨n, current, effect, mint, hat.append, hrest⟩

theorem Executed.append {command : Command} {entity : Entity} {appended : List (ℕ × StoredEvent)}
    (h : Executed E history command entity appended) :
    Executed E (history ++ more) command entity appended := by
  obtain ⟨n, current, effect, mint, hat, hdecide, hevents, happended, hafter⟩ := h
  refine ⟨n, current, effect, mint, hat.append, hdecide, ?_, happended, hafter.append⟩
  rw [List.drop_append_of_le_length hat.1]
  exact hevents.trans (List.prefix_append _ _)

/-- A decision that was committed at the end of the history. -/
theorem executed_of_committed {command : Command} {effect : Effect Event} (mint : JobId)
    {first : Event} {rest : List Event} {next : Entity} (hat : At E history history.length current)
    (hdecide : decideEffect E current command = .ok effect)
    (hrecorded : effect.recorded mint = first :: rest)
    (hnext : applyEvents E current first rest = .ok next) :
    Executed E (history ++ first :: rest) command next
      (SeqLog.rowsFrom (history.length + 1) ((first :: rest).map (storedRow E))) := by
  have hdrop : (history ++ first :: rest).drop history.length = (first :: rest) ++ [] := by
    rw [List.drop_left, List.append_nil]
  refine ⟨history.length, current, effect, mint, hat.append, hdecide, ?_, ?_, ?_⟩
  · rw [hrecorded, hdrop, List.append_nil]
  · rw [hrecorded]
  · rw [hrecorded]
    exact hat.append.applyEvents hdrop hnext

/-- What a plan's commit does: nothing, or what its decision said. -/
theorem commitPrepared_cases {parseJobId : String → Option JobId} {command : Command}
    {plan : CommitPlan Entity} (h : Holds E s history db) (hplan : Prepared E history command plan)
    (hapart : plan.Apart parseJobId s db) :
    Refused (commitPrepared parseJobId s plan db :
        Except (StoreError CommandError ApplyError) Entity × Db) db ∨
      ∃ entity events db', (commitPrepared parseJobId s plan db :
          Except (StoreError CommandError ApplyError) Entity × Db) = (.ok entity, db') ∧
        Extends E s history events db db' ∧ Executed E (history ++ events) command entity
          (SeqLog.rowsFrom (history.length + 1) (events.map (storedRow E))) := by
  obtain ⟨n, current, effect, mint, hat, hdecide, hprepare⟩ := hplan
  have hn : n < 2 ^ 64 := (hat.1.trans h.bounded).trans_lt (by decide)
  cases effect with
  | events first rest =>
      obtain ⟨next, hnext, hplan⟩ := Except.bind_eq_ok.1 hprepare
      obtain rfl := Except.ok.inj hplan
      have hne : (first :: rest).map (proposed E) ≠ [] := by simp
      rcases commitCall_cases s db hne hn with ⟨error, hcall⟩ | ⟨hok, hcall⟩
      · exact .inl ⟨.engineFailed (.engine error), by rw [commitPrepared, commit, hcall]; rfl⟩
      · obtain ⟨rfl, hextends⟩ := h.commitOpaque (List.cons_ne_nil first rest) hok nofun
        refine .inr ⟨next, first :: rest, _, by rw [commitPrepared, commit, hcall]; rfl, hextends, ?_⟩
        exact executed_of_committed mint hat hdecide rfl (Except.mapError_eq_ok.1 hnext)
  | unchanged =>
      cases current with
      | none => cases hprepare
      | some entity =>
          obtain rfl := Except.ok.inj hprepare
          refine .inr ⟨entity, [], db, rfl, .refl h, ?_⟩
          rw [List.append_nil]
          exact ⟨n, some entity, .unchanged, mint, hat, hdecide, List.nil_prefix, rfl, hat⟩
  | dispatch kind job intent =>
      obtain ⟨next, hnext, hplan⟩ := Except.bind_eq_ok.1 hprepare
      obtain rfl := Except.ok.inj hplan
      rcases commitWithJobCall_cases s hn with ⟨error, hcall⟩ | ⟨request, hseed, hok, hcall⟩
      · exact .inl ⟨.engineFailed (.engine error), by rw [commitPrepared, commitWithJob, hcall]; rfl⟩
      · have hown : ∀ job ∈ [request], jobStream job.jobId = s → n = 0 ∨ (db.row s 1).isSome := by
          intro job hjob hstream
          obtain rfl := List.mem_singleton.1 hjob
          exact hapart job.jobId (parsed_of_jobSeed hseed) hstream
            (committedAt_of_commitOpaque hok).version
        obtain ⟨rfl, hextends⟩ := h.commitOpaque (List.cons_ne_nil (intent mint) []) hok hown
        refine .inr ⟨next, [intent mint], _, by rw [commitPrepared, commitWithJob, hcall]; rfl,
          hextends, ?_⟩
        exact executed_of_committed mint hat hdecide rfl (Except.mapError_eq_ok.1 hnext)

/-! ## One step of a call -/

/-- What a call knows of the history at each of its stages, and what it inserted. -/
def Stage.Sound (E : EventSourced Entity Event Command CommandError ApplyError)
    (history : List Event) (appended : List (ℕ × StoredEvent)) :
    Stage Entity Command CommandError ApplyError → Prop
  | .entered _ | .compacted => appended = []
  | .walking _ base events _ => appended = [] ∧
      (∀ b ∈ base, At E history b.1 (some b.2)) ∧ ∀ e ∈ events, Read E history e
  | .committing command plan => appended = [] ∧ Prepared E history command plan
  | .storing entity sequence => appended = [] ∧ At E history sequence (some entity)
  | .executed command (.ok entity) => Executed E history command entity appended
  | .executed _ (.error _) => appended = []
  | .loaded (.ok current) => appended = [] ∧ ∃ n, At E history n current
  | .loaded (.error _) => appended = []

/-- The condition on a call's next step. -/
def Stage.Apart (parseJobId : String → Option JobId) (s : StreamIdentity) (db : Db) :
    Stage Entity Command CommandError ApplyError → Prop
  | .committing _ plan => plan.Apart parseJobId s db
  | _ => True

variable {stage : Stage Entity Command CommandError ApplyError}
  {appended : List (ℕ × StoredEvent)}

theorem Stage.Sound.append (h : stage.Sound E history appended) :
    stage.Sound E (history ++ more) appended := by
  cases stage with
  | entered call => exact h
  | compacted => exact h
  | walking call base events after =>
      exact ⟨h.1, fun b hb => (h.2.1 b hb).append, fun e he => (h.2.2 e he).append⟩
  | committing command plan => exact ⟨h.1, h.2.append⟩
  | storing entity sequence => exact ⟨h.1, h.2.append⟩
  | executed command result =>
      cases result with
      | ok entity => exact Executed.append h
      | error error => exact h
  | loaded result =>
      cases result with
      | ok current =>
          obtain ⟨hnil, n, hat⟩ := h
          exact ⟨hnil, n, hat.append⟩
      | error error => exact h

theorem sound_fail (call : Call Command) (error : StoreError CommandError ApplyError) :
    (call.fail error : Stage Entity Command CommandError ApplyError).Sound E history [] := by
  cases call <;> rfl

theorem sound_afterLoad (mint : JobId) (call : Call Command) (hat : At E history n current) :
    (afterLoad E mint current n call).Sound E history [] := by
  cases call with
  | executeCommand command =>
      dsimp only [afterLoad]
      split
      · rfl
      next effect hdecide =>
        split
        · rfl
        next plan hplan => exact ⟨rfl, n, current, effect, mint, hat, hdecide, hplan⟩
  | loadEntity => exact ⟨rfl, n, hat⟩
  | snapshotEntity =>
      cases current with
      | none => exact ⟨rfl, n, hat⟩
      | some entity => exact ⟨rfl, hat⟩
  | compact => rfl

theorem sound_afterSnapshot (hE : E.RoundTrips) (h : Holds E s history db) (call : Call Command)
    {snapshot : Option StoredSnapshot} (hload : loadSnapshot s db = .ok snapshot) :
    (afterSnapshot E call snapshot).Sound E history [] := by
  cases snapshot with
  | none => exact ⟨rfl, nofun, nofun⟩
  | some stored =>
      unfold afterSnapshot
      dsimp only
      split
      · exact sound_fail call _
      next entity hdecode =>
        refine ⟨rfl, fun b hb => ?_, nofun⟩
        obtain rfl := Option.some.inj hb
        exact h.read_snapshot hE hload hdecode

theorem sound_afterPage (hE : E.RoundTrips) (mint : JobId) (call : Call Command)
    {base : Option (ℕ × Entity)} {loaded page : List OpaqueStoredEvent} {after : Option UInt64}
    (hbase : ∀ b ∈ base, At E history b.1 (some b.2)) (hloaded : ∀ e ∈ loaded, Read E history e)
    (hpage : ∀ e ∈ page, Read E history e) :
    (afterPage E mint call base loaded after page).Sound E history [] := by
  unfold afterPage
  split
  · split
    · exact sound_fail call _
    next current hcurrent =>
      exact sound_afterLoad mint call (loadedCurrent_eq_ok hE hbase hloaded hcurrent)
  · split
    · exact sound_fail call _
    · refine ⟨rfl, hbase, fun e he => ?_⟩
      exact (List.mem_append.1 he).elim (hloaded e) (hpage e)

/-- A step that inserts nothing into the stream. -/
theorem sound_of_extends_nil {stage' : Stage Entity Command CommandError ApplyError}
    (hextends : Extends E s history [] db db') (hnil : appended = [])
    (hstage : stage'.Sound E history []) :
    ∃ events, Extends E s history events db db' ∧
      stage'.Sound E (history ++ events) (appended ++ StreamVersion.inserted s db db') := by
  refine ⟨[], hextends, ?_⟩
  rw [hextends.inserted, hnil, List.append_nil]
  exact hstage

/-- **One engine call** adds to the history what it inserts, and leaves its call sound. -/
theorem sound_advance (hE : E.RoundTrips) {double : UInt64 → List UInt8}
    {parseJobId : String → Option JobId} {mint : JobId}
    {stage' : Stage Entity Command CommandError ApplyError} (h : Holds E s history db)
    (hstage : stage.Sound E history appended) (hapart : stage.Apart parseJobId s db)
    (hstep : advance E double parseJobId s mint db stage = some (db', stage')) :
    ∃ events, Extends E s history events db db' ∧
      stage'.Sound E (history ++ events) (appended ++ StreamVersion.inserted s db db') := by
  cases stage with
  | entered call =>
      cases call with
      | compact =>
          obtain ⟨rfl, rfl⟩ := Prod.mk.inj (Option.some.inj hstep)
          exact sound_of_extends_nil h.deleteCovered hstage rfl
      | _ =>
          obtain ⟨rfl, rfl⟩ := Prod.mk.inj (Option.some.inj hstep)
          refine sound_of_extends_nil (.refl h) hstage ?_
          split
          · exact sound_fail _ _
          next snapshot hload => exact sound_afterSnapshot hE h _ hload
  | walking call base events after =>
      obtain ⟨rfl, rfl⟩ := Prod.mk.inj (Option.some.inj hstep)
      refine sound_of_extends_nil (.refl h) hstage.1 ?_
      split
      · exact sound_fail _ _
      next page hpage =>
        exact sound_afterPage hE mint call hstage.2.1 hstage.2.2 (h.read_page hpage)
  | committing command plan =>
      obtain ⟨rfl, rfl⟩ := Prod.mk.inj (Option.some.inj hstep)
      obtain ⟨rfl, hplan⟩ := hstage
      have hcases : Refused (commitPrepared parseJobId s plan db :
          Except (StoreError CommandError ApplyError) Entity × Db) db ∨ _ :=
        commitPrepared_cases h hplan hapart
      rcases hcases with ⟨error, hcommit⟩ | ⟨entity, events, db', hcommit, hextends, hexecuted⟩
      · rw [hcommit]
        exact sound_of_extends_nil (.refl h) rfl rfl
      · rw [hcommit]
        refine ⟨events, hextends, ?_⟩
        rw [hextends.inserted]
        exact hexecuted
  | storing entity sequence =>
      obtain ⟨rfl, rfl⟩ := Prod.mk.inj (Option.some.inj hstep)
      refine sound_of_extends_nil (h.storeSnapshot hstage.2) hstage.1 ?_
      cases (storeSnapshot s sequence (E.encodeSnapshot entity) db).1 with
      | error error => rfl
      | ok version => exact ⟨rfl, sequence, hstage.2⟩
  | executed command result => cases hstep
  | loaded result => cases hstep
  | compacted => cases hstep

/-! ## Whole runs -/

/-- What holds of a stream's history whenever calls are under way. -/
structure Consistent (E : EventSourced Entity Event Command CommandError ApplyError)
    (s : StreamIdentity) (history : List Event)
    (pool : Pool Shared (Thread Entity Command CommandError ApplyError)) : Prop where
  /-- The rows that were ever inserted are the history's events, numbered from 1. -/
  committed : pool.shared.committed = SeqLog.rowsFrom 1 (history.map (storedRow E))
  version : committedStreamVersion pool.shared.db s = history.length
  /-- A command that returned an entity appended its decision's events. -/
  executed : ∀ thread ∈ pool.threads, ∀ command entity,
    thread.stage = .executed command (.ok entity) →
    Executed E history command entity thread.appended
  /-- A command that failed appended nothing. -/
  refused : ∀ thread ∈ pool.threads, ∀ command error,
    thread.stage = .executed command (.error error) → thread.appended = []
  /-- A load returned the entity of a beginning of the history. -/
  loaded : ∀ thread ∈ pool.threads, ∀ current, thread.stage = .loaded (.ok current) →
    ∃ n, At E history n current
  /-- The stored snapshot is the entity of the history up to its sequence. -/
  snapshot : ∀ row, pool.shared.db.snapshots.lookup s = some row → ∃ entity,
    At E history row.lastSequence (some entity) ∧
      row.payload = encodeOpaquePayload (E.encodeSnapshot entity)

/-- The condition on a run's steps. -/
def Apart (parseJobId : String → Option JobId) (s : StreamIdentity)
    (pool : Pool Shared (Thread Entity Command CommandError ApplyError)) :
    Pool.Op (Call Command) JobId → Prop
  | .start _ => True
  | .step i _ => ∀ thread, pool.threads[i]? = some thread →
      thread.stage.Apart parseJobId s pool.shared.db

/-- The history with what every call has of it. -/
structure Tracks (E : EventSourced Entity Event Command CommandError ApplyError)
    (s : StreamIdentity) (history : List Event) (shared : Shared)
    (threads : List (Thread Entity Command CommandError ApplyError)) : Prop where
  committed : shared.committed = SeqLog.rowsFrom 1 (history.map (storedRow E))
  holds : Holds E s history shared.db
  threads : ∀ thread ∈ threads, thread.stage.Sound E history thread.appended

theorem Tracks.consistent {pool : Pool Shared (Thread Entity Command CommandError ApplyError)}
    (h : Tracks E s history pool.shared pool.threads) : Consistent E s history pool where
  committed := h.committed
  version := h.holds.version
  executed thread hthread command entity hstage := by
    have hsound := h.threads thread hthread
    rwa [hstage] at hsound
  refused thread hthread command error hstage := by
    have hsound := h.threads thread hthread
    rwa [hstage] at hsound
  loaded thread hthread current hstage := by
    have hsound := h.threads thread hthread
    rw [hstage] at hsound
    exact hsound.2
  snapshot := h.holds.snapshot

/-- A call's step among the others. -/
theorem Tracks.next (hE : E.RoundTrips) {double : UInt64 → List UInt8}
    {parseJobId : String → Option JobId} {mint : JobId} {shared shared' : Shared}
    {before after : List (Thread Entity Command CommandError ApplyError)}
    {thread thread' : Thread Entity Command CommandError ApplyError}
    (h : Tracks E s history shared (before ++ thread :: after))
    (hapart : thread.stage.Apart parseJobId s shared.db)
    (hnext : next E double parseJobId s shared thread mint = some (shared', thread')) :
    ∃ events, Tracks E s (history ++ events) shared' (before ++ thread' :: after) := by
  obtain ⟨⟨db', stage'⟩, hstep, heq⟩ := Option.map_eq_some_iff.1 hnext
  obtain ⟨rfl, rfl⟩ := Prod.mk.inj heq
  obtain ⟨events, hextends, hsound⟩ :=
    sound_advance hE h.holds (h.threads thread (by simp)) hapart hstep
  refine ⟨events, ?_, hextends.holds, fun other hother => ?_⟩
  · rw [h.committed, hextends.inserted, List.map_append, SeqLog.rowsFrom_append, List.length_map,
      Nat.add_comm 1]
  · rw [List.mem_append, List.mem_cons] at hother
    rcases hother with hbefore | rfl | hafter
    · exact (h.threads other (by simp [hbefore])).append
    · exact hsound
    · exact (h.threads other (by simp [hafter])).append

/-- A run on a stream that is not a job's meets the condition. -/
theorem meets_apart (double : UInt64 → List UInt8) (parseJobId : String → Option JobId) (db : Db)
    (hs : s.aggregateType ≠ jobAggregateType) (ops : List (Pool.Op (Call Command) JobId)) :
    (machine E double parseJobId s db).Meets (Apart parseJobId s)
      (machine E double parseJobId s db).init ops := by
  refine Machine.Meets.of_forall (fun pool op => ?_) _ ops
  cases op with
  | start call => exact trivial
  | step i mint =>
      intro thread _
      cases thread.stage with
      | committing command plan =>
          cases plan with
          | dispatch next expected events seed =>
              rintro id - rfl
              exact absurd rfl hs
          | _ => exact trivial
      | _ => exact trivial

end Database

/-! ## A note that is mailed -/

inductive NoteEvent where
  | opened
  | mailed

inductive NoteCommand where
  | openNote
  | mail

/-- A note is opened once and then mailed any number of times; the entity is whether it was. -/
def note : EventSourced Bool NoteEvent NoteCommand Unit Unit where
  eventType
    | .opened => "Opened"
    | .mailed => "Mailed"
  eventVersion _ := "1.0"
  encodeEvent
    | .opened => [0]
    | .mailed => [1]
  decodeEvent
    | [0] => .ok .opened
    | [1] => .ok .mailed
    | _ => .error "not an event of a note"
  encodeSnapshot
    | false => [0]
    | true => [1]
  decodeSnapshot
    | [0] => .ok false
    | [1] => .ok true
    | _ => .error "not a note"
  originate
    | .opened => .ok false
    | .mailed => .error ()
  evolve _
    | .opened => .error ()
    | .mailed => .ok true
  initializeWith
    | .openNote => .ok (.events .opened [])
    | .mail => .error ()
  transition _
    | .openNote => .ok .unchanged
    | .mail => .ok (.dispatch "mail" [] fun _ => .mailed)

theorem roundTrips_note : note.RoundTrips where
  event event := by cases event <;> rfl
  snapshot sent := by cases sent <;> rfl

/-- A note is opened, snapshotted and compacted, and mailed with the job id `j`. -/
def mailedNote : List (Pool.Op (Call NoteCommand) JobId) :=
  [.start (.executeCommand .openNote), .step 0 "", .step 0 "", .step 0 "",
    .start .snapshotEntity, .step 1 "", .step 1 "", .step 1 "", .step 1 "",
    .start .compact, .step 2 "",
    .start (.executeCommand .mail), .step 3 "", .step 3 "j", .step 3 ""]

/-- The calls on a note that is kept under these names. -/
def noteCalls (s : StreamIdentity) : Pool Shared (Thread Bool NoteCommand Unit Unit) :=
  (machine note (fun _ => []) some s .empty).run mailedNote

/-- The entity that an executed command returned. -/
def Stage.returned {Entity Command CommandError ApplyError : Type} :
    Stage Entity Command CommandError ApplyError → Option Entity
  | .executed _ (.ok entity) => some entity
  | _ => none

/-- **Calls of the bindings' store on one stream.** Whatever commands, loads, snapshots and
compactions run at once on a stream that was unused: unless a dispatch enqueues its job under the
stream's own name once the first event is compacted away, the events that were inserted are one
history, numbered from 1, to which every finished call and the snapshot are true. -/
theorem calls_keep_history {E : EventSourced Entity Event Command CommandError ApplyError}
    (hE : E.RoundTrips) (double : UInt64 → List UInt8)
    (parseJobId : String → Option JobId) (s : StreamIdentity) (db : Db)
    (hrows : ∀ q, db.row s q = none) (hsnapshot : db.snapshots.lookup s = none)
    (ops : List (Pool.Op (Call Command) JobId))
    (hops : (machine E double parseJobId s db).Meets (Apart parseJobId s)
      (machine E double parseJobId s db).init ops) :
    ∃ history, Consistent E s history ((machine E double parseJobId s db).run ops) := by
  have htracks : ∃ history, Tracks E s history
      ((machine E double parseJobId s db).run ops).shared
      ((machine E double parseJobId s db).run ops).threads := by
    refine Pool.run_invariant_of_meets (P := fun shared threads =>
        ∃ history, Tracks E s history shared threads)
      ⟨[], rfl, .of_unused hrows hsnapshot, nofun⟩ ?_ ?_ hops
    · rintro shared threads call ⟨history, htracks⟩
      refine ⟨history, htracks.committed, htracks.holds, fun thread hthread => ?_⟩
      rcases List.mem_append.1 hthread with hold | hnew
      · exact htracks.threads thread hold
      · obtain rfl := List.mem_singleton.1 hnew
        rfl
    · rintro shared before thread after mint shared' thread' ⟨history, htracks⟩ hapart hnext
      have hcondition := hapart thread (by simp)
      obtain ⟨events, hlater⟩ := htracks.next hE hcondition hnext
      exact ⟨history ++ events, hlater⟩
  obtain ⟨history, htracks⟩ := htracks
  exact ⟨history, htracks.consistent⟩

theorem mailed_note_keeps_history :
    (noteCalls ⟨"note", "a"⟩).shared.committed.map Prod.fst = [1, 2] ∧
      ∃ history, Consistent note ⟨"note", "a"⟩ history (noteCalls ⟨"note", "a"⟩) :=
  ⟨by decide +kernel, calls_keep_history roundTrips_note (fun _ => []) some ⟨"note", "a"⟩ .empty
    (fun _ => rfl) rfl mailedNote (meets_apart _ _ _ (by decide) _)⟩

/-- A note that is kept as the job it is mailed by: the command to mail it returns an entity, and has
inserted the job's first event beside its own. The number 1 is given out twice. -/
theorem note_in_job_stream_is_renumbered :
    (noteCalls ⟨"job", "j"⟩).threads.map (fun thread => thread.stage.returned) =
        [some false, none, none, some true] ∧
      (noteCalls ⟨"job", "j"⟩).threads.map (fun thread => thread.appended.map Prod.fst) =
        [[1], [], [], [1, 2]] ∧
      ¬ ∃ history, Consistent note ⟨"job", "j"⟩ history (noteCalls ⟨"job", "j"⟩) := by
  refine ⟨by decide +kernel, by decide +kernel, ?_⟩
  rintro ⟨history, hconsistent⟩
  have hnumbers : (noteCalls ⟨"job", "j"⟩).shared.committed.map Prod.fst = [1, 1, 2] := by
    decide +kernel
  rw [hconsistent.committed, SeqLog.map_fst_rowsFrom, List.length_map] at hnumbers
  have hlength := congrArg List.length hnumbers
  rw [List.length_range'] at hlength
  rw [hlength] at hnumbers
  exact absurd hnumbers (by decide)

end Binding

end EventSorcery
