import EventSorcery.Requests

/-!
# Walking a stream page by page

The binding reads a whole stream by walking its pages. On a stream that nothing was deleted from, the
page after `n` events is the next `maxListItems` of them, so the walk ends with all events exactly
when every such page fits the limits: `walkPages_eq_ok_iff`. The rest says what a stream holds that
was built by commits across the ABI.
-/

namespace EventSorcery

variable {double : UInt64 → List UInt8}

/-! ## The pages of a stream without gaps -/

/-- A row reads back as this event, whatever its number. -/
def Reads (double : UInt64 → List UInt8) (x : StoredEvent) (event : OpaqueProposedEvent) : Prop :=
  ∀ s q, decodeOpaqueEvent double (x.serialized s q) = .ok (event.numbered q)

/-- Events under the numbers from `q` on. -/
def numberedFrom (q : ℕ) (events : List OpaqueProposedEvent) : List OpaqueStoredEvent :=
  (SeqLog.rowsFrom q events).map fun r => r.2.numbered r.1

/-- The page that starts after `n` events fits. -/
def PageFitsAt (double : UInt64 → List UInt8) (s : StreamIdentity) (rows : List StoredEvent)
    (events : List OpaqueProposedEvent) (n : ℕ) : Prop :=
  PageFits double s (SeqLog.rowsFrom (n + 1) ((rows.drop n).take maxListItems))
    (numberedFrom (n + 1) ((events.drop n).take maxListItems))

/-- The cursor after `n` events; a walk starts without one. -/
def cursorAt (n : ℕ) : Option UInt64 := if n = 0 then none else some (UInt64.ofNat n)

section Walk

variable {s : StreamIdentity} {db : Db} {rows : List StoredEvent}
  {events : List OpaqueProposedEvent}

theorem length_numberedFrom (q : ℕ) (events : List OpaqueProposedEvent) :
    (numberedFrom q events).length = events.length := by
  rw [numberedFrom, List.length_map, ← List.length_map Prod.snd, SeqLog.map_snd_rowsFrom]

theorem numberedFrom_append (q : ℕ) (xs ys : List OpaqueProposedEvent) :
    numberedFrom q (xs ++ ys) = numberedFrom q xs ++ numberedFrom (q + xs.length) ys := by
  rw [numberedFrom, SeqLog.rowsFrom_append, List.map_append, numberedFrom, numberedFrom]

theorem getLast?_numberedFrom (q : ℕ) (events : List OpaqueProposedEvent) :
    (numberedFrom q events).getLast?.map OpaqueStoredEvent.sequence =
      if events = [] then none else some (q + events.length - 1) := by
  rw [← SeqLog.getLast?_rowsFrom, numberedFrom, List.getLast?_map, Option.map_map]
  rfl

theorem mapM_decodeOpaqueEvent (h : List.Forall₂ (Reads double) rows events) (q : ℕ) :
    (SeqLog.rowsFrom q rows).mapM (fun r => decodeOpaqueEvent double (r.2.serialized s r.1)) =
      .ok (numberedFrom q events) := by
  rw [List.mapM_eq_ok]
  induction h generalizing q with
  | nil => rfl
  | cons hx _ ih =>
      simp only [SeqLog.rowsFrom, numberedFrom, List.map_cons, List.cons.injEq]
      exact ⟨hx s q, ih (q + 1)⟩

theorem toNat_cursorAt {n : ℕ} (hn : n ≤ i64Max) :
    ((cursorAt n).map UInt64.toNat).getD 0 = n ∧
      ∀ k ∈ (cursorAt n).map UInt64.toNat, k = n := by
  unfold cursorAt
  split_ifs with h
  · exact ⟨h.symm, nofun⟩
  · have hnat : (UInt64.ofNat n).toNat = n :=
      UInt64.toNat_ofNat_of_lt' (hn.trans_lt (by decide))
    rw [Option.map_some, hnat]
    exact ⟨rfl, fun k hk => (Option.mem_some.1 hk).symm⟩

/-- The page after a cursor. -/
theorem pageRows_ofList_getD (rows : List StoredEvent) (cursor : Option ℕ) (itemLimit : ℕ) :
    pageRows (SeqLog.ofList 0 rows) cursor itemLimit =
      SeqLog.rowsFrom (cursor.getD 0 + 1) ((rows.drop (cursor.getD 0)).take itemLimit) := by
  rw [← SeqLog.take_rowsFrom]
  unfold pageRows
  congr 1
  cases cursor with
  | none => rfl
  | some n =>
      have hafter := SeqLog.after_ofList 0 n rows
      rwa [Nat.zero_add] at hafter

/-- The page after `n` events. -/
theorem pageRows_ofList {n : ℕ} (hn : n ≤ i64Max) :
    pageRows (SeqLog.ofList 0 rows) ((cursorAt n).map UInt64.toNat) maxListItems =
      SeqLog.rowsFrom (n + 1) ((rows.drop n).take maxListItems) := by
  rw [pageRows_ofList_getD, (toNat_cursorAt hn).1]

theorem sequence_le_of_ofList (hstream : db.stream s = SeqLog.ofList 0 rows)
    (hbound : rows.length ≤ i64Max) : ∀ r ∈ (db.stream s).rows, r.1 ≤ i64Max := by
  rintro ⟨q, x⟩ hr
  rw [hstream, SeqLog.rows_ofList] at hr
  obtain ⟨hle, hget⟩ := SeqLog.mem_rowsFrom.1 hr
  have := (List.getElem?_eq_some_iff.1 hget).1
  dsimp only
  omega

/-- Past the end there is nothing that could be too large. -/
theorem pageFitsAt_of_length_le {n : ℕ} (hrows : rows.length ≤ n) (hevents : events.length ≤ n) :
    PageFitsAt double s rows events n := by
  have hempty : PageFits double s [] [] := ⟨Nat.zero_le _, nofun, by decide⟩
  rw [PageFitsAt, List.drop_of_length_le hrows, List.drop_of_length_le hevents, List.take_nil,
    List.take_nil]
  exact hempty

/-- The pages from the next cursor on are the pages after the first. -/
theorem forall_pageFitsAt_iff {n : ℕ} (hlength : rows.length = events.length)
    (hfits : PageFitsAt double s rows events n) :
    (∀ k, PageFitsAt double s rows events (n + maxListItems * k)) ↔
      ∀ k, PageFitsAt double s rows events
        (n + ((events.drop n).take maxListItems).length + maxListItems * k) := by
  rw [List.length_take, List.length_drop]
  rcases le_or_gt maxListItems (events.length - n) with hfull | hlast
  · -- A full page: the next one starts right behind it.
    rw [min_eq_left hfull]
    refine ⟨fun h k => ?_, fun h k => ?_⟩
    · rw [show n + maxListItems + maxListItems * k = n + maxListItems * (k + 1) by ring]
      exact h (k + 1)
    · cases k with
      | zero => exact hfits
      | succ k =>
          rw [show n + maxListItems * (k + 1) = n + maxListItems + maxListItems * k by ring]
          exact h k
  · -- A short page: nothing is left after it.
    rw [min_eq_right hlast.le]
    refine ⟨fun _ k => pageFitsAt_of_length_le (by omega) (by omega), fun _ k => ?_⟩
    cases k with
    | zero => exact hfits
    | succ k =>
        have hpast : events.length ≤ n + maxListItems * (k + 1) := by
          rw [Nat.mul_succ]
          omega
        exact pageFitsAt_of_length_le (by omega) hpast

theorem nextCursor_cursorAt {n n' : ℕ} (hlt : n < n') (hle : n' ≤ i64Max)
    {last : OpaqueStoredEvent} (hlast : last.sequence = n') :
    nextCursor (cursorAt n) last = .ok (UInt64.ofNat n') ∧ cursorAt n' = some (UInt64.ofNat n') := by
  have hnat : ∀ m ≤ i64Max, (UInt64.ofNat m).toNat = m := fun m hm =>
    UInt64.toNat_ofNat_of_lt' (hm.trans_lt (by decide))
  refine ⟨?_, if_neg (by omega)⟩
  unfold nextCursor cursorAt
  rw [hlast]
  split_ifs with h
  · rfl
  · have hadvance : UInt64.ofNat n < UInt64.ofNat n' := by
      rw [UInt64.lt_iff_toNat_lt, hnat n (by omega), hnat n' hle]
      exact hlt
    exact if_pos hadvance

section

variable (hstream : db.stream s = SeqLog.ofList 0 rows) (hlimit : s.WithinLimit)
  (hbound : rows.length ≤ i64Max) (hreads : List.Forall₂ (Reads double) rows events)

include hstream hlimit hbound hreads

/-- One page: all of it, or none. -/
theorem loadStreamPage_at {n : ℕ} (hn : n ≤ rows.length) {page : List OpaqueStoredEvent} :
    loadStreamPage double s (cursorAt n) db = .ok page ↔
      page = numberedFrom (n + 1) ((events.drop n).take maxListItems) ∧
        PageFitsAt double s rows events n := by
  have hnmax := hn.trans hbound
  have hseq := sequence_le_of_ofList hstream hbound
  have hdecode := mapM_decodeOpaqueEvent (s := s)
    (List.forall₂_take maxListItems (List.forall₂_drop n hreads)) (n + 1)
  rw [loadStreamPage_eq_ok hseq, hstream, pageRows_ofList hnmax, hdecode,
    (toNat_cursorAt hnmax).1]
  constructor
  · rintro ⟨-, -, hpage, hfits⟩
    obtain rfl := Except.ok.inj hpage
    exact ⟨rfl, hfits⟩
  · rintro ⟨rfl, hfits⟩
    exact ⟨hlimit, hnmax, rfl, hfits⟩

/-- **The walk reads the whole stream exactly when every page fits.** -/
theorem walkPages_eq_ok_iff {fuel n : ℕ} (hn : n ≤ rows.length) (hfuel : rows.length - n < fuel)
    (loaded : List OpaqueStoredEvent) :
    walkPages double s db fuel loaded (cursorAt n) =
        some (.ok (loaded ++ numberedFrom (n + 1) (events.drop n))) ↔
      ∀ k, PageFitsAt double s rows events (n + maxListItems * k) := by
  have hlength : rows.length = events.length := hreads.length_eq
  induction fuel generalizing n loaded with
  | zero => exact absurd hfuel (Nat.not_lt_zero _)
  | succ fuel ih =>
      rw [walkPages]
      by_cases hfits : PageFitsAt double s rows events n
      · rw [(loadStreamPage_at hstream hlimit hbound hreads hn).2 ⟨rfl, hfits⟩]
        dsimp only
        rcases hn.eq_or_lt with hend | hlt
        · have hdone : events.drop n = [] := List.drop_of_length_le (by omega)
          rw [hdone, List.take_nil]
          simp only [numberedFrom, SeqLog.rowsFrom, List.map_nil, List.getLast?_nil,
            List.append_nil, true_iff]
          exact fun k => pageFitsAt_of_length_le (by omega) (by omega)
        · obtain ⟨first, hfirst⟩ : ∃ first, first = (events.drop n).take maxListItems := ⟨_, rfl⟩
          have hpos : 0 < first.length := by
            rw [hfirst, List.length_take, List.length_drop]
            exact lt_min (by decide) (by omega)
          have hle : n + first.length ≤ rows.length := by
            rw [hfirst, List.length_take, List.length_drop]
            omega
          have hlast := getLast?_numberedFrom (n + 1) first
          rw [if_neg (List.length_pos_iff.1 hpos),
            show n + 1 + first.length - 1 = n + first.length by omega] at hlast
          obtain ⟨last, hgetLast, hsequence⟩ := Option.map_eq_some_iff.1 hlast
          obtain ⟨hcursor, hnext⟩ := nextCursor_cursorAt (Nat.lt_add_of_pos_right hpos)
            (hle.trans hbound) hsequence
          -- What is left after this page.
          have hsplit : numberedFrom (n + 1) (events.drop n) =
              numberedFrom (n + 1) first ++
                numberedFrom (n + first.length + 1) (events.drop (n + first.length)) := by
            have hpart := List.prefix_iff_eq_append.1 (List.take_prefix maxListItems (events.drop n))
            rw [← hfirst, List.drop_drop] at hpart
            conv_lhs => rw [← hpart]
            rw [numberedFrom_append, show n + 1 + first.length = n + first.length + 1 by omega]
          have hrest := ih hle (by omega) (loaded ++ numberedFrom (n + 1) first)
          rw [← hfirst, hgetLast]
          dsimp only
          rw [hcursor]
          dsimp only
          rw [← hnext, hsplit, ← List.append_assoc, forall_pageFitsAt_iff hlength hfits, ← hfirst]
          exact hrest
      · cases hload : loadStreamPage double s (cursorAt n) db with
        | error error => exact iff_of_false (fun h => by cases h) fun h => hfits (h 0)
        | ok page =>
            exact absurd ((loadStreamPage_at hstream hlimit hbound hreads hn).1 hload).2 hfits

end

/-- A response holds at least the payloads of its events. -/
theorem sum_payloads_le_pageBytes (events : List OpaqueStoredEvent) :
    (events.map fun e => e.payload.length).sum ≤ (pageBytes events).length := by
  have hevents : (events.map fun e => e.payload.length).sum ≤
      (events.flatMap OpaqueStoredEvent.bytes).length := by
    rw [List.length_flatMap]
    refine List.sum_le_sum fun e _ => ?_
    simp only [OpaqueStoredEvent.bytes, OpaqueStoredEvent.writes, Cbor.bytesWrites,
      List.flatten_append, List.length_append, List.flatten_singleton]
    omega
  rw [pageBytes, List.length_append]
  exact hevents.trans (Nat.le_add_left _ _)

/-- A walk whose first page is refused fails. -/
theorem walkPages_error {after : Option UInt64}
    (h : ∀ page, loadStreamPage double s after db ≠ .ok page) {fuel : ℕ} (hfuel : 0 < fuel)
    (loaded : List OpaqueStoredEvent) :
    ∃ error, walkPages double s db fuel loaded after = some (.error error) := by
  obtain ⟨fuel, rfl⟩ := Nat.exists_eq_add_of_lt hfuel
  rw [Nat.zero_add, walkPages]
  cases hload : loadStreamPage double s after db with
  | error error => exact ⟨error, rfl⟩
  | ok page => exact absurd hload (h page)

end Walk

/-! ## Streams built by commits across the ABI -/

section Commits

variable {s : StreamIdentity} {db : Db} {rows : List StoredEvent} {request : OpaqueCommitRequest}

/-- The numbers an accepted commit gives out fit the column. -/
theorem commitOpaque_bounded (hok : (commitOpaque none request db).1 = .ok ()) :
    ∀ i, i < request.events.length → request.expectedVersion + 1 + i ≤ i64Max := by
  intro i hi
  unfold commitOpaque at hok
  split at hok
  · cases hok
  next events hser =>
    obtain rfl := serializeOpaque_eq_ok hser
    obtain ⟨-, -, db₁, db₂, hins, -, -⟩ := commitSerialized_ok hok
    have hevent : (consecutive request.stream (request.expectedVersion + 1)
        (request.events.map OpaqueProposedEvent.stored))[i]? =
          some ((request.events[i].stored).serialized request.stream
            (request.expectedVersion + 1 + i)) := by
      rw [getElem?_consecutive, List.getElem?_map, List.getElem?_eq_getElem hi]
      rfl
    exact (insertSerializedEventsBatch_eq_ok.1 hins).1 _ (List.mem_of_getElem? hevent)

theorem forM_requirePayloadLimit {events : List OpaqueProposedEvent}
    (h : ∀ event ∈ events, event.payload.length ≤ maxPayloadBytes) :
    events.forM (fun event => requirePayloadLimit event.payload.length) = .ok () := by
  induction events with
  | nil => rfl
  | cons event events ih =>
      rw [List.forall_mem_cons] at h
      exact Except.bind_eq_ok.2 ⟨(), requirePayloadLimit_eq_ok.2 h.1, ih h.2⟩

/-- A commit within the limits is passed on to the engine. -/
theorem commitParts_of_limits {w : CommitWire} (hversion : w.version = 1)
    (htype : w.aggregateType.utf8ByteSize ≤ maxIdentifierBytes)
    (hid : w.aggregateId.utf8ByteSize ≤ maxIdentifierBytes)
    (hcount : w.events.observed ≤ maxCommitEvents) (hne : w.events.values ≠ [])
    (hroom : w.expected.toNat + w.events.values.length < 2 ^ 64)
    (hpayloads : ∀ event ∈ w.events.values, event.payload.length ≤ maxPayloadBytes) :
    commitParts w =
      .ok ⟨⟨w.aggregateType, w.aggregateId⟩, w.expected.toNat, w.events.values, []⟩ := by
  refine Except.bind_eq_ok.2 ⟨(), if_pos hversion, Except.bind_eq_ok.2
    ⟨(), requireIdentifierLimit_eq_ok.2 htype, Except.bind_eq_ok.2
      ⟨(), requireIdentifierLimit_eq_ok.2 hid, Except.bind_eq_ok.2 ⟨(), if_pos hcount,
        Except.bind_eq_ok.2 ⟨(), if_neg (by simpa using hne), Except.bind_eq_ok.2 ⟨(), ?_,
          Except.bind_eq_ok.2 ⟨(), forM_requirePayloadLimit hpayloads, rfl⟩⟩⟩⟩⟩⟩⟩
  rw [checkedAddUsize, if_pos hroom]
  rfl

theorem checkedAddUsize_succ {v i : ℕ} (h : v + i + 1 < 2 ^ 64) :
    ((checkedAddUsize v i).bind fun q => checkedAddUsize q 1) = some (v + 1 + i) := by
  rw [checkedAddUsize, if_pos (by omega), Option.bind_some, checkedAddUsize, if_pos h,
    Nat.add_right_comm]

theorem serializeOpaque_of_lt {v : ℕ} {events : List OpaqueProposedEvent}
    (h : v + events.length < 2 ^ 64) :
    serializeOpaque s v events =
      .ok (consecutive s (v + 1) (events.map OpaqueProposedEvent.stored)) := by
  rw [serializeOpaque, List.mapM_eq_ok]
  refine List.ext_getElem? fun i => ?_
  rw [List.getElem?_map, List.getElem?_zipIdx, List.getElem?_map, getElem?_consecutive,
    List.getElem?_map]
  cases hi : events[i]? with
  | none => rfl
  | some event =>
      have hlt := (List.getElem?_eq_some_iff.1 hi).1
      have hadd := checkedAddUsize_succ (v := v) (i := i) (by omega)
      simp only [Option.map_some, Nat.zero_add, hadd]

theorem eventsFollowVersion_consecutive {v : ℕ} {xs : List StoredEvent}
    (h : v + xs.length < 2 ^ 64) : eventsFollowVersion (consecutive s (v + 1) xs) v = true := by
  refine List.all_eq_true.2 fun ⟨event, i⟩ hmem => ?_
  have hget : (consecutive s (v + 1) xs)[i]? = some event := List.mem_zipIdx_iff_getElem?.1 hmem
  rw [getElem?_consecutive] at hget
  obtain ⟨x, hx, rfl⟩ := Option.map_eq_some_iff.1 hget
  have hlt := (List.getElem?_eq_some_iff.1 hx).1
  have hadd := checkedAddUsize_succ (v := v) (i := i) (by omega)
  exact decide_eq_true hadd

/-- A commit at the stream's version is accepted while there are numbers left. -/
theorem commitOpaque_accepts (hstream : db.stream s = SeqLog.ofList 0 rows)
    (hsnap : db.snapshots.lookup s = none) (events : List OpaqueProposedEvent)
    (hroom : rows.length + events.length ≤ i64Max) :
    (commitOpaque none ⟨s, rows.length, events, []⟩ db).1 = .ok () := by
  have hlt : rows.length + events.length < 2 ^ 64 := hroom.trans_lt (by decide)
  have hvalid : validateEventStream s (consecutive s (rows.length + 1)
      (events.map OpaqueProposedEvent.stored)) = .ok () := by
    refine validateEventStream_eq_ok.2 fun e he => ?_
    obtain ⟨i, hi⟩ := List.mem_iff_getElem?.1 he
    rw [getElem?_consecutive] at hi
    obtain ⟨x, -, rfl⟩ := Option.map_eq_some_iff.1 hi
    rfl
  have hfollow : eventsFollowVersion (consecutive s (rows.length + 1)
      (events.map OpaqueProposedEvent.stored)) rows.length = true :=
    eventsFollowVersion_consecutive (by rwa [List.length_map])
  have hversion : committedStreamVersion db s = rows.length := by
    rw [committedStreamVersion_eq, hstream, SeqLog.maxSeq_ofList_zero, Db.covered, hsnap]
    exact max_eq_left (Nat.zero_le _)
  have hinsert := foldlM_insertEvent_consecutive db s (rows.length + 1)
    (events.map OpaqueProposedEvent.stored)
  have hnext := SeqLog.insertFrom?_ofList_next 0 rows (events.map OpaqueProposedEvent.stored)
  rw [Nat.zero_add] at hnext
  rw [hstream, hnext] at hinsert
  obtain ⟨db', hrows, -⟩ := hinsert
  have hbatch : insertSerializedEventsBatch db (consecutive s (rows.length + 1)
      (events.map OpaqueProposedEvent.stored)) = .ok db' := by
    refine insertSerializedEventsBatch_eq_ok.2 ⟨fun e he => ?_, hrows⟩
    obtain ⟨i, hi⟩ := List.mem_iff_getElem?.1 he
    rw [getElem?_consecutive, List.getElem?_map] at hi
    obtain ⟨x, hx, rfl⟩ := Option.map_eq_some_iff.1 hi
    obtain ⟨event, hevent, -⟩ := Option.map_eq_some_iff.1 hx
    have := (List.getElem?_eq_some_iff.1 hevent).1
    rw [StoredEvent.sequence_serialized]
    omega
  rw [commitOpaque, serializeOpaque_of_lt hlt]
  simp [commitSerialized, hvalid, hfollow, commitStatements, checkVersion, hversion, hbatch,
    writeSnapshot, inTransaction, Except.mapError, bind, Except.bind, Except.map, pure, Except.pure]

/-- The rows of an accepted commit's events. -/
theorem row_commitOpaque_new (hok : (commitOpaque none request db).1 = .ok ()) {i : ℕ}
    {event : OpaqueProposedEvent} (hi : request.events[i]? = some event) :
    (commitOpaque none request db).2.row request.stream (request.expectedVersion + 1 + i) =
      some event.stored := by
  have hevent : request.serialized.events[i]? =
      some (event.stored.serialized request.stream (request.expectedVersion + 1 + i)) := by
    rw [OpaqueCommitRequest.serialized, getElem?_consecutive, List.getElem?_map, hi]
    rfl
  exact ((committedAt_of_commitOpaque hok).appended i _ hevent).2

/-- A commit does not find room for a job in its own stream while that is empty: its first event has
the number that the job's would get. -/
theorem jobStream_ne_of_commitOpaque (hok : (commitOpaque none request db).1 = .ok ())
    (hne : request.events ≠ []) (hzero : request.expectedVersion = 0) :
    ∀ job ∈ request.jobs, jobStream job.jobId ≠ request.stream := by
  intro job hjob heq
  obtain ⟨runAt, -, -, -, hseeded, -⟩ := (committedAt_of_commitOpaque hok).jobs job hjob
  obtain ⟨event, events, hevents⟩ := List.exists_cons_of_ne_nil hne
  have hhead : request.events[0]? = some event := by rw [hevents]; rfl
  have hfirst := row_commitOpaque_new hok hhead
  rw [heq] at hseeded
  rw [hzero] at hfirst
  have hsame : some (Json.obj []) = some enginePayloadMetadata :=
    congrArg (Option.map StoredEvent.metadata) (hseeded.symm.trans hfirst)
  exact absurd hsame (by decide)

/-- The other rows of the stream, if no job of the commit has it for its own. -/
theorem row_commitOpaque_old (hok : (commitOpaque none request db).1 = .ok ())
    (hjobs : ∀ job ∈ request.jobs, jobStream job.jobId ≠ request.stream) {q : ℕ}
    (hq : ¬ (request.expectedVersion < q ∧ q ≤ request.expectedVersion + request.events.length)) :
    (commitOpaque none request db).2.row request.stream q = db.row request.stream q := by
  have hlength : request.serialized.events.length = request.events.length := by
    rw [OpaqueCommitRequest.serialized, length_consecutive, List.length_map]
  exact (committedAt_of_commitOpaque hok).rows _ q (fun h => hq ⟨h.2.1, hlength ▸ h.2.2⟩)
    fun _ job hjob heq => hjobs job hjob heq.symm

/-- What an accepted commit leaves in a stream that nothing was deleted from: its events behind the
others, the first event of a job, or nothing new. A commit cannot enqueue a job under its own
stream's name, because both would need the number 1. -/
theorem commitOpaque_stream (hstream : db.stream s = SeqLog.ofList 0 rows)
    (hsnap : db.snapshots.lookup s = none) (hne : request.events ≠ [])
    (hok : (commitOpaque none request db).1 = .ok ()) :
    (request.stream = s ∧ (∀ job ∈ request.jobs, jobStream job.jobId ≠ s) ∧
        (commitOpaque none request db).2.stream s =
          SeqLog.ofList 0 (rows ++ request.events.map OpaqueProposedEvent.stored)) ∨
      (request.stream ≠ s ∧ (∃ job ∈ request.jobs, jobStream job.jobId = s ∧ rows = [] ∧
        ∃ runAt, instantFromMillis job.runAtMs = .ok runAt ∧
          (commitOpaque none request db).2.stream s =
            SeqLog.ofList 0 [(job.event runAt).stored])) ∨
      (request.stream ≠ s ∧ (∀ job ∈ request.jobs, jobStream job.jobId ≠ s) ∧
        (commitOpaque none request db).2.stream s = db.stream s) := by
  have hat := committedAt_of_commitOpaque hok
  set db' := (commitOpaque none request db).2
  have hrow : ∀ q, db.row s q = if 0 < q then rows[q - 1]? else none := fun q => by
    rw [Db.row, hstream, SeqLog.get?_ofList]
    rfl
  have hversion : committedStreamVersion db s = rows.length := by
    rw [committedStreamVersion_eq, hstream, SeqLog.maxSeq_ofList_zero, Db.covered, hsnap]
    exact max_eq_left (Nat.zero_le _)
  -- The first row of the stream is free only while the stream is empty.
  have hfree : db.row s 1 = none → rows = [] := fun h => by
    rw [hrow, if_pos one_pos] at h
    exact List.length_eq_zero_iff.1 (Nat.le_zero.1 (List.getElem?_eq_none_iff.1 h))
  by_cases hs : request.stream = s
  · subst hs
    have hexpected : rows.length = request.expectedVersion := hversion.symm.trans hat.version
    have hnew : ∀ i, db'.row request.stream (rows.length + 1 + i) =
        (request.events.map OpaqueProposedEvent.stored)[i]? ∨ request.events.length ≤ i := by
      intro i
      rcases lt_or_ge i request.events.length with hi | hi
      · refine .inl ?_
        rw [List.getElem?_map, List.getElem?_eq_getElem hi, hexpected]
        exact row_commitOpaque_new hok (List.getElem?_eq_getElem hi)
      · exact .inr hi
    have hjobs : ∀ job ∈ request.jobs, jobStream job.jobId ≠ request.stream := by
      intro job hjob heq
      obtain ⟨_, -, hfirst, -⟩ := hat.jobs job hjob
      rw [heq] at hfirst
      exact jobStream_ne_of_commitOpaque hok hne (by rw [← hexpected, hfree hfirst]; rfl) job hjob heq
    refine .inl ⟨rfl, hjobs, SeqLog.ext_get? fun q => ?_⟩
    have hkept : ¬ (rows.length < q ∧ q ≤ rows.length + request.events.length) →
        db'.row request.stream q = db.row request.stream q := fun hq =>
      row_commitOpaque_old hok hjobs (hexpected ▸ hq)
    change db'.row request.stream q = _
    rw [SeqLog.get?_ofList, Nat.sub_zero]
    rcases le_or_gt q rows.length with hle | hlt
    · rw [hkept (by omega), hrow]
      split_ifs with hq
      · rw [List.getElem?_append_left (by omega)]
      · rfl
    · rw [if_pos (by omega), List.getElem?_append_right (by omega)]
      rcases hnew (q - 1 - rows.length) with hget | hpast
      · rwa [show rows.length + 1 + (q - 1 - rows.length) = q by omega] at hget
      · rw [hkept (by omega), hrow, if_pos (by omega), List.getElem?_eq_none (by omega),
          List.getElem?_eq_none (by rw [List.length_map]; omega)]
  · by_cases hjob : ∃ job ∈ request.jobs, jobStream job.jobId = s
    · obtain ⟨job, hjob, rfl⟩ := hjob
      obtain ⟨runAt, hrunAt, hfirst, -, hseeded, -⟩ := hat.jobs job hjob
      obtain rfl := hfree hfirst
      refine .inr (.inl ⟨hs, job, hjob, rfl, rfl, runAt, hrunAt, SeqLog.ext_get? fun q => ?_⟩)
      change db'.row _ q = _
      rw [SeqLog.get?_ofList, Nat.sub_zero]
      rcases eq_or_ne q 1 with rfl | hq
      · exact hseeded
      · rw [hat.rows _ q (fun h => hs h.1.symm) (fun h => absurd h hq), hrow]
        split_ifs with hpos
        · rw [List.getElem?_nil, List.getElem?_eq_none (by simp; omega)]
        · rfl
    · refine .inr (.inr ⟨hs, fun job hmem heq => hjob ⟨job, hmem, heq⟩,
        SeqLog.ext_get? fun q => ?_⟩)
      exact hat.rows s q (fun h => hs h.1.symm) fun _ job hmem heq => hjob ⟨job, hmem, heq.symm⟩

/-! ### What a commit takes of a request -/

/-- What an event takes besides its number. -/
def OpaqueProposedEvent.encodedSize (event : OpaqueProposedEvent) : ℕ :=
  1 + (Cbor.headSize event.eventType.utf8ByteSize + event.eventType.utf8ByteSize) +
    (Cbor.headSize event.eventVersion.utf8ByteSize + event.eventVersion.utf8ByteSize) +
    (Cbor.headSize event.payload.length + event.payload.length)

def StreamIdentity.nameBytes (s : StreamIdentity) : ℕ :=
  s.aggregateType.utf8ByteSize + s.aggregateId.utf8ByteSize

theorem length_encodeProposedEvent (event : OpaqueProposedEvent) :
    (Binding.encodeProposedEvent event).flatten.length = event.encodedSize := by
  have hthree : Cbor.headSize 3 = 1 := rfl
  simp only [Binding.encodeProposedEvent, OpaqueProposedEvent.encodedSize, Cbor.textWrites,
    Cbor.bytesWrites, Cbor.arrayWrites, List.flatten_append, List.length_append,
    List.flatten_singleton, Cbor.length_headWrites, Cbor.length_utf8, hthree]

theorem length_encodeCommit_le (s : StreamIdentity) (expected : UInt64)
    (events : List OpaqueProposedEvent) :
    (Binding.encodeCommit s expected events).length ≤
      54 + s.nameBytes + (events.map OpaqueProposedEvent.encodedSize).sum := by
  have hevents : (events.flatMap Binding.encodeProposedEvent).flatten.length =
      (events.map OpaqueProposedEvent.encodedSize).sum := by
    induction events with
    | nil => rfl
    | cons event events ih =>
        rw [List.flatMap_cons, List.flatten_append, List.length_append, ih,
          length_encodeProposedEvent, List.map_cons, List.sum_cons]
  have hfive := Cbor.headSize_le 5
  have hone := Cbor.headSize_le 1
  have htype := Cbor.headSize_le s.aggregateType.utf8ByteSize
  have hid := Cbor.headSize_le s.aggregateId.utf8ByteSize
  have hexpected := Cbor.headSize_le expected.toNat
  have hcount := Cbor.headSize_le events.length
  simp only [Binding.encodeCommit, Binding.encodeStreamIdentity, StreamIdentity.nameBytes,
    Cbor.textWrites, Cbor.arrayWrites, Cbor.uintWrites, List.flatten_append, List.length_append,
    List.flatten_singleton, Cbor.length_headWrites, Cbor.length_utf8, hevents]
  omega

theorem length_encodeCommit_replicate_le (s : StreamIdentity) (expected : UInt64)
    (event : OpaqueProposedEvent) (n : ℕ) :
    (Binding.encodeCommit s expected (List.replicate n event)).length ≤
      54 + s.nameBytes + n * event.encodedSize := by
  have hcommit := length_encodeCommit_le s expected (List.replicate n event)
  rwa [List.map_replicate, List.sum_replicate, smul_eq_mul] at hcommit

end Commits

namespace PagedStream

/-- The calls that build streams. -/
inductive Op where
  | commit (wire : CommitWire)
  | commitWithJob (wire : CommitWire) (job : JobSeedWire)

/-- The database, and what was committed to the stream in the order of its numbers. -/
structure State where
  db : Db
  committed : List OpaqueProposedEvent

section System

variable (double : UInt64 → List UInt8) (parseJobId : String → Option JobId) (s : StreamIdentity)

def act (db : Db) : Op → Except AbiError Unit × Db
  | .commit wire => esCommit none wire db
  | .commitWithJob wire job => esCommitWithJob parseJobId none wire job db

/-- The events of a commit, if it is one to the stream. -/
def ownEvents (wire : CommitWire) : List OpaqueProposedEvent :=
  if ⟨wire.aggregateType, wire.aggregateId⟩ = s then wire.events.values else []

/-- An engine's own event as the binding sees it: its payload is the text of its JSON. -/
def asText (event : JobEvent) : OpaqueProposedEvent :=
  ⟨event.stored.eventType, event.stored.eventVersion, event.stored.payload.compact double⟩

/-- The first event of a job's stream, if that is the stream. -/
def seededEvents (job : EnqueueRequest) : List OpaqueProposedEvent :=
  match instantFromMillis job.runAtMs with
  | .error _ => []
  | .ok runAt => if jobStream job.jobId = s then [asText double (job.event runAt)] else []

/-- What an accepted call adds to the stream. -/
def added : Op → List OpaqueProposedEvent
  | .commit wire => ownEvents s wire
  | .commitWithJob wire job =>
      ownEvents s wire ++ match jobSeed parseJobId job with
        | .error _ => []
        | .ok seed => seededEvents double s seed

def step (σ : State) (op : Op) : State :=
  match act parseJobId σ.db op with
  | (.ok (), db) => ⟨db, σ.committed ++ added double parseJobId s op⟩
  | (.error _, db) => ⟨db, σ.committed⟩

/-- The stream from the freshly migrated database on. -/
def machine : Machine State Op := ⟨⟨.empty, []⟩, step double parseJobId s⟩

end System

variable {parseJobId : String → Option JobId} {s : StreamIdentity} {σ : State}

/-- The stream holds what was committed, under the numbers from 1 on. -/
structure Inv (double : UInt64 → List UInt8) (s : StreamIdentity) (σ : State)
    (rows : List StoredEvent) : Prop where
  stream : σ.db.stream s = SeqLog.ofList 0 rows
  snapshot : σ.db.snapshots.lookup s = none
  bounded : rows.length ≤ i64Max
  reads : List.Forall₂ (Reads double) rows σ.committed

/-- The rows that commits write: a proposed event in its envelope, or a job's own event, which has
none and reads as the text of its JSON. -/
inductive RowOf (double : UInt64 → List UInt8) : StoredEvent → OpaqueProposedEvent → Prop
  | proposed (event : OpaqueProposedEvent) : RowOf double event.stored event
  | job (event : JobEvent) : RowOf double event.stored (asText double event)

theorem RowOf.reads {x : StoredEvent} {event : OpaqueProposedEvent} (h : RowOf double x event) :
    Reads double x event := by
  cases h with
  | proposed event => exact fun s q => decodeOpaqueEvent_stored event s q
  | job event => exact fun _ _ => rfl

theorem forall₂_rowOf_stored (events : List OpaqueProposedEvent) :
    List.Forall₂ (RowOf double) (events.map OpaqueProposedEvent.stored) events := by
  rw [List.forall₂_map_left_iff, List.forall₂_same]
  exact fun event _ => .proposed event

/-- The stream holds nothing but what commits write. -/
structure Written (double : UInt64 → List UInt8) (s : StreamIdentity) (σ : State)
    (rows : List StoredEvent) : Prop where
  stream : σ.db.stream s = SeqLog.ofList 0 rows
  snapshot : σ.db.snapshots.lookup s = none
  bounded : rows.length ≤ i64Max
  rowOf : List.Forall₂ (RowOf double) rows σ.committed

theorem Written.inv {rows : List StoredEvent} (h : Written double s σ rows) : Inv double s σ rows :=
  ⟨h.stream, h.snapshot, h.bounded, h.rowOf.imp fun _ _ => RowOf.reads⟩

theorem commitResult_ok {request : OpaqueCommitRequest} {db db' : Db}
    (h : commitResult none request db = (.ok (), db')) :
    (commitOpaque none request db).1 = .ok () ∧ (commitOpaque none request db).2 = db' := by
  unfold commitResult at h
  split at h
  next heq => rw [heq]; exact ⟨rfl, (Prod.mk.inj h).2⟩
  · cases h
  · cases h

theorem commitResult_of_ok {request : OpaqueCommitRequest} {db : Db}
    (h : (commitOpaque none request db).1 = .ok ()) :
    commitResult none request db = (.ok (), (commitOpaque none request db).2) := by
  unfold commitResult
  split
  next heq => rw [heq]
  next heq => rw [heq] at h; cases h
  next heq => rw [heq] at h; cases h

theorem commitResult_error {request : OpaqueCommitRequest} {db db' : Db} {error : AbiError}
    (h : commitResult none request db = (.error error, db')) : db' = db := by
  have hdb : ∀ e, (commitOpaque none request db).1 = .error e →
      (commitOpaque none request db).2 = db := fun _ => commitOpaque_error
  unfold commitResult at h
  split at h
  · cases h
  next heq =>
    rw [heq] at hdb
    exact (Prod.mk.inj h).2.symm.trans (hdb _ rfl)
  next heq =>
    rw [heq] at hdb
    exact (Prod.mk.inj h).2.symm.trans (hdb _ rfl)

theorem act_error {db db' : Db} {op : Op} {error : AbiError}
    (h : act parseJobId db op = (.error error, db')) : db' = db := by
  cases op with
  | commit wire =>
      rw [act, esCommit] at h
      split at h
      · exact (Prod.mk.inj h).2.symm
      · exact commitResult_error h
  | commitWithJob wire job =>
      rw [act, esCommitWithJob] at h
      split at h
      · exact (Prod.mk.inj h).2.symm
      · exact (Prod.mk.inj h).2.symm
      · exact commitResult_error h

/-- What an accepted call asked the engine for. -/
theorem act_ok (double : UInt64 → List UInt8) (s : StreamIdentity) {db db' : Db} {op : Op}
    (h : act parseJobId db op = (.ok (), db')) :
    ∃ request : OpaqueCommitRequest, request.events ≠ [] ∧ request.jobs.length ≤ 1 ∧
      (commitOpaque none request db).1 = .ok () ∧ (commitOpaque none request db).2 = db' ∧
      added double parseJobId s op = (if request.stream = s then request.events else []) ++
        request.jobs.flatMap (seededEvents double s) := by
  cases op with
  | commit wire =>
      rw [act, esCommit] at h
      split at h
      · cases h
      next request hparts =>
        obtain ⟨rfl, -, hne⟩ := commitParts_eq_ok hparts
        obtain ⟨hok, hdb⟩ := commitResult_ok h
        exact ⟨_, hne, Nat.zero_le _, hok, hdb, (List.append_nil _).symm⟩
  | commitWithJob wire job =>
      rw [act, esCommitWithJob] at h
      split at h
      · cases h
      · cases h
      next request seed hparts hseed =>
        obtain ⟨rfl, -, hne⟩ := commitParts_eq_ok hparts
        obtain ⟨hok, hdb⟩ := commitResult_ok h
        refine ⟨_, hne, le_rfl, hok, hdb, ?_⟩
        rw [added, hseed, List.flatMap_singleton]
        rfl

theorem seededEvents_of_ne {job : EnqueueRequest} (h : jobStream job.jobId ≠ s) :
    seededEvents double s job = [] := by
  rw [seededEvents]
  split
  · rfl
  · exact if_neg h

/-- The calls write nothing else. -/
theorem written_step (parseJobId : String → Option JobId) {rows : List StoredEvent}
    (hinv : Written double s σ rows) (op : Op) :
    ∃ rows', Written double s (step double parseJobId s σ op) rows' := by
  rw [step]
  split
  next db' hact =>
    obtain ⟨request, hne, hcount, hok, rfl, hadded⟩ := act_ok double s hact
    have hat := committedAt_of_commitOpaque hok
    have hsnap : (commitOpaque none request σ.db).2.snapshots.lookup s = none := by
      rw [hat.snapshots s]
      split_ifs <;> exact hinv.snapshot
    have hnone : (∀ job ∈ request.jobs, jobStream job.jobId ≠ s) →
        request.jobs.flatMap (seededEvents double s) = [] := fun h =>
      List.flatMap_eq_nil_iff.2 fun job hjob => seededEvents_of_ne (h job hjob)
    rcases commitOpaque_stream hinv.stream hinv.snapshot hne hok with
      ⟨hs, hjobs, hstream⟩ | ⟨hs, job, hjob, heq, rfl, runAt, hrunAt, hstream⟩ |
        ⟨hs, hjobs, hstream⟩
    · rw [if_pos hs, hnone hjobs, List.append_nil] at hadded
      refine ⟨_, hstream, hsnap, ?_, ?_⟩
      · -- The last of the new events has the greatest number.
        have hversion : committedStreamVersion σ.db s = request.expectedVersion := hs ▸ hat.version
        rw [committedStreamVersion_eq, hinv.stream, SeqLog.maxSeq_ofList_zero] at hversion
        have hle := Nat.le_max_left rows.length (σ.db.covered s)
        have hpos := List.length_pos_iff.2 hne
        have hlast := commitOpaque_bounded hok (request.events.length - 1) (by omega)
        rw [List.length_append, List.length_map]
        omega
      · rw [hadded]
        exact List.rel_append hinv.rowOf (forall₂_rowOf_stored _)
    · obtain ⟨other, hother⟩ := List.length_eq_one_iff.1
        (le_antisymm hcount (List.length_pos_of_mem hjob))
      obtain rfl : job = other := by rwa [hother, List.mem_singleton] at hjob
      rw [if_neg hs, hother, List.flatMap_singleton, seededEvents, hrunAt, List.nil_append] at hadded
      refine ⟨_, hstream, hsnap, one_le_i64Max, ?_⟩
      rw [hadded, List.forall₂_nil_left_iff.1 hinv.rowOf]
      dsimp only
      rw [if_pos heq]
      exact .cons (.job _) .nil
    · rw [if_neg hs, hnone hjobs, List.append_nil] at hadded
      refine ⟨rows, hstream.trans hinv.stream, hsnap, hinv.bounded, ?_⟩
      rw [hadded, List.append_nil]
      exact hinv.rowOf
  next error db' hact =>
    obtain rfl := act_error hact
    exact ⟨rows, hinv.stream, hinv.snapshot, hinv.bounded, hinv.rowOf⟩

theorem written_run (double : UInt64 → List UInt8) (parseJobId : String → Option JobId)
    (s : StreamIdentity) (ops : List Op) :
    ∃ rows, Written double s ((machine double parseJobId s).run ops) rows :=
  Machine.run_invariant (P := fun σ => ∃ rows, Written double s σ rows)
    ⟨[], rfl, rfl, Nat.zero_le _, .nil⟩ (fun _ op ⟨_, hinv⟩ => written_step parseJobId hinv op) ops

theorem inv_run (double : UInt64 → List UInt8) (parseJobId : String → Option JobId)
    (s : StreamIdentity) (ops : List Op) :
    ∃ rows, Inv double s ((machine double parseJobId s).run ops) rows :=
  let ⟨rows, hwritten⟩ := written_run double parseJobId s ops
  ⟨rows, hwritten.inv⟩

/-- **Accepted commits are read back.** On a stream built by any calls across the ABI, the walk from no
cursor ends with every committed event once and in order, exactly when the stream's names and every
page of it fit the limits. -/
theorem walk_reads_commits_iff (double : UInt64 → List UInt8) (parseJobId : String → Option JobId)
    (s : StreamIdentity) (ops : List Op) {fuel : ℕ}
    (hfuel : ((machine double parseJobId s).run ops).committed.length < fuel) :
    let σ := (machine double parseJobId s).run ops
    walkPages double s σ.db fuel [] none = some (.ok (numberedFrom 1 σ.committed)) ↔
      s.WithinLimit ∧
        ∀ k, PageFitsAt double s (σ.db.stream s).values σ.committed (maxListItems * k) := by
  intro σ
  obtain ⟨rows, hinv⟩ := inv_run double parseJobId s ops
  have hlength : rows.length = σ.committed.length := hinv.reads.length_eq
  by_cases hlimit : s.WithinLimit
  · have hwalk := walkPages_eq_ok_iff hinv.stream hlimit hinv.bounded hinv.reads (Nat.zero_le _)
      (show rows.length - 0 < fuel by rw [hlength]; exact hfuel) []
    simp only [List.nil_append, Nat.zero_add, List.drop_zero] at hwalk
    rw [hinv.stream, SeqLog.values_ofList, and_iff_right hlimit]
    exact hwalk
  · refine iff_of_false (fun h => ?_) fun h => hlimit h.1
    have hrefused : ∀ page, loadStreamPage double s none σ.db ≠ .ok page := fun page hload =>
      hlimit ((loadStreamPage_eq_ok (sequence_le_of_ofList hinv.stream hinv.bounded)).1 hload).1
    obtain ⟨error, herror⟩ := walkPages_error hrefused (Nat.zero_lt_of_lt hfuel) []
    rw [herror] at h
    cases h

/-- Two events of one commit, and one that was committed with a job. -/
def smallOps : List Op :=
  [.commit ⟨1, "account", "a", 0, ⟨[⟨"Opened", "1.0", [1, 2]⟩, ⟨"Credited", "1.0", []⟩], 2⟩⟩,
    .commitWithJob ⟨1, "account", "a", 2, ⟨[⟨"Closed", "1.0", [0]⟩], 1⟩⟩ ⟨"j", "mail", [7], 0⟩]

theorem walk_reads_small_commits :
    let σ := (machine (fun _ => []) some ⟨"account", "a"⟩).run smallOps
    σ.committed.length < 4 ∧
      walkPages (fun _ => []) ⟨"account", "a"⟩ σ.db 4 [] none =
        some (.ok (numberedFrom 1 σ.committed)) := by
  have hlength : ((machine (fun _ => []) some ⟨"account", "a"⟩).run smallOps).committed.length < 4 := by
    decide +kernel
  refine ⟨hlength, (walk_reads_commits_iff _ _ _ smallOps hlength).2
    ⟨⟨by decide, by decide⟩, fun k => ?_⟩⟩
  cases k with
  | zero => exact ⟨by decide +kernel, by decide +kernel, by decide +kernel⟩
  | succ k =>
      refine pageFitsAt_of_length_le ?_ ?_
      · have hrows : (((machine (fun _ => []) some ⟨"account", "a"⟩).run smallOps).db.stream
            ⟨"account", "a"⟩).values.length ≤ maxListItems := by decide +kernel
        exact hrows.trans (Nat.le_mul_of_pos_right _ k.succ_pos)
      · exact (hlength.le.trans (by decide)).trans (Nat.le_mul_of_pos_right maxListItems k.succ_pos)

/-! ### Building a stream -/

/-- A commit of the events to the stream. -/
def commitWire (s : StreamIdentity) (expected : ℕ) (events : List OpaqueProposedEvent) : CommitWire :=
  ⟨1, s.aggregateType, s.aggregateId, UInt64.ofNat expected, ⟨events, events.length⟩⟩

/-- What the boundary lets one commit carry. -/
structure Committable (events : List OpaqueProposedEvent) : Prop where
  ne_nil : events ≠ []
  count : events.length ≤ maxCommitEvents
  payloads : ∀ event ∈ events, event.payload.length ≤ maxPayloadBytes

theorem commitParts_commitWire (hlimit : s.WithinLimit) {expected : ℕ}
    {events : List OpaqueProposedEvent} (hevents : Committable events)
    (hroom : expected + events.length ≤ i64Max) :
    commitParts (commitWire s expected events) = .ok ⟨s, expected, events, []⟩ := by
  have hlt : i64Max < 2 ^ 64 := by decide
  have hnat : (UInt64.ofNat expected).toNat = expected :=
    UInt64.toNat_ofNat_of_lt' (show expected < 2 ^ 64 by omega)
  have hparts := commitParts_of_limits (w := commitWire s expected events) rfl hlimit.1 hlimit.2
    hevents.count hevents.ne_nil
    (show (UInt64.ofNat expected).toNat + events.length < 2 ^ 64 by omega) hevents.payloads
  rw [hparts]
  change Except.ok (⟨s, (UInt64.ofNat expected).toNat, events, []⟩ : OpaqueCommitRequest) = _
  rw [hnat]

/-- A commit at the stream's version is accepted. -/
theorem committed_step_commitWire (parseJobId : String → Option JobId) {rows : List StoredEvent}
    (hinv : Inv double s σ rows) (hlimit : s.WithinLimit) {events : List OpaqueProposedEvent}
    (hevents : Committable events) (hroom : σ.committed.length + events.length ≤ i64Max) :
    (step double parseJobId s σ (.commit (commitWire s σ.committed.length events))).committed =
      σ.committed ++ events := by
  have hlength : rows.length = σ.committed.length := hinv.reads.length_eq
  have haccept := commitOpaque_accepts hinv.stream hinv.snapshot events (hlength ▸ hroom)
  rw [hlength] at haccept
  have hact : act parseJobId σ.db (.commit (commitWire s σ.committed.length events)) =
      (.ok (), (commitOpaque none ⟨s, σ.committed.length, events, []⟩ σ.db).2) := by
    rw [act, esCommit, commitParts_commitWire hlimit hevents hroom]
    exact commitResult_of_ok haccept
  have hown : ownEvents s (commitWire s σ.committed.length events) = events := if_pos rfl
  rw [step, hact]
  dsimp only
  rw [added, hown]

/-- One commit for each of the lists, behind `expected` events. -/
def commitsFrom (s : StreamIdentity) : ℕ → List (List OpaqueProposedEvent) → List Op
  | _, [] => []
  | expected, events :: rest =>
      .commit (commitWire s expected events) :: commitsFrom s (expected + events.length) rest

/-- A stream is built by committing its events list by list. -/
theorem committed_commitsFrom (double : UInt64 → List UInt8) (parseJobId : String → Option JobId)
    (hlimit : s.WithinLimit) {lists : List (List OpaqueProposedEvent)}
    (hlists : ∀ events ∈ lists, Committable events) (hroom : lists.flatten.length ≤ i64Max) :
    ((machine double parseJobId s).run (commitsFrom s 0 lists)).committed = lists.flatten := by
  suffices hexec : ∀ (σ : State) (rows : List StoredEvent), Written double s σ rows →
      σ.committed.length + lists.flatten.length ≤ i64Max →
      ((machine double parseJobId s).exec σ (commitsFrom s σ.committed.length lists)).committed =
        σ.committed ++ lists.flatten by
    exact hexec ⟨.empty, []⟩ [] ⟨rfl, rfl, Nat.zero_le _, .nil⟩ (by simpa using hroom)
  clear hroom
  induction lists with
  | nil => exact fun σ _ _ _ => (List.append_nil _).symm
  | cons events rest ih =>
      intro σ rows hwritten hroom
      rw [List.forall_mem_cons] at hlists
      rw [List.flatten_cons, List.length_append] at hroom
      have hstep := committed_step_commitWire parseJobId hwritten.inv hlimit
        hlists.1 (by omega)
      obtain ⟨rows', hwritten'⟩ := written_step parseJobId hwritten
        (.commit (commitWire s σ.committed.length events))
      have hrest := ih hlists.2 _ rows' hwritten' (by rw [hstep, List.length_append]; omega)
      rw [hstep, List.length_append, List.append_assoc] at hrest
      exact hrest

/-! ### A stream that fits no page -/

/-- An event with the greatest payload a commit may carry. -/
def fullEvent : OpaqueProposedEvent := ⟨"Created", "1.0", List.replicate maxPayloadBytes 0⟩

def fullStream : StreamIdentity := ⟨"account", "a"⟩

/-- The commit of thirteen such events behind `n` others like it. -/
def fullCommit (n : ℕ) : CommitWire :=
  ⟨1, fullStream.aggregateType, fullStream.aggregateId, UInt64.ofNat (13 * n),
    ⟨List.replicate 13 fullEvent, 13⟩⟩

theorem length_payload_fullEvent : fullEvent.payload.length = maxPayloadBytes :=
  List.length_replicate

/-- The first `n` of these commits are accepted. -/
theorem committed_fullCommits (double : UInt64 → List UInt8) (parseJobId : String → Option JobId)
    {n : ℕ} (hn : n ≤ 5) :
    ((machine double parseJobId fullStream).run
      ((List.range n).map fun i => .commit (fullCommit i))).committed =
        List.replicate (13 * n) fullEvent := by
  have hlimit : fullStream.WithinLimit := ⟨by decide, by decide⟩
  have hevents : Committable (List.replicate 13 fullEvent) :=
    ⟨List.cons_ne_nil _ _, by decide, fun event hevent => by
      rw [List.eq_of_mem_replicate hevent, length_payload_fullEvent]⟩
  have hmax : 65 ≤ i64Max := by decide
  induction n with
  | zero => rfl
  | succ n ih =>
      specialize ih (Nat.le_of_succ_le hn)
      rw [List.range_succ, List.map_append, List.map_singleton, Machine.run_concat]
      obtain ⟨rows, hinv⟩ := inv_run double parseJobId fullStream
        ((List.range n).map fun i => .commit (fullCommit i))
      generalize (machine double parseJobId fullStream).run _ = σ at ih hinv ⊢
      have hlength : σ.committed.length = 13 * n := by rw [ih, List.length_replicate]
      have hstep := committed_step_commitWire parseJobId hinv hlimit hevents
        (by rw [hlength, List.length_replicate]; omega)
      rw [hlength, ih, List.replicate_append_replicate] at hstep
      exact hstep

/-- Each of the commits is a request within the limit. -/
theorem length_encodeCommit_fullEvents_le (expected : UInt64) :
    (Binding.encodeCommit fullStream expected (List.replicate 13 fullEvent)).length ≤
      maxRequestBytes := by
  have hsize : fullEvent.encodedSize ≤ maxPayloadBytes + 22 := by
    have htype : fullEvent.eventType.utf8ByteSize = 7 := by decide
    have hversion : fullEvent.eventVersion.utf8ByteSize = 3 := by decide
    have hheads : Cbor.headSize 7 = 1 ∧ Cbor.headSize 3 = 1 := ⟨rfl, rfl⟩
    have hpayload := Cbor.headSize_le maxPayloadBytes
    rw [OpaqueProposedEvent.encodedSize, htype, hversion, length_payload_fullEvent, hheads.1,
      hheads.2]
    omega
  have hnames : fullStream.nameBytes = 8 := by decide
  have hcommit := length_encodeCommit_replicate_le fullStream expected fullEvent 13
  -- The size is kept closed: its evaluation would count the bytes one by one.
  generalize fullEvent.encodedSize = size at hsize hcommit
  generalize (Binding.encodeCommit fullStream expected _).length = length at hcommit ⊢
  simp only [hnames, maxPayloadBytes, maxRequestBytes] at *
  omega

/-- A page that holds 65 such events does not fit a response. -/
theorem not_pageFits_fullEvents {rows : List (ℕ × StoredEvent)} {q : ℕ} :
    ¬ PageFits double fullStream rows (numberedFrom q (List.replicate 65 fullEvent)) := by
  intro hfits
  have hpayloads : (numberedFrom q (List.replicate 65 fullEvent)).map (fun e => e.payload.length) =
      List.replicate 65 maxPayloadBytes := by
    have hvalues := SeqLog.map_snd_rowsFrom q (List.replicate 65 fullEvent)
    have hmap := congrArg (List.map fun e => e.payload.length) hvalues
    rw [List.map_map, List.map_replicate, length_payload_fullEvent] at hmap
    rw [numberedFrom, List.map_map]
    exact hmap
  have hsum := (sum_payloads_le_pageBytes _).trans hfits.response
  rw [hpayloads, List.sum_replicate, smul_eq_mul] at hsum
  exact absurd hsum (by decide)

/-- A stream of 65 such events cannot be walked: its only page does not fit a response. -/
theorem walkPages_fullEvents {rows : List StoredEvent} (hinv : Inv double fullStream σ rows)
    (hcommitted : σ.committed = List.replicate 65 fullEvent) {fuel : ℕ} (hfuel : 0 < fuel) :
    ∃ error, walkPages double fullStream σ.db fuel [] none = some (.error error) := by
  refine walkPages_error (fun page hload => ?_) hfuel []
  obtain ⟨-, -, hdecode, hfits⟩ :=
    (loadStreamPage_eq_ok (sequence_le_of_ofList hinv.stream hinv.bounded)).1 hload
  have hlength : rows.length = 65 := by
    rw [hinv.reads.length_eq, hcommitted, List.length_replicate]
  have hrows : pageRows (SeqLog.ofList 0 rows) ((cursorAt 0).map UInt64.toNat) maxListItems = _ :=
    pageRows_ofList (Nat.zero_le _)
  rw [List.drop_zero, List.take_of_length_le (hlength.trans_le (by decide))] at hrows
  have hreads := mapM_decodeOpaqueEvent (s := fullStream) hinv.reads 1
  change (pageRows (σ.db.stream fullStream) ((cursorAt 0).map UInt64.toNat) maxListItems).mapM _ = _
    at hdecode
  rw [hinv.stream, hrows, hreads, hcommitted] at hdecode
  rw [← Except.ok.inj hdecode] at hfits
  exact not_pageFits_fullEvents hfits

/-- The state after five commits of thirteen events. -/
def fullState : State :=
  (machine (fun _ => []) some fullStream).run ((List.range 5).map fun i => .commit (fullCommit i))

/-- Five commits, each a request within the limit and accepted, leave a stream of 65 MiB that no walk
can read. -/
theorem full_stream_is_unreadable :
    fullState.committed = List.replicate (13 * 5) fullEvent ∧
      (∀ i, (Binding.encodeCommit fullStream (fullCommit i).expected
        (fullCommit i).events.values).length ≤ maxRequestBytes) ∧
      ∀ fuel, 0 < fuel →
        ∃ error, walkPages (fun _ => []) fullStream fullState.db fuel [] none =
          some (.error error) := by
  have hcommitted : fullState.committed = List.replicate (13 * 5) fullEvent := by
    rw [fullState]
    exact committed_fullCommits (fun _ => []) some le_rfl
  have hinv : ∃ rows, Inv (fun _ => []) fullStream fullState rows := by
    rw [fullState]
    exact inv_run (fun _ => []) some fullStream _
  obtain ⟨rows, hinv⟩ := hinv
  exact ⟨hcommitted, fun i => length_encodeCommit_fullEvents_le _, fun fuel hfuel =>
    walkPages_fullEvents hinv hcommitted hfuel⟩

end PagedStream

end EventSorcery
