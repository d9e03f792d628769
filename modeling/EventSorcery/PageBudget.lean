import EventSorcery.PageWalk

/-!
# The two limits of a page

A page is refused for what it takes in the database before it is refused for what it takes of the
response. The first limit is four times the second and 16 MiB more, because a payload's byte takes up
to four characters in its envelope. What the engine counts also has the names of the stream, once for
every row, so the first limit is wide enough exactly for the names of at most 4014 bytes.
-/

namespace EventSorcery

/-! ## What an event takes of a response -/

/-- What the numbers of `n` events from `q` on take. -/
def numberHeads (q n : ℕ) : ℕ := ((List.range' q n).map Cbor.headSize).sum

theorem numberHeads_succ (q n : ℕ) :
    numberHeads q (n + 1) = Cbor.headSize q + numberHeads (q + 1) n := by
  rw [numberHeads, List.range'_succ, List.map_cons, List.sum_cons, numberHeads]

/-- Only the numbers below 256 take less than three bytes. -/
theorem le_numberHeads (q n : ℕ) : 3 * n ≤ numberHeads q n + 2 * (256 - q) := by
  induction n generalizing q with
  | zero => exact Nat.zero_le _
  | succ n ih =>
      specialize ih (q + 1)
      have hpos := Cbor.headSize_pos q
      have hlarge : 256 ≤ q → 3 ≤ Cbor.headSize q := fun hq => by
        unfold Cbor.headSize
        split_ifs <;> omega
      rw [numberHeads_succ]
      omega

theorem length_bytes_numbered (event : OpaqueProposedEvent) (q : ℕ) :
    (event.numbered q).bytes.length = Cbor.headSize q + event.encodedSize := by
  have hfour : Cbor.headSize 4 = 1 := rfl
  simp only [OpaqueStoredEvent.bytes, OpaqueStoredEvent.writes, OpaqueProposedEvent.numbered,
    OpaqueProposedEvent.encodedSize, Cbor.textWrites, Cbor.bytesWrites, Cbor.arrayWrites,
    Cbor.uintWrites, List.flatten_append, List.length_append, List.flatten_singleton,
    Cbor.length_headWrites, Cbor.length_utf8, hfour]
  omega

theorem length_pageBytes_numberedFrom (q : ℕ) (events : List OpaqueProposedEvent) :
    (pageBytes (numberedFrom q events)).length =
      2 + Cbor.headSize events.length + numberHeads q events.length +
        (events.map OpaqueProposedEvent.encodedSize).sum := by
  have hevents : ((numberedFrom q events).flatMap OpaqueStoredEvent.bytes).length =
      numberHeads q events.length + (events.map OpaqueProposedEvent.encodedSize).sum := by
    induction events generalizing q with
    | nil => rfl
    | cons event events ih =>
        have hcons : numberedFrom q (event :: events) =
            event.numbered q :: numberedFrom (q + 1) events := rfl
        rw [hcons, List.flatMap_cons, List.length_append, length_bytes_numbered, ih,
          List.length_cons, numberHeads_succ, List.map_cons, List.sum_cons]
        omega
  rw [pageBytes, List.length_append, List.length_append, hevents, length_numberedFrom,
    Cbor.arrayWrites, Cbor.length_headWrites]
  simp only [List.length_cons, List.length_nil]
  omega

/-! ## What a row takes in the database -/

theorem length_decimal_byte_le (b : UInt8) : (Json.decimal b.toNat).length ≤ 3 := by
  have hall : ∀ n < 256, (Json.decimal n).length ≤ 3 := by decide +kernel
  exact hall _ b.toNat_lt

section Rows

variable (double : UInt64 → List UInt8) {s : StreamIdentity}

/-- The text of an array of bytes: their digits, and a comma between two of them. -/
theorem length_compact_bytes (b : UInt8) (bytes : List UInt8) :
    (Json.compact double (.arr ((b :: bytes).map fun b => .int b.toNat))).length =
      1 + ((b :: bytes).map fun b => (Json.decimal b.toNat).length + 1).sum := by
  have hitems : (Json.compactItems double (bytes.map fun b => .int b.toNat)).length =
      (bytes.map fun b => (Json.decimal b.toNat).length + 1).sum := by
    induction bytes with
    | nil => rfl
    | cons b bytes ih =>
        have hcons : Json.compactItems double ((b :: bytes).map fun b => .int b.toNat) =
            44 :: Json.decimal b.toNat ++
              Json.compactItems double (bytes.map fun b => .int b.toNat) := rfl
        rw [hcons, List.length_append, List.length_cons, ih, List.map_cons, List.sum_cons]
  have hcons : Json.compact double (.arr ((b :: bytes).map fun b => .int b.toNat)) =
      91 :: Json.decimal b.toNat ++
        Json.compactItems double (bytes.map fun b => .int b.toNat) ++ [93] := rfl
  rw [hcons, List.length_append, List.length_append, List.length_cons, hitems, List.map_cons,
    List.sum_cons, List.length_singleton]
  omega

theorem length_compact_bytes_le (bytes : List UInt8) :
    (Json.compact double (.arr (bytes.map fun b => .int b.toNat))).length ≤
      2 + 4 * bytes.length := by
  cases bytes with
  | nil => exact le_rfl
  | cons b bytes =>
      have hsum : ((b :: bytes).map fun b => (Json.decimal b.toNat).length + 1).sum ≤
          (b :: bytes).length • 4 := by
        rw [← List.length_map fun b : UInt8 => (Json.decimal b.toNat).length + 1]
        refine List.sum_le_card_nsmul _ 4 fun n hn => ?_
        obtain ⟨b, -, rfl⟩ := List.mem_map.1 hn
        exact Nat.succ_le_succ (length_decimal_byte_le b)
      rw [length_compact_bytes]
      rw [smul_eq_mul] at hsum
      omega

/-- What the envelope adds to the text of its bytes. -/
theorem length_compact_encodeOpaquePayload (bytes : List UInt8) :
    ((encodeOpaquePayload bytes).compact double).length =
      56 + (Json.compact double (.arr (bytes.map fun b => .int b.toNat))).length := by
  have henvelope : (encodeOpaquePayload bytes).compact double =
      123 :: Json.quoted "$event-sorcery-engine-payload" ++ 58 ::
        (123 :: Json.quoted "version" ++ 58 :: Json.decimal 1 ++
          (44 :: Json.quoted "bytes" ++
            58 :: Json.compact double (.arr (bytes.map fun b => .int b.toNat)) ++ []) ++ [125]) ++
        [] ++ [125] := rfl
  have hkey : (Json.quoted "$event-sorcery-engine-payload").length = 31 := by decide
  have hversion : (Json.quoted "version").length = 9 := by decide
  have hbytes : (Json.quoted "bytes").length = 7 := by decide
  have hone : (Json.decimal 1).length = 1 := by decide
  rw [henvelope]
  simp only [List.length_append, List.length_cons, List.length_nil, hkey, hversion, hbytes, hone]
  omega

theorem length_compact_enginePayloadMetadata :
    (enginePayloadMetadata.compact double).length = 43 := by
  have hmetadata : enginePayloadMetadata.compact double =
      123 :: Json.quoted "$event-sorcery-engine-owned" ++ 58 :: Json.quoted "opaque-v1" ++ [] ++
        [125] := rfl
  rw [hmetadata]
  decide

variable {double}

/-- A row takes at most four times what its event takes of a response, and the names of the stream
with what surrounds the payload. -/
theorem storageBytes_le {x : StoredEvent} {event : OpaqueProposedEvent}
    (h : PagedStream.RowOf double x event) :
    storageBytes double s x + 16 ≤ s.nameBytes + 109 + 4 * event.encodedSize := by
  have htype := Cbor.headSize_pos event.eventType.utf8ByteSize
  have hversion := Cbor.headSize_pos event.eventVersion.utf8ByteSize
  have hpayload := Cbor.headSize_pos event.payload.length
  have hsize : event.eventType.utf8ByteSize + event.eventVersion.utf8ByteSize +
      event.payload.length + 4 ≤ event.encodedSize := by
    rw [OpaqueProposedEvent.encodedSize]
    omega
  unfold storageBytes StreamIdentity.nameBytes
  cases h with
  | proposed =>
      have hbytes := length_compact_bytes_le double event.payload
      have henvelope := length_compact_encodeOpaquePayload double event.payload
      have hmetadata := length_compact_enginePayloadMetadata double
      simp only [OpaqueProposedEvent.stored]
      omega
  | job event =>
      have hmetadata : (event.stored.metadata.compact double).length = 2 := rfl
      have hasText : (PagedStream.asText double event).payload = event.stored.payload.compact double :=
        rfl
      simp only [PagedStream.asText] at hsize ⊢
      omega

/-- The same for the rows of a page. -/
theorem sum_storageBytes_le {rows : List StoredEvent} {events : List OpaqueProposedEvent}
    (h : List.Forall₂ (PagedStream.RowOf double) rows events) :
    (rows.map (storageBytes double s)).sum + 16 * events.length ≤
      events.length * (s.nameBytes + 109) +
        4 * (events.map OpaqueProposedEvent.encodedSize).sum := by
  induction h with
  | nil => exact Nat.zero_le _
  | cons hx _ ih =>
      have hrow := storageBytes_le (s := s) hx
      simp only [List.map_cons, List.sum_cons, List.length_cons, Nat.succ_mul]
      omega

/-- **Short names fit.** With names of at most 4014 bytes, a page whose encoding fits a response is
within what may be read for it. -/
theorem sum_storageBytes_le_of_response {rows : List StoredEvent}
    {events : List OpaqueProposedEvent} (h : List.Forall₂ (PagedStream.RowOf double) rows events)
    (hcount : events.length ≤ maxListItems) (hnames : s.nameBytes ≤ 4014) {q : ℕ} (hq : 1 ≤ q)
    (hresponse : (pageBytes (numberedFrom q events)).length ≤ maxResponseBytes) :
    (rows.map (storageBytes double s)).sum ≤ maxStoredEventPageBytes := by
  have hrows := sum_storageBytes_le (s := s) h
  have hheads := le_numberHeads q events.length
  have hcountHead := Cbor.headSize_pos events.length
  have hrepeated : events.length * (s.nameBytes + 109) ≤ events.length * 4123 :=
    Nat.mul_le_mul_left _ (by omega)
  rw [length_pageBytes_numberedFrom] at hresponse
  simp only [maxStoredEventPageBytes, maxResponseBytes, maxRequestBytes, maxListItems] at *
  omega

end Rows

/-! ## Pages of a stream built by commits -/

/-- The page after the cursor is not refused for what it takes in the database if its encoding fits a
response. -/
def PageAdmitted (double : UInt64 → List UInt8) (s : StreamIdentity) (db : Db)
    (cursor : Option ℕ) : Prop :=
  ∀ events, (pageRows (db.stream s) cursor maxListItems).mapM
      (fun r => decodeOpaqueEvent double (r.2.serialized s r.1)) = .ok events →
    (pageBytes events).length ≤ maxResponseBytes →
    ∀ observed limit,
      loadEventsPageBounded double s cursor maxListItems maxStoredEventPageBytes db ≠
        .error (.eventPageTooLarge observed limit)

/-- When the engine refuses a page. -/
theorem loadEventsPageBounded_refuses {double : UInt64 → List UInt8} {s : StreamIdentity} {db : Db}
    {cursor : Option ℕ} {itemLimit byteLimit : ℕ} :
    (∃ observed limit, loadEventsPageBounded double s cursor itemLimit byteLimit db =
        .error (.eventPageTooLarge observed limit)) ↔
      cursor.getD 0 ≤ i64Max ∧ byteLimit <
        ((pageRows (db.stream s) cursor itemLimit).map fun r => storageBytes double s r.2).sum := by
  unfold loadEventsPageBounded
  dsimp only
  split_ifs with hcursor hbytes
  · simp [hcursor]
  · simp [hbytes, not_lt.1 hcursor]
  · simp [hbytes]

namespace PagedStream

section Pages

variable {double : UInt64 → List UInt8} {s : StreamIdentity} {σ : State} {rows : List StoredEvent}

/-- The page after a cursor, and what the engine counts for it. -/
theorem Written.page (h : Written double s σ rows) (cursor : Option ℕ) :
    let n := cursor.getD 0
    (pageRows (σ.db.stream s) cursor maxListItems).mapM
        (fun r => decodeOpaqueEvent double (r.2.serialized s r.1)) =
      .ok (numberedFrom (n + 1) ((σ.committed.drop n).take maxListItems)) ∧
    ((pageRows (σ.db.stream s) cursor maxListItems).map fun r => storageBytes double s r.2) =
      ((rows.drop n).take maxListItems).map (storageBytes double s) ∧
    List.Forall₂ (RowOf double) ((rows.drop n).take maxListItems)
      ((σ.committed.drop n).take maxListItems) := by
  intro n
  have hrowOf := List.forall₂_take maxListItems (List.forall₂_drop n h.rowOf)
  rw [h.stream, pageRows_ofList_getD]
  refine ⟨mapM_decodeOpaqueEvent (hrowOf.imp fun _ _ => RowOf.reads) (n + 1), ?_, hrowOf⟩
  have hvalues := SeqLog.map_snd_rowsFrom (n + 1) ((rows.drop n).take maxListItems)
  have hmap := congrArg (List.map (storageBytes double s)) hvalues
  rwa [List.map_map] at hmap

theorem pageAdmitted_of_names (h : Written double s σ rows) (hnames : s.nameBytes ≤ 4014)
    (cursor : Option ℕ) : PageAdmitted double s σ.db cursor := by
  obtain ⟨hdecode, hstored, hrowOf⟩ := h.page cursor
  intro events hevents hresponse observed limit hrefused
  obtain rfl := Except.ok.inj (hdecode.symm.trans hevents)
  have hfits := sum_storageBytes_le_of_response (s := s) hrowOf (List.length_take_le _ _) hnames
    (Nat.le_add_left _ _) hresponse
  obtain ⟨-, hlarge⟩ := loadEventsPageBounded_refuses.1 ⟨observed, limit, hrefused⟩
  rw [hstored] at hlarge
  exact absurd hfits (not_le.2 hlarge)

end Pages

/-! ### A page that fits the response only -/

/-- An event of nothing but bytes of three digits. -/
def heavyEvent (n : ℕ) : OpaqueProposedEvent := ⟨"", "", List.replicate n 255⟩

/-- A payload of `n` bytes and 63 empty ones. -/
def heavyList (n : ℕ) : List OpaqueProposedEvent :=
  heavyEvent n :: List.replicate 63 (heavyEvent 0)

/-- A full page of events whose encoding is exactly as large as a response may be. -/
def heavyLists : List (List OpaqueProposedEvent) :=
  List.replicate 63 (heavyList 1048128) ++ [heavyList 1048145]

theorem sum_heavyLists (f : OpaqueProposedEvent → ℕ) :
    (heavyLists.flatten.map f).sum =
      63 * f (heavyEvent 1048128) + f (heavyEvent 1048145) + 4032 * f (heavyEvent 0) := by
  simp only [heavyLists, heavyList, List.flatten_append, List.map_append,
    List.sum_append, List.map_flatten, List.map_replicate, List.map_cons,
    List.sum_cons, List.sum_replicate, List.sum_flatten, List.flatten_singleton, smul_eq_mul]
  omega

theorem length_heavyLists : heavyLists.flatten.length = maxListItems := by
  have hones := sum_heavyLists fun _ => 1
  rwa [List.map_const', List.sum_replicate, smul_eq_mul, Nat.mul_one] at hones

theorem committable_heavyList {n : ℕ} (hn : n ≤ maxPayloadBytes) : Committable (heavyList n) := by
  refine ⟨List.cons_ne_nil _ _, ?_, ?_⟩
  · rw [heavyList, List.length_cons, List.length_replicate]
    decide
  · intro event hevent
    rcases List.mem_cons.1 hevent with rfl | hempty
    · exact List.length_replicate.trans_le hn
    · rw [List.eq_of_mem_replicate hempty]
      exact Nat.zero_le _

theorem committable_heavyLists : ∀ events ∈ heavyLists, Committable events := by
  intro events hevents
  rcases List.mem_append.1 hevents with hmem | hmem
  · rw [List.eq_of_mem_replicate hmem]
    exact committable_heavyList (by decide)
  · rw [List.mem_singleton.1 hmem]
    exact committable_heavyList (by decide)

theorem encodedSize_heavyEvent (n : ℕ) :
    (heavyEvent n).encodedSize = 3 + Cbor.headSize n + n := by
  have hempty : Cbor.headSize "".utf8ByteSize + "".utf8ByteSize = 1 := by decide
  simp only [OpaqueProposedEvent.encodedSize, heavyEvent, hempty, List.length_replicate]
  omega

theorem sum_heavyList_le {n : ℕ} (hn : n ≤ maxPayloadBytes) :
    ((heavyList n).map OpaqueProposedEvent.encodedSize).sum ≤ 2 ^ 21 := by
  have hhead := Cbor.headSize_le n
  have hzero : Cbor.headSize 0 = 1 := rfl
  rw [heavyList, List.map_cons, List.map_replicate, List.sum_cons, List.sum_replicate, smul_eq_mul,
    encodedSize_heavyEvent, encodedSize_heavyEvent, hzero]
  simp only [maxPayloadBytes] at hn
  omega

theorem length_pageBytes_heavyLists :
    (pageBytes (numberedFrom 1 heavyLists.flatten)).length = maxResponseBytes := by
  have hheads : numberHeads 1 maxListItems = 12010 := by decide +kernel
  rw [length_pageBytes_numberedFrom, length_heavyLists, hheads, sum_heavyLists,
    encodedSize_heavyEvent, encodedSize_heavyEvent, encodedSize_heavyEvent]
  rfl

section Heavy

variable (double : UInt64 → List UInt8) {s : StreamIdentity}

theorem storageBytes_heavyEvent (s : StreamIdentity) (n : ℕ) :
    storageBytes double s (heavyEvent (n + 1)).stored = s.nameBytes + 108 + 4 * (n + 1) := by
  have hdigits : (Json.decimal (255 : UInt8).toNat).length + 1 = 4 := by decide
  have hempty : "".utf8ByteSize = 0 := rfl
  have hbytes := length_compact_bytes double 255 (List.replicate n 255)
  rw [← List.replicate_succ, List.map_replicate (f := fun b : UInt8 => _ + 1), List.sum_replicate,
    hdigits, smul_eq_mul] at hbytes
  simp only [storageBytes, StreamIdentity.nameBytes, heavyEvent, OpaqueProposedEvent.stored,
    length_compact_encodeOpaquePayload, length_compact_enginePayloadMetadata, hbytes, hempty]
  omega

theorem storageBytes_heavyEvent_zero (s : StreamIdentity) :
    storageBytes double s (heavyEvent 0).stored = s.nameBytes + 109 := by
  have hempty : "".utf8ByteSize = 0 := rfl
  have hbytes : (Json.compact double (.arr (([] : List UInt8).map fun b => .int b.toNat))).length = 2 :=
    rfl
  simp only [storageBytes, StreamIdentity.nameBytes, heavyEvent, OpaqueProposedEvent.stored,
    List.replicate_zero, length_compact_encodeOpaquePayload, length_compact_enginePayloadMetadata,
    hbytes, hempty]

/-- No event of a job has an empty type, so these rows are the proposed events. -/
theorem eq_stored_of_rowOf {rows : List StoredEvent} {events : List OpaqueProposedEvent}
    (h : List.Forall₂ (RowOf double) rows events) (htype : ∀ event ∈ events, event.eventType = "") :
    rows = events.map OpaqueProposedEvent.stored := by
  induction h with
  | nil => rfl
  | cons hx _ ih =>
      rw [List.forall_mem_cons] at htype
      rw [List.map_cons, ih htype.2]
      congr 1
      cases hx with
      | proposed => rfl
      | job event =>
          have hne : event.typeName ≠ "" := by cases event <;> simp [JobEvent.typeName]
          exact absurd htype.1 hne

theorem eventType_heavyLists : ∀ event ∈ heavyLists.flatten, event.eventType = "" := by
  intro event hevent
  obtain ⟨events, hevents, hmem⟩ := List.mem_flatten.1 hevent
  have hlist : ∃ n, events = heavyList n := by
    rcases List.mem_append.1 hevents with hmem | hmem
    · exact ⟨_, List.eq_of_mem_replicate hmem⟩
    · exact ⟨_, List.mem_singleton.1 hmem⟩
  obtain ⟨n, rfl⟩ := hlist
  rcases List.mem_cons.1 hmem with rfl | hempty
  · rfl
  · rw [List.eq_of_mem_replicate hempty]
    rfl

/-- **Long names do not fit.** The page fits the response, and the names repeated with each of its
rows take it over what may be read for it. -/
theorem not_pageAdmitted_heavyLists (parseJobId : String → Option JobId) (hlimit : s.WithinLimit)
    (hnames : 4014 < s.nameBytes) :
    ¬ PageAdmitted double s
      ((machine double parseJobId s).run (commitsFrom s 0 heavyLists)).db none := by
  obtain ⟨rows, hwritten⟩ := written_run double parseJobId s (commitsFrom s 0 heavyLists)
  have hcommitted := committed_commitsFrom double parseJobId hlimit committable_heavyLists
    (length_heavyLists.trans_le (by decide))
  generalize (machine double parseJobId s).run _ = σ at hwritten hcommitted ⊢
  have hrows : rows = heavyLists.flatten.map OpaqueProposedEvent.stored :=
    eq_stored_of_rowOf double (hcommitted ▸ hwritten.rowOf) eventType_heavyLists
  have hlength : rows.length ≤ maxListItems := by
    rw [hrows, List.length_map, length_heavyLists]
  obtain ⟨hdecode, hstored, -⟩ := hwritten.page none
  rw [Option.getD_none, List.drop_zero, List.take_of_length_le hlength, hrows, List.map_map]
    at hstored
  rw [Option.getD_none, List.drop_zero, hcommitted, List.take_of_length_le length_heavyLists.le,
    Nat.zero_add] at hdecode
  intro hadmitted
  obtain ⟨observed, limit, hrefused⟩ : ∃ observed limit, loadEventsPageBounded double s none
      maxListItems maxStoredEventPageBytes σ.db = .error (.eventPageTooLarge observed limit) := by
    refine loadEventsPageBounded_refuses.2 ⟨Nat.zero_le _, ?_⟩
    rw [hstored, sum_heavyLists]
    dsimp only [Function.comp]
    rw [storageBytes_heavyEvent, storageBytes_heavyEvent, storageBytes_heavyEvent_zero]
    simp only [maxStoredEventPageBytes, maxResponseBytes, maxRequestBytes]
    omega
  exact hadmitted _ hdecode length_pageBytes_heavyLists.le observed limit hrefused

end Heavy

/-- **The first limit of a page** never comes before the second, for any stream that commits build and
any cursor, exactly if the names of the stream have at most 4014 bytes together. -/
theorem pages_admitted_iff (double : UInt64 → List UInt8) (parseJobId : String → Option JobId)
    {s : StreamIdentity} (hlimit : s.WithinLimit) :
    (∀ ops cursor, PageAdmitted double s ((machine double parseJobId s).run ops).db cursor) ↔
      s.nameBytes ≤ 4014 := by
  constructor
  · intro hadmitted
    by_contra hnames
    exact not_pageAdmitted_heavyLists double parseJobId hlimit (not_le.1 hnames) (hadmitted _ none)
  · intro hnames ops cursor
    obtain ⟨rows, hwritten⟩ := written_run double parseJobId s ops
    exact pageAdmitted_of_names hwritten hnames cursor

theorem short_names_are_admitted :
    fullStream.WithinLimit ∧ ∀ ops cursor,
      PageAdmitted (fun _ => []) fullStream ((machine (fun _ => []) some fullStream).run ops).db
        cursor :=
  ⟨⟨by decide, by decide⟩,
    (pages_admitted_iff (fun _ => []) some ⟨by decide, by decide⟩).2 (by decide)⟩

/-- Names of 4 KiB each, the longest that the boundary accepts. -/
def longNames : StreamIdentity :=
  ⟨String.ofList (List.replicate 4096 'a'), String.ofList (List.replicate 4096 'b')⟩

theorem utf8ByteSize_longNames :
    longNames.aggregateType.utf8ByteSize = 4096 ∧ longNames.aggregateId.utf8ByteSize = 4096 :=
  ⟨Cbor.utf8ByteSize_ofList_replicate (by decide) _, Cbor.utf8ByteSize_ofList_replicate (by decide) _⟩

/-- With them, 64 commits of requests within the limit build a stream whose page of 4096 events would
fit the response and is refused. -/
theorem long_names_are_refused :
    longNames.WithinLimit ∧
      (∀ events ∈ heavyLists, ∀ expected,
        (Binding.encodeCommit longNames expected events).length ≤ maxRequestBytes) ∧
      let σ := (machine (fun _ => []) some longNames).run (commitsFrom longNames 0 heavyLists)
      σ.committed.length = maxListItems ∧
        (pageBytes (numberedFrom 1 σ.committed)).length ≤ maxResponseBytes ∧
        ¬ PageAdmitted (fun _ => []) longNames σ.db none := by
  obtain ⟨htype, hid⟩ := utf8ByteSize_longNames
  have hnames : longNames.nameBytes = 8192 := by rw [StreamIdentity.nameBytes, htype, hid]
  have hlimit : longNames.WithinLimit := ⟨htype.le, hid.le⟩
  have hcommitted := committed_commitsFrom (fun _ => []) some hlimit committable_heavyLists
    (length_heavyLists.trans_le (by decide))
  refine ⟨hlimit, fun events hevents expected => ?_, ?_, ?_,
    not_pageAdmitted_heavyLists _ some hlimit (by rw [hnames]; decide)⟩
  · have hsum : (events.map OpaqueProposedEvent.encodedSize).sum ≤ 2 ^ 21 := by
      rcases List.mem_append.1 hevents with hmem | hmem
      · rw [List.eq_of_mem_replicate hmem]
        exact sum_heavyList_le (by decide)
      · rw [List.mem_singleton.1 hmem]
        exact sum_heavyList_le (by decide)
    have hcommit := length_encodeCommit_le longNames expected events
    rw [hnames] at hcommit
    exact hcommit.trans ((Nat.add_le_add_left hsum _).trans (by decide))
  · rw [hcommitted, length_heavyLists]
  · rw [hcommitted, length_pageBytes_heavyLists]

end PagedStream

end EventSorcery
