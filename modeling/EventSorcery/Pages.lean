import EventSorcery.Abi
import EventSorcery.Lib.Cbor

/-!
# Event pages across the ABI

`es_load_stream` answers with one page of a stream: the engine cuts it by an item count and refuses it
whole if the columns it would read are too large, and the boundary refuses it whole if its encoding
is. The binding decodes the page and walks on from its last event until a page is empty. How
serde_json prints a double is a parameter.
-/

namespace EventSorcery

/-- An event as the boundary returns it. -/
structure OpaqueStoredEvent where
  sequence : ℕ
  eventType : String
  eventVersion : String
  payload : List UInt8
  deriving DecidableEq

/-! ## The engine's side -/

def enginePayloadProvenance : String := "opaque-v1"

def hasEnginePayloadProvenance : Json → Bool
  | .obj [(key, .str provenance)] =>
      key = enginePayloadProvenanceKey ∧ provenance = enginePayloadProvenance
  | _ => false

/-- The version and the bytes of an envelope's content. -/
def readOpaquePayload (payload : Json) : Option (ℕ × List UInt8) := do
  let version ← (← payload.field? "version").asNatBelow? 256
  let bytes ← match ← payload.field? "bytes" with
    | .arr items => items.mapM fun item => (item.asNatBelow? 256).map UInt8.ofNat
    | _ => none
  some (version, bytes)

/-- Read binding-owned bytes back out of their envelope. -/
def decodeOpaquePayload (payload : Json) : Except EngineError (List UInt8) :=
  match (payload.field? "$event-sorcery-engine-payload").bind readOpaquePayload with
  | none => .error .json
  | some (version, bytes) =>
      if version = 1 then .ok bytes else .error (.opaquePayloadVersion version)

section Loads

variable (double : UInt64 → List UInt8)

/-- What the engine counts for a row: its columns as bytes, and 8 for the number. -/
def storageBytes (s : StreamIdentity) (x : StoredEvent) : ℕ :=
  s.aggregateType.utf8ByteSize + s.aggregateId.utf8ByteSize + 8 + x.eventType.utf8ByteSize +
    x.eventVersion.utf8ByteSize + (x.payload.compact double).length +
    (x.metadata.compact double).length

/-- The rows of a page. -/
def pageRows (log : SeqLog StoredEvent) (after : Option ℕ) (itemLimit : ℕ) :
    List (ℕ × StoredEvent) :=
  (match after with
    | none => log.rows
    | some q => log.after q).take itemLimit

def loadEventsPageBounded (s : StreamIdentity) (after : Option ℕ) (itemLimit byteLimit : ℕ)
    (db : Db) : Except EngineError (List SerializedEvent) :=
  if i64Max < after.getD 0 then .error .integer
  else
    let rows := pageRows (db.stream s) after itemLimit
    let observed := (rows.map fun r => storageBytes double s r.2).sum
    if byteLimit < observed then .error (.eventPageTooLarge observed byteLimit)
    else .ok (rows.map fun r => r.2.serialized s r.1)

/-- An engine-owned payload comes out of its envelope, any other as the text of its JSON. -/
def payloadBytes (event : SerializedEvent) : Except EngineError (List UInt8) :=
  if hasEnginePayloadProvenance event.metadata then decodeOpaquePayload event.payload
  else .ok (event.payload.compact double)

def decodeOpaqueEvent (event : SerializedEvent) : Except EngineError OpaqueStoredEvent := do
  let payload ← payloadBytes double event
  .ok ⟨event.sequence, event.eventType, event.eventVersion, payload⟩

def loadOpaqueEventsPageBounded (s : StreamIdentity) (after : Option ℕ)
    (itemLimit byteLimit : ℕ) (db : Db) : Except EngineError (List OpaqueStoredEvent) := do
  let events ← loadEventsPageBounded double s after itemLimit byteLimit db
  events.mapM (decodeOpaqueEvent double)

/-! ## The boundary -/

def maxRequestBytes : ℕ := 16 * 1024 * 1024
def maxResponseBytes : ℕ := 64 * 1024 * 1024
def maxStoredEventPageBytes : ℕ := 4 * maxResponseBytes + maxRequestBytes

/-- Hand a write to the response's buffer, unless it would grow beyond the limit. -/
def boundedWrite (bytes buffer : List UInt8) : Except AbiError (List UInt8) :=
  if maxResponseBytes < bytes.length + buffer.length then
    .error (.resourceLimit "encoded_response_buffer" (bytes.length + buffer.length)
      maxResponseBytes)
  else .ok (bytes ++ buffer)

def writeArrayHeader (bytes : List UInt8) (length : ℕ) : Except AbiError (List UInt8) :=
  if length ≤ 23 then boundedWrite bytes [UInt8.ofNat (0x80 + length)]
  else if length ≤ 255 then boundedWrite bytes [0x98, UInt8.ofNat length]
  else if length ≤ 65535 then boundedWrite bytes (0x99 :: Cbor.beBytes 2 length)
  else .error (.state "event page length exceeds ABI limit")

/-- The writes of one event. -/
def OpaqueStoredEvent.writes (event : OpaqueStoredEvent) : List (List UInt8) :=
  Cbor.arrayWrites 4 ++ Cbor.uintWrites event.sequence ++ Cbor.textWrites event.eventType ++
    Cbor.textWrites event.eventVersion ++ Cbor.bytesWrites event.payload

def writeEvent (bytes : List UInt8) (event : OpaqueStoredEvent) : Except AbiError (List UInt8) := do
  requirePayloadLimit event.payload.length
  event.writes.foldlM boundedWrite bytes

def encodeEventPage (events : List OpaqueStoredEvent) : Except AbiError (List UInt8) := do
  let bytes ← boundedWrite [] [0x82, 0x01]
  let bytes ← writeArrayHeader bytes events.length
  events.foldlM writeEvent bytes

structure LoadWire where
  version : UInt8
  aggregateType : String
  aggregateId : String
  after : Option UInt64

def esLoadStream (wire : LoadWire) (db : Db) : Except AbiError (List UInt8) := do
  requireVersion wire.version
  requireIdentifierLimit wire.aggregateType.utf8ByteSize
  requireIdentifierLimit wire.aggregateId.utf8ByteSize
  let events ← (loadOpaqueEventsPageBounded double ⟨wire.aggregateType, wire.aggregateId⟩
    (wire.after.map UInt64.toNat) maxListItems maxStoredEventPageBytes db).mapError .ofEngine
  encodeEventPage events

/-! ## The binding's side -/

/-- What a call of the binding fails with: the engine's error, or one of its own. -/
inductive BindingError where
  | engine (error : AbiError)
  | pageDidNotAdvance (cursor advanced : ℕ)
  | undecodableResponse

def decodeStoredEvent (input : List UInt8) : Option (OpaqueStoredEvent × List UInt8) := do
  let (length, input) ← Cbor.readArrayLen input
  if length ≠ 4 then none
  let (sequence, input) ← Cbor.readUInt input
  let (eventType, input) ← Cbor.readText input
  let (eventVersion, input) ← Cbor.readText input
  let (payload, input) ← Cbor.readBytes input
  some (⟨sequence, eventType, eventVersion, payload⟩, input)

/-- Read this many events. -/
def decodeCount : ℕ → List UInt8 → Option (List OpaqueStoredEvent × List UInt8)
  | 0, input => some ([], input)
  | count + 1, input => do
      let (event, input) ← decodeStoredEvent input
      let (events, input) ← decodeCount count input
      some (event :: events, input)

def decodeStoredEvents (bytes : List UInt8) : Option (List OpaqueStoredEvent) := do
  let (length, input) ← Cbor.readArrayLen bytes
  if length ≠ 2 then none
  let (version, input) ← Cbor.readUInt input
  if version ≠ 1 then none
  let (count, input) ← Cbor.readArrayLen input
  let (events, remaining) ← decodeCount count input
  if remaining = [] then some events else none

/-- Read a single page of a stream. -/
def loadStreamPage (s : StreamIdentity) (after : Option UInt64) (db : Db) :
    Except BindingError (List OpaqueStoredEvent) :=
  match esLoadStream double ⟨1, s.aggregateType, s.aggregateId, after⟩ db with
  | .error error => .error (.engine error)
  | .ok bytes =>
      match decodeStoredEvents bytes with
      | none => .error .undecodableResponse
      | some events => .ok events

/-- Where the next page starts; a page that does not advance is refused. -/
def nextCursor (after : Option UInt64) (last : OpaqueStoredEvent) : Except BindingError UInt64 :=
  let advanced := UInt64.ofNat last.sequence
  match after with
  | none => .ok advanced
  | some cursor =>
      if cursor < advanced then .ok advanced
      else .error (.pageDidNotAdvance cursor.toNat last.sequence)

/-- Walk the pages from a cursor on, with `loaded` read before; `none` when `fuel` pages were not
enough. -/
def walkPages (s : StreamIdentity) (db : Db) :
    ℕ → List OpaqueStoredEvent → Option UInt64 →
      Option (Except BindingError (List OpaqueStoredEvent))
  | 0, _, _ => none
  | fuel + 1, loaded, after =>
      match loadStreamPage double s after db with
      | .error error => some (.error error)
      | .ok events =>
          match events.getLast? with
          | none => some (.ok loaded)
          | some last =>
              match nextCursor after last with
              | .error error => some (.error error)
              | .ok cursor => walkPages s db fuel (loaded ++ events) (some cursor)

end Loads

/-! ## What a page takes -/

def OpaqueStoredEvent.bytes (event : OpaqueStoredEvent) : List UInt8 := event.writes.flatten

/-- The encoding of a page. -/
def pageBytes (events : List OpaqueStoredEvent) : List UInt8 :=
  [0x82, 0x01] ++ (Cbor.arrayWrites events.length).flatten ++
    events.flatMap OpaqueStoredEvent.bytes

/-- A page that neither side refuses: what the engine reads, every payload and the whole response are
within their limits. -/
structure PageFits (double : UInt64 → List UInt8) (s : StreamIdentity)
    (rows : List (ℕ × StoredEvent)) (events : List OpaqueStoredEvent) : Prop where
  stored : (rows.map fun r => storageBytes double s r.2).sum ≤ maxStoredEventPageBytes
  payloads : ∀ e ∈ events, e.payload.length ≤ maxPayloadBytes
  response : (pageBytes events).length ≤ maxResponseBytes

section Encoding

variable {bytes bytes' : List UInt8} {events : List OpaqueStoredEvent}

theorem boundedWrite_eq_ok {buffer : List UInt8} :
    boundedWrite bytes buffer = .ok bytes' ↔
      (bytes ++ buffer).length ≤ maxResponseBytes ∧ bytes' = bytes ++ buffer := by
  rw [boundedWrite, List.length_append]
  split_ifs with h
  · simp [h]
  · simp [not_lt.1 h, eq_comm]

/-- Writes go through together exactly when their bytes fit. -/
theorem foldlM_boundedWrite_eq_ok {writes : List (List UInt8)}
    (hbytes : bytes.length ≤ maxResponseBytes) :
    writes.foldlM boundedWrite bytes = .ok bytes' ↔
      (bytes ++ writes.flatten).length ≤ maxResponseBytes ∧ bytes' = bytes ++ writes.flatten := by
  induction writes generalizing bytes with
  | nil => simpa [Pure.pure, Except.pure, eq_comm] using fun _ => hbytes
  | cons buffer writes ih =>
      rw [List.foldlM_cons, Except.bind_eq_ok, List.flatten_cons, ← List.append_assoc]
      constructor
      · rintro ⟨next, hnext, hrest⟩
        obtain ⟨hle, rfl⟩ := boundedWrite_eq_ok.1 hnext
        exact (ih hle).1 hrest
      · rintro ⟨hle, heq⟩
        have hnext : (bytes ++ buffer).length ≤ maxResponseBytes := by
          rw [List.length_append] at hle
          exact (Nat.le_add_right _ _).trans hle
        exact ⟨_, boundedWrite_eq_ok.2 ⟨hnext, rfl⟩, (ih hnext).2 ⟨hle, heq⟩⟩

theorem requirePayloadLimit_eq_ok {n : ℕ} :
    requirePayloadLimit n = .ok () ↔ n ≤ maxPayloadBytes := by
  rw [requirePayloadLimit, requireLimit]
  split_ifs with h <;> simp [h]

theorem writeEvent_eq_ok {event : OpaqueStoredEvent} (hbytes : bytes.length ≤ maxResponseBytes) :
    writeEvent bytes event = .ok bytes' ↔ event.payload.length ≤ maxPayloadBytes ∧
      (bytes ++ event.bytes).length ≤ maxResponseBytes ∧ bytes' = bytes ++ event.bytes := by
  rw [writeEvent, Except.bind_eq_ok, OpaqueStoredEvent.bytes]
  simp only [foldlM_boundedWrite_eq_ok hbytes, ← requirePayloadLimit_eq_ok]
  exact ⟨fun ⟨_, hpayload, hrest⟩ => ⟨hpayload, hrest⟩, fun h => ⟨(), h⟩⟩

theorem foldlM_writeEvent_eq_ok (hbytes : bytes.length ≤ maxResponseBytes) :
    events.foldlM writeEvent bytes = .ok bytes' ↔
      (∀ e ∈ events, e.payload.length ≤ maxPayloadBytes) ∧
        (bytes ++ events.flatMap OpaqueStoredEvent.bytes).length ≤ maxResponseBytes ∧
        bytes' = bytes ++ events.flatMap OpaqueStoredEvent.bytes := by
  induction events generalizing bytes with
  | nil => simpa [Pure.pure, Except.pure, eq_comm] using fun _ => hbytes
  | cons event events ih =>
      rw [List.foldlM_cons, Except.bind_eq_ok, List.flatMap_cons, ← List.append_assoc,
        List.forall_mem_cons]
      constructor
      · rintro ⟨next, hnext, hrest⟩
        obtain ⟨hpayload, hle, rfl⟩ := (writeEvent_eq_ok hbytes).1 hnext
        obtain ⟨hpayloads, htotal, heq⟩ := (ih hle).1 hrest
        exact ⟨⟨hpayload, hpayloads⟩, htotal, heq⟩
      · rintro ⟨⟨hpayload, hpayloads⟩, hle, heq⟩
        have hnext : (bytes ++ event.bytes).length ≤ maxResponseBytes := by
          rw [List.length_append] at hle
          exact (Nat.le_add_right _ _).trans hle
        exact ⟨_, (writeEvent_eq_ok hbytes).2 ⟨hpayload, hnext, rfl⟩,
          (ih hnext).2 ⟨hpayloads, hle, heq⟩⟩

/-- The hand-written array header is the one of the encoder. -/
theorem writeArrayHeader_eq {length : ℕ} (h : length ≤ 65535) :
    writeArrayHeader bytes length = boundedWrite bytes (Cbor.arrayWrites length).flatten := by
  unfold writeArrayHeader Cbor.arrayWrites Cbor.headWrites
  rcases le_or_gt length 23 with h23 | h23
  · rw [if_pos h23, if_pos (Nat.lt_succ_of_le h23)]
    rfl
  · rw [if_neg (not_le.2 h23), if_neg (not_lt.2 h23)]
    rcases le_or_gt length 255 with h255 | h255
    · have h8 : length < 2 ^ 8 := by omega
      rw [if_pos h255, if_pos h8]
      rfl
    · have h8 : ¬ length < 2 ^ 8 := by omega
      have h16 : length < 2 ^ 16 := by omega
      rw [if_neg (not_le.2 h255), if_neg h8, if_pos h, if_pos h16]
      rfl

/-- **A page is encoded** exactly when every payload and the whole response fit. -/
theorem encodeEventPage_eq_ok (hcount : events.length ≤ 65535) :
    encodeEventPage events = .ok bytes ↔
      (∀ e ∈ events, e.payload.length ≤ maxPayloadBytes) ∧
        (pageBytes events).length ≤ maxResponseBytes ∧ bytes = pageBytes events := by
  have hheader := Cbor.length_headWrites_le 4 events.length
  have hopen : boundedWrite [] [0x82, 0x01] = .ok [0x82, 0x01] := rfl
  have hlist : writeArrayHeader [0x82, 0x01] events.length =
      .ok ([0x82, 0x01] ++ (Cbor.arrayWrites events.length).flatten) := by
    rw [writeArrayHeader_eq hcount]
    refine boundedWrite_eq_ok.2 ⟨?_, rfl⟩
    rw [List.length_append, Cbor.arrayWrites]
    exact (Nat.add_le_add_left hheader _).trans (by decide)
  have hle : ([0x82, 0x01] ++ (Cbor.arrayWrites events.length).flatten).length ≤
      maxResponseBytes := (boundedWrite_eq_ok.1 (writeArrayHeader_eq hcount ▸ hlist)).1
  change (boundedWrite [] [0x82, 0x01] >>= fun bytes =>
    writeArrayHeader bytes events.length >>= fun bytes => events.foldlM writeEvent bytes) = _ ↔ _
  rw [hopen]
  change (writeArrayHeader [0x82, 0x01] events.length >>= _) = _ ↔ _
  rw [hlist]
  exact foldlM_writeEvent_eq_ok hle

/-! ## Reading a page back -/

/-- The sizes of an event that fits a response. -/
theorem OpaqueStoredEvent.sizes_lt {event : OpaqueStoredEvent}
    (h : event.bytes.length ≤ maxResponseBytes) :
    (Cbor.utf8 event.eventType).length < 2 ^ 64 ∧ (Cbor.utf8 event.eventVersion).length < 2 ^ 64 ∧
      event.payload.length < 2 ^ 64 := by
  have hmax : maxResponseBytes < 2 ^ 64 := by decide
  simp only [bytes, writes, Cbor.textWrites, Cbor.bytesWrites, List.flatten_append,
    List.length_append, List.flatten_singleton] at h
  omega

theorem decodeStoredEvent_bytes {event : OpaqueStoredEvent} (hseq : event.sequence < 2 ^ 64)
    (h : event.bytes.length ≤ maxResponseBytes) (rest : List UInt8) :
    decodeStoredEvent (event.bytes ++ rest) = some (event, rest) := by
  obtain ⟨htype, hversion, hpayload⟩ := OpaqueStoredEvent.sizes_lt h
  have hlist : ∀ rest, Cbor.readArrayLen ((Cbor.arrayWrites 4).flatten ++ rest) = some (4, rest) :=
    fun rest => Cbor.readArrayLen_arrayWrites (by decide) rest
  simp only [OpaqueStoredEvent.bytes, OpaqueStoredEvent.writes, List.flatten_append,
    List.append_assoc]
  simp [decodeStoredEvent, hlist, Cbor.readUInt_uintWrites hseq, Cbor.readText_textWrites htype,
    Cbor.readText_textWrites hversion, Cbor.readBytes_bytesWrites hpayload]

theorem decodeCount_bytes (hseq : ∀ e ∈ events, e.sequence < 2 ^ 64)
    (h : (events.flatMap OpaqueStoredEvent.bytes).length ≤ maxResponseBytes) :
    decodeCount events.length (events.flatMap OpaqueStoredEvent.bytes) = some (events, []) := by
  induction events with
  | nil => rfl
  | cons event events ih =>
      rw [List.flatMap_cons, List.length_append] at h
      rw [List.forall_mem_cons] at hseq
      rw [List.flatMap_cons, List.length_cons, decodeCount,
        decodeStoredEvent_bytes hseq.1 ((Nat.le_add_right _ _).trans h)]
      simp [ih hseq.2 ((Nat.le_add_left _ _).trans h)]

/-- **A page reads back** as the events that went into it. -/
theorem decodeStoredEvents_pageBytes (hcount : events.length ≤ 65535)
    (hseq : ∀ e ∈ events, e.sequence < 2 ^ 64)
    (h : (pageBytes events).length ≤ maxResponseBytes) :
    decodeStoredEvents (pageBytes events) = some events := by
  have hcount' : events.length < 2 ^ 64 := by omega
  have hopen : ∀ rest, Cbor.readArrayLen (0x82 :: rest) = some (2, rest) := fun _ => rfl
  have hversion : ∀ rest, Cbor.readUInt (0x01 :: rest) = some (1, rest) := fun _ => rfl
  have hevents : (events.flatMap OpaqueStoredEvent.bytes).length ≤ maxResponseBytes := by
    rw [pageBytes, List.length_append] at h
    exact (Nat.le_add_left _ _).trans h
  rw [pageBytes, List.append_assoc]
  simp [decodeStoredEvents, hopen, hversion, Cbor.readArrayLen_arrayWrites hcount',
    decodeCount_bytes hseq hevents]

end Encoding

/-! ## Loading a page -/

section Loading

variable {double : UInt64 → List UInt8} {s : StreamIdentity} {db : Db} {after : Option UInt64}
  {events : List OpaqueStoredEvent}

theorem requireIdentifierLimit_eq_ok {n : ℕ} :
    requireIdentifierLimit n = .ok () ↔ n ≤ maxIdentifierBytes := by
  rw [requireIdentifierLimit, requireLimit]
  split_ifs with h <;> simp [h]

/-- The names of a stream that the boundary accepts. -/
def StreamIdentity.WithinLimit (s : StreamIdentity) : Prop :=
  s.aggregateType.utf8ByteSize ≤ maxIdentifierBytes ∧
    s.aggregateId.utf8ByteSize ≤ maxIdentifierBytes

theorem loadEventsPageBounded_eq_ok {cursor : Option ℕ} {itemLimit byteLimit : ℕ}
    {page : List SerializedEvent} :
    loadEventsPageBounded double s cursor itemLimit byteLimit db = .ok page ↔
      cursor.getD 0 ≤ i64Max ∧
        ((pageRows (db.stream s) cursor itemLimit).map fun r => storageBytes double s r.2).sum ≤
          byteLimit ∧
        page = (pageRows (db.stream s) cursor itemLimit).map fun r => r.2.serialized s r.1 := by
  unfold loadEventsPageBounded
  dsimp only
  split_ifs with hcursor hbytes
  · simp [hcursor]
  · simp [hbytes]
  · simp [not_lt.1 hcursor, not_lt.1 hbytes, eq_comm]

theorem length_pageRows_le (log : SeqLog StoredEvent) (cursor : Option ℕ) (itemLimit : ℕ) :
    (pageRows log cursor itemLimit).length ≤ itemLimit := List.length_take_le _ _

/-- A proposed event under the number it was given. -/
def OpaqueProposedEvent.numbered (event : OpaqueProposedEvent) (q : ℕ) : OpaqueStoredEvent :=
  ⟨q, event.eventType, event.eventVersion, event.payload⟩

/-- An envelope opens to the bytes that were put in it. -/
theorem decodeOpaquePayload_encodeOpaquePayload (bytes : List UInt8) :
    decodeOpaquePayload (encodeOpaquePayload bytes) = .ok bytes := by
  have hbytes : (bytes.map fun b => Json.int b.toNat).mapM
      (fun item => (item.asNatBelow? 256).map UInt8.ofNat) = some bytes := by
    induction bytes with
    | nil => rfl
    | cons b bytes ih =>
        have hb : (Json.int b.toNat).asNatBelow? 256 = some b.toNat :=
          Json.asNatBelow?_int b.toNat_lt
        rw [List.map_cons, List.mapM_cons, hb, ih]
        simp
  have hversion : (Json.int 1).asNatBelow? 256 = some 1 := Json.asNatBelow?_int (by decide)
  simp [decodeOpaquePayload, encodeOpaquePayload, readOpaquePayload, hversion, hbytes]

/-- A committed event reads back as it was proposed. -/
theorem decodeOpaqueEvent_stored (event : OpaqueProposedEvent) (s : StreamIdentity) (q : ℕ) :
    decodeOpaqueEvent double (event.stored.serialized s q) = .ok (event.numbered q) := by
  have hprovenance : hasEnginePayloadProvenance enginePayloadMetadata = true := by decide
  have hpayload : payloadBytes double (event.stored.serialized s q) = .ok event.payload := by
    rw [payloadBytes]
    exact (if_pos hprovenance).trans (decodeOpaquePayload_encodeOpaquePayload event.payload)
  rw [decodeOpaqueEvent, hpayload]
  rfl

theorem sequence_of_decodeOpaqueEvent {event : SerializedEvent} {decoded : OpaqueStoredEvent}
    (h : decodeOpaqueEvent double event = .ok decoded) : decoded.sequence = event.sequence := by
  obtain ⟨payload, -, hevent⟩ := Except.bind_eq_ok.1 h
  rw [← Except.ok.inj hevent]

theorem mem_rows_of_mem_pageRows {log : SeqLog StoredEvent} {cursor : Option ℕ} {itemLimit : ℕ}
    {r : ℕ × StoredEvent} (h : r ∈ pageRows log cursor itemLimit) : r ∈ log.rows := by
  have hmem := List.mem_of_mem_take h
  cases cursor with
  | none => exact hmem
  | some q => exact List.mem_of_mem_filter hmem

/-- What the boundary answers a load with. -/
theorem esLoadStream_eq_ok {bytes : List UInt8} :
    esLoadStream double ⟨1, s.aggregateType, s.aggregateId, after⟩ db = .ok bytes ↔
      s.WithinLimit ∧ (after.map UInt64.toNat).getD 0 ≤ i64Max ∧ ∃ events,
        (pageRows (db.stream s) (after.map UInt64.toNat) maxListItems).mapM
          (fun r => decodeOpaqueEvent double (r.2.serialized s r.1)) = .ok events ∧
        PageFits double s (pageRows (db.stream s) (after.map UInt64.toNat) maxListItems) events ∧
        bytes = pageBytes events := by
  have hcount : ∀ {events}, (pageRows (db.stream s) (after.map UInt64.toNat) maxListItems).mapM
      (fun r => decodeOpaqueEvent double (r.2.serialized s r.1)) = .ok events →
      events.length ≤ 65535 := by
    intro events hevents
    have hlength := congrArg List.length (List.mapM_eq_ok.1 hevents)
    rw [List.length_map, List.length_map] at hlength
    exact hlength ▸ (length_pageRows_le _ _ _).trans (by decide)
  constructor
  · intro h
    obtain ⟨_, -, h⟩ := Except.bind_eq_ok.1 h
    obtain ⟨_, htype, h⟩ := Except.bind_eq_ok.1 h
    obtain ⟨_, hid, h⟩ := Except.bind_eq_ok.1 h
    obtain ⟨events, hload, hencode⟩ := Except.bind_eq_ok.1 h
    obtain ⟨page, hpage, hdecode⟩ := Except.bind_eq_ok.1 (Except.mapError_eq_ok.1 hload)
    obtain ⟨hcursor, hstored, rfl⟩ := loadEventsPageBounded_eq_ok.1 hpage
    rw [List.mapM_map] at hdecode
    obtain ⟨hpayloads, hresponse, rfl⟩ := (encodeEventPage_eq_ok (hcount hdecode)).1 hencode
    exact ⟨⟨requireIdentifierLimit_eq_ok.1 htype, requireIdentifierLimit_eq_ok.1 hid⟩, hcursor,
      events, hdecode, ⟨hstored, hpayloads, hresponse⟩, rfl⟩
  · rintro ⟨hlimit, hcursor, events, hdecode, hfits, rfl⟩
    refine Except.bind_eq_ok.2 ⟨(), rfl, Except.bind_eq_ok.2
      ⟨(), requireIdentifierLimit_eq_ok.2 hlimit.1, Except.bind_eq_ok.2
        ⟨(), requireIdentifierLimit_eq_ok.2 hlimit.2, Except.bind_eq_ok.2 ⟨events, ?_,
          (encodeEventPage_eq_ok (hcount hdecode)).2 ⟨hfits.payloads, hfits.response, rfl⟩⟩⟩⟩⟩
    refine Except.mapError_eq_ok.2 (Except.bind_eq_ok.2
      ⟨_, loadEventsPageBounded_eq_ok.2 ⟨hcursor, hfits.stored, rfl⟩, ?_⟩)
    rw [List.mapM_map]
    exact hdecode

/-- **A page is answered** exactly when it fits, and then the binding has its rows. -/
theorem loadStreamPage_eq_ok (hseq : ∀ r ∈ (db.stream s).rows, r.1 ≤ i64Max) :
    loadStreamPage double s after db = .ok events ↔
      s.WithinLimit ∧ (after.map UInt64.toNat).getD 0 ≤ i64Max ∧
        (pageRows (db.stream s) (after.map UInt64.toNat) maxListItems).mapM
          (fun r => decodeOpaqueEvent double (r.2.serialized s r.1)) = .ok events ∧
        PageFits double s (pageRows (db.stream s) (after.map UInt64.toNat) maxListItems)
          events := by
  have hread : ∀ {events}, (pageRows (db.stream s) (after.map UInt64.toNat) maxListItems).mapM
      (fun r => decodeOpaqueEvent double (r.2.serialized s r.1)) = .ok events →
      (pageBytes events).length ≤ maxResponseBytes →
      decodeStoredEvents (pageBytes events) = some events := by
    intro events hevents hresponse
    have hlength := congrArg List.length (List.mapM_eq_ok.1 hevents)
    rw [List.length_map, List.length_map] at hlength
    refine decodeStoredEvents_pageBytes
      (hlength ▸ (length_pageRows_le _ _ _).trans (by decide)) (fun e he => ?_) hresponse
    obtain ⟨r, hr, hdecode⟩ := (List.mem_of_mapM_eq_ok hevents).2 e he
    have hnumber : e.sequence = r.1 := sequence_of_decodeOpaqueEvent hdecode
    have hbound := hseq r (mem_rows_of_mem_pageRows hr)
    exact hnumber ▸ hbound.trans_lt (by decide)
  unfold loadStreamPage
  constructor
  · intro h
    split at h
    · cases h
    next bytes hload =>
      obtain ⟨hlimit, hcursor, page, hdecode, hfits, rfl⟩ := esLoadStream_eq_ok.1 hload
      rw [hread hdecode hfits.response] at h
      obtain rfl := Except.ok.inj h
      exact ⟨hlimit, hcursor, hdecode, hfits⟩
  · rintro ⟨hlimit, hcursor, hdecode, hfits⟩
    rw [esLoadStream_eq_ok.2 ⟨hlimit, hcursor, events, hdecode, hfits, rfl⟩]
    dsimp only
    rw [hread hdecode hfits.response]

end Loading

end EventSorcery
