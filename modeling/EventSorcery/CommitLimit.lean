import EventSorcery.Requests

/-!
# Commits with too many events

The boundary stops reading a commit's events one after the limit, and leaves the rest of the list in
the input. In a plain commit nothing is read after the list. In a commit with a job the job is, so the
limit is only reported if the list has exactly one event too many; a longer list leaves an event where
the job should be.
-/

namespace EventSorcery

open Cbor (Layout)

/-- `es_commit`, from the bytes of the request. -/
def commitCall (fault : Option EngineError) (bytes : List UInt8) (db : Db) :
    Except AbiError Unit × Db :=
  match decodeValidated Wire.commit (fun wire => requireCommitEventCount wire.events.observed)
    bytes with
  | .error error => (.error error, db)
  | .ok wire => esCommit fault wire db

/-- `es_commit_with_job`, from the bytes of the request. -/
def commitWithJobCall (parseJobId : String → Option JobId) (fault : Option EngineError)
    (bytes : List UInt8) (db : Db) : Except AbiError Unit × Db :=
  match decodeValidated Wire.commitWithJob
    (fun wire => requireCommitEventCount wire.1.events.observed) bytes with
  | .error error => (.error error, db)
  | .ok (wire, job) => esCommitWithJob parseJobId fault wire job db

/-! ## Reading an overlong list -/

section Overlong

variable {events : CommitEvents} {rest : List UInt8}

theorem writes_proposedEvent (event : OpaqueProposedEvent) :
    Wire.proposedEvent.writes event = Cbor.arrayWrites 3 ++ (Cbor.textWrites event.eventType ++
      (Cbor.textWrites event.eventVersion ++ Cbor.bytesWrites event.payload)) := rfl

theorem length_proposedEvent_pos (event : OpaqueProposedEvent) :
    0 < (Wire.proposedEvent.writes event).flatten.length := Nat.succ_pos _

theorem skip_proposedEvent {event : OpaqueProposedEvent}
    (hshort : (Wire.proposedEvent.writes event).flatten.length < 2 ^ 64) (depth : ℕ)
    (rest : List UInt8) :
    Cbor.skip (depth + 1) ((Wire.proposedEvent.writes event).flatten ++ rest) = some rest := by
  have htext : ∀ s : String, (Cbor.utf8 s).length ≤ (Cbor.textWrites s).flatten.length := fun s => by
    simp [Cbor.textWrites]
  have hbytes : ∀ bytes : List UInt8, bytes.length ≤ (Cbor.bytesWrites bytes).flatten.length :=
    fun bytes => by simp [Cbor.bytesWrites]
  have htype := htext event.eventType
  have hversion := htext event.eventVersion
  have hpayload := hbytes event.payload
  rw [writes_proposedEvent] at hshort ⊢
  simp only [List.flatten_append, List.length_append, List.append_assoc] at hshort ⊢
  rw [Cbor.skip, Cbor.arrayWrites, Cbor.skipItem_headWrites (by omega) (by omega)]
  have hrange : List.range 3 = [0, 1, 2] := rfl
  simp only [hrange, List.foldlM_cons, List.foldlM_nil, Option.bind_eq_bind, Option.pure_def]
  rw [Cbor.skip_textWrites (by omega), Option.bind_some, Cbor.skip_textWrites (by omega),
    Option.bind_some, Cbor.skip_bytesWrites (by omega), Option.bind_some]

/-- The events up to the limit are kept, the next one is dropped, and the others stay. -/
theorem read_commitEvents_overlong (hmany : maxCommitEvents < events.values.length)
    (hshort : (Wire.commitEvents.writes events).flatten.length < 2 ^ 64) (rest : List UInt8) :
    Wire.commitEvents.read ((Wire.commitEvents.writes events).flatten ++ rest) =
      some (⟨events.values.take maxCommitEvents, maxCommitEvents + 1⟩,
        ((events.values.drop (maxCommitEvents + 1)).flatMap Wire.proposedEvent.writes).flatten ++
          rest) := by
  obtain ⟨values, observed⟩ := events
  obtain ⟨kept, extra, left, hkept, rfl⟩ : ∃ kept extra left, kept.length = maxCommitEvents ∧
      values = kept ++ extra :: left :=
    ⟨values.take maxCommitEvents, values[maxCommitEvents], values.drop (maxCommitEvents + 1),
      List.length_take_of_le hmany.le, by rw [List.getElem_cons_drop, List.take_append_drop]⟩
  have hwrites : (Wire.commitEvents.writes ⟨kept ++ extra :: left, observed⟩).flatten =
      (Cbor.arrayWrites (kept ++ extra :: left).length).flatten ++
        ((kept.flatMap Wire.proposedEvent.writes).flatten ++
          ((Wire.proposedEvent.writes extra).flatten ++
            (left.flatMap Wire.proposedEvent.writes).flatten)) := by
    simp [Wire.commitEvents]
  have hitems : (kept ++ extra :: left).length ≤
      ((kept ++ extra :: left).flatMap Wire.proposedEvent.writes).flatten.length :=
    Cbor.length_le_flatten length_proposedEvent_pos _
  rw [hwrites] at hshort ⊢
  simp only [List.flatMap_append, List.flatMap_cons, List.flatten_append, List.length_append]
    at hshort hitems
  have hevent : ∀ event ∈ kept, ∀ rest, Wire.proposedEvent.read
      ((Wire.proposedEvent.writes event).flatten ++ rest) = some (event, rest) := by
    refine fun event he rest => Wire.proposedEvent.read_writes ⟨trivial, trivial, trivial⟩ ?_ rest
    have hle := Cbor.length_flatten_le_of_mem Wire.proposedEvent.writes he
    omega
  have hcount : maxCommitEvents < (kept ++ extra :: left).length := hmany
  have hread := Cbor.readCount_flatMap hevent
  rw [hkept] at hread
  simp only [List.append_assoc]
  change Wire.readCommitEvents _ = _
  rw [Wire.readCommitEvents, Cbor.readArrayLen_arrayWrites (by rw [List.length_append]; omega)]
  simp only [Option.bind_eq_bind, Option.bind_some, Nat.min_eq_right hcount.le, hread,
    if_neg hcount.not_ge]
  have hdepth : maxCborDepth - 2 = 29 + 1 := rfl
  have hleft : (kept ++ extra :: left).drop (maxCommitEvents + 1) = left := by
    rw [← hkept, List.append_cons, List.drop_left' (by simp)]
  rw [hdepth, skip_proposedEvent (by omega), Option.bind_some, hleft, ← hkept, List.take_left]

/-- What a request has before its events. -/
def headerWrites (wire : CommitWire) : List (List UInt8) :=
  Layout.u8.writes wire.version ++ (Layout.text.writes wire.aggregateType ++
    (Layout.text.writes wire.aggregateId ++ Layout.u64.writes wire.expected))

theorem read_header {β : Type} (d : Layout β) (wire : CommitWire)
    (hshort : (headerWrites wire).flatten.length < 2 ^ 64) (rest : List UInt8) :
    (Layout.u8.pair (Layout.text.pair (Layout.text.pair (Layout.u64.pair d)))).read
        ((headerWrites wire).flatten ++ rest) =
      (d.read rest).map fun (b, input) =>
        ((wire.version, wire.aggregateType, wire.aggregateId, wire.expected, b), input) := by
  simp only [headerWrites, List.flatten_append, List.length_append, List.append_assoc] at hshort ⊢
  rw [Layout.read_pair _ _ trivial (by omega), Layout.read_pair _ _ trivial (by omega),
    Layout.read_pair _ _ trivial (by omega), Layout.read_pair _ _ trivial (by omega)]
  cases d.read rest <;> rfl

theorem read_commit {wire : CommitWire} (hshort : (headerWrites wire).flatten.length < 2 ^ 64)
    (rest : List UInt8) :
    Wire.commit.read ((Cbor.arrayWrites 5).flatten ++ ((headerWrites wire).flatten ++ rest)) =
      (Wire.commitEvents.read rest).map fun (events, input) =>
        ({ wire with events := events }, input) := by
  change (Layout.read (.tuple 5 _ _) _).map _ = _
  rw [Layout.read_tuple _ _ (by decide), if_pos le_rfl, read_header _ _ hshort]
  cases Wire.commitEvents.read rest <;> rfl

theorem read_commitWithJob {wire : CommitWire}
    (hshort : (headerWrites wire).flatten.length < 2 ^ 64) (rest : List UInt8) :
    Wire.commitWithJob.read
        ((Cbor.arrayWrites 6).flatten ++ ((headerWrites wire).flatten ++ rest)) =
      ((Wire.commitEvents.pair (.tuple 4 (by decide) Wire.seedFields)).read rest).map
        fun ((events, job), input) => (({ wire with events := events }, job), input) := by
  change (Layout.read (.tuple 6 _ _) _).map _ = _
  rw [Layout.read_tuple _ _ (by decide), if_pos le_rfl, read_header _ _ hshort]
  cases (Wire.commitEvents.pair (.tuple 4 (by decide) Wire.seedFields)).read rest <;> rfl

theorem bytes_commit (wire : CommitWire) : Wire.commit.bytes wire =
    (Cbor.arrayWrites 5).flatten ++ ((headerWrites wire).flatten ++
      (Wire.commitEvents.writes wire.events).flatten) := by
  simp [Layout.bytes, Wire.commit, headerWrites]

theorem bytes_commitWithJob (wire : CommitWire) (job : JobSeedWire) :
    Wire.commitWithJob.bytes (wire, job) =
      (Cbor.arrayWrites 6).flatten ++ ((headerWrites wire).flatten ++
        ((Wire.commitEvents.writes wire.events).flatten ++
          ((Cbor.arrayWrites 4).flatten ++ (Wire.seedFields.writes job).flatten))) := by
  simp [Layout.bytes, Wire.commitWithJob, headerWrites]

/-- The tuple of a request whose events are cut off. -/
def CommitWire.cutOff (wire : CommitWire) : CommitWire :=
  { wire with events := ⟨wire.events.values.take maxCommitEvents, maxCommitEvents + 1⟩ }

/-- A plain commit reads nothing after its events. -/
theorem read_commit_overlong {wire : CommitWire} (hmany : maxCommitEvents < wire.events.values.length)
    (hshort : (Wire.commit.bytes wire).length < 2 ^ 64) :
    ∃ rest, Wire.commit.read (Wire.commit.bytes wire) = some (wire.cutOff, rest) := by
  rw [bytes_commit] at hshort ⊢
  simp only [List.length_append] at hshort
  have hevents := read_commitEvents_overlong hmany (by omega) []
  rw [List.append_nil] at hevents
  exact ⟨_, by rw [read_commit (by omega), hevents]; rfl⟩

/-- A commit with a job reads the job where the list stopped: one event too many, and it is there;
more, and it finds an event, which has too few fields. -/
theorem read_commitWithJob_overlong {wire : CommitWire} (seed : Binding.JobSeed)
    (hmany : maxCommitEvents < wire.events.values.length)
    (hshort : (Wire.commitWithJob.bytes (wire, seed.wire)).length < 2 ^ 64) :
    Wire.commitWithJob.read (Wire.commitWithJob.bytes (wire, seed.wire)) =
      if wire.events.values.length = maxCommitEvents + 1 then some ((wire.cutOff, seed.wire), [])
      else none := by
  rw [bytes_commitWithJob] at hshort ⊢
  simp only [List.length_append] at hshort
  rw [read_commitWithJob (by omega)]
  change Option.map _ ((Wire.commitEvents.read _).bind _) = _
  rw [read_commitEvents_overlong hmany (by omega), Option.bind_some]
  split_ifs with hone
  · -- nothing is left of the list
    have hjob := (Layout.tuple 4 (by decide) Wire.seedFields).read_writes
      (Binding.Request.inRange_seedFields seed)
      (by rw [Layout.writes_tuple, List.flatten_append, List.length_append]; omega) []
    rw [Layout.writes_tuple, List.flatten_append, List.append_nil] at hjob
    rw [List.drop_of_length_le hone.le, List.flatMap_nil, List.flatten_nil, List.nil_append]
    dsimp only
    rw [hjob]
    rfl
  · obtain ⟨event, left, hleft⟩ : ∃ event left,
        wire.events.values.drop (maxCommitEvents + 1) = event :: left :=
      List.exists_cons_of_ne_nil (by rw [Ne, List.drop_eq_nil_iff]; omega)
    rw [hleft, List.flatMap_cons, writes_proposedEvent, List.flatten_append, List.flatten_append,
      List.append_assoc, List.append_assoc]
    dsimp only
    rw [Layout.read_tuple _ _ (by decide), if_neg (by decide)]
    rfl

end Overlong

/-! ## What is reported -/

section Reported

variable (parseJobId : String → Option JobId) (fault : Option EngineError) (db : Db)

theorem commitCall_overlong {wire : CommitWire}
    (hmany : maxCommitEvents < wire.events.values.length)
    (hsize : (Wire.commit.bytes wire).length ≤ maxRequestBytes) :
    commitCall fault (Wire.commit.bytes wire) db =
      (.error (.resourceLimit "commit_events" (maxCommitEvents + 1) maxCommitEvents), db) := by
  obtain ⟨rest, hread⟩ := read_commit_overlong hmany (hsize.trans_lt (by decide))
  rw [commitCall, decodeValidated, if_neg hsize.not_gt, hread]
  rfl

theorem commitWithJobCall_overlong {wire : CommitWire} (seed : Binding.JobSeed)
    (hmany : maxCommitEvents < wire.events.values.length)
    (hsize : (Wire.commitWithJob.bytes (wire, seed.wire)).length ≤ maxRequestBytes) :
    commitWithJobCall parseJobId fault (Wire.commitWithJob.bytes (wire, seed.wire)) db =
      (.error (if wire.events.values.length = maxCommitEvents + 1 then
          .resourceLimit "commit_events" (maxCommitEvents + 1) maxCommitEvents
        else .cborDecode), db) := by
  have hread := read_commitWithJob_overlong seed hmany (hsize.trans_lt (by decide))
  rw [commitWithJobCall, decodeValidated, if_neg hsize.not_gt, hread]
  split_ifs <;> rfl

/-- **The limit on a commit's events.** A commit with too many is refused and writes nothing. A plain
one always names the limit, one with a job exactly if there is one event too many. -/
theorem overlong_commit_names_limit (wire : CommitWire) (seed : Binding.JobSeed)
    (hmany : maxCommitEvents < wire.events.values.length) :
    ((Wire.commit.bytes wire).length ≤ maxRequestBytes →
      commitCall fault (Wire.commit.bytes wire) db =
        (.error (.resourceLimit "commit_events" (maxCommitEvents + 1) maxCommitEvents), db)) ∧
      ((Wire.commitWithJob.bytes (wire, seed.wire)).length ≤ maxRequestBytes →
        (commitWithJobCall parseJobId fault (Wire.commitWithJob.bytes (wire, seed.wire)) db).2 = db ∧
        (commitWithJobCall parseJobId fault (Wire.commitWithJob.bytes (wire, seed.wire)) db).1 ≠
          .ok () ∧
        ((∃ observed limit,
            (commitWithJobCall parseJobId fault (Wire.commitWithJob.bytes (wire, seed.wire)) db).1 =
              .error (.resourceLimit "commit_events" observed limit)) ↔
          wire.events.values.length = maxCommitEvents + 1)) := by
  refine ⟨commitCall_overlong fault db hmany, fun hsize => ?_⟩
  rw [commitWithJobCall_overlong parseJobId fault db seed hmany hsize]
  refine ⟨rfl, nofun, ?_⟩
  split_ifs with hone
  · exact iff_of_true ⟨_, _, rfl⟩ hone
  · exact iff_of_false (fun ⟨_, _, h⟩ => by cases h) hone

/-- A commit of that many empty events. -/
def emptyEvents (n : ℕ) : CommitWire := ⟨1, "account", "a", 0, ⟨.replicate n ⟨"", "", []⟩, n⟩⟩

theorem length_emptyEvents (n : ℕ) : (emptyEvents n).events.values.length = n := List.length_replicate

theorem oneTooMany_names_limit :
    ∃ observed limit, (commitWithJobCall some none
      (Wire.commitWithJob.bytes (emptyEvents 1025, (⟨"job", "kind", [], 0⟩ : Binding.JobSeed).wire))
      .empty).1 = .error (.resourceLimit "commit_events" observed limit) :=
  ((overlong_commit_names_limit some none .empty (emptyEvents 1025) ⟨"job", "kind", [], 0⟩
    (by rw [length_emptyEvents]; decide)).2 (by decide +kernel)).2.2.2 (length_emptyEvents _)

/-- Two events too many, and the request does not decode. -/
theorem twoTooMany_fail_to_decode :
    (Wire.commitWithJob.bytes
        (emptyEvents 1026, (⟨"job", "kind", [], 0⟩ : Binding.JobSeed).wire)).length ≤
      maxRequestBytes ∧
    commitWithJobCall some none (Wire.commitWithJob.bytes
        (emptyEvents 1026, (⟨"job", "kind", [], 0⟩ : Binding.JobSeed).wire)) .empty =
      (.error .cborDecode, .empty) := by
  have hsize : (Wire.commitWithJob.bytes (emptyEvents 1026,
      (⟨"job", "kind", [], 0⟩ : Binding.JobSeed).wire)).length ≤ maxRequestBytes := by decide +kernel
  refine ⟨hsize, ?_⟩
  rw [commitWithJobCall_overlong some none .empty _ (by rw [length_emptyEvents]; decide) hsize,
    length_emptyEvents]
  rfl

end Reported

end EventSorcery
