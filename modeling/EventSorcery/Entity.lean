import EventSorcery.Lib.Json

/-!
# Event-sourced entities and their lifecycle

The `EventSourced` interface, the `Lifecycle` wrapper that is the stored aggregate, how it applies
events (`apply`) and how it runs a command (`handle`), with the task-local buffer of jobs a command
dispatches. Handlers are pure; the one thing they draw from outside is the id of a dispatched job,
which is a parameter here.
-/

namespace EventSorcery

/-- A job's id, as the text the engine stores it under. -/
abbrev JobId := String

/-- A dispatched job waiting in the command's buffer. `payload` is `none` when the job value does
not serialize; `delay` is in nanoseconds. -/
structure PendingPush where
  jobId : JobId
  kind : String
  payload : Option Json
  delay : Option ℕ

/-- What a command handler decided: domain events, or one job dispatch with its event. -/
inductive Effect (Event : Type) where
  | events (events : List Event)
  | dispatch (event : Event) (pending : PendingPush)

/-- Whether events may be deleted once a snapshot covers them. -/
inductive CompactionPolicy where
  | retain
  | compactAfterSnapshot
  deriving DecidableEq, Repr

/-- The `EventSourced` trait: fold, handlers, and the serialization of events and states. A stored
state that decodes decodes to the state that was stored. -/
structure EventSourced (Entity Event Command Error : Type) where
  aggregateType : String
  snapshotSize : ℕ
  compactionPolicy : CompactionPolicy
  originate : Event → Option Entity
  evolve : Entity → Event → Except Error (Option Entity)
  initializeWith : Command → JobId → Except Error (Effect Event)
  transition : Entity → Command → JobId → Except Error (Effect Event)
  eventType : Event → String
  eventVersion : Event → String
  eventCodec : Codec Event
  encodeEntity : Entity → Json
  decodeEntity : Json → Option Entity
  decodeEntity_encodeEntity : ∀ e e', decodeEntity (encodeEntity e) = some e' → e' = e
  encodeError : Error → Json
  decodeError : Json → Option Error

/-- Why a lifecycle failed or refused a command. -/
inductive LifecycleError (Entity Event Error : Type) where
  | eventCantOriginate (event : Event)
  | unexpectedEvent (entity : Entity) (event : Event)
  | alreadyFailed (failure : LifecycleError Entity Event Error) (event : Event)
  | apply (error : Error)
  | dispatchNotBuffered

/-- The stored aggregate: no entity yet, a live entity, or a failed fold. -/
inductive Lifecycle (Entity Event Error : Type) where
  | uninitialized
  | live (entity : Entity)
  | failed (error : LifecycleError Entity Event Error) (lastValidEntity : Option Entity)

namespace Lifecycle

variable {Entity Event Command Error : Type}

def isFailed : Lifecycle Entity Event Error → Bool
  | failed _ _ => true
  | _ => false

/-- What a reader of the aggregate gets. -/
def intoResult : Lifecycle Entity Event Error →
    Except (LifecycleError Entity Event Error) (Option Entity)
  | uninitialized => .ok none
  | live entity => .ok (some entity)
  | failed error _ => .error error

variable (E : EventSourced Entity Event Command Error)

/-- Apply one event: `originate` from nothing, `evolve` from a live entity. -/
def apply : Lifecycle Entity Event Error → Event → Lifecycle Entity Event Error
  | uninitialized, event =>
      match E.originate event with
      | none => failed (.eventCantOriginate event) none
      | some entity => live entity
  | live entity, event =>
      match E.evolve entity event with
      | .ok (some entity') => live entity'
      | .ok none => failed (.unexpectedEvent entity event) (some entity)
      | .error error => failed (.apply error) (some entity)
  | failed error last, event => failed (.alreadyFailed error event) last

theorem apply_uninitialized_eq_live {entity : Entity} {event : Event} :
    apply E uninitialized event = live entity ↔ E.originate event = some entity := by
  rw [apply]
  cases E.originate event <;> simp

theorem apply_live_eq_live {entity entity' : Entity} {event : Event} :
    apply E (live entity) event = live entity' ↔ E.evolve entity event = .ok (some entity') := by
  rw [apply]
  rcases E.evolve entity event with error | _ | next <;> simp

theorem apply_ne_uninitialized (l : Lifecycle Entity Event Error) (event : Event) :
    apply E l event ≠ uninitialized := by
  cases l with
  | uninitialized => rw [apply]; cases E.originate event <;> simp
  | live entity => rw [apply]; rcases E.evolve entity event with error | _ | next <;> simp
  | failed error last => simp [apply]

/-- Apply events in order. -/
def applyAll (l : Lifecycle Entity Event Error) (events : List Event) :
    Lifecycle Entity Event Error := events.foldl (apply E) l

/-- The fold of a stream. -/
def replay (events : List Event) : Lifecycle Entity Event Error :=
  applyAll E uninitialized events

@[simp] theorem applyAll_nil (l : Lifecycle Entity Event Error) : applyAll E l [] = l := rfl

@[simp] theorem applyAll_cons (l : Lifecycle Entity Event Error) (event : Event)
    (events : List Event) : applyAll E l (event :: events) = applyAll E (apply E l event) events :=
  rfl

theorem applyAll_append (l : Lifecycle Entity Event Error) (events events' : List Event) :
    applyAll E l (events ++ events') = applyAll E (applyAll E l events) events' :=
  List.foldl_append

@[simp] theorem replay_nil : replay E [] = uninitialized := rfl

theorem replay_append (events events' : List Event) :
    replay E (events ++ events') = applyAll E (replay E events) events' :=
  applyAll_append E _ _ _

theorem replay_concat (events : List Event) (event : Event) :
    replay E (events ++ [event]) = apply E (replay E events) event :=
  replay_append E _ _

/-- Replaying a prefix and then the rest is replaying the whole. -/
theorem applyAll_replay_take_drop (events : List Event) (k : ℕ) :
    applyAll E (replay E (events.take k)) (events.drop k) = replay E events := by
  rw [← replay_append, List.take_append_drop]

/-- A failed lifecycle stays failed. -/
theorem isFailed_applyAll {l : Lifecycle Entity Event Error} (h : l.isFailed)
    (events : List Event) : (applyAll E l events).isFailed := by
  induction events generalizing l with
  | nil => exact h
  | cons event events ih =>
      refine ih ?_
      cases l with
      | failed error last => rfl
      | uninitialized => simp [isFailed] at h
      | live entity => simp [isFailed] at h

/-- A prefix of a stream that does not fold to a failure does not either. -/
theorem not_isFailed_of_append {l : Lifecycle Entity Event Error} {events : List Event}
    (events' : List Event) (h : (applyAll E l (events ++ events')).isFailed = false) :
    (applyAll E l events).isFailed = false := by
  by_contra hf
  rw [Bool.not_eq_false] at hf
  rw [applyAll_append, isFailed_applyAll E hf] at h
  cases h

end Lifecycle

/-! ## Running a command -/

/-- The jobs a running command has dispatched; `none` outside a command's scope. -/
abbrev PendingScope := Option (List PendingPush)

section Handle

variable {Entity Event Command Error : Type} (E : EventSourced Entity Event Command Error)

/-- Push a dispatched job onto the active scope. -/
def buffer (push : PendingPush) :
    PendingScope → Except (LifecycleError Entity Event Error) PendingScope
  | none => .error .dispatchNotBuffered
  | some pending => .ok (some (pending ++ [push]))

namespace Lifecycle

/-- Route a command to `initialize` or `transition`; a failed lifecycle refuses it. -/
def decision (self : Lifecycle Entity Event Error) (command : Command) (mint : JobId) :
    Except (LifecycleError Entity Event Error) (Effect Event) :=
  match self with
  | uninitialized => (E.initializeWith command mint).mapError .apply
  | live entity => (E.transition entity command mint).mapError .apply
  | failed error _ => .error error

/-- The scratch copy that checks a command's own events: the first one it cannot apply is the
command's error. -/
def writeAll (scratch : Lifecycle Entity Event Error) :
    List Event → Except (LifecycleError Entity Event Error) Unit
  | [] => .ok ()
  | event :: events =>
      match apply E scratch event with
      | failed error _ => .error error
      | scratch' => writeAll scratch' events

/-- Run a command against the loaded aggregate: the events to commit or an error, and the scope
afterwards. -/
def handle (self : Lifecycle Entity Event Error) (command : Command) (mint : JobId)
    (scope : PendingScope) :
    Except (LifecycleError Entity Event Error) (List Event) × PendingScope :=
  match self.decision E command mint with
  | .error error => (.error error, scope)
  | .ok (.events events) => ((self.writeAll E events).map fun _ => events, scope)
  | .ok (.dispatch event pending) =>
      match buffer pending scope with
      | .error error => (.error error, scope)
      | .ok scope' => ((self.writeAll E [event]).map fun _ => [event], scope')

theorem writeAll_eq_ok {scratch : Lifecycle Entity Event Error} {events : List Event}
    (hs : scratch.isFailed = false) :
    scratch.writeAll E events = .ok () ↔ (applyAll E scratch events).isFailed = false := by
  induction events generalizing scratch with
  | nil => simpa [writeAll] using hs
  | cons event events ih =>
      rw [applyAll_cons, writeAll]
      cases h : apply E scratch event with
      | failed error last =>
          simp only [reduceCtorEq, false_iff, Bool.not_eq_false]
          exact isFailed_applyAll E rfl _
      | uninitialized => exact ih rfl
      | live entity => exact ih rfl

/-- A command that a live or uninitialized aggregate accepts leaves it able to apply its events. -/
theorem applyAll_of_handle_eq_ok {self : Lifecycle Entity Event Error} {command : Command}
    {mint : JobId} {scope : PendingScope} {events : List Event}
    (hs : self.isFailed = false) (h : (self.handle E command mint scope).1 = .ok events) :
    (applyAll E self events).isFailed = false := by
  rw [← writeAll_eq_ok E hs]
  unfold handle at h
  split at h
  · cases h
  next es _ =>
    cases hw : self.writeAll E es <;> simp_all [Except.map]
  next event pending _ =>
    cases scope with
    | none => cases h
    | some pushes => cases hw : self.writeAll E [event] <;> simp_all [Except.map, buffer]

end Lifecycle

end Handle

/-! ## Serialization of the aggregate

Externally tagged, as the derived serializers write it. -/

section Serialization

variable {Entity Event Command Error : Type} (E : EventSourced Entity Event Command Error)

def LifecycleError.toJson : LifecycleError Entity Event Error → Json
  | .eventCantOriginate event =>
      .tagged "EventCantOriginate" (.obj [("event", E.eventCodec.encode event)])
  | .unexpectedEvent entity event =>
      .tagged "UnexpectedEvent"
        (.obj [("entity", E.encodeEntity entity), ("event", E.eventCodec.encode event)])
  | .alreadyFailed failure event =>
      .tagged "AlreadyFailed"
        (.obj [("failure", failure.toJson), ("event", E.eventCodec.encode event)])
  | .apply error => .tagged "Apply" (E.encodeError error)
  | .dispatchNotBuffered => .tagged "DispatchNotBuffered" .null

/-- The fuel bounds how often an `AlreadyFailed` wraps another error. -/
def LifecycleError.ofJson : ℕ → Json → Option (LifecycleError Entity Event Error)
  | 0, _ => none
  | fuel + 1, .obj [(tag, c)] =>
      if tag = "EventCantOriginate" then do
        some (.eventCantOriginate (← (c.field? "event").bind E.eventCodec.decode))
      else if tag = "UnexpectedEvent" then do
        some (.unexpectedEvent (← (c.field? "entity").bind E.decodeEntity)
          (← (c.field? "event").bind E.eventCodec.decode))
      else if tag = "AlreadyFailed" then do
        some (.alreadyFailed (← (c.field? "failure").bind (LifecycleError.ofJson fuel))
          (← (c.field? "event").bind E.eventCodec.decode))
      else if tag = "Apply" then (E.decodeError c).map .apply
      else if tag = "DispatchNotBuffered" then some .dispatchNotBuffered
      else none
  | _ + 1, _ => none

namespace Lifecycle

def toJson : Lifecycle Entity Event Error → Json
  | uninitialized => .str "Uninitialized"
  | live entity => .tagged "Live" (E.encodeEntity entity)
  | failed error last =>
      .tagged "Failed" (.obj [("error", error.toJson E),
        ("last_valid_entity", match last with | none => .null | some e => E.encodeEntity e)])

def ofJson : Json → Option (Lifecycle Entity Event Error)
  | .str s => if s = "Uninitialized" then some uninitialized else none
  | .obj [(tag, c)] =>
      if tag = "Live" then (E.decodeEntity c).map live
      else if tag = "Failed" then do
        let error ← (c.field? "error").bind fun j => LifecycleError.ofJson E j.depth j
        match c.field? "last_valid_entity" with
        | none | some .null => some (failed error none)
        | some j => (E.decodeEntity j).map fun e => failed error (some e)
      else none
  | _ => none

@[simp] theorem ofJson_toJson_uninitialized :
    ofJson E (toJson E uninitialized) = some uninitialized := by
  simp [ofJson, toJson]

@[simp] theorem ofJson_toJson_live (entity : Entity) :
    ofJson E (toJson E (live entity)) = (E.decodeEntity (E.encodeEntity entity)).map live := by
  simp [ofJson, toJson, Json.tagged]

/-- A stored aggregate that is not failed decodes, if it decodes, to itself. -/
theorem ofJson_toJson_eq {l l' : Lifecycle Entity Event Error} (hl : l.isFailed = false)
    (h : ofJson E (toJson E l) = some l') : l' = l := by
  cases l with
  | uninitialized => simpa [eq_comm] using h
  | live entity =>
      rw [ofJson_toJson_live, Option.map_eq_some_iff] at h
      obtain ⟨e, he, rfl⟩ := h
      rw [E.decodeEntity_encodeEntity _ _ he]
  | failed error last => cases hl

end Lifecycle

/-- The entity's and its error's codecs read back what they wrote, and an entity is never written as
`null`, which an optional entity is read from as absent. -/
structure EventSourced.Serde : Prop where
  entity : ∀ entity, E.decodeEntity (E.encodeEntity entity) = some entity
  error : ∀ error, E.decodeError (E.encodeError error) = some error
  not_null : ∀ entity, E.encodeEntity entity ≠ .null

variable {E}

theorem LifecycleError.ofJson_toJson (h : E.Serde) (error : LifecycleError Entity Event Error)
    {fuel : ℕ} (hfuel : (error.toJson E).depth ≤ fuel) :
    LifecycleError.ofJson E fuel (error.toJson E) = some error := by
  induction error generalizing fuel with
  | alreadyFailed failure event ih =>
      obtain _ | fuel := fuel
      · simp [toJson, Json.tagged, Json.depth] at hfuel
      · have hle : (failure.toJson E).depth ≤ fuel := by
          simp only [toJson, Json.tagged, Json.depth, Json.depthMembers] at hfuel
          omega
        simp [toJson, ofJson, Json.tagged, ih hle]
  | _ =>
      obtain _ | fuel := fuel
      · simp [toJson, Json.tagged, Json.depth] at hfuel
      · simp [toJson, ofJson, Json.tagged, h.entity, h.error]

/-- A stored aggregate decodes to itself, failed or not. -/
theorem Lifecycle.ofJson_toJson (h : E.Serde) (l : Lifecycle Entity Event Error) :
    Lifecycle.ofJson E (l.toJson E) = some l := by
  cases l with
  | uninitialized => exact ofJson_toJson_uninitialized E
  | live entity => rw [ofJson_toJson_live, h.entity]; rfl
  | failed error last =>
      have herror := LifecycleError.ofJson_toJson h error le_rfl
      cases last with
      | none => simp [toJson, ofJson, Json.tagged, herror]
      | some entity =>
          have hnull := h.not_null entity
          simp only [toJson, ofJson, Json.tagged, Json.field?_cons, herror, Option.bind_some,
            Option.bind_eq_bind, if_true, if_false, String.reduceEq]
          rw [h.entity]
          rfl

end Serialization

end EventSorcery
