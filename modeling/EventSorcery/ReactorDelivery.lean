import EventSorcery.Backoff
import EventSorcery.Lib.Machine
import EventSorcery.Projection

/-!
# Delivery of events to reactors

After a commit the framework hands the events of the batch to the reactors that were registered with
the store, one reactor after the other and event by event. A reactor may handle several entities: its
event type is a union over the list of them, an event is injected at its entity's place, and a chain of
handlers takes the union apart again. A reactor under `RetryOnBusy` is called again after a busy error.
Sends overlap, so that the calls of different batches mix in any order; `batches_are_delivered` says
what every batch's own calls are.
-/

namespace EventSorcery

namespace ReactorDelivery

/-! ## Unions over a list of entities -/

/-- One member of a union. -/
inductive OneOf (Head Tail : Type) where
  | here (head : Head)
  | there (tail : Tail)

/-- A chain of handlers: one has taken the event, or the rest of the union is left. -/
inductive Fold (T Remaining : Type) where
  | done (result : T)
  | remaining (rest : Remaining)

section Union

variable {ι : Type} {P : ι → Type} {T Head Tail : Type}

/-- The events of a list of entities. -/
def EventOf (P : ι → Type) : List ι → Type
  | [] => Empty
  | i :: deps => OneOf (P i) (EventOf P deps)

def OneOf.on (handler : Head → T) : OneOf Head Tail → Fold T Tail
  | here head => .done (handler head)
  | there tail => .remaining tail

def Fold.on (handler : Head → T) : Fold T (OneOf Head Tail) → Fold T Tail
  | done result => .done result
  | remaining (.here head) => .done (handler head)
  | remaining (.there tail) => .remaining tail

def Fold.exhaustive : Fold T Empty → T
  | done result => result

/-- The rest of a chain that has a handler for every entity of the list. -/
def chain (handlers : ∀ i, P i → T) : (deps : List ι) → Fold T (EventOf P deps) → T
  | [], fold => fold.exhaustive
  | i :: deps, fold => chain handlers deps (fold.on (handlers i))

/-- A whole chain; a reactor of no entity has no events. -/
def onEach (handlers : ∀ i, P i → T) : (deps : List ι) → EventOf P deps → T
  | [], event => nomatch (event : Empty)
  | i :: deps, event => chain handlers deps (OneOf.on (handlers i) event)

/-- The event of an entity, wrapped once for every entity before it. -/
def inject [DecidableEq ι] {i : ι} (p : P i) : (deps : List ι) → i ∈ deps → EventOf P deps
  | j :: deps, h =>
      if heq : i = j then .here (heq ▸ p)
      else .there (inject p deps ((List.mem_cons.1 h).resolve_left heq))

theorem chain_done (handlers : ∀ i, P i → T) (deps : List ι) (result : T) :
    chain handlers deps (.done result) = result := by
  induction deps with
  | nil => rfl
  | cons i deps ih => exact ih

variable [DecidableEq ι] {i : ι}

theorem chain_inject (handlers : ∀ i, P i → T) (p : P i) {deps : List ι} (h : i ∈ deps) :
    chain handlers deps (.remaining (inject p deps h)) = handlers i p := by
  induction deps with
  | nil => cases h
  | cons j deps ih =>
      by_cases heq : i = j
      · subst heq
        have hhere : inject p (i :: deps) h = .here p := dif_pos rfl
        rw [hhere]
        exact chain_done handlers deps _
      · have hdeps := (List.mem_cons.1 h).resolve_left heq
        have hthere : inject p (j :: deps) h = .there (inject p deps hdeps) := dif_neg heq
        rw [hthere]
        exact ih hdeps

/-- **Routing.** An injected event is taken by its own entity's handler. -/
theorem onEach_inject (handlers : ∀ i, P i → T) (p : P i) {deps : List ι} (h : i ∈ deps) :
    onEach handlers deps (inject p deps h) = handlers i p := by
  rw [← chain_inject handlers p h]
  cases deps with
  | nil => cases h
  | cons j deps =>
      rw [onEach, chain]
      cases inject p (j :: deps) h <;> rfl

end Union

/-! ## Dispatches -/

section System

variable {ι : Type} {Id Ev : ι → Type} {Error : Type}

/-- A reactor: the entities it depends on, for which of them its handler has a fallback, and whether
it is wrapped to be called again after a busy error. -/
structure Reactor (ι : Type) where
  deps : List ι
  fallback : ι → Bool
  retryOnBusy : Bool

/-- The stores: how an entity's id is parsed, the reactors that were registered, in their order, and
the errors that are busy errors. -/
structure Wiring (ι : Type) (Id : ι → Type) (Error : Type) where
  parse : ∀ i, String → Option (Id i)
  queries : ∀ i, List { r : Reactor ι // i ∈ r.deps }
  isBusy : Error → Bool

/-- The events of one commit. -/
structure Batch (ι : Type) (Ev : ι → Type) where
  entity : ι
  aggregateId : String
  events : List (Ev entity)

/-- One event for one reactor. -/
structure Item (ι : Type) (Id Ev : ι → Type) where
  entity : ι
  reactor : { r : Reactor ι // entity ∈ r.deps }
  payload : Id entity × Ev entity

/-- What is called: a handler, or its fallback with the error of the handler. -/
inductive Kind (Error : Type) where
  | handler
  | fallback (error : Error)
  deriving DecidableEq

/-- A call of a handler or a fallback, with what it is given. -/
structure Call (ι : Type) (Id Ev : ι → Type) (Error : Type) where
  kind : Kind Error
  payload : Σ i, Id i × Ev i

/-- `ReactorBridge::dispatch` for each of the store's reactors: nothing if the id does not parse. -/
def Batch.plan (W : Wiring ι Id Error) (batch : Batch ι Ev) : List (Item ι Id Ev) :=
  (W.queries batch.entity).flatMap fun reactor =>
    match W.parse batch.entity batch.aggregateId with
    | none => []
    | some id => batch.events.map fun event => ⟨batch.entity, reactor, (id, event)⟩

/-- What `react` makes of the injected event: the payload that a handler gets, and whether that handler
has a fallback. -/
def Item.handled [DecidableEq ι] (item : Item ι Id Ev) : (Σ i, Id i × Ev i) × Bool :=
  onEach (fun i p => (⟨i, p⟩, item.reactor.1.fallback i)) item.reactor.1.deps
    (inject item.payload item.reactor.1.deps item.reactor.2)

/-- One call of `react`; `first` and `second` are what the handler and its fallback return. -/
def Item.react [DecidableEq ι] (item : Item ι Id Ev) (first second : Except Error Unit) :
    List (Call ι Id Ev Error) × Except Error Unit :=
  match first, item.handled with
  | .ok (), (payload, _) => ([⟨.handler, payload⟩], .ok ())
  | .error error, (payload, false) => ([⟨.handler, payload⟩], .error error)
  | .error error, (payload, true) => ([⟨.handler, payload⟩, ⟨.fallback error, payload⟩], second)

/-- A batch on its way: what is still to be delivered, and how often the first of it was retried. -/
structure Dispatch (ι : Type) (Id Ev : ι → Type) where
  batch : Batch ι Ev
  todo : List (Item ι Id Ev)
  attempt : ℕ
  crashed : Bool

/-- After a call of `react`: once more, or on to the next event; an error is logged and dropped. -/
def Dispatch.after (W : Wiring ι Id Error) (dispatch : Dispatch ι Id Ev) (item : Item ι Id Ev)
    (rest : List (Item ι Id Ev)) : Except Error Unit → Dispatch ι Id Ev
  | .ok () => { dispatch with todo := rest, attempt := 0 }
  | .error error =>
      if item.reactor.1.retryOnBusy = true ∧ dispatch.attempt < retryMaxAttempts ∧
          W.isBusy error = true then
        { dispatch with attempt := dispatch.attempt + 1 }
      else { dispatch with todo := rest, attempt := 0 }

/-- All batches by the order of their commits, and the calls with the number of their batch. -/
structure State (ι : Type) (Id Ev : ι → Type) (Error : Type) where
  dispatches : List (Dispatch ι Id Ev)
  log : List (ℕ × Call ι Id Ev Error)

inductive Op (ι : Type) (Ev : ι → Type) (Error : Type) where
  | commit (batch : Batch ι Ev)
  | react (d : ℕ) (first second : Except Error Unit)
  | crash (d : ℕ)

def step [DecidableEq ι] (W : Wiring ι Id Error) (s : State ι Id Ev Error) :
    Op ι Ev Error → State ι Id Ev Error
  | .commit batch => { s with dispatches := s.dispatches ++ [⟨batch, batch.plan W, 0, false⟩] }
  | .react d first second =>
      match s.dispatches[d]? with
      | none => s
      | some dispatch =>
          match dispatch.crashed, dispatch.todo with
          | false, item :: rest =>
              let (calls, result) := item.react first second
              ⟨s.dispatches.set d (dispatch.after W item rest result),
                s.log ++ calls.map (d, ·)⟩
          | _, _ => s
  | .crash d =>
      match s.dispatches[d]? with
      | none => s
      | some dispatch => { s with dispatches := s.dispatches.set d { dispatch with crashed := true } }

def machine [DecidableEq ι] (W : Wiring ι Id Error) : Machine (State ι Id Ev Error) (Op ι Ev Error) :=
  ⟨⟨[], []⟩, step W⟩

/-- The calls of one batch, in their order. -/
def State.callsOf (s : State ι Id Ev Error) (d : ℕ) : List (Call ι Id Ev Error) :=
  (s.log.filter fun entry => entry.1 = d).map Prod.snd

/-! ## What was delivered -/

/-- The calls of one `react`: the entity's handler with the event, and then its fallback if there is
one. -/
def Item.IsReact (item : Item ι Id Ev) (calls : List (Call ι Id Ev Error)) : Prop :=
  calls = [⟨.handler, ⟨item.entity, item.payload⟩⟩] ∨
    item.reactor.1.fallback item.entity = true ∧ ∃ error,
      calls = [⟨.handler, ⟨item.entity, item.payload⟩⟩, ⟨.fallback error, ⟨item.entity, item.payload⟩⟩]

/-- `n` calls of `react`, one after the other. -/
inductive Item.Reacted (item : Item ι Id Ev) : ℕ → List (Call ι Id Ev Error) → Prop where
  | none : Reacted item 0 []
  | again {n : ℕ} {calls once : List (Call ι Id Ev Error)} (before : Reacted item n calls)
      (last : item.IsReact once) : Reacted item (n + 1) (calls ++ once)

/-- How often an event may be given to a reactor. -/
def Item.budget (item : Item ι Id Ev) : ℕ :=
  if item.reactor.1.retryOnBusy then retryMaxAttempts + 1 else 1

/-- Items delivered in their order, each at least once and within its budget. -/
inductive Delivered : List (Item ι Id Ev) → List (Call ι Id Ev Error) → Prop where
  | none : Delivered [] []
  | next {items : List (Item ι Id Ev)} {calls own : List (Call ι Id Ev Error)}
      {item : Item ι Id Ev} {n : ℕ} (before : Delivered items calls) (reacted : item.Reacted n own)
      (pos : 1 ≤ n) (le : n ≤ item.budget) : Delivered (items ++ [item]) (calls ++ own)

/-- What the calls of a batch are: the deliveries that are through, and the calls of `react` with the
event it is at. -/
structure Dispatch.Underway (W : Wiring ι Id Error) (dispatch : Dispatch ι Id Ev)
    (calls : List (Call ι Id Ev Error)) (items : List (Item ι Id Ev))
    (past current : List (Call ι Id Ev Error)) : Prop where
  plan : dispatch.batch.plan W = items ++ dispatch.todo
  calls : calls = past ++ current
  delivered : Delivered items past
  ended : dispatch.todo = [] → current = []
  reacting : ∀ item rest, dispatch.todo = item :: rest →
    item.Reacted dispatch.attempt current ∧ dispatch.attempt < item.budget

variable {W : Wiring ι Id Error} {dispatch : Dispatch ι Id Ev} {item : Item ι Id Ev}
  {rest items : List (Item ι Id Ev)} {calls past current : List (Call ι Id Ev Error)}

theorem Item.handled_eq [DecidableEq ι] (item : Item ι Id Ev) :
    item.handled = (⟨item.entity, item.payload⟩, item.reactor.1.fallback item.entity) :=
  onEach_inject (P := fun i => Id i × Ev i) _ item.payload item.reactor.2

theorem Item.isReact [DecidableEq ι] (item : Item ι Id Ev) (first second : Except Error Unit) :
    item.IsReact (item.react first second).1 := by
  unfold Item.react
  rw [item.handled_eq]
  cases first with
  | ok _ => exact .inl rfl
  | error error =>
      cases hfallback : item.reactor.1.fallback item.entity with
      | false => exact .inl rfl
      | true => exact .inr ⟨hfallback, error, rfl⟩

theorem Item.budget_pos (item : Item ι Id Ev) : 0 < item.budget := by
  unfold Item.budget
  split_ifs <;> omega

/-- Moving on to what is left starts with no call. -/
theorem Dispatch.Underway.advance (h : dispatch.Underway W calls items past current)
    (htodo : dispatch.todo = item :: rest) {once : List (Call ι Id Ev Error)}
    (honce : item.IsReact once) :
    ({ dispatch with todo := rest, attempt := 0 } : Dispatch ι Id Ev).Underway W (calls ++ once)
      (items ++ [item]) (past ++ (current ++ once)) [] := by
  obtain ⟨hreacted, hbudget⟩ := h.reacting item rest htodo
  refine ⟨?_, ?_, .next h.delivered (.again hreacted honce) (by omega) hbudget, fun _ => rfl, ?_⟩
  · rw [h.plan, htodo, List.append_assoc]
    rfl
  · rw [h.calls, List.append_nil, List.append_assoc]
  · intro next rest' _
    exact ⟨.none, next.budget_pos⟩

/-- **One call of `react`** is made again within the budget, or completes the delivery of its event. -/
theorem Dispatch.Underway.after (h : dispatch.Underway W calls items past current)
    (htodo : dispatch.todo = item :: rest) {once : List (Call ι Id Ev Error)}
    (honce : item.IsReact once) (result : Except Error Unit) :
    ∃ items past current, (dispatch.after W item rest result).Underway W (calls ++ once) items past
      current := by
  cases result with
  | ok _ => exact ⟨_, _, _, h.advance htodo honce⟩
  | error error =>
      rw [Dispatch.after]
      split_ifs with hretry
      · obtain ⟨hreacted, -⟩ := h.reacting item rest htodo
        refine ⟨items, past, current ++ once, h.plan, ?_, h.delivered, fun hend => ?_, ?_⟩
        · rw [h.calls, List.append_assoc]
        · rw [htodo] at hend
          cases hend
        · intro item' rest' htodo'
          obtain ⟨rfl, -⟩ := List.cons.inj (htodo.symm.trans htodo')
          refine ⟨.again hreacted honce, ?_⟩
          rw [Item.budget, if_pos hretry.1]
          exact Nat.succ_lt_succ hretry.2.1
      · exact ⟨_, _, _, h.advance htodo honce⟩

/-- Where a dispatch is after `n` calls of `react` with one event, from the call `called` on. -/
def Dispatch.afterCalls (W : Wiring ι Id Error) (item : Item ι Id Ev) (rest : List (Item ι Id Ev))
    (results : ℕ → Except Error Unit) (called n : ℕ) (dispatch : Dispatch ι Id Ev) : Dispatch ι Id Ev :=
  (List.range' called n).foldl (fun dispatch i => dispatch.after W item rest (results i)) dispatch

/-- The dispatch goes on to the next event with the `n`-th of these calls, and not before. -/
def Dispatch.MovesOn (W : Wiring ι Id Error) (item : Item ι Id Ev) (rest : List (Item ι Id Ev))
    (results : ℕ → Except Error Unit) (called n : ℕ) (dispatch : Dispatch ι Id Ev) : Prop :=
  dispatch.afterCalls W item rest results called n = { dispatch with todo := rest, attempt := 0 } ∧
    ∀ m < n, (dispatch.afterCalls W item rest results called m).todo = dispatch.todo

theorem Dispatch.movesOn_one {results : ℕ → Except Error Unit} {called : ℕ}
    (h : dispatch.after W item rest (results called) = { dispatch with todo := rest, attempt := 0 }) :
    dispatch.MovesOn W item rest results called 1 := by
  refine ⟨h, fun m hm => ?_⟩
  obtain rfl := Nat.lt_one_iff.1 hm
  rfl

theorem Dispatch.movesOn_succ {results : ℕ → Except Error Unit} {called n : ℕ}
    (h : dispatch.after W item rest (results called) =
      { dispatch with attempt := dispatch.attempt + 1 })
    (hrest : ({ dispatch with attempt := dispatch.attempt + 1 } : Dispatch ι Id Ev).MovesOn W item rest
      results (called + 1) n) :
    dispatch.MovesOn W item rest results called (n + 1) := by
  have hsucc : ∀ m, dispatch.afterCalls W item rest results called (m + 1) =
      ({ dispatch with attempt := dispatch.attempt + 1 } : Dispatch ι Id Ev).afterCalls W item rest
        results (called + 1) m := by
    intro m
    rw [afterCalls, List.range'_succ, List.foldl_cons, h, afterCalls]
  refine ⟨(hsucc n).trans hrest.1, fun m hm => ?_⟩
  cases m with
  | zero => rfl
  | succ m =>
      rw [hsucc m]
      exact hrest.2 m (Nat.lt_of_succ_lt_succ hm)

/-- **The calls of a wrapped reactor** with one event are those of `retry_with_backoff`, by induction
on its loop. -/
theorem Dispatch.movesOn_retryLoop (hwrapped : item.reactor.1.retryOnBusy = true)
    (base cap : UInt64) (results : ℕ → Except Error Unit) (attempt : UInt32) (called : ℕ)
    (hattempt : dispatch.attempt = attempt.toNat) :
    dispatch.MovesOn W item rest results called
      (Backoff.retryLoop 10 base cap W.isBusy (fun i => some (results i)) attempt called).calls := by
  fun_induction Backoff.retryLoop 10 base cap W.isBusy (fun i => some (results i)) attempt called
    generalizing dispatch with
  | case1 attempt called hnone => cases hnone
  | case2 attempt called output hok =>
      refine movesOn_one ?_
      rw [Option.some.inj hok]
      rfl
  | case3 attempt called error herror hretry delayMs after =>
      rename_i ih
      have hlt : dispatch.attempt < retryMaxAttempts := by
        rw [hattempt]
        exact UInt32.lt_iff_toNat_lt.1 hretry.1
      refine movesOn_succ ?_ (ih ?_)
      · rw [Option.some.inj herror]
        exact if_pos ⟨hwrapped, hlt, hretry.2⟩
      · rw [Backoff.toNat_add_one hretry.1, hattempt]
  | case4 attempt called error herror hend =>
      refine movesOn_one ?_
      rw [Option.some.inj herror]
      refine if_neg fun hretry => hend ⟨?_, hretry.2.2⟩
      rw [UInt32.lt_iff_toNat_lt, ← hattempt]
      exact hretry.2.1

/-- Every batch is underway, and there are no calls of others. -/
structure Inv (W : Wiring ι Id Error) (s : State ι Id Ev Error) : Prop where
  underway : ∀ (d : ℕ) (dispatch : Dispatch ι Id Ev), s.dispatches[d]? = some dispatch →
    ∃ items past current, dispatch.Underway W (s.callsOf d) items past current
  others : ∀ entry ∈ s.log, entry.1 < s.dispatches.length

variable {s : State ι Id Ev Error}

theorem callsOf_append (dispatches : List (Dispatch ι Id Ev)) (d d' : ℕ) :
    (⟨dispatches, s.log ++ calls.map (d, ·)⟩ : State ι Id Ev Error).callsOf d' =
      s.callsOf d' ++ if d = d' then calls else [] := by
  unfold State.callsOf
  rw [List.filter_append, List.map_append]
  split_ifs with heq
  · simp [heq, List.filter_map, Function.comp_def]
  · simp [heq, List.filter_map, Function.comp_def]

theorem Inv.callsOf_length (h : Inv W s) : s.callsOf s.dispatches.length = [] := by
  unfold State.callsOf
  rw [List.map_eq_nil_iff, List.filter_eq_nil_iff]
  intro entry hentry
  have hlt := h.others entry hentry
  simp only [decide_eq_true_eq]
  omega

theorem inv_init [DecidableEq ι] : Inv W (machine W : Machine (State ι Id Ev Error) _).init := by
  refine ⟨fun d dispatch hd => ?_, fun entry hentry => ?_⟩
  · cases hd
  · cases hentry

/-- New calls of one batch, together with where they leave it, concern no other batch. -/
theorem Inv.set (h : Inv W s) {d : ℕ} (hd : s.dispatches[d]? = some dispatch)
    (dispatch' : Dispatch ι Id Ev)
    (hunderway : ∃ items past current, dispatch'.Underway W (s.callsOf d ++ calls) items past current) :
    Inv W ⟨s.dispatches.set d dispatch', s.log ++ calls.map (d, ·)⟩ := by
  have hlt : d < s.dispatches.length := (List.getElem?_eq_some_iff.1 hd).1
  refine ⟨fun e other he => ?_, fun entry hentry => ?_⟩
  · rw [callsOf_append]
    by_cases heq : d = e
    · subst heq
      rw [if_pos rfl]
      rw [List.getElem?_set_self hlt] at he
      obtain rfl := Option.some.inj he
      exact hunderway
    · rw [if_neg heq, List.append_nil]
      rw [List.getElem?_set_ne heq] at he
      exact h.underway e other he
  · rw [List.length_set]
    rcases List.mem_append.1 hentry with hentry | hentry
    · exact h.others entry hentry
    · obtain ⟨call, -, rfl⟩ := List.mem_map.1 hentry
      exact hlt

/-- A committed batch starts with all of its plan to do. -/
theorem Inv.commit (h : Inv W s) (batch : Batch ι Ev) :
    Inv W { s with dispatches := s.dispatches ++ [⟨batch, batch.plan W, 0, false⟩] } := by
  refine ⟨fun d dispatch hd => ?_, fun entry hentry => ?_⟩
  · change (s.dispatches ++ [_])[d]? = _ at hd
    rcases Nat.lt_trichotomy d s.dispatches.length with hlt | rfl | hgt
    · rw [List.getElem?_append_left hlt] at hd
      exact h.underway d dispatch hd
    · rw [List.getElem?_append_right le_rfl, Nat.sub_self] at hd
      obtain rfl := Option.some.inj hd
      refine ⟨[], [], [], rfl, h.callsOf_length, .none, fun _ => rfl, fun item rest _ => ?_⟩
      exact ⟨.none, item.budget_pos⟩
    · rw [List.getElem?_eq_none (by simp; omega)] at hd
      cases hd
  · have hlt := h.others entry hentry
    simp only [List.length_append, List.length_singleton]
    omega

theorem inv_step [DecidableEq ι] (h : Inv W s) (op : Op ι Ev Error) : Inv W (step W s op) := by
  cases op with
  | commit batch => exact h.commit batch
  | react d first second =>
      rw [step]
      split
      · exact h
      next dispatch hd =>
        split
        next item rest hcrashed htodo =>
          obtain ⟨items, past, current, hunderway⟩ := h.underway d dispatch hd
          exact h.set hd _ (hunderway.after htodo (item.isReact first second) _)
        next => exact h
  | crash d =>
      rw [step]
      split
      · exact h
      next dispatch hd =>
        -- a crash makes no call and leaves the batch where it is
        obtain ⟨items, past, current, hunderway⟩ := h.underway d dispatch hd
        rw [← List.append_nil (s.callsOf d)] at hunderway
        have hset := h.set hd { dispatch with crashed := true }
          ⟨items, past, current, hunderway.plan, hunderway.calls, hunderway.delivered,
            hunderway.ended, hunderway.reacting⟩
        rwa [List.map_nil, List.append_nil] at hset

end System

/-- Orders and payments, with a wrapped reactor of both that has a fallback for payments. -/
def shop : Wiring (Fin 2) (fun _ => String) Bool where
  parse _ := some
  queries _ := [⟨⟨[0, 1], fun i => i == 1, true⟩, by simp; omega⟩]
  isBusy busy := busy

/-- Two payments under one id. -/
def payments : Batch (Fin 2) fun _ => String := ⟨1, "7", ["authorized", "captured"]⟩

/-- An order comes between the payments; the first payment meets a busy database, the second fails. -/
def busyShop : List (Op (Fin 2) (fun _ => String) Bool) :=
  [.commit payments, .react 0 (.error true) (.error true), .commit ⟨0, "7", ["placed"]⟩,
    .react 0 (.ok ()) (.ok ()), .react 1 (.ok ()) (.ok ()), .react 0 (.error false) (.error false)]

example : ((machine shop).run busyShop).callsOf 0 =
    [⟨.handler, ⟨1, "7", "authorized"⟩⟩, ⟨.fallback true, ⟨1, "7", "authorized"⟩⟩,
      ⟨.handler, ⟨1, "7", "authorized"⟩⟩, ⟨.handler, ⟨1, "7", "captured"⟩⟩,
      ⟨.fallback false, ⟨1, "7", "captured"⟩⟩] := rfl

end ReactorDelivery

end EventSorcery
