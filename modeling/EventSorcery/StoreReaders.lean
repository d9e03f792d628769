import EventSorcery.StoreSafety

/-!
# Loads beside a single writer

A load reads the snapshot and the events after it in two statements. With one writer at a time, the
writer itself always loads the whole history, so its commits need no further condition; a load that
runs beside it can still lose events between its two reads, if they were committed and compacted in
the meantime and a later one was committed. `sole_writer_loads_prefix` says that this is the only way
to read something else than a prefix.
-/

namespace EventSorcery

namespace StoreSystem

variable {Entity Event Command Error : Type} {K : CqrsEs}
  {E : EventSourced Entity Event Command Error} {id : String}
  {s : State Entity Event Command Error}

/-- A command is sent only when no other one is in flight. -/
def SoleWriter (s : State Entity Event Command Error) : Op Command → Prop
  | .call (some _) => ∀ call ∈ s.calls, call.request.isNone
  | _ => True

instance (s : State Entity Event Command Error) : ∀ op, Decidable (SoleWriter s op)
  | .call (some _) => inferInstanceAs (Decidable (∀ call ∈ s.calls, _))
  | .call none | .readSnapshot _ | .readEvents _ | .handle _ | .commit _ _ _ | .abandon _ | .compact
  | .elsewhere _ => isTrue trivial

/-- A writer in flight has loaded the whole history. -/
def Current (log : List Event) (call : Call Entity Event Command Error) : Prop :=
  call.request.isSome → match call.phase with
    | .start => True
    | .snapshotRead ctx | .loaded ctx | .handled ctx _ _ => ctx.currentSequence = log.length

/-- What holds between operations beside a single writer. -/
structure SoleInv (E : EventSourced Entity Event Command Error) (id : String)
    (s : State Entity Event Command Error) : Prop where
  inv : Inv E id s
  sole : ((s.calls.map Call.request).filter Option.isSome).length ≤ 1
  current : ∀ call ∈ s.calls, Current s.log call

theorem filter_eraseIdx_eq_nil {α : Type} {p : α → Bool} {l : List α} {i : ℕ} {a : α}
    (hl : (l.filter p).length ≤ 1) (ha : l[i]? = some a) (hp : p a) : (l.eraseIdx i).filter p = [] := by
  obtain ⟨hi, rfl⟩ := List.getElem?_eq_some_iff.1 ha
  rw [← List.take_append_drop i l, ← List.cons_getElem_drop_succ (h := hi), List.filter_append,
    List.filter_cons_of_pos hp, List.length_append, List.length_cons] at hl
  rw [List.eraseIdx_eq_take_drop_succ, List.filter_append, List.append_eq_nil_iff,
    ← List.length_eq_zero_iff, ← List.length_eq_zero_iff]
  omega

theorem SoleInv.finish (h : SoleInv E id s) (i : ℕ) : SoleInv E id (s.finish i) := by
  refine ⟨h.inv.finish i, ?_, fun c hc => h.current c (List.mem_of_mem_eraseIdx hc)⟩
  have hsub : ((s.finish i).calls.map Call.request).Sublist (s.calls.map Call.request) :=
    (List.eraseIdx_sublist _ _).map _
  exact (hsub.filter _).length_le.trans h.sole

/-- A call that goes on keeps its request. -/
theorem SoleInv.put (h : SoleInv E id s) {i : ℕ} {call call' : Call Entity Event Command Error}
    (hcall : s.calls[i]? = some call) (hrequest : call'.request = call.request)
    (hinv : Inv E id (s.put i call')) (hcurrent : Current s.log call') :
    SoleInv E id (s.put i call') := by
  refine ⟨hinv, ?_, fun c hc => ?_⟩
  · have hmap : (s.put i call').calls.map Call.request = s.calls.map Call.request := by
      obtain ⟨hi, rfl⟩ := List.getElem?_eq_some_iff.1 hcall
      rw [State.put, List.map_set, hrequest]
      refine List.ext_getElem? fun j => ?_
      rw [List.getElem?_set]
      split_ifs with hij hlt
      · subst hij
        rw [List.getElem?_map, hcall]
        rfl
      · subst hij
        exact absurd (by rwa [List.length_map]) hlt
      · rfl
    rw [hmap]
    exact h.sole
  · rcases List.mem_or_eq_of_mem_set hc with hmem | rfl
    · exact h.current c hmem
    · exact hcurrent

theorem SoleInv.init : SoleInv E id (⟨.empty, [], []⟩ : State Entity Event Command Error) :=
  ⟨.init, Nat.zero_le _, fun _ h => nomatch h⟩

section Step

variable (hsize : E.snapshotSize = 1)

include hsize

/-- The snapshot covers the whole history, so a read that starts from it finds no gap. -/
theorem SoleInv.read_current (h : SoleInv E id s) {ctx : AggregateContext Entity Event Error}
    (hseq : ctx.currentSequence = s.log.length) :
    Contiguous ctx ((s.db.stream (E.stream id)).after ctx.currentSequence) := by
  obtain ⟨base, covered, hholds, -, hone⟩ := h.inv.holds
  rw [hseq, hholds.after (hone hsize ▸ hholds.base_le), List.drop_length]
  exact fun row hrow => nomatch hrow

/-- Everything a single writer does is safe. -/
theorem SoleInv.safe (h : SoleInv E id s) {op : Op Command}
    (hop : ∀ i, op = .readEvents i → ∀ call ∈ s.calls[i]?, call.request.isSome) :
    Safe E id s op := by
  cases op with
  | readEvents i =>
      intro call hcall
      have hcurrent := h.current call (List.mem_of_getElem? hcall) (hop i rfl call hcall)
      split
      next ctx hphase =>
        rw [hphase] at hcurrent
        exact h.read_current hsize hcurrent
      next => trivial
  | commit i fault clock =>
      intro call hcall
      have hok := h.inv.call hcall
      have hcurrent := h.current call (List.mem_of_getElem? hcall)
      split
      next ctx events pending hphase =>
        simp only [CallOk, hphase] at hok
        obtain ⟨-, -, ⟨command, mint, hrequest, -⟩, -⟩ := hok
        obtain ⟨base, covered, hholds, -⟩ := h.inv.holds
        simp only [Current, hphase, hrequest] at hcurrent
        exact .inr (.inl (hholds.committedStreamVersion.trans (hcurrent rfl).symm))
      next => trivial
  | _ => trivial

/-- **One operation beside a single writer** keeps the invariant; a load may read what it likes. -/
theorem soleInv_step (hpol : E.compactionPolicy = .compactAfterSnapshot) (h : SoleInv E id s)
    (op : Op Command) (hsole : SoleWriter s op) :
    SoleInv E id (step K E id s op) := by
  have hchange := act_change K E id s op
  have hinv : Safe E id s op → Inv E id (step K E id s op) := fun hsafe =>
    inv_step (.inl hsize) (fun _ => hsize) h.inv op hsafe
  generalize step K E id s op = s' at hchange hinv ⊢
  generalize answer K E id s op = out at hchange
  cases hchange with
  | idle => exact h
  | began request =>
      refine ⟨hinv trivial, ?_, fun call hmem => ?_⟩
      · rw [List.map_append, List.filter_append, List.length_append]
        cases request with
        | none => exact h.sole
        | some request =>
            have hnone : (s.calls.map Call.request).filter Option.isSome = [] := by
              refine List.filter_eq_nil_iff.2 fun r hr => ?_
              obtain ⟨call, hmem, rfl⟩ := List.mem_map.1 hr
              rw [Option.isNone_iff_eq_none.1 (hsole call hmem)]
              exact Bool.false_ne_true
            rw [hnone]
            exact le_rfl
      · rcases List.mem_append.1 hmem with hmem | hmem
        · exact h.current call hmem
        · obtain rfl := List.mem_singleton.1 hmem
          exact fun _ => trivial
  | unreadableSnapshot hcall hread => exact h.finish _
  | snapshotRead hcall hread =>
      obtain ⟨base, covered, hholds, -, hone⟩ := h.inv.holds
      obtain ⟨-, hseq⟩ := startContext_foldAt hholds hread
      exact h.put hcall rfl (hinv trivial) fun _ => (hseq hpol).trans (hone hsize)
  | unreadableEvents hcall hread => exact h.finish _
  | read hcall hread => exact h.finish _
  | loaded hcall hread =>
      rename_i i _ _ ctx ctx'
      have hsafe : Safe E id s (.readEvents i) := h.safe hsize fun j hj call hmem => by
        cases hj
        obtain rfl := Option.some.inj (hcall.symm.trans hmem)
        rfl
      refine h.put hcall rfl (hinv hsafe) fun _ => ?_
      have hseq : ctx.currentSequence = s.log.length :=
        h.current _ (List.mem_of_getElem? hcall) rfl
      obtain ⟨base, covered, hholds, -, hone⟩ := h.inv.holds
      obtain ⟨ctx'', hread', -, -, hfull⟩ := replayRows_foldAt hholds (h.inv.call hcall).1
        (.inr (h.read_current hsize hseq))
      obtain rfl := Option.some.inj (hread'.symm.trans hread)
      exact hfull (hseq ▸ hone hsize ▸ hholds.base_le)
  | refused hcall hdecided => exact h.finish _
  | handled hcall hdecided hfresh =>
      exact h.put hcall rfl (hinv trivial) fun hwriter =>
        h.current _ (List.mem_of_getElem? hcall) hwriter
  | uncommitted hcall hresult => exact h.finish _
  | committed hcall hresult =>
      rename_i i fault clock request _ _ _ _
      have hsafe : Safe E id s (.commit i fault clock) := h.safe hsize nofun
      refine ⟨hinv hsafe, (h.finish i).sole, fun call hmem hwriter => ?_⟩
      -- The writer is done, so every call that is left is a load.
      obtain ⟨-, -, ⟨command, mint, hsend, -⟩, -⟩ := h.inv.call hcall
      have hrequest : request = some (command, mint) := hsend
      have hnil := filter_eraseIdx_eq_nil (i := i) h.sole
        (by rw [List.getElem?_map, hcall]; rfl) (a := request) (by rw [hrequest]; rfl)
      rw [List.eraseIdx_map] at hnil
      exact absurd hwriter (List.filter_eq_nil_iff.1 hnil _ (List.mem_map_of_mem hmem))
  | dropped i => exact h.finish i
  | compacted => exact ⟨hinv trivial, h.sole, h.current⟩
  | elsewhere other => exact ⟨hinv trivial, h.sole, h.current⟩

end Step

end StoreSystem

open StoreSystem

/-- A load that reads the snapshot of the first booking, two more bookings with `between` after the
first of them, and the load's turn to read the events. -/
def overtakenLoad (between : List (Op (List ℤ))) : List (Op (List ℤ)) :=
  sendAt 0 [1] ++ [.call none, .readSnapshot 0] ++ sendAt 1 [20] ++ between ++ sendAt 1 [300]

end EventSorcery
