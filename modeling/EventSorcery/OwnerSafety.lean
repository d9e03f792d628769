import EventSorcery.OwnerSystem

/-!
# Memory safety of the store handles

Every interleaving of opens, calls and closes keeps the counts of the stores equal to the references
that are held, and every call returns. A step touches one store and the entry and the cell of its
owner, so `Inv.touch` leaves each step to speak about that store only.
-/

namespace EventSorcery.OwnerSystem

/-! ## The invariant -/

def isClosing : StoreState → Bool
  | .closing _ => true
  | _ => false

def isClosed : StoreState → Bool
  | .closed _ => true
  | _ => false

/-- What a thread knows of its store's state. -/
def Point.Expects : Point → StoreState → Prop
  | .publish, state => state = .opened 0
  | .join, state => state.isOpen = false
  | .take, state | .markClosed _, state => state = .closing 0
  | .retire outcome, state => state = .closed outcome
  | _, _ => True

/-- The reference of a thread is to the store it was taken to, in the state that the thread expects.
A store that is not published yet has no other reference. -/
structure Held (s : Shared) (handle : Handle) (point : Point) (store : OwnedStore) : Prop where
  get : s.heap.get handle.addr = some store
  owner : store.owner = handle.owner
  serial : store.serial = handle.serial
  state : point.Expects store.state
  alone : point = .publish → s.heap.strong handle.addr = 1

/-- What no call returns. -/
def Result.isImpossible : Result → Bool
  | .refused .storeIsClosing | .ownerMismatch | .faulted => true
  | _ => false

def Pc.Ok (s : Shared) : Pc → Prop
  | holding handle point => ∃ store, Held s handle point store
  | done result => result.isImpossible = false
  | _ => True

/-- The laws of the store at `a`. -/
structure StoreOk (s : Shared) (threads : List Pc) (a : ℕ) (store : OwnedStore) : Prop where
  leases : threads.countP (Pc.isAt Point.hasLease a) = store.state.active
  closers : threads.countP (Pc.isAt Point.isCloser a) = (isClosing store.state).toNat
  inner : store.state.isOpen = true → store.inner = true
  retirers : s.registry store.owner = some a → isClosed store.state = true →
    0 < threads.countP (Pc.isAt Point.isRetirer a)

structure Inv (s : Shared) (threads : List Pc) : Prop where
  balanced : s.heap.Balanced (references s threads)
  bounded : ∃ n, ∀ a, n ≤ a → s.heap.cells a = none
  entry : ∀ {owner a}, s.registry owner = some a →
    ∃ store, s.heap.get a = some store ∧ store.owner = owner
  owned : ∀ {owner a}, s.cells owner = some a → s.registry owner = some a ∧
    ∀ store, s.heap.get a = some store → store.state.isOpen = true
  store : ∀ {a store}, s.heap.get a = some store → StoreOk s threads a store
  threads : ∀ t ∈ threads, t.Ok s

section Steps

variable {s s' : Shared} {before after threads : List Pc} {t t' : Pc} {owner a b : ℕ}
  {store : OwnedStore}

theorem entryRefs_of_get (hget : s.heap.get a = some store) :
    entryRefs s a = if s.registry store.owner = some a then 2 else 0 := by
  by_cases h : s.registry store.owner = some a <;> simp [entryRefs, hget, h]

theorem Inv.entryRefs_of_entry (hinv : Inv s threads) (hentry : s.registry owner = some a) :
    entryRefs s a = 2 := by
  obtain ⟨store, hget, rfl⟩ := hinv.entry hentry
  rw [entryRefs_of_get hget, if_pos hentry]

theorem Point.refs_pos (point : Point) : 0 < point.refs := by
  cases point <;> simp [Point.refs]

theorem Pc.refs_holding (handle : Handle) (point : Point) :
    Pc.refs handle.addr (.holding handle point) = point.refs := if_pos rfl

theorem refs_le_references (s : Shared) (a : ℕ) (ht : t ∈ threads) :
    Pc.refs a t ≤ references s threads a :=
  (List.single_le_sum (fun _ _ => Nat.zero_le _) _ (List.mem_map_of_mem ht)).trans
    (Nat.le_add_left _ _)

/-- A store that is not published yet is not registered and nobody else has it. -/
theorem Inv.not_publish (hinv : Inv s (before ++ t :: after)) {handle : Handle}
    (hu : .holding handle .publish ∈ before ++ after)
    (htouch : 0 < Pc.refs handle.addr t + entryRefs s handle.addr) : False := by
  obtain ⟨store, hheld⟩ := hinv.threads (.holding handle .publish) (by
    rcases List.mem_append.1 hu with h | h <;> simp [h])
  have hcount := hinv.balanced.count handle.addr
  have hsum := List.single_le_sum (fun _ _ => Nat.zero_le _) _
    (List.mem_map_of_mem (f := Pc.refs handle.addr) hu)
  rw [hheld.alone rfl, references] at hcount
  rw [Pc.refs_holding] at hsum
  simp only [List.map_append, List.map_cons, List.sum_append, List.sum_cons] at hcount hsum
  have hpos := Point.refs_pos .publish
  omega

/-! ## Steps at one store -/

/-- Every reference of the thread is to the store at `a`. -/
def Pc.Within (a : ℕ) : Pc → Prop
  | holding handle _ => handle.addr = a
  | _ => True

theorem Pc.Within.refs (h : t.Within a) (hb : b ≠ a) : Pc.refs b t = 0 := by
  cases t with
  | holding handle point => exact if_neg fun heq => hb (heq.symm.trans h)
  | _ => rfl

theorem Pc.Within.isAt (h : t.Within a) (p : Point → Bool) (hb : b ≠ a) :
    Pc.isAt p b t = false := by
  cases t with
  | holding handle point =>
      have hne : handle.addr ≠ b := fun heq => hb (heq.symm.trans h)
      simp [Pc.isAt, hne]
  | _ => rfl

/-- Only the store at `a` and the entry and cell of its owner change. -/
structure Frame (s s' : Shared) (owner a : ℕ) : Prop where
  cell : ∀ b, b ≠ a → s'.heap.cells b = s.heap.cells b
  registry : ∀ o b, o ≠ owner ∨ b ≠ a → (s'.registry o = some b ↔ s.registry o = some b)
  cells : ∀ o, o ≠ owner → s'.cells o = s.cells o
  owner : ∀ store, s.heap.get a = some store → store.owner = owner

namespace Frame

theorem get (h : Frame s s' owner a) (hb : b ≠ a) : s'.heap.get b = s.heap.get b := by
  rw [RcHeap.get, RcHeap.get, h.cell b hb]

theorem strong (h : Frame s s' owner a) (hb : b ≠ a) : s'.heap.strong b = s.heap.strong b := by
  rw [RcHeap.strong, RcHeap.strong, h.cell b hb]

theorem entryRefs (h : Frame s s' owner a) (hb : b ≠ a) :
    OwnerSystem.entryRefs s' b = OwnerSystem.entryRefs s b := by
  have hregistry : ∀ o, (s'.registry o == some b) = (s.registry o == some b) := fun o => by
    rw [Bool.eq_iff_iff, beq_iff_eq, beq_iff_eq]
    exact h.registry o b (.inr hb)
  simp only [OwnerSystem.entryRefs, h.get hb, hregistry]

theorem references (h : Frame s s' owner a) (ht : t.Within a) (ht' : t'.Within a) (hb : b ≠ a) :
    OwnerSystem.references s' (before ++ t' :: after) b =
      OwnerSystem.references s (before ++ t :: after) b := by
  have hmove := Pool.sum_move (Pc.refs b) before after t t'
  rw [ht.refs hb, ht'.refs hb] at hmove
  rw [OwnerSystem.references, OwnerSystem.references, h.entryRefs hb]
  omega

end Frame

theorem references_self (s s' : Shared) (before after : List Pc) (t t' : Pc) (a : ℕ) :
    references s' (before ++ t' :: after) a + Pc.refs a t + entryRefs s a =
      references s (before ++ t :: after) a + Pc.refs a t' + entryRefs s' a := by
  have hmove := Pool.sum_move (Pc.refs a) before after t t'
  simp only [references]
  omega

/-- The rule of every step: what it has to show is about the store it touches. -/
theorem Inv.touch (hinv : Inv s (before ++ t :: after)) (hframe : Frame s s' owner a)
    (ht : t.Within a) (ht' : t'.Within a)
    (hbalanced : s'.heap.Balanced (references s' (before ++ t' :: after)))
    (hentry : ∀ b, s'.registry owner = some b →
      ∃ store, s'.heap.get b = some store ∧ store.owner = owner)
    (howned : ∀ b, s'.cells owner = some b → s'.registry owner = some b ∧
      ∀ store, s'.heap.get b = some store → store.state.isOpen = true)
    (hstore : ∀ store, s'.heap.get a = some store → StoreOk s' (before ++ t' :: after) a store)
    (hself : t'.Ok s')
    (hothers : ∀ handle point, .holding handle point ∈ before ++ after → handle.addr = a →
      ∃ store, Held s' handle point store) : Inv s' (before ++ t' :: after) := by
  -- Another owner's entry is for another store.
  have hne : ∀ {o b}, o ≠ owner → s.registry o = some b → b ≠ a := by
    rintro o b ho hb rfl
    obtain ⟨store, hget, hstoreOwner⟩ := hinv.entry hb
    exact ho (hstoreOwner.symm.trans (hframe.owner store hget))
  refine ⟨hbalanced, ?_, fun {o b} hb => ?_, fun {o b} hb => ?_, fun {b store} hb => ?_,
    fun u hu => ?_⟩
  · obtain ⟨n, hn⟩ := hinv.bounded
    refine ⟨max n (a + 1), fun b hb => ?_⟩
    rw [hframe.cell b (by omega)]
    exact hn b (by omega)
  · by_cases ho : o = owner
    · subst ho
      exact hentry b hb
    · have hb' := (hframe.registry o b (.inl ho)).1 hb
      obtain ⟨store, hget, hstoreOwner⟩ := hinv.entry hb'
      exact ⟨store, (hframe.get (hne ho hb')).trans hget, hstoreOwner⟩
  · by_cases ho : o = owner
    · subst ho
      exact howned b hb
    · rw [hframe.cells o ho] at hb
      obtain ⟨hregistry, hopen⟩ := hinv.owned hb
      refine ⟨(hframe.registry o b (.inl ho)).2 hregistry, fun store hget => ?_⟩
      exact hopen store ((hframe.get (hne ho hregistry)).symm.trans hget)
  · by_cases hba : b = a
    · subst hba
      exact hstore store hb
    · rw [hframe.get hba] at hb
      have hok := hinv.store hb
      have hcount : ∀ p, (before ++ t' :: after).countP (Pc.isAt p b) =
          (before ++ t :: after).countP (Pc.isAt p b) := fun p =>
        Pool.countP_same before after (by rw [ht.isAt p hba, ht'.isAt p hba])
      refine ⟨(hcount _).trans hok.leases, (hcount _).trans hok.closers, hok.inner, fun hreg => ?_⟩
      rw [hcount]
      exact hok.retirers ((hframe.registry _ b (.inr hba)).1 hreg)
  · rw [List.mem_append, List.mem_cons, or_left_comm] at hu
    rcases hu with rfl | hu
    · exact hself
    · have hu' := hinv.threads u (by rcases hu with hu | hu <;> simp [hu])
      cases u with
      | holding handle point =>
          by_cases haddr : handle.addr = a
          · exact hothers handle point (List.mem_append.2 hu) haddr
          · obtain ⟨store, hget, howner, hserial, hstate, halone⟩ := hu'
            exact ⟨store, (hframe.get haddr).trans hget, howner, hserial, hstate, fun hp =>
              (hframe.strong haddr).trans (halone hp)⟩
      | _ => exact hu'

/-- A step that looks at most. The weights of the thread do not change, but for a retirement of a
store that is not registered. -/
theorem Inv.look (hinv : Inv s (before ++ t :: after)) (hheap : s'.heap = s.heap)
    (hregistry : s'.registry = s.registry)
    (hcells : ∀ o b, s'.cells o = some b → s.cells o = some b)
    (hrefs : ∀ a, Pc.refs a t' = Pc.refs a t)
    (hleases : ∀ a, Pc.isAt Point.hasLease a t' = Pc.isAt Point.hasLease a t)
    (hclosers : ∀ a, Pc.isAt Point.isCloser a t' = Pc.isAt Point.isCloser a t)
    (hretirers : ∀ a, Pc.isAt Point.isRetirer a t = true → Pc.isAt Point.isRetirer a t' = true ∨
      ∀ o, s.registry o ≠ some a)
    (hself : t'.Ok s) : Inv s' (before ++ t' :: after) := by
  have hok : ∀ {u : Pc}, u.Ok s → u.Ok s' := by
    intro u hu
    cases u with
    | holding handle point =>
        obtain ⟨store, hget, howner, hserial, hstate, halone⟩ := hu
        exact ⟨store, by rwa [hheap], howner, hserial, hstate, by rwa [hheap]⟩
    | _ => exact hu
  have href : ∀ a, references s' (before ++ t' :: after) a =
      references s (before ++ t :: after) a := fun a => by
    have hmove := Pool.sum_move (Pc.refs a) before after t t'
    rw [hrefs a] at hmove
    simp only [references, entryRefs, hheap, hregistry]
    omega
  refine ⟨hheap ▸ hinv.balanced.congr href, hheap ▸ hinv.bounded, ?_, ?_, ?_, ?_⟩
  · rw [hheap, hregistry]
    exact hinv.entry
  · intro o b hb
    rw [hheap, hregistry]
    exact hinv.owned (hcells o b hb)
  · intro a store hget
    rw [hheap] at hget
    have hstore := hinv.store hget
    refine ⟨Pool.countP_step hstore.leases (by rw [hleases]),
      Pool.countP_step hstore.closers (by rw [hclosers]), hstore.inner, fun hreg hclosed => ?_⟩
    rw [hregistry] at hreg
    have hpos := hstore.retirers hreg hclosed
    have hmove := Pool.countP_move (Pc.isAt Point.isRetirer a) before after t t'
    cases hat : Pc.isAt Point.isRetirer a t with
    | false =>
        rw [hat] at hmove
        simp only [Bool.toNat_false] at hmove
        omega
    | true =>
        have hat' := (hretirers a hat).resolve_right fun hnone => hnone _ hreg
        rw [hat, hat'] at hmove
        omega
  · intro u hu
    rw [List.mem_append, List.mem_cons, or_left_comm] at hu
    rcases hu with rfl | hu
    · exact hok hself
    · exact hok (hinv.threads u (by rcases hu with hu | hu <;> simp [hu]))

/-- A step that changes the state of a store which stays registered as it was. -/
theorem Inv.change (hinv : Inv s (before ++ t :: after)) {handle : Handle} {point : Point}
    {store' : OwnedStore} (hheld : s.heap.get handle.addr = some store)
    (howner : store.owner = handle.owner) (hserial : store.serial = handle.serial)
    (hframe : Frame s s' handle.owner handle.addr) (hregistry : s'.registry = s.registry)
    (ht : t.Within handle.addr) (htouch : 0 < Pc.refs handle.addr t + entryRefs s handle.addr)
    (hget : s'.heap.get handle.addr = some store') (howner' : store'.owner = store.owner)
    (hserial' : store'.serial = store.serial)
    (hbalanced : s'.heap.Balanced (references s' (before ++ .holding handle point :: after)))
    (hleases : store'.state.active + (Pc.isAt Point.hasLease handle.addr t).toNat =
      store.state.active + point.hasLease.toNat)
    (hclosers : (isClosing store'.state).toNat + (Pc.isAt Point.isCloser handle.addr t).toNat =
      (isClosing store.state).toNat + point.isCloser.toNat)
    (hinner : store'.state.isOpen = true → store'.inner = true)
    (hretirers : isClosed store'.state = true → point.isRetirer = true ∨
      isClosed store.state = true ∧ Pc.isAt Point.isRetirer handle.addr t = false)
    (howned : ∀ b, s'.cells handle.owner = some b → s.cells handle.owner = some b ∧
      store'.state.isOpen = store.state.isOpen)
    (hself : point.Expects store'.state) (hpublish : point ≠ .publish)
    (hothers : ∀ h p, .holding h p ∈ before ++ after → h.addr = handle.addr →
      p.Expects store.state → p ≠ .publish → p.Expects store'.state) :
    Inv s' (before ++ .holding handle point :: after) := by
  have hstore := hinv.store hheld
  have hat : ∀ p : Point → Bool, Pc.isAt p handle.addr (.holding handle point) = p point := by
    simp [Pc.isAt]
  refine hinv.touch hframe ht rfl hbalanced (fun b hb => ?_) (fun b hb => ?_) (fun st hst => ?_)
    ⟨store', hget, howner'.trans howner, hserial'.trans hserial, hself,
      fun hp => absurd hp hpublish⟩ (fun h p hmem haddr => ?_)
  · rw [hregistry] at hb
    obtain ⟨st, hst, hstOwner⟩ := hinv.entry hb
    by_cases hba : b = handle.addr
    · subst hba
      exact ⟨store', hget, howner'.trans howner⟩
    · exact ⟨st, (hframe.get hba).trans hst, hstOwner⟩
  · obtain ⟨hb', hopen⟩ := howned b hb
    obtain ⟨hreg, hst⟩ := hinv.owned hb'
    refine ⟨by rwa [hregistry], fun st hget' => ?_⟩
    by_cases hba : b = handle.addr
    · subst hba
      obtain rfl : store' = st := Option.some_inj.1 (hget.symm.trans hget')
      rw [hopen]
      exact hst store hheld
    · exact hst st ((hframe.get hba).symm.trans hget')
  · obtain rfl : store' = st := Option.some_inj.1 (hget.symm.trans hst)
    refine ⟨Pool.countP_step hstore.leases (by rw [hat]; exact hleases),
      Pool.countP_step hstore.closers (by rw [hat]; exact hclosers), hinner, fun hreg hclosed => ?_⟩
    rcases hretirers hclosed with hretirer | ⟨hclosed', hnot⟩
    · exact List.countP_pos_iff.2 ⟨_, List.mem_append_cons_self, by rw [hat, hretirer]⟩
    · have hpos := hstore.retirers (by rwa [hregistry, howner'] at hreg) hclosed'
      have hmove := Pool.countP_move (Pc.isAt Point.isRetirer handle.addr) before after t
        (.holding handle point)
      rw [hnot] at hmove
      simp only [Bool.toNat_false] at hmove
      omega
  · obtain ⟨st, hu⟩ := hinv.threads (.holding h p) (by
      rcases List.mem_append.1 hmem with h | h <;> simp [h])
    have hp : p ≠ .publish := by
      rintro rfl
      exact hinv.not_publish hmem (haddr ▸ htouch)
    obtain rfl : store = st := Option.some_inj.1 (hheld.symm.trans (haddr ▸ hu.get))
    exact ⟨store', haddr ▸ hget, howner'.trans hu.owner, hserial'.trans hu.serial,
      hothers h p hmem haddr hu.state hp, fun h => absurd h hp⟩

theorem entryRefs_modify (s : Shared) {f : OwnedStore → OwnedStore}
    (hf : ∀ store, (f store).owner = store.owner) (a b : ℕ) :
    entryRefs (s.modify a f) b = entryRefs s b := by
  by_cases hb : b = a
  · subst hb
    simp only [entryRefs, Shared.modify, RcHeap.get_modify_self]
    cases s.heap.get b <;> simp [hf]
  · simp only [entryRefs, Shared.modify, RcHeap.get_modify_of_ne f hb]

/-- What a step changes of a store, apart from what it is. -/
structure Updates (f : OwnedStore → OwnedStore) : Prop where
  owner : ∀ store, (f store).owner = store.owner
  serial : ∀ store, (f store).serial = store.serial

/-- A step of a thread that changes the state of its store. -/
theorem Inv.modify {handle : Handle} {p point : Point} {f : OwnedStore → OwnedStore}
    (hinv : Inv s (before ++ .holding handle p :: after)) (hheld : Held s handle p store)
    (hf : Updates f) (hrefs : point.refs = p.refs)
    (hleases : (f store).state.active + p.hasLease.toNat =
      store.state.active + point.hasLease.toNat)
    (hclosers : (isClosing (f store).state).toNat + p.isCloser.toNat =
      (isClosing store.state).toNat + point.isCloser.toNat)
    (hinner : (f store).state.isOpen = true → (f store).inner = true)
    (hretirers : isClosed (f store).state = true → point.isRetirer = true ∨
      isClosed store.state = true ∧ p.isRetirer = false)
    (hopen : (f store).state.isOpen = store.state.isOpen)
    (hself : point.Expects (f store).state) (hpublish : point ≠ .publish)
    (hothers : ∀ h q, .holding h q ∈ before ++ after → h.addr = handle.addr →
      q.Expects store.state → q ≠ .publish → q.Expects (f store).state) :
    Inv (s.modify handle.addr f) (before ++ .holding handle point :: after) := by
  have hmem : .holding handle p ∈ before ++ .holding handle p :: after := List.mem_append_cons_self
  have hpos : 0 < Pc.refs handle.addr (.holding handle p) := by
    rw [Pc.refs_holding]
    exact p.refs_pos
  have hat : ∀ q : Point → Bool, Pc.isAt q handle.addr (.holding handle p) = q p := by
    simp [Pc.isAt]
  refine hinv.change hheld.get hheld.owner hheld.serial ⟨fun b hb => RcHeap.cells_onCell_of_ne _ hb,
    fun _ _ _ => .rfl, fun _ _ => rfl, fun st hst => ?_⟩ rfl rfl (by omega)
    (RcHeap.get_modify_self f |>.trans (by rw [hheld.get]; rfl)) (hf.owner store) (hf.serial store)
    (hinv.balanced.modify (hpos.trans_le (refs_le_references s _ hmem)) f fun b => ?_)
    (by rw [hat]; exact hleases) (by rw [hat]; exact hclosers) hinner (by rw [hat]; exact hretirers)
    (fun b hb => ⟨hb, hopen⟩) hself hpublish hothers
  · obtain rfl : store = st := Option.some_inj.1 (hheld.get.symm.trans hst)
    exact hheld.owner
  · have hmove := Pool.sum_move (Pc.refs b) before after (.holding handle p) (.holding handle point)
    have hsame : Pc.refs b (.holding handle point) = Pc.refs b (.holding handle p) := by
      simp only [Pc.refs, hrefs]
    rw [references, references, entryRefs_modify s hf.owner]
    omega

/-- A thread takes a reference to a registered store, and changes the store's state. -/
theorem Inv.lend (hinv : Inv s (before ++ t :: after)) (handle : Handle) (point : Point)
    (f : OwnedStore → OwnedStore) (cells : ℕ → Option ℕ) (hnone : ∀ a, Pc.refs a t = 0)
    (ht : t.Within handle.addr) (hat : ∀ q, Pc.isAt q handle.addr t = false)
    (hreg : s.registry handle.owner = some handle.addr)
    (hget : s.heap.get handle.addr = some store) (hserial : store.serial = handle.serial)
    (hcells : ∀ o, o ≠ handle.owner → cells o = s.cells o) (hf : Updates f)
    (hrefs : point.refs = 1)
    (hleases : (f store).state.active = store.state.active + point.hasLease.toNat)
    (hclosers : (isClosing (f store).state).toNat =
      (isClosing store.state).toNat + point.isCloser.toNat)
    (hinner : (f store).state.isOpen = true → (f store).inner = true)
    (hretirers : isClosed (f store).state = true → isClosed store.state = true)
    (howned : ∀ b, cells handle.owner = some b → s.cells handle.owner = some b ∧
      (f store).state.isOpen = store.state.isOpen)
    (hself : point.Expects (f store).state) (hpublish : point ≠ .publish)
    (hothers : ∀ q : Point, q.Expects store.state → q ≠ .publish → q.Expects (f store).state) :
    Inv ({ s with cells := cells, heap := (s.heap.clone handle.addr).modify handle.addr f })
      (before ++ .holding handle point :: after) := by
  have hentry := hinv.entryRefs_of_entry hreg
  obtain ⟨st, hst, howner⟩ := hinv.entry hreg
  obtain rfl : store = st := Option.some_inj.1 (hget.symm.trans hst)
  have hclone : (s.clone handle.addr).heap.Balanced
      (references (s.clone handle.addr) (before ++ .holding handle point :: after)) := by
    refine hinv.balanced.clone (by rw [references]; omega) fun b => ?_
    have hmove := Pool.sum_move (Pc.refs b) before after t (.holding handle point)
    rw [hnone b] at hmove
    have hsame : entryRefs (s.clone handle.addr) b = entryRefs s b := by
      simp [entryRefs, Shared.clone]
    have hpoint : Pc.refs b (.holding handle point) = if b = handle.addr then 1 else 0 := by
      simp only [Pc.refs, hrefs, eq_comm]
    rw [references, references, hsame]
    omega
  have hget' : ((s.heap.clone handle.addr).modify handle.addr f).get handle.addr =
      some (f store) := by
    rw [RcHeap.get_modify_self, RcHeap.get_clone, hget]
    rfl
  refine hinv.change hget howner hserial ⟨fun b hb => ?_, fun _ _ _ => .rfl, hcells,
    fun st hst => ?_⟩ rfl ht (by omega) hget' (hf.owner store) (hf.serial store)
    (hclone.modify ?_ f fun b => ?_) (by simpa [hat] using hleases) (by simpa [hat] using hclosers)
    hinner (fun hclosed => .inr ⟨hretirers hclosed, hat _⟩) howned hself hpublish
    fun _ q _ _ => hothers q
  · exact (RcHeap.cells_onCell_of_ne _ hb).trans (RcHeap.cells_onCell_of_ne _ hb)
  · obtain rfl : store = st := Option.some_inj.1 (hget.symm.trans hst)
    exact howner
  · refine lt_of_lt_of_le ?_ (refs_le_references _ _ List.mem_append_cons_self)
    rw [Pc.refs_holding]
    exact point.refs_pos
  · have hsame := entryRefs_modify (s.clone handle.addr) hf.owner handle.addr b
    simp only [references, Shared.modify, Shared.clone, entryRefs] at hsame ⊢
    rw [hsame]

/-- A new store. -/
theorem Inv.build (hinv : Inv s (before ++ t :: after)) (hnone : ∀ a, Pc.refs a t = 0)
    (ht : t.Within a) (hfree : s.heap.cells a = none) :
    Inv (s.build owner a) (before ++ .holding ⟨owner, a, s.built⟩ .publish :: after) := by
  have hget : s.heap.get a = none := by simp [RcHeap.get, hfree]
  have hget' : (s.build owner a).heap.get a = some ⟨owner, s.built, .opened 0, true, false⟩ :=
    RcHeap.get_alloc_self _ _ _
  have hunregistered : ∀ o, s.registry o ≠ some a := fun o ho => by
    obtain ⟨st, hst, -⟩ := hinv.entry ho
    rw [hget] at hst
    cases hst
  -- Nobody has a reference to memory that is free.
  have hothers : ∀ h p, .holding h p ∈ before ++ after → h.addr ≠ a := fun h p hmem heq => by
    obtain ⟨st, hst⟩ := hinv.threads (.holding h p) (by
      rcases List.mem_append.1 hmem with h | h <;> simp [h])
    have hst := hst.get
    rw [heq, hget] at hst
    cases hst
  have hcount : ∀ q : Point → Bool, q .publish = false →
      (before ++ .holding ⟨owner, a, s.built⟩ .publish :: after).countP (Pc.isAt q a) = 0 := by
    intro q hq
    rw [List.countP_eq_zero]
    intro u hu
    rw [List.mem_append, List.mem_cons, or_left_comm, ← List.mem_append] at hu
    rcases hu with rfl | hu
    · simp [Pc.isAt, hq]
    · cases u with
      | holding h p => simp [Pc.isAt, hothers h p hu]
      | _ => simp [Pc.isAt]
  have hframe : Frame s (s.build owner a) owner a :=
    ⟨fun b hb => Function.update_of_ne hb _ _, fun _ _ _ => .rfl, fun _ _ => rfl, fun st hst => by
      rw [hget] at hst
      cases hst⟩
  have ht' : Pc.Within a (.holding ⟨owner, a, s.built⟩ .publish) := rfl
  refine hinv.touch hframe ht ht' (hinv.balanced.alloc hfree fun b => ?_) (fun b hb => ?_)
    (fun b hb => ?_) (fun st hst => ?_)
    ⟨_, hget', rfl, rfl, rfl, fun _ => by simp [RcHeap.strong, Shared.build, RcHeap.alloc]⟩
    (fun h p hmem heq => absurd heq (hothers h p hmem))
  · by_cases hb : b = a
    · subst hb
      have hself := references_self s (s.build owner b) before after t
        (.holding ⟨owner, b, s.built⟩ .publish) b
      have hnew : entryRefs (s.build owner b) b = 0 :=
        (entryRefs_of_get hget').trans (if_neg (hunregistered _))
      rw [hnone, hnew, entryRefs, hget] at hself
      rw [if_pos rfl]
      simpa [Pc.refs, Point.refs] using hself
    · rw [if_neg hb, add_zero]
      exact hframe.references ht ht' hb
  · obtain ⟨st, hst, howner⟩ := hinv.entry hb
    have hba : b ≠ a := fun heq => hunregistered _ (heq ▸ hb)
    exact ⟨st, (hframe.get hba).trans hst, howner⟩
  · obtain ⟨hreg, hopen⟩ := hinv.owned hb
    have hba : b ≠ a := fun heq => hunregistered _ (heq ▸ hreg)
    exact ⟨hreg, fun st hst => hopen st ((hframe.get hba).symm.trans hst)⟩
  · rw [hget'] at hst
    obtain rfl := Option.some_inj.1 hst
    exact ⟨hcount _ rfl, hcount _ rfl, fun _ => rfl, fun _ hclosed => by cases hclosed⟩

/-- A thread gives up a reference. The store is freed with the last one, and then neither the
registry nor another thread has one. -/
theorem Inv.release {handle : Handle} {p : Point}
    (hinv : Inv s (before ++ .holding handle p :: after))
    (ht' : t'.Within handle.addr) (hrefs : Pc.refs handle.addr t' + 1 = p.refs)
    (hat : ∀ q ∈ [Point.hasLease, Point.isCloser, Point.isRetirer],
      Pc.isAt q handle.addr t' = false ∧ q p = false)
    (hself : (0 < Pc.refs handle.addr t' →
      (s.release handle.addr).heap.get handle.addr = s.heap.get handle.addr) →
      t'.Ok (s.release handle.addr)) :
    Inv (s.release handle.addr) (before ++ t' :: after) := by
  have hmem : .holding handle p ∈ before ++ .holding handle p :: after := List.mem_append_cons_self
  obtain ⟨store, hheld⟩ := hinv.threads _ hmem
  have hframe : Frame s (s.release handle.addr) handle.owner handle.addr :=
    ⟨fun b hb => RcHeap.cells_onCell_of_ne _ hb, fun _ _ _ => .rfl, fun _ _ => rfl, fun st hst => by
      obtain rfl : store = st := Option.some_inj.1 (hheld.get.symm.trans hst)
      exact hheld.owner⟩
  have ht : Pc.Within handle.addr (.holding handle p) := rfl
  have hsum := List.single_le_sum (fun _ _ => Nat.zero_le _) _
    (List.mem_map_of_mem (f := Pc.refs handle.addr) hmem)
  rw [Pc.refs_holding] at hsum
  have hkept : 1 < references s (before ++ .holding handle p :: after) handle.addr →
      (s.release handle.addr).heap.get handle.addr = s.heap.get handle.addr := fun hmore =>
    hinv.balanced.get_release hmore _
  have hregistered : s.registry handle.owner = some handle.addr →
      (s.release handle.addr).heap.get handle.addr = some store := fun hreg => by
    rw [hkept (by rw [references, hinv.entryRefs_of_entry hreg]; omega), hheld.get]
  have hstays : ∀ st, (s.release handle.addr).heap.get handle.addr = some st → store = st := by
    intro st hst
    by_cases hlast : references s (before ++ .holding handle p :: after) handle.addr = 1
    · have hfreed : (s.release handle.addr).heap.get handle.addr = none :=
        hinv.balanced.get_release_last hlast
      rw [hfreed] at hst
      cases hst
    · rw [hkept (by rw [references] at hlast ⊢; have := p.refs_pos; omega), hheld.get] at hst
      exact Option.some_inj.1 hst
  have hentryRefs : entryRefs (s.release handle.addr) handle.addr = entryRefs s handle.addr := by
    by_cases hreg : s.registry store.owner = some handle.addr
    · rw [entryRefs_of_get (hregistered (by rwa [← hheld.owner])), entryRefs_of_get hheld.get]
      rfl
    · rw [entryRefs_of_get hheld.get, if_neg hreg]
      cases hget : (s.release handle.addr).heap.get handle.addr with
      | none => simp [entryRefs, hget]
      | some st =>
          obtain rfl := hstays st hget
          rw [entryRefs_of_get hget]
          exact if_neg hreg
  refine hinv.touch hframe ht ht' (hinv.balanced.release fun b => ?_) (fun b hb => ?_)
    (fun b hb => ?_) (fun st hst => ?_) (hself fun hpos => hkept ?_) (fun h q hmem' haddr => ?_)
  · by_cases hb : b = handle.addr
    · subst hb
      have hchange := references_self s (s.release handle.addr) before after (.holding handle p) t'
        handle.addr
      rw [hentryRefs, Pc.refs_holding] at hchange
      rw [if_pos rfl]
      omega
    · rw [if_neg hb, add_zero]
      exact hframe.references ht ht' hb
  · by_cases hba : b = handle.addr
    · subst hba
      exact ⟨store, hregistered hb, hheld.owner⟩
    · obtain ⟨st, hst, howner⟩ := hinv.entry hb
      exact ⟨st, (hframe.get hba).trans hst, howner⟩
  · obtain ⟨hreg, hopen⟩ := hinv.owned hb
    refine ⟨hreg, fun st hst => ?_⟩
    by_cases hba : b = handle.addr
    · subst hba
      obtain rfl := hstays st hst
      exact hopen store hheld.get
    · exact hopen st ((hframe.get hba).symm.trans hst)
  · obtain rfl := hstays st hst
    have hok := hinv.store hheld.get
    have hsame : ∀ q ∈ [Point.hasLease, Point.isCloser, Point.isRetirer],
        (before ++ t' :: after).countP (Pc.isAt q handle.addr) =
          (before ++ .holding handle p :: after).countP (Pc.isAt q handle.addr) := fun q hq => by
      refine Pool.countP_same before after ?_
      rw [(hat q hq).1]
      simp [Pc.isAt, (hat q hq).2]
    refine ⟨(hsame _ (by simp)).trans hok.leases, (hsame _ (by simp)).trans hok.closers, hok.inner,
      fun hreg hclosed => ?_⟩
    rw [hsame _ (by simp)]
    exact hok.retirers hreg hclosed
  · rw [references]
    omega
  · have hu := hinv.threads (.holding h q) (by
      rcases List.mem_append.1 hmem' with h | h <;> simp [h])
    obtain ⟨st, hu⟩ := hu
    have hq : q ≠ .publish := by
      rintro rfl
      exact hinv.not_publish hmem' (by rw [haddr, Pc.refs_holding]; have := p.refs_pos; omega)
    have hmore : 1 < references s (before ++ .holding handle p :: after) handle.addr := by
      have hother := List.single_le_sum (fun _ _ => Nat.zero_le _) _
        (List.mem_map_of_mem (f := Pc.refs handle.addr) hmem')
      rw [← haddr, Pc.refs_holding, haddr] at hother
      simp only [references, List.map_append, List.map_cons, List.sum_append, List.sum_cons,
        Pc.refs_holding] at hother ⊢
      have := p.refs_pos
      have := q.refs_pos
      omega
    exact ⟨st, by rw [haddr, hkept hmore, ← haddr]; exact hu.get, hu.owner, hu.serial, hu.state,
      fun h => absurd h hq⟩

/-- The store is registered: the entry and the cell have two references, one of which was the
thread's. -/
theorem Inv.register {handle : Handle} (hinv : Inv s (before ++ .holding handle .publish :: after))
    (hfree : s.registry handle.owner = none) :
    Inv (s.register handle) (before ++ .done .opened :: after) := by
  have hmem : .holding handle .publish ∈ before ++ .holding handle .publish :: after :=
    List.mem_append_cons_self
  obtain ⟨store, hheld⟩ := hinv.threads _ hmem
  have hstate : store.state = .opened 0 := hheld.state
  have hget : (s.register handle).heap.get handle.addr = some store :=
    (RcHeap.get_clone _ _ _).trans hheld.get
  have hreg : (s.register handle).registry handle.owner = some handle.addr :=
    Function.update_self _ _ _
  have ht : Pc.Within handle.addr (.holding handle .publish) := rfl
  have hframe : Frame s (s.register handle) handle.owner handle.addr := by
    refine ⟨fun b hb => RcHeap.cells_onCell_of_ne _ hb, fun o b hob => ?_, fun o ho =>
      Function.update_of_ne ho _ _, fun st hst => ?_⟩
    · by_cases ho : o = handle.owner
      · subst ho
        have hb : b ≠ handle.addr := hob.resolve_left (fun h => h rfl)
        simp [Shared.register, hfree, hb.symm]
      · simp [Shared.register, Shared.clone, ho]
    · obtain rfl : store = st := Option.some_inj.1 (hheld.get.symm.trans hst)
      exact hheld.owner
  have hpos : 0 < references s (before ++ .holding handle .publish :: after) handle.addr :=
    lt_of_lt_of_le (by rw [Pc.refs_holding]; exact Point.refs_pos _) (refs_le_references s _ hmem)
  refine hinv.touch hframe ht trivial (hinv.balanced.clone hpos fun b => ?_) (fun b hb => ?_)
    (fun b hb => ?_) (fun st hst => ?_) rfl (fun h q hmem' haddr => ?_)
  · by_cases hb : b = handle.addr
    · subst hb
      have hchange := references_self s (s.register handle) before after (.holding handle .publish)
        (.done .opened) handle.addr
      rw [entryRefs_of_get hget, entryRefs_of_get hheld.get, hheld.owner, if_pos hreg, hfree,
        if_neg (by simp), Pc.refs_holding] at hchange
      simp only [Pc.refs, Point.refs] at hchange
      rw [if_pos rfl]
      omega
    · rw [if_neg hb, add_zero]
      exact hframe.references ht trivial hb
  · obtain rfl : handle.addr = b := Option.some_inj.1 (hreg.symm.trans hb)
    exact ⟨store, hget, hheld.owner⟩
  · have hcell : (s.register handle).cells handle.owner = some handle.addr :=
      Function.update_self _ _ _
    obtain rfl : handle.addr = b := Option.some_inj.1 (hcell.symm.trans hb)
    refine ⟨hreg, fun st hst => ?_⟩
    obtain rfl : store = st := Option.some_inj.1 (hget.symm.trans hst)
    rw [hstate]
    rfl
  · obtain rfl : store = st := Option.some_inj.1 (hget.symm.trans hst)
    have hok := hinv.store hheld.get
    have hat : ∀ q : Point → Bool, q .publish = false →
        (before ++ .done .opened :: after).countP (Pc.isAt q handle.addr) =
          (before ++ .holding handle .publish :: after).countP (Pc.isAt q handle.addr) := by
      intro q hq
      exact Pool.countP_same before after (by simp [Pc.isAt, hq])
    refine ⟨(hat _ rfl).trans hok.leases, (hat _ rfl).trans hok.closers, hok.inner, fun _ h => ?_⟩
    rw [hstate] at h
    cases h
  · obtain ⟨st, hu⟩ := hinv.threads (.holding h q) (by
      rcases List.mem_append.1 hmem' with h | h <;> simp [h])
    have hq : q ≠ .publish := by
      rintro rfl
      exact hinv.not_publish hmem' (by rw [haddr, Pc.refs_holding]; simp [Point.refs])
    exact ⟨st, (RcHeap.get_clone _ _ _).trans hu.get, hu.owner, hu.serial, hu.state, fun h =>
      absurd h hq⟩

/-- The entry is removed; the thread takes over its two references. -/
theorem Inv.unregister {handle : Handle} {outcome : CloseOutcome}
    (hinv : Inv s (before ++ .holding handle (.retire outcome) :: after))
    (hreg : s.registry handle.owner = some handle.addr) :
    Inv ({ s with registry := Function.update s.registry handle.owner none })
      (before ++ .holding handle (.reclaim outcome) :: after) := by
  have hmem : .holding handle (.retire outcome) ∈
      before ++ .holding handle (.retire outcome) :: after := List.mem_append_cons_self
  obtain ⟨store, hheld⟩ := hinv.threads _ hmem
  have hstate : store.state = .closed outcome := hheld.state
  have ht : Pc.Within handle.addr (.holding handle (.retire outcome)) := rfl
  have ht' : Pc.Within handle.addr (.holding handle (.reclaim outcome)) := rfl
  have hframe : Frame s ({ s with registry := Function.update s.registry handle.owner none })
      handle.owner handle.addr := by
    refine ⟨fun _ _ => rfl, fun o b hob => ?_, fun _ _ => rfl, fun st hst => ?_⟩
    · by_cases ho : o = handle.owner
      · subst ho
        have hb : b ≠ handle.addr := hob.resolve_left (fun h => h rfl)
        simp [hreg, hb.symm]
      · simp [ho]
    · obtain rfl : store = st := Option.some_inj.1 (hheld.get.symm.trans hst)
      exact hheld.owner
  refine hinv.touch hframe ht ht' (hinv.balanced.congr fun b => ?_) (fun b hb => ?_)
    (fun b hb => ?_) (fun st hst => ?_)
    ⟨store, hheld.get, hheld.owner, hheld.serial, trivial, fun h => by cases h⟩
    (fun h q hmem' _ => ?_)
  · by_cases hb : b = handle.addr
    · subst hb
      have hchange := references_self s
        ({ s with registry := Function.update s.registry handle.owner none }) before after
        (.holding handle (.retire outcome)) (.holding handle (.reclaim outcome)) handle.addr
      have hnew : entryRefs ({ s with registry := Function.update s.registry handle.owner none })
          handle.addr = 0 := by simp [entryRefs, hheld.get, hheld.owner]
      rw [hnew, hinv.entryRefs_of_entry hreg, Pc.refs_holding, Pc.refs_holding] at hchange
      simp only [Point.refs] at hchange
      omega
    · exact hframe.references ht ht' hb
  · simp at hb
  · -- The cell was cleared when the close began.
    obtain ⟨hb', hopen⟩ := hinv.owned hb
    obtain rfl : handle.addr = b := Option.some_inj.1 (hreg.symm.trans hb')
    have hstoreOpen := hopen store hheld.get
    rw [hstate] at hstoreOpen
    cases hstoreOpen
  · obtain rfl : store = st := Option.some_inj.1 (hheld.get.symm.trans hst)
    have hok := hinv.store hheld.get
    have hat : ∀ q : Point → Bool, q (.retire outcome) = q (.reclaim outcome) →
        (before ++ .holding handle (.reclaim outcome) :: after).countP (Pc.isAt q handle.addr) =
          (before ++ .holding handle (.retire outcome) :: after).countP
            (Pc.isAt q handle.addr) := by
      intro q hq
      exact Pool.countP_same before after (by simp [Pc.isAt, hq])
    refine ⟨(hat _ rfl).trans hok.leases, (hat _ rfl).trans hok.closers, hok.inner, fun h => ?_⟩
    simp [hheld.owner] at h
  · obtain ⟨st, hu⟩ := hinv.threads (.holding h q) (by
      rcases List.mem_append.1 hmem' with h | h <;> simp [h])
    exact ⟨st, hu.get, hu.owner, hu.serial, hu.state, hu.alone⟩

/-! ## Every step keeps the invariant -/

theorem Shared.onStore_of_get {k : OwnedStore → Option (Shared × Pc)}
    (hget : s.heap.get a = some store) : s.onStore a k = k store := by
  simp only [Shared.onStore, hget]

/-- A thread without a reference returns, and at most clears a cell. -/
theorem Inv.finish (hinv : Inv s (before ++ t :: after)) (hheap : s'.heap = s.heap)
    (hregistry : s'.registry = s.registry)
    (hcells : ∀ o b, s'.cells o = some b → s.cells o = some b)
    (hrefs : ∀ a, Pc.refs a t = 0) (hat : ∀ q a, Pc.isAt q a t = false) {result : Result}
    (hresult : result.isImpossible = false) : Inv s' (before ++ .done result :: after) :=
  hinv.look hheap hregistry hcells (fun a => (hrefs a).symm) (fun a => (hat _ a).symm)
    (fun a => (hat _ a).symm) (fun a h => by rw [hat] at h; cases h) hresult

theorem Inv.acquire (hinv : Inv s (before ++ .acquiring owner :: after))
    (h : s.acquire owner = some (s', t')) : Inv s' (before ++ t' :: after) := by
  have hclosed : Inv s (before ++ .done (.refused .storeIsClosed) :: after) :=
    hinv.finish rfl rfl (fun _ _ h => h) (fun _ => rfl) (fun _ _ => rfl) rfl
  unfold Shared.acquire at h
  cases hreg : s.registry owner with
  | none =>
      simp only [hreg, Option.some.injEq, Prod.mk.injEq] at h
      obtain ⟨rfl, rfl⟩ := h
      exact hclosed
  | some a =>
      simp only [hreg] at h
      split_ifs at h with hcell
      · obtain ⟨rfl, rfl⟩ := Prod.mk.inj (Option.some_inj.1 h)
        exact hclosed
      · rw [not_not] at hcell
        obtain ⟨store, hget, rfl⟩ := hinv.entry hreg
        -- The cell still has the handle, so the store is open.
        have hopen := (hinv.owned hcell).2 store hget
        rw [Shared.onStore_of_get hget] at h
        cases hstate : store.state with
        | opened n =>
            have hinner := (hinv.store hget).inner hopen
            simp only [hstate, hinner, Bool.not_true, Bool.false_eq_true, if_false] at h
            split_ifs at h
            · obtain ⟨rfl, rfl⟩ := Prod.mk.inj (Option.some_inj.1 h)
              refine hinv.lend ⟨store.owner, a, store.serial⟩ .enter _ s.cells (fun _ => rfl)
                trivial (fun _ => rfl) hreg hget rfl (fun _ _ => rfl)
                ⟨fun _ => rfl, fun _ => rfl⟩ rfl ?_ ?_
                (fun _ => hinner) (fun h => by cases h) (fun b hb => ⟨hb, ?_⟩) trivial
                (fun h => by cases h) fun q hq hne => ?_
              · simp [hstate, StoreState.active, Point.hasLease]
              · simp [hstate, isClosing, Point.isCloser]
              · rw [hopen]
                rfl
              · rw [hstate] at hq
                cases q <;> simp_all [Point.Expects, StoreState.isOpen]
            · obtain ⟨rfl, rfl⟩ := Prod.mk.inj (Option.some_inj.1 h)
              exact hinv.finish rfl rfl (fun _ _ h => h) (fun _ => rfl) (fun _ _ => rfl) rfl
        | closing n =>
            rw [hstate] at hopen
            cases hopen
        | closed outcome =>
            rw [hstate] at hopen
            cases hopen

theorem clearCell_cells (s : Shared) (owner o b : ℕ) (h : (s.clearCell owner).cells o = some b) :
    s.cells o = some b := by
  by_cases ho : o = owner
  · simp [Shared.clearCell, ho] at h
  · simpa [Shared.clearCell, ho] using h

theorem Inv.linearizeClose (hinv : Inv s (before ++ .closing owner :: after))
    (h : s.linearizeClose owner = some (s', t')) : Inv s' (before ++ t' :: after) := by
  unfold Shared.linearizeClose at h
  cases hreg : s.registry owner with
  | none =>
      simp only [hreg, Option.some.injEq, Prod.mk.injEq] at h
      obtain ⟨rfl, rfl⟩ := h
      exact hinv.finish (by rfl) (by rfl) (clearCell_cells s owner) (fun _ => rfl)
        (fun _ _ => rfl) rfl
  | some a =>
      -- The owner's cell has the registered handle or none.
      have hcell : (s.cells owner).any (· ≠ a) = false := by
        cases hcell : s.cells owner with
        | none => rfl
        | some b =>
            obtain rfl : a = b := Option.some_inj.1 (hreg.symm.trans (hinv.owned hcell).1)
            simp
      obtain ⟨store, hget, rfl⟩ := hinv.entry hreg
      simp only [hreg, hcell, Bool.false_eq_true, if_false, Shared.onStore_of_get hget] at h
      have hcells : ∀ o, o ≠ store.owner → (s.clearCell store.owner).cells o = s.cells o :=
        fun o ho => Function.update_of_ne ho _ _
      have hcleared : ∀ b, (s.clearCell store.owner).cells store.owner ≠ some b := by
        simp [Shared.clearCell]
      have hjoin : store.state.isOpen = false → Inv ((s.clearCell store.owner).clone a)
          (before ++ .holding ⟨store.owner, a, store.serial⟩ .join :: after) := by
        intro hstate
        have hid := hinv.lend ⟨store.owner, a, store.serial⟩ .join id
          (Function.update s.cells store.owner none) (fun _ => rfl) trivial (fun _ => rfl)
          hreg hget rfl hcells ⟨fun _ => rfl, fun _ => rfl⟩ rfl rfl rfl (hinv.store hget).inner
          (fun h => h) (fun b hb => absurd hb (hcleared b)) hstate (fun h => by cases h)
          fun q hq _ => hq
        rwa [RcHeap.modify_id (by rw [RcHeap.get_clone]; exact hget)] at hid
      cases hstate : store.state with
      | opened n =>
          simp only [hstate, Option.some.injEq, Prod.mk.injEq] at h
          obtain ⟨rfl, rfl⟩ := h
          refine hinv.lend ⟨store.owner, a, store.serial⟩ .drain _
            (Function.update s.cells store.owner none) (fun _ => rfl) trivial (fun _ => rfl) hreg
            hget rfl hcells ⟨fun _ => rfl, fun _ => rfl⟩ rfl ?_ ?_
            (fun h => by cases h) (fun h => by cases h) (fun b hb => absurd hb (hcleared b)) trivial
            (fun h => by cases h) fun q hq hne => ?_
          · simp [hstate, StoreState.active, Point.hasLease]
          · simp [hstate, isClosing, Point.isCloser]
          · rw [hstate] at hq
            cases q <;> simp_all [Point.Expects, StoreState.isOpen]
      | closing n =>
          simp only [hstate, Option.some.injEq, Prod.mk.injEq] at h
          obtain ⟨rfl, rfl⟩ := h
          exact hjoin (by rw [hstate]; rfl)
      | closed outcome =>
          simp only [hstate, Option.some.injEq, Prod.mk.injEq] at h
          obtain ⟨rfl, rfl⟩ := h
          exact hjoin (by rw [hstate]; rfl)

/-- A thread goes on to another point, with the store as it is. -/
theorem Inv.advance {handle : Handle} {p point : Point}
    (hinv : Inv s (before ++ .holding handle p :: after)) (hheld : Held s handle p store)
    (hrefs : point.refs = p.refs) (hleases : point.hasLease = p.hasLease)
    (hclosers : point.isCloser = p.isCloser)
    (hretirers : p.isRetirer = true → s.registry handle.owner ≠ some handle.addr)
    (hself : point.Expects store.state) (hpublish : point ≠ .publish) :
    Inv s (before ++ .holding handle point :: after) := by
  refine hinv.look rfl rfl (fun _ _ h => h) (fun a => by simp only [Pc.refs, hrefs])
    (fun a => by simp only [Pc.isAt, hleases]) (fun a => by simp only [Pc.isAt, hclosers])
    (fun a hat => .inr fun o ho => ?_)
    ⟨store, hheld.get, hheld.owner, hheld.serial, hself, fun h => absurd h hpublish⟩
  simp only [Pc.isAt, Bool.and_eq_true, decide_eq_true_eq] at hat
  obtain ⟨rfl, hretirer⟩ := hat
  obtain ⟨st, hst, rfl⟩ := hinv.entry ho
  obtain rfl : store = st := Option.some_inj.1 (hheld.get.symm.trans hst)
  exact hretirers hretirer (hheld.owner ▸ ho)

/-- The end of a lease counts it off: its store counts at least this one. -/
theorem Inv.uncount {handle : Handle} {ran : Bool}
    (hinv : Inv s (before ++ .holding handle (.uncount ran) :: after))
    (hheld : Held s handle (.uncount ran) store) :
    Inv (s.uncount handle.addr store) (before ++ .holding handle (.leave ran) :: after) := by
  have hok := hinv.store hheld.get
  have hactive : 0 < store.state.active := by
    rw [← hok.leases, List.countP_pos_iff]
    exact ⟨_, List.mem_append_cons_self, by simp [Pc.isAt, Point.hasLease]⟩
  obtain ⟨n, hstate | hstate⟩ := StoreState.eq_succ_of_active_pos hactive
  · simp only [Shared.uncount, hstate]
    refine hinv.modify hheld ⟨fun _ => rfl, fun _ => rfl⟩ rfl ?_ ?_ (fun _ => hok.inner ?_)
      (fun h => by cases h) ?_ trivial (fun h => by cases h) fun h q _ _ hq hne => ?_
    · simp [hstate, StoreState.active, Point.hasLease]
    · simp [hstate, isClosing, Point.isCloser]
    · rw [hstate]
      rfl
    · rw [hstate]
      rfl
    · rw [hstate] at hq
      cases q <;> simp_all [Point.Expects, StoreState.isOpen]
  · simp only [Shared.uncount, hstate]
    refine hinv.modify hheld ⟨fun _ => rfl, fun _ => rfl⟩ rfl ?_ ?_ (fun h => by cases h)
      (fun h => by cases h) ?_ trivial (fun h => by cases h) fun h q _ _ hq hne => ?_
    · simp [hstate, StoreState.active, Point.hasLease]
    · simp [hstate, isClosing, Point.isCloser]
    · rw [hstate]
      rfl
    · rw [hstate] at hq
      cases q <;> simp_all [Point.Expects, StoreState.isOpen]

/-- A thread returns with its last reference. -/
theorem Inv.leave {handle : Handle} {p : Point} {result : Result}
    (hinv : Inv s (before ++ .holding handle p :: after)) (hrefs : p.refs = 1)
    (hlease : p.hasLease = false) (hcloser : p.isCloser = false) (hretirer : p.isRetirer = false)
    (hresult : result.isImpossible = false) :
    Inv (s.release handle.addr) (before ++ .done result :: after) :=
  hinv.release trivial hrefs.symm (by simp [Pc.isAt, hlease, hcloser, hretirer]) fun _ => hresult

theorem Inv.isClosing_of_closer {handle : Handle} {p : Point}
    (hinv : Inv s (before ++ .holding handle p :: after)) (hheld : Held s handle p store)
    (hp : p.isCloser = true) : isClosing store.state = true :=
  Pool.eq_true_of_mem (hinv.store hheld.get).closers List.mem_append_cons_self
    (by simp [Pc.isAt, hp])

theorem Inv.move {handle : Handle} {p : Point} {ok : Bool}
    (hinv : Inv s (before ++ .holding handle p :: after)) (h : s.move handle ok p = some (s', t')) :
    Inv s' (before ++ t' :: after) := by
  obtain ⟨store, hheld⟩ := hinv.threads _ List.mem_append_cons_self
  cases p with
  | publish =>
      simp only [Shared.move, Shared.publishStore, Option.some.injEq] at h
      split_ifs at h with hreg
      · obtain ⟨rfl, rfl⟩ := Prod.mk.inj h
        exact hinv.advance hheld rfl rfl rfl (fun h => by cases h) trivial (fun h => by cases h)
      · obtain ⟨rfl, rfl⟩ := Prod.mk.inj h
        exact hinv.register (by simpa using hreg)
  | unpublished =>
      obtain ⟨rfl, rfl⟩ := Prod.mk.inj (Option.some_inj.1 h)
      exact hinv.leave rfl rfl rfl rfl rfl
  | enter =>
      simp only [Shared.move, Shared.onStore_of_get hheld.get] at h
      split_ifs at h
      · obtain ⟨rfl, rfl⟩ := Prod.mk.inj (Option.some_inj.1 h)
        exact hinv.advance hheld rfl rfl rfl (fun h => by cases h) trivial (fun h => by cases h)
      · obtain ⟨rfl, rfl⟩ := Prod.mk.inj (Option.some_inj.1 h)
        exact hinv.advance hheld rfl rfl rfl (fun h => by cases h) trivial (fun h => by cases h)
  | call =>
      simp only [Shared.move] at h
      split_ifs at h
      · obtain ⟨rfl, rfl⟩ := Prod.mk.inj (Option.some_inj.1 h)
        exact hinv.advance hheld rfl rfl rfl (fun h => by cases h) trivial (fun h => by cases h)
      · obtain ⟨rfl, rfl⟩ := Prod.mk.inj (Option.some_inj.1 h)
        exact hinv.modify hheld ⟨fun _ => rfl, fun _ => rfl⟩ rfl rfl rfl
          (hinv.store hheld.get).inner (fun h => .inr ⟨h, rfl⟩) rfl trivial (fun h => by cases h)
          fun _ _ _ _ hq _ => hq
  | uncount ran =>
      simp only [Shared.move, Shared.onStore_of_get hheld.get, Option.some.injEq,
        Prod.mk.injEq] at h
      obtain ⟨rfl, rfl⟩ := h
      exact hinv.uncount hheld
  | leave ran =>
      obtain ⟨rfl, rfl⟩ := Prod.mk.inj (Option.some_inj.1 h)
      exact hinv.leave rfl rfl rfl rfl rfl
  | join =>
      simp only [Shared.move, Shared.onStore_of_get hheld.get] at h
      cases hstate : store.state with
      | closed outcome =>
          simp only [hstate, Option.some.injEq, Prod.mk.injEq] at h
          obtain ⟨rfl, rfl⟩ := h
          exact hinv.advance hheld rfl rfl rfl (fun h => by cases h) hstate (fun h => by cases h)
      | opened n => simp [hstate] at h
      | closing n => simp [hstate] at h
  | drain =>
      simp only [Shared.move, Shared.onStore_of_get hheld.get] at h
      have hclosing := hinv.isClosing_of_closer hheld rfl
      cases hstate : store.state with
      | closing n =>
          cases n with
          | zero =>
              simp only [hstate, Option.some.injEq, Prod.mk.injEq] at h
              obtain ⟨rfl, rfl⟩ := h
              exact hinv.advance hheld rfl rfl rfl (fun h => by cases h) hstate
                (fun h => by cases h)
          | succ n => simp [hstate] at h
      | opened n => simp [hstate, isClosing] at hclosing
      | closed outcome => simp [hstate, isClosing] at hclosing
  | take =>
      obtain ⟨rfl, rfl⟩ := Prod.mk.inj (Option.some_inj.1 h)
      have hstate : store.state = .closing 0 := hheld.state
      refine hinv.modify hheld ⟨fun _ => rfl, fun _ => rfl⟩ rfl rfl rfl (fun h => ?_)
        (fun h => .inr ⟨h, rfl⟩) rfl hstate (fun h => by cases h) fun _ _ _ _ hq _ => hq
      rw [show store.state = .closing 0 from hstate] at h
      cases h
  | markClosed outcome =>
      obtain ⟨rfl, rfl⟩ := Prod.mk.inj (Option.some_inj.1 h)
      have hstate : store.state = .closing 0 := hheld.state
      refine hinv.modify hheld ⟨fun _ => rfl, fun _ => rfl⟩ rfl ?_ ?_ (fun h => by cases h)
        (fun _ => .inl rfl) ?_ rfl (fun h => by cases h) fun h q hmem haddr hq hne => ?_
      · simp [hstate, StoreState.active, Point.hasLease]
      · simp [hstate, isClosing, Point.isCloser]
      · rw [hstate]
        rfl
      · -- There is one closer.
        have hnot : Pc.isAt Point.isCloser handle.addr (.holding h q) = false := by
          refine Pool.not_of_countP_le_one (t := .holding handle (.markClosed outcome)) ?_
            (by simp [Pc.isAt, Point.isCloser]) hmem
          rw [(hinv.store hheld.get).closers]
          exact Bool.toNat_le _
        simp only [Pc.isAt, haddr, decide_true, Bool.true_and] at hnot
        rw [hstate] at hq
        cases q <;> simp_all [Point.Expects, Point.isCloser, StoreState.isOpen]
  | retire outcome =>
      simp only [Shared.move] at h
      split_ifs at h with hreg
      · obtain ⟨rfl, rfl⟩ := Prod.mk.inj (Option.some_inj.1 h)
        exact hinv.unregister hreg
      · obtain ⟨rfl, rfl⟩ := Prod.mk.inj (Option.some_inj.1 h)
        exact hinv.advance hheld rfl rfl rfl (fun _ => hreg) trivial (fun h => by cases h)
  | reclaim outcome =>
      obtain ⟨rfl, rfl⟩ := Prod.mk.inj (Option.some_inj.1 h)
      refine hinv.release rfl (by rw [Pc.refs_holding]; rfl)
        (by simp [Pc.isAt, Point.hasLease, Point.isCloser, Point.isRetirer]) fun hkept => ?_
      exact ⟨store, (hkept (by rw [Pc.refs_holding]; exact Point.refs_pos _)).trans hheld.get,
        hheld.owner, hheld.serial, trivial, fun h => by cases h⟩
  | discard outcome =>
      obtain ⟨rfl, rfl⟩ := Prod.mk.inj (Option.some_inj.1 h)
      refine hinv.release rfl (by rw [Pc.refs_holding]; rfl)
        (by simp [Pc.isAt, Point.hasLease, Point.isCloser, Point.isRetirer]) fun hkept => ?_
      exact ⟨store, (hkept (by rw [Pc.refs_holding]; exact Point.refs_pos _)).trans hheld.get,
        hheld.owner, hheld.serial, trivial, fun h => by cases h⟩
  | returning outcome =>
      obtain ⟨rfl, rfl⟩ := Prod.mk.inj (Option.some_inj.1 h)
      exact hinv.leave rfl rfl rfl rfl rfl

theorem Inv.step {choice : Choice} (hinv : Inv s (before ++ t :: after))
    (h : next s t choice = some (s', t')) : Inv s' (before ++ t' :: after) := by
  cases t with
  | opening owner =>
      obtain ⟨rfl, rfl⟩ := Prod.mk.inj (Option.some_inj.1 h)
      split_ifs
      · exact hinv.look (by rfl) (by rfl) (clearCell_cells s owner) (fun _ => rfl) (fun _ => rfl)
          (fun _ => rfl) (fun a h => by cases h) trivial
      · exact hinv.finish (by rfl) (by rfl) (clearCell_cells s owner) (fun _ => rfl)
          (fun _ _ => rfl) rfl
  | building owner =>
      simp only [next] at h
      split_ifs at h with hok hfree
      · obtain ⟨rfl, rfl⟩ := Prod.mk.inj (Option.some_inj.1 h)
        exact hinv.finish rfl rfl (fun _ _ h => h) (fun _ => rfl) (fun _ _ => rfl) rfl
      · obtain ⟨rfl, rfl⟩ := Prod.mk.inj (Option.some_inj.1 h)
        exact hinv.build (fun _ => rfl) trivial (by simpa using hfree)
  | acquiring owner => exact hinv.acquire h
  | closing owner => exact hinv.linearizeClose h
  | holding handle point => exact hinv.move h
  | done result => cases h

theorem Inv.start (hinv : Inv s threads) (entry : Entry) : Inv s (threads ++ [entry.pc]) := by
  have hrefs : ∀ a, Pc.refs a entry.pc = 0 := fun a => by cases entry <;> rfl
  have hat : ∀ q a, Pc.isAt q a entry.pc = false := fun q a => by cases entry <;> rfl
  have hreferences : ∀ a, references s (threads ++ [entry.pc]) a = references s threads a :=
    fun a => by simp [references, hrefs]
  refine ⟨hinv.balanced.congr hreferences, hinv.bounded, hinv.entry, hinv.owned, fun hget => ?_,
    List.forall_mem_append.2 ⟨hinv.threads, ?_⟩⟩
  · obtain ⟨hleases, hclosers, hinner, hretirers⟩ := hinv.store hget
    have hsame : ∀ q a, (threads ++ [entry.pc]).countP (Pc.isAt q a) =
        threads.countP (Pc.isAt q a) := fun q a => Pool.countP_start (hat q a)
    exact ⟨(hsame _ _).trans hleases, (hsame _ _).trans hclosers, hinner, fun hreg hclosed =>
      (hretirers hreg hclosed).trans_eq (hsame _ _).symm⟩
  · cases entry <;> simp [Entry.pc, Pc.Ok]

end Steps

theorem inv_init : Inv .init [] where
  balanced := RcHeap.Balanced.empty.congr fun _ => rfl
  bounded := ⟨0, fun _ _ => rfl⟩
  entry h := by cases h
  owned h := by cases h
  store h := by cases h
  threads t h := by cases h

theorem inv_run (ops : List (Pool.Op Entry Choice)) :
    Inv (machine.run ops).shared (machine.run ops).threads :=
  Pool.exec_invariant (fun _ _ entry hinv => hinv.start entry)
    (fun _ _ _ _ _ _ _ hinv hnext => hinv.step hnext) inv_init ops

/-- Where every call has returned, the stores in memory are the registered ones. -/
theorem Inv.quiet {s : Shared} {threads : List Pc} (hinv : Inv s threads)
    (hdone : ∀ t ∈ threads, ∃ result, t = .done result) {a : ℕ} {store : OwnedStore}
    (hget : s.heap.get a = some store) :
    s.registry store.owner = some a ∧ store.state = .opened 0 ∧ s.heap.strong a = 2 := by
  have hsum : (threads.map (Pc.refs a)).sum = 0 := by
    rw [List.sum_eq_zero_iff]
    intro n hn
    obtain ⟨t, ht, rfl⟩ := List.mem_map.1 hn
    obtain ⟨result, rfl⟩ := hdone t ht
    rfl
  have hcount : ∀ q, threads.countP (Pc.isAt q a) = 0 := fun q => by
    rw [List.countP_eq_zero]
    intro t ht
    obtain ⟨result, rfl⟩ := hdone t ht
    simp [Pc.isAt]
  have hpos := hinv.balanced.held_pos hget
  have hstrong := hinv.balanced.count a
  rw [references, hsum, entryRefs_of_get hget] at hpos hstrong
  by_cases hreg : s.registry store.owner = some a
  · obtain ⟨hleases, hclosers, -, hretirers⟩ := hinv.store hget
    rw [hcount] at hleases hclosers hretirers
    rw [if_pos hreg] at hstrong
    refine ⟨hreg, ?_, hstrong⟩
    cases hstate : store.state with
    | opened n =>
        rw [hstate] at hleases
        exact congrArg StoreState.opened hleases.symm
    | closing n =>
        rw [hstate] at hclosers
        cases hclosers
    | closed outcome => exact absurd (hretirers hreg (by rw [hstate]; rfl)) (lt_irrefl 0)
  · rw [if_neg hreg] at hpos
    exact absurd hpos (lt_irrefl 0)

/-- The handle protocol is memory safe, in every interleaving and with addresses reused. No freed
store is touched and no count is lost; a thread's reference is to the store it was taken to for as
long as the thread has it; a cell with a handle has the one that is registered for it, to an open
store of that owner; no call finds a store closing or a cell with another handle. Where all calls
have returned, the stores that are left are open and registered, with the two references of the
registry: nothing leaks. -/
theorem handles_are_safe (ops : List (Pool.Op Entry Choice)) :
    let p := machine.run ops
    p.shared.heap.fault = false ∧
      (∀ a, p.shared.heap.strong a = references p.shared p.threads a) ∧
      (∀ handle point, .holding handle point ∈ p.threads →
        ∃ store, p.shared.heap.get handle.addr = some store ∧ store.owner = handle.owner ∧
          store.serial = handle.serial) ∧
      (∀ owner a, p.shared.cells owner = some a → p.shared.registry owner = some a ∧
        ∃ store, p.shared.heap.get a = some store ∧ store.owner = owner ∧
          store.state.isOpen = true) ∧
      (∀ result, .done result ∈ p.threads → result.isImpossible = false) ∧
      ((∀ t ∈ p.threads, ∃ result, t = .done result) →
        ∀ a store, p.shared.heap.get a = some store → p.shared.registry store.owner = some a ∧
          store.state = .opened 0 ∧ p.shared.heap.strong a = 2) := by
  intro p
  have hinv : Inv p.shared p.threads := inv_run ops
  refine ⟨hinv.balanced.noFault, hinv.balanced.count, fun handle point hmem => ?_,
    fun owner a hcell => ?_, fun result hmem => hinv.threads _ hmem,
    fun hdone a store hget => hinv.quiet hdone hget⟩
  · obtain ⟨store, hheld⟩ := hinv.threads _ hmem
    exact ⟨store, hheld.get, hheld.owner, hheld.serial⟩
  · obtain ⟨hreg, hopen⟩ := hinv.owned hcell
    obtain ⟨store, hget, howner⟩ := hinv.entry hreg
    exact ⟨hreg, store, hget, howner, hopen store hget⟩

/-! ## Every call returns -/

/-- An upper bound of the steps to the end of a call, waits apart. -/
def Point.remaining : Point → ℕ
  | .drain => 7
  | .take => 6
  | .markClosed _ | .join => 5
  | .retire _ | .enter => 4
  | .reclaim _ | .call => 3
  | .discard _ | .publish | .uncount _ => 2
  | .returning _ | .unpublished | .leave _ => 1

def Pc.remaining : Pc → ℕ
  | closing _ => 8
  | acquiring _ => 5
  | opening _ => 4
  | building _ => 3
  | holding _ point => point.remaining
  | done _ => 0

def remaining (p : Pool Shared Pc) : ℕ := (p.threads.map Pc.remaining).sum

section Progress

variable {s s' : Shared} {t t' : Pc}

theorem move_remaining {handle : Handle} {ok : Bool} {point : Point}
    (h : s.move handle ok point = some (s', t')) : t'.remaining < point.remaining := by
  cases point <;> simp only [Shared.move, Shared.publishStore, Shared.onStore] at h <;>
    grind [Pc.remaining, Point.remaining]

theorem next_remaining {choice : Choice} (h : next s t choice = some (s', t')) :
    t'.remaining < t.remaining := by
  cases t with
  | holding handle point => exact move_remaining h
  | _ =>
      simp only [next, Shared.acquire, Shared.linearizeClose, Shared.onStore] at h
      grind [Pc.remaining, Point.remaining]

/-- A thread that cannot move has returned, or waits for a store to be closed or drained. -/
theorem waits_of_next (h : next s t ⟨false, 0⟩ = none) :
    (∃ result, t = .done result) ∨
      (∃ handle store, t = .holding handle .join ∧ s.heap.get handle.addr = some store ∧
        isClosed store.state = false) ∨
      ∃ handle store n, t = .holding handle .drain ∧ s.heap.get handle.addr = some store ∧
        store.state = .closing (n + 1) := by
  cases t with
  | holding handle point =>
      cases point <;> simp only [next, Shared.move, Shared.publishStore, Shared.onStore] at h <;>
        grind [isClosed]
  | done result => exact .inl ⟨result, rfl⟩
  | _ =>
      simp only [next, Shared.acquire, Shared.linearizeClose, Shared.onStore] at h
      grind

theorem exists_of_isAt {q : Point → Bool} {a : ℕ} (h : Pc.isAt q a t = true) :
    ∃ handle point, t = .holding handle point ∧ handle.addr = a ∧ q point = true := by
  cases t with
  | holding handle point =>
      simp only [Pc.isAt, Bool.and_eq_true, decide_eq_true_eq] at h
      exact ⟨handle, point, rfl, h.1, h.2⟩
  | _ => cases h

/-- Nobody waits for ever: a close waits for leases, which end on their own, and a close that joins
waits for the one that closes. -/
theorem Inv.done_of_stuck {threads : List Pc} (hinv : Inv s threads)
    (hstuck : ∀ t ∈ threads, next s t ⟨false, 0⟩ = none) :
    ∀ t ∈ threads, ∃ result, t = .done result := by
  have hdrained : ∀ {a store n}, s.heap.get a = some store → store.state ≠ .closing (n + 1) := by
    intro a store n hget hstate
    have hleases := (hinv.store hget).leases
    rw [hstate] at hleases
    have hpos : 0 < threads.countP (Pc.isAt Point.hasLease a) := by
      rw [hleases]
      exact Nat.succ_pos n
    obtain ⟨t, ht, hat⟩ := List.countP_pos_iff.1 hpos
    obtain ⟨handle, point, rfl, -, hlease⟩ := exists_of_isAt hat
    rcases waits_of_next (hstuck _ ht) with ⟨result, heq⟩ | ⟨_, _, heq, -⟩ | ⟨_, _, _, heq, -⟩
    · cases heq
    · cases heq
      cases hlease
    · cases heq
      cases hlease
  intro t ht
  rcases waits_of_next (hstuck t ht) with hdone | ⟨handle, store, rfl, hget, hclosed⟩ |
    ⟨handle, store, n, rfl, hget, hstate⟩
  · exact hdone
  · obtain ⟨st, hheld⟩ := hinv.threads _ ht
    obtain rfl : store = st := Option.some_inj.1 (hget.symm.trans hheld.get)
    have hopen : store.state.isOpen = false := hheld.state
    have hclosing : isClosing store.state = true := by
      cases hstate : store.state <;> simp_all [isClosed, isClosing, StoreState.isOpen]
    have hclosers := (hinv.store hget).closers
    rw [hclosing] at hclosers
    have hpos : 0 < threads.countP (Pc.isAt Point.isCloser handle.addr) := by
      rw [hclosers]
      exact Nat.one_pos
    obtain ⟨u, hu, hat⟩ := List.countP_pos_iff.1 hpos
    obtain ⟨handle', point, rfl, -, hcloser⟩ := exists_of_isAt hat
    rcases waits_of_next (hstuck _ hu) with ⟨result, heq⟩ | ⟨_, _, heq, -⟩ |
      ⟨_, _, _, -, hget', hstate'⟩
    · cases heq
    · cases heq
      cases hcloser
    · exact absurd hstate' (hdrained hget')
  · exact absurd hstate (hdrained hget)

end Progress

end EventSorcery.OwnerSystem
