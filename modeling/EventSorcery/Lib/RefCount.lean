import Mathlib

/-!
# Reference-counted memory

A heap maps addresses to counted cells. A new cell has one reference; a cell is freed when its last
reference is released, and its address may then be given out again. Nothing keeps an operation from
naming a freed address: it sets `fault` instead. `Balanced` says that every count is the number of
references that someone holds. As long as operations are made with a held reference, it is kept, and
with it the absence of faults.
-/

structure Counted (α : Type*) where
  strong : ℕ
  value : α

structure RcHeap (α : Type*) where
  cells : ℕ → Option (Counted α)
  fault : Bool

namespace RcHeap

variable {α : Type*}

def empty : RcHeap α := ⟨fun _ => none, false⟩

/-- What the cell at an address holds. -/
def get (heap : RcHeap α) (a : ℕ) : Option α := (heap.cells a).map Counted.value

/-- The references counted at an address. -/
def strong (heap : RcHeap α) (a : ℕ) : ℕ := ((heap.cells a).map Counted.strong).getD 0

/-- A new cell with one reference. -/
def alloc (heap : RcHeap α) (a : ℕ) (value : α) : RcHeap α :=
  { heap with cells := Function.update heap.cells a (some ⟨1, value⟩) }

/-- Run an operation on the cell at an address, which has to be there. -/
def onCell (heap : RcHeap α) (a : ℕ) (op : Counted α → Option (Counted α)) : RcHeap α :=
  match heap.cells a with
  | none => { heap with fault := true }
  | some cell => { heap with cells := Function.update heap.cells a (op cell) }

/-- One more reference. -/
def clone (heap : RcHeap α) (a : ℕ) : RcHeap α :=
  heap.onCell a fun cell => some { cell with strong := cell.strong + 1 }

/-- One reference less; the last one frees the cell. -/
def release (heap : RcHeap α) (a : ℕ) : RcHeap α :=
  heap.onCell a fun cell =>
    if cell.strong ≤ 1 then none else some { cell with strong := cell.strong - 1 }

def modify (heap : RcHeap α) (a : ℕ) (f : α → α) : RcHeap α :=
  heap.onCell a fun cell => some { cell with value := f cell.value }

/-! ## What an operation does to a cell -/

section Cells

variable {heap : RcHeap α} {a b : ℕ} {v : α}

theorem get_eq_some : heap.get a = some v ↔ ∃ n, heap.cells a = some ⟨n, v⟩ := by
  simp only [get, Option.map_eq_some_iff]
  constructor
  · rintro ⟨⟨n, value⟩, hcell, rfl⟩
    exact ⟨n, hcell⟩
  · rintro ⟨n, hcell⟩
    exact ⟨_, hcell, rfl⟩

theorem get_alloc_self (heap : RcHeap α) (a : ℕ) (v : α) : (heap.alloc a v).get a = some v := by
  simp [get, alloc]

theorem cells_onCell_of_ne (op : Counted α → Option (Counted α)) (h : b ≠ a) :
    (heap.onCell a op).cells b = heap.cells b := by
  unfold onCell
  cases heap.cells a <;> simp [h]

theorem cells_onCell_self (op : Counted α → Option (Counted α)) :
    (heap.onCell a op).cells a = (heap.cells a).bind op := by
  unfold onCell
  cases h : heap.cells a <;> simp [h]

theorem get_onCell_of_ne (op : Counted α → Option (Counted α)) (h : b ≠ a) :
    (heap.onCell a op).get b = heap.get b := by
  rw [get, get, cells_onCell_of_ne op h]

@[simp] theorem get_clone (heap : RcHeap α) (a b : ℕ) : (heap.clone a).get b = heap.get b := by
  by_cases h : b = a
  · subst h
    rw [get, clone, cells_onCell_self]
    cases hcell : heap.cells b <;> simp [get, hcell]
  · exact get_onCell_of_ne _ h

theorem get_release_of_ne (h : b ≠ a) : (heap.release a).get b = heap.get b :=
  get_onCell_of_ne _ h

theorem get_modify_of_ne (f : α → α) (h : b ≠ a) : (heap.modify a f).get b = heap.get b :=
  get_onCell_of_ne _ h

theorem get_modify_self (f : α → α) : (heap.modify a f).get a = (heap.get a).map f := by
  rw [get, modify, cells_onCell_self]
  cases hcell : heap.cells a <;> simp [get, hcell]

theorem modify_id (h : heap.get a = some v) : heap.modify a id = heap := by
  obtain ⟨n, hcell⟩ := get_eq_some.1 h
  have hupdate : Function.update heap.cells a (some ⟨n, v⟩) = heap.cells := by
    rw [← hcell, Function.update_eq_self]
  simp [modify, onCell, hcell, hupdate]

end Cells

/-! ## Counts and held references -/

/-- No fault, and every count is the number of references held. -/
structure Balanced (heap : RcHeap α) (held : ℕ → ℕ) : Prop where
  noFault : heap.fault = false
  count : ∀ a, heap.strong a = held a
  pos : ∀ a cell, heap.cells a = some cell → 0 < cell.strong

namespace Balanced

variable {heap : RcHeap α} {held held' : ℕ → ℕ} {a : ℕ} {v : α}

theorem empty : (RcHeap.empty : RcHeap α).Balanced fun _ => 0 :=
  ⟨rfl, fun _ => rfl, fun _ _ h => by simp [RcHeap.empty] at h⟩

theorem congr (h : heap.Balanced held) (heq : ∀ b, held' b = held b) : heap.Balanced held' :=
  ⟨h.noFault, fun b => (h.count b).trans (heq b).symm, h.pos⟩

/-- Where a reference is held there is a cell. -/
theorem exists_cell (h : heap.Balanced held) (hheld : 0 < held a) :
    ∃ value, heap.cells a = some ⟨held a, value⟩ := by
  have hcount := h.count a
  cases hcell : heap.cells a with
  | none =>
      rw [strong, hcell] at hcount
      simp only [Option.map_none, Option.getD_none] at hcount
      omega
  | some cell =>
      rw [strong, hcell] at hcount
      simp only [Option.map_some, Option.getD_some] at hcount
      exact ⟨cell.value, by rw [← hcount]⟩

/-- A cell is there as long as it is referenced. -/
theorem held_pos (h : heap.Balanced held) (hget : heap.get a = some v) : 0 < held a := by
  obtain ⟨n, hcell⟩ := get_eq_some.1 hget
  have hcount := h.count a
  rw [strong, hcell] at hcount
  have hpos := h.pos a _ hcell
  simp only [Option.map_some, Option.getD_some] at hcount hpos
  omega

theorem alloc (h : heap.Balanced held) (hfree : heap.cells a = none)
    (hheld : ∀ b, held' b = held b + if b = a then 1 else 0) : (heap.alloc a v).Balanced held' where
  noFault := h.noFault
  count b := by
    have hcount := h.count b
    rw [hheld b, ← hcount]
    by_cases hb : b = a
    · subst hb
      simp [strong, RcHeap.alloc, hfree]
    · simp [strong, RcHeap.alloc, hb]
  pos b cell hcell := by
    by_cases hb : b = a
    · simp only [RcHeap.alloc, hb, Function.update_self, Option.some.injEq] at hcell
      simp [← hcell]
    · simp only [RcHeap.alloc, Function.update_of_ne hb] at hcell
      exact h.pos b cell hcell

/-- An operation on a cell that is there, which leaves a cell with as many references as are held
afterwards, or none where none is held. -/
theorem onCell (h : heap.Balanced held) {op : Counted α → Option (Counted α)}
    (hpos : 0 < held a) (hother : ∀ b, b ≠ a → held' b = held b)
    (hself : ∀ value, (∃ value', op ⟨held a, value⟩ = some ⟨held' a, value'⟩ ∧ 0 < held' a) ∨
      op ⟨held a, value⟩ = none ∧ held' a = 0) : (heap.onCell a op).Balanced held' := by
  obtain ⟨value, hcell⟩ := h.exists_cell hpos
  have hat : (heap.onCell a op).cells a = op ⟨held a, value⟩ := by
    rw [cells_onCell_self, hcell]
    rfl
  refine ⟨?_, fun b => ?_, fun b cell hb => ?_⟩
  · simp only [RcHeap.onCell, hcell, h.noFault]
  · by_cases hb : b = a
    · subst hb
      rw [strong, hat]
      rcases hself value with ⟨value', hop, -⟩ | ⟨hop, hzero⟩
      · rw [hop]
        rfl
      · rw [hop, hzero]
        rfl
    · rw [strong, cells_onCell_of_ne op hb, hother b hb]
      exact h.count b
  · by_cases hba : b = a
    · subst hba
      rw [hat] at hb
      rcases hself value with ⟨value', hop, hpos'⟩ | ⟨hop, -⟩
      · rw [hop, Option.some.injEq] at hb
        rw [← hb]
        exact hpos'
      · rw [hop] at hb
        cases hb
    · rw [cells_onCell_of_ne op hba] at hb
      exact h.pos b cell hb

theorem clone (h : heap.Balanced held) (hpos : 0 < held a)
    (hheld : ∀ b, held' b = held b + if b = a then 1 else 0) : (heap.clone a).Balanced held' := by
  refine h.onCell hpos (fun b hb => by simp [hheld b, hb]) fun value => .inl ⟨value, ?_, ?_⟩
  · simp [hheld a]
  · simp [hheld a]

theorem modify (h : heap.Balanced held) (hpos : 0 < held a) (f : α → α)
    (hheld : ∀ b, held' b = held b) : (heap.modify a f).Balanced held' :=
  h.onCell hpos (fun b _ => hheld b) fun value => .inl ⟨f value, by simp [hheld a], by rwa [hheld a]⟩

theorem release (h : heap.Balanced held) (hheld : ∀ b, held' b + (if b = a then 1 else 0) = held b) :
    (heap.release a).Balanced held' := by
  have hself : held' a + 1 = held a := by simpa using hheld a
  refine h.onCell (by omega) (fun b hb => by simpa [hb] using hheld b) fun value => ?_
  by_cases hlast : held a ≤ 1
  · exact .inr ⟨if_pos hlast, by omega⟩
  · refine .inl ⟨value, ?_, by omega⟩
    rw [if_neg hlast]
    simp only [Option.some.injEq, Counted.mk.injEq, and_true]
    omega

/-- A reference that is not the last one leaves the cell's value. -/
theorem get_release (h : heap.Balanced held) (hmore : 1 < held a) (b : ℕ) :
    (heap.release a).get b = heap.get b := by
  by_cases hb : b = a
  · subst hb
    obtain ⟨value, hcell⟩ := h.exists_cell (a := b) (by omega)
    rw [get, get, RcHeap.release, cells_onCell_self, hcell, Option.bind_some, if_neg (by
      simpa using hmore)]
    rfl
  · exact get_release_of_ne hb

theorem get_release_last (h : heap.Balanced held) (hlast : held a = 1) :
    (heap.release a).get a = none := by
  obtain ⟨value, hcell⟩ := h.exists_cell (a := a) (by omega)
  rw [get, RcHeap.release, cells_onCell_self, hcell, Option.bind_some, if_pos (by simp [hlast])]
  rfl

end Balanced

end RcHeap
