import Mathlib

/-!
# Queries over the rows of a table

A query keeps the rows that satisfy a predicate in disjunctive normal form, sorts them by a column and
returns the first of them. A cell is null or holds an integer or a text; a comparison with null is
never true. In an ordering, null comes first, then integers, then texts. Rows that agree in the sort
column come in the order in which the table was scanned.
-/

namespace Sql

/-- A scalar that is not null. -/
inductive Value where
  | int (n : ℤ)
  | text (s : String)
  deriving DecidableEq, Repr

/-- What a row holds in a column; `none` is null. -/
abbrev Cell := Option Value

/-- Integers come before texts. -/
def Value.le : Value → Value → Bool
  | .int a, .int b => a ≤ b
  | .int _, .text _ => true
  | .text _, .int _ => false
  | .text a, .text b => a ≤ b

/-- Null comes before every value. -/
def Cell.le : Cell → Cell → Bool
  | none, _ => true
  | some _, none => false
  | some a, some b => a.le b

inductive Cmp where
  | eq
  | lt
  | le
  | gt
  | ge
  | isNull
  | isNotNull
  deriving DecidableEq, Repr

/-- Whether a comparison is true; comparisons other than the two null tests need two values. -/
def Cmp.holds (cmp : Cmp) (cell bound : Cell) : Bool :=
  match cmp, cell, bound with
  | .isNull, cell, _ => cell.isNone
  | .isNotNull, cell, _ => cell.isSome
  | .eq, some a, some b => a = b
  | .lt, some a, some b => !b.le a
  | .le, some a, some b => a.le b
  | .gt, some a, some b => !a.le b
  | .ge, some a, some b => b.le a
  | _, _, _ => false

/-- One column comparison. -/
structure Term where
  column : String
  cmp : Cmp
  value : Cell

/-- A predicate in disjunctive normal form. -/
structure Predicate where
  anyOf : List (List Term)

structure Order where
  column : String
  ascending : Bool

variable {ρ : Type*}

def Predicate.holds (predicate : Predicate) (columns : String → Cell) : Bool :=
  predicate.anyOf.any fun conjunction =>
    conjunction.all fun term => term.cmp.holds (columns term.column) term.value

def Order.le (order : Order) (columns : ρ → String → Cell) (a b : ρ) : Bool :=
  if order.ascending then Cell.le (columns a order.column) (columns b order.column)
  else Cell.le (columns b order.column) (columns a order.column)

/-- A negative limit is none. -/
def limited (limit : ℤ) (rows : List ρ) : List ρ :=
  if limit < 0 then rows else rows.take limit.toNat

def select (columns : ρ → String → Cell) (predicate : Predicate) (order : Option Order) (limit : ℤ)
    (scan : List ρ) : List ρ :=
  let found := scan.filter fun row => predicate.holds (columns row)
  match order with
  | none => limited limit found
  | some order => limited limit (found.mergeSort (order.le columns))

theorem Value.le_trans {a b c : Value} (hab : a.le b) (hbc : b.le c) : a.le c := by
  cases a <;> cases b <;> cases c <;> simp only [Value.le, decide_eq_true_eq, Bool.false_eq_true] at *
  · exact hab.trans hbc
  · exact hab.trans hbc

theorem Value.le_total (a b : Value) : a.le b || b.le a := by
  cases a <;> cases b <;> simp only [Value.le, Bool.or_eq_true, decide_eq_true_eq, Bool.or_true,
    Bool.true_or]
  · exact Int.le_total _ _
  · exact String.le_total _ _

theorem Cell.le_trans {a b c : Cell} (hab : a.le b) (hbc : b.le c) : a.le c := by
  match a, b, c with
  | none, _, _ => rfl
  | some a, some b, some c => exact Value.le_trans hab hbc

theorem Cell.le_total (a b : Cell) : a.le b || b.le a := by
  match a, b with
  | none, _ => rfl
  | some _, none => rfl
  | some a, some b => exact Value.le_total a b

theorem Order.le_trans (order : Order) (columns : ρ → String → Cell) (a b c : ρ)
    (hab : order.le columns a b) (hbc : order.le columns b c) : order.le columns a c := by
  unfold Order.le at *
  split_ifs at *
  · exact Cell.le_trans hab hbc
  · exact Cell.le_trans hbc hab

theorem Order.le_total (order : Order) (columns : ρ → String → Cell) (a b : ρ) :
    order.le columns a b || order.le columns b a := by
  unfold Order.le
  split_ifs
  · exact Cell.le_total _ _
  · exact Cell.le_total _ _

/-- An ordered query returns the first rows of the matching ones in that order. -/
theorem select_ordered (columns : ρ → String → Cell) (predicate : Predicate) (order : Order)
    (limit : ℤ) (scan : List ρ) :
    ∃ sorted, sorted.Perm (scan.filter fun row => predicate.holds (columns row)) ∧
      sorted.Pairwise (fun a b => order.le columns a b) ∧
      select columns predicate (some order) limit scan = limited limit sorted :=
  ⟨_, List.mergeSort_perm _ _,
    List.pairwise_mergeSort (order.le_trans columns) (order.le_total columns) _, rfl⟩

/-- Rows in the order of a column without repetitions ascend strictly. -/
theorem ascending_mergeSort {β : Type*} [LinearOrder β] (column : ρ → β) {rows : List ρ}
    (h : (rows.map column).Nodup) :
    ((rows.mergeSort fun a b => column a ≤ column b).map column).Pairwise (· < ·) := by
  have hsorted : (rows.mergeSort fun a b => column a ≤ column b).Pairwise
      fun a b => decide (column a ≤ column b) = true := by
    refine List.pairwise_mergeSort (fun a b c hab hbc => ?_) (fun a b => ?_) rows
    · simp only [decide_eq_true_eq] at *
      exact le_trans hab hbc
    · simpa using le_total (column a) (column b)
  have hnodup : ((rows.mergeSort fun a b => column a ≤ column b).map column).Nodup :=
    ((List.mergeSort_perm rows _).map column).nodup_iff.2 h
  refine List.Pairwise.imp₂ (fun a b hle hne => lt_of_le_of_ne hle hne) ?_ hnodup
  exact List.pairwise_map.2 (hsorted.imp fun {a b} hle => of_decide_eq_true hle)

end Sql
