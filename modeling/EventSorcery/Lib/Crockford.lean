import Mathlib

/-!
# Crockford base-32 text

Thirty-two symbols stand for the digits. A reader takes small letters for capital ones, and letters
that look like a digit for that digit; a writer uses the symbols alone. Reading a text and writing the
number back therefore gives the text with every character replaced by the symbol of its digit.
-/

namespace Crockford

def symbols : List Char :=
  ['0', '1', '2', '3', '4', '5', '6', '7', '8', '9', 'A', 'B', 'C', 'D', 'E', 'F',
    'G', 'H', 'J', 'K', 'M', 'N', 'P', 'Q', 'R', 'S', 'T', 'V', 'W', 'X', 'Y', 'Z']

/-- The symbol that a character is read as. -/
def normalize (c : Char) : Char :=
  let c := c.toUpper
  if c = 'O' then '0' else if c = 'I' ∨ c = 'L' then '1' else c

def digit (c : Char) : Option ℕ := symbols.idxOf? (normalize c)

def symbol (d : ℕ) : Char := symbols.getD d '0'

/-- The number that a text stands for, its first digit the highest. -/
def value (cs : List Char) : Option ℕ := cs.foldlM (fun n c => (digit c).map (32 * n + ·)) 0

/-- The lowest `width` digits of a number. -/
def print : ℕ → ℕ → List Char
  | 0, _ => []
  | width + 1, n => print width (n / 32) ++ [symbol (n % 32)]

/-! ## Digits -/

theorem digit_lt {c : Char} {d : ℕ} (h : digit c = some d) : d < 32 := by
  have hlt : d < symbols.length := by
    obtain ⟨hlt, -⟩ := List.idxOf?_eq_some_iff.1 h
    exact hlt
  exact hlt

theorem symbol_mem {d : ℕ} (h : d < 32) : symbol d ∈ symbols := by
  have hlt : d < symbols.length := h
  rw [symbol, List.getD_eq_getElem _ _ hlt]
  exact List.getElem_mem hlt

theorem digit_symbol {d : ℕ} (h : d < 32) : digit (symbol d) = some d := by
  have hall : ∀ i : Fin 32, digit (symbol i) = some i.1 := by decide +kernel
  exact hall ⟨d, h⟩

/-- The symbol of a character's digit is the character itself, if that is a symbol. -/
theorem symbol_eq_iff {c : Char} {d : ℕ} (h : digit c = some d) : symbol d = c ↔ c ∈ symbols := by
  constructor
  · rintro rfl
    exact symbol_mem (digit_lt h)
  · intro hc
    obtain ⟨i, hi, rfl⟩ := List.getElem_of_mem hc
    have hsymbol : symbol i = symbols[i] := List.getD_eq_getElem _ _ hi
    have hdigit : digit symbols[i] = some i := hsymbol ▸ digit_symbol hi
    obtain rfl := Option.some.inj (h.symm.trans hdigit)
    exact hsymbol

/-! ## Texts -/

theorem value_concat (cs : List Char) (c : Char) :
    value (cs ++ [c]) = (value cs).bind fun n => (digit c).map (32 * n + ·) := by
  rw [value, List.foldlM_append]
  simp [value]

/-- What is written for the number of a text. -/
theorem print_of_value {cs : List Char} {n : ℕ} (h : value cs = some n) :
    List.Forall₂ (fun written c => ∃ d, digit c = some d ∧ written = symbol d) (print cs.length n)
      cs := by
  induction cs using List.reverseRecOn generalizing n with
  | nil => exact .nil
  | append_singleton cs c ih =>
      rw [value_concat, Option.bind_eq_some_iff] at h
      obtain ⟨m, hm, hc⟩ := h
      obtain ⟨d, hd, rfl⟩ := Option.map_eq_some_iff.1 hc
      have hlt := digit_lt hd
      have hhigh : (32 * m + d) / 32 = m := by omega
      have hlow : (32 * m + d) % 32 = d := by omega
      rw [List.length_append, List.length_singleton, print, hhigh, hlow]
      exact List.rel_append (ih hm) (.cons ⟨d, hd, rfl⟩ .nil)

/-- A text is written back as it is, if all its characters are symbols, and only then. -/
theorem print_eq_iff {cs : List Char} {n : ℕ} (h : value cs = some n) :
    print cs.length n = cs ↔ ∀ c ∈ cs, c ∈ symbols := by
  have hwritten := print_of_value h
  generalize print cs.length n = written at hwritten
  clear h
  induction hwritten with
  | nil => exact iff_of_true rfl nofun
  | @cons w c written cs hw _ ih =>
      obtain ⟨d, hd, rfl⟩ := hw
      rw [List.cons_eq_cons, List.forall_mem_cons]
      exact and_congr (symbol_eq_iff hd) ih

/-- What is written reads as the number, up to the digits that were left out. -/
theorem value_print (width n : ℕ) : value (print width n) = some (n % 32 ^ width) := by
  induction width generalizing n with
  | zero => simp [print, value, Nat.mod_one]
  | succ width ih =>
      rw [print, value_concat, ih, digit_symbol (Nat.mod_lt _ (by decide)), Option.bind_some,
        Option.map_some, pow_succ', Nat.mod_mul, Nat.add_comm]

end Crockford
