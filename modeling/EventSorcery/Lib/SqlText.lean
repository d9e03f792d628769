import EventSorcery.Lib.Sql

/-!
# The text of a query

A small dialect of SQL: one `SELECT` of a column from a table, with a condition over comparisons with
parameters and null tests, an ordering and a limit. Text is split into the longest runs of word or
operator characters, parsed with `AND` binding tighter than `OR`, and evaluated with the three truth
values of SQL. Parameters are numbered as they stand in the text.
-/

namespace Sql

/-! ## Tokens -/

inductive Token where
  | keyword (word : String)
  | ident (name : String)
  | compare (cmp : Cmp)
  | leftParen
  | rightParen
  | param
  deriving DecidableEq, Repr

inductive CharClass where
  | blank
  | word
  | operator
  | single
  | other
  deriving DecidableEq

def charClass (c : Char) : CharClass :=
  if c = ' ' then .blank
  else if c.isAlphanum || c = '_' then .word
  else if c = '<' || c = '=' || c = '>' then .operator
  else if c = '(' || c = ')' || c = '?' then .single
  else .other

/-- Whether a character goes on with what a run has begun. -/
def joins (run : List Char) (c : Char) : Bool :=
  match run.head? with
  | none => false
  | some first => charClass first = charClass c && (charClass c = .word || charClass c = .operator)

/-- The words that are not names. -/
def reserved : List String :=
  ["ADD", "ALL", "ALTER", "AND", "AS", "ASC", "AUTOINCREMENT", "BETWEEN", "BY", "CASE", "CHECK",
    "COLLATE", "COMMIT", "CONSTRAINT", "CREATE", "DEFAULT", "DEFERRABLE", "DELETE", "DESC",
    "DISTINCT", "DROP", "ELSE", "ESCAPE", "EXCEPT", "EXISTS", "FOREIGN", "FROM", "GROUP", "HAVING",
    "IN", "INDEX", "INSERT", "INTERSECT", "INTO", "IS", "ISNULL", "JOIN", "LIMIT", "NOT", "NOTHING",
    "NOTNULL", "NULL", "ON", "OR", "ORDER", "PRIMARY", "REFERENCES", "RETURNING", "SELECT", "SET",
    "TABLE", "THEN", "TO", "TRANSACTION", "UNION", "UNIQUE", "UPDATE", "USING", "VALUES", "WHEN",
    "WHERE"]

/-- The token of a run of characters. Keywords are written in either case. -/
def token : List Char → Option Token
  | ['('] => some .leftParen
  | [')'] => some .rightParen
  | ['?'] => some .param
  | ['='] => some (.compare .eq)
  | ['<'] => some (.compare .lt)
  | ['<', '='] => some (.compare .le)
  | ['>'] => some (.compare .gt)
  | ['>', '='] => some (.compare .ge)
  | run =>
      let upper := String.ofList (run.map Char.toUpper)
      if upper ∈ reserved then some (.keyword upper)
      else if run.all (charClass · = .word) && (run.head?.any fun c => !c.isDigit) then
        some (.ident (String.ofList run))
      else none

/-- The token of a run, if there is one, before the rest. -/
def emit (run : List Char) (rest : Option (List Token)) : Option (List Token) :=
  if run = [] then rest else (token run).bind fun t => rest.map (t :: ·)

def scan (run : List Char) : List Char → Option (List Token)
  | [] => emit run (some [])
  | c :: text =>
      if joins run c then scan (run ++ [c]) text
      else emit run (scan (if charClass c = .blank then [] else [c]) text)

def lex (text : String) : Option (List Token) := scan [] text.toList

/-! ## Joining texts -/

/-- Nothing at the end of the one goes on at the beginning of the other. -/
def Apart (left right : List Char) : Prop :=
  ∀ c ∈ left.getLast?, ∀ d ∈ right.head?, joins [c] d = false

section Joining

variable {left right run : List Char}

theorem charClass_blank : charClass ' ' = .blank := rfl

theorem apart_blank_left (hlast : left.getLast? = some ' ') : Apart left right := by
  intro c hc d _
  rw [hlast, Option.mem_some_iff] at hc
  subst hc
  cases hd : charClass d <;> simp [joins, charClass_blank, hd]

theorem apart_single_left {c : Char} (hlast : left.getLast? = some c)
    (hc : charClass c = .single) : Apart left right := by
  intro c' hc' d _
  obtain rfl : c = c' := by rwa [hlast, Option.mem_some_iff] at hc'
  cases hd : charClass d <;> simp [joins, hc, hd]

/-- What begins with neither a word nor an operator is apart from everything. -/
theorem apart_right {c : Char} (hfirst : right.head? = some c) (hword : charClass c ≠ .word)
    (hoperator : charClass c ≠ .operator) : Apart left right := by
  intro c' _ d hd
  obtain rfl : c = d := by rwa [hfirst, Option.mem_some_iff] at hd
  simp [joins, hword, hoperator]

/-- A run goes on as long as its last character would. -/
theorem joins_of_uniform (hrun : ∀ c ∈ run, ∀ d ∈ run, charClass c = charClass d) {last d : Char}
    (hlast : run.getLast? = some last) : joins run d = joins [last] d := by
  obtain ⟨first, hfirst⟩ : ∃ first, run.head? = some first := by
    cases run with
    | nil => cases hlast
    | cons first _ => exact ⟨first, rfl⟩
  have hclass := hrun first (List.mem_of_head? hfirst) last (List.mem_of_getLast? hlast)
  simp only [joins, hfirst, List.head?_cons, hclass]

theorem emit_bind (run : List Char) (tokens rest : Option (List Token)) :
    (emit run tokens).bind (fun ts => rest.map (ts ++ ·)) =
      emit run (tokens.bind fun ts => rest.map (ts ++ ·)) := by
  unfold emit
  split_ifs
  · rfl
  · cases token run <;> cases tokens <;> cases rest <;> rfl

theorem scan_append (hrun : ∀ c ∈ run, ∀ d ∈ run, charClass c = charClass d)
    (h : Apart (run ++ left) right) :
    scan run (left ++ right) = (scan run left).bind fun ts => (scan [] right).map (ts ++ ·) := by
  induction left generalizing run with
  | nil =>
      rw [List.nil_append, scan, emit_bind]
      rw [List.append_nil] at h
      cases right with
      | nil => simp [scan, emit]
      | cons d right =>
          have hstop : joins run d = false := by
            cases hlast : run.getLast? with
            | none =>
                rw [List.getLast?_eq_none_iff.1 hlast]
                rfl
            | some last => rw [joins_of_uniform hrun hlast, h last hlast d rfl]
          have hempty : joins [] d = false := rfl
          simp only [scan, hstop, hempty, Bool.false_eq_true, if_false, Option.bind_some]
          simp [emit]
  | cons c left ih =>
      rw [List.cons_append, scan, scan]
      split_ifs with hjoins hblank
      · refine ih ?_ (by simpa using h)
        intro d hd d' hd'
        obtain ⟨first, hfirst⟩ : ∃ first, run.head? = some first := by
          cases run with
          | nil => cases hjoins
          | cons first _ => exact ⟨first, rfl⟩
        have hc : charClass first = charClass c := by
          simp only [joins, hfirst, Bool.and_eq_true, decide_eq_true_eq] at hjoins
          exact hjoins.1
        have hall : ∀ x ∈ run ++ [c], charClass x = charClass first := by
          intro x hx
          rcases List.mem_append.1 hx with hx | hx
          · exact hrun x hx first (List.mem_of_head? hfirst)
          · rw [List.mem_singleton.1 hx, hc]
        rw [hall d hd, hall d' hd']
      · have hleft : Apart ([] ++ left) right := fun last hlast => h last (by
          rw [List.nil_append, Option.mem_def] at hlast
          rw [List.append_cons, List.getLast?_append, hlast]
          rfl)
        rw [emit_bind, ih (by simp) hleft]
      · have hleft : Apart ([c] ++ left) right := fun last hlast => h last (by
          rw [Option.mem_def] at hlast
          rw [← List.singleton_append, List.getLast?_append, hlast]
          rfl)
        rw [emit_bind, ih (by simp) hleft]

/-- Texts that are apart are read one after the other. -/
theorem scan_join {tokens tokens' : List Token} (h : Apart left right)
    (hleft : scan [] left = some tokens) (hright : scan [] right = some tokens') :
    scan [] (left ++ right) = some (tokens ++ tokens') := by
  have happend : scan [] (left ++ right) = _ := scan_append (by simp) (by simpa using h)
  rw [happend, hleft, hright]
  rfl

/-- A run of word characters. -/
theorem scan_word (hrun : run ≠ []) (hclass : ∀ c ∈ run, charClass c = .word) (text : List Char)
    (htext : ∀ c ∈ text, charClass c = .word) : scan run text = emit (run ++ text) (some []) := by
  induction text generalizing run with
  | nil => simp [scan]
  | cons c text ih =>
      obtain ⟨first, run', rfl⟩ := List.exists_cons_of_ne_nil hrun
      have hc : charClass c = .word := htext c (by simp)
      have hjoins : joins (first :: run') c = true := by
        simp [joins, hclass first (by simp), hc]
      rw [scan, if_pos hjoins, ih (by simp) ?_ fun d hd => htext d (by simp [hd])]
      · simp
      · intro d hd
        rcases List.mem_append.1 hd with hd | hd
        · exact hclass d hd
        · rw [List.mem_singleton.1 hd, hc]

/-- A name that is a token of its own. -/
structure IsName (name : String) : Prop where
  token : Sql.token name.toList = some (.ident name)
  word : ∀ c ∈ name.toList, charClass c = .word

theorem isName_of_all {name : String} (htoken : token name.toList = some (.ident name))
    (hword : name.toList.all (charClass · = .word) = true) : IsName name :=
  ⟨htoken, fun c hc => of_decide_eq_true (List.all_eq_true.1 hword c hc)⟩

theorem IsName.scan {name : String} (h : IsName name) :
    Sql.scan [] name.toList = some [.ident name] := by
  have htoken := h.token
  have hword := h.word
  cases hlist : name.toList with
  | nil =>
      rw [hlist] at htoken
      cases htoken
  | cons c text =>
      rw [hlist] at htoken hword
      have hc : charClass c = .word := hword c (by simp)
      have hempty : joins [] c = false := rfl
      rw [Sql.scan, hempty, if_neg Bool.false_ne_true, if_neg (by simp [hc]), emit, if_pos rfl,
        scan_word (by simp) (by simpa using hc) text fun d hd => hword d (by simp [hd])]
      simp [emit, htoken]

end Joining

/-! ## Statements -/

/-- A condition; a comparison is with the parameter of a number. -/
inductive Expr where
  | compare (column : String) (cmp : Cmp) (param : ℕ)
  | isNull (column : String)
  | isNotNull (column : String)
  | and (left right : Expr)
  | or (left right : Expr)
  deriving DecidableEq, Repr

/-- A query whose limit is its last parameter. -/
structure Statement where
  column : String
  table : String
  condition : Expr
  order : Option Order
  params : ℕ

mutual

def parseOr : ℕ → ℕ → List Token → Option (Expr × ℕ × List Token)
  | 0, _, _ => none
  | fuel + 1, n, tokens =>
      match parseAnd fuel n tokens with
      | some (left, n, .keyword "OR" :: tokens) =>
          (parseOr fuel n tokens).map fun (right, n, tokens) => (.or left right, n, tokens)
      | parsed => parsed

def parseAnd : ℕ → ℕ → List Token → Option (Expr × ℕ × List Token)
  | 0, _, _ => none
  | fuel + 1, n, tokens =>
      match parseAtom fuel n tokens with
      | some (left, n, .keyword "AND" :: tokens) =>
          (parseAnd fuel n tokens).map fun (right, n, tokens) => (.and left right, n, tokens)
      | parsed => parsed

def parseAtom : ℕ → ℕ → List Token → Option (Expr × ℕ × List Token)
  | 0, _, _ => none
  | fuel + 1, n, .leftParen :: tokens =>
      match parseOr fuel n tokens with
      | some (inner, n, .rightParen :: tokens) => some (inner, n, tokens)
      | _ => none
  | _ + 1, n, .ident column :: .compare cmp :: .param :: tokens =>
      some (.compare column cmp n, n + 1, tokens)
  | _ + 1, n, .ident column :: .keyword "IS" :: .keyword "NULL" :: tokens =>
      some (.isNull column, n, tokens)
  | _ + 1, n, .ident column :: .keyword "IS" :: .keyword "NOT" :: .keyword "NULL" :: tokens =>
      some (.isNotNull column, n, tokens)
  | _ + 1, _, _ => none

end

def parseOrder : List Token → Option (Option Order × List Token)
  | .keyword "ORDER" :: .keyword "BY" :: .ident column :: .keyword "ASC" :: tokens =>
      some (some ⟨column, true⟩, tokens)
  | .keyword "ORDER" :: .keyword "BY" :: .ident column :: .keyword "DESC" :: tokens =>
      some (some ⟨column, false⟩, tokens)
  | .keyword "ORDER" :: _ => none
  | tokens => some (none, tokens)

/-- A condition has at most three levels to a token. -/
def parse : List Token → Option Statement
  | .keyword "SELECT" :: .ident column :: .keyword "FROM" :: .ident table :: .keyword "WHERE" ::
      tokens =>
      (parseOr (3 * tokens.length + 3) 0 tokens).bind fun (condition, n, tokens) =>
        (parseOrder tokens).bind fun (order, tokens) =>
          if tokens = [.keyword "LIMIT", .param] then some ⟨column, table, condition, order, n + 1⟩
          else none
  | _ => none

/-! ## What a statement returns -/

/-- The third truth value, `none`, is for comparisons with null. -/
def and3 : Option Bool → Option Bool → Option Bool
  | some false, _ => some false
  | _, some false => some false
  | some true, some true => some true
  | _, _ => none

def or3 : Option Bool → Option Bool → Option Bool
  | some true, _ => some true
  | _, some true => some true
  | some false, some false => some false
  | _, _ => none

def Expr.eval (cell : String → Cell) (binds : List Value) : Expr → Option Bool
  | .compare column cmp n =>
      match cell column, binds[n]? with
      | some a, some b => some (cmp.holds (some a) (some b))
      | _, _ => none
  | .isNull column => some (cell column).isNone
  | .isNotNull column => some (cell column).isSome
  | .and left right => and3 (left.eval cell binds) (right.eval cell binds)
  | .or left right => or3 (left.eval cell binds) (right.eval cell binds)

def Expr.columns : Expr → List String
  | .compare column _ _ | .isNull column | .isNotNull column => [column]
  | .and left right | .or left right => left.columns ++ right.columns

/-- A table: its columns, what a row has in each of them, and the rows in the order of a scan. -/
structure Relation (ρ : Type*) where
  columns : List String
  cell : ρ → String → Cell
  rows : List ρ

def Statement.columns (s : Statement) : List String :=
  s.column :: (s.condition.columns ++ (s.order.map Order.column).toList)

/-- Run a statement with its parameters. It fails where it names a table or a column that is not
there, where the number of parameters is another, and where the limit is no number. -/
def Statement.run (s : Statement) (tables : String → Option (Relation ρ)) (binds : List Value) :
    Option (List Cell) :=
  (tables s.table).bind fun table =>
    if s.columns.all (· ∈ table.columns) && binds.length = s.params then
      match binds.getLast? with
      | some (.int limit) =>
          let found := table.rows.filter fun row =>
            s.condition.eval (table.cell row) binds = some true
          let sorted :=
            match s.order with
            | none => found
            | some order => found.mergeSort (order.le table.cell)
          some ((limited limit sorted).map fun row => table.cell row s.column)
      | _ => none
    else none

/-- Run the text of a statement. -/
def query (tables : String → Option (Relation ρ)) (text : String) (binds : List Value) :
    Option (List Cell) :=
  ((lex text).bind parse).bind fun s => s.run tables binds

theorem and3_eq_true {a b : Option Bool} : and3 a b = some true ↔ a = some true ∧ b = some true := by
  rcases a with _ | _ | _ <;> rcases b with _ | _ | _ <;> simp [and3]

theorem or3_eq_true {a b : Option Bool} : or3 a b = some true ↔ a = some true ∨ b = some true := by
  rcases a with _ | _ | _ <;> rcases b with _ | _ | _ <;> simp [or3]

/-! ## Predicates as tokens -/

/-- Whether a comparison is with a value. -/
def Cmp.takesValue : Cmp → Bool
  | .isNull | .isNotNull => false
  | _ => true

def Cmp.tokens : Cmp → List Token
  | .isNull => [.keyword "IS", .keyword "NULL"]
  | .isNotNull => [.keyword "IS", .keyword "NOT", .keyword "NULL"]
  | cmp => [.compare cmp]

/-- A term has a value where its comparison is with one. -/
def Term.WellFormed (t : Term) : Prop := t.value.isSome = t.cmp.takesValue

instance (t : Term) : Decidable t.WellFormed := inferInstanceAs (Decidable (_ = _))

def Term.tokens (t : Term) : List Token :=
  .ident t.column :: (t.cmp.tokens ++ if t.value.isSome then [.param] else [])

/-- The terms with a word between them. -/
def separated (word : String) : List (List Token) → List Token
  | [] => []
  | [tokens] => tokens
  | tokens :: rest => tokens ++ .keyword word :: separated word rest

def conjunctionTokens (terms : List Term) : List Token :=
  .leftParen :: (separated "AND" (terms.map Term.tokens) ++ [.rightParen])

def Predicate.tokens (p : Predicate) : List Token :=
  separated "OR" (p.anyOf.map conjunctionTokens)

/-- There is a term to each conjunction, and the terms are well formed. -/
def Predicate.WellFormed (p : Predicate) : Prop :=
  ∀ conjunction ∈ p.anyOf, conjunction ≠ [] ∧ ∀ t ∈ conjunction, t.WellFormed

instance (p : Predicate) : Decidable p.WellFormed :=
  inferInstanceAs (Decidable (∀ conjunction ∈ p.anyOf, _ ∧ _))

/-- The values of a conjunction in the order of its terms. -/
def conjunctionBinds (terms : List Term) : List Value := terms.filterMap Term.value

def Predicate.binds (p : Predicate) : List Value := p.anyOf.flatMap conjunctionBinds

/-- A condition that was parsed from a list of terms: it uses their columns, and it is true of a row
where they are, with the values that stand from position `n` on. -/
structure Means (e : Expr) (n : ℕ) (columns : List String) (binds : List Value)
    (holds : (String → Cell) → Bool) : Prop where
  columns : e.columns = columns
  eval : ∀ (cell : String → Cell) (before after : List Value), before.length = n →
    (e.eval cell (before ++ binds ++ after) = some true ↔ holds cell = true)

theorem separated_cons {word : String} {tokens : List Token} {more : List (List Token)}
    (h : more ≠ []) :
    separated word (tokens :: more) = tokens ++ .keyword word :: separated word more := by
  cases more with
  | nil => exact absurd rfl h
  | cons _ _ => rfl

/-- Pieces of text with a word between them. -/
theorem scan_separated {α : Type*} {word : String} {text : α → List Char}
    {tokens : α → List Token} {between : List Char} (hbetween : scan [] between = some [.keyword word])
    (hfirst : between.head? = some ' ') (hlast : between.getLast? = some ' ') {pieces : List α}
    (hpieces : ∀ a ∈ pieces, scan [] (text a) = some (tokens a)) :
    scan [] (between.intercalate (pieces.map text)) = some (separated word (pieces.map tokens)) := by
  induction pieces with
  | nil => rfl
  | cons a pieces ih =>
      cases hmore : pieces with
      | nil => simpa [separated] using hpieces a (by simp)
      | cons a' pieces' =>
          rw [← hmore]
          have hmap : pieces.map tokens ≠ [] := by simp [hmore]
          have htext : between.intercalate ((a :: pieces).map text) =
              text a ++ (between ++ between.intercalate (pieces.map text)) := by
            rw [hmore]
            simp [List.intercalate]
          have hhead : (between ++ between.intercalate (pieces.map text)).head? = some ' ' := by
            cases between with
            | nil => cases hfirst
            | cons c between => exact hfirst
          rw [htext, List.map_cons, separated_cons hmap]
          exact scan_join (apart_right hhead (by decide) (by decide)) (hpieces a (by simp))
            (scan_join (apart_blank_left hlast) hbetween
              (ih fun b hb => hpieces b (by simp [hb])))

section Parsing

variable {fuel n m : ℕ} {tokens rest : List Token} {e : Expr}

theorem parseAnd_of_atom (h : parseAtom fuel n tokens = some (e, m, rest))
    (hrest : rest.head? ≠ some (.keyword "AND")) :
    parseAnd (fuel + 1) n tokens = some (e, m, rest) := by
  rw [parseAnd, h]
  split
  · rename_i heq
    simp only [Option.some.injEq, Prod.mk.injEq] at heq
    rw [heq.2.2] at hrest
    exact absurd rfl hrest
  · rfl

theorem parseOr_of_and (h : parseAnd fuel n tokens = some (e, m, rest))
    (hrest : rest.head? ≠ some (.keyword "OR")) :
    parseOr (fuel + 1) n tokens = some (e, m, rest) := by
  rw [parseOr, h]
  split
  · rename_i heq
    simp only [Option.some.injEq, Prod.mk.injEq] at heq
    rw [heq.2.2] at hrest
    exact absurd rfl hrest
  · rfl

/-- A term is read back with its meaning. -/
theorem parseAtom_term {t : Term} (h : t.WellFormed) (fuel n : ℕ) (rest : List Token) :
    ∃ e, parseAtom (fuel + 1) n (t.tokens ++ rest) = some (e, n + t.value.toList.length, rest) ∧
      Means e n [t.column] t.value.toList fun cell => t.cmp.holds (cell t.column) t.value := by
  obtain ⟨column, cmp, value⟩ := t
  have hcompare : ∀ (cmp : Cmp) (v : Value), cmp.takesValue = true →
      Means (.compare column cmp n) n [column] [v] fun cell => cmp.holds (cell column) (some v) := by
    intro cmp v hcmp
    refine ⟨rfl, fun cell before after hn => ?_⟩
    have hget : (before ++ [v] ++ after)[n]? = some v := by simp [← hn]
    simp only [Expr.eval, hget]
    cases cell column with
    | none => cases cmp <;> simp_all [Cmp.holds, Cmp.takesValue]
    | some a => simp
  cases value with
  | some v =>
      cases cmp with
      | isNull => cases h
      | isNotNull => cases h
      | _ => exact ⟨_, rfl, hcompare _ v rfl⟩
  | none =>
      cases cmp with
      | isNull => exact ⟨_, rfl, rfl, fun cell _ _ _ => by simp [Expr.eval, Cmp.holds]⟩
      | isNotNull => exact ⟨_, rfl, rfl, fun cell _ _ _ => by simp [Expr.eval, Cmp.holds]⟩
      | _ => cases h

section Combine

variable {e' : Expr} {columns columns' : List String} {binds binds' : List Value}
  {holds holds' : (String → Cell) → Bool}

theorem Means.eval_both (h : Means e n columns binds holds)
    (h' : Means e' (n + binds.length) columns' binds' holds') {before : List Value}
    (hn : before.length = n) (cell : String → Cell) (after : List Value) :
    (e.eval cell (before ++ (binds ++ binds') ++ after) = some true ↔ holds cell = true) ∧
      (e'.eval cell (before ++ (binds ++ binds') ++ after) = some true ↔ holds' cell = true) := by
  constructor
  · rw [← h.eval cell before (binds' ++ after) hn]
    simp only [List.append_assoc]
  · rw [← h'.eval cell (before ++ binds) after (by simp [hn])]
    simp only [List.append_assoc]

theorem Means.and (h : Means e n columns binds holds)
    (h' : Means e' (n + binds.length) columns' binds' holds') :
    Means (.and e e') n (columns ++ columns') (binds ++ binds') fun cell =>
      holds cell && holds' cell := by
  refine ⟨by rw [Expr.columns, h.columns, h'.columns], fun cell before after hn => ?_⟩
  obtain ⟨hleft, hright⟩ := h.eval_both h' hn cell after
  rw [Expr.eval, and3_eq_true, hleft, hright, Bool.and_eq_true]

theorem Means.or (h : Means e n columns binds holds)
    (h' : Means e' (n + binds.length) columns' binds' holds') :
    Means (.or e e') n (columns ++ columns') (binds ++ binds') fun cell =>
      holds cell || holds' cell := by
  refine ⟨by rw [Expr.columns, h.columns, h'.columns], fun cell before after hn => ?_⟩
  obtain ⟨hleft, hright⟩ := h.eval_both h' hn cell after
  rw [Expr.eval, or3_eq_true, hleft, hright, Bool.or_eq_true]

end Combine

/-- What a conjunction says of a row. -/
def conjunctionHolds (terms : List Term) (cell : String → Cell) : Bool :=
  terms.all fun t => t.cmp.holds (cell t.column) t.value

theorem Term.length_tokens (t : Term) : 2 ≤ t.tokens.length := by
  unfold Term.tokens Cmp.tokens
  cases t.cmp <;> simp

theorem parseAnd_terms {terms : List Term} (hne : terms ≠ []) (hwf : ∀ t ∈ terms, t.WellFormed)
    (hfuel : (separated "AND" (terms.map Term.tokens)).length < fuel) (n : ℕ) (rest : List Token) :
    ∃ e, parseAnd fuel n (separated "AND" (terms.map Term.tokens) ++ .rightParen :: rest) =
        some (e, n + (conjunctionBinds terms).length, .rightParen :: rest) ∧
      Means e n (terms.map Term.column) (conjunctionBinds terms) (conjunctionHolds terms) := by
  induction terms generalizing fuel n with
  | nil => exact absurd rfl hne
  | cons t terms ih =>
      have ht : t.WellFormed := hwf t (by simp)
      cases hterms : terms with
      | nil =>
          subst hterms
          have hlength := t.length_tokens
          obtain ⟨fuel, rfl⟩ : ∃ f, fuel = f + 2 := ⟨fuel - 2, by simp [separated] at hfuel; omega⟩
          obtain ⟨e, hparse, hmeans⟩ := parseAtom_term ht fuel n (.rightParen :: rest)
          have hbinds : conjunctionBinds [t] = t.value.toList := by
            cases hv : t.value <;> simp [conjunctionBinds, hv]
          refine ⟨e, ?_, ?_⟩
          · rw [hbinds]
            exact parseAnd_of_atom hparse (by simp)
          · rw [hbinds]
            exact ⟨hmeans.columns, fun cell before after hn => by
              simpa [conjunctionHolds] using hmeans.eval cell before after hn⟩
      | cons t' terms' =>
          rw [← hterms]
          have hmore : terms.map Term.tokens ≠ [] := by simp [hterms]
          rw [List.map_cons, separated_cons hmore] at hfuel ⊢
          simp only [List.length_append, List.length_cons] at hfuel
          have hlength := t.length_tokens
          obtain ⟨fuel, rfl⟩ : ∃ f, fuel = f + 2 := ⟨fuel - 2, by omega⟩
          obtain ⟨e, hparse, hmeans⟩ := parseAtom_term ht fuel n
            (.keyword "AND" :: (separated "AND" (terms.map Term.tokens) ++ .rightParen :: rest))
          have hless : (separated "AND" (terms.map Term.tokens)).length < fuel + 1 := by omega
          obtain ⟨e', hparse', hmeans'⟩ := ih (by simp [hterms]) (fun u hu => hwf u (by simp [hu]))
            hless (n + t.value.toList.length)
          have hbinds : conjunctionBinds (t :: terms) = t.value.toList ++ conjunctionBinds terms := by
            cases hv : t.value <;> simp [conjunctionBinds, hv]
          refine ⟨.and e e', ?_, ?_⟩
          · rw [List.append_assoc, List.cons_append, parseAnd, hparse]
            simp only [hparse', Option.map_some, hbinds, List.length_append, Nat.add_assoc]
          · rw [hbinds]
            exact hmeans.and hmeans'

theorem parseAtom_conjunction {terms : List Term} (hne : terms ≠ [])
    (hwf : ∀ t ∈ terms, t.WellFormed) (hfuel : (conjunctionTokens terms).length < fuel) (n : ℕ)
    (rest : List Token) :
    ∃ e, parseAtom fuel n (conjunctionTokens terms ++ rest) =
        some (e, n + (conjunctionBinds terms).length, rest) ∧
      Means e n (terms.map Term.column) (conjunctionBinds terms) (conjunctionHolds terms) := by
  simp only [conjunctionTokens, List.length_cons, List.length_append] at hfuel
  obtain ⟨fuel, rfl⟩ : ∃ f, fuel = f + 2 := ⟨fuel - 2, by omega⟩
  have hless : (separated "AND" (terms.map Term.tokens)).length < fuel := by omega
  obtain ⟨e, hparse, hmeans⟩ := parseAnd_terms hne hwf hless n rest
  refine ⟨e, ?_, hmeans⟩
  rw [conjunctionTokens, List.cons_append, List.append_assoc, parseAtom, List.singleton_append,
    parseOr_of_and hparse (by simp)]

/-- A predicate is read back with its meaning, before anything that does not go on with it. -/
theorem parseOr_predicate {anyOf : List (List Term)} (hne : anyOf ≠ [])
    (hwf : Predicate.WellFormed ⟨anyOf⟩)
    (hfuel : (Predicate.tokens ⟨anyOf⟩).length + 2 < fuel) (n : ℕ) {rest : List Token}
    (hand : rest.head? ≠ some (.keyword "AND")) (hor : rest.head? ≠ some (.keyword "OR")) :
    ∃ e, parseOr fuel n (Predicate.tokens ⟨anyOf⟩ ++ rest) =
        some (e, n + (Predicate.binds ⟨anyOf⟩).length, rest) ∧
      Means e n (anyOf.flatMap fun terms => terms.map Term.column) (Predicate.binds ⟨anyOf⟩)
        (Predicate.holds ⟨anyOf⟩) := by
  induction anyOf generalizing fuel n with
  | nil => exact absurd rfl hne
  | cons terms anyOf ih =>
      obtain ⟨hterms, htermsWf⟩ := hwf terms (by simp)
      have hwf' : Predicate.WellFormed ⟨anyOf⟩ := fun conjunction h => hwf conjunction (by simp [h])
      simp only [Predicate.tokens, List.map_cons] at hfuel ⊢
      cases hmore : anyOf with
      | nil =>
          subst hmore
          simp only [List.map_nil, separated] at hfuel ⊢
          obtain ⟨fuel, rfl⟩ : ∃ f, fuel = f + 2 := ⟨fuel - 2, by omega⟩
          have hless : (conjunctionTokens terms).length < fuel := by omega
          obtain ⟨e, hparse, hmeans⟩ := parseAtom_conjunction hterms htermsWf hless n rest
          refine ⟨e, ?_, ?_⟩
          · simpa [Predicate.binds] using parseOr_of_and (parseAnd_of_atom hparse hand) hor
          · simp only [Predicate.binds, List.flatMap_cons, List.flatMap_nil, List.append_nil]
            exact ⟨hmeans.columns, fun cell before after hn => by
              simpa [Predicate.holds, conjunctionHolds] using hmeans.eval cell before after hn⟩
      | cons terms' anyOf' =>
          rw [← hmore]
          have hmap : anyOf.map conjunctionTokens ≠ [] := by simp [hmore]
          rw [separated_cons hmap] at hfuel ⊢
          simp only [List.length_append, List.length_cons] at hfuel
          obtain ⟨fuel, rfl⟩ : ∃ f, fuel = f + 2 := ⟨fuel - 2, by omega⟩
          have hless : (conjunctionTokens terms).length < fuel := by omega
          have hless' : (Predicate.tokens ⟨anyOf⟩).length + 2 < fuel + 1 := by
            simp only [conjunctionTokens, List.length_cons] at hfuel
            simp only [Predicate.tokens]
            omega
          obtain ⟨e, hparse, hmeans⟩ := parseAtom_conjunction hterms htermsWf hless n
            (.keyword "OR" :: (separated "OR" (anyOf.map conjunctionTokens) ++ rest))
          obtain ⟨e', hparse', hmeans'⟩ := ih (by simp [hmore]) hwf' hless'
            (n + (conjunctionBinds terms).length)
          refine ⟨.or e e', ?_, ?_⟩
          · rw [List.append_assoc, List.cons_append, parseOr, parseAnd_of_atom hparse (by simp)]
            simp only [Predicate.tokens] at hparse'
            simp only [hparse', Option.map_some, Predicate.binds, List.flatMap_cons,
              List.length_append, Nat.add_assoc]
          · exact hmeans.or hmeans'

/-! ### What is not well formed is refused -/

/-- The parser fails, or stops at a parameter that nothing takes. -/
def Stuck (parsed : Option (Expr × ℕ × List Token)) : Prop :=
  parsed = none ∨ ∃ e n rest, parsed = some (e, n, .param :: rest)

theorem parseAtom_badTerm {t : Term} (h : ¬ t.WellFormed) (fuel n : ℕ) {rest : List Token}
    (hrest : rest.head? ≠ some .param) : Stuck (parseAtom fuel n (t.tokens ++ rest)) := by
  obtain ⟨column, cmp, value⟩ := t
  cases fuel with
  | zero => exact .inl rfl
  | succ fuel =>
      cases value with
      | some v =>
          cases cmp with
          | isNull => exact .inr ⟨_, _, rest, rfl⟩
          | isNotNull => exact .inr ⟨_, _, rest, rfl⟩
          | _ => exact absurd rfl h
      | none =>
          have hcompare : ∀ cmp,
              parseAtom (fuel + 1) n (.ident column :: .compare cmp :: rest) = none := by
            intro cmp
            cases rest with
            | nil => rfl
            | cons token rest => cases token <;> first | rfl | exact absurd rfl hrest
          cases cmp with
          | isNull => exact absurd rfl h
          | isNotNull => exact absurd rfl h
          | _ => exact .inl (hcompare _)

theorem Stuck.toAnd (h : Stuck (parseAtom fuel n tokens)) :
    Stuck (parseAnd (fuel + 1) n tokens) := by
  rcases h with h | ⟨e, m, rest, h⟩
  · exact .inl (by rw [parseAnd, h])
  · exact .inr ⟨e, m, rest, by rw [parseAnd, h]⟩

theorem Stuck.toOr (h : Stuck (parseAnd fuel n tokens)) : Stuck (parseOr (fuel + 1) n tokens) := by
  rcases h with h | ⟨e, m, rest, h⟩
  · exact .inl (by rw [parseOr, h])
  · exact .inr ⟨e, m, rest, by rw [parseOr, h]⟩

theorem parseAnd_badTerms {terms : List Term} (hbad : ∃ t ∈ terms, ¬ t.WellFormed) (fuel n : ℕ)
    (rest : List Token) :
    Stuck (parseAnd fuel n (separated "AND" (terms.map Term.tokens) ++ .rightParen :: rest)) := by
  induction terms generalizing fuel n with
  | nil => simp at hbad
  | cons t terms ih =>
      cases fuel with
      | zero => exact .inl rfl
      | succ fuel =>
          by_cases ht : t.WellFormed
          · have hmore : ∃ u ∈ terms, ¬ u.WellFormed := by simpa [ht] using hbad
            have hmap : terms.map Term.tokens ≠ [] := by
              obtain ⟨u, hu, -⟩ := hmore
              simpa using List.ne_nil_of_mem hu
            rw [List.map_cons, separated_cons hmap, List.append_assoc, List.cons_append, parseAnd]
            cases fuel with
            | zero => exact .inl rfl
            | succ fuel =>
                obtain ⟨e, hparse, -⟩ := parseAtom_term ht fuel n
                  (.keyword "AND" :: (separated "AND" (terms.map Term.tokens) ++ .rightParen :: rest))
                simp only [hparse]
                rcases ih hmore (fuel + 1) (n + t.value.toList.length) with h | ⟨e', m, rest', h⟩
                · exact .inl (by rw [h]; rfl)
                · exact .inr ⟨.and e e', m, rest', by rw [h]; rfl⟩
          · refine Stuck.toAnd ?_
            cases terms with
            | nil => exact parseAtom_badTerm ht fuel n (by simp)
            | cons u terms =>
                rw [List.map_cons, separated_cons (by simp), List.append_assoc]
                exact parseAtom_badTerm ht fuel n (by simp)

theorem parseAtom_badConjunction {terms : List Term}
    (hbad : ¬ (terms ≠ [] ∧ ∀ t ∈ terms, t.WellFormed)) (fuel n : ℕ) (rest : List Token) :
    parseAtom fuel n (conjunctionTokens terms ++ rest) = none := by
  have hinner : ∀ fuel, Stuck (parseOr fuel n
      (separated "AND" (terms.map Term.tokens) ++ .rightParen :: rest)) := by
    intro fuel
    cases fuel with
    | zero => exact .inl rfl
    | succ fuel =>
        by_cases hne : terms = []
        · subst hne
          rcases fuel with _ | _ | fuel <;> exact .inl rfl
        · refine Stuck.toOr (parseAnd_badTerms ?_ fuel n rest)
          by_contra hall
          exact hbad ⟨hne, by simpa using hall⟩
  cases fuel with
  | zero => rfl
  | succ fuel =>
      rw [conjunctionTokens, List.cons_append, List.append_assoc, parseAtom, List.singleton_append]
      rcases hinner fuel with h | ⟨e, m, rest', h⟩
      · rw [h]
      · rw [h]

theorem parseOr_badPredicate {anyOf : List (List Term)} (hbad : ¬ Predicate.WellFormed ⟨anyOf⟩)
    (hfuel : (Predicate.tokens ⟨anyOf⟩).length + 2 < fuel) (n : ℕ) (rest : List Token) :
    parseOr fuel n (Predicate.tokens ⟨anyOf⟩ ++ rest) = none := by
  induction anyOf generalizing fuel n with
  | nil => exact absurd (fun _ h => by simp at h) hbad
  | cons terms anyOf ih =>
      obtain ⟨fuel, rfl⟩ : ∃ f, fuel = f + 2 := ⟨fuel - 2, by omega⟩
      by_cases hterms : terms ≠ [] ∧ ∀ t ∈ terms, t.WellFormed
      · have hbad' : ¬ Predicate.WellFormed ⟨anyOf⟩ := fun h =>
          hbad (List.forall_mem_cons.2 ⟨hterms, h⟩)
        have hmap : anyOf.map conjunctionTokens ≠ [] := by
          rintro hnil
          rw [List.map_eq_nil_iff.1 hnil] at hbad'
          exact hbad' fun _ h => by simp at h
        simp only [Predicate.tokens, List.map_cons] at hfuel ⊢
        rw [separated_cons hmap] at hfuel ⊢
        simp only [List.length_append, List.length_cons] at hfuel
        have hless : (conjunctionTokens terms).length < fuel := by omega
        have hless' : (Predicate.tokens ⟨anyOf⟩).length + 2 < fuel + 1 := by
          simp only [conjunctionTokens, List.length_cons] at hfuel
          simp only [Predicate.tokens]
          omega
        obtain ⟨e, hparse, -⟩ := parseAtom_conjunction hterms.1 hterms.2 hless n
          (.keyword "OR" :: (separated "OR" (anyOf.map conjunctionTokens) ++ rest))
        have htail := ih hbad' hless' (n + (conjunctionBinds terms).length)
        rw [Predicate.tokens] at htail
        rw [List.append_assoc, List.cons_append, parseOr, parseAnd_of_atom hparse (by simp)]
        simp only [htail, Option.map_none]
      · have hatom : ∀ rest, parseAtom fuel n (conjunctionTokens terms ++ rest) = none :=
          parseAtom_badConjunction hterms fuel n
        have hor : ∀ rest, parseOr (fuel + 2) n (conjunctionTokens terms ++ rest) = none := by
          intro rest
          rw [parseOr, parseAnd, hatom]
        rw [Predicate.tokens, List.map_cons]
        cases anyOf with
        | nil => exact hor rest
        | cons _ _ =>
            rw [List.map_cons, separated_cons (by simp), List.append_assoc]
            exact hor _

end Parsing

/-! ### Statements of predicates -/

def Order.tokens (order : Order) : List Token :=
  [.keyword "ORDER", .keyword "BY", .ident order.column,
    .keyword (if order.ascending then "ASC" else "DESC")]

def limitTokens : List Token := [.keyword "LIMIT", .param]

/-- What comes after the condition. -/
def endTokens (order : Option Order) : List Token := (order.map Order.tokens).getD [] ++ limitTokens

/-- The tokens of the statement that selects a column of the rows with a predicate. -/
def selectTokens (column table : String) (predicate : Predicate) (order : Option Order) :
    List Token :=
  [.keyword "SELECT", .ident column, .keyword "FROM", .ident table, .keyword "WHERE"] ++
    (predicate.tokens ++ endTokens order)

theorem parseOrder_tokens (order : Option Order) :
    parseOrder (endTokens order) =
      some (order, limitTokens) := by
  rcases order with _ | ⟨column, _ | _⟩ <;> rfl

theorem head_endTokens (order : Option Order) {word : String} (hlimit : word ≠ "LIMIT")
    (horder : word ≠ "ORDER") :
    (endTokens order).head? ≠ some (.keyword word) := by
  cases order <;> simp [endTokens, limitTokens, Order.tokens, hlimit.symm, horder.symm]

theorem parse_bad (column table : String) {predicate : Predicate} (h : ¬ predicate.WellFormed)
    (order : Option Order) : parse (selectTokens column table predicate order) = none := by
  obtain ⟨anyOf⟩ := predicate
  have hfuel : (Predicate.tokens ⟨anyOf⟩).length + 2 <
      3 * (Predicate.tokens ⟨anyOf⟩ ++ endTokens order).length + 3 := by
    rw [List.length_append]
    omega
  simp only [selectTokens, List.cons_append, List.nil_append, parse]
  rw [parseOr_badPredicate h hfuel]
  rfl

/-- The statement of a well-formed predicate selects the rows that satisfy it. -/
theorem run_selectTokens (tables : String → Option (Relation ρ)) {column table : String}
    {relation : Relation ρ} {predicate : Predicate} {order : Option Order}
    (htable : tables table = some relation) (hne : predicate.anyOf ≠ []) (hwf : predicate.WellFormed)
    (hcolumn : column ∈ relation.columns)
    (hcolumns : ∀ terms ∈ predicate.anyOf, ∀ t ∈ terms, t.column ∈ relation.columns)
    (horder : ∀ o ∈ order, o.column ∈ relation.columns) (limit : ℤ) :
    (parse (selectTokens column table predicate order)).bind
        (fun s => s.run tables (predicate.binds ++ [.int limit])) =
      some ((select relation.cell predicate order limit relation.rows).map fun row =>
        relation.cell row column) := by
  obtain ⟨anyOf⟩ := predicate
  have hfuel : (Predicate.tokens ⟨anyOf⟩).length + 2 <
      3 * (Predicate.tokens ⟨anyOf⟩ ++ endTokens order).length + 3 := by
    rw [List.length_append]
    omega
  obtain ⟨e, hparse, hmeans⟩ := parseOr_predicate hne hwf hfuel 0
    (head_endTokens order (by decide) (by decide)) (head_endTokens order (by decide) (by decide))
  have hstatement : parse (selectTokens column table ⟨anyOf⟩ order) =
      some ⟨column, table, e, order, (Predicate.binds ⟨anyOf⟩).length + 1⟩ := by
    simp only [selectTokens, List.cons_append, List.nil_append, parse, hparse, Option.bind_some,
      parseOrder_tokens, limitTokens, if_true, Nat.zero_add]
  have hfound : (relation.rows.filter fun row =>
      e.eval (relation.cell row) (Predicate.binds ⟨anyOf⟩ ++ [.int limit]) = some true) =
      relation.rows.filter fun row => Predicate.holds ⟨anyOf⟩ (relation.cell row) := by
    refine List.filter_congr fun row _ => ?_
    have heval := hmeans.eval (relation.cell row) [] [.int limit] rfl
    rw [List.nil_append] at heval
    simp only [heval, Bool.decide_eq_true]
  have hknown : (Statement.columns ⟨column, table, e, order,
      (Predicate.binds ⟨anyOf⟩).length + 1⟩).all (· ∈ relation.columns) = true := by
    simp only [Statement.columns, hmeans.columns, List.all_eq_true, decide_eq_true_eq, List.mem_cons,
      List.mem_append, List.mem_flatMap, List.mem_map, Option.mem_toList, Option.map_eq_some_iff]
    rintro c (rfl | ⟨terms, hterms, t, ht, rfl⟩ | ⟨o, ho, rfl⟩)
    · exact hcolumn
    · exact hcolumns terms hterms t ht
    · exact horder o ho
  rw [hstatement]
  simp only [Option.bind_some, Statement.run, htable, hknown, List.length_append, List.length_singleton,
    decide_true, Bool.and_self, if_true, List.getLast?_append, List.getLast?_singleton, Option.some_or,
    hfound]
  cases order <;> rfl

end Sql
