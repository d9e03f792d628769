import EventSorcery.JobPoll
import EventSorcery.Lib.SqlText

/-!
# The statement behind a view query

A view is queried with a predicate, an ordering and a limit. The repository builds the text of a
statement, in which it writes columns out and leaves a parameter for each value, and binds the values
in the order in which it came across them. The text means what the predicate says, and it is a
statement at all exactly where every conjunction has a term and every term has a value if its
comparison needs one.
-/

namespace EventSorcery

open Sql

/-- `Cmp::sql`. -/
def cmpSql : Cmp → String
  | .eq => "="
  | .lt => "<"
  | .le => "<="
  | .gt => ">"
  | .ge => ">="
  | .isNull => "IS NULL"
  | .isNotNull => "IS NOT NULL"

def termText (term : Term) : String :=
  match term.value with
  | none => term.column ++ " " ++ cmpSql term.cmp
  | some _ => term.column ++ " " ++ cmpSql term.cmp ++ " ?"

def conjunctionText (terms : List Term) : String :=
  "(" ++ String.intercalate " AND " (terms.map termText) ++ ")"

def orderClause : Option Order → String
  | none => ""
  | some order => " ORDER BY " ++ order.column ++ " " ++ (if order.ascending then "ASC" else "DESC")

def findText (viewTable : String) (predicate : Predicate) (order : Option Order) : String :=
  "SELECT view_id FROM " ++ viewTable ++ " WHERE " ++
    String.intercalate " OR " (predicate.anyOf.map conjunctionText) ++ orderClause order ++ " LIMIT ?"

/-- A row's id, which has to be a text. -/
def viewIdOf : Cell → Option String
  | some (.text id) => some id
  | _ => none

/-- `IndexedView::find`. -/
def find {ρ : Type} (tables : String → Option (Relation ρ)) (viewTable : String)
    (predicate : Predicate) (order : Option Order) (limit : ℤ) :
    Except PersistenceError (List String) :=
  if predicate.anyOf.isEmpty then .ok []
  else
    match query tables (findText viewTable predicate order) (predicate.binds ++ [.int limit]) with
    | none => .error .connection
    | some cells => (cells.mapM viewIdOf).elim (.error .connection) .ok

/-! ## What the text says -/

/-- The names that a query writes out are names. -/
structure QueryNames (viewTable : String) (predicate : Predicate) (order : Option Order) : Prop where
  table : IsName viewTable
  column : ∀ terms ∈ predicate.anyOf, ∀ term ∈ terms, IsName term.column
  order : ∀ o ∈ order, IsName o.column

theorem apart_blank {left right : List Char} (h : right.head? = some ' ') : Apart left right :=
  apart_right h (by decide) (by decide)

theorem scan_term {term : Term} (h : IsName term.column) :
    scan [] (termText term).toList = some term.tokens := by
  obtain ⟨column, cmp, value⟩ := term
  have hcmp : scan [] (" " ++ cmpSql cmp).toList = some cmp.tokens := by cases cmp <;> rfl
  have hparam : scan [] (" " ++ cmpSql cmp ++ " ?").toList = some (cmp.tokens ++ [.param]) := by
    cases cmp <;> rfl
  cases value with
  | none =>
      have htext : (termText ⟨column, cmp, none⟩).toList =
          column.toList ++ (" " ++ cmpSql cmp).toList := by
        simp only [termText, String.toList_append, List.append_assoc]
      rw [htext, scan_join (apart_blank (by cases cmp <;> rfl)) h.scan hcmp]
      simp [Term.tokens]
  | some v =>
      have htext : (termText ⟨column, cmp, some v⟩).toList =
          column.toList ++ (" " ++ cmpSql cmp ++ " ?").toList := by
        simp only [termText, String.toList_append, List.append_assoc]
      rw [htext, scan_join (apart_blank (by cases cmp <;> rfl)) h.scan hparam]
      simp [Term.tokens]

theorem scan_conjunction {terms : List Term} (h : ∀ term ∈ terms, IsName term.column) :
    scan [] (conjunctionText terms).toList = some (conjunctionTokens terms) := by
  have hterms : scan [] (" AND ".toList.intercalate (terms.map fun term => (termText term).toList)) =
      some (separated "AND" (terms.map Term.tokens)) :=
    scan_separated rfl rfl rfl fun term hterm => scan_term (h term hterm)
  have htext : (conjunctionText terms).toList = "(".toList ++
      (" AND ".toList.intercalate (terms.map fun term => (termText term).toList) ++ ")".toList) := by
    simp only [conjunctionText, String.toList_append, String.toList_intercalate, List.map_map,
      List.append_assoc, Function.comp_def]
  have hopen : scan [] "(".toList = some [.leftParen] := rfl
  have hclose : scan [] ")".toList = some [.rightParen] := rfl
  rw [htext, scan_join (apart_single_left (c := '(') rfl rfl) hopen
    (scan_join (apart_right (c := ')') rfl (by decide) (by decide)) hterms hclose)]
  rfl

/-- What the text has after the condition. -/
theorem scan_end {order : Option Order} (h : ∀ o ∈ order, IsName o.column) :
    scan [] (orderClause order ++ " LIMIT ?").toList = some (endTokens order) := by
  cases order with
  | none => rfl
  | some order =>
      obtain ⟨column, ascending⟩ := order
      have hcolumn : IsName column := h _ rfl
      have hdirection : scan [] (" " ++ (if ascending then "ASC" else "DESC") ++ " LIMIT ?").toList =
          some (.keyword (if ascending then "ASC" else "DESC") :: limitTokens) := by
        cases ascending <;> rfl
      have htext : (orderClause (some ⟨column, ascending⟩) ++ " LIMIT ?").toList =
          " ORDER BY ".toList ++ (column.toList ++
            (" " ++ (if ascending then "ASC" else "DESC") ++ " LIMIT ?").toList) := by
        simp only [orderClause, String.toList_append, List.append_assoc]
      have horder : scan [] " ORDER BY ".toList = some [.keyword "ORDER", .keyword "BY"] := rfl
      rw [htext, scan_join (apart_blank_left rfl) horder
        (scan_join (apart_blank (by cases ascending <;> rfl)) hcolumn.scan hdirection)]
      rfl

theorem lex_findText {viewTable : String} {predicate : Predicate} {order : Option Order}
    (h : QueryNames viewTable predicate order) :
    lex (findText viewTable predicate order) =
      some (selectTokens "view_id" viewTable predicate order) := by
  have hconjunctions : ∀ terms ∈ predicate.anyOf,
      scan [] (conjunctionText terms).toList = some (conjunctionTokens terms) :=
    fun terms hterms => scan_conjunction (h.column terms hterms)
  have hcondition : scan [] (" OR ".toList.intercalate
      (predicate.anyOf.map fun terms => (conjunctionText terms).toList)) =
      some (separated "OR" (predicate.anyOf.map conjunctionTokens)) :=
    scan_separated rfl rfl rfl hconjunctions
  have htext : (findText viewTable predicate order).toList = "SELECT view_id FROM ".toList ++
      (viewTable.toList ++ (" WHERE ".toList ++ (" OR ".toList.intercalate
        (predicate.anyOf.map fun terms => (conjunctionText terms).toList) ++
          (orderClause order ++ " LIMIT ?").toList))) := by
    have htoList : ∀ a b c d e f : String, (a ++ b ++ c ++ d ++ e ++ f).toList =
        a.toList ++ (b.toList ++ (c.toList ++ (d.toList ++ (e ++ f).toList))) := by
      simp only [String.toList_append, List.append_assoc, implies_true]
    refine (htoList "SELECT view_id FROM " viewTable " WHERE " _ (orderClause order)
      " LIMIT ?").trans ?_
    rw [String.toList_intercalate, List.map_map, Function.comp_def]
  have hend : (orderClause order ++ " LIMIT ?").toList.head? = some ' ' := by
    cases order with
    | none => rfl
    | some order => simp [orderClause, String.toList_append]
  have hselect : scan [] "SELECT view_id FROM ".toList =
      some [.keyword "SELECT", .ident "view_id", .keyword "FROM"] := rfl
  have hwhere : scan [] " WHERE ".toList = some [.keyword "WHERE"] := rfl
  rw [lex, htext, scan_join (apart_blank_left rfl) hselect (scan_join (apart_blank rfl) h.table.scan
    (scan_join (apart_blank_left rfl) hwhere (scan_join (apart_blank hend) hcondition
      (scan_end h.order))))]
  rfl

/-! ## What a query returns -/

section Find

variable {ρ : Type} {tables : String → Option (Relation ρ)} {viewTable : String}
  {relation : Relation ρ} {predicate : Predicate} {order : Option Order}

theorem mem_of_mem_select {row : ρ} {limit : ℤ}
    (h : row ∈ select relation.cell predicate order limit relation.rows) : row ∈ relation.rows := by
  have hlimited : ∀ {rows : List ρ}, row ∈ limited limit rows → row ∈ rows := by
    intro rows hrow
    unfold limited at hrow
    split_ifs at hrow
    · exact hrow
    · exact List.mem_of_mem_take hrow
  cases order with
  | none => exact List.mem_of_mem_filter (hlimited h)
  | some order => exact List.mem_of_mem_filter (List.mem_mergeSort.1 (hlimited h))

theorem mapM_viewIdOf {viewId : ρ → String} {rows : List ρ}
    (h : ∀ row ∈ rows, relation.cell row "view_id" = some (.text (viewId row))) :
    (rows.map fun row => relation.cell row "view_id").mapM viewIdOf = some (rows.map viewId) := by
  induction rows with
  | nil => rfl
  | cons row rows ih =>
      have hrow := h row (by simp)
      have hrest := ih fun row' hrow' => h row' (by simp [hrow'])
      simp [hrow, viewIdOf, hrest]

theorem find_of_malformed (hnames : QueryNames viewTable predicate order)
    (h : ¬ predicate.WellFormed) (limit : ℤ) :
    find tables viewTable predicate order limit = .error .connection := by
  have hempty : predicate.anyOf.isEmpty = false := by
    rw [List.isEmpty_eq_false_iff]
    exact fun hnil => h (by simp [Predicate.WellFormed, hnil])
  rw [find, hempty, if_neg Bool.false_ne_true, query, lex_findText hnames, Option.bind_some,
    parse_bad "view_id" viewTable h order, Option.bind_none]

theorem find_of_wellFormed {viewId : ρ → String} (hnames : QueryNames viewTable predicate order)
    (htable : tables viewTable = some relation) (hid : "view_id" ∈ relation.columns)
    (hids : ∀ row ∈ relation.rows, relation.cell row "view_id" = some (.text (viewId row)))
    (hcolumns : ∀ terms ∈ predicate.anyOf, ∀ term ∈ terms, term.column ∈ relation.columns)
    (horder : ∀ o ∈ order, o.column ∈ relation.columns) (hwf : predicate.WellFormed) (limit : ℤ) :
    find tables viewTable predicate order limit =
      .ok ((select relation.cell predicate order limit relation.rows).map viewId) := by
  by_cases hempty : predicate.anyOf = []
  · -- The code answers this one itself.
    have hfilter : (relation.rows.filter fun row => predicate.holds (relation.cell row)) = [] := by
      simp [Predicate.holds, hempty]
    have hnone : select relation.cell predicate order limit relation.rows = [] := by
      cases order <;> simp [select, limited, hfilter]
    simp [find, hempty, hnone]
  · have hnotEmpty : predicate.anyOf.isEmpty = false := by simpa using hempty
    rw [find, hnotEmpty, if_neg Bool.false_ne_true, query, lex_findText hnames, Option.bind_some,
      run_selectTokens tables htable hempty hwf hid hcolumns horder limit]
    simp only [mapM_viewIdOf fun row hrow => hids row (mem_of_mem_select hrow), Option.elim_some]

end Find

/-- Two rows, of which one has a status. -/
def ordersTable : Relation String where
  columns := ["view_id", "status"]
  cell row column :=
    if column = "view_id" then some (.text row)
    else if row = "b" then some (.text "open") else none
  rows := ["a", "b"]

def openOrders : Predicate := ⟨[[⟨"status", .eq, some (.text "open")⟩]]⟩

/-- The queue as a table. -/
def queueRelation (scan : List QueueEntry) : Relation QueueEntry :=
  ⟨["view_id", "version", "payload", "lease_until", "kind", "status", "run_at"], queueColumns, scan⟩

def queueTables (scan : List QueueEntry) (table : String) : Option (Relation QueueEntry) :=
  if table = "job_queue" then some (queueRelation scan) else none

theorem queueNames (kind : JobKind) (nowMs : ℤ) :
    QueryNames "job_queue" (pollPredicate kind nowMs) (some pollOrder) := by
  have hname : ∀ name ∈ ["job_queue", "kind", "status", "run_at", "lease_until"], IsName name := by
    intro name hmem
    simp only [List.mem_cons, List.not_mem_nil, or_false] at hmem
    rcases hmem with rfl | rfl | rfl | rfl | rfl <;> exact isName_of_all rfl rfl
  refine ⟨hname _ (by simp), ?_, ?_⟩
  · intro terms hterms term hterm
    simp only [pollPredicate, List.mem_cons, List.not_mem_nil, or_false] at hterms
    rcases hterms with rfl | rfl | rfl <;>
      simp only [List.mem_cons, List.not_mem_nil, or_false] at hterm <;>
      rcases hterm with rfl | rfl | rfl <;> exact hname _ (by simp)
  · intro o ho
    rw [Option.mem_some_iff] at ho
    exact ho ▸ hname _ (by simp [pollOrder])

theorem pollPredicate_columns {scan : List QueueEntry} (kind : JobKind) (nowMs : ℤ) :
    ∀ terms ∈ (pollPredicate kind nowMs).anyOf, ∀ term ∈ terms,
      term.column ∈ (queueRelation scan).columns := by
  simp [pollPredicate, queueRelation]

/-- The statement of a worker's poll finds the jobs that the poll is for. -/
theorem find_pollPredicate (scan : List QueueEntry) (kind : JobKind) (nowMs limit : ℤ) :
    find (queueTables scan) "job_queue" (pollPredicate kind nowMs) (some pollOrder) limit =
      .ok ((select queueColumns (pollPredicate kind nowMs) (some pollOrder) limit scan).map
        Sigma.fst) := by
  have hwf : (pollPredicate kind nowMs).WellFormed := by
    simp [pollPredicate, Predicate.WellFormed, Term.WellFormed, Cmp.takesValue]
  have htable : queueTables scan "job_queue" = some (queueRelation scan) := rfl
  exact find_of_wellFormed (queueNames kind nowMs) htable (by simp [queueRelation])
    (fun _ _ => rfl) (pollPredicate_columns kind nowMs) (by simp [pollOrder, queueRelation]) hwf _

end EventSorcery
