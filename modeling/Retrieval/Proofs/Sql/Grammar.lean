import Retrieval.Proofs.Sql.Lexeme

namespace Retrieval.Sql

def keywords : List String := [
  "ABORT", "ACTION", "ADD", "AFTER", "ALL", "ALTER", "ALWAYS", "ANALYZE", "AND", "AS", "ASC", "ATTACH",
  "AUTOINCREMENT", "BEFORE", "BEGIN", "BETWEEN", "BY", "CASCADE", "CASE", "CAST", "CHECK", "COLLATE",
  "COLUMN", "COMMIT", "CONFLICT", "CONSTRAINT", "CREATE", "CROSS", "CURRENT", "CURRENT_DATE",
  "CURRENT_TIME", "CURRENT_TIMESTAMP", "DATABASE", "DEFAULT", "DEFERRABLE", "DEFERRED", "DELETE", "DESC",
  "DETACH", "DISTINCT", "DO", "DROP", "EACH", "ELSE", "END", "ESCAPE", "EXCEPT", "EXCLUDE", "EXCLUSIVE",
  "EXISTS", "EXPLAIN", "FAIL", "FILTER", "FIRST", "FOLLOWING", "FOR", "FOREIGN", "FROM", "FULL",
  "GENERATED", "GLOB", "GROUP", "GROUPS", "HAVING", "IF", "IGNORE", "IMMEDIATE", "IN", "INDEX", "INDEXED",
  "INITIALLY", "INNER", "INSERT", "INSTEAD", "INTERSECT", "INTO", "IS", "ISNULL", "JOIN", "KEY", "LAST",
  "LEFT", "LIKE", "LIMIT", "MATCH", "MATERIALIZED", "NATURAL", "NO", "NOT", "NOTHING", "NOTNULL", "NULL",
  "NULLS", "OF", "OFFSET", "ON", "OR", "ORDER", "OTHERS", "OUTER", "OVER", "PARTITION", "PLAN", "PRAGMA",
  "PRECEDING", "PRIMARY", "QUERY", "RAISE", "RANGE", "RECURSIVE", "REFERENCES", "REGEXP", "REINDEX",
  "RELEASE", "RENAME", "REPLACE", "RESTRICT", "RETURNING", "RIGHT", "ROLLBACK", "ROW", "ROWS",
  "SAVEPOINT", "SELECT", "SET", "TABLE", "TEMP", "TEMPORARY", "THEN", "TIES", "TO", "TRANSACTION",
  "TRIGGER", "UNBOUNDED", "UNION", "UNIQUE", "UPDATE", "USING", "VACUUM", "VALUES", "VIEW", "VIRTUAL",
  "WHEN", "WHERE", "WINDOW", "WITH", "WITHOUT"]

def IsKeyword (s : String) : Prop :=
  String.ofList (s.toList.map Char.toUpper) ∈ keywords

instance (s : String) : Decidable (IsKeyword s) :=
  inferInstanceAs (Decidable (_ ∈ _))

def isIdentifier : List Char → Bool
  | [] => false
  | c :: rest => !c.isDigit && (c :: rest).all fun d => d.isAlphanum || d == '_'

def IsName (s : String) : Prop :=
  isIdentifier s.toList = true ∧ ¬ IsKeyword s

instance (s : String) : Decidable (IsName s) :=
  inferInstanceAs (Decidable (_ ∧ _))

theorem isDigit_of_isLower {c : Char} (h : c.isLower = true) : c.isDigit = false := by
  rw [← Bool.not_eq_true]
  intro hd
  have hleast : 97 ≤ c.val := of_decide_eq_true (Bool.and_eq_true_iff.1 h).1
  have hgreatest : c.val ≤ 57 := of_decide_eq_true (Bool.and_eq_true_iff.1 hd).2
  exact absurd (UInt32.le_trans hleast hgreatest) (by decide)

theorem toUpper_of_isDigit {c : Char} (h : c.isDigit = true) : c.toUpper = c := by
  unfold Char.toUpper
  split
  · rename_i hc
    simp only [Char.isDigit, Bool.and_eq_true, decide_eq_true_eq] at h
    exact absurd (UInt32.le_trans hc.1 h.2) (by decide)
  · rfl

theorem isName_of_numbered {s : String} {c : Char} {digits : List Char} (hs : s.toList = c :: digits)
    (hc : c.isLower = true) (hd : ∀ d ∈ digits, d.isDigit = true) : IsName s := by
  constructor
  · have hall : ∀ d ∈ c :: digits, d.isAlphanum = true := by
      refine List.forall_mem_cons.2 ⟨?_, fun d hmem => ?_⟩
      · have halpha : c.isAlpha = true := Bool.or_eq_true_iff.2 (.inr hc)
        rw [Char.isAlphanum, halpha, Bool.true_or]
      · rw [Char.isAlphanum, hd d hmem, Bool.or_true]
    rw [hs, isIdentifier, isDigit_of_isLower hc, Bool.not_false, Bool.true_and, List.all_eq_true]
    intro d hmem
    rw [hall d hmem, Bool.true_or]
  · intro hkey
    have hkeys : ∀ k ∈ keywords, 2 ≤ k.toList.length ∧ k.toList.all (!·.isDigit) = true := by
      decide +kernel
    obtain ⟨hlength, hdigits⟩ := hkeys _ hkey
    rw [String.toList_ofList, hs] at hlength hdigits
    rw [List.all_eq_true] at hdigits
    cases digits with
    | nil => simp at hlength
    | cons d rest =>
      have hdigit := hd d List.mem_cons_self
      have hnone := hdigits d (by simp [toUpper_of_isDigit hdigit])
      simp [hdigit] at hnone

def commaSeparated (items : List (List Lexeme)) : List Lexeme :=
  List.intercalate [.symbol ","] items

def operators : List Lexeme :=
  [.symbol "=", .symbol "!=", .symbol "<", .symbol ">", .symbol "<=", .symbol ">=", .word "LIKE",
    .word "AND", .word "OR"]

inductive Expression : List Lexeme → Prop
  | null : Expression [.word "NULL"]
  | number {s : String} (h : IsMagnitude s.toList) : Expression [.number s]
  | negative {s : String} (h : IsMagnitude s.toList) : Expression [.symbol "-", .number s]
  | text (s : String) : Expression [.text s]
  | column {table name : String} (ht : IsName table) (hn : IsName name) :
      Expression [.word table, .symbol ".", .word name]
  | group {xs : List Lexeme} (h : Expression xs) : Expression ([.symbol "("] ++ xs ++ [.symbol ")"])
  | binary {op : Lexeme} {xs ys : List Lexeme} (ho : op ∈ operators) (hx : Expression xs)
      (hy : Expression ys) : Expression (xs ++ [op] ++ ys)
  | isNull {xs : List Lexeme} (h : Expression xs) : Expression (xs ++ [.word "IS", .word "NULL"])
  | isNotNull {xs : List Lexeme} (h : Expression xs) :
      Expression (xs ++ [.word "IS", .word "NOT", .word "NULL"])
  | oneOf {xs : List Lexeme} {values : List (List Lexeme)} (hx : Expression xs) (hne : values ≠ [])
      (hs : ∀ value ∈ values, Expression value) :
      Expression (xs ++ [.word "IN", .symbol "("] ++ commaSeparated values ++ [.symbol ")"])

inductive ResultColumn : List Lexeme → Prop
  | column {table name label : String} (ht : IsName table) (hn : IsName name) (hl : IsName label) :
      ResultColumn [.word table, .symbol ".", .word name, .word "AS", .word label]

inductive JoinClause : List Lexeme → Prop
  | left {table aliasName : String} {on : List Lexeme} (ht : IsName table) (ha : IsName aliasName)
      (hon : Expression on) :
      JoinClause ([.word "LEFT", .word "JOIN", .word table, .word aliasName, .word "ON"] ++ on)

inductive WhereClause : List Lexeme → Prop
  | none : WhereClause []
  | some {xs : List Lexeme} (h : Expression xs) : WhereClause ([.word "WHERE"] ++ xs)

inductive OrderingTerm : List Lexeme → Prop
  | ascending {label : String} (hl : IsName label) : OrderingTerm [.word label, .word "ASC"]
  | descending {label : String} (hl : IsName label) : OrderingTerm [.word label, .word "DESC"]

inductive OrderClause : List Lexeme → Prop
  | none : OrderClause []
  | some {terms : List (List Lexeme)} (hne : terms ≠ []) (hs : ∀ term ∈ terms, OrderingTerm term) :
      OrderClause ([.word "ORDER", .word "BY"] ++ commaSeparated terms)

inductive PageClause : List Lexeme → Prop
  | none : PageClause []
  | limit {n : String} (hn : IsDigits n.toList) : PageClause [.word "LIMIT", .number n]
  | limitOffset {n k : String} (hn : IsDigits n.toList) (hk : IsDigits k.toList) :
      PageClause [.word "LIMIT", .number n, .word "OFFSET", .number k]

/-- A page clause, or an offset without a limit, which is none. -/
inductive LoosePageClause : List Lexeme → Prop
  | strict {xs : List Lexeme} (h : PageClause xs) : LoosePageClause xs
  | offset {k : String} (hk : IsDigits k.toList) : LoosePageClause [.word "OFFSET", .number k]

/-- A SELECT statement, with something at the end that has the form of a page clause. -/
inductive Sentence (Page : List Lexeme → Prop) : List Lexeme → Prop
  | select {items joins : List (List Lexeme)} {table aliasName : String} {filter order page : List Lexeme}
      (hne : items ≠ []) (hitems : ∀ item ∈ items, ResultColumn item) (ht : IsName table)
      (ha : IsName aliasName) (hjoins : ∀ join ∈ joins, JoinClause join) (hfilter : WhereClause filter)
      (horder : OrderClause order) (hpage : Page page) :
      Sentence Page ([.word "SELECT"] ++ commaSeparated items ++
        [.word "FROM", .word table, .word aliasName] ++ joins.flatten ++ filter ++ order ++ page)

theorem Sentence.mono {P Q : List Lexeme → Prop} (h : ∀ xs, P xs → Q xs) {ls : List Lexeme}
    (hs : Sentence P ls) : Sentence Q ls := by
  obtain ⟨hne, hitems, ht, ha, hjoins, hfilter, horder, hpage⟩ := hs
  exact .select hne hitems ht ha hjoins hfilter horder (h _ hpage)

def pageWords : List Lexeme := [.word "LIMIT", .word "OFFSET"]

def Pageless (ls : List Lexeme) : Prop :=
  ∀ x ∈ ls, x ∉ pageWords

section

variable {x : Lexeme} {xs ys : List Lexeme} {s : String}

@[simp] theorem pageless_nil : Pageless [] := by
  simp [Pageless]

@[simp] theorem pageless_cons : Pageless (x :: xs) ↔ x ∉ pageWords ∧ Pageless xs := by
  simp [Pageless]

@[simp] theorem pageless_append : Pageless (xs ++ ys) ↔ Pageless xs ∧ Pageless ys := by
  simp [Pageless, or_imp, forall_and]

@[simp] theorem word_mem_pageWords : .word s ∈ pageWords ↔ s = "LIMIT" ∨ s = "OFFSET" := by
  simp [pageWords]

@[simp] theorem number_notMem_pageWords : .number s ∉ pageWords := by
  simp [pageWords]

@[simp] theorem text_notMem_pageWords : .text s ∉ pageWords := by
  simp [pageWords]

@[simp] theorem symbol_notMem_pageWords : .symbol s ∉ pageWords := by
  simp [pageWords]

theorem IsName.notMem_pageWords (h : IsName s) : .word s ∉ pageWords := by
  rw [word_mem_pageWords]
  rintro (rfl | rfl)
  · exact h.2 (by decide +kernel)
  · exact h.2 (by decide +kernel)

theorem pageless_flatten {items : List (List Lexeme)} (h : ∀ item ∈ items, Pageless item) :
    Pageless items.flatten := by
  intro x hx
  obtain ⟨item, hitem, hx⟩ := List.mem_flatten.1 hx
  exact h item hitem x hx

theorem pageless_commaSeparated {items : List (List Lexeme)} (h : ∀ item ∈ items, Pageless item) :
    Pageless (commaSeparated items) := by
  induction items with
  | nil => exact pageless_nil
  | cons item rest ih =>
    obtain ⟨hitem, hrest⟩ := List.forall_mem_cons.1 h
    cases rest with
    | nil => simpa [commaSeparated] using hitem
    | cons next rest =>
      have hmore := ih hrest
      rw [commaSeparated] at hmore ⊢
      rw [List.intercalate_cons_cons]
      simp [hitem, hmore]

theorem Expression.pageless (h : Expression xs) : Pageless xs := by
  induction h with
  | null | number _ | negative _ | text _ => simp
  | column ht hn => simp only [pageless_cons, ht.notMem_pageWords, hn.notMem_pageWords]; simp
  | group _ ih => simp [ih]
  | @binary op _ _ ho _ _ ihx ihy =>
    have hop : ∀ op ∈ operators, op ∉ pageWords := by decide
    simp [ihx, ihy, hop op ho]
  | isNull _ ih | isNotNull _ ih => simp [ih]
  | oneOf _ _ _ ih ihs => simp [ih, pageless_commaSeparated ihs]

theorem ResultColumn.pageless (h : ResultColumn xs) : Pageless xs := by
  cases h with
  | column ht hn hl =>
    simp only [pageless_cons, ht.notMem_pageWords, hn.notMem_pageWords, hl.notMem_pageWords]
    simp

theorem JoinClause.pageless (h : JoinClause xs) : Pageless xs := by
  cases h with
  | left ht ha hon =>
    simp only [pageless_append, pageless_cons, ht.notMem_pageWords, ha.notMem_pageWords, hon.pageless]
    simp

theorem WhereClause.pageless (h : WhereClause xs) : Pageless xs := by
  cases h with
  | none => exact pageless_nil
  | some h => simp [h.pageless]

theorem OrderingTerm.pageless (h : OrderingTerm xs) : Pageless xs := by
  cases h with
  | ascending hl | descending hl =>
    simp only [pageless_cons, hl.notMem_pageWords]
    simp

theorem OrderClause.pageless (h : OrderClause xs) : Pageless xs := by
  cases h with
  | none => exact pageless_nil
  | some _ hs => simp [pageless_commaSeparated fun term hterm => (hs term hterm).pageless]

theorem Sentence.exists_page {Page : List Lexeme → Prop} (h : Sentence Page xs) :
    ∃ front page, xs = front ++ page ∧ Pageless front ∧ Page page := by
  obtain ⟨_, hitems, ht, ha, hjoins, hfilter, horder, hpage⟩ := h
  refine ⟨_, _, rfl, ?_, hpage⟩
  have hcolumns := pageless_commaSeparated fun item hitem => (hitems item hitem).pageless
  have htables := pageless_flatten fun join hjoin => (hjoins join hjoin).pageless
  simp only [pageless_append, pageless_cons, ht.notMem_pageWords, ha.notMem_pageWords, hcolumns, htables,
    hfilter.pageless, horder.pageless]
  simp

theorem PageClause.limit_mem (h : PageClause xs) (ho : .word "OFFSET" ∈ xs) : .word "LIMIT" ∈ xs := by
  cases h with
  | none => cases ho
  | limit hn | limitOffset hn hk => simp

theorem Sentence.limit_mem (h : Sentence PageClause xs) (ho : .word "OFFSET" ∈ xs) :
    .word "LIMIT" ∈ xs := by
  obtain ⟨front, page, rfl, hfront, hpage⟩ := h.exists_page
  obtain ho | ho := List.mem_append.1 ho
  · exact absurd (by simp) (hfront _ ho)
  · exact List.mem_append_right _ (hpage.limit_mem ho)

/-- A statement is one of SQLite exactly if it ends in a page clause. -/
theorem Sentence.strict_iff {page : List Lexeme} (h : Sentence (· = page) xs) (hp : LoosePageClause page) :
    Sentence PageClause xs ↔ PageClause page := by
  constructor
  · intro hstrict
    cases hp with
    | strict hp => exact hp
    | offset hk =>
      obtain ⟨front, _, rfl, hfront, rfl⟩ := h.exists_page
      have hlimit := hstrict.limit_mem (by simp)
      obtain hlimit | hlimit := List.mem_append.1 hlimit
      · exact absurd (by simp) (hfront _ hlimit)
      · simp at hlimit
  · intro hp
    exact h.mono fun _ hpage => hpage ▸ hp

end

end Retrieval.Sql
