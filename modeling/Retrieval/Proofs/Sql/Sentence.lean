import Retrieval.Proofs.Sql.Grammar
import Retrieval.Proofs.Sql.Scope

namespace Retrieval.Sql

def chars (ts : List Token) : List Char :=
  ts.flatMap fun t => t.text.toList

/-- Characters that are read as lexemes of some kind. -/
def Spelled (P : List Lexeme → Prop) (cs : List Char) : Prop :=
  ∃ ls, Spells cs ls ∧ P ls

def Trailed (P : List Lexeme → Prop) (cs : List Char) : Prop :=
  ∃ ls, Trails cs ls ∧ P ls

@[simp] theorem chars_nil : chars [] = [] := rfl

@[simp] theorem chars_cons (t : Token) (ts : List Token) : chars (t :: ts) = t.text.toList ++ chars ts := rfl

@[simp] theorem chars_append (ts us : List Token) : chars (ts ++ us) = chars ts ++ chars us :=
  List.flatMap_append

theorem toList_render (ts : List Token) : (render ts).toList = chars ts :=
  String.toList_ofList

theorem isWordText_of_isIdentifier {cs : List Char} (h : isIdentifier cs = true) : IsWordText cs := by
  cases cs with
  | nil => cases h
  | cons c rest =>
    rw [isIdentifier, Bool.and_eq_true, Bool.not_eq_true', List.all_eq_true] at h
    refine ⟨⟨c, rest, rfl, h.1⟩, ?_⟩
    intro d hd
    have hchar := h.2 d hd
    simp only [Bool.or_eq_true, beq_iff_eq] at hchar
    obtain halphanum | rfl := hchar
    · simp [isWordChar, halphanum]
    · decide

theorem IsName.isWordText {s : String} (h : IsName s) : IsWordText s.toList :=
  isWordText_of_isIdentifier h.1

theorem IsName.spells {s : String} (h : IsName s) : Spells s.toList [.word s] := by
  simpa using Spells.word h.isWordText

theorem spells_keyword (s : String) (h : isIdentifier s.toList = true := by decide) :
    Spells s.toList [.word s] := by
  simpa using Spells.word (isWordText_of_isIdentifier h)

theorem spells_symbol {cs : List Char} (hf : ∀ rest, lex? (cs ++ rest) = (Fragment.symbol cs).read? rest)
    (h : breakChars.all fun c => (Fragment.symbol cs).grow? c = none) :
    Spells cs [.symbol (String.ofList cs)] :=
  .of_read? hf rfl (List.all_iff_forall_prop.1 h)

theorem Operator.spelled (op : Operator) : ∃ l ∈ operators, Spells op.token.text.toList [l] := by
  cases op with
  | eq => exact ⟨.symbol "=", by decide, spells_symbol (lex?_cons '=') (by decide)⟩
  | ne => exact ⟨.symbol "!=", by decide, spells_symbol (lex?_cons '!' <| '=' :: ·) (by decide)⟩
  | lt => exact ⟨.symbol "<", by decide, spells_symbol (lex?_cons '<') (by decide)⟩
  | gt => exact ⟨.symbol ">", by decide, spells_symbol (lex?_cons '>') (by decide)⟩
  | le => exact ⟨.symbol "<=", by decide, spells_symbol (lex?_cons '<' <| '=' :: ·) (by decide)⟩
  | ge => exact ⟨.symbol ">=", by decide, spells_symbol (lex?_cons '>' <| '=' :: ·) (by decide)⟩
  | like => exact ⟨.word "LIKE", by decide, spells_keyword _⟩
  | and => exact ⟨.word "AND", by decide, spells_keyword _⟩
  | or => exact ⟨.word "OR", by decide, spells_keyword _⟩

theorem Literal.spelled (l : Literal) : Spelled Expression l.chars := by
  obtain rfl | ⟨s, rfl⟩ | ⟨cs, hcs, hmagnitude⟩ := l.form
  · exact ⟨_, spells_keyword "NULL", .null⟩
  · exact ⟨_, .quoteChars s, .text s⟩
  · rw [hcs]
    have hnumber : IsMagnitude (String.ofList cs).toList := by simpa using hmagnitude
    split
    · exact ⟨_, .minus hmagnitude, .negative hnumber⟩
    · exact ⟨_, .magnitude hmagnitude, .number hnumber⟩

theorem exists_commaSeparated {P : List Lexeme → Prop} {items : List (List Char)} (hne : items ≠ [])
    (h : ∀ cs ∈ items, Spelled P cs) : ∃ lists, lists ≠ [] ∧ (∀ ls ∈ lists, P ls) ∧
      Spells (List.intercalate [',', ' '] items) (commaSeparated lists) := by
  induction items with
  | nil => exact absurd rfl hne
  | cons cs rest ih =>
    obtain ⟨⟨ls, hcs, hls⟩, hrest⟩ := List.forall_mem_cons.1 h
    cases rest with
    | nil => exact ⟨[ls], by simp, by simpa using hls, by simpa [commaSeparated] using hcs⟩
    | cons next rest =>
      obtain ⟨lists, hlists, hall, hspells⟩ := ih (by simp) hrest
      refine ⟨ls :: lists, by simp, List.forall_mem_cons.2 ⟨hls, hall⟩, ?_⟩
      obtain ⟨first, lists, rfl⟩ := List.exists_cons_of_ne_nil hlists
      rw [commaSeparated, List.intercalate_cons_cons, List.intercalate_cons_cons]
      simpa [commaSeparated] using hcs.comma hspells

/-- The expressions that are written with columns of plain names and nothing of the model. -/
abbrev Expr.IsNamed (e : Expr) : Prop :=
  e.Names (fun table name => IsName table ∧ IsName name) fun _ => False

theorem chars_moreTokens (value : Expr) (values : List Expr) :
    chars (value.tokens ++ Expr.moreTokens values) =
      List.intercalate [',', ' '] ((value :: values).map fun e => chars e.tokens) := by
  induction values generalizing value with
  | nil => simp [Expr.moreTokens]
  | cons next rest ih =>
    have hnext := ih next
    rw [chars_append, List.map_cons] at hnext
    rw [List.map_cons, List.map_cons, List.intercalate_cons_cons, ← hnext]
    simp [Expr.moreTokens, Token.text]

theorem spelled_digits {cs : List Char} (h : IsDigits cs) : Spelled Expression cs :=
  ⟨_, .magnitude h.isMagnitude, .number (by simpa using h.isMagnitude)⟩

theorem Spelled.binary (op : Operator) {left right : List Char} (hl : Spelled Expression left)
    (hr : Spelled Expression right) :
    Spelled Expression (left ++ ' ' :: (op.token.text.toList ++ ' ' :: right)) := by
  obtain ⟨xs, hxs, hx⟩ := hl
  obtain ⟨ys, hys, hy⟩ := hr
  obtain ⟨l, hl, hop⟩ := op.spelled
  exact ⟨_, hxs.trail (.cons (hop.trail (.cons hys))), by simpa using Expression.binary hl hx hy⟩

theorem spelled_never : Spelled Expression (chars [.never]) :=
  .binary .eq (spelled_digits (isDigits_singleton rfl) : Spelled Expression ['0'])
    (spelled_digits (isDigits_singleton rfl) : Spelled Expression ['1'])

theorem Expr.IsNamed.spelled {e : Expr} (h : e.IsNamed) : Spelled Expression (chars e.tokens) := by
  induction h with
  | @column table name h =>
    have hcolumn := Spells.column h.1.isWordText h.2.isWordText
    exact ⟨_, by simpa [Expr.tokens, Token.text] using hcolumn, .column h.1 h.2⟩
  | literal l => simpa [Expr.tokens, Token.text, Literal.sql] using l.spelled
  | raw h => exact h.elim
  | group _ ih =>
    obtain ⟨xs, hxs, hx⟩ := ih
    exact ⟨_, by simpa [Expr.tokens, Token.text] using hxs.group, by simpa using Expression.group hx⟩
  | @binary op _ _ _ _ ihl ihr => simpa [Expr.tokens, Token.text] using Spelled.binary op ihl ihr
  | @oneOf e values _ _ ih ihs =>
    cases values with
    | nil => exact spelled_never
    | cons value rest =>
      obtain ⟨xs, hxs, hx⟩ := ih
      have hvalues : ∀ cs ∈ (value :: rest).map fun e => chars e.tokens, Spelled Expression cs := by
        intro cs hcs
        obtain ⟨value, hvalue, rfl⟩ := List.mem_map.1 hcs
        exact ihs value hvalue
      obtain ⟨lists, hne, hlists, hspells⟩ := exists_commaSeparated (by simp) hvalues
      rw [← chars_moreTokens] at hspells
      have hin := spells_keyword "IN"
      refine ⟨_, ?_, Expression.oneOf hx hne hlists⟩
      simpa [Expr.tokens, Token.text] using hxs.trail (.cons (hin.trail (.cons hspells.group)))
  | @isNull e negated _ ih =>
    obtain ⟨xs, hxs, hx⟩ := ih
    have his := spells_keyword "IS"
    have hnot := spells_keyword "NOT"
    have hnull := spells_keyword "NULL"
    cases negated with
    | false =>
      refine ⟨_, ?_, Expression.isNull hx⟩
      simpa [Expr.tokens, Token.text] using hxs.trail (.cons (his.trail (.cons hnull)))
    | true =>
      refine ⟨_, ?_, Expression.isNotNull hx⟩
      simpa [Expr.tokens, Token.text] using hxs.trail (.cons (his.trail (.cons (hnot.trail (.cons hnull)))))
  | never => exact spelled_never

inductive Item.IsNamed : Item → Prop
  | column {table name label : String} (ht : IsName table) (hn : IsName name) (hl : IsName label) :
      IsNamed ⟨.column (some table) name, some label⟩

inductive Join.IsNamed : Join → Prop
  | left {table aliasName : String} {on : Expr} (ht : IsName table) (ha : IsName aliasName)
      (hon : on.IsNamed) : IsNamed (.left ⟨table, some aliasName⟩ on)

inductive Order.IsNamed : Order → Prop
  | label {label : String} (hl : IsName label) (direction : Direction) :
      IsNamed ⟨.column none label, direction⟩

structure Select.IsNamed (s : Select) : Prop where
  nonempty : s.items ≠ []
  items : ∀ i ∈ s.items, i.IsNamed
  source : ∃ table aliasName, s.source = some ⟨table, some aliasName⟩ ∧ IsName table ∧ IsName aliasName
  joins : ∀ j ∈ s.joins, j.IsNamed
  filter : ∀ e ∈ s.filter, e.IsNamed
  order : ∀ o ∈ s.order, o.IsNamed

theorem Item.IsNamed.spelled {i : Item} (h : i.IsNamed) : Spelled ResultColumn (chars i.tokens) := by
  obtain ⟨ht, hn, hl⟩ := h
  have has := spells_keyword "AS"
  refine ⟨_, ?_, .column ht hn hl⟩
  simpa [Item.tokens, Expr.tokens, Token.text] using
    (Spells.column ht.isWordText hn.isWordText).trail (.cons (has.trail (.cons hl.spells)))

theorem Join.IsNamed.spelled {j : Join} (h : j.IsNamed) : Spelled JoinClause (chars j.tokens) := by
  obtain ⟨ht, ha, hon⟩ := h
  obtain ⟨xs, hxs, hx⟩ := hon.spelled
  have hleft := spells_keyword "LEFT"
  have hjoin := spells_keyword "JOIN"
  have hkey := spells_keyword "ON"
  refine ⟨_, ?_, .left ht ha hx⟩
  simpa [Join.tokens, Table.tokens, Token.text] using hleft.trail (.cons (hjoin.trail (.cons
    (ht.spells.trail (.cons (ha.spells.trail (.cons (hkey.trail (.cons hxs)))))))))

theorem Order.IsNamed.spelled {o : Order} (h : o.IsNamed) : Spelled OrderingTerm (chars o.tokens) := by
  obtain ⟨hl, direction⟩ := h
  cases direction with
  | ascending =>
    have hasc := spells_keyword "ASC"
    refine ⟨_, ?_, .ascending hl⟩
    simpa [Order.tokens, Expr.tokens, Token.text] using hl.spells.trail (.cons hasc)
  | descending =>
    have hdesc := spells_keyword "DESC"
    refine ⟨_, ?_, .descending hl⟩
    simpa [Order.tokens, Expr.tokens, Token.text] using hl.spells.trail (.cons hdesc)

def countText (n : UInt64) : String :=
  (Token.count n).text

namespace Page

def lexemes (p : Page) : List Lexeme :=
  (p.limit.elim [] fun n => [.word "LIMIT", .number (countText n)]) ++
    p.offset.elim [] fun n => [.word "OFFSET", .number (countText n)]

theorem isDigits_countText (n : UInt64) : IsDigits (countText n).toList := by
  rw [countText, Token.text, String.toList_ofList]
  exact isDigits_digitChars n.toNat

theorem trails (p : Page) : Trails (chars (if p.isWhole then [] else .space :: p.tokens)) p.lexemes := by
  have hlimit := spells_keyword "LIMIT"
  have hoffset := spells_keyword "OFFSET"
  have hcount : ∀ n, Spells (countText n).toList [.number (countText n)] := by
    intro n
    simpa using Spells.magnitude (isDigits_countText n).isMagnitude
  obtain ⟨limit, offset⟩ := p
  cases limit with
  | none =>
    cases offset with
    | none => exact .nil
    | some k =>
      apply Trails.cons
      simpa [tokens, lexemes, countText, Token.text] using hoffset.trail (.cons (hcount k))
  | some n =>
    cases offset with
    | none =>
      apply Trails.cons
      simpa [tokens, lexemes, countText, Token.text] using hlimit.trail (.cons (hcount n))
    | some k =>
      apply Trails.cons
      simpa [tokens, lexemes, countText, Token.text] using
        hlimit.trail (.cons ((hcount n).trail (.cons (hoffset.trail (.cons (hcount k))))))

theorem strict {p : Page} (h : p.offset = none ∨ p.limit ≠ none) : PageClause p.lexemes := by
  obtain ⟨limit, offset⟩ := p
  cases limit with
  | none =>
    obtain rfl : offset = none := by simpa using h
    exact .none
  | some n =>
    cases offset with
    | none => exact .limit (isDigits_countText n)
    | some k => exact .limitOffset (isDigits_countText n) (isDigits_countText k)

theorem strict_iff (p : Page) : PageClause p.lexemes ↔ p.offset = none ∨ p.limit ≠ none := by
  refine ⟨fun h => ?_, strict⟩
  rw [or_iff_not_imp_left]
  intro hoffset hlimit
  obtain ⟨k, hk⟩ := Option.ne_none_iff_exists'.1 hoffset
  have hmem := h.limit_mem (by simp [lexemes, hk])
  simp [lexemes, hlimit, hk] at hmem

theorem loose (p : Page) : LoosePageClause p.lexemes := by
  by_cases h : p.offset = none ∨ p.limit ≠ none
  · exact .strict (strict h)
  · obtain ⟨hoffset, hlimit⟩ := not_or.1 h
    obtain ⟨k, hk⟩ := Option.ne_none_iff_exists'.1 hoffset
    rw [lexemes, not_not.1 hlimit, hk]
    exact .offset (isDigits_countText k)

end Page

theorem chars_separate (items : List (List Token)) :
    chars (separate [.comma, .space] items) = List.intercalate [',', ' '] (items.map chars) := by
  induction items with
  | nil => rfl
  | cons item rest ih =>
    cases rest with
    | nil => simp [separate]
    | cons next rest =>
      rw [List.map_cons, List.map_cons, List.intercalate_cons_cons, ← List.map_cons, ← ih]
      simp [separate, Token.text]

/-- The space behind a comma belongs to the item that follows. -/
theorem chars_separate_items {items : List Item} (hne : items ≠ []) :
    chars (separate [.comma] (items.map fun i => .space :: i.tokens)) =
      ' ' :: List.intercalate [',', ' '] (items.map fun i => chars i.tokens) := by
  induction items with
  | nil => exact absurd rfl hne
  | cons item rest ih =>
    cases rest with
    | nil => simp [separate, Token.text]
    | cons next rest =>
      have hmore := ih (by simp)
      rw [List.map_cons] at hmore
      rw [List.map_cons, List.map_cons, separate, chars_append, hmore, List.map_cons, List.map_cons,
        List.map_cons, List.intercalate_cons_cons]
      · simp [Token.text]
      · simp

theorem trails_joins {joins : List Join} (h : ∀ j ∈ joins, j.IsNamed) :
    ∃ lists : List (List Lexeme), (∀ ls ∈ lists, JoinClause ls) ∧
      Trails (chars (joins.flatMap fun j => .space :: j.tokens)) lists.flatten := by
  induction joins with
  | nil => exact ⟨[], by simp, .nil⟩
  | cons j rest ih =>
    obtain ⟨hj, hrest⟩ := List.forall_mem_cons.1 h
    obtain ⟨ls, hls, hclause⟩ := hj.spelled
    obtain ⟨lists, hlists, htrails⟩ := ih hrest
    refine ⟨ls :: lists, List.forall_mem_cons.2 ⟨hclause, hlists⟩, ?_⟩
    simpa [Token.text] using (Trails.cons hls).append htrails

theorem trailed_filter (filter : Option Expr) : (∀ e ∈ filter, e.IsNamed) →
    Trailed WhereClause (chars (match filter with
      | none => []
      | some e => [.space, .where, .space] ++ e.tokens)) := by
  intro h
  cases filter with
  | none => exact ⟨_, .nil, .none⟩
  | some e =>
    obtain ⟨xs, hxs, hx⟩ := (h e rfl).spelled
    refine ⟨_, ?_, .some hx⟩
    simpa [Token.text] using Trails.cons ((spells_keyword "WHERE").trail (.cons hxs))

theorem trailed_order {order : List Order} (h : ∀ o ∈ order, o.IsNamed) :
    Trailed OrderClause (chars (if order.isEmpty then []
      else [.space, .orderBy, .space] ++ separate [.comma, .space] (order.map Order.tokens))) := by
  cases order with
  | nil => exact ⟨_, .nil, .none⟩
  | cons first rest =>
    have hterms : ∀ cs ∈ ((first :: rest).map Order.tokens).map chars, Spelled OrderingTerm cs := by
      intro cs hcs
      obtain ⟨o, ho, rfl⟩ := List.mem_map.1 (List.map_map ▸ hcs)
      exact (h o ho).spelled
    obtain ⟨lists, hne, hlists, hspells⟩ := exists_commaSeparated (by simp) hterms
    rw [← chars_separate] at hspells
    refine ⟨_, ?_, .some hne hlists⟩
    have horder := (spells_keyword "ORDER").trail (.cons ((spells_keyword "BY").trail (.cons hspells)))
    simpa [Token.text] using Trails.cons horder

namespace Select

variable {s : Select}

/-- The statement is read as a sentence of the grammar, with its page at the end. -/
theorem IsNamed.spelled (h : s.IsNamed) : Spelled (Sentence (· = s.page.lexemes)) (chars s.tokens) := by
  have hitems : ∀ cs ∈ s.items.map fun i => chars i.tokens, Spelled ResultColumn cs := by
    intro cs hcs
    obtain ⟨i, hi, rfl⟩ := List.mem_map.1 hcs
    exact (h.items i hi).spelled
  obtain ⟨columns, hne, hcolumns, hlist⟩ := exists_commaSeparated (by simp [h.nonempty]) hitems
  obtain ⟨table, aliasName, hsource, ht, ha⟩ := h.source
  obtain ⟨joins, hjoins, htables⟩ := trails_joins h.joins
  obtain ⟨filter, hwhere, hfilter⟩ := trailed_filter _ h.filter
  obtain ⟨order, hterms, horder⟩ := trailed_order h.order
  refine ⟨_, ?_, .select hne hcolumns ht ha hjoins hfilter horder rfl⟩
  have hfrom := (spells_keyword "FROM").trail (.cons (ht.spells.trail (.cons ha.spells)))
  have hhead := ((spells_keyword "SELECT").trail (.cons hlist)).trail (.cons hfrom)
  have hall := (((hhead.trail htables).trail hwhere).trail hterms).trail s.page.trails
  convert hall using 1
  · rw [Select.tokens, hsource]
    simp only [chars_append, chars_cons, chars_separate_items h.nonempty]
    cases s.filter <;> simp [Token.text, Table.tokens]
  · simp

end Select

end Retrieval.Sql
