import Retrieval.Proofs.Field.Canonical
import Retrieval.Proofs.Query.Filter
import Retrieval.Proofs.Sql.Quoting

namespace Retrieval

open Sql

namespace Sql

def peel : List Char → List Char
  | [] => []
  | c :: rest => if c = '\'' ∧ rest.getLast? = some '\'' then rest.dropLast else c :: rest

/-- What a literal says: with quotes the text between them, and otherwise itself. -/
def unquoted? : List Char → Option (List Char)
  | [] => some []
  | c :: rest => if c = '\'' then unquote? false rest else some (c :: rest)

variable {cs : List Char}

theorem doubleQuotes_append (xs ys : List Char) :
    doubleQuotes (xs ++ ys) = doubleQuotes xs ++ doubleQuotes ys := by
  induction xs with
  | nil => rfl
  | cons c xs ih =>
    rw [List.cons_append, doubleQuotes, doubleQuotes]
    split
    · rw [ih, List.cons_append, List.cons_append]
    · rw [ih, List.cons_append]

theorem doubleQuotes_of_notMem (h : '\'' ∉ cs) : doubleQuotes cs = cs := by
  induction cs with
  | nil => rfl
  | cons c cs ih =>
    rw [List.mem_cons, not_or] at h
    rw [doubleQuotes, if_neg (Ne.symm h.1), ih h.2]

theorem peel_quoteChars (cs : List Char) : peel (quoteChars cs) = doubleQuotes cs := by
  rw [quoteChars, List.cons_append, peel, if_pos ⟨rfl, List.getLast?_concat⟩, List.dropLast_concat]

theorem peel_of_notMem (h : '\'' ∉ cs) : peel cs = cs := by
  cases cs with
  | nil => rfl
  | cons c cs =>
    rw [List.mem_cons, not_or] at h
    exact if_neg fun hc => h.1 hc.1.symm

theorem unquoted?_quoteChars (cs : List Char) : unquoted? (quoteChars cs) = some cs := by
  rw [quoteChars, List.cons_append, unquoted?, if_pos rfl, unquote?_doubleQuotes]

theorem unquoted?_of_notMem (h : '\'' ∉ cs) : unquoted? cs = some cs := by
  cases cs with
  | nil => rfl
  | cons c cs =>
    rw [List.mem_cons, not_or] at h
    exact if_neg (Ne.symm h.1)

namespace Literal

theorem peel_chars (l : Literal) : peel l.chars = doubleQuotes l.bare := by
  obtain ⟨s, rfl⟩ | ⟨hchars, hquote⟩ := l.quoted_or_bare
  · exact peel_quoteChars s.toList
  · rw [hchars, peel_of_notMem hquote, doubleQuotes_of_notMem hquote]

theorem unquoted?_chars (l : Literal) : unquoted? l.chars = some l.bare := by
  obtain ⟨s, rfl⟩ | ⟨hchars, hquote⟩ := l.quoted_or_bare
  · exact unquoted?_quoteChars s.toList
  · rw [hchars, unquoted?_of_notMem hquote]

theorem chars_containing (l : Literal) : l.containing.chars = quoteChars ('%' :: l.bare ++ ['%']) := by
  rw [containing, chars, String.toList_ofList]

/-- What is left of a literal without its quotes can be written between new ones as it is. -/
theorem chars_containing_peel (l : Literal) :
    l.containing.chars = '\'' :: '%' :: peel l.chars ++ ['%', '\''] := by
  have hinner : doubleQuotes ('%' :: l.bare ++ ['%']) = '%' :: doubleQuotes l.bare ++ ['%'] := by
    rw [List.cons_append, doubleQuotes, if_neg (by decide), doubleQuotes_append]
    rfl
  rw [chars_containing, quoteChars, hinner, peel_chars]
  simp

end Literal

theorem render_append (ts more : List Token) : render (ts ++ more) = render ts ++ render more := by
  rw [render, List.flatMap_append, String.ofList_append]
  rfl

theorem Expr.sql_literal (l : Literal) : (Expr.literal l).sql = l.sql := by
  simp [Expr.sql, Expr.tokens, render, Token.text]

theorem Expr.sql_like (left right : Expr) :
    (Expr.binary .like left right).sql = left.sql ++ " LIKE " ++ right.sql := by
  rw [sql, tokens, render_append, render_append]
  rfl

end Sql

namespace Field

/-- The text that is looked for in a field: a value's own text where values are texts, and otherwise the text of
the number that the value is. -/
inductive Seeks : Field → Json → List Char → Prop
  | own {f : Field} {v : Json} {s : String} (hf : f.isText = true) (hs : v.Scalar s) : Seeks f v s.toList
  | whole {f : Field} {v : Json} {n : Int} (hf : f.scan = .integer) (hn : v.Whole n) :
      Seeks f v (Layout.intChars n)
  | float {v : Json} {x : Binary64} (hx : finiteNumber? v = some x) : Seeks .float v (Layout.sql.write x)
  | bool {v : Json} {b : Bool} (hb : v.Truth b) : Seeks .bool v [if b then '1' else '0']

variable {f : Field} {v : Json} {l : Literal}

theorem seeks_of_present? (h : f.present? v = some l) : f.Seeks v l.bare := by
  cases f with
  | string maxLength | text maxLength =>
    obtain ⟨s, hs, hfits⟩ := Option.bind_eq_some_iff.1 h
    rw [Option.ite_none_right_eq_some, Option.some.injEq] at hfits
    rw [← hfits.2]
    exact .own rfl (Json.scalarText?_eq_some.1 hs)
  | enum choices =>
    cases v with
    | string s =>
      rw [present?, Option.ite_none_right_eq_some, Option.some.injEq] at h
      rw [← h.2]
      exact .own rfl (.string _)
    | _ => cases h
  | int =>
    obtain ⟨n, hn, rfl⟩ := Option.map_eq_some_iff.1 h
    exact .whole rfl (wholeNumber?_ok hn).1
  | id | ref collection =>
    obtain ⟨n, hn, hsign⟩ := Option.bind_eq_some_iff.1 h
    rw [Option.ite_none_right_eq_some, Option.some.injEq] at hsign
    rw [← hsign.2]
    exact .whole rfl (wholeNumber?_ok hn).1
  | float =>
    obtain ⟨x, hx, rfl⟩ := Option.map_eq_some_iff.1 h
    exact .float hx
  | bool =>
    obtain ⟨b, hb, rfl⟩ := Option.map_eq_some_iff.1 h
    have htext : (Literal.integer (if b then 1 else 0)).bare = [if b then '1' else '0'] := by
      cases b <;> decide
    rw [htext]
    exact .bool (truth?_ok hb)
  | date =>
    cases v with
    | string s =>
      cases h
      exact .own rfl (.string _)
    | _ => cases h

theorem seeks_of_pattern (hv : v.isNull = false) (h : f.pattern v = .ok l) : f.Seeks v l.bare := by
  have hliteral : f.literal v = .ok l → f.Seeks v l.bare := by
    intro h
    obtain ⟨rfl, _⟩ | ⟨_, hpresent⟩ := literal_ok h
    · cases hv
    · exact seeks_of_present? hpresent
  cases f with
  | enum choices =>
    cases v with
    | string s =>
      cases h
      exact .own rfl (.string _)
    | _ => cases h
  | _ => exact hliteral h

end Field

/-- A condition on a field with the text that a value stands for as its pattern. The text is written between percent
signs and quotes, as a literal that a reader leaves at its last character. -/
structure SelectedField.LooksFor (f : SelectedField) (v : Json) (l : Literal) (text : List Char) (e : Expr) :
    Prop where
  present : v.isNull = false
  pattern : f.field.pattern v = .ok l
  seeks : f.field.Seeks v text
  unquoted : unquoted? l.chars = some text
  predicate : e = .binary .like f.operand (.literal l.containing)
  spliced : e.sql = f.operand.sql ++ " LIKE " ++ String.ofList ('\'' :: '%' :: peel l.chars ++ ['%', '\''])
  quoted : e.sql = f.operand.sql ++ " LIKE " ++ quote (String.ofList ('%' :: text ++ ['%']))
  ends : ∀ before after rest, (quote (String.ofList ('%' :: text ++ ['%']))).toList = before ++ after →
    (∀ c ∈ rest.head?, c ≠ '\'') → (LiteralEnds before (after ++ rest) ↔ after = [])

namespace SelectedField

variable {f : SelectedField} {v : Json} {l : Literal} {e : Expr}

theorem looksFor_of_pattern (hv : v.isNull = false) (h : f.field.pattern v = .ok l) :
    f.LooksFor v l l.bare (.binary .like f.operand (.literal l.containing)) where
  present := hv
  pattern := h
  seeks := Field.seeks_of_pattern hv h
  unquoted := l.unquoted?_chars
  predicate := rfl
  spliced := by rw [Expr.sql_like, Expr.sql_literal, Literal.sql, l.chars_containing_peel]
  quoted := by rw [Expr.sql_like, Expr.sql_literal, Literal.sql, l.chars_containing, quote, String.toList_ofList]
  ends := by
    intro before after rest hsplit hrest
    rw [quote, String.toList_ofList, String.toList_ofList] at hsplit
    exact literalEnds_quoteChars hsplit hrest

theorem contains_eq_ok_iff : f.contains v = .ok e ↔ ∃ l text, f.LooksFor v l text e := by
  constructor
  · intro h
    have hv : v.isNull = false := by
      rw [← Bool.not_eq_true]
      intro hnull
      rw [contains, if_pos hnull] at h
      cases h
    obtain ⟨l, hl, rfl⟩ := contains_ok h
    exact ⟨l, l.bare, looksFor_of_pattern hv hl⟩
  · rintro ⟨l, text, h⟩
    rw [contains, h.present, h.pattern, h.predicate]
    rfl

end SelectedField

/-- A LIKE condition is compiled for the values that the field takes as patterns, other than null, and looks for
the text of the value. -/
theorem Condition.predicate_like_iff {p : Selection} {path : String} {v : Json} {e : Expr} :
    Condition.predicate p ⟨path, "LIKE", v⟩ = .ok e ↔
      ∃ f l text, p.get? path = some f ∧ f.LooksFor v l text e := by
  have hpredicate : Condition.predicate p ⟨path, "LIKE", v⟩ =
      p.lookup path >>= fun f => f.contains v := rfl
  simp only [hpredicate, bind_eq_ok, Selection.lookup_eq_ok, SelectedField.contains_eq_ok_iff]
  constructor
  · rintro ⟨f, hf, l, text, h⟩
    exact ⟨f, l, text, hf, h⟩
  · rintro ⟨f, l, text, hf, h⟩
    exact ⟨f, hf, l, text, h⟩

example : peel (Literal.text "''").chars = ['\'', '\'', '\'', '\''] ∧
    (Literal.text "''").containing.sql = "'%''''%'" := by decide +kernel

end Retrieval
