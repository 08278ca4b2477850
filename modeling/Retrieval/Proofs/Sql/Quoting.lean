import Mathlib.Data.List.Forall2
import Retrieval.Proofs.Number.Layout
import Retrieval.Sql.Literal

namespace Retrieval.Sql

/-- Where a reader of SQL is: outside of literals, inside one, or behind a quote that ends a literal
unless another quote follows. -/
inductive Mode where
  | outside
  | inside
  | closing
  deriving DecidableEq, Repr

namespace Mode

def next : Mode → Char → Mode
  | .inside, c => if c = '\'' then .closing else .inside
  | .outside, c | .closing, c => if c = '\'' then .inside else .outside

def left : Mode → Char → List (Option Char)
  | .outside, c => if c = '\'' then [none] else [some c]
  | .inside, _ => []
  | .closing, c => if c = '\'' then [] else [some c]

def read (mode : Mode) (cs : List Char) : Mode :=
  cs.foldl next mode

def erase (mode : Mode) : List Char → List (Option Char)
  | [] => []
  | c :: rest => mode.left c ++ erase (mode.next c) rest

end Mode

/-- SQL with a mark in the place of each string literal. -/
def erase (sql : String) : List (Option Char) :=
  Mode.outside.erase sql.toList

def EndsOutside (sql : String) : Prop :=
  Mode.outside.read sql.toList ≠ .inside

def ClosesQuotes (cs : List Char) : Prop :=
  cs.count '\'' % 2 = 0

namespace Mode

variable {mode : Mode}

@[simp] theorem read_cons (c : Char) (rest : List Char) :
    mode.read (c :: rest) = (mode.next c).read rest := rfl

theorem erase_append (xs ys : List Char) :
    mode.erase (xs ++ ys) = mode.erase xs ++ (mode.read xs).erase ys := by
  induction xs generalizing mode with
  | nil => rfl
  | cons c rest ih => rw [List.cons_append, erase, ih, erase, List.append_assoc, read_cons]

theorem read_append (xs ys : List Char) : mode.read (xs ++ ys) = (mode.read xs).read ys :=
  List.foldl_append

/-- The reader is inside of a literal exactly after an odd number of quotes. -/
theorem read_eq_inside_iff (cs : List Char) :
    mode.read cs = .inside ↔ ((if mode = .inside then 1 else 0) + cs.count '\'') % 2 = 1 := by
  induction cs generalizing mode with
  | nil => cases mode <;> simp [read]
  | cons c rest ih =>
    rw [read_cons, ih]
    by_cases hc : c = '\''
    · subst hc
      rw [List.count_cons_self]
      cases mode <;> simp [next] <;> omega
    · rw [List.count_cons_of_ne hc]
      cases mode <;> simp [next, hc]

theorem read_ne_inside {cs : List Char} (hm : mode ≠ .inside) (hb : ClosesQuotes cs) :
    mode.read cs ≠ .inside := by
  intro hi
  rw [read_eq_inside_iff, if_neg hm] at hi
  rw [ClosesQuotes] at hb
  omega

theorem read_doubleQuotes (cs : List Char) : Mode.inside.read (doubleQuotes cs) = .inside := by
  induction cs with
  | nil => rfl
  | cons c rest ih =>
    rw [doubleQuotes]
    split
    · exact ih
    · rename_i hc
      rw [read_cons, next, if_neg hc]
      exact ih

theorem erase_doubleQuotes (cs : List Char) : Mode.inside.erase (doubleQuotes cs) = [] := by
  induction cs with
  | nil => rfl
  | cons c rest ih =>
    rw [doubleQuotes]
    split
    · exact ih
    · rename_i hc
      rw [erase, next, if_neg hc, ih]
      rfl

theorem read_quoteChars (hm : mode ≠ .inside) (cs : List Char) : mode.read (quoteChars cs) = .closing := by
  have hopen : mode.next '\'' = .inside := by
    cases mode <;> simp_all [next]
  rw [quoteChars, List.cons_append, read_cons, hopen, read_append, read_doubleQuotes]
  rfl

theorem erase_quoteChars (hm : mode ≠ .inside) (cs : List Char) :
    mode.erase (quoteChars cs) = mode.left '\'' := by
  have hopen : mode.next '\'' = .inside := by
    cases mode <;> simp_all [next]
  rw [quoteChars, List.cons_append, erase, hopen, erase_append, erase_doubleQuotes, read_doubleQuotes]
  simp [erase, left]

end Mode

theorem closesQuotes_of_notMem {cs : List Char} (h : '\'' ∉ cs) : ClosesQuotes cs := by
  rw [ClosesQuotes, List.count_eq_zero.2 h]

theorem not_isNumeral_quote : ¬ IsNumeral '\'' := by
  simp [IsNumeral, Char.isDigit]

theorem count_doubleQuotes (cs : List Char) :
    (doubleQuotes cs).count '\'' = 2 * cs.count '\'' := by
  induction cs with
  | nil => rfl
  | cons c rest ih =>
    rw [doubleQuotes]
    split
    · rename_i hc
      subst hc
      rw [List.count_cons_self, List.count_cons_self, List.count_cons_self, ih]
      omega
    · rename_i hc
      rw [List.count_cons_of_ne hc, List.count_cons_of_ne hc, ih]

theorem Literal.quoted_or_bare (l : Literal) : (∃ s, l = .text s) ∨ l.chars = l.bare ∧ '\'' ∉ l.bare := by
  cases l with
  | null => exact .inr ⟨rfl, by decide⟩
  | integer n => exact .inr ⟨rfl, fun h => not_isNumeral_quote (Layout.isNumeral_of_mem_intChars h)⟩
  | real x => exact .inr ⟨rfl, fun h => not_isNumeral_quote (Layout.isNumeral_of_mem_write h)⟩
  | text s => exact .inl ⟨s, rfl⟩

theorem Literal.closesQuotes (l : Literal) : ClosesQuotes l.chars := by
  obtain ⟨s, rfl⟩ | ⟨hchars, hquote⟩ := l.quoted_or_bare
  · have hone : ['\''].count '\'' = 1 := rfl
    rw [ClosesQuotes, chars, quoteChars, List.count_append, List.count_cons_self, count_doubleQuotes, hone]
    omega
  · rw [hchars]
    exact closesQuotes_of_notMem hquote

/-- The reader has left a literal behind it: a quote has ended it, and no further quote follows. -/
def LiteralEnds (before after : List Char) : Prop :=
  Mode.outside.read before = .closing ∧ ∀ c ∈ after.head?, c ≠ '\''

/-- Of a text in which quotes are doubled the reader does not find the end before the quote behind it. -/
theorem nil_of_literalEnds {cs before after : List Char} (h : doubleQuotes cs ++ ['\''] = before ++ after)
    (hr : Mode.inside.read before = .closing) (ha : ∀ c ∈ after.head?, c ≠ '\'') : after = [] := by
  -- two characters at a time where a quote is doubled: between them the reader waits for the second
  induction cs generalizing before with
  | nil =>
    cases before with
    | nil => cases hr
    | cons c before =>
      have htail := (List.cons.inj h).2
      exact (List.append_eq_nil_iff.1 htail.symm).2
  | cons c cs ih =>
    rw [doubleQuotes] at h
    split at h
    · cases before with
      | nil => cases hr
      | cons d before =>
        obtain ⟨rfl, hfirst⟩ := List.cons.inj h
        cases before with
        | nil =>
          have hhead : '\'' ∈ after.head? := congrArg List.head? hfirst.symm
          exact absurd rfl (ha '\'' hhead)
        | cons d before =>
          obtain ⟨hd, htail⟩ := List.cons.inj hfirst
          rw [← hd] at hr
          exact ih htail hr
    · rename_i hc
      cases before with
      | nil => cases hr
      | cons d before =>
        obtain ⟨rfl, htail⟩ := List.cons.inj h
        rw [Mode.read_cons, Mode.next, if_neg hc] at hr
        exact ih htail hr

theorem literalEnds_quoteChars {cs before after rest : List Char} (h : quoteChars cs = before ++ after)
    (hr : ∀ c ∈ rest.head?, c ≠ '\'') : LiteralEnds before (after ++ rest) ↔ after = [] := by
  constructor
  · rintro ⟨hread, hhead⟩
    cases before with
    | nil => cases hread
    | cons c before =>
      obtain ⟨rfl, htail⟩ := List.cons.inj h
      refine nil_of_literalEnds htail hread fun c hc => hhead c ?_
      cases after with
      | nil => cases hc
      | cons d after => exact hc
  · rintro rfl
    rw [List.append_nil] at h
    refine ⟨?_, hr⟩
    rw [← h]
    exact Mode.read_quoteChars (by decide) cs

example : erase "a = 'it''s' OR b = ''" =
    [some 'a', some ' ', some '=', some ' ', none, some ' ', some 'O', some 'R', some ' ', some 'b',
      some ' ', some '=', some ' ', none] := by decide +kernel

end Retrieval.Sql
