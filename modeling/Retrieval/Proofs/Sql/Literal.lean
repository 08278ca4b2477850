import Retrieval.Proofs.Number.Layout
import Retrieval.Proofs.Number.Reading
import Retrieval.Run.Stored

namespace Retrieval

open Sql

def Sql.Literal.isNegative : Literal → Bool
  | .integer n => n < 0
  | .real x => x.negative
  | .null | .text _ => false

theorem Sql.Literal.form (l : Literal) : l = .null ∨ (∃ s, l = .text s) ∨
    ∃ cs, l.chars = (if l.isNegative then ['-'] else []) ++ cs ∧ IsMagnitude cs := by
  cases l with
  | null => exact .inl rfl
  | text s => exact .inr (.inl ⟨s, rfl⟩)
  | integer n =>
    refine .inr (.inr ?_)
    cases n with
    | ofNat n => exact ⟨_, rfl, (isDigits_digitChars n).isMagnitude⟩
    | negSucc n =>
      have hsign : (Literal.integer (.negSucc n)).isNegative = true := decide_eq_true (Int.negSucc_lt_zero n)
      exact ⟨_, by rw [if_pos hsign]; rfl, (isDigits_digitChars (n + 1)).isMagnitude⟩
  | real x => exact .inr (.inr (Layout.sql.exists_magnitude x))

/-- The text of a literal from behind its first quote. A second quote ends it, unless a third follows
at once; `closing` is true there. -/
def Sql.unquote? (closing : Bool) : List Char → Option (List Char)
  | [] => if closing then some [] else none
  | c :: rest =>
    if closing then
      if c = '\'' then (unquote? false rest).map ('\'' :: ·) else none
    else if c = '\'' then unquote? true rest
    else (unquote? false rest).map (c :: ·)

namespace Stored

def digits? (cs : List Char) : Option Nat :=
  if cs.isEmpty || !cs.all Char.isDigit then none else some (Text.digitsValue cs)

def integer? (n : Int) : Option Stored :=
  if FitsInt64 n then some (.integer n) else none

def ofLiteral? : List Char → Option Stored
  | [] => none
  | c :: rest =>
    if c = '\'' then (unquote? false rest).map fun cs => .text (String.ofList cs)
    else if c = '-' then (digits? rest).bind fun n => integer? (-n)
    else if c :: rest = ['N', 'U', 'L', 'L'] then some .null
    else (digits? (c :: rest)).bind fun n => integer? n

end Stored

theorem Sql.unquote?_doubleQuotes (cs : List Char) :
    unquote? false (doubleQuotes cs ++ ['\'']) = some cs := by
  induction cs with
  | nil => rfl
  | cons c rest ih =>
    rw [doubleQuotes]
    split
    · rename_i hc
      simp [unquote?, ih, hc]
    · rename_i hc
      simp [unquote?, ih, hc]

namespace Stored

theorem digits?_digitChars (n : Nat) : digits? (Decimal.digitChars n) = some n := by
  obtain ⟨hne, hall⟩ := isDigits_digitChars n
  simp [digits?, hne, List.all_eq_true.2 hall]

theorem ofLiteral?_text (s : String) : ofLiteral? (Literal.text s).sql.toList = some (.text s) := by
  simp [Literal.sql, Literal.chars, quoteChars, ofLiteral?, unquote?_doubleQuotes]

theorem ofLiteral?_digitChars (n : Nat) : ofLiteral? (Decimal.digitChars n) = integer? n := by
  have hdigits := digits?_digitChars n
  obtain ⟨hne, hall⟩ := isDigits_digitChars n
  cases hcs : Decimal.digitChars n with
  | nil => exact absurd hcs hne
  | cons c rest =>
    have hc : c.isDigit = true := hall c (by simp [hcs])
    have hquote : c ≠ '\'' := by
      rintro rfl
      cases hc
    have hminus : c ≠ '-' := by
      rintro rfl
      cases hc
    have hnull : c ≠ 'N' := by
      rintro rfl
      cases hc
    rw [hcs] at hdigits
    simp [ofLiteral?, hquote, hminus, hnull, hdigits]

theorem ofLiteral?_intChars (n : Int) : ofLiteral? (Layout.intChars n) = integer? n := by
  cases n with
  | ofNat n => exact ofLiteral?_digitChars n
  | negSucc n =>
    rw [Layout.intChars, ofLiteral?, if_neg (by decide), if_pos rfl, digits?_digitChars, Option.bind_some]
    rfl

theorem ofLiteral?_integer {n : Int} (h : FitsInt64 n) :
    ofLiteral? (Literal.integer n).sql.toList = some (.integer n) := by
  rw [Literal.sql, String.toList_ofList, Literal.chars, Literal.bare, ofLiteral?_intChars]
  · exact if_pos h
  · simp

end Stored

end Retrieval
