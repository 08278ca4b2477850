import Mathlib.Data.List.TakeWhile
import Retrieval.Number.Reading

namespace Retrieval

/-- A text is a whole number with its sign, and it has at least one digit. -/
inductive IsWhole : List Char → Int → Prop
  | plain {digits : List Char} (hne : digits ≠ []) (hd : ∀ c ∈ digits, c.isDigit = true) :
      IsWhole digits (Text.digitsValue digits)
  | plus {digits : List Char} (hne : digits ≠ []) (hd : ∀ c ∈ digits, c.isDigit = true) :
      IsWhole ('+' :: digits) (Text.digitsValue digits)
  | minus {digits : List Char} (hne : digits ≠ []) (hd : ∀ c ∈ digits, c.isDigit = true) :
      IsWhole ('-' :: digits) (-Text.digitsValue digits)

def FitsInt64 (n : Int) : Prop :=
  Int64.minValue.toInt ≤ n ∧ n ≤ Int64.maxValue.toInt

instance (n : Int) : Decidable (FitsInt64 n) :=
  inferInstanceAs (Decidable (_ ∧ _))

theorem Text.exists_trim (cs : List Char) : ∃ before after, cs = before ++ trim cs ++ after ∧
    (∀ c ∈ before, isBlank c = true) ∧ ∀ c ∈ after, isBlank c = true := by
  refine ⟨cs.takeWhile isBlank, ((cs.dropWhile isBlank).reverse.takeWhile isBlank).reverse, ?_, ?_, ?_⟩
  · rw [trim, List.append_assoc, ← List.reverse_append, List.takeWhile_append_dropWhile,
      List.reverse_reverse, List.takeWhile_append_dropWhile]
  · exact fun c hc => List.mem_takeWhile_imp hc
  · intro c hc
    rw [List.mem_reverse] at hc
    exact List.mem_takeWhile_imp hc

theorem isWhole_takeSign {cs : List Char} (hne : (takeSign cs).2 ≠ [])
    (hd : ∀ c ∈ (takeSign cs).2, c.isDigit = true) :
    IsWhole cs (if (takeSign cs).1 then -Text.digitsValue (takeSign cs).2
      else Text.digitsValue (takeSign cs).2) := by
  cases cs with
  | nil => exact absurd rfl hne
  | cons c rest =>
    by_cases hminus : c = '-'
    · subst hminus
      exact .minus hne hd
    · by_cases hplus : c = '+'
      · subst hplus
        exact .plus hne hd
      · simp only [takeSign, if_neg hminus, if_neg hplus] at hne hd ⊢
        exact .plain hne hd

theorem readInt64?_ok {cs : List Char} {n : Int} (h : readInt64? cs = some n) :
    IsWhole cs n ∧ FitsInt64 n := by
  unfold readInt64? at h
  dsimp only at h
  split at h
  · cases h
  · rename_i hdigits
    simp only [Bool.or_eq_true, Bool.not_eq_true', not_or, List.isEmpty_iff, Bool.not_eq_false,
      List.all_eq_true] at hdigits
    rw [Option.ite_none_right_eq_some, Option.some.injEq] at h
    obtain ⟨hfits, rfl⟩ := h
    exact ⟨isWhole_takeSign hdigits.1 hdigits.2, hfits⟩

end Retrieval
