import Mathlib.Data.List.Basic
import Retrieval.Number.Layout

namespace Retrieval

def IsNumeral (c : Char) : Prop :=
  c.isDigit = true ∨ c ∈ ['-', '+', '.', 'e']

def IsDigits (cs : List Char) : Prop :=
  cs ≠ [] ∧ ∀ c ∈ cs, c.isDigit = true

inductive IsFraction : List Char → Prop
  | none : IsFraction []
  | some {digits : List Char} (h : IsDigits digits) : IsFraction ('.' :: digits)

inductive IsExponent : List Char → Prop
  | none : IsExponent []
  | unsigned {digits : List Char} (h : IsDigits digits) : IsExponent ('e' :: digits)
  | signed {sign : Char} {digits : List Char} (hs : sign = '-' ∨ sign = '+') (h : IsDigits digits) :
      IsExponent ('e' :: sign :: digits)

inductive IsMagnitude : List Char → Prop
  | mk {whole fraction exponent : List Char} (hw : IsDigits whole) (hf : IsFraction fraction)
      (he : IsExponent exponent) : IsMagnitude (whole ++ fraction ++ exponent)

theorem IsDigits.exists_cons {cs : List Char} (h : IsDigits cs) :
    ∃ d ds, cs = d :: ds ∧ d.isDigit = true ∧ ∀ c ∈ ds, c.isDigit = true := by
  obtain ⟨d, ds, rfl⟩ := List.exists_cons_of_ne_nil h.1
  exact ⟨d, ds, rfl, List.forall_mem_cons.1 h.2⟩

theorem IsDigits.isMagnitude {cs : List Char} (h : IsDigits cs) : IsMagnitude cs := by
  simpa using IsMagnitude.mk h .none .none

theorem isDigits_singleton {c : Char} (h : c.isDigit = true) : IsDigits [c] :=
  ⟨by simp, by simpa using h⟩

theorem isDigits_digitChars (n : Nat) : IsDigits (Decimal.digitChars n) :=
  ⟨by simp [Decimal.digitChars], fun _ hc => Nat.isDigit_of_mem_toDigits (by decide) (by decide) hc⟩

theorem IsDigits.isNumeral {cs : List Char} (h : IsDigits cs) {c : Char} (hc : c ∈ cs) : IsNumeral c :=
  Or.inl (h.2 c hc)

theorem IsMagnitude.isNumeral {cs : List Char} (h : IsMagnitude cs) {c : Char} (hc : c ∈ cs) :
    IsNumeral c := by
  obtain ⟨hw, hf, he⟩ := h
  rw [List.mem_append, List.mem_append] at hc
  obtain (hc | hc) | hc := hc
  · exact hw.isNumeral hc
  · cases hf with
    | none => cases hc
    | some hd =>
      obtain rfl | hc := List.mem_cons.1 hc
      · exact .inr (by decide)
      · exact hd.isNumeral hc
  · cases he with
    | none => cases hc
    | unsigned hd =>
      obtain rfl | hc := List.mem_cons.1 hc
      · exact .inr (by decide)
      · exact hd.isNumeral hc
    | signed hs hd =>
      obtain rfl | rfl | hc := (List.mem_cons.1 hc).imp_right List.mem_cons.1
      · exact .inr (by decide)
      · obtain rfl | rfl := hs <;> exact .inr (by decide)
      · exact hd.isNumeral hc

theorem isNumeral_of_mem_digitChars {n : Nat} {c : Char} (h : c ∈ Decimal.digitChars n) : IsNumeral c :=
  (isDigits_digitChars n).isNumeral h

namespace Layout

theorem isNumeral_of_mem_intChars {n : Int} {c : Char} (h : c ∈ intChars n) : IsNumeral c := by
  cases n with
  | ofNat n => exact isNumeral_of_mem_digitChars h
  | negSucc n =>
    cases List.mem_cons.1 h with
    | inl hs => exact Or.inr (by simp [hs])
    | inr hd => exact isNumeral_of_mem_digitChars hd

variable {l : Layout} {digits : List Char} {c : Char}

theorem isExponent_intChars (n : Int) : IsExponent ('e' :: intChars n) := by
  cases n with
  | ofNat n => exact .unsigned (isDigits_digitChars n)
  | negSucc n => exact .signed (.inl rfl) (isDigits_digitChars (n + 1))

theorem isMagnitude_scientific (hd : IsDigits digits) (leading : Int) :
    IsMagnitude (l.scientific digits leading) := by
  have hexponent : IsExponent ('e' :: (if l.plusSign && decide (0 ≤ leading) then ['+'] else []) ++
      intChars leading) := by
    split
    · rename_i hsign
      obtain ⟨n, rfl⟩ := Int.eq_ofNat_of_zero_le (by simpa using (Bool.and_eq_true_iff.1 hsign).2)
      exact .signed (.inr rfl) (isDigits_digitChars n)
    · exact isExponent_intChars leading
  obtain ⟨hne, hall⟩ := hd
  unfold scientific
  cases digits with
  | nil => exact absurd rfl hne
  | cons first rest =>
    have hfirst : IsDigits [first] := ⟨by simp, by simpa using hall first List.mem_cons_self⟩
    cases rest with
    | nil => simpa using IsMagnitude.mk hfirst .none hexponent
    | cons second rest =>
      have hrest : IsDigits (second :: rest) :=
        ⟨by simp, fun c hc => hall c (List.mem_cons_of_mem _ hc)⟩
      simpa using IsMagnitude.mk hfirst (.some hrest) hexponent

theorem isMagnitude_positional (hd : IsDigits digits) (exponent : Int) :
    IsMagnitude (l.positional digits exponent) := by
  obtain ⟨hne, hall⟩ := hd
  have hlength : 0 < digits.length := List.length_pos_iff.2 hne
  have hzeros : ∀ n, ∀ c ∈ List.replicate n '0', c.isDigit = true := by
    intro n c hc
    rw [List.eq_of_mem_replicate hc]
    decide
  unfold positional
  dsimp only
  split
  · have hwhole : IsDigits (digits ++ List.replicate exponent.toNat '0') :=
      ⟨by simp [hne], fun c hc => (List.mem_append.1 hc).elim (hall c) (hzeros _ c)⟩
    split
    · have hfraction : IsDigits ['0'] := isDigits_singleton rfl
      simpa using IsMagnitude.mk hwhole (.some hfraction) .none
    · simpa using hwhole.isMagnitude
  · split
    · have hwhole : IsDigits (digits.take (digits.length + exponent).toNat) := by
        refine ⟨?_, fun c hc => hall c (List.mem_of_mem_take hc)⟩
        rw [← List.length_pos_iff, List.length_take]
        omega
      have hfraction : IsDigits (digits.drop (digits.length + exponent).toNat) := by
        refine ⟨?_, fun c hc => hall c (List.mem_of_mem_drop hc)⟩
        rw [← List.length_pos_iff, List.length_drop]
        omega
      simpa using IsMagnitude.mk hwhole (.some hfraction) .none
    · have hwhole : IsDigits ['0'] := isDigits_singleton rfl
      have hfraction : IsDigits (List.replicate (-(digits.length + exponent)).toNat '0' ++ digits) :=
        ⟨by simp [hne], fun c hc => (List.mem_append.1 hc).elim (hzeros _ c) (hall c)⟩
      simpa using IsMagnitude.mk hwhole (.some hfraction) .none

theorem isMagnitude_decimal (l : Layout) (d : Decimal) : IsMagnitude (l.decimal d) := by
  unfold decimal
  dsimp only
  split
  · exact isMagnitude_positional (isDigits_digitChars d.digits) d.exponent
  · exact isMagnitude_scientific (isDigits_digitChars d.digits) d.leadingExponent

theorem exists_magnitude (l : Layout) (x : Binary64) :
    ∃ cs, l.write x = (if x.negative then ['-'] else []) ++ cs ∧ IsMagnitude cs := by
  refine ⟨_, rfl, ?_⟩
  have hzero : IsDigits ['0'] := isDigits_singleton rfl
  split
  · split
    · exact IsMagnitude.mk hzero (.some hzero) .none
    · exact hzero.isMagnitude
  · exact isMagnitude_decimal l _

theorem isNumeral_of_mem_write {x : Binary64} (h : c ∈ l.write x) : IsNumeral c := by
  obtain ⟨cs, hcs, hmagnitude⟩ := l.exists_magnitude x
  rw [hcs, List.mem_append] at h
  obtain hs | hm := h
  · split at hs
    · exact Or.inr (by simp [List.mem_singleton.1 hs])
    · cases hs
  · exact hmagnitude.isNumeral hm

end Layout

end Retrieval
