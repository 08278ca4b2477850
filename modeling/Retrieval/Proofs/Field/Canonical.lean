import Retrieval.Field.Basic
import Retrieval.Proofs.Sql.Literal

namespace Retrieval

namespace Json

/-- A string, a number or a boolean, with its text. -/
inductive Scalar : Json → String → Prop
  | string (s : String) : Scalar (.string s) s
  | number (n : Number) : Scalar (.number n) n.text
  | true : Scalar (.bool Bool.true) "true"
  | false : Scalar (.bool Bool.false) "false"

/-- A whole number, or the text of one between blanks. -/
inductive Whole : Json → Int → Prop
  | number (n : Int) : Whole (.int n) n
  | text {before number after : List Char} {n : Int} (hb : ∀ c ∈ before, Text.isBlank c = true)
      (hn : IsWhole number n) (ha : ∀ c ∈ after, Text.isBlank c = true) :
      Whole (.string (String.ofList (before ++ number ++ after))) n

inductive Truth : Json → Bool → Prop
  | bool (b : Bool) : Truth (.bool b) b
  | one : Truth (.int 1) true
  | zero : Truth (.int 0) false
  | yes {s : String} (h : s = "true" ∨ s = "1") : Truth (.string s) true
  | no {s : String} (h : s = "false" ∨ s = "0") : Truth (.string s) false

theorem scalarText?_eq_some {v : Json} {text : String} : v.scalarText? = some text ↔ v.Scalar text := by
  constructor
  · intro h
    cases v with
    | string s =>
      cases h
      exact .string text
    | number n =>
      cases h
      exact .number n
    | bool b =>
      cases b with
      | true =>
        cases h
        exact .true
      | false =>
        cases h
        exact .false
    | _ => cases h
  · rintro (s | n | _ | _) <;> rfl

end Json

namespace Field

/-- The form of a value that is read back from the database. Fields of floating-point numbers are left
out. -/
inductive Canonical : Field → Json → Json → Prop
  | null (f : Field) : Canonical f .null .null
  | string {maxLength : Option Nat} {v : Json} {s : String} (h : v.Scalar s) :
      Canonical (.string maxLength) v (.string s)
  | text {maxLength : Option Nat} {v : Json} {s : String} (h : v.Scalar s) :
      Canonical (.text maxLength) v (.string s)
  | enum {choices : List String} {s : String} (h : s ∈ choices) :
      Canonical (.enum choices) (.string s) (.string s)
  | date (s : String) : Canonical .date (.string s) (.string s)
  | int {v : Json} {n : Int} (h : v.Whole n) : Canonical .int v (.int n)
  | id {v : Json} {n : Int} (h : v.Whole n) : Canonical .id v (.int n)
  | ref {collection : String} {v : Json} {n : Int} (h : v.Whole n) : Canonical (.ref collection) v (.int n)
  | bool {v : Json} {b : Bool} (h : v.Truth b) : Canonical .bool v (.bool b)

variable {v : Json}

theorem wholeNumber?_ok {n : Int} (h : wholeNumber? v = some n) : v.Whole n ∧ FitsInt64 n := by
  cases v with
  | number number =>
    cases number with
    | int n' =>
      rw [wholeNumber?, Json.Number.int64?, Option.ite_none_right_eq_some, Option.some.injEq] at h
      obtain ⟨hfits, rfl⟩ := h
      exact ⟨.number n', hfits⟩
    | float x => cases h
  | string s =>
    obtain ⟨hwhole, hfits⟩ := readInt64?_ok h
    obtain ⟨before, after, hs, hb, ha⟩ := Text.exists_trim s.toList
    have htext := Json.Whole.text hb hwhole ha
    rw [← hs, String.ofList_toList] at htext
    exact ⟨htext, hfits⟩
  | _ => cases h

theorem wholeNumber?_int {n : Int} (h : FitsInt64 n) : wholeNumber? (.int n) = some n :=
  if_pos h

theorem truth?_ok {b : Bool} (h : truth? v = some b) : v.Truth b := by
  cases v with
  | bool b' =>
    cases h
    exact .bool b
  | number number =>
    have hint : ∀ n : Int, number.int64? = some n → number = .int n := by
      intro n hn
      cases number with
      | int n' =>
        rw [Json.Number.int64?, Option.ite_none_right_eq_some, Option.some.injEq] at hn
        rw [hn.2]
      | float x => cases hn
    rw [truth?] at h
    split_ifs at h with hzero hone
    · cases h
      rw [hint 0 hzero]
      exact .zero
    · cases h
      rw [hint 1 hone]
      exact .one
  | string s =>
    simp only [truth?, Bool.or_eq_true, decide_eq_true_eq] at h
    split_ifs at h with hyes hno
    · cases h
      exact .yes hyes
    · cases h
      exact .no hno
  | _ => cases h

theorem literal_ok {f : Field} {l : Sql.Literal} (h : f.literal v = .ok l) :
    v = .null ∧ l = .null ∨ v.isNull = false ∧ f.present? v = some l := by
  cases v with
  | null =>
    cases h
    exact .inl ⟨rfl, rfl⟩
  | _ =>
    refine .inr ⟨rfl, ?_⟩
    simp only [literal, Json.isNull, Bool.false_eq_true, if_false] at h
    split at h
    · rename_i l' hl
      cases h
      exact hl
    · cases h

theorem literal_of_present? {f : Field} {l : Sql.Literal} (hv : v.isNull = false)
    (h : f.present? v = some l) : f.literal v = .ok l := by
  simp [literal, hv, h]

/-- A literal reads back, as the type of its field, as the canonical form of the value, which is written as
the same literal. -/
def ReadsBack (f : Field) (v : Json) (l : Sql.Literal) : Prop :=
  ∃ stored w, Stored.ofLiteral? l.sql.toList = some stored ∧ stored.read f.scan = .ok w ∧ f.Canonical v w ∧
    f.literal w = .ok l

theorem ReadsBack.text {f : Field} {s : String} (hscan : f.scan = .text) (hc : f.Canonical v (.string s))
    (hl : f.literal (.string s) = .ok (.text s)) : f.ReadsBack v (.text s) := by
  refine ⟨.text s, .string s, Stored.ofLiteral?_text s, ?_, hc, hl⟩
  rw [hscan]
  rfl

theorem ReadsBack.integer {f : Field} {n : Int} (hscan : f.scan = .integer) (hn : FitsInt64 n)
    (hc : f.Canonical v (.int n)) (hl : f.literal (.int n) = .ok (.integer n)) :
    f.ReadsBack v (.integer n) := by
  refine ⟨.integer n, .int n, Stored.ofLiteral?_integer hn, ?_, hc, hl⟩
  rw [hscan]
  rfl

/-- Texts and numbers are measured and quoted as texts, so what is read back has the same length. -/
theorem readsBack_scalarText {f : Field} {maxLength : Option Nat} {l : Sql.Literal}
    (hf : f = .string maxLength ∨ f = .text maxLength) (h : f.present? v = some l) :
    f.ReadsBack v l := by
  have hpresent : ∀ v, f.present? v =
      v.scalarText?.bind fun s => if fits maxLength s then some (.text s) else none := by
    rcases hf with rfl | rfl <;> exact fun _ => rfl
  rw [hpresent] at h
  obtain ⟨s, hs, hfits⟩ := Option.bind_eq_some_iff.1 h
  rw [Option.ite_none_right_eq_some, Option.some.injEq] at hfits
  obtain ⟨hfits, rfl⟩ := hfits
  refine ReadsBack.text ?_ ?_ (literal_of_present? rfl ?_)
  · rcases hf with rfl | rfl <;> rfl
  · rcases hf with rfl | rfl
    · exact .string (Json.scalarText?_eq_some.1 hs)
    · exact .text (Json.scalarText?_eq_some.1 hs)
  · rw [hpresent]
    exact if_pos hfits

theorem readsBack_key {f : Field} {l : Sql.Literal} (hf : f = .id ∨ ∃ collection, f = .ref collection)
    (h : f.present? v = some l) : f.ReadsBack v l := by
  have hpresent : ∀ v, f.present? v =
      (wholeNumber? v).bind fun n => if 0 ≤ n then some (.integer n) else none := by
    rcases hf with rfl | ⟨_, rfl⟩ <;> exact fun _ => rfl
  rw [hpresent] at h
  obtain ⟨n, hn, hsign⟩ := Option.bind_eq_some_iff.1 h
  rw [Option.ite_none_right_eq_some, Option.some.injEq] at hsign
  obtain ⟨hsign, rfl⟩ := hsign
  obtain ⟨hwhole, hfits⟩ := wholeNumber?_ok hn
  refine ReadsBack.integer ?_ hfits ?_ (literal_of_present? rfl ?_)
  · rcases hf with rfl | ⟨_, rfl⟩ <;> rfl
  · rcases hf with rfl | ⟨_, rfl⟩
    · exact .id hwhole
    · exact .ref hwhole
  · rw [hpresent, wholeNumber?_int hfits, Option.bind_some, if_pos hsign]

/-- Whatever a field other than a floating-point one accepts, comes back in its canonical form. -/
theorem readsBack_of_literal {f : Field} (hf : f ≠ .float) {l : Sql.Literal} (h : f.literal v = .ok l) :
    f.ReadsBack v l := by
  rcases literal_ok h with ⟨rfl, rfl⟩ | ⟨_, hpresent⟩
  · exact ⟨.null, .null, rfl, by cases f <;> rfl, .null f, h⟩
  cases f with
  | string maxLength => exact readsBack_scalarText (.inl rfl) hpresent
  | text maxLength => exact readsBack_scalarText (.inr rfl) hpresent
  | enum choices =>
    cases v with
    | string s =>
      rw [present?, Option.ite_none_right_eq_some, Option.some.injEq] at hpresent
      obtain ⟨hs, rfl⟩ := hpresent
      exact .text rfl (.enum hs) h
    | _ => cases hpresent
  | int =>
    obtain ⟨n, hn, rfl⟩ := Option.map_eq_some_iff.1 hpresent
    obtain ⟨hwhole, hfits⟩ := wholeNumber?_ok hn
    refine .integer rfl hfits (.int hwhole) (literal_of_present? rfl ?_)
    rw [present?, wholeNumber?_int hfits, Option.map_some]
  | id => exact readsBack_key (.inl rfl) hpresent
  | ref collection => exact readsBack_key (.inr ⟨collection, rfl⟩) hpresent
  | float => exact absurd rfl hf
  | bool =>
    obtain ⟨b, hb, rfl⟩ := Option.map_eq_some_iff.1 hpresent
    refine ⟨.integer (if b then 1 else 0), .bool b, ?_, ?_, .bool (truth?_ok hb), rfl⟩
    · exact Stored.ofLiteral?_integer (by cases b <;> decide)
    · cases b <;> rfl
  | date =>
    cases v with
    | string s =>
      cases hpresent
      exact .text rfl (.date s) h
    | _ => cases hpresent

/-- The number is read without its blanks, its sign and its zeros, and no greater one fits. -/
theorem readsBack_greatestKey : Field.ref "author" ≠ .float ∧
    (Field.ref "author").literal (.string " +09223372036854775807\n") = .ok (.integer 9223372036854775807) ∧
    (Field.ref "author").ReadsBack (.string " +09223372036854775807\n") (.integer 9223372036854775807) := by
  have h : (Field.ref "author").literal (.string " +09223372036854775807\n") =
      .ok (.integer 9223372036854775807) := by rfl
  exact ⟨by decide, h, readsBack_of_literal (by decide) h⟩

end Field

end Retrieval
