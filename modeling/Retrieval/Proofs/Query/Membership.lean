import Retrieval.Proofs.Query.Naming
import Retrieval.Proofs.Query.Search

namespace Retrieval

open Sql

namespace SelectedField

variable {f : SelectedField} {v : Json} {vs : List Json} {e : Expr} (row : Valuation)

def Equals (f : SelectedField) (row : Valuation) (v : Json) : Prop :=
  ∃ l, f.field.literal v = .ok l ∧ row.related .eq (row.eval f.column) l.value = some true

theorem truth_compare_eq (h : f.compare .eq v = .ok e) : row.truth e = some true ↔ f.Equals row v := by
  obtain ⟨l, hl, rfl⟩ := map_eq_ok.1 h
  have hl : f.field.literal v = .ok l := blame_eq_ok.1 hl
  rw [row.truth_eq, eval_operand, Equals, hl]
  simp [Valuation.eval]

theorem not_equals_null (f : SelectedField) : ¬ f.Equals row .null := by
  rintro ⟨l, hl, htrue⟩
  cases hl
  cases hx : row.eval f.column <;> simp [hx, Valuation.related, Literal.value] at htrue

theorem truth_equation (h : f.predicate .eq v = .ok e) :
    row.truth e = some true ↔ (v = .null ∧ row.eval f.column = none) ∨ f.Equals row v := by
  cases v with
  | null =>
    cases h
    simp [not_equals_null]
  | _ => simpa using truth_compare_eq row h

/-- A list is equal to none of its values that is null, not even where the field is. -/
theorem truth_oneOf (h : f.oneOf vs = .ok e) : row.truth e = some true ↔ ∃ v ∈ vs, f.Equals row v := by
  obtain ⟨ls, hls, rfl⟩ := map_eq_ok.1 h
  rw [row.truth_oneOf, eval_operand, row.among_eq_true]
  simp only [List.mem_map, exists_exists_and_eq_and]
  refine (exists_mem_iff ((mapM_eq_ok.1 hls).imp ?_)).symm
  intro v l hl
  have hl : f.field.literal v = .ok l := blame_eq_ok.1 hl
  simp [Equals, hl, Valuation.eval]

theorem equation_of_literal {l : Literal} (hl : f.literal v = .ok l) : ∃ e, f.predicate .eq v = .ok e := by
  cases v with
  | null => exact ⟨_, rfl⟩
  | _ => exact ⟨_, map_eq_ok.2 ⟨l, hl, rfl⟩⟩

theorem equations_of_oneOf (h : f.oneOf vs = .ok e) :
    ∃ es, List.Forall₂ (fun v e => f.predicate .eq v = .ok e) vs es := by
  rw [oneOf, map_eq_ok] at h
  obtain ⟨ls, hls, rfl⟩ := h
  rw [mapM_eq_ok] at hls
  induction hls with
  | nil => exact ⟨[], .nil⟩
  | cons hl _ ih =>
    obtain ⟨e, he⟩ := equation_of_literal hl
    obtain ⟨es, hes⟩ := ih
    exact ⟨e :: es, .cons he hes⟩

end SelectedField

namespace Condition

variable {p : Selection} {field : String} {f : SelectedField} {vs : List Json} {e : Expr}

theorem predicate_of_get? (hf : p.get? field = some f) (comparator : String) (v : Json) :
    predicate p ⟨field, comparator, v⟩ = (Comparison.ofText comparator).bind (f.predicate · v) := by
  rw [predicate, Selection.lookup_eq_ok.2 hf]
  rfl

/-- If a list of values is accepted, then so is each of them, and the list says of a row what one of them
says there, exactly if it is not null that is looked for in a row without a value. -/
theorem oneOf_agrees_iff (hf : p.get? field = some f) (h : predicate p ⟨field, "IN", .array vs⟩ = .ok e) :
    ∃ es, List.Forall₂ (fun v e => predicate p ⟨field, "=", v⟩ = .ok e) vs es ∧
      ∀ row : Valuation, (row.truth e = some true ↔ ∃ e' ∈ es, row.truth e' = some true) ↔
        (.null ∈ vs → row.eval f.column ≠ none) := by
  rw [predicate_of_get? hf] at h
  change f.oneOf vs = .ok e at h
  obtain ⟨es, hes⟩ := SelectedField.equations_of_oneOf h
  refine ⟨es, hes.imp fun v e he => ?_, fun row => ?_⟩
  · rw [predicate_of_get? hf]
    exact he
  · have hequations : (∃ v ∈ vs, (v = .null ∧ row.eval f.column = none) ∨ f.Equals row v) ↔
        ∃ e' ∈ es, row.truth e' = some true :=
      exists_mem_iff (hes.imp fun _ _ he => (SelectedField.truth_equation row he).symm)
    rw [← hequations, SelectedField.truth_oneOf row h]
    constructor
    · intro hagree hnull hnone
      obtain ⟨v, _, l, _, htrue⟩ := hagree.2 ⟨.null, hnull, .inl ⟨rfl, hnone⟩⟩
      rw [hnone] at htrue
      cases htrue
    · intro hvalue
      constructor
      · rintro ⟨v, hv, hequals⟩
        exact ⟨v, hv, .inr hequals⟩
      · rintro ⟨v, hv, ⟨rfl, hnone⟩ | hequals⟩
        · exact absurd hnone (hvalue hv)
        · exact ⟨v, hv, hequals⟩

theorem oneOf_agrees_blog : ∃ m c members g p f e, Model.ofDocument .builtin .blog = .ok m ∧
    m.collection "post" = .ok c ∧ c.fieldSet (some "list") = .ok members ∧
    Selection.build m (.new "post") members = (g, .ok p) ∧ p.get? "shout" = some f ∧
    predicate p ⟨"shout", "IN", .array [.string "it's", .null]⟩ = .ok e ∧
    (∃ es, List.Forall₂ (fun v e => predicate p ⟨"shout", "=", v⟩ = .ok e) [.string "it's", .null] es ∧
      ∀ row : Valuation, (row.truth e = some true ↔ ∃ e' ∈ es, row.truth e' = some true) ↔
        (.null ∈ [.string "it's", Json.null] → row.eval f.column ≠ none)) ∧
    e.sql = "(upper(p.title)) IN ('it''s', NULL)" := by
  obtain ⟨m, hl, h⟩ := exists_of_passes (show passes (fun m => passes (fun c =>
    passes (fun members => passes (fun p => (p.get? "shout").isSome &&
        passes (fun e => e.sql = "(upper(p.title)) IN ('it''s', NULL)")
          (predicate p ⟨"shout", "IN", .array [.string "it's", .null]⟩))
      (Selection.build m (.new "post") members).2) (c.fieldSet (some "list"))) (m.collection "post"))
    (Model.ofDocument .builtin .blog) = true by decide +kernel)
  obtain ⟨c, hc, h⟩ := exists_of_passes h
  obtain ⟨members, hm, h⟩ := exists_of_passes h
  obtain ⟨p, hp, h⟩ := exists_of_passes h
  obtain ⟨hshout, h⟩ := Bool.and_eq_true_iff.1 h
  obtain ⟨f, hf⟩ := Option.isSome_iff_exists.1 hshout
  obtain ⟨e, he, hsql⟩ := exists_of_passes h
  exact ⟨m, c, members, _, p, f, e, hl, hc, hm, Prod.ext rfl hp, hf, he, oneOf_agrees_iff hf he,
    of_decide_eq_true hsql⟩

def blankRow : Valuation where
  column _ _ := none
  computed _ := none
  compare _ _ := .eq
  shown _ := ""
  holds _ := false

/-- A name that is missing is equal to null, but it is not in the list of just null. -/
theorem not_agrees_null : ∃ m c members g p e e', Model.ofDocument .builtin Query.namedPosts = .ok m ∧
    m.collection "post" = .ok c ∧ c.fieldSet none = .ok members ∧
    Selection.build m (.new "post") members = (g, .ok p) ∧
    predicate p ⟨"name", "IN", .array [.null]⟩ = .ok e ∧ predicate p ⟨"name", "=", .null⟩ = .ok e' ∧
    blankRow.truth e' = some true ∧ blankRow.truth e ≠ some true ∧
    e'.sql = "p.name IS NULL" ∧ e.sql = "p.name IN (NULL)" := by
  obtain ⟨m, hl, h⟩ := exists_of_passes (show passes (fun m => passes (fun c =>
    passes (fun members => passes (fun p => passes (fun e => passes (fun e' =>
            decide (blankRow.truth e' = some true ∧ blankRow.truth e ≠ some true ∧
              e'.sql = "p.name IS NULL" ∧ e.sql = "p.name IN (NULL)"))
          (predicate p ⟨"name", "=", .null⟩)) (predicate p ⟨"name", "IN", .array [.null]⟩))
      (Selection.build m (.new "post") members).2) (c.fieldSet none)) (m.collection "post"))
    (Model.ofDocument .builtin Query.namedPosts) = true by decide +kernel)
  obtain ⟨c, hc, h⟩ := exists_of_passes h
  obtain ⟨members, hm, h⟩ := exists_of_passes h
  obtain ⟨p, hp, h⟩ := exists_of_passes h
  obtain ⟨e, he, h⟩ := exists_of_passes h
  obtain ⟨e', he', h⟩ := exists_of_passes h
  exact ⟨m, c, members, _, p, e, e', hl, hc, hm, Prod.ext rfl hp, he, he', of_decide_eq_true h⟩

end Condition

end Retrieval
