import Retrieval.Proofs.Query.Parts

namespace Retrieval

open Sql

def Sql.Operator.isComparison : Operator → Bool
  | .eq | .ne | .lt | .gt | .le | .ge | .like => true
  | .and | .or => false

def Field.isText : Field → Bool
  | .string _ | .text _ | .enum _ | .date => true
  | .int | .id | .ref _ | .float | .bool => false

/-- A test of one field by what the request says. -/
inductive SelectedField.Test (f : SelectedField) : Expr → Prop
  | compare {op : Operator} {l : Literal} (ho : op.isComparison = true) :
      Test f (.binary op f.operand (.literal l))
  | oneOf (ls : List Literal) : Test f (.oneOf f.operand (ls.map .literal))
  | isNull (negated : Bool) : Test f (.isNull f.operand negated)

/-- A test of a selected field, or a group of such tests any of which may hold. -/
inductive Selection.Predicate (p : Selection) : Expr → Prop
  | test {f : SelectedField} {e : Expr} (hf : f ∈ p.fields) (he : f.Test e) : Predicate p e
  | anyGroup {es : List Expr} (hs : ∀ e ∈ es, ∃ f ∈ p.fields, f.Test e) :
      Predicate p (.anyGroup es)

/-- The predicates of a request: of its key if it names one, of each condition, and of each search
entry. -/
structure Filter.Made (c : Collection) (p : Selection) (r : Request) (key conditions : List Expr)
    (searches : List (List Expr)) : Prop where
  key : match r.pk with
    | none => key = []
    | some pk => ∃ f l, p.get? keyField = some f ∧ f.field.literal (.int pk.toNat) = .ok l ∧
        key = [.binary .eq f.operand (.literal l)]
  conditions : List.Forall₂ (fun condition e => condition.predicate p = .ok e) r.conditions conditions
  searches : List.Forall₂ (fun entry es => Search.predicates c p entry.1 entry.2 = .ok es)
    r.search.entries searches

namespace SelectedField

variable {f : SelectedField} {v : Json} {e : Expr}

theorem contains_ok (h : f.contains v = .ok e) :
    ∃ l, f.field.pattern v = .ok l ∧ e = .binary .like f.operand (.literal l.containing) := by
  unfold contains at h
  split at h
  · cases h
  · obtain ⟨l, hl, rfl⟩ := map_eq_ok.1 h
    exact ⟨l, blame_eq_ok.1 hl, rfl⟩

theorem test_of_contains (h : f.contains v = .ok e) : f.Test e := by
  obtain ⟨l, _, rfl⟩ := contains_ok h
  exact .compare rfl

theorem test_of_compare {op : Operator} (ho : op.isComparison = true) (h : f.compare op v = .ok e) :
    f.Test e := by
  obtain ⟨l, _, rfl⟩ := map_eq_ok.1 h
  exact .compare ho

theorem test_of_ordered {op : Operator} (ho : op.isComparison = true) (h : f.ordered op v = .ok e) :
    f.Test e := by
  unfold ordered at h
  split at h
  · cases h
  · exact test_of_compare ho h

theorem test_of_equation {op : Operator} {negated : Bool} (ho : op.isComparison = true)
    (h : (if v.isNull then .ok (.isNull f.operand negated) else f.compare op v) = .ok e) :
    f.Test e := by
  split at h
  · cases h
    exact .isNull negated
  · exact test_of_compare ho h

theorem test_of_predicate {comparator : Comparison} (h : f.predicate comparator v = .ok e) :
    f.Test e := by
  cases comparator with
  | eq | ne => exact test_of_equation rfl h
  | le | ge | lt | gt => exact test_of_ordered rfl h
  | like => exact test_of_contains h
  | oneOf =>
    cases v with
    | array vs =>
      obtain ⟨ls, _, rfl⟩ := map_eq_ok.1 h
      exact .oneOf ls
    | _ => cases h

end SelectedField

section

variable {c : Collection} {p : Selection} {e : Expr} {es : List Expr}

theorem Selection.mem_of_get? {path : String} {f : SelectedField} (h : p.get? path = some f) :
    f ∈ p.fields ∧ f.path = path :=
  ⟨List.mem_of_find?_eq_some h, by simpa using List.find?_some h⟩

theorem Condition.predicate_ok {condition : Condition} (h : condition.predicate p = .ok e) :
    ∃ f, p.get? condition.field = some f ∧ f.Test e := by
  rw [predicate, bind_eq_ok] at h
  obtain ⟨f, hf, h⟩ := h
  obtain ⟨comparator, _, h⟩ := bind_eq_ok.1 h
  exact ⟨f, Selection.lookup_eq_ok.1 hf, SelectedField.test_of_predicate h⟩

theorem Condition.predicate_form {condition : Condition} (h : condition.predicate p = .ok e) :
    p.Predicate e := by
  obtain ⟨f, hf, ht⟩ := predicate_ok h
  exact .test (Selection.mem_of_get? hf).1 ht

namespace Search

variable {key word : String} {words : List String} {term : List Char}

theorem inField_ok (h : inField p key words = .ok e) :
    ∃ f es, p.get? key = some f ∧
      List.Forall₂ (fun w e => f.contains (.string w) = .ok e) words es ∧ e = .anyGroup es := by
  rw [inField, bind_eq_ok] at h
  obtain ⟨f, hf, h⟩ := h
  obtain ⟨es, hes, h⟩ := bind_eq_ok.1 h
  cases h
  exact ⟨f, es, Selection.lookup_eq_ok.1 hf, mapM_eq_ok.1 hes, rfl⟩

theorem inAnyField_ok (h : inAnyField p word = .ok e) :
    ∃ es, List.Forall₂ (fun f e => f.contains (.string word) = .ok e) p.searchable es ∧
      e = .anyGroup es := by
  rw [inAnyField, bind_eq_ok] at h
  obtain ⟨es, hes, h⟩ := h
  cases h
  exact ⟨es, mapM_eq_ok.1 hes, rfl⟩

theorem inField_form (h : inField p key words = .ok e) : p.Predicate e := by
  obtain ⟨f, es, hf, hes, rfl⟩ := inField_ok h
  apply Selection.Predicate.anyGroup
  intro e he
  obtain ⟨w, _, hw⟩ := exists_mem_left hes he
  exact ⟨f, (Selection.mem_of_get? hf).1, SelectedField.test_of_contains hw⟩

theorem inAnyField_form (h : inAnyField p word = .ok e) : p.Predicate e := by
  obtain ⟨es, hes, rfl⟩ := inAnyField_ok h
  apply Selection.Predicate.anyGroup
  intro e he
  obtain ⟨f, hf, hw⟩ := exists_mem_left hes he
  exact ⟨f, List.mem_of_mem_filter hf, SelectedField.test_of_contains hw⟩

theorem route_of_ne (hk : key ≠ everywhere) : route c key term = (key, term) := by
  rw [route, if_neg hk]

theorem route_of_none (h : redirect? c term = none) : route c everywhere term = (everywhere, term) := by
  rw [route, if_pos rfl]
  split
  · rename_i hsome
    cases h.symm.trans hsome
  · rfl

theorem route_of_some {target : String} {rest : List Char} (h : redirect? c term = some (target, rest)) :
    route c everywhere term = route c target rest := by
  rw [route, if_pos rfl]
  split
  · rename_i hsome
    cases h.symm.trans hsome
    rfl
  · rename_i hnone
    cases h.symm.trans hnone

theorem direct_everywhere (hn : Text.recordId? term = none) :
    direct p everywhere term = ((Text.words term).map String.ofList).mapM (inAnyField p) := by
  simp only [direct, hn, if_true]

/-- A term without words asks nothing of a field, which is not even looked up. -/
theorem direct_wordless (hk : key ≠ everywhere) (hw : Text.words term = []) :
    direct p key term = .ok [] := by
  simp [direct, hk, hw]

theorem direct_field (hk : key ≠ everywhere) (hw : Text.words term ≠ []) :
    direct p key term =
      (inField p key ((Text.words term).map String.ofList)).map ([·]) := by
  simp only [direct, if_neg hk, List.isEmpty_iff, List.map_eq_nil_iff, if_neg hw]
  cases inField p key ((Text.words term).map String.ofList) <;> rfl

theorem direct_form (h : direct p key term = .ok es) : ∀ e ∈ es, p.Predicate e := by
  intro e he
  by_cases hk : key = everywhere
  · subst hk
    cases hn : Text.recordId? term with
    | some n =>
      simp only [direct, hn, if_true, bind_eq_ok, Except.ok.injEq] at h
      obtain ⟨e', hp, rfl⟩ := h
      rw [List.mem_singleton.1 he]
      exact Condition.predicate_form hp
    | none =>
      rw [direct_everywhere hn, mapM_eq_ok] at h
      obtain ⟨w, _, hw⟩ := exists_mem_left h he
      exact inAnyField_form hw
  · by_cases hw : Text.words term = []
    · rw [direct_wordless hk hw] at h
      cases h
      cases he
    · rw [direct_field hk hw, map_eq_ok] at h
      obtain ⟨e', hf, rfl⟩ := h
      rw [List.mem_singleton.1 he]
      exact inField_form hf

end Search

namespace Filter

variable {r : Request} {done out : List Expr}

theorem addConditions_eq_ok {conditions : List Condition} :
    addConditions p done conditions = .ok out ↔
      ∃ es, List.Forall₂ (fun condition e => condition.predicate p = .ok e) conditions es ∧
        out = done ++ es := by
  induction conditions generalizing done with
  | nil => simp [addConditions, eq_comm]
  | cons condition rest ih =>
    simp only [addConditions, List.forall₂_cons_left_iff]
    cases ht : tag done.length (condition.predicate p) with
    | error e => simp [ne_ok_of_tag ht]
    | ok e =>
      rw [tag_eq_ok] at ht
      simp only [ht, ih, Except.ok.injEq]
      constructor
      · rintro ⟨es, hes, rfl⟩
        exact ⟨e :: es, ⟨e, es, rfl, hes, rfl⟩, by simp⟩
      · rintro ⟨_, ⟨_, es, rfl, hes, rfl⟩, rfl⟩
        exact ⟨es, hes, by simp⟩

theorem addSearches_eq_ok {entries : List (String × String)} :
    addSearches c p done entries = .ok out ↔
      ∃ searches, List.Forall₂ (fun entry es => Search.predicates c p entry.1 entry.2 = .ok es)
        entries searches ∧ out = done ++ searches.flatten := by
  induction entries generalizing done with
  | nil => simp [addSearches, eq_comm]
  | cons entry rest ih =>
    obtain ⟨key, term⟩ := entry
    simp only [addSearches, List.forall₂_cons_left_iff]
    cases ht : tag done.length (Search.predicates c p key term) with
    | error e => simp [ne_ok_of_tag ht]
    | ok found =>
      rw [tag_eq_ok] at ht
      simp only [ht, ih, Except.ok.injEq]
      constructor
      · rintro ⟨searches, hs, rfl⟩
        exact ⟨found :: searches, ⟨found, searches, rfl, hs, rfl⟩, by simp⟩
      · rintro ⟨_, ⟨_, searches, rfl, hs, rfl⟩, rfl⟩
        exact ⟨searches, hs, by simp⟩

end Filter

theorem Condition.predicate_key {n : Int} (h : Condition.predicate p ⟨keyField, "=", .int n⟩ = .ok e) :
    ∃ f l, p.get? keyField = some f ∧ f.field.literal (.int n) = .ok l ∧
      e = .binary .eq f.operand (.literal l) := by
  rw [Condition.predicate, bind_eq_ok] at h
  obtain ⟨f, hf, h⟩ := h
  obtain ⟨comparator, hc, h⟩ := bind_eq_ok.1 h
  cases hc
  obtain ⟨l, hl, he⟩ := map_eq_ok.1 h
  exact ⟨f, l, Selection.lookup_eq_ok.1 hf, SelectedField.blame_eq_ok.1 hl, he.symm⟩

namespace Filter

variable {r : Request} {out : List Expr}

theorem predicates_made (h : predicates c p r = .ok out) :
    ∃ key conditions searches, Made c p r key conditions searches ∧
      out = key ++ conditions ++ searches.flatten := by
  rw [predicates, bind_eq_ok] at h
  obtain ⟨done, hd, hs⟩ := h
  obtain ⟨es, hes, hdone⟩ := addConditions_eq_ok.1 hd
  obtain ⟨searches, hsearches, rfl⟩ := addSearches_eq_ok.1 hs
  rw [List.nil_append] at hdone
  subst hdone
  rw [conditions] at hes
  cases hpk : r.pk with
  | none =>
    rw [hpk] at hes
    exact ⟨[], done, searches, ⟨by rw [hpk], hes, hsearches⟩, rfl⟩
  | some pk =>
    rw [hpk] at hes
    obtain ⟨e, others, he, hothers, rfl⟩ := List.forall₂_cons_left_iff.1 hes
    obtain ⟨f, l, hf, hl, hkey⟩ := Condition.predicate_key he
    refine ⟨[e], others, searches, ⟨?_, hothers, hsearches⟩, rfl⟩
    rw [hpk]
    exact ⟨f, l, hf, hl, by rw [hkey]⟩

theorem predicates_form (h : predicates c p r = .ok out) : ∀ e ∈ out, p.Predicate e := by
  obtain ⟨key, conditions, searches, hmade, rfl⟩ := predicates_made h
  intro e he
  rw [List.append_assoc, List.mem_append, List.mem_append] at he
  rcases he with hkey | hcondition | hsearch
  · have hk := hmade.key
    cases hpk : r.pk with
    | none =>
      rw [hpk] at hk
      rw [hk] at hkey
      cases hkey
    | some pk =>
      rw [hpk] at hk
      obtain ⟨f, l, hf, _, rfl⟩ := hk
      rw [List.mem_singleton.1 hkey]
      exact .test (Selection.mem_of_get? hf).1 (.compare rfl)
  · obtain ⟨condition, _, hp⟩ := exists_mem_left hmade.conditions hcondition
    exact Condition.predicate_form hp
  · obtain ⟨es, hes, he⟩ := List.mem_flatten.1 hsearch
    obtain ⟨entry, _, hp⟩ := exists_mem_left hmade.searches hes
    exact Search.direct_form hp e he

end Filter

end

end Retrieval
