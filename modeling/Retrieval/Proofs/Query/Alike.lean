import Retrieval.Proofs.Query.Filter
import Retrieval.Proofs.Sql.Alike
import Retrieval.Proofs.Text.Words

namespace Retrieval

open Sql

def Json.nullItems : Json → List Bool
  | .array items => items.map isNull
  | _ => []

/-- Values that are null together, and have nulls in the same places if they are lists. -/
def Json.SameNulls (v w : Json) : Prop :=
  v.isNull = w.isNull ∧ v.nullItems = w.nullItems

/-- Conditions that differ in a value only, and that only if it is looked for in a text, or compared with
one. -/
structure Condition.Alike (p : Selection) (a b : Condition) : Prop where
  field : a.field = b.field
  comparator : a.comparator = b.comparator
  value : a.value = b.value ∨ a.value.SameNulls b.value ∧
    (a.comparator = "LIKE" ∨ ∃ f, p.get? a.field = some f ∧ f.field.isText = true)

/-- A term that means nothing but its words, whichever fields it is looked for in. -/
def Search.Free (term : String) : Prop :=
  Text.recordId? term.toList = none ∧ ':' ∉ term.toList

/-- Search entries that differ in their terms only, with as many words in one as in the other. -/
structure Search.Alike (e e' : String × String) : Prop where
  key : e.1 = e'.1
  term : e.2 = e'.2 ∨ (Text.words e.2.toList).length = (Text.words e'.2.toList).length ∧
    (e.1 = everywhere → Free e.2 ∧ Free e'.2)

/-- Requests that differ only in values that are written as text, and in search terms. -/
structure Request.Alike (p : Selection) (r r' : Request) : Prop where
  collection : r.collection = r'.collection
  pk : r.pk = r'.pk
  fieldSet : r.fieldSet = r'.fieldSet
  sort : r.sort = r'.sort
  limit : r.limit = r'.limit
  offset : r.offset = r'.offset
  conditions : List.Forall₂ (Condition.Alike p) r.conditions r'.conditions
  search : List.Forall₂ Search.Alike r.search.entries r'.search.entries

theorem Field.present?_isText {f : Field} (hf : f.isText = true) {v : Json} {l : Literal}
    (h : f.present? v = some l) : ∃ s, l = .text s := by
  cases f with
  | string maxLength | text maxLength =>
    obtain ⟨s, _, hs⟩ := Option.bind_eq_some_iff.1 h
    split at hs
    · cases hs
      exact ⟨s, rfl⟩
    · cases hs
  | enum choices =>
    cases v with
    | string s =>
      simp only [Field.present?] at h
      split at h
      · cases h
        exact ⟨s, rfl⟩
      · cases h
    | _ => cases h
  | date =>
    cases v with
    | string s =>
      cases h
      exact ⟨s, rfl⟩
    | _ => cases h
  | _ => cases hf

theorem Field.literal_isText {f : Field} (hf : f.isText = true) {v : Json} {l : Literal}
    (h : f.literal v = .ok l) : if v.isNull then l = .null else ∃ s, l = .text s := by
  unfold Field.literal at h
  split at h
  · rename_i hv
    cases h
    rw [if_pos hv]
  · rename_i hv
    rw [if_neg hv]
    split at h
    · rename_i found hp
      cases h
      exact present?_isText hf hp
    · cases h

namespace SelectedField

variable {f : SelectedField} {v w : Json} {l l' : Literal} {e e' : Expr}

theorem literal_alike (hv : v = w ∨ v.isNull = w.isNull ∧ f.field.isText = true)
    (h : f.literal v = .ok l) (h' : f.literal w = .ok l') : Token.Alike (.literal l) (.literal l') := by
  cases hv with
  | inl he =>
    rw [he, h'] at h
    cases h
    exact .literal _
  | inr hn =>
    have hl := Field.literal_isText hn.2 (blame_eq_ok.1 h)
    have hl' := Field.literal_isText hn.2 (blame_eq_ok.1 h')
    rw [hn.1] at hl
    cases hw : w.isNull with
    | true =>
      rw [hw, if_pos rfl] at hl hl'
      rw [hl, hl']
      exact .literal _
    | false =>
      rw [hw, if_neg Bool.false_ne_true] at hl hl'
      obtain ⟨s, rfl⟩ := hl
      obtain ⟨s', rfl⟩ := hl'
      exact .text s s'

/-- A text that is looked for is a literal whatever the field holds. -/
theorem contains_alike (hf : f.operand.Alike f.operand) (h : f.contains v = .ok e)
    (h' : f.contains w = .ok e') : e.Alike e' := by
  obtain ⟨l, _, rfl⟩ := contains_ok h
  obtain ⟨l', _, rfl⟩ := contains_ok h'
  exact hf.binary .like (.literal (.text _ _))

theorem compare_alike (hf : f.operand.Alike f.operand) {op : Operator}
    (hv : v = w ∨ v.isNull = w.isNull ∧ f.field.isText = true) (h : f.compare op v = .ok e)
    (h' : f.compare op w = .ok e') : e.Alike e' := by
  obtain ⟨l, hl, rfl⟩ := map_eq_ok.1 h
  obtain ⟨l', hl', rfl⟩ := map_eq_ok.1 h'
  exact hf.binary op (.literal (literal_alike hv hl hl'))

theorem ordered_alike (hf : f.operand.Alike f.operand) {op : Operator}
    (hv : v = w ∨ v.isNull = w.isNull ∧ f.field.isText = true) (h : f.ordered op v = .ok e)
    (h' : f.ordered op w = .ok e') : e.Alike e' := by
  unfold ordered at h h'
  split at h
  · cases h
  · split at h'
    · cases h'
    · exact compare_alike hf hv h h'

theorem equation_alike (hf : f.operand.Alike f.operand) {op : Operator} {negated : Bool}
    (hv : v = w ∨ v.isNull = w.isNull ∧ f.field.isText = true)
    (h : (if v.isNull then .ok (.isNull f.operand negated) else f.compare op v) = .ok e)
    (h' : (if w.isNull then .ok (.isNull f.operand negated) else f.compare op w) = .ok e') :
    e.Alike e' := by
  have hn : v.isNull = w.isNull := by
    cases hv with
    | inl he => rw [he]
    | inr hn => exact hn.1
  rw [hn] at h
  split at h
  · rename_i hw
    rw [if_pos hw] at h'
    cases h
    cases h'
    exact hf.isNull negated
  · rename_i hw
    rw [if_neg hw] at h'
    exact compare_alike hf hv h h'

theorem oneOf_alike (hf : f.operand.Alike f.operand) {vs ws : List Json}
    (hv : List.Forall₂ (fun v w => v = w ∨ v.isNull = w.isNull ∧ f.field.isText = true) vs ws)
    (h : f.oneOf vs = .ok e) (h' : f.oneOf ws = .ok e') : e.Alike e' := by
  obtain ⟨ls, hls, rfl⟩ := map_eq_ok.1 h
  obtain ⟨ls', hls', rfl⟩ := map_eq_ok.1 h'
  apply hf.oneOf
  rw [List.forall₂_map_left_iff, List.forall₂_map_right_iff]
  refine forall₂_of_made hv (mapM_eq_ok.1 hls) (mapM_eq_ok.1 hls') ?_
  intro v w l l' hvw hl hl'
  exact .literal (literal_alike hvw hl hl')

theorem predicate_alike (hf : f.operand.Alike f.operand) {comparator : Comparison}
    (hv : v = w ∨ v.SameNulls w ∧ (comparator = .like ∨ f.field.isText = true))
    (h : f.predicate comparator v = .ok e) (h' : f.predicate comparator w = .ok e') : e.Alike e' := by
  by_cases hlike : comparator = .like
  · subst hlike
    exact contains_alike hf h h'
  · have hvalue : v = w ∨ v.isNull = w.isNull ∧ f.field.isText = true := by
      cases hv with
      | inl he => exact Or.inl he
      | inr hs => exact Or.inr ⟨hs.1.1, hs.2.resolve_left hlike⟩
    cases comparator with
    | like => exact absurd rfl hlike
    | eq | ne => exact equation_alike hf hvalue h h'
    | le | ge | lt | gt => exact ordered_alike hf hvalue h h'
    | oneOf =>
      cases v with
      | array vs =>
        cases w with
        | array ws =>
          refine oneOf_alike hf ?_ h h'
          cases hv with
          | inl he =>
            cases he
            exact List.forall₂_same.2 fun _ _ => Or.inl rfl
          | inr hs =>
            have htext := hs.2.resolve_left hlike
            have hnulls : vs.map Json.isNull = ws.map Json.isNull := hs.1.2
            rw [← List.forall₂_eq_eq_eq, List.forall₂_map_left_iff,
              List.forall₂_map_right_iff] at hnulls
            exact hnulls.imp fun _ _ hn => Or.inr ⟨hn, htext⟩
        | _ => cases h'
      | _ => cases h

end SelectedField

namespace Selection

/-- What the fields of a selection put into conditions leaves no literal open. -/
def QuoteSafe (p : Selection) : Prop :=
  ∀ f ∈ p.fields, f.operand.Alike f.operand

theorem QuoteSafe.get? {p : Selection} (hp : p.QuoteSafe) {path : String} {f : SelectedField}
    (h : p.get? path = some f) : f.operand.Alike f.operand :=
  hp f (mem_of_get? h).1

end Selection

section

variable {p : Selection} {c : Collection} {e e' : Expr} {es es' : List Expr}

theorem Condition.Alike.refl (a : Condition) : Condition.Alike p a a :=
  ⟨rfl, rfl, Or.inl rfl⟩

theorem Condition.predicate_alike (hp : p.QuoteSafe) {a b : Condition} (hab : Condition.Alike p a b)
    (h : a.predicate p = .ok e) (h' : b.predicate p = .ok e') : e.Alike e' := by
  rw [Condition.predicate, bind_eq_ok] at h h'
  obtain ⟨f, hf, h⟩ := h
  obtain ⟨comparator, hc, h⟩ := bind_eq_ok.1 h
  obtain ⟨f', hf', h'⟩ := h'
  obtain ⟨comparator', hc', h'⟩ := bind_eq_ok.1 h'
  rw [← hab.field, hf] at hf'
  cases hf'
  rw [← hab.comparator, hc] at hc'
  cases hc'
  refine SelectedField.predicate_alike (hp.get? (Selection.lookup_eq_ok.1 hf)) ?_ h h'
  cases hab.value with
  | inl he => exact Or.inl he
  | inr hs =>
    refine Or.inr ⟨hs.1, ?_⟩
    cases hs.2 with
    | inl hlike =>
      rw [hlike] at hc
      cases hc
      exact Or.inl rfl
    | inr hfield =>
      obtain ⟨f', hf', htext⟩ := hfield
      rw [Selection.lookup_eq_ok.1 hf] at hf'
      cases hf'
      exact Or.inr htext

namespace Search

theorem words_alike {f : String → Except Request.Error Expr}
    (hf : ∀ x y e e', f x = .ok e → f y = .ok e' → e.Alike e') {xs ys : List String}
    (hlen : xs.length = ys.length) (h : List.Forall₂ (fun x e => f x = .ok e) xs es)
    (h' : List.Forall₂ (fun y e => f y = .ok e) ys es') : List.Forall₂ Expr.Alike es es' := by
  have hpairs : List.Forall₂ (fun _ _ => True) xs ys :=
    List.forall₂_iff_zip.2 ⟨hlen, fun _ => trivial⟩
  exact forall₂_of_made hpairs h h' fun _ _ _ _ _ hx hy => hf _ _ _ _ hx hy

theorem inField_alike (hp : p.QuoteSafe) {key : String} {words words' : List String}
    (hlen : words.length = words'.length) (h : inField p key words = .ok e)
    (h' : inField p key words' = .ok e') : e.Alike e' := by
  obtain ⟨f, es, hf, hes, rfl⟩ := inField_ok h
  obtain ⟨f', es', hf', hes', rfl⟩ := inField_ok h'
  cases hf.symm.trans hf'
  apply Expr.Alike.anyGroup
  exact words_alike (fun _ _ _ _ hx hy => SelectedField.contains_alike (hp.get? hf) hx hy) hlen hes hes'

theorem inAnyField_alike (hp : p.QuoteSafe) {word word' : String} (h : inAnyField p word = .ok e)
    (h' : inAnyField p word' = .ok e') : e.Alike e' := by
  obtain ⟨es, hes, rfl⟩ := inAnyField_ok h
  obtain ⟨es', hes', rfl⟩ := inAnyField_ok h'
  have hfields : List.Forall₂ (fun f f' => f.operand.Alike f.operand ∧ f = f') p.searchable p.searchable :=
    (List.forall₂_and_left _ _).2
      ⟨fun f hf => hp f (List.mem_of_mem_filter hf), List.forall₂_same.2 fun _ _ => rfl⟩
  apply Expr.Alike.anyGroup
  refine forall₂_of_made hfields hes hes' ?_
  rintro f _ e e' ⟨hf, rfl⟩ he he'
  exact SelectedField.contains_alike hf he he'

theorem direct_alike (hp : p.QuoteSafe) {key : String} {term term' : List Char}
    (hlen : (Text.words term).length = (Text.words term').length)
    (hid : key = everywhere → Text.recordId? term = Text.recordId? term')
    (h : direct p key term = .ok es) (h' : direct p key term' = .ok es') :
    List.Forall₂ Expr.Alike es es' := by
  have hwords : ((Text.words term).map String.ofList).length =
      ((Text.words term').map String.ofList).length := by
    rw [List.length_map, List.length_map, hlen]
  by_cases hkey : key = everywhere
  · subst hkey
    have hsame := hid rfl
    cases hn : Text.recordId? term with
    | some n =>
      rw [hn] at hsame
      simp only [direct, if_true, hn, ← hsame, bind_eq_ok, Except.ok.injEq] at h h'
      obtain ⟨e, he, rfl⟩ := h
      obtain ⟨e', he', rfl⟩ := h'
      exact .cons (Condition.predicate_alike hp (.refl _) he he') .nil
    | none =>
      rw [hn] at hsame
      rw [direct_everywhere hn, mapM_eq_ok] at h
      rw [direct_everywhere hsame.symm, mapM_eq_ok] at h'
      exact words_alike (fun _ _ _ _ hx hy => inAnyField_alike hp hx hy) hwords h h'
  · by_cases hw : Text.words term = []
    · have hw' : Text.words term' = [] := by
        rw [← List.length_eq_zero_iff, ← hlen, hw, List.length_nil]
      rw [direct_wordless hkey hw] at h
      rw [direct_wordless hkey hw'] at h'
      cases h
      cases h'
      exact .nil
    · have hw' : Text.words term' ≠ [] := by
        rwa [← List.length_pos_iff, ← hlen, List.length_pos_iff]
      rw [direct_field hkey hw, map_eq_ok] at h
      rw [direct_field hkey hw', map_eq_ok] at h'
      obtain ⟨e, he, rfl⟩ := h
      obtain ⟨e', he', rfl⟩ := h'
      exact .cons (inField_alike hp hwords he he') .nil

/-- A search is not redirected, unless a term without a number has a colon. -/
theorem route_eq {key : String} {term : List Char} (h : key = everywhere → ':' ∉ term) :
    route c key term = (key, term) := by
  by_cases hkey : key = everywhere
  · subst hkey
    apply route_of_none
    unfold redirect?
    rw [Text.cutAt?_eq_none (h rfl)]
    split
    · rename_i hcut
      cases hcut
    · rfl
  · exact route_of_ne hkey

theorem predicates_alike (hp : p.QuoteSafe) {x y : String × String} (hxy : Alike x y)
    (h : predicates c p x.1 x.2 = .ok es) (h' : predicates c p y.1 y.2 = .ok es') :
    List.Forall₂ Expr.Alike es es' := by
  rw [predicates, ← hxy.key] at h'
  rw [predicates] at h
  cases hxy.term with
  | inl he =>
    rw [← he] at h'
    exact direct_alike hp rfl (fun _ => rfl) h h'
  | inr hfree =>
    rw [route_eq fun hkey => (hfree.2 hkey).1.2] at h
    rw [route_eq fun hkey => (hfree.2 hkey).2.2] at h'
    refine direct_alike hp hfree.1 ?_ h h'
    intro hkey
    rw [(hfree.2 hkey).1.1, (hfree.2 hkey).2.1]

end Search

namespace Filter

theorem predicates_alike (hp : p.QuoteSafe) {r r' : Request} (hr : Request.Alike p r r')
    (h : predicates c p r = .ok es) (h' : predicates c p r' = .ok es') :
    List.Forall₂ Expr.Alike es es' := by
  rw [predicates, bind_eq_ok] at h h'
  obtain ⟨done, hd, h⟩ := h
  obtain ⟨done', hd', h'⟩ := h'
  obtain ⟨_, hmade, rfl⟩ := addConditions_eq_ok.1 hd
  obtain ⟨_, hmade', rfl⟩ := addConditions_eq_ok.1 hd'
  obtain ⟨found, hfound, rfl⟩ := addSearches_eq_ok.1 h
  obtain ⟨found', hfound', rfl⟩ := addSearches_eq_ok.1 h'
  have hconditions : List.Forall₂ (Condition.Alike p) (conditions r) (conditions r') := by
    unfold conditions
    rw [← hr.pk]
    cases r.pk with
    | none => exact hr.conditions
    | some pk => exact .cons (.refl _) hr.conditions
  have hmades : List.Forall₂ Expr.Alike done done' :=
    forall₂_of_made hconditions hmade hmade' fun _ _ _ _ hab he he' =>
      Condition.predicate_alike hp hab he he'
  have hfounds : List.Forall₂ (List.Forall₂ Expr.Alike) found found' :=
    forall₂_of_made hr.search hfound hfound' fun _ _ _ _ hxy he he' =>
      Search.predicates_alike hp hxy he he'
  exact List.rel_append hmades (List.rel_flatten hfounds)

end Filter

end

end Retrieval
