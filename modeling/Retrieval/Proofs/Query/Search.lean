import Retrieval.Proofs.Model.Loading
import Retrieval.Proofs.Query.Filter
import Retrieval.Proofs.Sql.Truth
import Retrieval.Proofs.Text.Words

namespace Retrieval

open Sql

theorem Field.pattern_isText {f : Field} (hf : f.isText = true) {s : String} {l : Literal}
    (h : f.pattern (.string s) = .ok l) : l = .text s := by
  cases f with
  | string maxLength | text maxLength =>
    by_cases hfits : fits maxLength s = true
    · simp only [pattern, literal, Json.isNull, present?, Json.scalarText?, Option.bind_some, hfits] at h
      cases h
      rfl
    · simp [pattern, literal, Json.isNull, present?, Json.scalarText?, hfits] at h
  | enum choices =>
    cases h
    rfl
  | date =>
    cases h
    rfl
  | _ => cases hf

theorem Field.isText_of_isSearchable {f : Field} (h : f.isSearchable = true) : f.isText = true := by
  cases f <;> first | rfl | cases h

namespace SelectedField

variable {f : SelectedField} {e : Expr} {word : List Char} (row : Valuation)

def Has (f : SelectedField) (row : Valuation) (word : List Char) : Prop :=
  ∃ v, row.eval f.column = some v ∧ Occurs word (row.text v)

@[simp] theorem eval_operand (f : SelectedField) : row.eval f.operand = row.eval f.column := by
  unfold operand column
  split <;> rfl

theorem truth_contains (hf : f.field.isText = true) (hw : ∀ c ∈ word, c.isAlphanum = true)
    (h : f.contains (.string (String.ofList word)) = .ok e) :
    row.truth e = some true ↔ f.Has row word := by
  obtain ⟨l, hl, rfl⟩ := contains_ok h
  rw [Field.pattern_isText hf hl, row.truth_like, eval_operand, Has]
  cases hv : row.eval f.column with
  | none => simp [Valuation.related]
  | some v =>
    have hlike := like_containing hw (row.text v)
    simpa [Valuation.related, Valuation.eval, Literal.containing, Literal.value, Literal.bare, Valuation.relates,
      Valuation.text] using hlike

end SelectedField

namespace Search

variable {c : Collection} {p : Selection} {key target : String} {term rest word : List Char} {e : Expr}
  {es : List Expr} {f : SelectedField} (row : Valuation)

theorem isAlphanum_of_mem_words (hw : word ∈ Text.words term) : ∀ c ∈ word, c.isAlphanum = true :=
  (Text.mem_words.1 hw).2.1

theorem truth_inField {words : List (List Char)} (hf : p.get? key = some f) (ht : f.field.isText = true)
    (hw : ∀ w ∈ words, ∀ c ∈ w, c.isAlphanum = true) (h : inField p key (words.map String.ofList) = .ok e) :
    row.truth e = some true ↔ ∃ w ∈ words, f.Has row w := by
  obtain ⟨f', es, hf', hes, rfl⟩ := inField_ok h
  cases hf.symm.trans hf'
  rw [List.forall₂_map_left_iff] at hes
  rw [row.truth_anyGroup]
  refine (exists_mem_iff (((List.forall₂_and_left _ _).2 ⟨hw, hes⟩).imp ?_)).symm
  rintro w e ⟨hw, hcontains⟩
  exact (f.truth_contains row ht hw hcontains).symm

theorem truth_inAnyField (hw : ∀ c ∈ word, c.isAlphanum = true)
    (h : inAnyField p (String.ofList word) = .ok e) :
    row.truth e = some true ↔ ∃ f ∈ p.searchable, f.Has row word := by
  obtain ⟨es, hes, rfl⟩ := inAnyField_ok h
  have ht : ∀ f ∈ p.searchable, f.field.isText = true := by
    intro f hf
    have hsearchable := (List.mem_filter.1 hf).2
    simp only [SelectedField.isSearchable, Bool.and_eq_true] at hsearchable
    exact Field.isText_of_isSearchable hsearchable.2
  rw [row.truth_anyGroup]
  refine (exists_mem_iff (((List.forall₂_and_left _ _).2 ⟨ht, hes⟩).imp ?_)).symm
  rintro f e ⟨ht, hcontains⟩
  exact (f.truth_contains row ht hw hcontains).symm

theorem direct_text (hk : key ≠ everywhere) (hf : p.get? key = some f) (ht : f.field.isText = true)
    (hw : ∃ w, Text.IsWord term w) (h : direct p key term = .ok es) :
    ∃ e, es = [e] ∧ (row.truth e = some true ↔ ∃ w, Text.IsWord term w ∧ f.Has row w) := by
  obtain ⟨w, hw⟩ := hw
  rw [direct_field hk (List.ne_nil_of_mem (Text.mem_words.2 hw)), map_eq_ok] at h
  obtain ⟨e, he, rfl⟩ := h
  refine ⟨e, rfl, ?_⟩
  rw [truth_inField row hf ht (fun _ => isAlphanum_of_mem_words) he]
  simp only [Text.mem_words]

theorem direct_any (hn : Text.recordId? term = none) (h : direct p everywhere term = .ok es) :
    (∀ e ∈ es, row.truth e = some true) ↔ ∀ w, Text.IsWord term w → ∃ f ∈ p.searchable, f.Has row w := by
  rw [direct_everywhere hn, mapM_eq_ok, List.forall₂_map_left_iff] at h
  simp only [← Text.mem_words]
  refine (forall_mem_iff (((List.forall₂_and_left _ _).2
    ⟨fun _ => isAlphanum_of_mem_words, h⟩).imp ?_)).symm
  rintro w e ⟨hw, he⟩
  exact (truth_inAnyField row hw he).symm

/-- The prefix of a term, up to its first colon, stands for a field. -/
def Redirects (c : Collection) (term : List Char) (target : String) (rest : List Char) : Prop :=
  ∃ before, term = before ++ ':' :: rest ∧ ':' ∉ before ∧
    c.searchPrefixes.find? (String.ofList before) = some target

theorem recordId?_eq_none (h : term ≠ [] → ∃ x ∈ term, x.isDigit = false) :
    Text.recordId? term = none := by
  unfold Text.recordId?
  by_cases hterm : term = []
  · simp [hterm]
  · obtain ⟨x, hx, hdigit⟩ := h hterm
    have hall : term.all Char.isDigit = false := by
      rw [List.all_eq_false]
      exact ⟨x, hx, by simp [hdigit]⟩
    simp [hall]

theorem redirect?_eq_some : redirect? c term = some (target, rest) ↔ Redirects c term target rest := by
  unfold redirect? Redirects
  constructor
  · intro h
    split at h
    · rename_i before after _ hcut
      obtain ⟨found, hfound, heq⟩ := Option.map_eq_some_iff.1 h
      cases heq
      obtain ⟨hterm, hbefore⟩ := Text.cutAt?_eq_some.1 hcut
      exact ⟨before, hterm, hbefore, hfound⟩
    · cases h
  · rintro ⟨before, rfl, hbefore, hfound⟩
    have hnumber : Text.recordId? (before ++ ':' :: rest) = none :=
      recordId?_eq_none fun _ => ⟨':', by simp, by decide⟩
    rw [hnumber, Text.cutAt?_eq_some.2 ⟨rfl, hbefore⟩]
    simp [hfound]

theorem redirect?_eq_none (h : ∀ target rest, ¬ Redirects c term target rest) : redirect? c term = none := by
  rw [Option.eq_none_iff_forall_ne_some]
  rintro ⟨target, rest⟩ hsome
  exact h target rest (redirect?_eq_some.1 hsome)

/-- What is left of a term has no words that the term does not have. -/
theorem words_route (h : Text.words term = []) : Text.words (route c key term).2 = [] := by
  fun_induction route c key term with
  | case1 term target rest hredirect ih =>
    obtain ⟨before, rfl, _, _⟩ := redirect?_eq_some.1 hredirect
    rw [Text.words_append_cons (by decide)] at h
    exact ih (List.append_eq_nil_iff.1 h).2
  | case2 => exact h
  | case3 => exact h

theorem recordId?_wordless (h : Text.words term = []) : Text.recordId? term = none := by
  apply recordId?_eq_none
  intro hterm
  by_contra hdigits
  have halphanum : ∀ x ∈ term, Text.isAsciiAlphanumeric x = true := by
    intro x hx
    have hdigit : x.isDigit = true := by
      by_contra hx'
      exact hdigits ⟨x, hx, by simpa using hx'⟩
    simp [Text.isAsciiAlphanumeric, Char.isAlphanum, hdigit]
  rw [Text.words_eq_singleton hterm halphanum] at h
  cases h

/-- A term without words asks for nothing, wherever it is sent. -/
theorem predicates_wordless {term : String} (h : Text.words term.toList = []) :
    predicates c p key term = .ok [] := by
  have hrouted : Text.words (route c key term.toList).2 = [] := words_route h
  simp only [predicates]
  by_cases hk : (route c key term.toList).1 = everywhere
  · rw [hk, direct_everywhere (recordId?_wordless hrouted), hrouted]
    rfl
  · exact direct_wordless hk hrouted

/-- What the predicates of a search say of a row. -/
structure Means (c : Collection) (p : Selection) (key : String) (term : List Char) (es : List Expr)
    (row : Valuation) : Prop where
  everywhere : key = everywhere → (term ≠ [] → ∃ x ∈ term, x.isDigit = false) →
    (∀ target rest, ¬ Redirects c term target rest) →
    ((∀ e ∈ es, row.truth e = some true) ↔ ∀ w, Text.IsWord term w →
      ∃ f ∈ p.fields, f.isComputed = false ∧ f.field.isSearchable = true ∧ f.Has row w)
  field : ∀ f, key ≠ Search.everywhere → p.get? key = some f → f.field.isText = true →
    (∃ w, Text.IsWord term w) →
    ∃ e, es = [e] ∧ (row.truth e = some true ↔ ∃ w, Text.IsWord term w ∧ f.Has row w)
  redirected : ∀ target rest f, key = Search.everywhere → Redirects c term target rest →
    target ≠ Search.everywhere → p.get? target = some f → f.field.isText = true →
    (∃ w, Text.IsWord rest w) →
    ∃ e, es = [e] ∧ (row.truth e = some true ↔ ∃ w, Text.IsWord rest w ∧ f.Has row w)
  redirectedWordless : ∀ target rest, key = Search.everywhere → Redirects c term target rest →
    target ≠ Search.everywhere → (∀ w, ¬ Text.IsWord rest w) → es = []
  wordless : (∀ w, ¬ Text.IsWord term w) → es = []

theorem mem_searchable : f ∈ p.searchable ↔
    f ∈ p.fields ∧ f.isComputed = false ∧ f.field.isSearchable = true := by
  simp [Selection.searchable, SelectedField.isSearchable]

theorem means_of_predicates {term : String} (row : Valuation) (h : predicates c p key term = .ok es) :
    Means c p key term.toList es row := by
  refine ⟨?everywhere, ?field, ?redirected, ?redirectedWordless, ?wordless⟩
  case everywhere =>
    rintro rfl hdigits hprefix
    simp only [predicates, route_of_none (redirect?_eq_none hprefix)] at h
    simp only [direct_any row (recordId?_eq_none hdigits) h, mem_searchable, and_assoc]
  case field =>
    intro f hk hf ht hw
    simp only [predicates, route_of_ne hk] at h
    exact direct_text row hk hf ht hw h
  case redirected =>
    rintro target rest f rfl hprefix htarget hf ht hw
    simp only [predicates, route_of_some (redirect?_eq_some.2 hprefix), route_of_ne htarget] at h
    exact direct_text row htarget hf ht hw h
  case redirectedWordless =>
    rintro target rest rfl hprefix htarget hw
    simp only [predicates, route_of_some (redirect?_eq_some.2 hprefix), route_of_ne htarget] at h
    rw [direct_wordless htarget (Text.words_eq_nil hw)] at h
    cases h
    rfl
  case wordless =>
    intro hw
    rw [predicates_wordless (Text.words_eq_nil hw)] at h
    cases h
    rfl

def adaRow : Valuation where
  column table name := if table = some "a1" ∧ name = "name" then some (.text "Ada, of the Engine") else none
  computed _ := none
  compare _ _ := .eq
  shown _ := ""
  holds _ := false

theorem means_blog : ∃ m c members g p es, Model.ofDocument .builtin .blog = .ok m ∧
    m.collection "post" = .ok c ∧ c.fieldSet (some "list") = .ok members ∧
    Selection.build m (.new "post") members = (g, .ok p) ∧
    predicates c p everywhere "engine ada!" = .ok es ∧
    Means c p everywhere "engine ada!".toList es adaRow ∧ ∀ e ∈ es, adaRow.truth e = some true := by
  obtain ⟨m, hl, h⟩ := exists_of_passes (show passes (fun m => passes (fun c =>
    passes (fun members => passes (fun p =>
        passes (fun es => decide (∀ e ∈ es, adaRow.truth e = some true)) (predicates c p everywhere "engine ada!"))
      (Selection.build m (.new "post") members).2) (c.fieldSet (some "list"))) (m.collection "post"))
    (Model.ofDocument .builtin .blog) = true by decide +kernel)
  obtain ⟨c, hc, h⟩ := exists_of_passes h
  obtain ⟨members, hm, h⟩ := exists_of_passes h
  obtain ⟨p, hp, h⟩ := exists_of_passes h
  obtain ⟨es, hes, h⟩ := exists_of_passes h
  exact ⟨m, c, members, _, p, es, hl, hc, hm, Prod.ext rfl hp, hes, means_of_predicates adaRow hes,
    of_decide_eq_true h⟩

end Search

end Retrieval
