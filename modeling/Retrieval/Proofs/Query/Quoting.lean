import Retrieval.Proofs.Model.Loading
import Retrieval.Proofs.Query.Parts
import Retrieval.Proofs.Sql.Alike

namespace Retrieval

open Sql

/-- The names of a model have no quotes, and its computed fields leave no literal open. -/
structure Model.QuoteSafe (m : Model) : Prop where
  collections : ∀ e ∈ m.collections.entries, '\'' ∉ e.1.toList
  fields : ∀ e ∈ m.collections.entries, ∀ f ∈ e.2.fields.entries, '\'' ∉ f.1.toList
  queries : ∀ e ∈ m.collections.entries, ∀ f ∈ e.2.computed.entries, ClosesQuotes f.2.query.toList
  joins : ∀ e ∈ m.collections.entries, ∀ f ∈ e.2.computed.entries, ∀ join ∈ f.2.join,
    ClosesQuotes join.toList

instance (m : Model) : Decidable m.QuoteSafe :=
  decidable_of_iff
    ((∀ e ∈ m.collections.entries, '\'' ∉ e.1.toList) ∧
      (∀ e ∈ m.collections.entries, ∀ f ∈ e.2.fields.entries, '\'' ∉ f.1.toList) ∧
      (∀ e ∈ m.collections.entries, ∀ f ∈ e.2.computed.entries, ClosesQuotes f.2.query.toList) ∧
      (∀ e ∈ m.collections.entries, ∀ f ∈ e.2.computed.entries, ∀ join ∈ f.2.join,
        ClosesQuotes join.toList))
    ⟨fun h => ⟨h.1, h.2.1, h.2.2.1, h.2.2.2⟩,
      fun h => ⟨h.collections, h.fields, h.queries, h.joins⟩⟩

namespace Model.QuoteSafe

variable {m : Model} {name : String} {c : Collection}

theorem collection_name (h : m.QuoteSafe) (hc : m.collection name = .ok c) : '\'' ∉ name.toList :=
  h.collections _ (Dict.mem_of_find? (collection_eq_ok.1 hc))

theorem field_name (h : m.QuoteSafe) (hc : m.collection name = .ok c) {key : String} {field : Field}
    (hf : c.fields.find? key = some field) : '\'' ∉ key.toList :=
  h.fields _ (Dict.mem_of_find? (collection_eq_ok.1 hc)) _ (Dict.mem_of_find? hf)

end Model.QuoteSafe

theorem Placeholder.closesQuotes_of_filled {stands : String → String → Prop} {template : String}
    {text : List Char} (h : Filled stands (pieces template) text)
    (hs : ∀ name s, stands name s → '\'' ∉ s.toList) (hb : ClosesQuotes template.toList) :
    ClosesQuotes text := by
  have hquote : Apart (· == '\'') := by
    refine ⟨rfl, rfl, ?_⟩
    intro c hc
    rw [beq_eq_false_iff_ne]
    rintro rfl
    cases hc
  have hmarks : text.filter (· == '\'') = template.toList.filter (· == '\'') := by
    rw [← marks_pieces hquote]
    apply h.filter_eq
    intro run s _ hstands c hc
    rw [beq_eq_false_iff_ne]
    rintro rfl
    exact hs _ _ hstands hc
  rw [ClosesQuotes, List.count_eq_length_filter, hmarks, ← List.count_eq_length_filter]
  exact hb

namespace JoinGraph

variable {m : Model} {g g' : JoinGraph}

structure QuoteSafe (g : JoinGraph) : Prop where
  tables : ∀ t ∈ g.base :: g.tables, '\'' ∉ t.collection.toList ∧ '\'' ∉ t.aliasName.toList
  joins : ∀ j ∈ g.joins, List.Forall₂ Token.Alike j.tokens j.tokens

theorem quote_notMem_nextAlias (collection : String) : '\'' ∉ (g.nextAlias collection).toList :=
  fun h => absurd (isAlphanum_nextAlias h) (by decide)

theorem quoteSafe_new {base : String} (h : '\'' ∉ base.toList) : (JoinGraph.new base).QuoteSafe := by
  constructor
  · intro t ht
    rw [List.mem_singleton.1 ht]
    refine ⟨h, ?_⟩
    rw [new, String.toList_ofList, List.mem_singleton]
    intro hquote
    have hletter := isAlphanum_letter base
    rw [← hquote] at hletter
    exact absurd hletter (by decide)
  · intro j hj
    cases hj

theorem QuoteSafe.addHop (h : g.QuoteSafe) {walked : List String} {current : QueryTable}
    {hop collection : String} (hc : current ∈ g.base :: g.tables) (hh : '\'' ∉ hop.toList)
    (ht : '\'' ∉ collection.toList) : (g.addHop walked current hop collection).QuoteSafe := by
  have halias := quote_notMem_nextAlias (g := g) collection
  constructor
  · intro t hmem
    rw [base_addHop, tables_addHop, ← List.cons_append] at hmem
    cases List.mem_append.1 hmem with
    | inl hold => exact h.tables t hold
    | inr hnew =>
      rw [List.mem_singleton.1 hnew]
      exact ⟨ht, halias⟩
  · intro j hj
    rw [joins_addHop] at hj
    cases List.mem_append.1 hj with
    | inl hold => exact h.joins j hold
    | inr hnew =>
      rw [List.mem_singleton.1 hnew]
      apply Join.alike_tokens_left
      · exact Table.alike_tokens ht (by simpa using halias)
      · apply Expr.Alike.binary
        · exact .column (by simpa using halias) (by decide)
        · exact .column (by simpa using (h.tables current hc).2) hh

theorem QuoteSafe.addRaw (h : g.QuoteSafe) {sql : String} (hs : ClosesQuotes sql.toList) :
    (g.addRaw sql).QuoteSafe := by
  constructor
  · rw [base_addRaw, tables_addRaw]
    exact h.tables
  · intro j hj
    rw [joins_addRaw] at hj
    cases List.mem_append.1 hj with
    | inl hold => exact h.joins j hold
    | inr hnew =>
      rw [List.mem_singleton.1 hnew]
      exact .cons (.same hs) .nil

theorem QuoteSafe.aliasText (h : g.QuoteSafe) {field token s : String}
    (ha : Selection.aliasText g field token = .ok s) : '\'' ∉ s.toList := by
  unfold Selection.aliasText at ha
  split at ha
  · rename_i a hfound
    cases ha
    obtain ⟨t, ht, rfl⟩ := Option.map_eq_some_iff.1 hfound
    exact (h.tables t (List.mem_of_find?_eq_some ht)).2
  · cases ha

theorem Grows.quoteSafe {types : FieldTypes} {d : ModelDocument} (hl : Model.ofDocument types d = .ok m)
    (hm : m.QuoteSafe) {members : List Member}
    (hjoins : ∀ c join, Member.computed c ∈ members → c.join = some join → ClosesQuotes join.toList)
    (hg : g.QuoteSafe) (h : Grows m (Selection.Joins members) g g') : g'.QuoteSafe := by
  induction h with
  | refl => exact hg
  | tail _ hs ih =>
    cases hs with
    | hop hd hc hn ht =>
      obtain ⟨c, field, name, c', hcol, hf, _, hcol', htable⟩ := target_ok ht
      apply ih.addHop (mem_tables_of_tableAt? hc)
      · exact hm.field_name hcol hf
      · rw [← htable, Model.table_of_ofDocument hl hcol']
        exact hm.collection_name hcol'
    | raw hr =>
      obtain ⟨c, join, hc, hj, hs⟩ := hr
      apply ih.addRaw
      exact Placeholder.closesQuotes_of_filled (Placeholder.replace_ok hs) (fun _ _ ha => ih.aliasText ha)
        (hjoins c join hc hj)

theorem fieldOf_quoteSafe (hm : m.QuoteSafe) {table : QueryTable} {name : String} {column : ColumnRef}
    (h : fieldOf m table name = .ok column) : '\'' ∉ column.column.toList := by
  obtain ⟨_, hn, c, hc, hf⟩ := fieldOf_ok h
  rw [hn]
  exact hm.field_name hc hf

end JoinGraph

structure SelectedField.QuoteSafe (f : SelectedField) : Prop where
  column : f.column.Alike f.column
  operand : f.operand.Alike f.operand
  label : '\'' ∉ f.label.toList

theorem SelectedField.Shows.quoteSafe {m : Model} (hm : m.QuoteSafe) {g : JoinGraph} (hg : g.QuoteSafe)
    {x : Member} {f : SelectedField} (h : f.Shows m g x)
    (hx : ∀ c, x = .computed c → ClosesQuotes c.query.toList) (hl : '\'' ∉ f.label.toList) :
    f.QuoteSafe := by
  cases h with
  | plain ht hf =>
    have halias := (hg.tables _ (JoinGraph.mem_tables_of_tableAt? ht)).2
    have hname := JoinGraph.fieldOf_quoteSafe hm hf
    exact ⟨.column (by simpa using halias) hname, .column (by simpa using halias) hname, hl⟩
  | computed hs =>
    have hsql := Placeholder.closesQuotes_of_filled hs (fun _ _ hstands => by
      obtain ⟨column, ht, hf, rfl⟩ := hstands
      have halias := (hg.tables _ (JoinGraph.mem_tables_of_tableAt? ht)).2
      have hname := JoinGraph.fieldOf_quoteSafe hm hf
      simp [halias, hname]) (hx _ rfl)
    exact ⟨.raw hsql, .group (.raw hsql), hl⟩

theorem Selection.quote_notMem_label {m : Model} {g g' : JoinGraph} {members : List Member}
    {p : Selection} (h : build m g members = (g', .ok p)) {f : SelectedField} (hf : f ∈ p.fields) :
    '\'' ∉ f.label.toList := by
  have hlabel : f.label ∈ p.fields.map (·.label) := List.mem_map_of_mem hf
  rw [build_labels h] at hlabel
  obtain ⟨n, _, hn⟩ := List.mem_map.1 hlabel
  rw [← hn, label, String.toList_ofList, List.mem_cons, not_or]
  exact ⟨by decide, fun h => absurd (JoinGraph.isAlphanum_of_mem_digitChars h) (by decide)⟩

end Retrieval
