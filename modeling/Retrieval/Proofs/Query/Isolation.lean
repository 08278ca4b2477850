import Retrieval.Proofs.Query.Alike
import Retrieval.Proofs.Query.Quoting

namespace Retrieval

open Sql

def Request.Selects (m : Model) (r : Request) (p : Selection) : Prop :=
  ∃ c members g, m.collection r.collection = .ok c ∧ c.fieldSet r.fieldSet = .ok members ∧
    Selection.build m (.new r.collection) members = (g, .ok p)

namespace Query

variable {types : FieldTypes} {d : ModelDocument} {m : Model} {r : Request} {q : Query} {parts : Parts}

theorem Parts.Make.quoteSafe_graph (h : parts.Make m r q) (hl : Model.ofDocument types d = .ok m)
    (hm : m.QuoteSafe) : parts.graph.QuoteSafe := by
  refine JoinGraph.Grows.quoteSafe hl hm ?_ (JoinGraph.quoteSafe_new (hm.collection_name h.collection))
    h.grows
  intro c join hc hj
  obtain ⟨key, hkey⟩ := Model.computed_of_mem_fieldSet hl h.collection h.members hc
  exact hm.joins _ (Dict.mem_of_find? (Model.collection_eq_ok.1 h.collection)) _
    (Dict.mem_of_find? hkey) join hj

theorem Parts.Make.quoteSafe_fields (h : parts.Make m r q) (hl : Model.ofDocument types d = .ok m)
    (hm : m.QuoteSafe) {f : SelectedField} (hf : f ∈ parts.selection.fields) : f.QuoteSafe := by
  obtain ⟨x, hx, hshows⟩ := exists_mem_left h.shows hf
  refine hshows.quoteSafe hm (h.quoteSafe_graph hl hm) ?_ (Selection.quote_notMem_label h.selection hf)
  intro c hc
  rw [hc] at hx
  obtain ⟨key, hkey⟩ := Model.computed_of_mem_fieldSet hl h.collection h.members
    (Selection.mem_of_mem_firsts hx)
  have hquery := hm.queries _ (Dict.mem_of_find? (Model.collection_eq_ok.1 h.collection)) _
    (Dict.mem_of_find? hkey)
  exact hquery

theorem Parts.Make.alike_order (h : parts.Make m r q) (hl : Model.ofDocument types d = .ok m)
    (hm : m.QuoteSafe) {o : Order} (ho : o ∈ parts.order) :
    List.Forall₂ Token.Alike o.tokens o.tokens := by
  obtain ⟨entry, _, hentry⟩ := exists_mem_left (mapM_eq_ok.1 h.order) ho
  unfold SortEntry.order at hentry
  split at hentry
  · cases hentry
  · rename_i f hf
    cases hentry
    have hsafe := h.quoteSafe_fields hl hm (List.mem_of_find?_eq_some hf)
    exact Order.alike_tokens (.column (by simp) hsafe.label)

/-- Requests that differ only in what they say compile to SQL that differs only inside of literals. -/
theorem erase_sql {p : Selection} {r' : Request} {q' : Query} (hl : Model.ofDocument types d = .ok m)
    (hm : m.QuoteSafe) (hp : r.Selects m p) (hr : Request.Alike p r r') (h : ofRequest m r = .ok q)
    (h' : ofRequest m r' = .ok q') :
    erase q.sql = erase q'.sql ∧ EndsOutside q.sql ∧ EndsOutside q'.sql := by
  obtain ⟨parts, hparts⟩ := ofRequest_ok h
  obtain ⟨parts', hparts'⟩ := ofRequest_ok h'
  obtain ⟨hcollection, hgraph, hselection⟩ := hparts.selection_eq hparts' hr.collection hr.fieldSet
  have hpage := hparts'.page
  rw [← hr.limit, ← hr.offset, hparts.page, Except.ok.injEq] at hpage
  have horder := hparts'.order
  rw [← hr.sort, hselection, hparts.order, Except.ok.injEq] at horder
  have hpp : parts.selection = p := by
    obtain ⟨c, members, g, hc, hms, hb⟩ := hp
    rw [hparts.collection, Except.ok.injEq] at hc
    rw [← hc, hparts.members, Except.ok.injEq] at hms
    rw [← hms, hparts.selection, Prod.mk.injEq, Except.ok.injEq] at hb
    exact hb.2
  have hfields := fun f hf => hparts.quoteSafe_fields hl hm (f := f) hf
  have hgsafe := hparts.quoteSafe_graph hl hm
  have hpredicates : List.Forall₂ Expr.Alike parts.predicates parts'.predicates := by
    have hpreds := hparts'.predicates
    rw [hcollection, hselection] at hpreds
    exact Filter.predicates_alike (fun f hf => (hfields f hf).operand) (hpp ▸ hr) hparts.predicates hpreds
  rw [Query.sql, Query.sql, Select.sql, Select.sql]
  apply erase_render
  rw [hparts.query, hparts'.query, hselection, hgraph, ← horder, ← hpage]
  apply Select.alike_tokens rfl
  · intro i hi
    obtain ⟨f, hf, rfl⟩ := List.mem_map.1 hi
    have hsafe := hfields f hf
    exact Item.alike_tokens hsafe.column (by simpa [SelectedField.item] using hsafe.label)
  · intro t ht
    cases ht
    have hbase := hgsafe.tables _ List.mem_cons_self
    exact Table.alike_tokens hbase.1 (by simpa [JoinGraph.source] using hbase.2)
  · exact hgsafe.joins
  · exact Expr.alike_reduce .and hpredicates
  · intro o ho
    exact hparts.alike_order hl hm ho

def quotedRequest : Request :=
  ((Request.ofFieldSet "post" "list").withCondition "shout" "=" (.string "IT'S")).withTerm "*" "O'Brien's"

def hostileRequest : Request :=
  ((Request.ofFieldSet "post" "list").withCondition "shout" "=" (.string "' OR '1' = '1")).withTerm "*"
    "x') -- 'y z"

theorem erase_sql_blog : ∃ m q q', Model.ofDocument .builtin .blog = .ok m ∧
    ofRequest m quotedRequest = .ok q ∧ ofRequest m hostileRequest = .ok q' ∧
    erase q.sql = erase q'.sql ∧ EndsOutside q.sql ∧ EndsOutside q'.sql := by
  obtain ⟨m, hl, h⟩ := exists_of_passes (show passes (fun m => decide m.QuoteSafe &&
    passes (fun c => passes (fun members => passes (fun p =>
      (p.get? "shout").any (·.field.isText) && passes (fun _ => true) (ofRequest m quotedRequest) &&
        passes (fun _ => true) (ofRequest m hostileRequest))
      (Selection.build m (.new "post") members).2) (c.fieldSet (some "list"))) (m.collection "post"))
    (Model.ofDocument .builtin .blog) = true by decide +kernel)
  obtain ⟨hm, h⟩ := Bool.and_eq_true_iff.1 h
  obtain ⟨c, hc, h⟩ := exists_of_passes h
  obtain ⟨members, hms, h⟩ := exists_of_passes h
  obtain ⟨p, hp, h⟩ := exists_of_passes h
  obtain ⟨h, hq'⟩ := Bool.and_eq_true_iff.1 h
  obtain ⟨hf, hq⟩ := Bool.and_eq_true_iff.1 h
  obtain ⟨q, hq, _⟩ := exists_of_passes hq
  obtain ⟨q', hq', _⟩ := exists_of_passes hq'
  have hfield : ∃ f, p.get? "shout" = some f ∧ f.field.isText = true := by
    cases hg : p.get? "shout" with
    | none =>
      rw [hg] at hf
      cases hf
    | some f =>
      rw [hg] at hf
      exact ⟨f, rfl, hf⟩
  have hselects : quotedRequest.Selects m p :=
    ⟨c, members, (Selection.build m (.new "post") members).1, hc, hms, Prod.ext rfl hp⟩
  have hfree : Search.Free "O'Brien's" ∧ Search.Free "x') -- 'y z" := by
    refine ⟨⟨?_, ?_⟩, ?_, ?_⟩ <;> decide +kernel
  have hentry : Search.Alike ("*", "O'Brien's") ("*", "x') -- 'y z") :=
    ⟨rfl, Or.inr ⟨by decide +kernel, fun _ => hfree⟩⟩
  have halike : Request.Alike p quotedRequest hostileRequest :=
    ⟨rfl, rfl, rfl, rfl, rfl, rfl, .cons ⟨rfl, rfl, Or.inr ⟨⟨rfl, rfl⟩, Or.inr hfield⟩⟩ .nil,
      .cons hentry .nil⟩
  exact ⟨m, q, q', hl, hq, hq', erase_sql hl (of_decide_eq_true hm) hselects halike hq hq'⟩

end Query

end Retrieval
