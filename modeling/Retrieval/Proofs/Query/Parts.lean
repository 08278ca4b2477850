import Retrieval.Proofs.Query.Selection
import Retrieval.Query.Basic

namespace Retrieval

theorem liftRequest_eq_ok {α : Type} {x : Except Request.Error α} {a : α} :
    liftRequest x = .ok a ↔ x = .ok a := by
  cases x <;> simp [liftRequest]

theorem Filter.tag_eq_ok {α : Type} {index : Nat} {x : Except Request.Error α} {a : α} :
    tag index x = .ok a ↔ x = .ok a := by
  cases x <;> simp [tag]

theorem Filter.ne_ok_of_tag {α : Type} {index : Nat} {x : Except Request.Error α} {e : Request.Error}
    (h : tag index x = .error e) (a : α) : x ≠ .ok a := by
  rintro rfl
  cases h

theorem SelectedField.blame_eq_ok {α : Type} {f : SelectedField} {x : Except Field.Error α} {a : α} :
    f.blame x = .ok a ↔ x = .ok a := by
  cases x <;> simp [blame]

theorem Selection.lookup_eq_ok {p : Selection} {path : String} {f : SelectedField} :
    p.lookup path = .ok f ↔ p.get? path = some f := by
  unfold lookup
  cases p.get? path <;> simp

namespace Query

structure Parts where
  collection : Collection
  members : List Member
  graph : JoinGraph
  selection : Selection
  predicates : List Sql.Expr
  order : List Sql.Order
  page : Sql.Page

/-- A request is compiled through these parts. -/
structure Parts.Make (m : Model) (r : Request) (parts : Parts) (q : Query) : Prop where
  collection : m.collection r.collection = .ok parts.collection
  members : parts.collection.fieldSet r.fieldSet = .ok parts.members
  selection : Selection.build m (.new r.collection) parts.members =
    (parts.graph, .ok parts.selection)
  predicates : Filter.predicates parts.collection parts.selection r = .ok parts.predicates
  order : r.sort.mapM (·.order parts.selection) = .ok parts.order
  page : Sql.Page.ofRequest r.limit r.offset = .ok parts.page
  query : q = ⟨{
    items := parts.selection.items
    source := some parts.graph.source
    joins := parts.graph.joins
    filter := Sql.Expr.all parts.predicates
    order := parts.order
    page := parts.page }, parts.selection.output⟩

variable {m : Model} {r : Request} {q : Query}

theorem ofRequest_ok (h : ofRequest m r = .ok q) : ∃ parts : Parts, parts.Make m r q := by
  simp only [ofRequest, bind_eq_ok, liftRequest_eq_ok] at h
  obtain ⟨c, hc, members, hm, h⟩ := h
  cases hb : Selection.build m (.new r.collection) members with
  | mk g built =>
    rw [hb] at h
    obtain ⟨p, hp, predicates, hpred, order, ho, page, hpage, hq⟩ := h
    cases hq
    exact ⟨⟨c, members, g, p, predicates, order, page⟩,
      ⟨hc, hm, hb.trans (Prod.ext rfl hp), hpred, ho, hpage, rfl⟩⟩

theorem Parts.Make.ofRequest_eq_ok {parts : Parts} (h : parts.Make m r q) : ofRequest m r = .ok q := by
  simp only [ofRequest, bind_eq_ok, liftRequest_eq_ok]
  refine ⟨parts.collection, h.collection, parts.members, h.members, ?_⟩
  rw [h.selection]
  exact ⟨parts.selection, rfl, parts.predicates, h.predicates, parts.order, h.order, parts.page, h.page,
    by rw [h.query]⟩

theorem ofRequest_members {c : Collection} {members : List Member} (hc : m.collection r.collection = .ok c)
    (hm : c.fieldSet r.fieldSet = .ok members) (h : ofRequest m r = .ok q) :
    ∃ parts : Parts, parts.Make m r q ∧ parts.collection = c ∧ parts.members = members := by
  obtain ⟨parts, hparts⟩ := ofRequest_ok h
  have hcollection := hparts.collection
  rw [hc, Except.ok.injEq] at hcollection
  have hmembers := hparts.members
  rw [← hcollection, hm, Except.ok.injEq] at hmembers
  exact ⟨parts, hparts, hcollection.symm, hmembers.symm⟩

namespace Parts.Make

variable {parts : Parts}

theorem grows (h : parts.Make m r q) :
    JoinGraph.Grows m (Selection.Joins parts.members) (.new r.collection) parts.graph :=
  Selection.build_grows parts.members h.selection

theorem shows (h : parts.Make m r q) :
    List.Forall₂ (fun x f => SelectedField.Shows m parts.graph x f)
      (Selection.firsts [] parts.members) parts.selection.fields :=
  Selection.build_ok h.selection

theorem paths_eq (h : parts.Make m r q) :
    parts.selection.paths = (Selection.firsts [] parts.members).map (·.path) :=
  Selection.paths_of_shows h.shows

theorem columns_paths (h : parts.Make m r q) : q.columns.map (·.path) = parts.selection.paths := by
  rw [h.query, Selection.output, List.map_map]
  rfl

theorem columns_labels (h : parts.Make m r q) :
    q.columns.map (·.label) = parts.selection.fields.map (·.label) := by
  rw [h.query, Selection.output, List.map_map]
  rfl

theorem items_labels (h : parts.Make m r q) :
    q.statement.items.map (·.label) = (parts.selection.fields.map (·.label)).map some := by
  rw [h.query, Selection.items, List.map_map, List.map_map]
  rfl

theorem isSome_get?_iff (h : parts.Make m r q) {path : String} :
    (parts.selection.get? path).isSome = true ↔ path ∈ parts.members.map (·.path) := by
  rw [Selection.isSome_get?_iff]
  constructor
  · rw [h.paths_eq]
    intro hpath
    obtain ⟨x, hx, rfl⟩ := List.mem_map.1 hpath
    exact List.mem_map_of_mem (Selection.mem_of_mem_firsts hx)
  · intro hpath
    obtain ⟨x, hx, rfl⟩ := List.mem_map.1 hpath
    exact Selection.mem_paths h.shows hx

theorem selection_eq (h : parts.Make m r q) {r' : Request} {q' : Query} {parts' : Parts}
    (h' : parts'.Make m r' q') (hc : r.collection = r'.collection) (hf : r.fieldSet = r'.fieldSet) :
    parts'.collection = parts.collection ∧ parts'.graph = parts.graph ∧
      parts'.selection = parts.selection := by
  have hcollection := h'.collection
  rw [← hc, h.collection, Except.ok.injEq] at hcollection
  have hmembers := h'.members
  rw [← hcollection, ← hf, h.members, Except.ok.injEq] at hmembers
  have hselection := h'.selection
  rw [← hc, ← hmembers, h.selection, Prod.mk.injEq, Except.ok.injEq] at hselection
  exact ⟨hcollection.symm, hselection.1.symm, hselection.2.symm⟩

end Parts.Make

end Query

end Retrieval
