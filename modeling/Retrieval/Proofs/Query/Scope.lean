import Mathlib.Data.List.Nodup
import Retrieval.Proofs.Model.Loading
import Retrieval.Proofs.Query.Filter
import Retrieval.Proofs.Sql.Scope

namespace Retrieval

open Sql

def Model.HasColumn (m : Model) (scope : Scope) (aliasName name : String) : Prop :=
  ∃ collection c field, (aliasName, collection) ∈ scope ∧ m.collection collection = .ok c ∧
    c.fields.find? name = some field

/-- A text is the expression of a computed member, with columns in scope in the place of its paths. -/
def Model.Computes (m : Model) (members : List Member) (scope : Scope) (text : String) : Prop :=
  ∃ c, Member.computed c ∈ members ∧
    Placeholder.Filled (fun token s => ∃ aliasName, m.HasColumn scope aliasName (Path.mk token).terminal ∧
      s = aliasName ++ "." ++ (Path.mk token).terminal) (Placeholder.pieces c.query) text.toList

/-- An expression names columns in scope only, and so do the texts of computed members in it. -/
abbrev Sql.Expr.Scoped (m : Model) (members : List Member) (scope : Scope) (e : Expr) : Prop :=
  e.Names (m.HasColumn scope) (m.Computes members scope)

/-- A generated join is on the key of its own table, which a field of a table that stands before it
refers to. A join of a computed member names aliases that stand before it. -/
def Sql.Join.WellScoped (m : Model) (members : List Member) (before : Scope) : Join → Prop
  | .left table on => ∃ aliasName source hop collection c field,
      table.aliasName = some aliasName ∧ (source, collection) ∈ before ∧
      m.collection collection = .ok c ∧ c.fields.find? hop = some field ∧
      field.references = some table.name ∧
      on = .binary .eq (.column (some aliasName) keyField) (.column (some source) hop)
  | .raw sql => ∃ c join, Member.computed c ∈ members ∧ c.join = some join ∧
      Placeholder.Filled (fun token s => (s, token) ∈ before) (Placeholder.pieces join) sql.toList

/-- An expression is the label of the one select item that shows a path. -/
def Query.Labels (q : Query) (path : String) (e : Expr) : Prop :=
  ∃ (label : String) (position : Nat), e = .column none label ∧
    (∀ k, (q.columns.map (·.path))[k]? = some path ↔ k = position) ∧
    ∀ k, (q.statement.items.map (·.label))[k]? = some (some label) ↔ k = position

structure Query.WellScoped (m : Model) (members : List Member) (r : Request) (q : Query) : Prop where
  source : ∃ aliasName, q.statement.source = some ⟨r.collection, some aliasName⟩
  aliases : (q.statement.scope.map (·.1)).Nodup
  joins : ∀ before j after, q.statement.joins = before ++ j :: after →
    j.WellScoped m members (scopeAfter q.statement.source before)
  items : ∀ i ∈ q.statement.items, i.expr.Scoped m members q.statement.scope
  filter : ∀ e ∈ q.statement.filter, e.Scoped m members q.statement.scope
  order : List.Forall₂ (fun entry o => q.Labels entry.field o.expr) r.sort q.statement.order

namespace JoinGraph

variable {m : Model} {members : List Member} {g g' : JoinGraph}

theorem scopeAfter_joins (g : JoinGraph) : scopeAfter (some g.source) g.joins =
    (g.base :: g.tables).map fun table => (table.aliasName, table.collection) := by
  have hsteps : ∀ steps : List JoinStep, (steps.map JoinStep.join).flatMap Join.scope =
      (steps.filterMap JoinStep.table?).map fun table => (table.aliasName, table.collection) := by
    intro steps
    induction steps with
    | nil => rfl
    | cons step rest ih =>
      rw [List.map_cons, List.flatMap_cons, ih]
      cases step with
      | hop key table source hop => rfl
      | raw sql => rfl
  rw [scopeAfter, joins, hsteps]
  rfl

theorem mem_scopeAfter {table : QueryTable} (h : table ∈ g.base :: g.tables) :
    (table.aliasName, table.collection) ∈ scopeAfter (some g.source) g.joins := by
  rw [scopeAfter_joins]
  exact List.mem_map_of_mem (f := fun table : QueryTable => (table.aliasName, table.collection)) h

theorem Grows.nodup_aliases {raw : JoinGraph → String → Prop} {base : String}
    (h : Grows m raw (.new base) g) : ((scopeAfter (some g.source) g.joins).map (·.1)).Nodup := by
  have hnumbers : ((g.base :: g.tables).map aliasNumber).Nodup := by
    rw [h.aliasNumbers]
    exact List.nodup_range
  have hmap : (g.base :: g.tables).map aliasNumber =
      ((g.base :: g.tables).map (·.aliasName)).map fun a => Text.digitsValue a.toList.tail := by
    rw [List.map_map]
    rfl
  rw [hmap] at hnumbers
  rw [scopeAfter_joins, List.map_map]
  exact List.Nodup.of_map _ hnumbers

def WellScoped (m : Model) (members : List Member) (g : JoinGraph) : Prop :=
  ∀ before j after, g.joins = before ++ j :: after →
    j.WellScoped m members (scopeAfter (some g.source) before)

theorem WellScoped.append {j : Join} (h : g.WellScoped m members) (hbase : g'.base = g.base)
    (hjoins : g'.joins = g.joins ++ [j])
    (hj : j.WellScoped m members (scopeAfter (some g.source) g.joins)) : g'.WellScoped m members := by
  have hsource : g'.source = g.source := by rw [source, source, hbase]
  intro before j' after hsplit
  rw [hsource]
  rw [hjoins] at hsplit
  rcases List.eq_nil_or_concat after with rfl | ⟨after, last, rfl⟩
  · obtain ⟨hbefore, hlast⟩ := List.append_inj' hsplit rfl
    cases hlast
    rw [← hbefore]
    exact hj
  · rw [List.concat_eq_append, ← List.cons_append, ← List.append_assoc] at hsplit
    obtain ⟨hbefore, _⟩ := List.append_inj' hsplit rfl
    exact h before j' after hbefore

theorem mem_scope_of_aliasText {field token s : String} (h : Selection.aliasText g field token = .ok s) :
    (s, token) ∈ scopeAfter (some g.source) g.joins := by
  unfold Selection.aliasText at h
  split at h
  · rename_i aliasName hfound
    cases h
    obtain ⟨table, ht, rfl⟩ := Option.map_eq_some_iff.1 hfound
    have hcollection := List.find?_some ht
    rw [← beq_iff_eq.1 hcollection]
    exact mem_scopeAfter (List.mem_of_find?_eq_some ht)
  · cases h

variable {types : FieldTypes} {d : ModelDocument}

theorem Step.wellScoped (hl : Model.ofDocument types d = .ok m)
    (hs : Step m (Selection.Joins members) g g') (h : g.WellScoped m members) :
    g'.WellScoped m members := by
  cases hs with
  | @hop walked current hop collection _ hc _ ht =>
    obtain ⟨c, field, name, c', hcol, hf, href, hcol', htable⟩ := target_ok ht
    rw [Model.table_of_ofDocument hl hcol'] at htable
    subst htable
    exact h.append rfl (joins_addHop walked current hop name)
      ⟨g.nextAlias name, current.aliasName, hop, current.collection, c, field, rfl,
        mem_scopeAfter (mem_tables_of_tableAt? hc), hcol, hf, href, rfl⟩
  | @raw sql hr =>
    obtain ⟨c, join, hc, hj, hfilled⟩ := hr
    refine h.append rfl (joins_addRaw sql) ⟨c, join, hc, hj, ?_⟩
    exact (Placeholder.replace_ok hfilled).imp fun _ _ ha => mem_scope_of_aliasText ha

theorem Grows.wellScoped (hl : Model.ofDocument types d = .ok m) {base : String}
    (h : Grows m (Selection.Joins members) (.new base) g) : g.WellScoped m members := by
  induction h with
  | refl =>
    intro before j after hsplit
    simp [new, joins] at hsplit
  | tail _ hs ih => exact hs.wellScoped hl ih

theorem hasColumn_of_fieldOf {table : QueryTable} {name : String} {column : ColumnRef}
    (ht : table ∈ g.base :: g.tables) (hf : fieldOf m table name = .ok column) :
    m.HasColumn (scopeAfter (some g.source) g.joins) table.aliasName name := by
  obtain ⟨_, _, c, hc, hfind⟩ := fieldOf_ok hf
  exact ⟨table.collection, c, column.field, mem_scopeAfter ht, hc, hfind⟩

end JoinGraph

namespace SelectedField

variable {m : Model} {members : List Member} {g : JoinGraph} {x : Member} {f : SelectedField}

/-- What shows a member is in scope, both as a column of the result and in a condition. -/
theorem Shows.scoped (hx : x ∈ members) (h : f.Shows m g x) :
    f.column.Scoped m members (scopeAfter (some g.source) g.joins) ∧
      f.operand.Scoped m members (scopeAfter (some g.source) g.joins) := by
  cases h with
  | plain ht hf =>
    have hcolumn := JoinGraph.hasColumn_of_fieldOf (JoinGraph.mem_tables_of_tableAt? ht) hf
    rw [← (JoinGraph.fieldOf_ok hf).2.1] at hcolumn
    exact ⟨.column hcolumn, .column hcolumn⟩
  | @computed c sql _ hs =>
    have htext : m.Computes members (scopeAfter (some g.source) g.joins) sql := by
      refine ⟨c, hx, hs.imp ?_⟩
      intro token s hstands
      obtain ⟨column, ht, hf, rfl⟩ := hstands
      refine ⟨column.table.aliasName,
        JoinGraph.hasColumn_of_fieldOf (JoinGraph.mem_tables_of_tableAt? ht) hf, ?_⟩
      rw [(JoinGraph.fieldOf_ok hf).2.1]
    exact ⟨.raw htext, .group (.raw htext)⟩

theorem Test.names {column : String → String → Prop} {text : String → Prop} {e : Expr}
    (hf : f.operand.Names column text) (h : f.Test e) : e.Names column text := by
  cases h with
  | compare => exact .binary hf (.literal _)
  | oneOf ls =>
    refine .oneOf hf ?_
    intro value hv
    obtain ⟨l, _, rfl⟩ := List.mem_map.1 hv
    exact .literal l
  | isNull => exact .isNull hf

end SelectedField

namespace Selection

theorem Predicate.names {p : Selection} {column : String → String → Prop} {text : String → Prop} {e : Expr}
    (hp : ∀ f ∈ p.fields, f.operand.Names column text) (h : p.Predicate e) : e.Names column text := by
  cases h with
  | test hf he => exact he.names (hp _ hf)
  | anyGroup hs =>
    apply Expr.Names.anyGroup
    intro e he
    obtain ⟨f, hf, ht⟩ := hs e he
    exact ht.names (hp f hf)

end Selection

namespace Query

variable {types : FieldTypes} {d : ModelDocument} {m : Model} {r : Request} {q : Query} {parts : Parts}

theorem Parts.Make.nodup_paths (h : parts.Make m r q) : parts.selection.paths.Nodup := by
  rw [h.paths_eq]
  exact (Selection.nodup_firsts [] parts.members).1

theorem Parts.Make.nodup_labels (h : parts.Make m r q) :
    (parts.selection.fields.map (·.label)).Nodup := by
  rw [Selection.build_labels h.selection]
  refine List.Nodup.map ?_ List.nodup_range
  intro i j hij
  have hdigits := congrArg (fun s => Text.digitsValue s.toList.tail) hij
  simpa [Selection.label] using hdigits

theorem getElem?_iff_of_nodup {α : Type} {xs : List α} (h : xs.Nodup) {position : Nat} {x : α}
    (hx : xs[position]? = some x) (k : Nat) : xs[k]? = some x ↔ k = position := by
  constructor
  · intro hk
    obtain ⟨hlt, _⟩ := List.getElem?_eq_some_iff.1 hk
    exact (List.getElem?_inj hlt h).1 (hk.trans hx.symm)
  · rintro rfl
    exact hx

theorem Parts.Make.labels (h : parts.Make m r q) {path : String} {f : SelectedField}
    (hf : parts.selection.get? path = some f) : q.Labels path (.column none f.label) := by
  obtain ⟨hmem, hpath⟩ := Selection.mem_of_get? hf
  obtain ⟨position, hat⟩ := List.getElem?_of_mem hmem
  refine ⟨f.label, position, rfl, ?_, ?_⟩
  · rw [h.columns_paths]
    apply getElem?_iff_of_nodup h.nodup_paths
    simp [Selection.paths, hat, hpath]
  · rw [h.items_labels]
    apply getElem?_iff_of_nodup (h.nodup_labels.map fun _ _ => Option.some.inj)
    simp [hat]

/-- A query of a loaded model names only what it declares. -/
theorem wellScoped_of_ofRequest {c : Collection} {members : List Member}
    (hl : Model.ofDocument types d = .ok m) (hc : m.collection r.collection = .ok c)
    (hm : c.fieldSet r.fieldSet = .ok members) (h : ofRequest m r = .ok q) :
    q.WellScoped m members r := by
  obtain ⟨parts, hparts, rfl, rfl⟩ := ofRequest_members hc hm h
  have hbase : parts.graph.base = (JoinGraph.new r.collection).base := hparts.grows.base_eq
  have hfields : ∀ f ∈ parts.selection.fields,
      f.column.Scoped m parts.members (scopeAfter (some parts.graph.source) parts.graph.joins) ∧
        f.operand.Scoped m parts.members (scopeAfter (some parts.graph.source) parts.graph.joins) := by
    intro f hf
    obtain ⟨x, hx, hshows⟩ := exists_mem_left hparts.shows hf
    exact hshows.scoped (Selection.mem_of_mem_firsts hx)
  have hscope : q.statement.scope = scopeAfter (some parts.graph.source) parts.graph.joins := by
    rw [hparts.query]
    rfl
  refine ⟨?source, ?aliases, ?joins, ?items, ?filter, ?order⟩
  case source =>
    refine ⟨parts.graph.base.aliasName, ?_⟩
    rw [hparts.query, JoinGraph.source, hbase]
    rfl
  case aliases =>
    rw [hscope]
    exact hparts.grows.nodup_aliases
  case joins =>
    rw [hparts.query]
    exact hparts.grows.wellScoped hl
  case items =>
    intro i hi
    rw [hscope]
    rw [hparts.query] at hi
    obtain ⟨f, hf, rfl⟩ := List.mem_map.1 hi
    exact (hfields f hf).1
  case filter =>
    rw [hscope, hparts.query]
    apply Expr.Names.reduce .and
    intro e he
    exact (Filter.predicates_form hparts.predicates e he).names fun f hf => (hfields f hf).2
  case order =>
    have horder : q.statement.order = parts.order := by rw [hparts.query]
    rw [horder]
    refine (mapM_eq_ok.1 hparts.order).imp ?_
    intro entry o ho
    unfold SortEntry.order at ho
    split at ho
    · cases ho
    · rename_i f hf
      cases ho
      exact hparts.labels hf

def sortedRequest : Request :=
  (((Request.ofFieldSet "post" "list").withCondition "shout" "!=" .null).withTerm "*" "by:ada").sortedBy
    "author.name" (-1)

def sortedSql : String :=
  "SELECT upper(p.title) AS f0, a1.name AS f1, p.id AS f2 FROM post p " ++
    "JOIN tag t ON t.kind = 'post' AND t.owner = p.id LEFT JOIN author a1 ON a1.id = p.author " ++
    "WHERE (upper(p.title)) IS NOT NULL AND (a1.name LIKE '%ada%') ORDER BY f1 DESC"

theorem wellScoped_blog : ∃ m c members q, Model.ofDocument .builtin .blog = .ok m ∧
    m.collection "post" = .ok c ∧ c.fieldSet (some "list") = .ok members ∧
    ofRequest m sortedRequest = .ok q ∧ q.WellScoped m members sortedRequest ∧
    q.sql = sortedSql := by
  obtain ⟨m, hl, h⟩ := exists_of_passes (show passes (fun m => passes (fun c =>
    passes (fun _ => passes (fun q => q.sql = sortedSql) (ofRequest m sortedRequest))
      (c.fieldSet (some "list"))) (m.collection "post"))
    (Model.ofDocument .builtin .blog) = true by decide +kernel)
  obtain ⟨c, hc, h⟩ := exists_of_passes h
  obtain ⟨members, hm, h⟩ := exists_of_passes h
  obtain ⟨q, hq, hsql⟩ := exists_of_passes h
  exact ⟨m, c, members, q, hl, hc, hm, hq, wellScoped_of_ofRequest hl hc hm hq, of_decide_eq_true hsql⟩

end Query

end Retrieval
