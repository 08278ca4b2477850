import Retrieval.Proofs.Model.WellFormed
import Retrieval.Proofs.Query.Naming
import Retrieval.Proofs.Query.Scope
import Retrieval.Proofs.Sql.Sentence

namespace Retrieval

open Sql

structure Collection.IsPlain (c : Collection) : Prop where
  fields : ∀ name ∈ c.fields.keys, IsName name
  computed : c.computed.keys = []

/-- Collections and fields have plain names, and no field is computed. -/
structure Model.IsPlain (m : Model) : Prop where
  names : ∀ name ∈ m.collections.keys, IsName name
  collections : ∀ entry ∈ m.collections.entries, entry.2.IsPlain

namespace Model

variable {types : FieldTypes} {d : ModelDocument} {m : Model} {name : String} {c : Collection}

theorem IsPlain.collection_name (h : m.IsPlain) (hc : m.collection name = .ok c) : IsName name :=
  h.names name (Dict.mem_keys_of_mem (Dict.mem_of_find? (collection_eq_ok.1 hc)))

theorem IsPlain.field_name (h : m.IsPlain) (hc : m.collection name = .ok c) {key : String} {field : Field}
    (hf : c.fields.find? key = some field) : IsName key :=
  (h.collections _ (Dict.mem_of_find? (collection_eq_ok.1 hc))).fields key
    (Dict.mem_keys_of_mem (Dict.mem_of_find? hf))

theorem IsPlain.not_computed (h : m.IsPlain) (hl : ofDocument types d = .ok m)
    (hc : m.collection name = .ok c) {set : Option String} {members : List Member}
    (hm : c.fieldSet set = .ok members) (field : ComputedField) : .computed field ∉ members := by
  intro hf
  obtain ⟨key, hkey⟩ := computed_of_mem_fieldSet hl hc hm hf
  have hmem := Dict.mem_keys_of_mem (Dict.mem_of_find? hkey)
  rw [(h.collections _ (Dict.mem_of_find? (collection_eq_ok.1 hc))).computed] at hmem
  cases hmem

theorem fieldSet_ne_nil (hl : ofDocument types d = .ok m) (hc : m.collection name = .ok c)
    {set : Option String} {members : List Member} (hm : c.fieldSet set = .ok members) : members ≠ [] := by
  obtain ⟨cd, _, hdescribed, _⟩ := find?_collections_ofDocument hl (collection_eq_ok.1 hc)
  obtain ⟨key, hkey, _⟩ := hdescribed.fieldSets.key _ _ (fieldSet_eq_ok.1 hm)
  exact List.ne_nil_of_mem hkey

end Model

namespace JoinGraph

variable {m : Model} {g g' : JoinGraph}

structure IsNamed (g : JoinGraph) : Prop where
  tables : ∀ t ∈ g.base :: g.tables, IsName t.aliasName
  joins : ∀ j ∈ g.joins, j.IsNamed

theorem isName_nextAlias (g : JoinGraph) (collection : String) : IsName (g.nextAlias collection) :=
  isName_of_numbered String.toList_ofList (isLower_letter collection) (isDigits_digitChars _).2

theorem isNamed_new (base : String) : (JoinGraph.new base).IsNamed := by
  constructor
  · intro t ht
    rw [List.mem_singleton.1 ht]
    exact isName_of_numbered String.toList_ofList (isLower_letter base) (by simp)
  · intro j hj
    cases hj

theorem IsNamed.addHop (h : g.IsNamed) {walked : List String} {current : QueryTable} {hop collection : String}
    (hc : current ∈ g.base :: g.tables) (hh : IsName hop) (ht : IsName collection) :
    (g.addHop walked current hop collection).IsNamed := by
  have halias := g.isName_nextAlias collection
  constructor
  · intro t hmem
    rw [base_addHop, tables_addHop, ← List.cons_append] at hmem
    cases List.mem_append.1 hmem with
    | inl hold => exact h.tables t hold
    | inr hnew =>
      rw [List.mem_singleton.1 hnew]
      exact halias
  · intro j hj
    rw [joins_addHop] at hj
    cases List.mem_append.1 hj with
    | inl hold => exact h.joins j hold
    | inr hnew =>
      have hkey : IsName keyField := by decide +kernel
      rw [List.mem_singleton.1 hnew]
      exact .left ht halias (.binary (.column ⟨halias, hkey⟩) (.column ⟨h.tables current hc, hh⟩))

theorem Grows.isNamed {types : FieldTypes} {d : ModelDocument} (hl : Model.ofDocument types d = .ok m)
    (hp : m.IsPlain) {members : List Member} (hm : ∀ c, .computed c ∉ members) (hg : g.IsNamed)
    (h : Grows m (Selection.Joins members) g g') : g'.IsNamed := by
  induction h with
  | refl => exact hg
  | tail _ hs ih =>
    cases hs with
    | hop hd hc hn ht =>
      obtain ⟨c, field, name, c', hcol, hf, _, hcol', htable⟩ := target_ok ht
      apply ih.addHop (mem_tables_of_tableAt? hc) (hp.field_name hcol hf)
      rw [← htable, Model.table_of_ofDocument hl hcol']
      exact hp.collection_name hcol'
    | raw hr =>
      obtain ⟨c, join, hc, _⟩ := hr
      exact absurd hc (hm c)

end JoinGraph

structure SelectedField.IsNamed (f : SelectedField) : Prop where
  item : f.item.IsNamed
  operand : f.operand.IsNamed
  label : IsName f.label

theorem SelectedField.Shows.isNamed {m : Model} (hp : m.IsPlain) {g : JoinGraph} (hg : g.IsNamed)
    {x : Member} (hx : ∀ c, x ≠ .computed c) {f : SelectedField} (h : f.Shows m g x) (hl : IsName f.label) :
    f.IsNamed := by
  cases h with
  | plain ht hf =>
    have halias := hg.tables _ (JoinGraph.mem_tables_of_tableAt? ht)
    obtain ⟨_, hn, c, hc, hfield⟩ := JoinGraph.fieldOf_ok hf
    have hname := hp.field_name hc hfield
    rw [← hn] at hname
    exact ⟨.column halias hname hl, .column ⟨halias, hname⟩, hl⟩
  | computed hs => exact absurd rfl (hx _)

theorem Selection.isName_label {m : Model} {g g' : JoinGraph} {members : List Member} {p : Selection}
    (h : build m g members = (g', .ok p)) {f : SelectedField} (hf : f ∈ p.fields) : IsName f.label := by
  have hlabel : f.label ∈ p.fields.map (·.label) := List.mem_map_of_mem hf
  rw [build_labels h] at hlabel
  obtain ⟨n, _, hn⟩ := List.mem_map.1 hlabel
  rw [← hn]
  exact isName_of_numbered String.toList_ofList (by decide) (isDigits_digitChars n).2

theorem Sql.Page.ofRequest_ok {limit : Option Int64} {offset : Option UInt64} {p : Page}
    (h : ofRequest limit offset = .ok p) :
    p.offset = offset ∧ (p.limit ≠ none ↔ ∃ n, limit = some n ∧ 0 < n) := by
  have hlimit : (limit.bind fun n => if 0 < n then some n.toUInt64 else none) ≠ none ↔
      ∃ n, limit = some n ∧ 0 < n := by
    cases limit with
    | none => simp
    | some n => simp
  unfold ofRequest at h
  dsimp only at h
  split at h
  · cases h
    exact ⟨rfl, hlimit⟩
  · split at h
    · cases h
      exact ⟨rfl, hlimit⟩
    · cases h

namespace Query

variable {types : FieldTypes} {d : ModelDocument} {m : Model} {r : Request} {q : Query} {parts : Parts}

theorem Parts.Make.isNamed (h : parts.Make m r q) (hl : Model.ofDocument types d = .ok m)
    (hp : m.IsPlain) : q.statement.IsNamed := by
  have hcomputed : ∀ c, .computed c ∉ parts.members :=
    hp.not_computed hl h.collection h.members
  have hgraph : parts.graph.IsNamed := h.grows.isNamed hl hp hcomputed (JoinGraph.isNamed_new _)
  have hfields : ∀ f ∈ parts.selection.fields, f.IsNamed := by
    intro f hf
    obtain ⟨x, hx, hshows⟩ := exists_mem_left h.shows hf
    refine hshows.isNamed hp hgraph ?_ (Selection.isName_label h.selection hf)
    rintro c rfl
    exact hcomputed c (Selection.mem_of_mem_firsts hx)
  rw [h.query]
  refine ⟨?nonempty, ?items, ?source, ?joins, ?filter, ?order⟩
  case nonempty =>
    obtain ⟨x, hx⟩ := List.exists_mem_of_ne_nil _ (Model.fieldSet_ne_nil hl h.collection h.members)
    obtain ⟨f, hf⟩ := Option.isSome_iff_exists.1 (h.isSome_get?_iff.2 (List.mem_map_of_mem hx))
    exact List.ne_nil_of_mem (List.mem_map_of_mem (Selection.mem_of_get? hf).1)
  case items =>
    intro i hi
    obtain ⟨f, hf, rfl⟩ := List.mem_map.1 hi
    exact (hfields f hf).item
  case source =>
    refine ⟨_, _, rfl, ?_, hgraph.tables _ List.mem_cons_self⟩
    rw [h.grows.base_eq]
    exact hp.collection_name h.collection
  case joins => exact hgraph.joins
  case filter =>
    apply Expr.Names.reduce .and
    intro e he
    exact (Filter.predicates_form h.predicates e he).names fun f hf => (hfields f hf).operand
  case order =>
    intro o ho
    obtain ⟨entry, _, ho⟩ := exists_mem_left (mapM_eq_ok.1 h.order) ho
    unfold SortEntry.order at ho
    split at ho
    · cases ho
    · rename_i f hf
      cases ho
      exact .label (hfields f (Selection.mem_of_get? hf).1).label _

/-- The query of a plain model is read as a sentence. It is one of SQLite exactly if it has no offset or
also a limit. -/
theorem sentence_of_ofRequest (hl : Model.ofDocument types d = .ok m) (hp : m.IsPlain)
    (h : ofRequest m r = .ok q) :
    ∃ ls, lex? q.sql.toList = some ls ∧ Sentence LoosePageClause ls ∧
      (Sentence PageClause ls ↔ r.offset = none ∨ ∃ n, r.limit = some n ∧ 0 < n) := by
  obtain ⟨parts, hparts⟩ := ofRequest_ok h
  obtain ⟨ls, hspells, hsentence⟩ := (hparts.isNamed hl hp).spelled
  have hpage : q.statement.page = parts.page := by rw [hparts.query]
  obtain ⟨hoffset, hlimit⟩ := Page.ofRequest_ok hparts.page
  refine ⟨ls, ?_, hsentence.mono fun _ hpage => hpage ▸ Page.loose _, ?_⟩
  · rw [Query.sql, Select.sql, toList_render]
    exact hspells.lex?
  · rw [hsentence.strict_iff (Page.loose _), Page.strict_iff, hpage, hoffset, hlimit]

def writtenPosts : ModelDocument where
  collections := ⟨[
    ("author", {
      fields := ⟨[("name", .ofType "string")]⟩
      fieldSets := ⟨[]⟩
      computed := ⟨[]⟩
      searchPrefixes := ⟨[]⟩ }),
    ("post", {
      fields := ⟨[("author", .reference "author"), ("score", .ofType "float")]⟩
      fieldSets := ⟨[("identity", ["score"]), ("list", ["author.name", "score"])]⟩
      computed := ⟨[]⟩
      searchPrefixes := ⟨[]⟩ })]⟩
  templates := ⟨[]⟩
  hooks := []

def pagedRequest : Request :=
  (((((((Request.ofFieldSet "post" "list").withKey 3).withCondition "score" "IN"
    (.array [.int (-2), .null])).withCondition "author.name" "!=" .null).withTerm "*" "it's").sortedBy
    "score" (-1)).limitedTo 20).startingAt 40

def pagedSql : String :=
  "SELECT a1.name AS f0, p.score AS f1, p.id AS f2 FROM post p LEFT JOIN author a1 ON a1.id = p.author " ++
    "WHERE p.id = 3 AND p.score IN (-2.0, NULL) AND a1.name IS NOT NULL AND (a1.name LIKE '%it%') " ++
    "AND (a1.name LIKE '%s%') ORDER BY f1 DESC LIMIT 20 OFFSET 40"

instance (c : Collection) : Decidable c.IsPlain :=
  decidable_of_iff ((∀ name ∈ c.fields.keys, IsName name) ∧ c.computed.keys = [])
    ⟨fun h => ⟨h.1, h.2⟩, fun h => ⟨h.fields, h.computed⟩⟩

instance (m : Model) : Decidable m.IsPlain :=
  decidable_of_iff
    ((∀ name ∈ m.collections.keys, IsName name) ∧ ∀ entry ∈ m.collections.entries, entry.2.IsPlain)
    ⟨fun h => ⟨h.1, h.2⟩, fun h => ⟨h.names, h.collections⟩⟩

theorem sentence_paged : ∃ m q, Model.ofDocument .builtin writtenPosts = .ok m ∧ m.IsPlain ∧
    ofRequest m pagedRequest = .ok q ∧
    (∃ ls, lex? q.sql.toList = some ls ∧ Sentence LoosePageClause ls ∧
      (Sentence PageClause ls ↔ pagedRequest.offset = none ∨ ∃ n, pagedRequest.limit = some n ∧ 0 < n)) ∧
    q.sql = pagedSql := by
  obtain ⟨m, hl, h⟩ := exists_of_passes (show passes (fun m => decide m.IsPlain &&
      passes (fun q => q.sql = pagedSql) (ofRequest m pagedRequest))
    (Model.ofDocument .builtin writtenPosts) = true by decide +kernel)
  obtain ⟨hplain, h⟩ := Bool.and_eq_true_iff.1 h
  obtain ⟨q, hq, hsql⟩ := exists_of_passes h
  have hp := of_decide_eq_true hplain
  exact ⟨m, q, hl, hp, hq, sentence_of_ofRequest hl hp hq, of_decide_eq_true hsql⟩

/-- Without a limit, an offset is still written. -/
theorem not_sentence_offset : ∃ m q, Model.ofDocument .builtin namedPosts = .ok m ∧ m.IsPlain ∧
    ofRequest m ((Request.ofCollection "post").startingAt 5) = .ok q ∧
    q.sql = "SELECT p.name AS f0, p.id AS f1 FROM post p OFFSET 5" ∧
    ¬ ∃ ls, lex? q.sql.toList = some ls ∧ Sentence PageClause ls := by
  obtain ⟨m, hl, h⟩ := exists_of_passes (show passes (fun m => decide m.IsPlain &&
      passes (fun q => q.sql = "SELECT p.name AS f0, p.id AS f1 FROM post p OFFSET 5")
        (ofRequest m ((Request.ofCollection "post").startingAt 5)))
    (Model.ofDocument .builtin namedPosts) = true by decide +kernel)
  obtain ⟨hplain, h⟩ := Bool.and_eq_true_iff.1 h
  obtain ⟨q, hq, hsql⟩ := exists_of_passes h
  have hsql := of_decide_eq_true hsql
  refine ⟨m, q, hl, of_decide_eq_true hplain, hq, hsql, ?_⟩
  rintro ⟨ls, hlex, hsentence⟩
  have hwords : ∃ ls, lex? q.sql.toList = some ls ∧ .word "OFFSET" ∈ ls ∧ .word "LIMIT" ∉ ls := by
    rw [hsql]
    exact ⟨[.word "SELECT", .word "p", .symbol ".", .word "name", .word "AS", .word "f0", .symbol ",",
      .word "p", .symbol ".", .word "id", .word "AS", .word "f1", .word "FROM", .word "post", .word "p",
      .word "OFFSET", .number "5"], by decide +kernel⟩
  obtain ⟨_, hlex', hoffset, hlimit⟩ := hwords
  cases hlex.symm.trans hlex'
  exact hlimit (hsentence.limit_mem hoffset)

end Query

end Retrieval
