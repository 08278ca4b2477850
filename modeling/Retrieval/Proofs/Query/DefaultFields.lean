import Retrieval.Proofs.Model.Loading
import Retrieval.Proofs.Query.Scope

namespace Retrieval

/-- A query reads fields of a collection, and its key, each once and out of the column of its name, and joins
nothing. -/
structure Query.ReadsFields (q : Query) (collection : String) (fields : List String) : Prop where
  joins : q.statement.joins = []
  items : ∃ aliasName, q.statement.source = some ⟨collection, some aliasName⟩ ∧
    List.Forall₂ (fun item column => item = ⟨.column (some aliasName) column.path, some column.label⟩)
      q.statement.items q.columns
  nodup : (q.columns.map (·.path)).Nodup
  mem_iff : ∀ path, path ∈ q.columns.map (·.path) ↔ path ∈ fields ∨ path = keyField

theorem Load.mem_withKeyMember {names : List String} {name : String} :
    name ∈ withKeyMember names ↔ name ∈ names ∨ name = keyField := by
  unfold withKeyMember
  split
  · rename_i hkey
    exact ⟨.inl, fun h => h.elim id fun he => he ▸ hkey⟩
  · rw [List.mem_append, List.mem_singleton]

theorem Load.contains_withKey_of_mem {fields : Dict Field} {name : String}
    (h : name ∈ withKeyMember fields.keys) : (withKey fields).contains name = true := by
  obtain hname | rfl := mem_withKeyMember.1 h
  · rw [← Dict.contains_iff_mem_keys] at hname
    unfold withKey
    split
    · exact hname
    · rw [Dict.contains_iff_mem_keys, Dict.mem_keys_insert]
      exact .inr (Dict.contains_iff_mem_keys.1 hname)
  · exact contains_withKey fields

def Member.ofNames (names : List String) : List Member :=
  names.map fun name => .plain ⟨name⟩

theorem Model.default_of_ofDocument {types : FieldTypes} {d : ModelDocument} {m : Model} {name : String}
    {cd : CollectionDocument} (hl : ofDocument types d = .ok m) (hd : d.collections.find? name = some cd)
    (hcomputed : cd.computed.entries = []) (hdefault : cd.fieldSets.find? defaultFieldSet = none) :
    ∃ c, m.collection name = .ok c ∧
      c.fieldSet none = .ok (Member.ofNames (Load.withKeyMember cd.fields.keys)) ∧
      ∀ field ∈ Load.withKeyMember cd.fields.keys, c.fields.contains field = true := by
  have hnames : name ∈ m.collections.keys := by
    rw [keys_of_ofDocument hl]
    exact Dict.mem_keys_of_mem (Dict.mem_of_find? hd)
  obtain ⟨c, hc⟩ := Option.isSome_iff_exists.1 (Dict.contains_iff_mem_keys.2 hnames)
  rw [← collection_eq_ok] at hc
  obtain ⟨cd', bare, hooks, hcd', hb, rfl⟩ := collection_of_ofDocument hl hc
  rw [hd, Option.some.injEq] at hcd'
  subst hcd'
  obtain ⟨fields, computed, names, hfields, hcs, hn, rfl⟩ := Load.collection_ok hb
  have hnone : computed.entries = [] := by
    have hkeys := Dict.keys_of_mapM hcs
    simpa [Dict.keys, hcomputed] using hkeys
  refine ⟨_, hc, ?members, ?fields⟩
  case members =>
    rw [fieldSet_eq_ok, Option.getD_none, Dict.find?_map, Load.find?_fieldSetNames hn,
      CollectionDocument.memberNames?, hdefault]
    refine congrArg some (List.map_congr_left fun field _ => ?_)
    simp [Load.member, Dict.find?, hnone]
  case fields =>
    rw [← Dict.keys_of_mapM hfields]
    exact fun field hfield => Load.contains_withKey_of_mem hfield

theorem JoinGraph.columnAt_hopless {m : Model} {g : JoinGraph} {path : Path} (h : path.hops = []) :
    g.columnAt m path = (g, fieldOf m g.base path.terminal) := by
  rw [columnAt, reach, h]
  rfl

theorem Selection.extend_hopless {m : Model} {g : JoinGraph} {members : List Member} (p : Selection)
    (h : ∀ x ∈ members, ∃ path column, x = .plain path ∧ path.hops = [] ∧
      JoinGraph.fieldOf m g.base path.terminal = .ok column) :
    ∃ p', extend m g p members = (g, .ok p') := by
  induction members generalizing p with
  | nil => exact ⟨p, rfl⟩
  | cons x rest ih =>
    rw [List.forall_mem_cons] at h
    obtain ⟨⟨path, column, rfl, hhops, hcolumn⟩, hrest⟩ := h
    rw [extend]
    split
    · exact ih p hrest
    · simp only [member, plain, JoinGraph.columnAt_hopless hhops, hcolumn, Except.map]
      exact ih _ hrest

namespace Query

variable {m : Model} {r : Request} {q : Query} {parts : Parts} {names : List String}

theorem Parts.Make.column_of_names (h : parts.Make m r q) (hnames : parts.members = Member.ofNames names)
    {f : SelectedField} (hf : f ∈ parts.selection.fields) :
    ∃ table, parts.graph.tableAt? (Path.mk f.path).hops = some table ∧
      f.column = .column (some table.aliasName) (Path.mk f.path).terminal := by
  obtain ⟨x, hx, hshows⟩ := exists_mem_left h.shows hf
  have hmem := Selection.mem_of_mem_firsts hx
  rw [hnames, Member.ofNames, List.mem_map] at hmem
  obtain ⟨name, _, rfl⟩ := hmem
  cases hshows with
  | plain ht hcolumn =>
    refine ⟨_, ht, ?_⟩
    rw [← (JoinGraph.fieldOf_ok hcolumn).2.1]
    rfl

theorem Parts.Make.mem_paths_iff (h : parts.Make m r q) (hnames : parts.members = Member.ofNames names)
    (path : String) : path ∈ q.columns.map (·.path) ↔ path ∈ names := by
  rw [h.columns_paths, ← Selection.isSome_get?_iff, h.isSome_get?_iff, hnames, Member.ofNames, List.map_map]
  simp [Member.path]

theorem Parts.Make.items_iff (h : parts.Make m r q) (aliasName : String) :
    List.Forall₂ (fun item column => item = ⟨.column (some aliasName) column.path, some column.label⟩)
        q.statement.items q.columns ↔
      ∀ f ∈ parts.selection.fields, f.column = .column (some aliasName) f.path := by
  rw [h.query]
  simp only [Selection.items, Selection.output, List.forall₂_map_left_iff, List.forall₂_map_right_iff,
    List.forall₂_same]
  simp [SelectedField.item, SelectedField.output]

theorem exists_of_dotFree {name : String} {c : Collection} (hc : m.collection name = .ok c)
    (hm : c.fieldSet none = .ok (Member.ofNames names))
    (hfields : ∀ field ∈ names, c.fields.contains field = true) (hdots : DotFree names) :
    ∃ q parts, Parts.Make m (.ofCollection name) parts q ∧ parts.graph = .new name ∧
      parts.members = Member.ofNames names := by
  have hbuild : ∃ p, Selection.build m (.new name) (Member.ofNames names) = (.new name, .ok p) := by
    apply Selection.extend_hopless
    intro x hx
    obtain ⟨field, hfield, rfl⟩ := List.mem_map.1 hx
    have hdot : '.' ∉ (Path.mk field).text.toList := hdots field hfield
    obtain ⟨f, hf⟩ := Option.isSome_iff_exists.1 (hfields field hfield)
    refine ⟨⟨field⟩, ⟨(JoinGraph.new name).base, field, f⟩, rfl, Path.hops_eq_nil hdot, ?_⟩
    rw [Path.terminal_eq_text hdot, JoinGraph.fieldOf, JoinGraph.new, hc]
    simp [hf]
  obtain ⟨p, hp⟩ := hbuild
  exact ⟨_, ⟨c, Member.ofNames names, .new name, p, [], [], ⟨none, none⟩⟩,
    ⟨hc, hm, hp, rfl, rfl, rfl, rfl⟩, rfl, rfl⟩

/-- A request for nothing but a collection, which declares neither a default field-set nor computed fields,
reads all fields of the collection exactly if their names have no dots. -/
theorem readsFields_iff {types : FieldTypes} {d : ModelDocument} {name : String} {cd : CollectionDocument}
    (hl : Model.ofDocument types d = .ok m) (hd : d.collections.find? name = some cd)
    (hcomputed : cd.computed.entries = []) (hdefault : cd.fieldSets.find? defaultFieldSet = none) :
    (∃ q, ofRequest m (.ofCollection name) = .ok q ∧ q.ReadsFields name cd.fields.keys) ↔
      ∀ field ∈ cd.fields.keys, '.' ∉ field.toList := by
  obtain ⟨c, hc, hm, hfields⟩ := Model.default_of_ofDocument hl hd hcomputed hdefault
  constructor
  · rintro ⟨q, hq, hreads⟩ field hfield hdot
    obtain ⟨parts, hparts, _, hmembers⟩ := ofRequest_members hc hm hq
    obtain ⟨aliasName, _, hitems⟩ := hreads.items
    have hpath : field ∈ q.columns.map (·.path) := (hreads.mem_iff field).2 (.inl hfield)
    rw [hparts.columns_paths, Selection.paths, List.mem_map] at hpath
    obtain ⟨f, hf, rfl⟩ := hpath
    obtain ⟨table, _, hcolumn⟩ := hparts.column_of_names hmembers hf
    rw [(hparts.items_iff aliasName).1 hitems f hf, Sql.Expr.column.injEq] at hcolumn
    -- the name that is read is the end of a path, and so it has no dot
    apply (Path.mk f.path).notMem_terminal
    rw [← hcolumn.2]
    exact hdot
  · intro hdots
    have hdotFree : DotFree (Load.withKeyMember cd.fields.keys) := by
      intro field hfield
      obtain hdeclared | rfl := Load.mem_withKeyMember.1 hfield
      · exact hdots field hdeclared
      · decide
    obtain ⟨q, parts, hparts, hgraph, hmembers⟩ := exists_of_dotFree hc hm hfields hdotFree
    refine ⟨q, hparts.ofRequest_eq_ok, ?joins, ⟨(JoinGraph.new name).base.aliasName, ?source, ?items⟩, ?nodup,
      ?mem_iff⟩
    case joins =>
      rw [hparts.query, hgraph]
      rfl
    case source =>
      rw [hparts.query, hgraph]
      rfl
    case items =>
      rw [hparts.items_iff]
      intro f hf
      obtain ⟨table, htable, hcolumn⟩ := hparts.column_of_names hmembers hf
      have hdot : '.' ∉ (Path.mk f.path).text.toList := by
        apply hdotFree
        rw [← hparts.mem_paths_iff hmembers, hparts.columns_paths]
        exact List.mem_map_of_mem hf
      rw [Path.hops_eq_nil hdot, JoinGraph.tableAt?_nil, Option.some.injEq, hgraph] at htable
      rw [hcolumn, ← htable, Path.terminal_eq_text hdot]
    case nodup =>
      rw [hparts.columns_paths]
      exact hparts.nodup_paths
    case mem_iff =>
      intro path
      rw [hparts.mem_paths_iff hmembers, Load.mem_withKeyMember]

theorem readsFields_author : ∃ m q, Model.ofDocument .builtin .blog = .ok m ∧
    ofRequest m (.ofCollection "author") = .ok q ∧ q.ReadsFields "author" ["mentor", "name"] := by
  obtain ⟨m, hl, _⟩ := exists_of_passes (p := fun _ => true)
    (show passes _ (Model.ofDocument .builtin .blog) = true by decide +kernel)
  have hd : ModelDocument.blog.collections.find? "author" = some _ := rfl
  obtain ⟨q, hq, hreads⟩ := (readsFields_iff hl hd rfl rfl).2 (by decide)
  exact ⟨m, q, hl, hq, hreads⟩

def dottedPosts : ModelDocument where
  collections := ⟨[
    ("author", {
      fields := ⟨[("name", .ofType "string")]⟩
      fieldSets := ⟨[]⟩
      computed := ⟨[]⟩
      searchPrefixes := ⟨[]⟩ }),
    ("page", {
      fields := ⟨[("meta.title", .ofType "string"), ("name", .ofType "string")]⟩
      fieldSets := ⟨[]⟩
      computed := ⟨[]⟩
      searchPrefixes := ⟨[]⟩ }),
    ("post", {
      fields := ⟨[("author", .reference "author"), ("author.name", .ofType "string"), ("name", .ofType "string")]⟩
      fieldSets := ⟨[]⟩
      computed := ⟨[]⟩
      searchPrefixes := ⟨[]⟩ })]⟩
  templates := ⟨[]⟩
  hooks := []

/-- A name with a dot is taken for a path, which leads nowhere or else into another table. -/
theorem not_readsFields_dotted : ∃ m e q, Model.ofDocument .builtin dottedPosts = .ok m ∧
    ofRequest m (.ofCollection "page") = .error e ∧
    e.message = "resolving page.meta.title: Collection page has no field 'meta'" ∧
    ofRequest m (.ofCollection "post") = .ok q ∧ ¬ q.ReadsFields "post" ["author", "author.name", "name"] ∧
    q.sql = "SELECT p.author AS f0, a1.name AS f1, p.name AS f2, p.id AS f3 FROM post p " ++
      "LEFT JOIN author a1 ON a1.id = p.author" := by
  obtain ⟨m, hl, h⟩ := exists_of_passes (show passes (fun m =>
      fails (·.message = "resolving page.meta.title: Collection page has no field 'meta'")
        (ofRequest m (.ofCollection "page")) &&
      passes (fun q => !q.statement.joins.isEmpty &&
          q.sql = "SELECT p.author AS f0, a1.name AS f1, p.name AS f2, p.id AS f3 FROM post p " ++
            "LEFT JOIN author a1 ON a1.id = p.author") (ofRequest m (.ofCollection "post")))
    (Model.ofDocument .builtin dottedPosts) = true by decide +kernel)
  obtain ⟨hpage, hpost⟩ := Bool.and_eq_true_iff.1 h
  obtain ⟨e, he, hmessage⟩ := exists_of_fails hpage
  obtain ⟨q, hq, hsql⟩ := exists_of_passes hpost
  simp only [Bool.and_eq_true, decide_eq_true_eq, Bool.not_eq_true'] at hsql
  refine ⟨m, e, q, hl, he, of_decide_eq_true hmessage, hq, fun hreads => ?_, hsql.2⟩
  rw [hreads.joins] at hsql
  cases hsql.1

end Query

end Retrieval
