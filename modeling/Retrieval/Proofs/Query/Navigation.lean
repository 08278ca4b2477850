import Retrieval.Proofs.Query.Parts
import Retrieval.Proofs.Model.Loading
import Retrieval.Proofs.Sql.LeftJoin

namespace Retrieval

open Sql

variable {V : Type} [DecidableEq V]

def Model.referenced? (m : Model) (collection field : String) : Option String :=
  (m.collections.find? collection).bind fun c => (c.fields.find? field).bind (·.references)

/-- A record of a collection; none where a reference was null or had no record. -/
structure Place (V : Type) where
  collection : String
  record : Option (Record V)

namespace Place

def advance (m : Model) (db : Database V) (place : Place V) (hop : String) : Option (Place V) :=
  (m.referenced? place.collection hop).map fun target =>
    ⟨target, db.record? target (place.record.bind (· hop))⟩

def follow (m : Model) (db : Database V) (place : Place V) (hops : List String) : Option (Place V) :=
  hops.foldlM (advance m db) place

/-- The value that a path has, if it is a path of the model: null as soon as a reference is null or
dangling. -/
def value? (m : Model) (db : Database V) (place : Place V) (path : Path) : Option (Option V) :=
  (place.follow m db path.hops).map fun reached => reached.record.bind (· path.terminal)

theorem follow_append_singleton {m : Model} {db : Database V} {place current : Place V}
    {hops : List String} (h : place.follow m db hops = some current) (hop : String) :
    place.follow m db (hops ++ [hop]) = current.advance m db hop := by
  rw [follow] at h
  simp [follow, List.foldlM_append, h]

end Place

theorem Model.referenced?_of_target {types : FieldTypes} {d : ModelDocument} {m : Model}
    (hl : ofDocument types d = .ok m) {collection hop table : String}
    (h : JoinGraph.target m collection hop = .ok table) :
    m.referenced? collection hop = some table := by
  obtain ⟨c, field, name, c', hc, hf, hr, hc', rfl⟩ := JoinGraph.target_ok h
  rw [table_of_ofDocument hl hc', referenced?, collection_eq_ok.1 hc, Option.bind_some, hf,
    Option.bind_some, hr]

namespace JoinGraph

/-- A combined row has, under the alias of each table, the record that the hops to it lead to. -/
structure Tracks (m : Model) (db : Database V) (g : JoinGraph) (record : Record V) (row : Row V) :
    Prop where
  aliases : row.map (·.1) = (g.base :: g.tables).map (·.aliasName)
  places : ∀ hops table, DotFree hops → g.tableAt? hops = some table →
    ∃ place, Place.follow m db ⟨g.base.collection, some record⟩ hops = some place ∧
      place.collection = table.collection ∧ row.lookup table.aliasName = some place.record

def joinRecord (db : Database V) (collection aliasName source hop : String) (row : Row V) : Row V :=
  row ++ [(aliasName, db.record? collection ((row.lookup source).bind fun record => record.bind (· hop)))]

variable {m : Model} {db : Database V} {g : JoinGraph} {record : Record V} {row : Row V}

theorem tracks_new (base : String) :
    Tracks m db (.new base) record [((JoinGraph.new base).base.aliasName, some record)] := by
  constructor
  · rfl
  · intro hops table _ ht
    by_cases hnil : hops = []
    · subst hnil
      cases ht
      exact ⟨_, rfl, rfl, by simp⟩
    · simp [tableAt?, hnil, reached?, new] at ht

theorem Tracks.lookup_eq_none (h : Tracks m db g record row) {aliasName : String}
    (ha : aliasName ∉ (g.base :: g.tables).map (·.aliasName)) : row.lookup aliasName = none := by
  rw [← h.aliases] at ha
  rw [List.lookup_eq_none_iff]
  intro entry he
  rw [bne_iff_ne]
  intro heq
  exact ha (List.mem_map.2 ⟨entry, he, heq.symm⟩)

/-- A new table tracks what its last hop leads to, and changes nothing of the others. -/
theorem Tracks.addHop (h : Tracks m db g record row) {walked : List String} {current : QueryTable}
    {hop collection : String} (hd : DotFree (walked ++ [hop])) (hc : g.tableAt? walked = some current)
    (hn : g.tableAt? (walked ++ [hop]) = none)
    (ht : m.referenced? current.collection hop = some collection)
    (hnew : g.nextAlias collection ∉ (g.base :: g.tables).map (·.aliasName)) :
    Tracks m db (g.addHop walked current hop collection) record
      (joinRecord db collection (g.nextAlias collection) current.aliasName hop row) := by
  have hw : DotFree walked := fun name hmem => hd name (List.mem_append_left _ hmem)
  obtain ⟨place, hfollow, hcollection, hlookup⟩ := h.places walked current hw hc
  constructor
  · simp [joinRecord, h.aliases]
  · intro hops table hh hat
    rw [tableAt?_addHop hd hn hh] at hat
    by_cases he : hops = walked ++ [hop]
    · rw [if_pos he] at hat
      cases hat
      refine ⟨⟨collection, db.record? collection (place.record.bind (· hop))⟩, ?_, rfl, ?_⟩
      · rw [he, base_addHop, Place.follow_append_singleton hfollow, Place.advance, hcollection, ht]
        rfl
      · simp [joinRecord, List.lookup_append, h.lookup_eq_none hnew, hlookup]
    · rw [if_neg he] at hat
      obtain ⟨place', hfollow', hcollection', hlookup'⟩ := h.places hops table hh hat
      refine ⟨place', hfollow', hcollection', ?_⟩
      rw [joinRecord, List.lookup_append, hlookup']
      rfl

/-- The joins of a graph give one row for each record of the base table. -/
def Evaluates (m : Model) (db : Database V) (g : JoinGraph) : Prop :=
  ∃ row : Record V → Row V,
    combined? db g.source g.joins = some ((db.records g.base.collection).map row) ∧
      ∀ record ∈ db.records g.base.collection, Tracks m db g record (row record)

theorem evaluates_new (base : String) : Evaluates m db (.new base) := by
  refine ⟨fun record => [((JoinGraph.new base).base.aliasName, some record)], rfl, ?_⟩
  intro record _
  exact tracks_new base

theorem Evaluates.addHop (h : Evaluates m db g) (hdb : db.Keyed) {walked : List String}
    {current : QueryTable} {hop collection : String} (hd : DotFree (walked ++ [hop]))
    (hc : g.tableAt? walked = some current) (hn : g.tableAt? (walked ++ [hop]) = none)
    (ht : m.referenced? current.collection hop = some collection)
    (hnew : g.nextAlias collection ∉ (g.base :: g.tables).map (·.aliasName)) :
    Evaluates m db (g.addHop walked current hop collection) := by
  obtain ⟨row, hrows, htracks⟩ := h
  have hw : DotFree walked := fun name hmem => hd name (List.mem_append_left _ hmem)
  refine ⟨fun record =>
      joinRecord db collection (g.nextAlias collection) current.aliasName hop (row record),
    ?_, fun record hr => (htracks record hr).addHop hd hc hn ht hnew⟩
  have hsource : (g.addHop walked current hop collection).source = g.source := rfl
  rw [hsource, joins_addHop, combined?_append_singleton, hrows, Option.bind_some]
  apply joinRows?_map
  intro record hr
  obtain ⟨place, _, _, hlookup⟩ := (htracks record hr).places walked current hw hc
  rw [hdb.rows?_left ((htracks record hr).lookup_eq_none hnew) hlookup, joinRecord, hlookup]
  rfl

theorem Grows.evaluates {types : FieldTypes} {d : ModelDocument} (hl : Model.ofDocument types d = .ok m)
    (hdb : db.Keyed) {base : String} (h : Grows m (fun _ _ => False) (.new base) g) :
    Evaluates m db g := by
  induction h with
  | refl => exact evaluates_new base
  | tail hg hs ih =>
    cases hs with
    | hop hd hc hn ht =>
      exact ih.addHop hdb hd hc hn (Model.referenced?_of_target hl ht) (Grows.nextAlias_notMem hg _)
    | raw hr => exact hr.elim

end JoinGraph

/-- Each selected column has, in a combined row, the value that its path has for a record. -/
def Query.ShowsRecord (m : Model) (db : Database V) (collection : String) (q : Query) (record : Record V)
    (row : Row V) : Prop :=
  List.Forall₂ (fun item column => item.label = some column.label ∧ ∃ value,
    item.expr.value? row = some value ∧
      Place.value? m db ⟨collection, some record⟩ ⟨column.path⟩ = some value)
    q.statement.items q.columns

namespace Selection

variable {m : Model} {db : Database V} {g : JoinGraph} {members : List Member} {p : Selection}

theorem value?_of_shows {record : Record V} {row : Row V} (ht : g.Tracks m db record row) {path : Path}
    {f : SelectedField} (h : f.Shows m g (.plain path)) :
    ∃ value, f.item.expr.value? row = some value ∧
      Place.value? m db ⟨g.base.collection, some record⟩ ⟨f.path⟩ = some value := by
  cases h with
  | @plain _ column _ hat hf =>
    obtain ⟨place, hfollow, _, hlookup⟩ := ht.places _ _ path.dotFree_hops hat
    obtain ⟨_, hname, _⟩ := JoinGraph.fieldOf_ok hf
    refine ⟨place.record.bind (· path.terminal), ?_, ?_⟩
    · rw [← hname]
      change (row.lookup column.table.aliasName).map _ = _
      rw [hlookup]
      rfl
    · change (Place.follow m db _ path.hops).map _ = _
      rw [hfollow]
      rfl

end Selection

/-- With a field-set of plain paths, the joins of a query make one row of each record, and the columns
of that row have the values that the paths lead to. -/
theorem Query.rows_showRecord {types : FieldTypes} {d : ModelDocument} {m : Model} {r : Request}
    {c : Collection} {members : List Member} {q : Query} {db : Database V}
    (hl : Model.ofDocument types d = .ok m) (hc : m.collection r.collection = .ok c)
    (hm : c.fieldSet r.fieldSet = .ok members) (hplain : ∀ x ∈ members, ∃ path, x = .plain path)
    (h : ofRequest m r = .ok q) (hdb : db.Keyed) :
    (∀ x ∈ members, x.path ∈ q.columns.map (·.path)) ∧ ∃ rows, q.statement.rows? db = some rows ∧
      List.Forall₂ (fun record row => q.ShowsRecord m db c.table record row) (db.records c.table) rows := by
  obtain ⟨parts, hparts, rfl, rfl⟩ := ofRequest_members hc hm h
  have htable : parts.collection.table = parts.graph.base.collection := by
    rw [hparts.grows.base_eq]
    exact Model.table_of_ofDocument hl hc
  -- no join is written in the model, so the graph holds walked tables only
  have hgrows : JoinGraph.Grows m (fun _ _ => False) (.new r.collection) parts.graph := by
    apply hparts.grows.imp
    intro g sql hjoin
    obtain ⟨field, _, hfield, _⟩ := hjoin
    obtain ⟨path, hp⟩ := hplain _ hfield
    cases hp
  obtain ⟨row, hrows, htracks⟩ := hgrows.evaluates hl hdb
  rw [← htable] at hrows htracks
  constructor
  · intro x hx
    have hmem := Selection.mem_paths hparts.shows hx
    rw [hparts.query]
    simpa [Selection.paths, Selection.output, SelectedField.output] using hmem
  · refine ⟨(db.records parts.collection.table).map row, ?_, ?_⟩
    · rw [hparts.query]
      exact hrows
    · rw [List.forall₂_map_right_iff, List.forall₂_same]
      intro record hr
      rw [ShowsRecord, hparts.query]
      simp only [Selection.items, Selection.output, List.forall₂_map_left_iff, List.forall₂_map_right_iff,
        List.forall₂_same]
      intro f hf
      obtain ⟨x, hx, hshows⟩ := exists_mem_left hparts.shows hf
      obtain ⟨path, rfl⟩ := hplain x (Selection.mem_of_mem_firsts hx)
      refine ⟨rfl, ?_⟩
      rw [htable]
      exact Selection.value?_of_shows (htracks record hr) hshows

def blogRecords : Database Nat where
  records table :=
    if table = "post" then
      [(List.lookup · [("author", 21), ("editor", 22), ("id", 1), ("title", 90)]),
        (List.lookup · [("author", 23), ("id", 2), ("title", 91)])]
    else if table = "author" then
      [(List.lookup · [("id", 21), ("mentor", 22), ("name", 92)]),
        (List.lookup · [("id", 22), ("mentor", 22), ("name", 93)])]
    else []

theorem keyed_blogRecords : blogRecords.Keyed := by
  constructor
  · intro table
    unfold blogRecords
    dsimp only
    split
    · decide
    · split
      · decide
      · decide
  · intro table
    unfold blogRecords
    dsimp only
    split
    · decide
    · split
      · decide
      · decide

theorem rows_showRecord_blog : ∃ m c q rows, Model.ofDocument .builtin .blog = .ok m ∧
    m.collection "post" = .ok c ∧ Query.ofRequest m (.ofFieldSet "post" "card") = .ok q ∧
    "author.mentor.name" ∈ q.columns.map (·.path) ∧ q.statement.rows? blogRecords = some rows ∧
    List.Forall₂ (q.ShowsRecord m blogRecords c.table) (blogRecords.records c.table) rows := by
  obtain ⟨m, hl, h⟩ := exists_of_passes (show passes (fun m => passes (fun c =>
    passes (fun members => members.all (·.isPlain) &&
        members.any (·.path = "author.mentor.name") &&
        passes (fun _ => true) (Query.ofRequest m (.ofFieldSet "post" "card")))
      (c.fieldSet (some "card"))) (m.collection "post")) (Model.ofDocument .builtin .blog) = true by
        decide +kernel)
  obtain ⟨c, hc, h⟩ := exists_of_passes h
  obtain ⟨members, hm, h⟩ := exists_of_passes h
  obtain ⟨hx, hq⟩ := Bool.and_eq_true_iff.1 h
  obtain ⟨hplain, hmentor⟩ := Bool.and_eq_true_iff.1 hx
  obtain ⟨q, hq, _⟩ := exists_of_passes hq
  have hpaths : ∀ x ∈ members, ∃ path, x = .plain path := fun x hx =>
    Member.eq_plain (List.all_eq_true.1 hplain x hx)
  obtain ⟨hcolumns, rows, hrows, hshow⟩ := Query.rows_showRecord hl hc hm hpaths hq keyed_blogRecords
  obtain ⟨x, hx, hpath⟩ := List.any_eq_true.1 hmentor
  have hcolumn := hcolumns x hx
  rw [of_decide_eq_true hpath] at hcolumn
  exact ⟨m, c, q, rows, hl, hc, hq, hcolumn, hrows, hshow⟩

end Retrieval
