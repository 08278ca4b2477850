import Retrieval.Proofs.Model.Loading
import Retrieval.Proofs.Query.Filter

namespace Retrieval

def Sql.Expr.firstConjunct : Sql.Expr → Sql.Expr
  | .binary .and left _ => left.firstConjunct
  | e => e

/-- A query asks, before all else, for the key column of its own table to equal the literal of a
key. -/
def Query.AddressesKey (c : Collection) (pk : UInt64) (q : Query) : Prop :=
  ∃ aliasName e field l, q.statement.source = some ⟨c.table, some aliasName⟩ ∧
    q.statement.filter = some e ∧ c.fields.find? keyField = some field ∧
    field.literal (.int pk.toNat) = .ok l ∧
    e.firstConjunct = .binary .eq (.column (some aliasName) keyField) (.literal l)

theorem Sql.Expr.firstConjunct_foldl (e : Sql.Expr) (rest : List Sql.Expr) :
    (rest.foldl (.binary .and) e).firstConjunct = e.firstConjunct := by
  induction rest generalizing e with
  | nil => rfl
  | cons first rest ih => rw [List.foldl_cons, ih, firstConjunct]

namespace Selection

theorem get?_build {m : Model} {g : JoinGraph} {members : List Member} {p : Selection}
    (h : List.Forall₂ (fun x f => SelectedField.Shows m g x f) (firsts [] members) p.fields)
    {path : String} {f : SelectedField} (hf : p.get? path = some f) :
    ∃ x, members.find? (·.path == path) = some x ∧ f.Shows m g x := by
  rw [← find?_firsts (List.not_mem_nil (a := path)) members]
  rw [get?] at hf
  generalize firsts [] members = kept, p.fields = fields at h hf
  induction h with
  | nil => cases hf
  | @cons x f' kept fields hxf hrest ih =>
    have hp := hxf.path_eq
    rw [List.find?_cons] at hf ⊢
    rw [← hp]
    cases hb : f'.path == path with
    | true =>
      rw [hb] at hf
      cases hf
      exact ⟨x, rfl, hxf⟩
    | false =>
      rw [hb] at hf
      exact ih hf

end Selection

namespace Query

variable {m : Model} {r : Request} {q : Query} {pk : UInt64} {c : Collection} {members : List Member}

theorem firstConjunct_key (hc : m.collection r.collection = .ok c)
    (hm : c.fieldSet r.fieldSet = .ok members) (h : ofRequest m r = .ok q) (hpk : r.pk = some pk) :
    ∃ g x f e l, g.base = (JoinGraph.new r.collection).base ∧ q.statement.source = some g.source ∧
      members.find? (·.path == keyField) = some x ∧ SelectedField.Shows m g x f ∧
      f.field.literal (.int pk.toNat) = .ok l ∧ q.statement.filter = some e ∧
      e.firstConjunct = .binary .eq f.operand (.literal l) := by
  obtain ⟨parts, hparts, rfl, rfl⟩ := ofRequest_members hc hm h
  obtain ⟨key, conditions, searches, hmade, hpreds⟩ := Filter.predicates_made hparts.predicates
  have hkey := hmade.key
  rw [hpk] at hkey
  obtain ⟨f, l, hf, hl, rfl⟩ := hkey
  obtain ⟨x, hx, hshows⟩ := Selection.get?_build hparts.shows hf
  refine ⟨parts.graph, x, f,
    (conditions ++ searches.flatten).foldl (.binary .and) (.binary .eq f.operand (.literal l)), l,
    hparts.grows.base_eq, ?_, hx, hshows, hl, ?_, ?_⟩
  · rw [hparts.query]
  · rw [hparts.query, hpreds]
    rfl
  · rw [Sql.Expr.firstConjunct_foldl]
    rfl

theorem operand_key {g : JoinGraph} {path : Path} {f : SelectedField}
    (hpath : (Member.plain path).path = keyField) (h : f.Shows m g (.plain path)) :
    f.operand = .column (some g.base.aliasName) keyField ∧
      JoinGraph.fieldOf m g.base keyField = .ok ⟨g.base, keyField, f.field⟩ := by
  have hp : path = ⟨keyField⟩ := congrArg Path.mk hpath
  rw [hp] at h
  cases h with
  | @plain _ column _ ht hf =>
    obtain ⟨table, name, field⟩ := column
    have hhops : (Path.mk keyField).hops = [] := by decide +kernel
    have hterminal : (Path.mk keyField).terminal = keyField := by decide +kernel
    rw [hhops, JoinGraph.tableAt?_nil] at ht
    rw [hterminal] at hf
    cases ht
    obtain ⟨_, hn, _⟩ := JoinGraph.fieldOf_ok hf
    cases hn
    exact ⟨rfl, hf⟩

theorem plain_of_addressesKey (hc : m.collection r.collection = .ok c)
    (hm : c.fieldSet r.fieldSet = .ok members) (h : ofRequest m r = .ok q) (hpk : r.pk = some pk)
    (hk : q.AddressesKey c pk) : ∃ path, members.find? (·.path == keyField) = some (.plain path) := by
  obtain ⟨g, x, f, e, l, _, _, hx, hshows, _, hfilter, he⟩ := firstConjunct_key hc hm h hpk
  obtain ⟨aliasName, e', field, l', _, hfilter', _, _, he'⟩ := hk
  rw [hfilter] at hfilter'
  cases hfilter'
  rw [he] at he'
  cases hshows with
  | plain ht hf => exact ⟨_, hx⟩
  | computed hs => cases he'

/-- A query for one record addresses it by its key exactly if the first member of the field-set
with the key's path is a plain one. -/
theorem addressesKey_iff {types : FieldTypes} {d : ModelDocument} (hl : Model.ofDocument types d = .ok m)
    (hc : m.collection r.collection = .ok c) (hm : c.fieldSet r.fieldSet = .ok members)
    (h : ofRequest m r = .ok q) (hpk : r.pk = some pk) :
    q.AddressesKey c pk ↔ ∃ path, members.find? (·.path == keyField) = some (.plain path) := by
  constructor
  · exact plain_of_addressesKey hc hm h hpk
  · intro hp
    obtain ⟨path, hp⟩ := hp
    obtain ⟨g, x, f, e, l, hbase, hsource, hx, hshows, hlit, hfilter, he⟩ :=
      firstConjunct_key hc hm h hpk
    rw [hx] at hp
    cases hp
    have hpath := List.find?_some hx
    obtain ⟨ho, hf⟩ := operand_key (beq_iff_eq.1 hpath) hshows
    obtain ⟨_, _, c', hc', hfind⟩ := JoinGraph.fieldOf_ok hf
    have hcc : m.collection r.collection = .ok c' := by rwa [hbase] at hc'
    rw [hc] at hcc
    cases hcc
    refine ⟨g.base.aliasName, e, f.field, l, ?_, hfilter, hfind, hlit, ?_⟩
    · rw [hsource, JoinGraph.source, hbase, Model.table_of_ofDocument hl hc]
      rfl
    · rw [he, ho]

theorem addressesKey_blog : ∃ m c members q, Model.ofDocument .builtin .blog = .ok m ∧
    m.collection "post" = .ok c ∧ c.fieldSet (some "list") = .ok members ∧
    ofRequest m ((Request.ofFieldSet "post" "list").withKey 7) = .ok q ∧ q.AddressesKey c 7 := by
  obtain ⟨m, hl, h⟩ := exists_of_passes (show passes (fun m => passes (fun c =>
    passes (fun members =>
      (members.find? (·.path == keyField)).any (·.isPlain) &&
        passes (fun _ => true) (ofRequest m ((Request.ofFieldSet "post" "list").withKey 7)))
      (c.fieldSet (some "list"))) (m.collection "post")) (Model.ofDocument .builtin .blog) = true by
        decide +kernel)
  obtain ⟨c, hc, h⟩ := exists_of_passes h
  obtain ⟨members, hm, h⟩ := exists_of_passes h
  obtain ⟨hx, hq⟩ := Bool.and_eq_true_iff.1 h
  obtain ⟨q, hq, _⟩ := exists_of_passes hq
  have hp : ∃ path, members.find? (·.path == keyField) = some (.plain path) := by
    obtain ⟨x, hfind, hplain⟩ := (Option.any_eq_true _ _).1 hx
    obtain ⟨path, rfl⟩ := Member.eq_plain hplain
    exact ⟨path, hfind⟩
  exact ⟨m, c, members, q, hl, hc, hm, hq, (addressesKey_iff hl hc hm hq rfl).2 hp⟩

def shadowed : ModelDocument where
  collections := ⟨[("post", {
    fields := ⟨[("name", .ofType "string")]⟩
    fieldSets := ⟨[("card", ["badge"])]⟩
    computed := ⟨[("badge", ⟨"[name]", "string", some "id", none⟩)]⟩
    searchPrefixes := ⟨[]⟩ })]⟩
  templates := ⟨[]⟩
  hooks := []

/-- The badge stands where the key should, so a record is looked for by its name. -/
theorem not_addressesKey_shadowed : ∃ m c q, Model.ofDocument .builtin shadowed = .ok m ∧
    m.collection "post" = .ok c ∧
    ofRequest m ((Request.ofFieldSet "post" "card").withKey 1) = .ok q ∧ ¬ q.AddressesKey c 1 ∧
    q.sql = "SELECT p.name AS f0 FROM post p WHERE (p.name) = '1'" := by
  obtain ⟨m, hl, h⟩ := exists_of_passes (show passes (fun m => passes (fun c =>
    passes (fun members =>
      (members.find? (·.path == keyField)).any (!·.isPlain) &&
        passes (fun q => q.sql = "SELECT p.name AS f0 FROM post p WHERE (p.name) = '1'")
          (ofRequest m ((Request.ofFieldSet "post" "card").withKey 1)))
      (c.fieldSet (some "card"))) (m.collection "post")) (Model.ofDocument .builtin shadowed) = true by
        decide +kernel)
  obtain ⟨c, hc, h⟩ := exists_of_passes h
  obtain ⟨members, hm, h⟩ := exists_of_passes h
  obtain ⟨hx, hq⟩ := Bool.and_eq_true_iff.1 h
  obtain ⟨q, hq, hsql⟩ := exists_of_passes hq
  refine ⟨m, c, q, hl, hc, hq, ?_, of_decide_eq_true hsql⟩
  intro hk
  obtain ⟨path, hp⟩ := plain_of_addressesKey hc hm hq rfl hk
  rw [hp] at hx
  cases hx

end Query

end Retrieval
