import Retrieval.Model.Load
import Retrieval.Proofs.Dict
import Retrieval.Proofs.Text.Positional
import Retrieval.Proofs.Text.Substitution

namespace Retrieval

/-- The member names that a field-set of a collection is written with: its own, or the ones that
stand in for a default or an identity field-set that is not declared. -/
def CollectionDocument.memberNames? (d : CollectionDocument) (set : String) : Option (List String) :=
  match d.fieldSets.find? set with
  | some names => some names
  | none =>
    if set = "default" then some d.fields.keys
    else if set = "identity" then some ["name"]
    else none

def FieldDefinition.ofType (tag : String) : FieldDefinition :=
  ⟨[("type", .string tag)]⟩

def FieldDefinition.reference (collection : String) : FieldDefinition :=
  ⟨[("collection", .string collection), ("type", .string "ref")]⟩

/-- Posts and their authors: a document with one of everything. -/
def ModelDocument.blog : ModelDocument where
  collections := ⟨[
    ("author", {
      fields := ⟨[("mentor", .reference "author"), ("name", .ofType "string")]⟩
      fieldSets := ⟨[("short", ["id", "name"])]⟩
      computed := ⟨[]⟩
      searchPrefixes := ⟨[]⟩ }),
    ("post", {
      fields := ⟨[("author", .reference "author"), ("editor", .reference "author"),
        ("title", .ofType "string")]⟩
      fieldSets := ⟨[("card", ["title", "author.name", "editor.name", "author.mentor.name"]),
        ("identity", ["title"]), ("list", ["shout", "author.name"])]⟩
      computed := ⟨[("shout", ⟨"upper([title])", "string", none,
        some "JOIN tag t ON t.kind = 'post' AND t.owner = [post].id"⟩)]⟩
      searchPrefixes := ⟨[("by", "author.name")]⟩ })]⟩
  templates := ⟨[("written", ⟨"SELECT '?' FROM post WHERE author = ?", [.ofType "id"], ⟨[]⟩⟩)]⟩
  hooks := [
    ⟨"post", "title", "changed", none, some ⟨"editor", "changed"⟩, none⟩,
    ⟨"tag", "name", "changed", some ⟨[("name", .null)]⟩, none, none⟩,
    ⟨"post", "author", "changed", none, none,
      some ⟨"UPDATE author SET posts = posts + 1 WHERE id = ?",
        [⟨[("field", .string "author"), ("type", .string "id")]⟩], ⟨[]⟩⟩⟩]

/-- The definition of a reference to a collection. -/
def FieldDefinition.Refers (types : FieldTypes) (d : FieldDefinition) (target : String) : Prop :=
  ∃ tag, d.find? "type" = some (.string tag) ∧ types.find? tag = some .ref ∧
    d.find? "collection" = some (.string target)

structure FieldDefinition.Describes (types : FieldTypes) (d : FieldDefinition) (p : Parameter) : Prop where
  field : types.ofDefinition d = .ok p.field
  bind : ∀ name, p.bind = some name ↔ d.find? "field" = some (.string name)

/-- A query template is as its document has it, and has as many question marks outside of quotes as
parameters. -/
structure TemplateDocument.Describes (types : FieldTypes) (name : String) (d : TemplateDocument)
    (q : QueryTemplate) : Prop where
  named : q.name = name
  template : q.template = d.query
  parameters : List.Forall₂ (FieldDefinition.Describes types) d.parameters q.parameters
  columns : d.columns.Matches (fun _ definition field => types.ofDefinition definition = .ok field) q.columns
  questionMarks : Positional.questionMarks q.template = q.parameters.length

/-- What a hook does if its document says exactly one thing. -/
inductive HookDocument.Acts (types : FieldTypes) (d : HookDocument) : Hook.Action → Prop where
  | set {assignments : Dict Json} (h : d.set = some assignments) (hemail : d.email = none)
    (hraw : d.raw = none) : Acts types d (.set assignments)
  | email {email : EmailDocument} (h : d.email = some email) (hset : d.set = none)
    (hraw : d.raw = none) : Acts types d (.email email.recipient email.template)
  | query {raw : TemplateDocument} {q : QueryTemplate} (h : d.raw = some raw) (hset : d.set = none)
    (hemail : d.email = none) (hq : raw.Describes types ("hook " ++ d.collection ++ "." ++ d.field) q) :
    Acts types d (.query q)

/-- A hook does what its document says, on the event that the document says. -/
structure HookDocument.Describes (types : FieldTypes) (d : HookDocument) (h : Hook) : Prop where
  collection : h.collection = d.collection
  field : h.field = d.field
  event : h.event = d.event
  action : d.Acts types h.action

def Collection.attach (hooks : List Hook) (name : String) (c : Collection) : Collection :=
  { c with hooks := c.hooks ++ hooks.filter (·.collection == name) }

def Model.withHooks (m : Model) (hooks : List Hook) : Model :=
  { m with
    collections := m.collections.map (Collection.attach hooks)
    warnings := m.warnings ++
      (hooks.filter (!m.collections.contains ·.collection)).map (.unknownCollection ·.collection) }

namespace Load

variable {types : FieldTypes}

theorem locate_eq_ok {α : Type} {path : String} {x : Except Field.Error α} {a : α} :
    locate path x = .ok a ↔ x = .ok a := by
  cases x <;> simp [locate]

theorem string?_ok {d : FieldDefinition} {param : String} {found : Option String}
    (h : d.string? param = .ok found) (s : String) :
    found = some s ↔ d.find? param = some (.string s) := by
  unfold FieldDefinition.string? at h
  cases hd : d.find? param with
  | none =>
    rw [hd] at h
    cases h
    simp
  | some value =>
    rw [hd] at h
    cases value <;> cases h <;> simp

theorem parameters_describe {name : String} {index : Nat} {ds : List FieldDefinition} {ps : List Parameter}
    (h : parameters types name index ds = .ok ps) :
    List.Forall₂ (FieldDefinition.Describes types) ds ps := by
  induction ds generalizing index ps with
  | nil =>
    cases h
    exact .nil
  | cons d ds ih =>
    simp only [parameters, parameter, bind_eq_ok, locate_eq_ok] at h
    obtain ⟨p, ⟨field, hfield, bind, hbind, hp⟩, ps, hps, h⟩ := h
    cases hp
    cases h
    exact .cons ⟨hfield, string?_ok hbind⟩ (ih hps)

theorem template_describes {name : String} {d : TemplateDocument} {q : QueryTemplate}
    (h : template types name d = .ok q) : d.Describes types name q := by
  simp only [template, bind_eq_ok] at h
  obtain ⟨parameters, hparameters, columns, hcolumns, h⟩ := h
  split at h
  · cases h
  · rename_i hn
    cases h
    refine ⟨rfl, rfl, parameters_describe hparameters, ?_, ?_⟩
    · exact (Dict.mapM_eq_ok.1 hcolumns).imp fun _ _ _ => locate_eq_ok.1
    · rw [← Positional.count_eq_questionMarks]
      exact not_not.1 hn

theorem hookAction_acts {d : HookDocument} {action : Hook.Action} (h : hookAction types d = .ok action) :
    d.Acts types action := by
  unfold hookAction at h
  split at h
  · rename_i hset hemail hraw
    cases h
    exact .set hset hemail hraw
  · rename_i hset hemail hraw
    cases h
    exact .email hemail hset hraw
  · rename_i hset hemail hraw
    obtain ⟨q, hq, rfl⟩ := map_eq_ok.1 h
    exact .query hraw hset hemail (template_describes hq)
  · cases h

theorem build_eq_ref_iff {kind : FieldKind} {d : FieldDefinition} {field : Field}
    (h : kind.build d = .ok field) (target : String) :
    field = .ref target ↔ kind = .ref ∧ d.find? "collection" = some (.string target) := by
  cases kind with
  | ref =>
    simp only [FieldKind.build, bind_eq_ok, Except.ok.injEq] at h
    obtain ⟨found, hfound, collection, hcollection, rfl⟩ := h
    cases found with
    | none => cases hcollection
    | some name =>
      cases hcollection
      rw [← string?_ok hfound]
      simp
  | string | text =>
    simp only [FieldKind.build, bind_eq_ok, Except.ok.injEq] at h
    obtain ⟨_, _, rfl⟩ := h
    simp
  | enum =>
    simp only [FieldKind.build, bind_eq_ok, Except.ok.injEq] at h
    obtain ⟨_, _, _, _, rfl⟩ := h
    simp
  | int | id | float | bool | date =>
    cases h
    simp

/-- The fields that refer to a collection are those that are defined to. -/
theorem eq_ref_iff {d : FieldDefinition} {field : Field} (h : types.ofDefinition d = .ok field)
    (target : String) : field = .ref target ↔ d.Refers types target := by
  obtain ⟨found, hfound, h⟩ := bind_eq_ok.1 h
  cases found with
  | none => cases h
  | some tag =>
    have htype := (string?_ok hfound tag).1 rfl
    dsimp only [FieldTypes.ofTag] at h
    split at h
    · rename_i kind hkind
      rw [build_eq_ref_iff h, FieldDefinition.Refers, htype]
      simp [hkind]
    · cases h

theorem collection_ok {name : String} {d : CollectionDocument} {c : Collection}
    (h : collection types name d = .ok c) :
    ∃ fields computed names,
      (d.fields.mapM fun key definition =>
        locate (name ++ "." ++ key) (types.ofDefinition definition)) = .ok fields ∧
      d.computed.mapM (computedField types name) = .ok computed ∧
      fieldSetNames name d = .ok names ∧
      c = { table := name
            fields := withKey fields
            fieldSets := names.map fun _ members => (withKeyMember members).map (member computed)
            computed := computed
            hooks := []
            searchPrefixes := d.searchPrefixes } := by
  simp only [collection, bind_eq_ok, Except.ok.injEq] at h
  obtain ⟨fields, hf, computed, hc, names, hn, rfl⟩ := h
  exact ⟨fields, computed, names, hf, hc, hn, rfl⟩

theorem hooks_of_collection {name : String} {d : CollectionDocument} {c : Collection}
    (h : collection types name d = .ok c) : c.hooks = [] := by
  obtain ⟨_, _, _, _, _, _, rfl⟩ := collection_ok h
  rfl

theorem find?_orInsert {α : Type} (d : Dict α) (key : String) (value : α) (k : String) :
    (if d.contains key then d else d.insert key value).find? k =
      (d.find? k).or (if k = key then some value else none) := by
  by_cases hk : k = key
  · subst hk
    cases h : d.find? k <;> simp [Dict.contains, h]
  · split <;> simp [hk]

theorem contains_withKey (fields : Dict Field) : (withKey fields).contains keyField = true := by
  rw [Dict.contains, withKey, find?_orInsert, if_pos rfl, Option.isSome_or, Option.isSome_some, Bool.or_true]

theorem find?_fieldSetNames {name : String} {d : CollectionDocument} {sets : Dict (List String)}
    (h : fieldSetNames name d = .ok sets) (set : String) : sets.find? set = d.memberNames? set := by
  have hd := find?_orInsert d.fieldSets defaultFieldSet d.fields.keys
  simp only [fieldSetNames] at h
  generalize (if d.fieldSets.contains defaultFieldSet then d.fieldSets
    else d.fieldSets.insert defaultFieldSet d.fields.keys) = found at h hd
  have hi : sets.find? set =
      (found.find? set).or (if set = identityFieldSet then some ["name"] else none) := by
    rw [← find?_orInsert]
    split at h
    · rename_i hc
      cases h
      rw [if_pos hc]
    · rename_i hc
      split at h
      · cases h
        rw [if_neg hc]
      · cases h
  rw [hi, hd, CollectionDocument.memberNames?, defaultFieldSet, identityFieldSet]
  cases d.fieldSets.find? set with
  | some names => rfl
  | none =>
    by_cases hs : set = "default"
    · simp [hs]
    · simp [hs]

theorem checkReference_ok {collections : Dict Collection} {path target : String}
    (h : checkReference collections path (.ref target) = .ok ()) : collections.contains target = true := by
  simp only [checkReference, Field.references] at h
  split at h
  · assumption
  · cases h

theorem checkJoin_ok {collections : Dict Collection} {path join token : String}
    (h : checkJoin collections path (some join) = .ok ()) (ht : token ∈ Placeholder.names join) :
    collections.contains token = true := by
  simp only [checkJoin] at h
  split at h
  · rename_i hn
    simpa using List.find?_eq_none.1 hn token ht
  · cases h

theorem checkCollections_ok {collections : Dict Collection}
    (h : checkCollections collections = .ok ()) {e : String × Collection}
    (he : e ∈ collections.entries) :
    (∀ key target, (key, .ref target) ∈ e.2.fields.entries → collections.contains target = true) ∧
    (∀ f ∈ e.2.computed.entries, ∀ join, f.2.join = some join →
      ∀ token ∈ Placeholder.names join, collections.contains token = true) := by
  have hc := forM_eq_ok.1 h e he
  simp only [checkCollection, bind_eq_ok, forM_eq_ok] at hc
  obtain ⟨_, hr, hj⟩ := hc
  constructor
  · intro key target hf
    exact checkReference_ok (hr (key, .ref target) hf)
  · intro f hf join hjoin token ht
    have hcheck := hj f hf
    rw [hjoin] at hcheck
    exact checkJoin_ok hcheck ht

theorem checkBindings_ok {c : Collection} {hook : Hook} (h : checkBindings c hook = .ok ())
    {q : QueryTemplate} (hq : hook.action = .query q) {p : Parameter} (hp : p ∈ q.parameters)
    {field : String} (hb : p.bind = some field) : c.fields.contains field = true := by
  simp only [checkBindings, hq] at h
  split at h
  · rename_i hn
    simpa using List.find?_eq_none.1 hn field (List.mem_filterMap.2 ⟨p, hp, hb⟩)
  · cases h

end Load

namespace Collection

theorem attach_nil (name : String) (c : Collection) : attach [] name c = c := by
  simp [attach]

theorem attach_singleton (hook : Hook) (name : String) (c : Collection) :
    attach [hook] name c =
      if name = hook.collection then { c with hooks := c.hooks ++ [hook] } else c := by
  by_cases h : name = hook.collection
  · simp [attach, h]
  · simp [attach, h, Ne.symm h]

theorem attach_append (hooks more : List Hook) :
    attach (hooks ++ more) = fun name c => attach more name (attach hooks name c) := by
  funext name c
  simp [attach]

end Collection

namespace Model

theorem withHooks_nil (m : Model) : m.withHooks [] = m := by
  simp [withHooks, Dict.map_eq_self, Collection.attach_nil]

theorem withHooks_withHooks (m : Model) (hooks more : List Hook) :
    (m.withHooks hooks).withHooks more = m.withHooks (hooks ++ more) := by
  simp [withHooks, Collection.attach_append, Dict.map_map, Dict.contains]

end Model

namespace Load

variable {types : FieldTypes}

/-- Attaching a hook changes nothing that the check of its bindings reads. -/
theorem checkBindings_attach (hooks : List Hook) (name : String) (c : Collection) (hook : Hook) :
    checkBindings (c.attach hooks name) hook = checkBindings c hook := rfl

theorem addHook_ok {m m' : Model} {d : HookDocument} (h : addHook types m d = .ok m') :
    ∃ hook, d.Describes types hook ∧ m' = m.withHooks [hook] ∧
      ∀ c, m.collections.find? hook.collection = some c → checkBindings c hook = .ok () := by
  simp only [addHook, bind_eq_ok] at h
  obtain ⟨action, ha, h⟩ := h
  refine ⟨⟨d.collection, d.field, d.event, action⟩, ⟨rfl, rfl, rfl, hookAction_acts ha⟩, ?_⟩
  split at h
  · rename_i hn
    cases h
    have hm : m.collections.contains d.collection = false := by simp [Dict.contains, hn]
    constructor
    · have hc : m.collections.map (Collection.attach [⟨d.collection, d.field, d.event, action⟩]) =
          m.collections := by
        apply Dict.map_eq_self
        intro e he
        have hk : e.1 ≠ d.collection := by
          intro hk
          rw [← hk, Dict.contains_iff_mem_keys.2 (Dict.mem_keys_of_mem he)] at hm
          cases hm
        rw [Collection.attach_singleton, if_neg hk]
      simp [Model.withHooks, hc, hm]
    · intro c hc
      rw [hn] at hc
      cases hc
  · rename_i c hc
    obtain ⟨_, hb, h⟩ := bind_eq_ok.1 h
    cases h
    have hm : m.collections.contains d.collection = true := by simp [Dict.contains, hc]
    constructor
    · have hf : Collection.attach [⟨d.collection, d.field, d.event, action⟩] = fun name c =>
          if name = d.collection then
            { c with hooks := c.hooks ++ [⟨d.collection, d.field, d.event, action⟩] }
          else c := by
        funext name c
        rw [Collection.attach_singleton]
      simp [Model.withHooks, hm, Dict.modify, hf]
    · intro c' hc'
      rw [hc] at hc'
      cases hc'
      exact hb

theorem addHooks_ok {m m' : Model} {ds : List HookDocument}
    (h : ds.foldlM (addHook types) m = .ok m') :
    ∃ hooks, List.Forall₂ (HookDocument.Describes types) ds hooks ∧ m' = m.withHooks hooks ∧
      ∀ hook ∈ hooks, ∀ c, m.collections.find? hook.collection = some c →
        checkBindings c hook = .ok () := by
  induction ds generalizing m with
  | nil =>
    cases h
    exact ⟨[], .nil, (Model.withHooks_nil _).symm, by simp⟩
  | cons d ds ih =>
    rw [List.foldlM_cons, bind_eq_ok] at h
    obtain ⟨m₁, hd, hds⟩ := h
    obtain ⟨hook, hdesc, rfl, hbind⟩ := addHook_ok hd
    obtain ⟨hooks, hdescs, rfl, hbinds⟩ := ih hds
    refine ⟨hook :: hooks, .cons hdesc hdescs, Model.withHooks_withHooks .., ?_⟩
    intro k hk c hc
    cases List.mem_cons.1 hk with
    | inl he =>
      subst he
      exact hbind c hc
    | inr hk =>
      have hb := hbinds k hk (c.attach [hook] k.collection) (by simp [Model.withHooks, hc])
      rwa [checkBindings_attach] at hb

end Load

namespace Model

variable {types : FieldTypes} {d : ModelDocument} {m : Model}

theorem ofDocument_ok (h : ofDocument types d = .ok m) :
    ∃ templates collections hooks,
      d.templates.mapM (Load.template types) = .ok templates ∧
      d.collections.mapM (Load.collection types) = .ok collections ∧
      Load.checkCollections collections = .ok () ∧
      List.Forall₂ (HookDocument.Describes types) d.hooks hooks ∧
      m = withHooks ⟨collections, templates, []⟩ hooks ∧
      ∀ hook ∈ hooks, ∀ c, collections.find? hook.collection = some c →
        Load.checkBindings c hook = .ok () := by
  simp only [ofDocument, bind_eq_ok] at h
  obtain ⟨templates, ht, collections, hc, ⟨⟩, hcheck, h⟩ := h
  obtain ⟨hooks, hdesc, hm, hbind⟩ := Load.addHooks_ok h
  exact ⟨templates, collections, hooks, ht, hc, hcheck, hdesc, hm, hbind⟩

theorem keys_of_ofDocument (h : ofDocument types d = .ok m) : m.collections.keys = d.collections.keys := by
  obtain ⟨_, _, _, _, hcs, _, _, rfl, _⟩ := ofDocument_ok h
  rw [withHooks, Dict.keys_map]
  exact Dict.keys_of_mapM hcs

theorem collection_eq_ok {name : String} {c : Collection} :
    m.collection name = .ok c ↔ m.collections.find? name = some c := by
  unfold collection
  cases m.collections.find? name <;> simp

theorem collection_of_ofDocument (h : ofDocument types d = .ok m) {name : String} {c : Collection}
    (hc : m.collection name = .ok c) :
    ∃ cd bare hooks, d.collections.find? name = some cd ∧
      Load.collection types name cd = .ok bare ∧ c = { bare with hooks := hooks } := by
  obtain ⟨_, collections, hooks, _, hcs, _, _, rfl, _⟩ := ofDocument_ok h
  rw [collection_eq_ok] at hc
  simp only [withHooks, Dict.find?_map, Option.map_eq_some_iff] at hc
  obtain ⟨bare, hb, rfl⟩ := hc
  obtain ⟨cd, hcd, hbare⟩ := Dict.find?_of_mapM hcs hb
  exact ⟨cd, bare, _, hcd, hbare, rfl⟩

theorem table_of_ofDocument (h : ofDocument types d = .ok m) {name : String} {c : Collection}
    (hc : m.collection name = .ok c) : c.table = name := by
  obtain ⟨cd, bare, hooks, _, hb, rfl⟩ := collection_of_ofDocument h hc
  obtain ⟨_, _, _, _, _, _, rfl⟩ := Load.collection_ok hb
  rfl

theorem fieldSet_eq_ok {c : Collection} {name : Option String} {members : List Member} :
    c.fieldSet name = .ok members ↔ c.fieldSets.find? (name.getD defaultFieldSet) = some members := by
  unfold Collection.fieldSet
  dsimp only
  cases c.fieldSets.find? (name.getD defaultFieldSet) <;> simp

theorem computed_of_mem_fieldSet (h : ofDocument types d = .ok m) {name : String} {c : Collection}
    (hc : m.collection name = .ok c) {set : Option String} {members : List Member}
    (hm : c.fieldSet set = .ok members) {field : ComputedField} (hf : .computed field ∈ members) :
    ∃ key, c.computed.find? key = some field := by
  obtain ⟨cd, bare, hooks, _, hb, rfl⟩ := collection_of_ofDocument h hc
  obtain ⟨_, computed, names, _, _, _, rfl⟩ := Load.collection_ok hb
  have hset := fieldSet_eq_ok.1 hm
  rw [Dict.find?_map] at hset
  obtain ⟨listed, _, rfl⟩ := Option.map_eq_some_iff.1 hset
  obtain ⟨key, _, hkey⟩ := List.mem_map.1 hf
  refine ⟨key, ?_⟩
  unfold Load.member at hkey
  split at hkey
  · rename_i found hfound
    cases hkey
    exact hfound
  · cases hkey

end Model

end Retrieval
