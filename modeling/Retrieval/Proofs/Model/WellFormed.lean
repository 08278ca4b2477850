import Retrieval.Proofs.Model.Loading

namespace Retrieval

/-- A collection stands under its own name, has a key and the field-sets that requests rely on, and
all it refers to is there. -/
structure Collection.WellFormed (m : Model) (name : String) (c : Collection) : Prop where
  table : c.table = name
  key : c.fields.contains "id" = true
  default : c.fieldSets.contains "default" = true
  identity : c.fieldSets.contains "identity" = true
  references : ∀ key target, (key, .ref target) ∈ c.fields.entries → m.collections.contains target = true
  joins : ∀ f ∈ c.computed.entries, ∀ join, f.2.join = some join →
    ∀ before run after, Placeholder.Occurs join.toList before run after →
      m.collections.contains (String.ofList run) = true
  queries : ∀ hook ∈ c.hooks, ∀ q, hook.action = .query q →
    Positional.questionMarks q.template = q.parameters.length
  bindings : ∀ hook ∈ c.hooks, ∀ q, hook.action = .query q →
    ∀ p ∈ q.parameters, ∀ field, p.bind = some field → c.fields.contains field = true

/-- What a name in a field-set stands for: the computed field of that name, or else the path. -/
inductive Member.Listed (computed : Dict ComputedField) : String → Member → Prop where
  | computed {name : String} {field : ComputedField} :
    computed.find? name = some field → Listed computed name (.computed field)
  | plain {name : String} : computed.find? name = none → Listed computed name (.plain ⟨name⟩)

/-- The field-sets of a collection are the ones it is written with. Each has a member for each of its
names, and one more for the key at the end if the key is not among them. -/
structure Collection.ListsMembers (d : CollectionDocument) (c : Collection) : Prop where
  computed : c.computed.keys = d.computed.keys
  sets : ∀ set, c.fieldSets.contains set = (d.memberNames? set).isSome
  members : ∀ set names members, d.memberNames? set = some names →
    c.fieldSets.find? set = some members →
    List.Forall₂ (Member.Listed c.computed)
      (if "id" ∈ names then names else names ++ ["id"]) members
  key : ∀ set members, c.fieldSets.find? set = some members →
    ∃ member ∈ members, Member.Listed c.computed "id" member

structure ComputedDocument.Describes (types : FieldTypes) (key : String) (d : ComputedDocument)
    (field : ComputedField) : Prop where
  path : field.path = d.path.getD key
  query : field.query = d.query
  join : field.join = d.join
  type : types.ofTag d.dataType .empty = .ok field.field

/-- A collection is as its document has it, but for its hooks. It has the declared fields, and the key if that is
not declared. -/
structure CollectionDocument.Describes (types : FieldTypes) (d : CollectionDocument) (c : Collection) : Prop where
  declared : ∀ key definition, d.fields.find? key = some definition → ∃ field, c.fields.find? key = some field ∧
    types.ofDefinition definition = .ok field ∧ ∀ target, field = .ref target ↔ definition.Refers types target
  undeclared : ∀ key, d.fields.find? key = none →
    c.fields.find? key = if key = "id" then some .id else none
  computed : d.computed.Matches (ComputedDocument.Describes types) c.computed
  fieldSets : c.ListsMembers d
  searchPrefixes : c.searchPrefixes = d.searchPrefixes

/-- The hooks of a document, in order, each on its collection or else in a warning. -/
def Model.SplitsHooks (types : FieldTypes) (docs : List HookDocument) (m : Model) : Prop :=
  ∃ hooks, List.Forall₂ (HookDocument.Describes types) docs hooks ∧
    (∀ name c, m.collections.find? name = some c → c.hooks = hooks.filter (·.collection == name)) ∧
    m.warnings = (hooks.filter (!m.collections.contains ·.collection)).map
      (.unknownCollection ·.collection)

structure Model.WellFormed (types : FieldTypes) (d : ModelDocument) (m : Model) : Prop where
  names : m.collections.keys = d.collections.keys
  collections : ∀ name c, m.collections.find? name = some c → c.WellFormed m name
  described : ∀ name c, m.collections.find? name = some c →
    ∃ cd, d.collections.find? name = some cd ∧ cd.Describes types c
  templates : d.templates.Matches (TemplateDocument.Describes types) m.templates
  hooks : m.SplitsHooks types d.hooks

namespace Load

variable {types : FieldTypes}

theorem listed_member (computed : Dict ComputedField) (name : String) :
    Member.Listed computed name (member computed name) := by
  cases h : computed.find? name with
  | some field =>
    rw [member, h]
    exact .computed h
  | none =>
    rw [member, h]
    exact .plain h

theorem listed_members (computed : Dict ComputedField) (names : List String) :
    List.Forall₂ (Member.Listed computed) names (names.map (member computed)) := by
  induction names with
  | nil => exact .nil
  | cons name rest ih => exact .cons (listed_member computed name) ih

theorem keyField_mem_withKeyMember (names : List String) : keyField ∈ withKeyMember names := by
  unfold withKeyMember
  split
  · assumption
  · simp

theorem collection_listsMembers {name : String} {d : CollectionDocument} {c : Collection}
    (h : collection types name d = .ok c) : c.ListsMembers d := by
  obtain ⟨fields, computed, names, _, hcomputed, hn, rfl⟩ := collection_ok h
  have hfound : ∀ set,
      (names.map fun _ members => (withKeyMember members).map (member computed)).find? set =
        (d.memberNames? set).map fun names => (withKeyMember names).map (member computed) := by
    intro set
    rw [Dict.find?_map, find?_fieldSetNames hn]
  refine ⟨Dict.keys_of_mapM hcomputed, ?sets, ?members, ?withKey⟩
  case sets =>
    intro set
    rw [Dict.contains, hfound, Option.isSome_map]
  case members =>
    intro set names members hnames hmembers
    rw [hfound, hnames, Option.map_some, Option.some.injEq] at hmembers
    rw [← hmembers]
    exact listed_members computed (withKeyMember names)
  case withKey =>
    intro set members hmembers
    rw [hfound, Option.map_eq_some_iff] at hmembers
    obtain ⟨names, _, rfl⟩ := hmembers
    exact ⟨member computed keyField, List.mem_map_of_mem (keyField_mem_withKeyMember names),
      listed_member computed keyField⟩

theorem computedField_describes {collection key : String} {d : ComputedDocument} {field : ComputedField}
    (h : computedField types collection key d = .ok field) : d.Describes types key field := by
  simp only [computedField, bind_eq_ok, locate_eq_ok, Except.ok.injEq] at h
  obtain ⟨f, hf, rfl⟩ := h
  exact ⟨rfl, rfl, rfl, hf⟩

theorem collection_describes {name : String} {d : CollectionDocument} {c : Collection}
    (h : collection types name d = .ok c) : d.Describes types c := by
  have hlists := collection_listsMembers h
  obtain ⟨fields, computed, names, hfields, hcomputed, _, rfl⟩ := collection_ok h
  have hmatches : d.fields.Matches (fun _ definition field => types.ofDefinition definition = .ok field) fields :=
    (Dict.mapM_eq_ok.1 hfields).imp fun _ _ _ => locate_eq_ok.1
  refine ⟨?declared, ?undeclared, ?computed, hlists, rfl⟩
  case declared =>
    intro key definition hkey
    obtain ⟨field, hfield, htype⟩ := hmatches.exists_right hkey
    refine ⟨field, ?_, htype, eq_ref_iff htype⟩
    rw [withKey, find?_orInsert, hfield, Option.some_or]
  case undeclared =>
    intro key hkey
    rw [withKey, find?_orInsert, hmatches.find?_eq_none hkey, Option.none_or, keyField]
  case computed => exact (Dict.mapM_eq_ok.1 hcomputed).imp fun _ _ _ => computedField_describes

theorem isSome_memberNames?_default (d : CollectionDocument) :
    (d.memberNames? "default").isSome = true := by
  unfold CollectionDocument.memberNames?
  cases d.fieldSets.find? "default" <;> simp

theorem isSome_memberNames?_identity (d : CollectionDocument) :
    (d.memberNames? "identity").isSome = true := by
  unfold CollectionDocument.memberNames?
  cases d.fieldSets.find? "identity" <;> simp

end Load

namespace Model

variable {types : FieldTypes} {d : ModelDocument} {m : Model}

theorem find?_collections_ofDocument (h : ofDocument types d = .ok m) {name : String}
    {c : Collection} (hc : m.collections.find? name = some c) :
    ∃ cd, d.collections.find? name = some cd ∧ cd.Describes types c ∧ c.table = name ∧
      c.fields.contains keyField = true := by
  obtain ⟨cd, bare, hooks, hcd, hb, rfl⟩ := collection_of_ofDocument h (collection_eq_ok.2 hc)
  have hdescribes := Load.collection_describes hb
  have hlists := hdescribes.fieldSets
  obtain ⟨fields, _, _, _, _, _, rfl⟩ := Load.collection_ok hb
  refine ⟨cd, hcd, ?_, rfl, Load.contains_withKey fields⟩
  exact ⟨hdescribes.declared, hdescribes.undeclared, hdescribes.computed,
    ⟨hlists.computed, hlists.sets, hlists.members, hlists.key⟩, hdescribes.searchPrefixes⟩

theorem splitsHooks_of_ofDocument (h : ofDocument types d = .ok m) : m.SplitsHooks types d.hooks := by
  obtain ⟨templates, collections, hooks, _, hcs, _, hdesc, rfl, _⟩ := ofDocument_ok h
  refine ⟨hooks, hdesc, ?_, by simp [withHooks]⟩
  intro name c hc
  simp only [withHooks, Dict.find?_map, Option.map_eq_some_iff] at hc
  obtain ⟨bare, hb, rfl⟩ := hc
  obtain ⟨_, _, hbare⟩ := Dict.find?_of_mapM hcs hb
  rw [Collection.attach, Load.hooks_of_collection hbare, List.nil_append]

theorem collection_wellFormed (h : ofDocument types d = .ok m) {name : String} {c : Collection}
    (hc : m.collections.find? name = some c) : c.WellFormed m name := by
  obtain ⟨cd, _, hdescribed, ht, hk⟩ := find?_collections_ofDocument h hc
  obtain ⟨templates, collections, hooks, _, hcs, hcheck, hdesc, rfl, hbind⟩ := ofDocument_ok h
  simp only [withHooks, Dict.find?_map, Option.map_eq_some_iff] at hc
  obtain ⟨bare, hb, rfl⟩ := hc
  obtain ⟨hrefs, hjoins⟩ := Load.checkCollections_ok hcheck (Dict.mem_of_find? hb)
  obtain ⟨_, _, hbare⟩ := Dict.find?_of_mapM hcs hb
  have hhook : ∀ hook ∈ (bare.attach hooks name).hooks, hook ∈ hooks ∧ hook.collection = name := by
    intro hook hh
    rw [Collection.attach, Load.hooks_of_collection hbare, List.nil_append, List.mem_filter] at hh
    exact ⟨hh.1, beq_iff_eq.1 hh.2⟩
  refine ⟨ht, hk, ?_, ?_, ?_, ?_, ?_, ?_⟩
  · rw [hdescribed.fieldSets.sets]
    exact Load.isSome_memberNames?_default cd
  · rw [hdescribed.fieldSets.sets]
    exact Load.isSome_memberNames?_identity cd
  · intro key target hf
    rw [withHooks, Dict.contains_map]
    exact hrefs key target hf
  · intro f hf join hjoin before run after hoccurs
    rw [withHooks, Dict.contains_map]
    exact hjoins f hf join hjoin _ (Placeholder.mem_names_of_occurs hoccurs)
  · intro hook hh q hq
    obtain ⟨hd, _, hdescribes⟩ := exists_mem_left hdesc (hhook hook hh).1
    have hacts := hdescribes.action
    rw [hq] at hacts
    cases hacts with
    | query _ _ _ hquery => exact hquery.questionMarks
  · intro hook hh q hq p hp field hf
    obtain ⟨hm, rfl⟩ := hhook hook hh
    exact Load.checkBindings_ok (hbind hook hm bare hb) hq hp hf

/-- Whatever a document says, the model that it loads as is well-formed. -/
theorem wellFormed_of_ofDocument (h : ofDocument types d = .ok m) : m.WellFormed types d := by
  have hsplit := splitsHooks_of_ofDocument h
  have hnames := keys_of_ofDocument h
  have hcollections : ∀ name c, m.collections.find? name = some c → c.WellFormed m name :=
    fun _ _ hc => collection_wellFormed h hc
  have hdescribed : ∀ name c, m.collections.find? name = some c →
      ∃ cd, d.collections.find? name = some cd ∧ cd.Describes types c := by
    intro name c hc
    obtain ⟨cd, hcd, hdescribes, _⟩ := find?_collections_ofDocument h hc
    exact ⟨cd, hcd, hdescribes⟩
  obtain ⟨templates, collections, hooks, hts, _, _, _, rfl, _⟩ := ofDocument_ok h
  refine ⟨hnames, hcollections, hdescribed, ?_, hsplit⟩
  exact (Dict.mapM_eq_ok.1 hts).imp fun _ _ _ => Load.template_describes

theorem wellFormed_blog : ∃ m, ofDocument .builtin .blog = .ok m ∧ m.WellFormed .builtin .blog := by
  obtain ⟨m, hm, _⟩ := exists_of_passes (p := fun _ => true)
    (show passes _ (ofDocument .builtin .blog) = true by decide +kernel)
  exact ⟨m, hm, wellFormed_of_ofDocument hm⟩

end Model

end Retrieval
