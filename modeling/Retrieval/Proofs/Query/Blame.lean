import Retrieval.Proofs.Model.WellFormed
import Retrieval.Proofs.Query.Filter
import Retrieval.Proofs.Query.JoinToken

namespace Retrieval

def Request.Error.missingCollection? : Request.Error → Option String
  | .unknownCollection name => some name
  | .condition _ cause => cause.missingCollection?
  | .unknownFieldSet .. | .unknownQuery _ | .unmappedField _ | .unmappedSort _ | .listRequired _
  | .unknownComparator _ | .invalidValue .. | .offsetOutOfRange _ | .unboundField _ | .parameterCount ..
  | .notFound .. => none

def Query.Error.missingCollection? : Query.Error → Option String
  | .request cause => cause.missingCollection?
  | .member _ _ cause => cause.missingCollection?
  | .unknownField .. | .notAReference .. | .unresolvedJoinToken .. => none

/-- A path of the model that leads nowhere, or a join token without a table. -/
def Query.Error.isDefect : Query.Error → Bool
  | .unknownField .. | .notAReference .. | .unresolvedJoinToken .. => true
  | .request _ | .member .. => false

theorem Query.Error.isUser_of_isDefect {e : Query.Error} (h : e.isDefect = true) : e.isUser = false := by
  cases e <;> first | rfl | cases h

theorem Query.Error.missingCollection?_of_isDefect {e : Query.Error} (h : e.isDefect = true) :
    e.missingCollection? = none := by
  cases e <;> first | rfl | cases h

/-- Whom the errors of a request blame: the model if the field-set cannot be selected, with one error for
all requests that ask for that field-set, and else the request. -/
structure Query.Blames (m : Model) (r : Request) : Prop where
  model_iff : ∀ e, ofRequest m r = .error e ∧ e.isUser = false ↔
    ∃ c members, m.collection r.collection = .ok c ∧ c.fieldSet r.fieldSet = .ok members ∧
      (Selection.build m (.new r.collection) members).2 = .error e
  alike : ∀ e, ofRequest m r = .error e → e.isUser = false → ∀ r' : Request,
    r'.collection = r.collection → r'.fieldSet.getD defaultFieldSet = r.fieldSet.getD defaultFieldSet →
      ofRequest m r' = .error e
  defect : ∀ e, ofRequest m r = .error e → e.isUser = false →
    ∃ path cause, e = .member r.collection path cause ∧ cause.isDefect = true
  collection : ∀ e name, ofRequest m r = .error e → e.missingCollection? = some name → name = r.collection

section Model

variable {types : FieldTypes} {d : ModelDocument} {m : Model} {raw : JoinGraph → String → Prop}
  {g g' : JoinGraph} {base collection : String} {c : Collection}

theorem Model.exists_collection {name : String} (h : m.collections.contains name = true) :
    ∃ c, m.collection name = .ok c := by
  obtain ⟨c, hc⟩ := Option.isSome_iff_exists.1 h
  exact ⟨c, collection_eq_ok.2 hc⟩

theorem Model.collection_eq_error {name : String} {e : Request.Error} (h : m.collection name = .error e) :
    e = .unknownCollection name := by
  unfold collection at h
  split at h <;> cases h
  rfl

theorem Model.exists_referenced (hl : ofDocument types d = .ok m) (hc : m.collection collection = .ok c)
    {hop name : String} {field : Field} (hf : c.fields.find? hop = some field)
    (hr : field.references = some name) : ∃ c', m.collection name = .ok c' := by
  have hwell := collection_wellFormed hl (collection_eq_ok.1 hc)
  cases field with
  | ref target =>
    cases hr
    exact exists_collection (hwell.references hop name (Dict.mem_of_find? hf))
  | string | text | enum | int | id | float | bool | date => cases hr

namespace JoinGraph

/-- In a loaded model a hop can fail for its field only. -/
theorem target_failsOnly (hl : Model.ofDocument types d = .ok m) (hc : m.collection collection = .ok c)
    (hop : String) : FailsOnly (·.isDefect = true) (target m collection hop) := by
  simp only [target, hc]
  cases hf : c.fields.find? hop with
  | none => exact .error rfl
  | some field =>
    cases hr : field.references with
    | none =>
      simp only [hr]
      exact .error rfl
    | some name =>
      obtain ⟨c', hc'⟩ := Model.exists_referenced hl hc hf hr
      simp only [hr, hc']
      exact .ok c'.table

theorem exists_target (hl : Model.ofDocument types d = .ok m) {hop table : String}
    (h : target m collection hop = .ok table) : ∃ c, m.collection table = .ok c := by
  obtain ⟨_, _, name, c', _, _, _, hc', rfl⟩ := target_ok h
  rw [Model.table_of_ofDocument hl hc']
  exact ⟨c', hc'⟩

theorem destination_failsOnly (hl : Model.ofDocument types d = .ok m) (hc : m.collection collection = .ok c)
    (hops : List String) : FailsOnly (·.isDefect = true) (destination m collection hops) := by
  induction hops generalizing collection c with
  | nil => exact .ok collection
  | cons hop rest ih =>
    rw [destination_cons]
    refine (target_failsOnly hl hc hop).bind fun next hnext => ?_
    obtain ⟨c', hc'⟩ := exists_target hl hnext
    exact ih hc'

theorem exists_destination (hl : Model.ofDocument types d = .ok m) (hc : m.collection collection = .ok c)
    {hops : List String} {reached : String} (h : destination m collection hops = .ok reached) :
    ∃ c', m.collection reached = .ok c' := by
  induction hops generalizing collection c with
  | nil =>
    cases h
    exact ⟨c, hc⟩
  | cons hop rest ih =>
    rw [destination_cons, bind_eq_ok] at h
    obtain ⟨next, hnext, h⟩ := h
    obtain ⟨c', hc'⟩ := exists_target hl hnext
    exact ih hc' h

theorem fieldOf_failsOnly {table : QueryTable} (hc : m.collection table.collection = .ok c) (name : String) :
    FailsOnly (·.isDefect = true) (fieldOf m table name) := by
  simp only [fieldOf, hc]
  cases c.fields.find? name with
  | none => exact .error rfl
  | some field => exact .ok _

theorem columnAt_failsOnly (hl : Model.ofDocument types d = .ok m) (hc : m.collection base = .ok c)
    (hg : Grows m raw (.new base) g) (path : Path) : FailsOnly (·.isDefect = true) (g.columnAt m path).2 := by
  rw [← FailsOnly.map_iff, columnAt_declared hg, declaredAt]
  refine (destination_failsOnly hl hc path.hops).bind fun reached hreached => ?_
  obtain ⟨c', hc'⟩ := exists_destination hl hc hreached
  exact FailsOnly.map_iff.2 (fieldOf_failsOnly hc' path.terminal)

end JoinGraph

/-- A field-set of a loaded model that cannot be selected fails for a defect of one of its members. -/
theorem Selection.build_failsOnly (hl : Model.ofDocument types d = .ok m) (hc : m.collection base = .ok c)
    (members : List Member) :
    FailsOnly (fun e => ∃ path cause, e = .member base path cause ∧ cause.isDefect = true)
      (build m (.new base) members).2 := by
  intro e he
  obtain ⟨_, x, _, g₁, p₁, cause, _, _, _, hx, hg₁, rfl⟩ := build_error (Prod.ext rfl he)
  have hmember : FailsOnly (·.isDefect = true) (member m g₁ (label p₁.fields.length) x).2 :=
    member_failsOnly (fun g' path hg => JoinGraph.columnAt_failsOnly hl hc (hg₁.trans hg) path)
      (fun _ _ => rfl) _ x
  rw [hx] at hmember
  exact ⟨x.path, cause, rfl, hmember cause rfl⟩

end Model

section Request

variable {c : Collection} {p : Selection} {f : SelectedField} {α : Type}

abbrev FindsCollections (x : Except Request.Error α) : Prop :=
  FailsOnly (·.missingCollection? = none) x

theorem Collection.fieldSet_findsCollections (name : Option String) : FindsCollections (c.fieldSet name) := by
  unfold fieldSet
  dsimp only
  split
  · exact .ok _
  · exact .error rfl

theorem Selection.lookup_findsCollections (path : String) : FindsCollections (p.lookup path) := by
  unfold lookup
  cases p.get? path with
  | none => exact .error rfl
  | some f => exact .ok f

theorem Comparison.ofText_findsCollections (text : String) : FindsCollections (ofText text) := by
  unfold ofText
  repeat' split
  all_goals first | exact .ok _ | exact .error rfl

namespace SelectedField

theorem blame_findsCollections (x : Except Field.Error α) : FindsCollections (f.blame x) := by
  cases x with
  | ok a => exact .ok a
  | error cause => exact .error rfl

theorem contains_findsCollections (v : Json) : FindsCollections (f.contains v) := by
  unfold contains
  split
  · exact .error rfl
  · exact FailsOnly.map_iff.2 (blame_findsCollections _)

theorem compare_findsCollections (op : Sql.Operator) (v : Json) : FindsCollections (f.compare op v) :=
  FailsOnly.map_iff.2 (blame_findsCollections _)

theorem ordered_findsCollections (op : Sql.Operator) (v : Json) : FindsCollections (f.ordered op v) := by
  unfold ordered
  split
  · exact .error rfl
  · exact compare_findsCollections op v

theorem equation_findsCollections (op : Sql.Operator) (negated : Bool) (v : Json) :
    FindsCollections (if v.isNull then .ok (.isNull f.operand negated) else f.compare op v) := by
  split
  · exact .ok _
  · exact compare_findsCollections op v

theorem predicate_findsCollections (comparator : Comparison) (v : Json) :
    FindsCollections (f.predicate comparator v) := by
  cases comparator with
  | eq | ne => exact equation_findsCollections _ _ v
  | le | ge | lt | gt => exact ordered_findsCollections _ v
  | like => exact contains_findsCollections v
  | oneOf =>
    cases v with
    | array vs => exact FailsOnly.map_iff.2 (.mapM fun v _ => blame_findsCollections _)
    | _ => exact .error rfl

end SelectedField

theorem Condition.predicate_findsCollections (condition : Condition) :
    FindsCollections (condition.predicate p) := by
  refine (Selection.lookup_findsCollections _).bind fun f _ => ?_
  refine (Comparison.ofText_findsCollections _).bind fun comparator _ => ?_
  exact SelectedField.predicate_findsCollections comparator _

namespace Search

theorem inField_findsCollections (key : String) (words : List String) :
    FindsCollections (inField p key words) := by
  refine (Selection.lookup_findsCollections key).bind fun f _ => ?_
  refine (FailsOnly.mapM fun w _ => SelectedField.contains_findsCollections _).bind fun es _ => ?_
  exact .ok _

theorem inAnyField_findsCollections (word : String) : FindsCollections (inAnyField p word) := by
  refine (FailsOnly.mapM fun f _ => SelectedField.contains_findsCollections _).bind fun es _ => ?_
  exact .ok _

theorem direct_findsCollections (key : String) (term : List Char) : FindsCollections (direct p key term) := by
  by_cases hk : key = everywhere
  · subst hk
    cases hn : Text.recordId? term with
    | none =>
      rw [direct_everywhere hn]
      exact .mapM fun w _ => inAnyField_findsCollections w
    | some n =>
      simp only [direct, hn, if_true]
      refine (Condition.predicate_findsCollections _).bind fun e _ => ?_
      exact .ok _
  · by_cases hw : Text.words term = []
    · rw [direct_wordless hk hw]
      exact .ok _
    · rw [direct_field hk hw]
      exact FailsOnly.map_iff.2 (inField_findsCollections _ _)

end Search

namespace Filter

theorem tag_findsCollections {x : Except Request.Error α} (h : FindsCollections x) (index : Nat) :
    FindsCollections (tag index x) := by
  cases x with
  | ok a => exact .ok a
  | error cause => exact .error (h cause rfl)

theorem addConditions_findsCollections (done : List Sql.Expr) (conditions : List Condition) :
    FindsCollections (addConditions p done conditions) := by
  induction conditions generalizing done with
  | nil => exact .ok done
  | cons condition rest ih =>
    rw [addConditions]
    have htag := tag_findsCollections (condition.predicate_findsCollections (p := p)) done.length
    cases h : tag done.length (condition.predicate p) with
    | error e => exact .error (htag e h)
    | ok e => exact ih _

theorem addSearches_findsCollections (done : List Sql.Expr) (entries : List (String × String)) :
    FindsCollections (addSearches c p done entries) := by
  induction entries generalizing done with
  | nil => exact .ok done
  | cons entry rest ih =>
    obtain ⟨key, term⟩ := entry
    rw [addSearches]
    have htag : FindsCollections (tag done.length (Search.predicates c p key term)) :=
      tag_findsCollections (Search.direct_findsCollections _ _) _
    cases h : tag done.length (Search.predicates c p key term) with
    | error e => exact .error (htag e h)
    | ok es => exact ih _

theorem predicates_findsCollections (r : Request) : FindsCollections (predicates c p r) := by
  refine (addConditions_findsCollections [] _).bind fun done _ => ?_
  exact addSearches_findsCollections done _

end Filter

theorem SortEntry.order_findsCollections (entry : SortEntry) : FindsCollections (entry.order p) := by
  unfold order
  cases p.get? entry.field with
  | none => exact .error rfl
  | some f => exact .ok _

theorem Sql.Page.ofRequest_findsCollections (limit : Option Int64) (offset : Option UInt64) :
    FindsCollections (Page.ofRequest limit offset) := by
  unfold Page.ofRequest
  cases offset with
  | none => exact .ok _
  | some n =>
    dsimp only
    split
    · exact .ok _
    · exact .error rfl

theorem liftRequest_failsOnly {x : Except Request.Error α} (h : FindsCollections x) :
    FailsOnly (fun e => e.isUser = true ∧ e.missingCollection? = none) (liftRequest x) := by
  cases x with
  | ok a => exact .ok a
  | error cause => exact .error ⟨rfl, h cause rfl⟩

end Request

namespace Query

variable {types : FieldTypes} {d : ModelDocument} {m : Model} {r : Request} {c : Collection}
  {members : List Member}

theorem ofRequest_eq_bind (hc : m.collection r.collection = .ok c) (hm : c.fieldSet r.fieldSet = .ok members) :
    ofRequest m r = (do
      let p ← (Selection.build m (.new r.collection) members).2
      let predicates ← liftRequest (Filter.predicates c p r)
      let order ← liftRequest (r.sort.mapM (·.order p))
      let page ← liftRequest (Sql.Page.ofRequest r.limit r.offset)
      let g := (Selection.build m (.new r.collection) members).1
      .ok ⟨{
        items := p.items
        source := some g.source
        joins := g.joins
        filter := Sql.Expr.all predicates
        order := order
        page := page }, p.output⟩) := by
  rw [ofRequest, hc]
  change (liftRequest (c.fieldSet r.fieldSet) >>= _) = _
  rw [hm]
  rfl

theorem ofRequest_failsOnly {p : Selection} (hc : m.collection r.collection = .ok c)
    (hm : c.fieldSet r.fieldSet = .ok members)
    (hb : (Selection.build m (.new r.collection) members).2 = .ok p) :
    FailsOnly (fun e => e.isUser = true ∧ e.missingCollection? = none) (ofRequest m r) := by
  rw [ofRequest_eq_bind hc hm, hb]
  refine (FailsOnly.ok p).bind fun p _ => ?_
  refine (liftRequest_failsOnly (Filter.predicates_findsCollections r)).bind fun predicates _ => ?_
  refine (liftRequest_failsOnly (.mapM fun s _ => s.order_findsCollections)).bind fun order _ => ?_
  refine (liftRequest_failsOnly (Sql.Page.ofRequest_findsCollections _ _)).bind fun page _ => ?_
  exact .ok _

/-- Without its field-set selected, a request fails whatever else it asks for. -/
theorem ofRequest_of_build {e : Query.Error} (hc : m.collection r.collection = .ok c)
    (hm : c.fieldSet r.fieldSet = .ok members)
    (hb : (Selection.build m (.new r.collection) members).2 = .error e) : ofRequest m r = .error e := by
  rw [ofRequest_eq_bind hc hm, hb]
  rfl

theorem isUser_or_build {e : Query.Error} (h : ofRequest m r = .error e) :
    (e.isUser = true ∧ ∀ name, e.missingCollection? = some name → name = r.collection) ∨
      ∃ c members, m.collection r.collection = .ok c ∧ c.fieldSet r.fieldSet = .ok members ∧
        (Selection.build m (.new r.collection) members).2 = .error e := by
  cases hc : m.collection r.collection with
  | error cause =>
    obtain rfl := Model.collection_eq_error hc
    rw [ofRequest, hc] at h
    cases h
    exact .inl ⟨rfl, fun name hname => (Option.some.inj hname).symm⟩
  | ok c =>
    cases hm : c.fieldSet r.fieldSet with
    | error cause =>
      have hfound := Collection.fieldSet_findsCollections r.fieldSet cause hm
      rw [ofRequest, hc] at h
      change (liftRequest (c.fieldSet r.fieldSet) >>= _) = _ at h
      rw [hm] at h
      cases h
      refine .inl ⟨rfl, fun name hname => ?_⟩
      rw [Error.missingCollection?, hfound] at hname
      cases hname
    | ok members =>
      cases hb : (Selection.build m (.new r.collection) members).2 with
      | error cause =>
        rw [ofRequest_of_build hc hm hb] at h
        cases h
        exact .inr ⟨c, members, rfl, hm, hb⟩
      | ok p =>
        obtain ⟨huser, hmissing⟩ := ofRequest_failsOnly hc hm hb e h
        refine .inl ⟨huser, fun name hname => ?_⟩
        rw [hmissing] at hname
        cases hname

/-- The model is to blame for the field-sets that cannot be selected, and for nothing else. -/
theorem blames_of_ofDocument (hl : Model.ofDocument types d = .ok m) (r : Request) : Blames m r := by
  have hbuild : ∀ e, ofRequest m r = .error e → e.isUser = false → ∃ c members,
      m.collection r.collection = .ok c ∧ c.fieldSet r.fieldSet = .ok members ∧
        (Selection.build m (.new r.collection) members).2 = .error e := by
    intro e h huser
    rcases isUser_or_build h with ⟨hfault, _⟩ | hfails
    · rw [huser] at hfault
      cases hfault
    · exact hfails
  refine ⟨?model_iff, ?alike, ?defect, ?collection⟩
  case model_iff =>
    intro e
    constructor
    · rintro ⟨h, huser⟩
      exact hbuild e h huser
    · rintro ⟨c, members, hc, hm, hb⟩
      obtain ⟨path, cause, rfl, hdefect⟩ := Selection.build_failsOnly hl hc members e hb
      have huser : cause.isUser = false := Error.isUser_of_isDefect hdefect
      exact ⟨ofRequest_of_build hc hm hb, huser⟩
  case alike =>
    intro e h huser r' hcollection hset
    obtain ⟨c, members, hc, hm, hb⟩ := hbuild e h huser
    rw [← hcollection] at hc hb
    rw [Model.fieldSet_eq_ok, ← hset, ← Model.fieldSet_eq_ok] at hm
    exact ofRequest_of_build hc hm hb
  case defect =>
    intro e h huser
    obtain ⟨c, members, hc, _, hb⟩ := hbuild e h huser
    exact Selection.build_failsOnly hl hc members e hb
  case collection =>
    intro e name h hname
    rcases isUser_or_build h with ⟨_, hnamed⟩ | ⟨c, members, hc, _, hb⟩
    · exact hnamed name hname
    · obtain ⟨path, cause, rfl, hdefect⟩ := Selection.build_failsOnly hl hc members e hb
      rw [Error.missingCollection?, Error.missingCollection?_of_isDefect hdefect] at hname
      cases hname

theorem blames_taggedPosts : ∃ m e, Model.ofDocument .builtin Selection.taggedPosts = .ok m ∧
    ofRequest m (Request.ofFieldSet "post" "plain") = .error e ∧ e.isUser = false ∧
    e.message = "resolving post.tagged: Custom field tagged joins on 'author', which is not joined in this query" ∧
    Blames m (Request.ofFieldSet "post" "plain") := by
  obtain ⟨m, hl, h⟩ := exists_of_passes (show passes (fun m => fails (fun e => !e.isUser && decide (e.message =
        "resolving post.tagged: Custom field tagged joins on 'author', which is not joined in this query"))
      (ofRequest m (Request.ofFieldSet "post" "plain")))
    (Model.ofDocument .builtin Selection.taggedPosts) = true by decide +kernel)
  obtain ⟨e, he, h⟩ := exists_of_fails h
  simp only [Bool.and_eq_true, Bool.not_eq_true', decide_eq_true_eq] at h
  exact ⟨m, e, hl, he, h.1, h.2, blames_of_ofDocument hl _⟩

end Query

end Retrieval
