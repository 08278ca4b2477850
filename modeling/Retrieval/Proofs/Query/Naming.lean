import Retrieval.Proofs.Model.Loading
import Retrieval.Proofs.Query.Filter
import Retrieval.Proofs.Text.Words

namespace Retrieval

/-- All fields that a request names are among some paths. -/
structure Request.NamesOnly (r : Request) (paths : List String) : Prop where
  conditions : ∀ condition ∈ r.conditions, condition.field ∈ paths
  sort : ∀ entry ∈ r.sort, entry.field ∈ paths
  search : ∀ entry ∈ r.search.entries, entry.1 ≠ Search.everywhere → entry.1 ∈ paths

theorem SortEntry.order_ok {p : Selection} {entry : SortEntry} {o : Sql.Order}
    (h : entry.order p = .ok o) : (p.get? entry.field).isSome = true := by
  unfold order at h
  split at h
  · cases h
  · rename_i hf
    rw [hf]
    rfl

theorem Search.predicates_ok {c : Collection} {p : Selection} {key term : String} {es : List Sql.Expr}
    (hk : key ≠ everywhere) (hw : Text.words term.toList ≠ []) (h : predicates c p key term = .ok es) :
    (p.get? key).isSome = true := by
  simp only [predicates, route_of_ne hk, direct_field hk hw, map_eq_ok] at h
  obtain ⟨e, he, _⟩ := h
  obtain ⟨f, _, hf, _⟩ := inField_ok he
  rw [hf]
  rfl

namespace Query

variable {m : Model} {r : Request} {q : Query} {c : Collection} {members : List Member}

/-- A request that compiles names fields of its field-set only, if it does so wherever it looks for a
term without words. -/
theorem namesOnly_iff (hc : m.collection r.collection = .ok c) (hm : c.fieldSet r.fieldSet = .ok members)
    (h : ofRequest m r = .ok q) :
    r.NamesOnly (members.map (·.path)) ↔
      ∀ entry ∈ r.search.entries, entry.1 ≠ Search.everywhere →
        (∀ w, ¬ Text.IsWord entry.2.toList w) → entry.1 ∈ members.map (·.path) := by
  obtain ⟨parts, hparts, rfl, rfl⟩ := ofRequest_members hc hm h
  obtain ⟨_, _, _, hmade, _⟩ := Filter.predicates_made hparts.predicates
  constructor
  · intro hnames entry he hk _
    exact hnames.search entry he hk
  · intro hwordless
    refine ⟨?conditions, ?sort, ?search⟩
    case conditions =>
      intro condition hcondition
      obtain ⟨e, _, he⟩ := exists_mem_left hmade.conditions.flip hcondition
      obtain ⟨f, hf, _⟩ := Condition.predicate_ok he
      rw [← hparts.isSome_get?_iff, hf]
      rfl
    case sort =>
      intro entry hentry
      obtain ⟨o, _, ho⟩ := exists_mem_left (mapM_eq_ok.1 hparts.order).flip hentry
      exact hparts.isSome_get?_iff.1 (SortEntry.order_ok ho)
    case search =>
      intro entry hentry hk
      by_cases hw : Text.words entry.2.toList = []
      · apply hwordless entry hentry hk
        intro w hword
        rw [← Text.mem_words, hw] at hword
        cases hword
      · obtain ⟨es, _, hes⟩ := exists_mem_left hmade.searches.flip hentry
        exact hparts.isSome_get?_iff.1 (Search.predicates_ok hk hw hes)

def namingRequest : Request :=
  (((Request.ofFieldSet "post" "list").withCondition "shout" "IN" (.array [])).withTerm
    "author.name" "ada").sortedBy "author.name" 1

theorem namesOnly_blog : ∃ m c members q, Model.ofDocument .builtin .blog = .ok m ∧
    m.collection "post" = .ok c ∧ c.fieldSet (some "list") = .ok members ∧
    ofRequest m namingRequest = .ok q ∧ namingRequest.NamesOnly (members.map (·.path)) := by
  obtain ⟨m, hl, h⟩ := exists_of_passes (show passes (fun m => passes (fun c =>
    passes (fun members => decide ("author.name" ∈ members.map (·.path)) &&
        passes (fun _ => true) (ofRequest m namingRequest)) (c.fieldSet (some "list")))
      (m.collection "post")) (Model.ofDocument .builtin .blog) = true by decide +kernel)
  obtain ⟨c, hc, h⟩ := exists_of_passes h
  obtain ⟨members, hm, h⟩ := exists_of_passes h
  obtain ⟨hname, h⟩ := Bool.and_eq_true_iff.1 h
  obtain ⟨q, hq, _⟩ := exists_of_passes h
  refine ⟨m, c, members, q, hl, hc, hm, hq, (namesOnly_iff hc hm hq).2 ?_⟩
  intro entry hentry _ _
  rw [List.mem_singleton.1 (show entry ∈ [("author.name", "ada")] from hentry)]
  exact of_decide_eq_true hname

def namedPosts : ModelDocument where
  collections := ⟨[("post", {
    fields := ⟨[("name", .ofType "string")]⟩
    fieldSets := ⟨[]⟩
    computed := ⟨[]⟩
    searchPrefixes := ⟨[]⟩ })]⟩
  templates := ⟨[]⟩
  hooks := []

/-- A search without words for a field that does not exist compiles, as if it were not there. -/
theorem not_namesOnly_wordless : ∃ m c members q, Model.ofDocument .builtin namedPosts = .ok m ∧
    m.collection "post" = .ok c ∧ c.fieldSet none = .ok members ∧
    ofRequest m ((Request.ofCollection "post").withTerm "nope" "!!") = .ok q ∧
    ¬ ((Request.ofCollection "post").withTerm "nope" "!!").NamesOnly (members.map (·.path)) ∧
    q.sql = "SELECT p.name AS f0, p.id AS f1 FROM post p" := by
  obtain ⟨m, hl, h⟩ := exists_of_passes (show passes (fun m => passes (fun c =>
    passes (fun members => decide ("nope" ∉ members.map (·.path)) &&
        passes (fun q => q.sql = "SELECT p.name AS f0, p.id AS f1 FROM post p")
          (ofRequest m ((Request.ofCollection "post").withTerm "nope" "!!"))) (c.fieldSet none))
      (m.collection "post")) (Model.ofDocument .builtin namedPosts) = true by decide +kernel)
  obtain ⟨c, hc, h⟩ := exists_of_passes h
  obtain ⟨members, hm, h⟩ := exists_of_passes h
  obtain ⟨hname, h⟩ := Bool.and_eq_true_iff.1 h
  obtain ⟨q, hq, hsql⟩ := exists_of_passes h
  refine ⟨m, c, members, q, hl, hc, hm, hq, ?_, of_decide_eq_true hsql⟩
  intro hnames
  exact of_decide_eq_true hname (hnames.search ("nope", "!!") (List.mem_singleton.2 rfl) (by decide))

end Query

end Retrieval
