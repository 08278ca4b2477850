import Retrieval.Proofs.Query.Navigation
import Retrieval.Proofs.Query.PathMeaning

namespace Retrieval

def Query.Error.unjoined? : Query.Error → Option String
  | .unresolvedJoinToken _ token => some token
  | .member _ _ cause => cause.unjoined?
  | .request _ | .unknownField _ _ | .notAReference _ _ => none

/-- The collections that hops lead through, up to the first hop that is no reference. -/
def Model.passed (m : Model) (collection : String) : List String → List String
  | [] => []
  | hop :: rest =>
    match m.referenced? collection hop with
    | none => []
    | some target => target :: m.passed target rest

/-- The collections that a member passes through, by its own path or by those in its expression. -/
def Member.passed (m : Model) (base : String) : Member → List String
  | .plain path => m.passed base path.hops
  | .computed c => (Placeholder.names c.query).flatMap fun token => m.passed base (Path.mk token).hops

def ComputedField.joined (c : ComputedField) : List String :=
  c.join.elim [] Placeholder.names

namespace JoinGraph

variable {m : Model} {raw : JoinGraph → String → Prop} {g g' : JoinGraph} {base : String}

theorem target_unjoined (collection hop : String) :
    FailsOnly (·.unjoined? = none) (target m collection hop) := by
  unfold target
  repeat' split
  all_goals first | exact .ok _ | exact .error rfl

theorem destination_unjoined (collection : String) (hops : List String) :
    FailsOnly (·.unjoined? = none) (destination m collection hops) := by
  induction hops generalizing collection with
  | nil => exact .ok collection
  | cons hop rest ih =>
    rw [destination_cons]
    exact (target_unjoined collection hop).bind fun next _ => ih next

theorem fieldOf_unjoined (table : QueryTable) (name : String) :
    FailsOnly (·.unjoined? = none) (fieldOf m table name) := by
  unfold fieldOf
  repeat' split
  all_goals first | exact .ok _ | exact .error rfl

theorem columnAt_unjoined (hg : Grows m raw (.new base) g) (path : Path) :
    FailsOnly (·.unjoined? = none) (g.columnAt m path).2 := by
  rw [← FailsOnly.map_iff, columnAt_declared hg, declaredAt]
  refine (destination_unjoined base path.hops).bind fun reached _ => ?_
  exact FailsOnly.map_iff.2 (fieldOf_unjoined _ path.terminal)

theorem Grows.exists_passed {types : FieldTypes} {d : ModelDocument} (hl : Model.ofDocument types d = .ok m)
    (h : Grows m raw (.new base) g) {walked hops : List String} {current reached : QueryTable}
    (hd : DotFree (walked ++ hops)) (hc : g.tableAt? walked = some current)
    (ht : g.tableAt? (walked ++ hops) = some reached) {collection : String}
    (hp : collection ∈ m.passed current.collection hops) :
    ∃ table ∈ g.base :: g.tables, table.collection = collection := by
  induction hops generalizing walked current with
  | nil => cases hp
  | cons hop rest ih =>
    have hsplit : walked ++ hop :: rest = walked ++ [hop] ++ rest := by simp
    rw [hsplit] at hd ht
    have hhop : DotFree (walked ++ [hop]) := fun name hn => hd name (List.mem_append_left _ hn)
    have hwalked : DotFree walked := fun name hn => hhop name (List.mem_append_left _ hn)
    obtain ⟨next, hnext⟩ := h.exists_tableAt? hd ht
    have htarget := h.destination_eq hhop hnext
    rw [destination_append (h.destination_eq hwalked hc), destination_singleton] at htarget
    rw [Model.passed, Model.referenced?_of_target hl htarget] at hp
    rcases List.mem_cons.1 hp with rfl | hp
    · exact ⟨next, mem_tables_of_tableAt? hnext, rfl⟩
    · exact ih hd hnext ht hp

theorem aliasFor?_eq_none {collection : String} :
    g.aliasFor? collection = none ↔ ∀ table ∈ g.base :: g.tables, table.collection ≠ collection := by
  rw [aliasFor?, Option.map_eq_none_iff, List.find?_eq_none]
  simp only [beq_iff_eq, ne_eq]

end JoinGraph

open JoinGraph

theorem SelectedField.Shows.exists_passed {types : FieldTypes} {d : ModelDocument} {m : Model}
    (hl : Model.ofDocument types d = .ok m) {raw : JoinGraph → String → Prop} {g : JoinGraph} {base : String}
    (hg : Grows m raw (.new base) g) {x : Member} {f : SelectedField} (h : f.Shows m g x) {collection : String}
    (hp : collection ∈ x.passed m base) : ∃ table ∈ g.base :: g.tables, table.collection = collection := by
  have hpath : ∀ (path : Path) (table : QueryTable), g.tableAt? path.hops = some table →
      collection ∈ m.passed base path.hops → ∃ table ∈ g.base :: g.tables, table.collection = collection := by
    intro path table ht hp
    have hbase : g.tableAt? [] = some (JoinGraph.new base).base := by rw [tableAt?_nil, hg.base_eq]
    exact hg.exists_passed hl path.dotFree_hops hbase ht hp
  cases h with
  | plain ht hf => exact hpath _ _ ht hp
  | computed hs =>
    obtain ⟨token, htoken, hp⟩ := List.mem_flatMap.1 hp
    obtain ⟨_, column, ht, _, _⟩ := hs.exists_of_mem htoken
    exact hpath _ _ ht hp

namespace Selection

variable {m : Model} {raw : JoinGraph → String → Prop} {g g' : JoinGraph} {base : String} {e : Query.Error}

theorem run_fill_unjoined (hg : Grows m raw (.new base) g) (ps : List Placeholder.Piece) :
    FailsOnly (·.unjoined? = none) ((Placeholder.fill (columnText m) ps).run g).1 :=
  run_fill_failsOnly (fun _ path hgrows => columnAt_unjoined (hg.trans hgrows) path) ps

/-- A computed field fails for a join token only if its join names a collection without an alias. Its
expression has been filled in by then. -/
theorem computed_unjoined (hg : Grows m raw (.new base) g) {label token : String} {c : ComputedField}
    (h : computed m g label c = (g', .error e)) (ht : e.unjoined? = some token) :
    ∃ sql, e = .unresolvedJoinToken c.path token ∧ token ∈ c.joined ∧ g'.aliasFor? token = none ∧
      SelectedField.Shows m g' (.computed c) ⟨c.path, label, .computed sql, c.field⟩ := by
  have hf := (@run_fill m raw g (Placeholder.pieces c.query)).2
  simp only [computed, run_replace] at h
  cases hr : (Placeholder.fill (columnText m) (Placeholder.pieces c.query)).run g with
  | mk result g₁ =>
    rw [hr] at h hf
    cases result with
    | error e' =>
      cases h
      rw [run_fill_unjoined hg _ _ (congrArg Prod.fst hr)] at ht
      cases ht
    | ok text =>
      have hfilled := hf text rfl
      rw [← String.toList_ofList (l := text)] at hfilled
      cases hj : c.join with
      | none => simp [hj] at h
      | some join =>
        cases hs : Placeholder.replace join (aliasText g₁ c.path) with
        | ok sql => simp [hj, hs] at h
        | error e' =>
          simp only [andThen_ok, hj, hs, Prod.mk.injEq, Except.error.injEq] at h
          obtain ⟨rfl, rfl⟩ := h
          obtain ⟨name, hname, ha⟩ := Placeholder.replace_error hs
          obtain ⟨hnone, rfl⟩ := aliasText_eq_error.1 ha
          cases ht
          have hjoined : token ∈ c.joined := by simpa [ComputedField.joined, hj] using hname
          exact ⟨String.ofList text, rfl, hjoined, hnone, .computed hfilled⟩

theorem member_unjoined (hg : Grows m raw (.new base) g) {label token : String} {x : Member}
    (h : member m g label x = (g', .error e)) (ht : e.unjoined? = some token) :
    ∃ c sql, x = .computed c ∧ e = .unresolvedJoinToken c.path token ∧ token ∈ c.joined ∧
      g'.aliasFor? token = none ∧ SelectedField.Shows m g' x ⟨c.path, label, .computed sql, c.field⟩ := by
  cases x with
  | plain path =>
    simp only [member, plain, Prod.mk.injEq] at h
    cases hc : (g.columnAt m path).2 with
    | error e' =>
      rw [hc] at h
      cases h.2
      rw [columnAt_unjoined hg path _ hc] at ht
      cases ht
    | ok column =>
      rw [hc] at h
      cases h.2
  | computed c =>
    obtain ⟨sql, he, hjoined, hnone, hshows⟩ := computed_unjoined hg h ht
    exact ⟨c, sql, rfl, he, hjoined, hnone, hshows⟩

theorem mem_firsts_append_singleton {seen : List String} {members : List Member} {x y : Member}
    (h : y ∈ firsts seen (members ++ [x])) : y ∈ firsts seen members ∨ y = x := by
  induction members generalizing seen with
  | nil =>
    rw [List.nil_append, firsts] at h
    split at h
    · cases h
    · exact .inr (List.mem_singleton.1 h)
  | cons first rest ih =>
    rw [List.cons_append, firsts] at h
    rw [firsts]
    split at h
    · rename_i hseen
      rw [if_pos hseen]
      exact ih h
    · rename_i hseen
      rw [if_neg hseen]
      rcases List.mem_cons.1 h with rfl | h
      · exact .inl List.mem_cons_self
      · exact (ih h).imp (List.mem_cons_of_mem _) id

/-- A join token has no alias only if its collection is not the one that is asked, and neither the member
with the join nor one that is selected before it passes through the collection. -/
theorem notMem_passed_of_unjoined {types : FieldTypes} {d : ModelDocument} (hl : Model.ofDocument types d = .ok m)
    {members : List Member} {token : String} (h : build m (.new base) members = (g, .error e))
    (ht : e.unjoined? = some token) :
    token ≠ base ∧ ∃ before c after, members = before ++ .computed c :: after ∧ token ∈ c.joined ∧
      e = .member base c.path (.unresolvedJoinToken c.path token) ∧
      ∀ x ∈ firsts [] (before ++ [.computed c]), token ∉ x.passed m base := by
  obtain ⟨before, x, after, g₁, p₁, cause, rfl, hbefore, _, hx, rfl⟩ := extend_error h
  have hg₁ : Grows m (Joins (before ++ x :: after)) (.new base) g₁ := by
    have hgrows := @extend_grows m (.new base) (before ++ x :: after) before
      (fun y hy => List.mem_append_left _ hy) {}
    rwa [hbefore] at hgrows
  obtain ⟨c, sql, rfl, rfl, hjoined, hnone, hshows⟩ := member_unjoined hg₁ hx ht
  have hlast : Grows m (Joins (before ++ .computed c :: after)) g₁ g := by
    have hgrows := @member_grows m g₁ (before ++ .computed c :: after) (.computed c) (by simp)
      (label p₁.fields.length)
    rwa [hx] at hgrows
  have hg : Grows m (Joins (before ++ .computed c :: after)) (.new base) g := hg₁.trans hlast
  rw [aliasFor?_eq_none] at hnone
  have hbase : g.base.collection = base := by
    rw [hg.base_eq]
    rfl
  refine ⟨?_, before, c, after, rfl, hjoined, congrArg (Query.Error.member · _ _) hbase, ?_⟩
  · rw [← hbase]
    exact (hnone g.base List.mem_cons_self).symm
  · intro y hy hpassed
    have hjoin : ∃ table ∈ g.base :: g.tables, table.collection = token := by
      rcases mem_firsts_append_singleton hy with hy | rfl
      · obtain ⟨f, _, hf⟩ := exists_mem_left (build_ok hbefore).flip hy
        exact (hf.mono hlast).exists_passed hl hg hpassed
      · exact hshows.exists_passed hl hg hpassed
    obtain ⟨table, htable, hcollection⟩ := hjoin
    exact hnone table htable hcollection

def taggedPosts : ModelDocument where
  collections := ⟨[
    ("author", {
      fields := ⟨[("name", .ofType "string")]⟩
      fieldSets := ⟨[]⟩
      computed := ⟨[]⟩
      searchPrefixes := ⟨[]⟩ }),
    ("post", {
      fields := ⟨[("author", .reference "author"), ("title", .ofType "string")]⟩
      fieldSets := ⟨[("identity", ["title"]), ("plain", ["title", "tagged"]), ("early", ["tagged", "author.name"]),
        ("twice", ["title", "byline", "tagged"])]⟩
      computed := ⟨[("byline", ⟨"[author.name]", "string", some "title", none⟩),
        ("tagged", ⟨"tg.label", "string", none, some "LEFT JOIN tag tg ON tg.owner = [author].id"⟩)]⟩
      searchPrefixes := ⟨[]⟩ })]⟩
  templates := ⟨[]⟩
  hooks := []

theorem notMem_passed_taggedPosts : ∃ m c members g e, Model.ofDocument .builtin taggedPosts = .ok m ∧
    m.collection "post" = .ok c ∧ c.fieldSet (some "plain") = .ok members ∧
    build m (.new "post") members = (g, .error e) ∧ e.unjoined? = some "author" ∧ "author" ≠ "post" ∧
    ∃ before c after, members = before ++ .computed c :: after ∧ "author" ∈ c.joined ∧
      e = .member "post" c.path (.unresolvedJoinToken c.path "author") ∧
      ∀ x ∈ firsts [] (before ++ [.computed c]), "author" ∉ x.passed m "post" := by
  obtain ⟨m, hl, h⟩ := exists_of_passes (show passes (fun m => passes (fun c => passes (fun members =>
        fails (·.unjoined? == some "author") (build m (.new "post") members).2)
      (c.fieldSet (some "plain"))) (m.collection "post")) (Model.ofDocument .builtin taggedPosts) = true by
        decide +kernel)
  obtain ⟨c, hc, h⟩ := exists_of_passes h
  obtain ⟨members, hm, h⟩ := exists_of_passes h
  obtain ⟨e, he, ht⟩ := exists_of_fails h
  obtain ⟨hbase, hmember⟩ := notMem_passed_of_unjoined hl (Prod.ext rfl he) (beq_iff_eq.1 ht)
  exact ⟨m, c, members, _, e, hl, hc, hm, Prod.ext rfl he, beq_iff_eq.1 ht, hbase, hmember⟩

/-- A join token has no alias although a member passes through its collection: one that is selected later,
and one that is not selected, because the path it is shown under is taken. -/
theorem mem_passed_taggedPosts : ∃ m c early twice g e g' e', Model.ofDocument .builtin taggedPosts = .ok m ∧
    m.collection "post" = .ok c ∧ c.fieldSet (some "early") = .ok early ∧ c.fieldSet (some "twice") = .ok twice ∧
    build m (.new "post") early = (g, .error e) ∧ e.unjoined? = some "author" ∧
    (∃ x ∈ early, "author" ∈ x.passed m "post") ∧
    build m (.new "post") twice = (g', .error e') ∧ e'.unjoined? = some "author" ∧
    ∃ x ∈ twice, "author" ∈ x.passed m "post" := by
  obtain ⟨m, hl, h⟩ := exists_of_passes (show passes (fun m => passes (fun c =>
    passes (fun early => passes (fun twice =>
        fails (·.unjoined? == some "author") (build m (.new "post") early).2 &&
          fails (·.unjoined? == some "author") (build m (.new "post") twice).2 &&
          early.any (fun x => "author" ∈ x.passed m "post") && twice.any (fun x => "author" ∈ x.passed m "post"))
      (c.fieldSet (some "twice"))) (c.fieldSet (some "early"))) (m.collection "post"))
    (Model.ofDocument .builtin taggedPosts) = true by decide +kernel)
  obtain ⟨c, hc, h⟩ := exists_of_passes h
  obtain ⟨early, hearly, h⟩ := exists_of_passes h
  obtain ⟨twice, htwice, h⟩ := exists_of_passes h
  simp only [Bool.and_eq_true, List.any_eq_true, decide_eq_true_eq] at h
  obtain ⟨⟨⟨hfails, hfails'⟩, hpassed⟩, hpassed'⟩ := h
  obtain ⟨e, he, ht⟩ := exists_of_fails hfails
  obtain ⟨e', he', ht'⟩ := exists_of_fails hfails'
  exact ⟨m, c, early, twice, _, e, _, e', hl, hc, hearly, htwice, Prod.ext rfl he, beq_iff_eq.1 ht, hpassed,
    Prod.ext rfl he', beq_iff_eq.1 ht', hpassed'⟩

end Selection

end Retrieval
