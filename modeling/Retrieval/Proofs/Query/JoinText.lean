import Retrieval.Proofs.Query.MemberOrder
import Retrieval.Proofs.Sql.Sentence

namespace Retrieval

open JoinGraph

theorem append_cons_inj_of_notMem_right {α : Type} {c : α} {xs ys us vs : List α} (hu : c ∉ us) (hv : c ∉ vs)
    (h : xs ++ c :: us = ys ++ c :: vs) : xs = ys ∧ us = vs := by
  rw [List.append_eq_append_iff] at h
  obtain ⟨more, rfl, hmore⟩ | ⟨more, rfl, hmore⟩ := h
  · cases more with
    | nil => exact ⟨(List.append_nil xs).symm, (List.cons.inj hmore).2⟩
    | cons d more => exact absurd (by simp [(List.cons.inj hmore).2]) hu
  · cases more with
    | nil => exact ⟨List.append_nil ys, (List.cons.inj hmore).2.symm⟩
    | cons d more => exact absurd (by simp [(List.cons.inj hmore).2]) hv

def JoinStep.raw? : JoinStep → Option String
  | .hop .. => none
  | .raw sql => some sql

/-- The join that a member is written with, in which collections stand by their aliases. -/
def Member.writtenJoin? (alias? : String → Option String) : Member → Option String
  | .plain _ => none
  | .computed c => c.join.bind fun join => Placeholder.replace join alias?

namespace JoinGraph

variable {m : Model} {raw : JoinGraph → String → Prop} {base : String} {g g' : JoinGraph}
  {order : List (List String)} {hops : List String}

def firstAlias? (m : Model) (base : String) (order : List (List String)) (collection : String) : Option String :=
  if collection = base then some (String.ofList [letter base])
  else (order.find? fun hops => (tableOf m base order hops).collection == collection).map fun hops =>
    (tableOf m base order hops).aliasName

def rawJoins (g : JoinGraph) : List String :=
  g.steps.filterMap JoinStep.raw?

theorem rawJoins_addRaw (sql : String) : (g.addRaw sql).rawJoins = g.rawJoins ++ [sql] := by
  simp [rawJoins, addRaw, JoinStep.raw?]

theorem aliasFor?_addRaw (sql : String) : (g.addRaw sql).aliasFor? = g.aliasFor? := by
  funext collection
  rw [aliasFor?, base_addRaw, tables_addRaw, aliasFor?]

theorem Grows.rawJoins_eq (h : Grows m (fun _ _ => False) g g') : g'.rawJoins = g.rawJoins := by
  induction h with
  | refl => rfl
  | tail _ hs ih =>
    cases hs with
    | hop hd hc hn ht =>
      rw [← ih]
      simp [rawJoins, addHop, JoinStep.raw?]
    | raw hr => exact hr.elim

theorem Grows.aliasFor?_mono (h : Grows m raw g g') {collection aliasName : String}
    (ha : g.aliasFor? collection = some aliasName) : g'.aliasFor? collection = some aliasName := by
  induction h with
  | refl => exact ha
  | @tail g₁ _ _ hs ih =>
    cases hs with
    | hop hd hc hn ht =>
      obtain ⟨table, htable, halias⟩ := Option.map_eq_some_iff.1 ih
      rw [aliasFor?, base_addHop, tables_addHop, ← List.cons_append, List.find?_append, htable]
      exact congrArg some halias
    | raw hr => rw [aliasFor?_addRaw, ih]

theorem perm_joins (g : JoinGraph) :
    (g.joins.map (·.sql)).Perm ((g.joins.filter Sql.Join.isGenerated).map (·.sql) ++ g.rawJoins) := by
  have hraw : (g.joins.filter (!·.isGenerated)).map (·.sql) = g.rawJoins := by
    rw [joins, rawJoins]
    generalize g.steps = steps
    induction steps with
    | nil => rfl
    | cons step rest ih =>
      cases step with
      | hop key table source hop => exact ih
      | raw sql =>
        have hsql : (JoinStep.raw sql).join.sql = sql := by
          simp [JoinStep.join, Sql.Join.sql, Sql.Join.tokens, Sql.render, Sql.Token.text]
        have hstep : (JoinStep.raw sql).raw? = some sql := rfl
        rw [List.map_cons, List.filter_cons_of_pos rfl, List.map_cons, ih, hsql, List.filterMap_cons_some hstep]
  rw [← hraw, ← List.map_append]
  exact (List.filter_append_perm _ _).symm.map _

theorem isAlphanum_tableOf {c : Char} (hc : c ∈ (tableOf m base order hops).aliasName.toList) :
    c.isAlphanum = true := by
  rw [tableOf] at hc
  split at hc
  · rw [new, String.toList_ofList, List.mem_singleton] at hc
    rw [hc]
    exact isAlphanum_letter base
  · rw [String.toList_ofList] at hc
    rcases List.mem_cons.1 hc with rfl | hc
    · exact isAlphanum_letter _
    · exact isAlphanum_of_mem_digitChars hc

theorem aliasNumber_tableOf (hne : hops ≠ []) :
    aliasNumber (tableOf m base order hops) = order.idxOf hops + 1 := by
  simp [tableOf, hne, aliasNumber]

theorem toList_sql_hop (key : String) (table : QueryTable) (source hop : String) :
    (JoinStep.hop key table source hop).join.sql.toList =
      (("LEFT JOIN ".toList ++ table.collection.toList ++ ' ' :: table.aliasName.toList ++ " ON".toList ++
        ' ' :: table.aliasName.toList) ++ ".id =".toList ++ ' ' :: source.toList) ++ '.' :: hop.toList := by
  rw [Sql.Join.sql, Sql.toList_render]
  simp [JoinStep.join, Sql.Join.tokens, Sql.Table.tokens, Sql.Expr.tokens, Sql.Operator.token, Sql.Token.text,
    keyField]

theorem aliasName_of_sql_eq {key key' source source' hop hop' : String} {table table' : QueryTable}
    (hhop : '.' ∉ hop.toList) (hhop' : '.' ∉ hop'.toList) (hsource : ' ' ∉ source.toList)
    (hsource' : ' ' ∉ source'.toList) (halias : ' ' ∉ table.aliasName.toList)
    (halias' : ' ' ∉ table'.aliasName.toList)
    (h : (JoinStep.hop key table source hop).join.sql = (JoinStep.hop key' table' source' hop').join.sql) :
    table.aliasName = table'.aliasName := by
  have htext := congrArg String.toList h
  rw [toList_sql_hop, toList_sql_hop] at htext
  obtain ⟨hbefore, _⟩ := append_cons_inj_of_notMem_right hhop hhop' htext
  obtain ⟨hkey, _⟩ := append_cons_inj_of_notMem_right hsource hsource' hbefore
  obtain ⟨_, hname⟩ := append_cons_inj_of_notMem_right halias halias' (List.append_cancel_right hkey)
  exact String.toList_inj.1 hname

theorem space_notMem_alias (hops : List String) : ' ' ∉ (tableOf m base order hops).aliasName.toList := by
  intro hspace
  have := isAlphanum_tableOf hspace
  cases this

theorem Walkable.dot_notMem_last (h : Walkable m base order) (hh : hops ∈ order) :
    '.' ∉ (hops.getLast?.getD "").toList := by
  obtain ⟨hne, hd⟩ := h.dotFree hops hh
  rw [List.getLast?_eq_some_getLast hne]
  exact hd _ (List.getLast_mem hne)

theorem Walkable.nodup_sql (h : Walkable m base order) :
    (order.map fun hops => (stepTo m base order hops).join.sql).Nodup := by
  apply List.Nodup.map_on _ h.nodup
  intro hops hh hops' hh' hsql
  have hname := aliasName_of_sql_eq (h.dot_notMem_last hh) (h.dot_notMem_last hh') (space_notMem_alias _)
    (space_notMem_alias _) (space_notMem_alias _) (space_notMem_alias _) hsql
  have hnumber : aliasNumber (tableOf m base order hops) = aliasNumber (tableOf m base order hops') := by
    rw [aliasNumber, aliasNumber, hname]
  rw [aliasNumber_tableOf (h.dotFree hops hh).1, aliasNumber_tableOf (h.dotFree hops' hh').1,
    Nat.add_right_cancel_iff] at hnumber
  exact (List.idxOf_inj hh).1 hnumber

end JoinGraph

namespace Selection

variable {m : Model} {base : String} {g g' : JoinGraph} {members : List Member} {p p' : Selection}

def walked (m : Model) (base : String) (members : List Member) : List (List String) :=
  ((firsts [] members).flatMap (Member.walks m base)).eraseDups

/-- The joins of the tables that a selection needs, one for each sequence of hops. -/
def generatedJoins (m : Model) (base : String) (members : List Member) : List String :=
  let order := walked m base members
  order.map fun hops => (stepTo m base order hops).join.sql

/-- The joins that the members of a selection are written with, each as often as it is. -/
def writtenJoins (m : Model) (base : String) (members : List Member) : List String :=
  (firsts [] members).filterMap (Member.writtenJoin? (firstAlias? m base (walked m base members)))

theorem rawJoins_member {label : String} {x : Member} {f : SelectedField} {alias? : String → Option String}
    (h : member m g label x = (g', .ok f))
    (ha : ∀ collection aliasName, g'.aliasFor? collection = some aliasName → alias? collection = some aliasName) :
    g'.rawJoins = g.rawJoins ++ (x.writtenJoin? alias?).toList := by
  cases x with
  | plain path =>
    simp only [member, plain, Prod.mk.injEq] at h
    have hgrows : Grows m (fun _ _ => False) g (g.columnAt m path).1 := columnAt_grows path
    rw [h.1] at hgrows
    simp [hgrows.rawJoins_eq, Member.writtenJoin?]
  | computed c =>
    have hgrows := (@run_fill m (fun _ _ => False) g (Placeholder.pieces c.query)).1
    simp only [member, computed, run_replace] at h
    cases hr : (Placeholder.fill (columnText m) (Placeholder.pieces c.query)).run g with
    | mk result g₁ =>
      rw [hr] at h hgrows
      cases result with
      | error e => cases h
      | ok text =>
        cases hj : c.join with
        | none =>
          simp only [andThen_ok, hj, Prod.mk.injEq] at h
          rw [← h.1, hgrows.rawJoins_eq, Member.writtenJoin?, hj]
          simp
        | some join =>
          cases hs : Placeholder.replace join (aliasText g₁ c.path) with
          | error e => simp [hj, hs] at h
          | ok sql =>
            simp only [andThen_ok, hj, hs, Prod.mk.injEq] at h
            have hlookup : Placeholder.replace join alias? = some sql := by
              apply Placeholder.replace_eq_some hs
              intro token text htoken
              apply ha
              rw [← h.1, aliasFor?_addRaw]
              exact aliasText_eq_ok.1 htoken
            rw [← h.1, rawJoins_addRaw, hgrows.rawJoins_eq, Member.writtenJoin?, hj, Option.bind_some, hlookup]
            rfl

theorem rawJoins_extend {alias? : String → Option String} (he : extend m g p members = (g', .ok p'))
    (ha : ∀ collection aliasName, g'.aliasFor? collection = some aliasName → alias? collection = some aliasName) :
    g'.rawJoins = g.rawJoins ++ (firsts p.paths members).filterMap (Member.writtenJoin? alias?) := by
  induction members generalizing g p with
  | nil =>
    cases he
    simp [firsts]
  | cons x rest ih =>
    rw [extend] at he
    split at he
    · rename_i hseen
      rw [firsts, if_pos (isSome_get?_iff.1 hseen)]
      exact ih he
    · rename_i hnew
      rw [firsts, if_neg (fun hp => hnew (isSome_get?_iff.2 hp))]
      cases hx : member m g (label p.fields.length) x with
      | mk g₁ result =>
        cases result with
        | error e => simp [hx] at he
        | ok f =>
          simp only [hx] at he
          have hrest := ih he
          have hgrows := @extend_grows m g₁ rest rest (fun _ hy => hy) ⟨p.fields ++ [f]⟩
          rw [he] at hgrows
          have hfirst := rawJoins_member hx fun collection aliasName halias =>
            ha collection aliasName (hgrows.aliasFor?_mono halias)
          rw [hrest, paths_push (member_ok hx).1, hfirst, List.append_assoc, List.filterMap_cons]
          cases x.writtenJoin? alias? <;> simp

/-- A selection has the joins of its paths and those that its members are written with. -/
theorem perm_build (h : build m (.new base) members = (g, .ok p)) :
    (g.joins.map (·.sql)).Perm (generatedJoins m base members ++ writtenJoins m base members) := by
  have hlaid : Laid m base (walked m base members) g := (build_laid h).1
  have hgenerated : (g.joins.filter Sql.Join.isGenerated).map (·.sql) = generatedJoins m base members := by
    rw [hlaid.numbered.joins, List.map_map]
    rfl
  have hfirst : ∀ collection, g.aliasFor? collection = firstAlias? m base (walked m base members) collection :=
    hlaid.numbered.firsts
  have hraw := rawJoins_extend h fun collection aliasName halias => (hfirst collection).symm.trans halias
  have hwritten : g.rawJoins = writtenJoins m base members := hraw
  rw [← hgenerated, ← hwritten]
  exact perm_joins g

theorem nodup_generatedJoins (h : build m (.new base) members = (g, .ok p)) :
    (generatedJoins m base members).Nodup :=
  (build_laid h).1.toWalkable.nodup_sql

end Selection

namespace Query

open Selection

/-- No two joins of a query have the same text. -/
def JoinsOnce (q : Query) : Prop :=
  (q.statement.joins.map (·.sql)).Nodup

/-- The joins of a query are different if those that its members are written with are, from each other and from
those that paths lead to. -/
theorem joinsOnce_iff {m : Model} {r : Request} {c : Collection} {members : List Member} {q : Query}
    (hc : m.collection r.collection = .ok c) (hm : c.fieldSet r.fieldSet = .ok members)
    (hq : ofRequest m r = .ok q) : q.JoinsOnce ↔
      (writtenJoins m r.collection members).Nodup ∧
        ∀ sql ∈ writtenJoins m r.collection members, sql ∉ generatedJoins m r.collection members := by
  obtain ⟨parts, hparts, rfl, rfl⟩ := ofRequest_members hc hm hq
  have hjoins : q.statement.joins = parts.graph.joins := by rw [hparts.query]
  rw [JoinsOnce, hjoins, (perm_build hparts.selection).nodup_iff, List.nodup_append_comm, List.nodup_append']
  constructor
  · rintro ⟨hwritten, _, hdisjoint⟩
    exact ⟨hwritten, fun sql hsql => hdisjoint hsql⟩
  · rintro ⟨hwritten, hdisjoint⟩
    exact ⟨hwritten, nodup_generatedJoins hparts.selection, fun sql hsql => hdisjoint sql hsql⟩

def commentedPosts : ModelDocument where
  collections := ⟨[
    ("author", {
      fields := ⟨[("name", .ofType "string")]⟩
      fieldSets := ⟨[]⟩
      computed := ⟨[]⟩
      searchPrefixes := ⟨[]⟩ }),
    ("comment", {
      fields := ⟨[("body", .ofType "string"), ("name", .ofType "string"), ("post", .reference "post")]⟩
      fieldSets := ⟨[]⟩
      computed := ⟨[]⟩
      searchPrefixes := ⟨[]⟩ }),
    ("post", {
      fields := ⟨[("author", .reference "author"), ("title", .ofType "string")]⟩
      fieldSets := ⟨[("feed", ["comment_body", "comment_name"]), ("identity", ["title"]),
        ("teaser", ["author.name", "author.id", "comment_body"])]⟩
      computed := ⟨[
        ("comment_body", ⟨"lc.body", "string", none, some "LEFT JOIN comment lc ON lc.post = [post].id"⟩),
        ("comment_name", ⟨"lc.name", "string", none, some "LEFT JOIN comment lc ON lc.post = [post].id"⟩)]⟩
      searchPrefixes := ⟨[]⟩ })]⟩
  templates := ⟨[]⟩
  hooks := []

theorem joinsOnce_teaser : ∃ m c members q, Model.ofDocument .builtin commentedPosts = .ok m ∧
    m.collection "post" = .ok c ∧ c.fieldSet (some "teaser") = .ok members ∧
    ofRequest m (.ofFieldSet "post" "teaser") = .ok q ∧
    generatedJoins m "post" members = ["LEFT JOIN author a1 ON a1.id = p.author"] ∧
    writtenJoins m "post" members = ["LEFT JOIN comment lc ON lc.post = p.id"] ∧ q.JoinsOnce := by
  obtain ⟨m, hl, h⟩ := exists_of_passes (show passes (fun m => passes (fun c => passes (fun members =>
        passes (fun _ => decide (generatedJoins m "post" members = ["LEFT JOIN author a1 ON a1.id = p.author"]) &&
            decide (writtenJoins m "post" members = ["LEFT JOIN comment lc ON lc.post = p.id"]))
          (ofRequest m (.ofFieldSet "post" "teaser")))
      (c.fieldSet (some "teaser"))) (m.collection "post")) (Model.ofDocument .builtin commentedPosts) = true by
        decide +kernel)
  obtain ⟨c, hc, h⟩ := exists_of_passes h
  obtain ⟨members, hm, h⟩ := exists_of_passes h
  obtain ⟨q, hq, h⟩ := exists_of_passes h
  obtain ⟨hgenerated, hwritten⟩ := Bool.and_eq_true_iff.1 h
  have hgenerated := of_decide_eq_true hgenerated
  have hwritten := of_decide_eq_true hwritten
  refine ⟨m, c, members, q, hl, hc, hm, hq, hgenerated, hwritten, (joinsOnce_iff hc hm hq).2 ⟨?_, ?_⟩⟩
  · change (writtenJoins m "post" members).Nodup
    rw [hwritten]
    decide
  · change ∀ sql ∈ writtenJoins m "post" members, sql ∉ generatedJoins m "post" members
    rw [hwritten, hgenerated]
    decide

/-- The join that two members are written with is there twice, and its alias stands for two tables. -/
theorem not_joinsOnce_feed : ∃ m q, Model.ofDocument .builtin commentedPosts = .ok m ∧
    ofRequest m (.ofFieldSet "post" "feed") = .ok q ∧
    q.sql = "SELECT lc.body AS f0, lc.name AS f1, p.id AS f2 FROM post p " ++
      "LEFT JOIN comment lc ON lc.post = p.id LEFT JOIN comment lc ON lc.post = p.id" ∧ ¬ q.JoinsOnce := by
  obtain ⟨m, hl, h⟩ := exists_of_passes (show passes (fun m => passes (fun q =>
        decide (q.sql = "SELECT lc.body AS f0, lc.name AS f1, p.id AS f2 FROM post p " ++
          "LEFT JOIN comment lc ON lc.post = p.id LEFT JOIN comment lc ON lc.post = p.id") &&
        !decide ((q.statement.joins.map (·.sql)).Nodup))
      (ofRequest m (.ofFieldSet "post" "feed"))) (Model.ofDocument .builtin commentedPosts) = true by
        decide +kernel)
  obtain ⟨q, hq, h⟩ := exists_of_passes h
  simp only [Bool.and_eq_true, decide_eq_true_eq, Bool.not_eq_true', decide_eq_false_iff_not] at h
  exact ⟨m, q, hl, hq, h.1, h.2⟩

end Query

end Retrieval
