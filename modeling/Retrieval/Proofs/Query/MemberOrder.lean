import Retrieval.Proofs.Query.JoinOrder
import Retrieval.Proofs.Query.JoinToken

namespace Retrieval

open JoinGraph

def Query.Error.member? : Query.Error → Option (String × String)
  | .member collection path _ => some (collection, path)
  | .request _ | .unknownField _ _ | .notAReference _ _ | .unresolvedJoinToken _ _ => none

theorem Query.Error.member?_eq_some {e : Query.Error} {collection path : String} :
    e.member? = some (collection, path) ↔ ∃ cause, e = .member collection path cause := by
  cases e <;> simp [member?]

def Member.walks (m : Model) (base : String) : Member → List (List String)
  | .plain path => JoinGraph.walks m base path.hops
  | .computed c => (Placeholder.names c.query).flatMap fun token => JoinGraph.walks m base (Path.mk token).hops

/-- The collections that have a table once some members are selected. -/
def Selection.reaches (m : Model) (base : String) (members : List Member) : List String :=
  base :: (members.flatMap (Member.walks m base)).filterMap fun hops => (destination m base hops).toOption

/-- How a member resolves behind others, without a graph: its paths have columns, and the collections that its
join names have tables. -/
def Member.resolve (m : Model) (base : String) (earlier : List Member) : Member → Except Query.Error Unit
  | .plain path => outcome (declaredAt m base path)
  | .computed c => do
    (Placeholder.names c.query).forM fun token => outcome (declaredAt m base ⟨token⟩)
    c.joined.forM fun token =>
      if token ∈ Selection.reaches m base (earlier ++ [.computed c]) then .ok ()
      else .error (.unresolvedJoinToken c.path token)

namespace JoinGraph

variable {m : Model} {base : String} {g : JoinGraph} {seen : List (List String)}

theorem Laid.outcome_columnAt {order : List (List String)} (h : Laid m base order g) (path : Path) :
    outcome (g.columnAt m path).2 = outcome (declaredAt m base path) := by
  rw [← columnAt_declared h.grows path, outcome_map]

theorem Laid.aliasFor?_eq_none (h : Laid m base seen.eraseDups g) {collection : String} :
    g.aliasFor? collection = none ↔
      collection ≠ base ∧ ∀ hops ∈ seen, destination m base hops ≠ .ok collection := by
  rw [JoinGraph.aliasFor?_eq_none, h.base_eq, h.tables_eq, List.forall_mem_cons, List.forall_mem_map]
  have hbase : (new base).base.collection ≠ collection ↔ collection ≠ base := ne_comm
  rw [hbase]
  refine and_congr_right fun _ => ?_
  simp only [List.mem_eraseDups]
  refine forall₂_congr fun hops hh => ?_
  rw [h.destination_eq (.inr (List.mem_eraseDups.2 hh)), ne_eq, ne_eq, Except.ok.injEq]

end JoinGraph

namespace Selection

variable {m : Model} {base : String} {g g' : JoinGraph} {seen : List (List String)}
  {earlier members : List Member} {p p' : Selection}

abbrev Joined (m : Model) (base : String) (members : List Member) (g : JoinGraph) : Prop :=
  Laid m base (members.flatMap (Member.walks m base)).eraseDups g

theorem mem_reaches {collection : String} : collection ∈ reaches m base members ↔
    collection = base ∨
      ∃ hops ∈ members.flatMap (Member.walks m base), destination m base hops = .ok collection := by
  have hok : ∀ hops, (destination m base hops).toOption = some collection ↔
      destination m base hops = .ok collection := by
    intro hops
    cases destination m base hops <;> simp [Except.toOption]
  simp only [reaches, List.mem_cons, List.mem_filterMap, hok]

theorem run_fill_laid (h : Laid m base seen.eraseDups g) (ps : List Placeholder.Piece) :
    outcome ((Placeholder.fill (columnText m) ps).run g).1 =
        (ps.filterMap Placeholder.Piece.name?).forM (fun token => outcome (declaredAt m base ⟨token⟩)) ∧
      ∀ text, ((Placeholder.fill (columnText m) ps).run g).1 = .ok text →
        Laid m base (seen ++ (ps.filterMap Placeholder.Piece.name?).flatMap
          fun token => walks m base (Path.mk token).hops).eraseDups ((Placeholder.fill (columnText m) ps).run g).2 := by
  induction ps generalizing g seen with
  | nil =>
    refine ⟨rfl, ?_⟩
    intro text _
    change Laid m base (seen ++ []).eraseDups g
    rwa [List.append_nil]
  | cons p rest ih =>
    cases p with
    | char c =>
      rw [run_fill_cons_char]
      obtain ⟨houtcome, hlaid⟩ := ih h
      cases hr : (Placeholder.fill (columnText m) rest).run g with
      | mk result g₁ =>
        rw [hr] at houtcome hlaid
        cases result with
        | error e => exact ⟨houtcome, by simp⟩
        | ok tail => exact ⟨houtcome, fun _ _ => hlaid tail rfl⟩
    | name run =>
      rw [run_fill_cons_name]
      have hcolumn := h.outcome_columnAt ⟨String.ofList run⟩
      have hwalked := h.columnAt ⟨String.ofList run⟩
      have hname : (Placeholder.Piece.name run).name? = some (String.ofList run) := rfl
      rw [List.filterMap_cons_some hname, List.forM, ← hcolumn]
      cases hcol : g.columnAt m ⟨String.ofList run⟩ with
      | mk g₁ found =>
        rw [hcol] at hwalked
        cases found with
        | error e => exact ⟨rfl, by simp⟩
        | ok column =>
          obtain ⟨houtcome, hlaid⟩ := ih hwalked
          rw [Prod.swap_prod_mk, andThen_ok]
          cases hr : (Placeholder.fill (columnText m) rest).run g₁ with
          | mk result g₂ =>
            rw [hr] at houtcome hlaid
            cases result with
            | error e => exact ⟨houtcome, by simp⟩
            | ok tail =>
              refine ⟨houtcome, fun _ _ => ?_⟩
              rw [List.flatMap_cons, ← List.append_assoc]
              exact hlaid tail rfl

theorem outcome_aliasText {c : ComputedField}
    (h : Joined m base (earlier ++ [.computed c]) g) (token : String) :
    outcome (aliasText g c.path token) =
      if token ∈ reaches m base (earlier ++ [.computed c]) then .ok ()
      else .error (.unresolvedJoinToken c.path token) := by
  have hnone : g.aliasFor? token = none ↔ token ∉ reaches m base (earlier ++ [.computed c]) := by
    rw [h.aliasFor?_eq_none, mem_reaches, not_or]
    simp only [not_exists, not_and, ne_eq]
  rw [aliasText]
  cases ha : g.aliasFor? token with
  | none =>
    rw [if_neg (hnone.1 ha)]
    rfl
  | some aliasName =>
    have hreached : token ∈ reaches m base (earlier ++ [.computed c]) := by
      by_contra hn
      rw [hnone.2 hn] at ha
      cases ha
    rw [if_pos hreached]
    rfl

theorem computed_laid (h : Joined m base earlier g) (label : String) (c : ComputedField) :
    outcome (computed m g label c).2 = (Member.computed c).resolve m base earlier ∧
      ∀ f, (computed m g label c).2 = .ok f →
        Joined m base (earlier ++ [.computed c]) (computed m g label c).1 := by
  obtain ⟨houtcome, hlaid⟩ := run_fill_laid h (Placeholder.pieces c.query)
  simp only [computed, run_replace, Member.resolve, Placeholder.names]
  rw [← houtcome]
  cases hr : (Placeholder.fill (columnText m) (Placeholder.pieces c.query)).run g with
  | mk result g₁ =>
    rw [hr] at hlaid
    cases result with
    | error e => exact ⟨rfl, by simp⟩
    | ok text =>
      -- the tables that the expression needs are there before the join is filled in
      have hjoined : Joined m base (earlier ++ [.computed c]) g₁ := by
        rw [Joined, List.flatMap_append, List.flatMap_singleton]
        exact hlaid text rfl
      rw [andThen_ok, outcome_ok]
      cases hj : c.join with
      | none => exact ⟨by simp [ComputedField.joined, hj], fun _ _ => hjoined⟩
      | some join =>
        have hreplace := Placeholder.outcome_replace join (aliasText g₁ c.path)
        simp only [outcome_aliasText hjoined] at hreplace
        have hnames : c.joined = Placeholder.names join := by rw [ComputedField.joined, hj, Option.elim_some]
        rw [hnames]
        cases hs : Placeholder.replace join (aliasText g₁ c.path) with
        | error e =>
          rw [hs] at hreplace
          simp only [hs]
          exact ⟨hreplace, by simp⟩
        | ok sql =>
          rw [hs] at hreplace
          simp only [hs]
          exact ⟨hreplace, fun _ _ => hjoined.addRaw sql⟩

/-- A member resolves as it does without the graph, and walks what it walks without the graph. -/
theorem member_laid (h : Joined m base earlier g) (label : String) (x : Member) :
    outcome (member m g label x).2 = x.resolve m base earlier ∧
      ∀ f, (member m g label x).2 = .ok f → Joined m base (earlier ++ [x]) (member m g label x).1 := by
  cases x with
  | plain path =>
    rw [Joined, List.flatMap_append, List.flatMap_singleton]
    refine ⟨?_, fun _ _ => h.columnAt path⟩
    rw [member, plain, Member.resolve, ← h.outcome_columnAt path]
    exact outcome_map ..
  | computed c => exact computed_laid h label c

theorem paths_push {x : Member} {f : SelectedField} (h : f.Shows m g x) :
    (Selection.mk (p.fields ++ [f])).paths = p.paths ++ [x.path] := by
  rw [paths, List.map_append, List.map_singleton, h.path_eq]
  rfl

theorem extend_laid (h : Joined m base earlier g)
    (he : extend m g p members = (g', .ok p')) :
    Joined m base (earlier ++ firsts p.paths members) g' ∧
      ∀ before x after, firsts p.paths members = before ++ x :: after →
        x.resolve m base (earlier ++ before) = .ok () := by
  -- the graph has the tables of the members in `earlier`, to which each selected member is added
  induction members generalizing g p earlier with
  | nil =>
    cases he
    rw [firsts, List.append_nil]
    refine ⟨h, ?_⟩
    intro before x after hsplit
    simp at hsplit
  | cons x rest ih =>
    rw [extend] at he
    split at he
    · rename_i hseen
      rw [firsts, if_pos (isSome_get?_iff.1 hseen)]
      exact ih h he
    · rename_i hnew
      rw [firsts, if_neg (fun hp => hnew (isSome_get?_iff.2 hp))]
      obtain ⟨houtcome, hlaid⟩ := member_laid h (label p.fields.length) x
      cases hx : member m g (label p.fields.length) x with
      | mk g₁ result =>
        rw [hx] at houtcome hlaid
        cases result with
        | error e => simp [hx] at he
        | ok f =>
          simp only [hx] at he
          obtain ⟨hrest, hresolves⟩ := ih (hlaid f rfl) he
          rw [paths_push (member_ok hx).1] at hrest hresolves
          refine ⟨by rwa [List.append_cons], ?_⟩
          intro before y after hsplit
          cases before with
          | nil =>
            obtain ⟨rfl, _⟩ := List.cons.inj hsplit
            rw [List.append_nil, ← houtcome]
            rfl
          | cons first before =>
            obtain ⟨rfl, htail⟩ := List.cons.inj hsplit
            rw [List.append_cons]
            exact hresolves before y after htail

theorem extend_firsts (g : JoinGraph) (p : Selection) (members : List Member) :
    extend m g p (firsts p.paths members) = extend m g p members := by
  induction members generalizing g p with
  | nil => rfl
  | cons x rest ih =>
    by_cases hseen : x.path ∈ p.paths
    · rw [firsts, if_pos hseen, extend, if_pos (isSome_get?_iff.2 hseen), ih]
    · have hnew : ¬(p.get? x.path).isSome = true := fun h => hseen (isSome_get?_iff.1 h)
      rw [firsts, if_neg hseen, extend, extend, if_neg hnew, if_neg hnew]
      cases hx : member m g (label p.fields.length) x with
      | mk g₁ result =>
        cases result with
        | error e => rfl
        | ok f =>
          rw [← paths_push (member_ok hx).1]
          exact ih g₁ _

theorem firsts_repeated {x : Member} {seen : List String} {before : List Member} (after : List Member)
    (h : x.path ∈ seen ∨ x.path ∈ before.map Member.path) :
    firsts seen (before ++ x :: after) = firsts seen (before ++ after) := by
  induction before generalizing seen with
  | nil =>
    have hseen : x.path ∈ seen := by simpa using h
    rw [List.nil_append, List.nil_append, firsts, if_pos hseen]
  | cons first rest ih =>
    rw [List.map_cons, List.mem_cons] at h
    rw [List.cons_append, List.cons_append, firsts, firsts]
    by_cases hfirst : first.path ∈ seen
    · rw [if_pos hfirst, if_pos hfirst]
      apply ih
      rcases h with h | h | h
      · exact .inl h
      · exact .inl (h ▸ hfirst)
      · exact .inr h
    · rw [if_neg hfirst, if_neg hfirst]
      congr 1
      apply ih
      rcases h with h | h | h
      · exact .inl (List.mem_append_left _ h)
      · exact .inl (by simp [h])
      · exact .inr h

theorem build_repeated {x : Member} {before : List Member} (g : JoinGraph) (after : List Member)
    (h : x.path ∈ before.map Member.path) :
    build m g (before ++ x :: after) = build m g (before ++ after) := by
  rw [build, build, ← extend_firsts, ← extend_firsts g _ (before ++ after), firsts_repeated after (.inr h)]

theorem paths_firsts (seen : List String) (members : List Member) :
    (firsts seen members).map Member.path = ((members.map Member.path).removeAll seen).eraseDups := by
  induction members generalizing seen with
  | nil => rfl
  | cons x rest ih =>
    rw [firsts, List.map_cons]
    by_cases hseen : x.path ∈ seen
    · rw [if_pos hseen, ih]
      simp [List.removeAll, hseen]
    · have hkept : ((x.path :: rest.map Member.path).removeAll seen).eraseDups =
          x.path :: ((rest.map Member.path).removeAll (seen ++ [x.path])).eraseDups := by
        rw [List.removeAll, List.filter_cons_of_pos (by simpa using hseen), List.eraseDups_cons, List.filter_filter]
        congr 2
        apply List.filter_congr
        intro path _
        by_cases hp : path = x.path <;> simp [hp]
      rw [if_neg hseen, List.map_cons, ih, hkept]

/-- What comes of selecting members: one field for each path, which shows the first member with the path; or
the error of the first member that does not resolve, among those that bring a new path. -/
inductive Selects (m : Model) (base : String) (members : List Member) :
    JoinGraph × Except Query.Error Selection → Prop
  | selected {g : JoinGraph} {p : Selection} (hpaths : p.paths = (members.map Member.path).eraseDups)
      (hlabels : p.fields.map (·.label) = (List.range p.fields.length).map ("f" ++ toString ·))
      (hshows : ∀ f ∈ p.fields, ∃ x, members.find? (·.path == f.path) = some x ∧ f.Shows m g x)
      (hresolve : ∀ before x after, firsts [] members = before ++ x :: after → x.resolve m base before = .ok ()) :
      Selects m base members (g, .ok p)
  | failed {g : JoinGraph} {before after : List Member} {x : Member} {cause : Query.Error}
      (hmembers : members = before ++ x :: after) (hnew : x.path ∉ before.map Member.path)
      (hfails : x.resolve m base (firsts [] before) = .error cause)
      (hresolve : ∀ earlier y later, firsts [] before = earlier ++ y :: later → y.resolve m base earlier = .ok ()) :
      Selects m base members (g, .error (.member base x.path cause))

theorem build_laid (h : build m (.new base) members = (g, .ok p)) :
    Joined m base (firsts [] members) g ∧
      ∀ before x after, firsts [] members = before ++ x :: after → x.resolve m base before = .ok () := by
  have hnew : Joined m base [] (.new base) := laid_new m base
  exact extend_laid hnew h

theorem label_eq (n : Nat) : label n = "f" ++ toString n := by
  rw [label, String.ofList_cons]
  rfl

theorem build_paths (h : build m (.new base) members = (g, .ok p)) :
    p.paths = (members.map Member.path).eraseDups := by
  rw [paths_of_shows (build_ok h), paths_firsts]
  simp [List.removeAll]

/-- Members are selected in order, each path once. A member that repeats an earlier path is passed over,
whether it resolves or not. -/
theorem selects_build (m : Model) (base : String) (members : List Member) :
    Selects m base members (build m (.new base) members) ∧
      ∀ before x after, members = before ++ x :: after → x.path ∈ before.map Member.path →
        build m (.new base) members = build m (.new base) (before ++ after) := by
  constructor
  · cases h : build m (.new base) members with
    | mk g result =>
      cases result with
      | ok p =>
        have hlabels := build_labels h
        rw [funext label_eq] at hlabels
        refine .selected (build_paths h) hlabels ?_ (build_laid h).2
        intro f hf
        obtain ⟨x, hx, hshows⟩ := exists_mem_left (build_ok h) hf
        rw [hshows.path_eq]
        exact ⟨x, find?_of_mem_firsts hx, hshows⟩
      | error e =>
        obtain ⟨before, x, after, g₁, p₁, cause, hmembers, hbefore, hnew, hx, _, rfl⟩ := build_error h
        obtain ⟨hlaid, hresolve⟩ := build_laid hbefore
        have hfails := (member_laid hlaid (label p₁.fields.length) x).1
        rw [hx, outcome_error] at hfails
        rw [build_paths hbefore, List.mem_eraseDups] at hnew
        exact .failed hmembers hnew hfails.symm hresolve
  · rintro before x after rfl h
    exact build_repeated _ after h

def retitledPosts : ModelDocument where
  collections := ⟨[
    ("post", {
      fields := ⟨[("title", .ofType "string")]⟩
      fieldSets := ⟨[("identity", ["title"]), ("list", ["title", "shout", "author"])]⟩
      computed := ⟨[("shout", ⟨"[headline]", "string", some "title", none⟩)]⟩
      searchPrefixes := ⟨[]⟩ })]⟩
  templates := ⟨[]⟩
  hooks := []

theorem resolve_computed_error {c : ComputedField} {e : Query.Error}
    (h : (Placeholder.names c.query).forM (fun token => outcome (declaredAt m base ⟨token⟩)) = .error e)
    (earlier : List Member) : (Member.computed c).resolve m base earlier = .error e := by
  rw [Member.resolve, h]
  rfl

/-- The error names the second of the members that do not resolve. -/
theorem passedOver_retitledPosts : ∃ m c members g cause, Model.ofDocument .builtin retitledPosts = .ok m ∧
    m.collection "post" = .ok c ∧ c.fieldSet (some "list") = .ok members ∧
    build m (.new "post") members = (g, .error (.member "post" "author" cause)) ∧
    ∃ x ∈ members.takeWhile (·.path != "author"), ∀ earlier, ∃ e, x.resolve m "post" earlier = .error e := by
  obtain ⟨m, hl, h⟩ := exists_of_passes (show passes (fun m => passes (fun c => passes (fun members =>
        fails (·.member? == some ("post", "author")) (build m (.new "post") members).2 &&
          (members.takeWhile (·.path != "author")).any fun
            | .plain _ => false
            | .computed c => fails (fun _ => true)
                ((Placeholder.names c.query).forM fun token => outcome (declaredAt m "post" ⟨token⟩)))
      (c.fieldSet (some "list"))) (m.collection "post")) (Model.ofDocument .builtin retitledPosts) = true by
        decide +kernel)
  obtain ⟨c, hc, h⟩ := exists_of_passes h
  obtain ⟨members, hm, h⟩ := exists_of_passes h
  obtain ⟨hfails, hany⟩ := Bool.and_eq_true_iff.1 h
  obtain ⟨e, he, hmember⟩ := exists_of_fails hfails
  obtain ⟨cause, rfl⟩ := Query.Error.member?_eq_some.1 (beq_iff_eq.1 hmember)
  obtain ⟨x, hx, hx'⟩ := List.any_eq_true.1 hany
  cases x with
  | plain path => cases hx'
  | computed shout =>
    obtain ⟨e', he', _⟩ := exists_of_fails hx'
    exact ⟨m, c, members, _, cause, hl, hc, hm, Prod.ext rfl he, _, hx, fun earlier =>
      ⟨e', resolve_computed_error he' earlier⟩⟩

end Selection

end Retrieval
