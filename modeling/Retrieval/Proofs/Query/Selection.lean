import Retrieval.Proofs.Query.JoinGraph
import Retrieval.Proofs.Text.Placeholder
import Retrieval.Query.Selection

namespace Retrieval

open JoinGraph

def Member.isPlain : Member → Bool
  | .plain _ => true
  | .computed _ => false

theorem Member.eq_plain {x : Member} (h : x.isPlain = true) : ∃ path, x = .plain path := by
  cases x with
  | plain path => exact ⟨path, rfl⟩
  | computed field => cases h

theorem Member.exists_plain {x? : Option Member} (h : x?.any (·.isPlain) = true) :
    ∃ path, x? = some (.plain path) := by
  obtain ⟨x, rfl, hx⟩ := (Option.any_eq_true _ _).1 h
  obtain ⟨path, rfl⟩ := Member.eq_plain hx
  exact ⟨path, rfl⟩

/-- A placeholder of a computed field stands for the column that its path leads to. -/
def ColumnRef.Stands (m : Model) (g : JoinGraph) (token s : String) : Prop :=
  ∃ column : ColumnRef, g.tableAt? (Path.mk token).hops = some column.table ∧
    fieldOf m column.table (Path.mk token).terminal = .ok column ∧
    s = column.table.aliasName ++ "." ++ column.column

theorem ColumnRef.Stands.mono {m : Model} {raw : JoinGraph → String → Prop} {g g' : JoinGraph}
    (h : Grows m raw g g') {token s : String} (hs : ColumnRef.Stands m g token s) :
    ColumnRef.Stands m g' token s := by
  obtain ⟨column, ht, hf, rfl⟩ := hs
  exact ⟨column, h.tableAt?_mono ht, hf, rfl⟩

/-- A field shows a member, under its path, out of the tables of a graph. -/
inductive SelectedField.Shows (m : Model) (g : JoinGraph) : Member → SelectedField → Prop
  | plain {path : Path} {column : ColumnRef} {label : String}
      (ht : g.tableAt? path.hops = some column.table)
      (hf : fieldOf m column.table path.terminal = .ok column) :
      Shows m g (.plain path)
        ⟨path.text, label, .column column.table.aliasName column.column, column.field⟩
  | computed {c : ComputedField} {sql label : String}
      (hs : Placeholder.Filled (ColumnRef.Stands m g) (Placeholder.pieces c.query) sql.toList) :
      Shows m g (.computed c) ⟨c.path, label, .computed sql, c.field⟩

namespace Selection

variable {m : Model} {raw : JoinGraph → String → Prop} {g g' : JoinGraph}

def Joins (members : List Member) (g : JoinGraph) (sql : String) : Prop :=
  ∃ c join, Member.computed c ∈ members ∧ c.join = some join ∧
    Placeholder.replace join (aliasText g c.path) = .ok sql

def andThen {ε σ α β : Type} (x : Except ε α × σ) (f : α → σ → Except ε β × σ) :
    Except ε β × σ :=
  match x with
  | (.ok a, s) => f a s
  | (.error e, s) => (.error e, s)

@[simp] theorem andThen_ok {ε σ α β : Type} (a : α) (s : σ) (f : α → σ → Except ε β × σ) :
    andThen (.ok a, s) f = f a s := rfl

@[simp] theorem andThen_error {ε σ α β : Type} (e : ε) (s : σ) (f : α → σ → Except ε β × σ) :
    andThen (.error e, s) f = (.error e, s) := rfl

theorem run_bind {ε σ α β : Type} (x : ExceptT ε (StateM σ) α) (f : α → ExceptT ε (StateM σ) β)
    (s : σ) : (x >>= f).run s = andThen (x.run s) fun a s' => (f a).run s' := by
  have hb : ∀ k : Except ε α → StateM σ (Except ε β), (x.run >>= k) s = k (x.run s).1 (x.run s).2 :=
    fun _ => rfl
  rw [ExceptT.run_bind, hb]
  obtain ⟨_ | _, s'⟩ := x.run s <;> rfl

theorem run_columnText (token : String) : (columnText m token).run g =
    andThen (g.columnAt m ⟨token⟩).swap fun column g' =>
      (.ok (column.table.aliasName ++ "." ++ column.column), g') := by
  rw [columnText, run_bind, ExceptT.run_mk]
  obtain ⟨g', _ | _⟩ := g.columnAt m ⟨token⟩ <;> rfl

theorem run_fill_cons_char (c : Char) (rest : List Placeholder.Piece) :
    (Placeholder.fill (columnText m) (.char c :: rest)).run g =
      andThen ((Placeholder.fill (columnText m) rest).run g) fun tail g' => (.ok (c :: tail), g') := by
  rw [Placeholder.fill, run_bind]
  rfl

theorem run_fill_cons_name (run : List Char) (rest : List Placeholder.Piece) :
    (Placeholder.fill (columnText m) (.name run :: rest)).run g =
      andThen (g.columnAt m ⟨String.ofList run⟩).swap fun column g' =>
        andThen ((Placeholder.fill (columnText m) rest).run g') fun tail g'' =>
          (.ok ((column.table.aliasName ++ "." ++ column.column).toList ++ tail), g'') := by
  rw [Placeholder.fill, run_bind, run_columnText]
  obtain ⟨g', _ | column⟩ := g.columnAt m ⟨String.ofList run⟩
  · rfl
  · rw [Prod.swap_prod_mk, andThen_ok, andThen_ok, run_bind]
    rfl

theorem run_fill (ps : List Placeholder.Piece) :
    Grows m raw g ((Placeholder.fill (columnText m) ps).run g).2 ∧
      ∀ text, ((Placeholder.fill (columnText m) ps).run g).1 = .ok text →
        Placeholder.Filled
          (ColumnRef.Stands m ((Placeholder.fill (columnText m) ps).run g).2) ps text := by
  induction ps generalizing g with
  | nil =>
    refine ⟨.refl, ?_⟩
    intro text h
    cases h
    exact .nil
  | cons p rest ih =>
    cases p with
    | char c =>
      rw [run_fill_cons_char]
      obtain ⟨hg, hf⟩ := ih (g := g)
      cases hr : (Placeholder.fill (columnText m) rest).run g with
      | mk result g' =>
        rw [hr] at hg hf
        cases result with
        | error e => exact ⟨hg, by simp⟩
        | ok tail =>
          refine ⟨hg, ?_⟩
          intro text h
          cases h
          exact .char (hf tail rfl)
    | name run =>
      rw [run_fill_cons_name]
      have hc : Grows m raw g (g.columnAt m ⟨String.ofList run⟩).1 := columnAt_grows _
      cases hcol : g.columnAt m ⟨String.ofList run⟩ with
      | mk g' found =>
        rw [hcol] at hc
        cases found with
        | error e => exact ⟨hc, by simp⟩
        | ok column =>
          obtain ⟨hg, hf⟩ := ih (g := g')
          cases hr : (Placeholder.fill (columnText m) rest).run g' with
          | mk result g'' =>
            rw [hr] at hg hf
            rw [Prod.swap_prod_mk, andThen_ok, hr]
            cases result with
            | error e => exact ⟨hc.trans hg, by simp⟩
            | ok tail =>
              refine ⟨hc.trans hg, ?_⟩
              intro text h
              cases h
              obtain ⟨ht, hfield⟩ := columnAt_ok hcol
              exact .name ⟨column, hg.tableAt?_mono ht, hfield, rfl⟩ (hf tail rfl)

theorem run_fill_failsOnly {P : Query.Error → Prop}
    (hpath : ∀ g' path, Grows m raw g g' → FailsOnly P (g'.columnAt m path).2) (ps : List Placeholder.Piece) :
    FailsOnly P ((Placeholder.fill (columnText m) ps).run g).1 := by
  induction ps generalizing g with
  | nil => exact .ok []
  | cons p rest ih =>
    cases p with
    | char c =>
      rw [run_fill_cons_char]
      have hrest := ih hpath
      cases hr : (Placeholder.fill (columnText m) rest).run g with
      | mk result g' =>
        rw [hr] at hrest
        cases result with
        | error e => exact .error (hrest e rfl)
        | ok tail => exact .ok (c :: tail)
    | name run =>
      rw [run_fill_cons_name]
      have hcolumn := hpath g ⟨String.ofList run⟩ .refl
      have hc : Grows m raw g (g.columnAt m ⟨String.ofList run⟩).1 := columnAt_grows _
      cases hcol : g.columnAt m ⟨String.ofList run⟩ with
      | mk g' found =>
        rw [hcol] at hcolumn hc
        cases found with
        | error e => exact .error (hcolumn e rfl)
        | ok column =>
          have hrest := ih fun g'' path hg => hpath g'' path (hc.trans hg)
          rw [Prod.swap_prod_mk, andThen_ok]
          cases hr : (Placeholder.fill (columnText m) rest).run g' with
          | mk result g'' =>
            rw [hr] at hrest
            cases result with
            | error e => exact .error (hrest e rfl)
            | ok tail => exact .ok _

theorem aliasText_eq_ok {field token text : String} :
    aliasText g field token = .ok text ↔ g.aliasFor? token = some text := by
  rw [aliasText]
  cases g.aliasFor? token <;> simp

theorem aliasText_eq_error {field token : String} {e : Query.Error} :
    aliasText g field token = .error e ↔ g.aliasFor? token = none ∧ e = .unresolvedJoinToken field token := by
  rw [aliasText, eq_comm (b := Query.Error.unresolvedJoinToken field token)]
  cases g.aliasFor? token <;> simp

theorem run_replace (template : String) :
    (Placeholder.replace template (columnText m)).run g =
      andThen ((Placeholder.fill (columnText m) (Placeholder.pieces template)).run g) fun text g' =>
        (.ok (String.ofList text), g') := by
  rw [Placeholder.replace, run_bind]
  rfl

theorem member_grows {members : List Member} {x : Member} (hx : x ∈ members) (label : String) :
    Grows m (Joins members) g (member m g label x).1 := by
  cases x with
  | plain path => exact columnAt_grows path
  | computed c =>
    have hg := (@run_fill m (Joins members) g (Placeholder.pieces c.query)).1
    simp only [member, computed, run_replace]
    cases hr : (Placeholder.fill (columnText m) (Placeholder.pieces c.query)).run g with
    | mk result g' =>
      rw [hr] at hg
      cases result with
      | error e => exact hg
      | ok text =>
        cases hj : c.join with
        | none => exact hg
        | some join =>
          cases hs : Placeholder.replace join (aliasText g' c.path) with
          | error e => simpa [hs] using hg
          | ok sql => simpa [hs] using hg.tail (.raw ⟨c, join, hx, hj, hs⟩)

theorem member_ok {label : String} {x : Member} {f : SelectedField}
    (h : member m g label x = (g', .ok f)) : f.Shows m g' x ∧ f.label = label := by
  cases x with
  | plain path =>
    simp only [member, plain, Prod.mk.injEq, map_eq_ok] at h
    obtain ⟨rfl, column, hc, rfl⟩ := h
    obtain ⟨ht, hf⟩ := columnAt_ok (Prod.ext rfl hc)
    rw [← (fieldOf_ok hf).1]
    exact ⟨.plain ht hf, rfl⟩
  | computed c =>
    have hf := (@run_fill m (fun _ _ => True) g (Placeholder.pieces c.query)).2
    simp only [member, computed, run_replace] at h
    cases hr : (Placeholder.fill (columnText m) (Placeholder.pieces c.query)).run g with
    | mk result g₁ =>
      rw [hr] at h hf
      cases result with
      | error e => cases h
      | ok text =>
        have hfilled := hf text rfl
        rw [← String.toList_ofList (l := text)] at hfilled
        cases hj : c.join with
        | none =>
          simp only [andThen_ok, hj, Prod.mk.injEq, Except.ok.injEq] at h
          obtain ⟨rfl, rfl⟩ := h
          exact ⟨.computed hfilled, rfl⟩
        | some join =>
          cases hs : Placeholder.replace join (aliasText g₁ c.path) with
          | error e => simp [hj, hs] at h
          | ok sql =>
            simp only [andThen_ok, hj, hs, Prod.mk.injEq, Except.ok.injEq] at h
            obtain ⟨rfl, rfl⟩ := h
            have hg : Grows m (fun _ _ => True) g₁ (g₁.addRaw sql) := .single (.raw trivial)
            exact ⟨.computed (hfilled.imp fun _ _ hs => ColumnRef.Stands.mono hg hs), rfl⟩

theorem member_failsOnly {P : Query.Error → Prop}
    (hpath : ∀ g' path, Grows m raw g g' → FailsOnly P (g'.columnAt m path).2)
    (htoken : ∀ field token, P (.unresolvedJoinToken field token)) (label : String) (x : Member) :
    FailsOnly P (member m g label x).2 := by
  cases x with
  | plain path => exact FailsOnly.map_iff.2 (hpath g path .refl)
  | computed c =>
    have hfill := run_fill_failsOnly hpath (Placeholder.pieces c.query)
    simp only [member, computed, run_replace]
    cases hr : (Placeholder.fill (columnText m) (Placeholder.pieces c.query)).run g with
    | mk result g' =>
      rw [hr] at hfill
      cases result with
      | error e => exact .error (hfill e rfl)
      | ok text =>
        cases hj : c.join with
        | none => exact .ok _
        | some join =>
          cases hs : Placeholder.replace join (aliasText g' c.path) with
          | ok sql => simpa [hs] using .ok _
          | error e =>
            obtain ⟨token, _, ha⟩ := Placeholder.replace_error hs
            rw [(aliasText_eq_error.1 ha).2] at hs
            simpa [hs] using .error (htoken c.path token)

end Selection

namespace SelectedField

variable {m : Model} {raw : JoinGraph → String → Prop} {g g' : JoinGraph}

theorem Shows.mono {x : Member} {f : SelectedField} (h : f.Shows m g x) (hg : Grows m raw g g') :
    f.Shows m g' x := by
  cases h with
  | plain ht hf => exact .plain (hg.tableAt?_mono ht) hf
  | computed hs => exact .computed (hs.imp fun _ _ hs => ColumnRef.Stands.mono hg hs)

theorem Shows.path_eq {x : Member} {f : SelectedField} (h : f.Shows m g x) : f.path = x.path := by
  cases h <;> rfl

end SelectedField

theorem ColumnRef.Stands.isNameChar {m : Model} {raw : JoinGraph → String → Prop} {base : String}
    {g : JoinGraph} (hg : Grows m raw (.new base) g) {run : List Char} {s : String}
    (hr : ∀ c ∈ run, Placeholder.isNameChar c = true) (h : ColumnRef.Stands m g (String.ofList run) s) :
    ∀ c ∈ s.toList, Placeholder.isNameChar c = true := by
  obtain ⟨column, ht, hf, rfl⟩ := h
  intro c hc
  rw [String.toList_append, String.toList_append, (fieldOf_ok hf).2.1, List.mem_append,
    List.mem_append] at hc
  rcases hc with (halias | hdot) | hname
  · have halphanum := hg.isAlphanum_alias (mem_tables_of_tableAt? ht) halias
    simp [Placeholder.isNameChar, Text.isAsciiAlphanumeric, halphanum]
  · rw [show ".".toList = ['.'] from rfl, List.mem_singleton] at hdot
    rw [hdot]
    rfl
  · apply hr
    have htoken := Path.mem_of_mem_terminal hname
    rwa [String.toList_ofList] at htoken

/-- The text of a computed member has the marks of its expression, and no others. -/
theorem SelectedField.Shows.filter_eq {m : Model} {raw : JoinGraph → String → Prop} {base : String}
    {g : JoinGraph} (hg : Grows m raw (.new base) g) {mark : Char → Bool} (hm : Placeholder.Apart mark)
    {c : ComputedField} {f : SelectedField} (h : f.Shows m g (.computed c)) :
    ∃ sql, f.source = .computed sql ∧ sql.toList.filter mark = c.query.toList.filter mark := by
  cases h with
  | @computed _ sql _ hs =>
    refine ⟨sql, rfl, ?_⟩
    rw [← Placeholder.marks_pieces hm c.query]
    apply hs.filter_eq
    intro run s hrun hstands c hc
    apply hm.2.2
    exact hstands.isNameChar hg (Placeholder.isNameChar_of_mem_pieces hrun) c hc

namespace Selection

variable {m : Model} {g g' : JoinGraph}

/-- The members that bring a new path, when some paths have been seen. -/
def firsts (seen : List String) : List Member → List Member
  | [] => []
  | x :: rest => if x.path ∈ seen then firsts seen rest else x :: firsts (seen ++ [x.path]) rest

def paths (p : Selection) : List String := p.fields.map (·.path)

theorem find?_firsts {path : String} {seen : List String} (hs : path ∉ seen) (members : List Member) :
    (firsts seen members).find? (·.path == path) = members.find? (·.path == path) := by
  induction members generalizing seen with
  | nil => rfl
  | cons x rest ih =>
    rw [firsts, List.find?_cons]
    by_cases hx : x.path = path
    · rw [if_neg (hx ▸ hs), List.find?_cons]
      simp [hx]
    · have hb : (x.path == path) = false := beq_eq_false_iff_ne.2 hx
      rw [hb]
      split
      · exact ih hs
      · rw [List.find?_cons, hb]
        exact ih (by simp [hs, Ne.symm hx])

theorem mem_of_mem_firsts {x : Member} {seen : List String} {members : List Member}
    (h : x ∈ firsts seen members) : x ∈ members := by
  induction members generalizing seen with
  | nil => cases h
  | cons first rest ih =>
    rw [firsts] at h
    split at h
    · exact List.mem_cons_of_mem _ (ih h)
    · cases List.mem_cons.1 h with
      | inl he => exact List.mem_cons.2 (Or.inl he)
      | inr hr => exact List.mem_cons_of_mem _ (ih hr)

theorem nodup_firsts (seen : List String) (members : List Member) :
    ((firsts seen members).map (·.path)).Nodup ∧
      ∀ x ∈ firsts seen members, x.path ∉ seen := by
  induction members generalizing seen with
  | nil => simp [firsts]
  | cons x rest ih =>
    rw [firsts]
    split
    · exact ih seen
    · rename_i hx
      obtain ⟨hnodup, hnew⟩ := ih (seen ++ [x.path])
      constructor
      · rw [List.map_cons, List.nodup_cons]
        refine ⟨?_, hnodup⟩
        intro hmem
        obtain ⟨y, hy, hxy⟩ := List.mem_map.1 hmem
        apply hnew y hy
        simp [hxy]
      · intro y hy
        rcases List.mem_cons.1 hy with rfl | hy
        · exact hx
        · intro hseen
          exact hnew y hy (List.mem_append_left _ hseen)

theorem find?_of_mem_firsts {x : Member} {seen : List String} {members : List Member}
    (h : x ∈ firsts seen members) : members.find? (·.path == x.path) = some x := by
  have hx : x.path ∉ seen := (nodup_firsts seen members).2 x h
  rw [← find?_firsts hx members]
  have hnodup := (nodup_firsts seen members).1
  generalize firsts seen members = kept at h hnodup
  induction kept with
  | nil => cases h
  | cons y rest ih =>
    rw [List.map_cons, List.nodup_cons] at hnodup
    rcases List.mem_cons.1 h with rfl | h
    · rw [List.find?_cons, beq_self_eq_true]
    · have hne : (y.path == x.path) = false := by
        rw [beq_eq_false_iff_ne]
        intro he
        apply hnodup.1
        rw [he]
        exact List.mem_map_of_mem h
      rw [List.find?_cons, hne]
      exact ih h hnodup.2

theorem isSome_get?_iff {p : Selection} {path : String} :
    (p.get? path).isSome = true ↔ path ∈ p.paths := by
  simp [get?, paths, List.find?_isSome]

theorem extend_grows {members rest : List Member} (hm : ∀ x ∈ rest, x ∈ members) (p : Selection) :
    Grows m (Joins members) g (extend m g p rest).1 := by
  induction rest generalizing g p with
  | nil => exact .refl
  | cons x rest ih =>
    have hrest : ∀ y ∈ rest, y ∈ members := fun y hy => hm y (List.mem_cons_of_mem _ hy)
    rw [extend]
    split
    · exact ih hrest p
    · have hg := member_grows (m := m) (g := g) (hm x List.mem_cons_self) (label p.fields.length)
      cases h : member m g (label p.fields.length) x with
      | mk g₁ result =>
        rw [h] at hg
        cases result with
        | error e => simpa [h] using hg
        | ok f => simpa [h] using hg.trans (ih hrest _)

theorem extend_ok {members : List Member} {p p' : Selection}
    (h : extend m g p members = (g', .ok p')) :
    ∃ added, p'.fields = p.fields ++ added ∧
      List.Forall₂ (fun x f => f.Shows m g' x) (firsts p.paths members) added := by
  induction members generalizing g p with
  | nil =>
    cases h
    exact ⟨[], by simp, .nil⟩
  | cons x rest ih =>
    rw [extend] at h
    split at h
    · rename_i hseen
      rw [firsts, if_pos (isSome_get?_iff.1 hseen)]
      exact ih h
    · rename_i hnew
      rw [firsts, if_neg (fun hp => hnew (isSome_get?_iff.2 hp))]
      cases hx : member m g (label p.fields.length) x with
      | mk g₁ result =>
        cases result with
        | error e => simp [hx] at h
        | ok f =>
          simp only [hx] at h
          obtain ⟨added, hf, hshows⟩ := ih h
          have hg : Grows m (Joins rest) g₁ (extend m g₁ ⟨p.fields ++ [f]⟩ rest).1 :=
            extend_grows (fun _ hy => hy) _
          rw [h] at hg
          have hfx := (member_ok hx).1.mono hg
          refine ⟨f :: added, by simp [hf], .cons hfx ?_⟩
          simpa [paths, hfx.path_eq] using hshows

/-- A selection that fails, fails at one member, with what the members before it show. -/
theorem extend_error {members : List Member} {p : Selection} {e : Query.Error}
    (h : extend m g p members = (g', .error e)) :
    ∃ before x after g₁ p₁ cause, members = before ++ x :: after ∧ extend m g p before = (g₁, .ok p₁) ∧
      (p₁.get? x.path).isSome = false ∧ member m g₁ (label p₁.fields.length) x = (g', .error cause) ∧
      e = .member g'.base.collection x.path cause := by
  induction members generalizing g p with
  | nil => cases h
  | cons first rest ih =>
    rw [extend] at h
    split at h
    · rename_i hseen
      obtain ⟨before, x, after, g₁, p₁, cause, rfl, hbefore, hx⟩ := ih h
      refine ⟨first :: before, x, after, g₁, p₁, cause, rfl, ?_, hx⟩
      rw [extend, if_pos hseen, hbefore]
    · rename_i hnew
      cases hm : member m g (label p.fields.length) first with
      | mk g₂ result =>
        rw [hm] at h
        cases result with
        | error cause =>
          simp only [Prod.mk.injEq, Except.error.injEq] at h
          obtain ⟨rfl, rfl⟩ := h
          exact ⟨[], first, rest, g, p, cause, rfl, rfl, by simpa using hnew, hm, rfl⟩
        | ok f =>
          obtain ⟨before, x, after, g₁, p₁, cause, rfl, hbefore, hx⟩ := ih h
          refine ⟨first :: before, x, after, g₁, p₁, cause, rfl, ?_, hx⟩
          rw [extend, if_neg hnew, hm]
          exact hbefore

variable {members : List Member} {p : Selection}

theorem build_grows (members : List Member) (h : build m g members = (g', .ok p)) :
    Grows m (Joins members) g g' := by
  have hg : Grows m (Joins members) g (extend m g {} members).1 := extend_grows (fun _ hx => hx) _
  rw [build] at h
  rw [h] at hg
  exact hg

theorem build_ok (h : build m g members = (g', .ok p)) :
    List.Forall₂ (fun x f => f.Shows m g' x) (firsts [] members) p.fields := by
  obtain ⟨added, hf, hshows⟩ := extend_ok h
  rw [hf]
  exact hshows

theorem paths_of_shows (h : List.Forall₂ (fun x f => SelectedField.Shows m g x f) (firsts [] members) p.fields) :
    p.paths = (firsts [] members).map (·.path) := by
  rw [paths]
  generalize p.fields = fields, firsts [] members = kept at h
  induction h with
  | nil => rfl
  | cons hf _ ih => rw [List.map_cons, List.map_cons, hf.path_eq, ih]

theorem build_error {e : Query.Error} (h : build m g members = (g', .error e)) :
    ∃ before x after g₁ p₁ cause, members = before ++ x :: after ∧ build m g before = (g₁, .ok p₁) ∧
      x.path ∉ p₁.paths ∧ member m g₁ (label p₁.fields.length) x = (g', .error cause) ∧
      Grows m (Joins members) g g₁ ∧ e = .member g.base.collection x.path cause := by
  obtain ⟨before, x, after, g₁, p₁, cause, rfl, hbefore, hnew, hx, rfl⟩ := extend_error h
  have hg₁ : Grows m (Joins (before ++ x :: after)) g (extend m g {} before).1 :=
    extend_grows (fun y hy => List.mem_append_left _ hy) {}
  have hg' : Grows m (Joins (before ++ x :: after)) g₁ (member m g₁ (label p₁.fields.length) x).1 :=
    member_grows (by simp) _
  rw [hbefore] at hg₁
  rw [hx] at hg'
  have hbase : g'.base = g.base := hg'.base_eq.trans hg₁.base_eq
  have hpath : x.path ∉ p₁.paths := by
    rw [← isSome_get?_iff, hnew]
    exact Bool.false_ne_true
  exact ⟨before, x, after, g₁, p₁, cause, rfl, hbefore, hpath, hx, hg₁, by rw [hbase]⟩

theorem mem_paths {x : Member}
    (h : List.Forall₂ (fun x f => SelectedField.Shows m g x f) (firsts [] members) p.fields)
    (hx : x ∈ members) : x.path ∈ p.paths := by
  have hfind : (members.find? (·.path == x.path)).isSome = true :=
    List.find?_isSome.2 ⟨x, hx, beq_self_eq_true _⟩
  rw [← find?_firsts (List.not_mem_nil (a := x.path)) members, List.find?_isSome] at hfind
  obtain ⟨y, hy, hyx⟩ := hfind
  obtain ⟨f, hf, hshows⟩ := exists_mem_left h.flip hy
  rw [paths, ← beq_iff_eq.1 hyx, ← hshows.path_eq]
  exact List.mem_map_of_mem hf

theorem extend_labels {p' : Selection}
    (hp : p.fields.map (·.label) = (List.range p.fields.length).map label)
    (h : extend m g p members = (g', .ok p')) :
    p'.fields.map (·.label) = (List.range p'.fields.length).map label := by
  induction members generalizing g p with
  | nil =>
    cases h
    exact hp
  | cons x rest ih =>
    rw [extend] at h
    split at h
    · exact ih hp h
    · cases hx : member m g (label p.fields.length) x with
      | mk g₁ result =>
        cases result with
        | error e => simp [hx] at h
        | ok f =>
          simp only [hx] at h
          apply ih _ h
          rw [List.map_append, hp, List.length_append, List.length_singleton, List.range_succ,
            List.map_append, List.map_singleton, List.map_singleton, (member_ok hx).2]

theorem build_labels (h : build m g members = (g', .ok p)) :
    p.fields.map (·.label) = (List.range p.fields.length).map label :=
  extend_labels rfl h

end Selection

end Retrieval
