import Retrieval.Proofs.Model.Loading
import Retrieval.Proofs.Query.JoinGraph

namespace Retrieval

/-- A column as the model declares it, whatever alias its table has. -/
structure DeclaredColumn where
  collection : String
  column : String
  field : Field
  deriving DecidableEq, Repr

def ColumnRef.declared (column : ColumnRef) : DeclaredColumn :=
  ⟨column.table.collection, column.column, column.field⟩

namespace JoinGraph

variable {m : Model} {raw : JoinGraph → String → Prop} {g g' : JoinGraph} {base : String}

/-- The collection that a sequence of reference fields leads to. -/
def destination (m : Model) (collection : String) (hops : List String) : Except Query.Error String :=
  hops.foldlM (target m) collection

/-- What a path means from a collection, without a graph. -/
def declaredAt (m : Model) (collection : String) (path : Path) : Except Query.Error DeclaredColumn := do
  let reached ← destination m collection path.hops
  (fieldOf m ⟨reached, ""⟩ path.terminal).map ColumnRef.declared

/-- The graph after some paths have been asked for, whether they resolve or not. -/
def afterPaths (m : Model) (g : JoinGraph) (paths : List Path) : JoinGraph :=
  paths.foldl (fun g path => (g.columnAt m path).1) g

theorem destination_cons (collection hop : String) (hops : List String) :
    destination m collection (hop :: hops) = target m collection hop >>= (destination m · hops) := by
  rw [destination, List.foldlM_cons]
  rfl

theorem destination_append {collection reached : String} {hops : List String}
    (h : destination m collection hops = .ok reached) (more : List String) :
    destination m collection (hops ++ more) = destination m reached more := by
  rw [destination] at h
  rw [destination, List.foldlM_append, h]
  rfl

theorem destination_singleton (collection hop : String) :
    destination m collection [hop] = target m collection hop := by
  rw [destination_cons]
  cases target m collection hop <;> rfl

theorem declared_fieldOf (table : QueryTable) (name : String) :
    (fieldOf m table name).map ColumnRef.declared =
      (fieldOf m ⟨table.collection, ""⟩ name).map ColumnRef.declared := by
  unfold fieldOf
  dsimp only
  cases m.collection table.collection with
  | error e => rfl
  | ok c =>
    dsimp only
    cases c.fields.find? name <;> rfl

theorem tableAt?_new {hops : List String} {table : QueryTable} (h : (new base).tableAt? hops = some table) :
    hops = [] ∧ table = (new base).base := by
  by_cases hnil : hops = []
  · subst hnil
    cases h
    exact ⟨rfl, rfl⟩
  · simp [tableAt?, hnil, reached?, new] at h

theorem Grows.destination_eq (h : Grows m raw (.new base) g) {hops : List String} {table : QueryTable}
    (hd : DotFree hops) (ht : g.tableAt? hops = some table) :
    destination m base hops = .ok table.collection := by
  induction h generalizing hops table with
  | refl =>
    obtain ⟨rfl, rfl⟩ := tableAt?_new ht
    rfl
  | tail _ hs ih =>
    cases hs with
    | @hop walked current hop collection hd' hc hn htarget =>
      rw [tableAt?_addHop hd' hn hd] at ht
      split at ht
      · rename_i he
        cases ht
        have hwalked : DotFree walked := fun name hname => hd' name (List.mem_append_left _ hname)
        rw [he, destination_append (ih hwalked hc), destination_singleton, htarget]
      · exact ih hd ht
    | raw hr =>
      rw [tableAt?_addRaw] at ht
      exact ih hd ht

theorem Grows.exists_tableAt? (h : Grows m raw (.new base) g) {hops more : List String} {table : QueryTable}
    (hd : DotFree (hops ++ more)) (ht : g.tableAt? (hops ++ more) = some table) :
    ∃ before, g.tableAt? hops = some before := by
  induction h generalizing hops more table with
  | refl =>
    obtain ⟨hnil, _⟩ := tableAt?_new ht
    rw [(List.append_eq_nil_iff.1 hnil).1]
    exact ⟨_, rfl⟩
  | tail _ hs ih =>
    cases hs with
    | @hop walked current hop collection hd' hc hn htarget =>
      have hbefore : DotFree hops := fun name hname => hd name (List.mem_append_left _ hname)
      rw [tableAt?_addHop hd' hn hd] at ht
      rw [tableAt?_addHop hd' hn hbefore]
      split
      · exact ⟨_, rfl⟩
      · rename_i hne
        split at ht
        · rename_i he
          -- the new table stands behind all of its hops but the last
          have hlast : more ≠ [] := by
            rintro rfl
            exact hne (by simpa using he)
          rw [← List.dropLast_append_getLast hlast, ← List.append_assoc] at he
          obtain ⟨hwalked, _⟩ := List.append_inj' he rfl
          rw [← hwalked] at hc hd'
          exact ih (fun name hname => hd' name (List.mem_append_left _ hname)) hc
        · exact ih hd ht
    | raw hr =>
      rw [tableAt?_addRaw] at ht ⊢
      exact ih hd ht

/-- A hop leads to the collection that its field refers to, whether or not it was walked before. -/
theorem step_collection (h : Grows m raw (.new base) g) {walked : List String} {current : QueryTable}
    {hop : String} (hd : DotFree (walked ++ [hop])) (hc : g.tableAt? walked = some current) :
    (g.step m current (".".intercalate (walked ++ [hop])) hop).2.map (·.collection) =
      target m current.collection hop := by
  have hwalked : DotFree walked := fun name hname => hd name (List.mem_append_left _ hname)
  unfold step
  cases hr : g.reached? (".".intercalate (walked ++ [hop])) with
  | some table =>
    rw [← tableAt?_append_singleton] at hr
    have hreached := h.destination_eq hd hr
    rw [destination_append (h.destination_eq hwalked hc), destination_singleton] at hreached
    exact hreached.symm
  | none =>
    simp only [joinHop]
    cases target m current.collection hop <;> rfl

theorem reachFrom_collection (h : Grows m raw (.new base) g) {walked hops : List String} {current : QueryTable}
    (hd : DotFree (walked ++ hops)) (hc : g.tableAt? walked = some current) :
    (g.reachFrom m walked current hops).2.map (·.collection) = destination m current.collection hops := by
  induction hops generalizing g walked current with
  | nil => rfl
  | cons hop rest ih =>
    have hd' : DotFree (walked ++ [hop] ++ rest) := by simpa using hd
    have hw : DotFree (walked ++ [hop]) := fun name hname => hd' name (List.mem_append_left _ hname)
    have hs : Grows m raw g (g.step m current (".".intercalate (walked ++ [hop])) hop).1 :=
      step_grows hw hc
    have hcollection := step_collection h hw hc
    rw [reachFrom, destination_cons, ← hcollection]
    cases hstep : g.step m current (".".intercalate (walked ++ [hop])) hop with
    | mk g₁ result =>
      rw [hstep] at hs
      cases result with
      | error e => rfl
      | ok table => exact ih (h.trans hs) hd' (step_ok hstep)

/-- The column of a path is the one that the path means, whatever was walked before. -/
theorem columnAt_declared (h : Grows m raw (.new base) g) (path : Path) :
    (g.columnAt m path).2.map ColumnRef.declared = declaredAt m base path := by
  have hreach : (g.reachFrom m [] g.base path.hops).2.map (·.collection) =
      destination m g.base.collection path.hops := reachFrom_collection h path.dotFree_hops rfl
  rw [h.base_eq] at hreach
  change _ = destination m base path.hops at hreach
  rw [declaredAt, ← hreach, columnAt, reach, h.base_eq]
  cases g.reachFrom m [] (new base).base path.hops with
  | mk g₁ result =>
    cases result with
    | error e => rfl
    | ok table => exact declared_fieldOf table path.terminal

theorem reachFrom_known (h : Grows m raw (.new base) g) {walked hops : List String} {current table : QueryTable}
    (hd : DotFree (walked ++ hops)) (hc : g.tableAt? walked = some current)
    (ht : g.tableAt? (walked ++ hops) = some table) :
    g.reachFrom m walked current hops = (g, .ok table) := by
  induction hops generalizing walked current with
  | nil =>
    rw [List.append_nil, hc] at ht
    cases ht
    rfl
  | cons hop rest ih =>
    have hsplit : walked ++ hop :: rest = walked ++ [hop] ++ rest := by simp
    rw [hsplit] at hd ht
    obtain ⟨next, hnext⟩ := h.exists_tableAt? hd ht
    have hreached := hnext
    rw [tableAt?_append_singleton] at hreached
    have hstep : g.step m current (".".intercalate (walked ++ [hop])) hop = (g, .ok next) := by
      rw [step, hreached]
    simp only [reachFrom, hstep]
    exact ih hd hnext ht

theorem columnAt_known (h : Grows m raw (.new base) g) {path : Path} {column : ColumnRef}
    (ht : g.tableAt? path.hops = some column.table)
    (hf : fieldOf m column.table path.terminal = .ok column) : g.columnAt m path = (g, .ok column) := by
  have hreach : g.reachFrom m [] g.base path.hops = (g, .ok column.table) :=
    reachFrom_known h path.dotFree_hops (tableAt?_nil g) ht
  rw [columnAt, reach, hreach]
  simp only [hf]

theorem afterPaths_grows (paths : List Path) : Grows m raw g (g.afterPaths m paths) := by
  induction paths generalizing g with
  | nil => exact .refl
  | cons path rest ih => exact (columnAt_grows path).trans ih

theorem afterPaths_append (g : JoinGraph) (paths more : List Path) :
    g.afterPaths m (paths ++ more) = (g.afterPaths m paths).afterPaths m more :=
  List.foldl_append

/-- Whatever paths were asked for before, a path has the column that it has in a fresh graph, or the
error; and a path that once has a column keeps it, alias and all. -/
theorem columnAt_afterPaths (m : Model) (base : String) (earlier : List Path) (path : Path) :
    (((new base).afterPaths m earlier).columnAt m path).2.map ColumnRef.declared =
        ((new base).columnAt m path).2.map ColumnRef.declared ∧
      ∀ column later, (((new base).afterPaths m earlier).columnAt m path).2 = .ok column →
        (((new base).afterPaths m (earlier ++ path :: later)).columnAt m path).2 = .ok column := by
  have hearlier : Grows m (fun _ _ => False) (.new base) ((new base).afterPaths m earlier) :=
    afterPaths_grows earlier
  have hfresh : Grows m (fun _ _ => False) (.new base) (.new base) := .refl
  constructor
  · rw [columnAt_declared hearlier, columnAt_declared hfresh]
  · intro column later hcolumn
    obtain ⟨ht, hf⟩ := columnAt_ok (Prod.ext rfl hcolumn)
    have hlater : Grows m (fun _ _ => False) (((new base).afterPaths m earlier).columnAt m path).1
        ((new base).afterPaths m (earlier ++ path :: later)) := by
      rw [afterPaths_append]
      exact afterPaths_grows later
    have hall := (hearlier.trans (columnAt_grows path)).trans hlater
    rw [columnAt_known hall (hlater.tableAt?_mono ht) hf]

def strayPaths : List Path :=
  [⟨"author.nope"⟩, ⟨"author.mentor.name"⟩, ⟨"title.name"⟩]

theorem columnAt_afterPaths_blog : ∃ m column, Model.ofDocument .builtin .blog = .ok m ∧
    ((new "post").columnAt m ⟨"author.mentor.id"⟩).2.map ColumnRef.declared = .ok ⟨"author", "id", .id⟩ ∧
    (((new "post").afterPaths m strayPaths).columnAt m ⟨"author.mentor.id"⟩).2 = .ok column ∧
    column.declared = ⟨"author", "id", .id⟩ ∧
    (((new "post").afterPaths m (strayPaths ++ [⟨"author.mentor.id"⟩, ⟨"editor.name"⟩])).columnAt m
      ⟨"author.mentor.id"⟩).2 = .ok column := by
  obtain ⟨m, hl, h⟩ := exists_of_passes (show passes (fun m =>
    passes (fun column => column.declared = ⟨"author", "id", .id⟩)
      ((new "post").columnAt m ⟨"author.mentor.id"⟩).2) (Model.ofDocument .builtin .blog) = true by decide +kernel)
  obtain ⟨fresh, hfresh, hdeclared⟩ := exists_of_passes h
  obtain ⟨hsame, hlater⟩ := columnAt_afterPaths m "post" strayPaths ⟨"author.mentor.id"⟩
  rw [hfresh] at hsame
  obtain ⟨column, hcolumn, hc⟩ := map_eq_ok.1 hsame
  have hid := hc.trans (of_decide_eq_true hdeclared)
  refine ⟨m, column, hl, ?_, hcolumn, hid, hlater column [⟨"editor.name"⟩] hcolumn⟩
  rw [hfresh]
  exact congrArg Except.ok (of_decide_eq_true hdeclared)

end JoinGraph

end Retrieval
