import Mathlib.Data.List.Basic
import Retrieval.Model.Basic
import Retrieval.Sql.Select

namespace Retrieval.Sql

/-- The columns of a record, each with a value or null. -/
abbrev Record (V : Type) := String → Option V

structure Database (V : Type) where
  records : String → List (Record V)

/-- What stands under each alias of a combined row; nothing but nulls where a join found nothing. -/
abbrev Row (V : Type) := List (String × Option (Record V))

variable {V : Type} [DecidableEq V]

namespace Database

/-- Every record has a key, and no other record of its table has the same. -/
structure Keyed (db : Database V) : Prop where
  present : ∀ table, ∀ record ∈ db.records table, record keyField ≠ none
  unique : ∀ table, ((db.records table).map (· keyField)).Nodup

/-- Equality as SQL has it. -/
def equal (x y : Option V) : Bool :=
  x.isSome && x == y

def record? (db : Database V) (table : String) (key : Option V) : Option (Record V) :=
  (db.records table).find? fun record => equal (record keyField) key

end Database

def Expr.value? (row : Row V) : Expr → Option (Option V)
  | .column (some table) name => (row.lookup table).map fun record => record.bind (· name)
  | _ => none

def Expr.holds? (row : Row V) : Expr → Option Bool
  | .binary .eq left right => do
    let x ← left.value? row
    let y ← right.value? row
    pure (Database.equal x y)
  | _ => none

def select? {α : Type} (test : α → Option Bool) : List α → Option (List α)
  | [] => some []
  | x :: rest => do
    let passed ← test x
    let others ← select? test rest
    pure (if passed then x :: others else others)

/-- The rows that a join makes of one row. A null equals nothing, not even a null, and a join that
names what is not in scope has no meaning. -/
def Join.rows? (db : Database V) (row : Row V) : Join → Option (List (Row V))
  | .left ⟨table, some aliasName⟩ on =>
    if (row.lookup aliasName).isSome then none
    else do
      let found ← select? (fun record => on.holds? (row ++ [(aliasName, some record)])) (db.records table)
      pure ((if found.isEmpty then [none] else found.map some).map fun r => row ++ [(aliasName, r)])
  | _ => none

def Table.rows? (db : Database V) : Table → Option (List (Row V))
  | ⟨table, some aliasName⟩ => some ((db.records table).map fun record => [(aliasName, some record)])
  | _ => none

def joinRows? (db : Database V) (rows : List (Row V)) (j : Join) : Option (List (Row V)) :=
  (rows.mapM fun row => j.rows? db row).map List.flatten

/-- The combined rows of a FROM item and its joins, taken from left to right. -/
def combined? (db : Database V) (source : Table) (joins : List Join) : Option (List (Row V)) := do
  let rows ← source.rows? db
  joins.foldlM (joinRows? db) rows

/-- The combined rows of a statement, before it is filtered. -/
def Select.rows? (db : Database V) (s : Select) : Option (List (Row V)) :=
  s.source.bind fun source => combined? db source s.joins

theorem select?_eq {α : Type} {test : α → Option Bool} {p : α → Bool} {xs : List α}
    (h : ∀ x, test x = some (p x)) : select? test xs = some (xs.filter p) := by
  induction xs with
  | nil => rfl
  | cons x rest ih =>
    rw [select?, h, ih, List.filter_cons]
    rfl

theorem filter_eq_toList_find? {α : Type} {p : α → Bool} {xs : List α}
    (h : xs.Pairwise fun x y => ¬ (p x = true ∧ p y = true)) : xs.filter p = (xs.find? p).toList := by
  induction xs with
  | nil => rfl
  | cons x rest ih =>
    obtain ⟨hx, hrest⟩ := List.pairwise_cons.1 h
    rw [List.filter_cons, List.find?_cons]
    cases hp : p x with
    | false => exact ih hrest
    | true =>
      have hnone : rest.filter p = [] :=
        List.filter_eq_nil_iff.2 fun y hy hpy => hx y hy ⟨hp, hpy⟩
      simp [hnone]

namespace Database

variable {db : Database V}

theorem Keyed.filter_key (h : db.Keyed) (table : String) (key : Option V) :
    (db.records table).filter (fun record => equal (record keyField) key) =
      (db.record? table key).toList := by
  apply filter_eq_toList_find?
  have hu := List.pairwise_map.1 (h.unique table)
  apply hu.imp
  intro x y hne hxy
  simp only [equal, Bool.and_eq_true, beq_iff_eq] at hxy
  exact hne (hxy.1.2.trans hxy.2.2.symm)

/-- A join on the key of its table adds one record, or nothing but nulls. -/
theorem Keyed.rows?_left (h : db.Keyed) {row : Row V} {table aliasName source field : String}
    {record : Option (Record V)} (hnew : row.lookup aliasName = none)
    (hs : row.lookup source = some record) :
    (Join.left ⟨table, some aliasName⟩
      (.binary .eq (.column (some aliasName) keyField) (.column (some source) field))).rows? db row =
      some [row ++ [(aliasName, db.record? table (record.bind (· field)))]] := by
  have hon : ∀ r : Record V, Expr.holds? (row ++ [(aliasName, some r)])
      (.binary .eq (.column (some aliasName) keyField) (.column (some source) field)) =
        some (equal (r keyField) (record.bind (· field))) := by
    intro r
    simp [Expr.holds?, Expr.value?, List.lookup_append, hnew, hs]
  rw [Join.rows?, hnew, select?_eq hon, h.filter_key]
  cases db.record? table (record.bind (· field)) <;> rfl

end Database

variable {db : Database V}

theorem joinRows?_map {α : Type} {j : Join} {xs : List α} {row row' : α → Row V}
    (h : ∀ x ∈ xs, j.rows? db (row x) = some [row' x]) :
    joinRows? db (xs.map row) j = some (xs.map row') := by
  have hm : (xs.map row).mapM (fun r => j.rows? db r) = some (xs.map fun x => [row' x]) := by
    induction xs with
    | nil => rfl
    | cons x rest ih =>
      have hrest := ih fun y hy => h y (List.mem_cons_of_mem _ hy)
      rw [List.map_cons, List.mapM_cons, h x List.mem_cons_self, hrest]
      rfl
  rw [joinRows?, hm, Option.map_some, ← List.flatMap_def, ← List.map_eq_flatMap]

theorem combined?_append_singleton (source : Table) (joins : List Join) (j : Join) :
    combined? db source (joins ++ [j]) =
      (combined? db source joins).bind fun rows => joinRows? db rows j := by
  unfold combined?
  cases source.rows? db with
  | none => rfl
  | some rows => simp [List.foldlM_append]

end Retrieval.Sql
