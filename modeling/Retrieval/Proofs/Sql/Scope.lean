import Retrieval.Sql.Select

namespace Retrieval.Sql

abbrev Scope := List (String × String)

def Table.scope (t : Table) : Scope :=
  t.aliasName.toList.map fun aliasName => (aliasName, t.name)

/-- A join written in the model declares nothing that is known of. -/
def Join.scope : Join → Scope
  | .left table _ => table.scope
  | .raw _ => []

def scopeAfter (source : Option Table) (joins : List Join) : Scope :=
  source.toList.flatMap Table.scope ++ joins.flatMap Join.scope

def Select.scope (s : Select) : Scope :=
  scopeAfter s.source s.joins

/-- All columns of an expression have a table and pass a test, as do all texts of the model in it. -/
inductive Expr.Names (column : String → String → Prop) (text : String → Prop) : Expr → Prop
  | column {table name : String} (h : column table name) : Names column text (.column (some table) name)
  | literal (l : Literal) : Names column text (.literal l)
  | raw {sql : String} (h : text sql) : Names column text (.raw sql)
  | group {e : Expr} (h : Names column text e) : Names column text (.group e)
  | binary {op : Operator} {left right : Expr} (hl : Names column text left)
      (hr : Names column text right) : Names column text (.binary op left right)
  | oneOf {e : Expr} {values : List Expr} (h : Names column text e)
      (hs : ∀ value ∈ values, Names column text value) : Names column text (.oneOf e values)
  | isNull {e : Expr} {negated : Bool} (h : Names column text e) :
      Names column text (.isNull e negated)
  | never : Names column text .never

namespace Expr.Names

variable {column : String → String → Prop} {text : String → Prop} {e : Expr} {es : List Expr}

theorem foldl {op : Operator} (he : e.Names column text) (hs : ∀ e ∈ es, e.Names column text) :
    (es.foldl (.binary op) e).Names column text := by
  induction es generalizing e with
  | nil => exact he
  | cons first rest ih =>
    obtain ⟨hfirst, hrest⟩ := List.forall_mem_cons.1 hs
    exact ih (he.binary hfirst) hrest

theorem reduce (op : Operator) (hs : ∀ e ∈ es, e.Names column text) :
    ∀ e ∈ Expr.reduce op es, e.Names column text := by
  intro e he
  cases es with
  | nil => cases he
  | cons first rest =>
    cases he
    obtain ⟨hfirst, hrest⟩ := List.forall_mem_cons.1 hs
    exact foldl hfirst hrest

theorem anyGroup (hs : ∀ e ∈ es, e.Names column text) : (Expr.anyGroup es).Names column text := by
  have hany := reduce .or hs
  rw [Expr.anyGroup, any]
  apply Names.group
  cases h : Expr.reduce .or es with
  | none => exact .never
  | some e => exact hany e h

end Expr.Names

end Retrieval.Sql
