import Retrieval.Query.JoinGraph
import Retrieval.Text.Placeholder

namespace Retrieval

inductive Source where
  | column (table column : String)
  | computed (sql : String)
  deriving DecidableEq, Repr

/-- A selected member. Conditions and sort entries name it by its path. -/
structure SelectedField where
  path : String
  label : String
  source : Source
  field : Field
  deriving Repr

namespace SelectedField

def isComputed (f : SelectedField) : Bool :=
  match f.source with
  | .column .. => false
  | .computed _ => true

def column (f : SelectedField) : Sql.Expr :=
  match f.source with
  | .column table column => .column (some table) column
  | .computed sql => .raw sql

/-- The value inside a condition, where a computed expression stands in parentheses. -/
def operand (f : SelectedField) : Sql.Expr :=
  match f.source with
  | .column table column => .column (some table) column
  | .computed sql => .group (.raw sql)

/-- Only declared columns take part in a search over all fields. -/
def isSearchable (f : SelectedField) : Bool :=
  !f.isComputed && f.field.isSearchable

def item (f : SelectedField) : Sql.Item :=
  ⟨f.column, some f.label⟩

def output (f : SelectedField) : ResultColumn :=
  ⟨f.path, f.label, f.field.scan⟩

end SelectedField

structure Selection where
  fields : List SelectedField := []
  deriving Repr

namespace Selection

def get? (p : Selection) (path : String) : Option SelectedField :=
  p.fields.find? (·.path == path)

def searchable (p : Selection) : List SelectedField :=
  p.fields.filter (·.isSearchable)

def items (p : Selection) : List Sql.Item :=
  p.fields.map (·.item)

def output (p : Selection) : List ResultColumn :=
  p.fields.map (·.output)

def columnText (m : Model) (token : String) : ExceptT Query.Error (StateM JoinGraph) String := do
  let column ← ExceptT.mk fun g =>
    let (g, result) := g.columnAt m ⟨token⟩
    (result, g)
  pure (column.table.aliasName ++ "." ++ column.column)

def aliasText (g : JoinGraph) (field token : String) : Except Query.Error String :=
  match g.aliasFor? token with
  | some aliasName => .ok aliasName
  | none => .error (.unresolvedJoinToken field token)

/-- A computed field's expression, and then its join, which may use the aliases that the expression
brought in. -/
def computed (m : Model) (g : JoinGraph) (label : String) (c : ComputedField) :
    JoinGraph × Except Query.Error SelectedField :=
  let (result, g) := (Placeholder.replace c.query (columnText m)).run g
  match result with
  | .error e => (g, .error e)
  | .ok sql =>
    let selected : SelectedField := ⟨c.path, label, .computed sql, c.field⟩
    match c.join with
    | none => (g, .ok selected)
    | some join =>
      match Placeholder.replace join (aliasText g c.path) with
      | .error e => (g, .error e)
      | .ok join => (g.addRaw join, .ok selected)

def plain (m : Model) (g : JoinGraph) (label : String) (path : Path) :
    JoinGraph × Except Query.Error SelectedField :=
  let (g, result) := g.columnAt m path
  (g, result.map fun column =>
    ⟨path.text, label, .column column.table.aliasName column.column, column.field⟩)

def member (m : Model) (g : JoinGraph) (label : String) : Member →
    JoinGraph × Except Query.Error SelectedField
  | .plain path => plain m g label path
  | .computed c => computed m g label c

def label (n : Nat) : String :=
  String.ofList ('f' :: Decimal.digitChars n)

/-- Adds members to a selection. One whose path is there already adds nothing; one that does not
resolve fails the whole, and the joins made so far stay. -/
def extend (m : Model) (g : JoinGraph) (p : Selection) : List Member →
    JoinGraph × Except Query.Error Selection
  | [] => (g, .ok p)
  | x :: rest =>
    if (p.get? x.path).isSome then extend m g p rest
    else
      match member m g (label p.fields.length) x with
      | (g, .error e) => (g, .error (.member g.base.collection x.path e))
      | (g, .ok f) => extend m g ⟨p.fields ++ [f]⟩ rest

def build (m : Model) (g : JoinGraph) (members : List Member) :
    JoinGraph × Except Query.Error Selection :=
  extend m g {} members

end Selection

end Retrieval
