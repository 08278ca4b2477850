import Retrieval.Query.Basic
import Retrieval.Run.Error

namespace Retrieval

abbrev Row := Dict Json

inductive Effect where
  | statement (sql : String) (columns : List ResultColumn)
  | mail (recipient template : String) (record : Row)
  deriving Repr

abbrev History := List Effect

/-- What lies outside of a run, the connection pool and the mailer, which answer from what has been
done so far. -/
structure World where
  connect : History → Except Run.Error Unit
  query : History → (sql : String) → List ResultColumn → Except Run.Error (List (List Json))
  deliver : History → (recipient template : String) → Row → Except String Unit

/-- A computation that may act on the outside and may fail. What was done before a failure stays
done. -/
abbrev Run := ReaderT World (ExceptT Run.Error (StateM History))

namespace Run

def after (w : World) (history : History) (x : Run α) : Except Run.Error α × History :=
  ((x.run w).run).run history

def ofQuery : Except Query.Error α → Run α
  | .ok a => pure a
  | .error e => throw (.compile e)

def ofRequest : Except Request.Error α → Run α
  | .ok a => pure a
  | .error e => throw (.request e)

def connect : Run Unit := do
  let w ← read
  match w.connect (← get) with
  | .ok () => pure ()
  | .error e => throw e

/-- Sends a statement to a connection. It has been sent even if it fails. -/
def statement (sql : String) (columns : List ResultColumn) : Run (List (List Json)) := do
  let w ← read
  let history ← get
  set (history ++ [Effect.statement sql columns])
  match w.query history sql columns with
  | .ok rows => pure rows
  | .error e => throw e

def mail (recipient template : String) (record : Row) : Run Unit := do
  let w ← read
  let history ← get
  match w.deliver history recipient template record with
  | .ok () => set (history ++ [Effect.mail recipient template record])
  | .error problem => throw (.mail problem)

/-- A row of values under the paths of their columns. A missing value leaves its path out. -/
def keyRow (columns : List ResultColumn) (values : List Json) : Row :=
  .ofList ((columns.map (·.path)).zip values)

def rows (sql : String) (columns : List ResultColumn) : Run (List Row) := do
  connect
  let found ← statement sql columns
  pure (found.map (keyRow columns))

end Run

namespace Model

def records (m : Model) (r : Request) : Run (List Row) := do
  let q ← Run.ofQuery (Query.ofRequest m r)
  Run.rows q.sql q.columns

def firstRow (collection : String) (pk : UInt64) : List Row → Run Row
  | [] => throw (.request (.notFound collection pk))
  | row :: _ => pure row

def record (m : Model) (collection fieldSet : String) (pk : UInt64) : Run Row := do
  let found ← m.records ((Request.ofFieldSet collection fieldSet).withKey pk)
  firstRow collection pk found

def isInternal (path : String) : Bool :=
  path == keyField || path == "sortIndex" || ['.', 'i', 'd'].isSuffixOf path.toList

/-- The label of a row: its scalars in the order of the columns, without keys. -/
def labelOf (columns : List ResultColumn) (row : Row) : String :=
  ", ".intercalate
    ((columns.filter (!isInternal ·.path)).filterMap fun c =>
      (row.find? c.path).bind Json.scalarText?)

def label (m : Model) (collection : String) (pk : UInt64) : Run String := do
  let request := (Request.ofFieldSet collection identityFieldSet).withKey pk
  let q ← Run.ofQuery (Query.ofRequest m request)
  let found ← Run.rows q.sql q.columns
  let row ← firstRow collection pk found
  pure (labelOf q.columns row)

end Model

def QueryTemplate.run (q : QueryTemplate) (inputs : List Json) : Run (List Row) := do
  let sql ← Run.ofRequest (q.bind inputs)
  Run.rows sql q.output

end Retrieval
