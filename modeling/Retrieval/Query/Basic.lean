import Retrieval.Query.Filter

namespace Retrieval

/-- A statement, and the columns of its result in the order of the select list. -/
structure Query where
  statement : Sql.Select
  columns : List ResultColumn
  deriving Repr

def Query.sql (q : Query) : String :=
  q.statement.sql

def liftRequest : Except Request.Error α → Except Query.Error α
  | .ok a => .ok a
  | .error e => .error (.request e)

/-- The first of these that fails is the error: collection, field-set, selection, filter, order,
page. -/
def Query.ofRequest (m : Model) (r : Request) : Except Query.Error Query := do
  let c ← liftRequest (m.collection r.collection)
  let members ← liftRequest (c.fieldSet r.fieldSet)
  let (g, built) := Selection.build m (.new r.collection) members
  let p ← built
  let predicates ← liftRequest (Filter.predicates c p r)
  let order ← liftRequest (r.sort.mapM (·.order p))
  let page ← liftRequest (Sql.Page.ofRequest r.limit r.offset)
  let statement : Sql.Select :=
    { items := p.items, source := some g.source, joins := g.joins,
      filter := Sql.Expr.all predicates, order := order, page := page }
  .ok ⟨statement, p.output⟩

end Retrieval
