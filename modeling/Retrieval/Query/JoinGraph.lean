import Retrieval.Query.Error
import Retrieval.Model.Basic
import Retrieval.Sql.Select

namespace Retrieval

structure QueryTable where
  collection : String
  aliasName : String
  deriving DecidableEq, Repr, Inhabited

structure ColumnRef where
  table : QueryTable
  column : String
  field : Field
  deriving Repr

inductive JoinStep where
  /-- The table reached by `hop` from the table with alias `source`; `key` is the sequence of hops
  from the base, joined by dots. -/
  | hop (key : String) (table : QueryTable) (source : String) (hop : String)
  | raw (sql : String)
  deriving Repr

/-- The tables of one query, as the list of the steps that joined them. A sequence of reference
fields that is walked from the base table has one join and one alias, however many columns are
reached through it. -/
structure JoinGraph where
  base : QueryTable
  steps : List JoinStep := []
  deriving Repr

namespace JoinStep

def table? : JoinStep → Option QueryTable
  | hop _ table _ _ => some table
  | raw _ => none

def join : JoinStep → Sql.Join
  | hop _ table source field =>
    .left ⟨table.collection, some table.aliasName⟩
      (.binary .eq (.column (some table.aliasName) keyField) (.column (some source) field))
  | raw sql => .raw sql

end JoinStep

namespace JoinGraph

def letter (collection : String) : Char :=
  match collection.toList with
  | [] => 't'
  | c :: _ => if c.isAlpha then c.toLower else 't'

def new (collection : String) : JoinGraph :=
  { base := ⟨collection, String.ofList [letter collection]⟩ }

def tables (g : JoinGraph) : List QueryTable :=
  g.steps.filterMap JoinStep.table?

/-- The alias of the next table: the letter of its collection and a running number. -/
def nextAlias (g : JoinGraph) (collection : String) : String :=
  String.ofList (letter collection :: Decimal.digitChars (g.tables.length + 1))

def reached? (g : JoinGraph) (key : String) : Option QueryTable :=
  g.steps.findSome? fun
    | .hop k table _ _ => if k = key then some table else none
    | .raw _ => none

def aliasFor? (g : JoinGraph) (collection : String) : Option String :=
  ((g.base :: g.tables).find? (·.collection == collection)).map (·.aliasName)

def addRaw (g : JoinGraph) (sql : String) : JoinGraph :=
  { g with steps := g.steps ++ [.raw sql] }

def joins (g : JoinGraph) : List Sql.Join :=
  g.steps.map JoinStep.join

def source (g : JoinGraph) : Sql.Table :=
  ⟨g.base.collection, some g.base.aliasName⟩

def target (m : Model) (collection hop : String) : Except Query.Error String :=
  match m.collection collection with
  | .error e => .error (.request e)
  | .ok c =>
    match c.fields.find? hop with
    | none => .error (.unknownField collection hop)
    | some field =>
      match field.references with
      | none => .error (.notAReference collection hop)
      | some name =>
        match m.collection name with
        | .error e => .error (.request e)
        | .ok c => .ok c.table

def joinHop (m : Model) (g : JoinGraph) (current : QueryTable) (key hop : String) :
    JoinGraph × Except Query.Error QueryTable :=
  match target m current.collection hop with
  | .error e => (g, .error e)
  | .ok collection =>
    let table : QueryTable := ⟨collection, g.nextAlias collection⟩
    ({ g with steps := g.steps ++ [.hop key table current.aliasName hop] }, .ok table)

/-- One hop, which joins a table only the first time. -/
def step (m : Model) (g : JoinGraph) (current : QueryTable) (key hop : String) :
    JoinGraph × Except Query.Error QueryTable :=
  match g.reached? key with
  | some table => (g, .ok table)
  | none => g.joinHop m current key hop

/-- Follows the hops after `walked`, which led to `current`. The joins made before a hop that fails
stay. -/
def reachFrom (m : Model) (g : JoinGraph) (walked : List String) (current : QueryTable) :
    List String → JoinGraph × Except Query.Error QueryTable
  | [] => (g, .ok current)
  | hop :: rest =>
    let walked := walked ++ [hop]
    match g.step m current (".".intercalate walked) hop with
    | (g, .error e) => (g, .error e)
    | (g, .ok table) => reachFrom m g walked table rest

def reach (m : Model) (g : JoinGraph) (hops : List String) :
    JoinGraph × Except Query.Error QueryTable :=
  g.reachFrom m [] g.base hops

def fieldOf (m : Model) (table : QueryTable) (name : String) :
    Except Query.Error ColumnRef :=
  match m.collection table.collection with
  | .error e => .error (.request e)
  | .ok c =>
    match c.fields.find? name with
    | none => .error (.unknownField table.collection name)
    | some field => .ok ⟨table, name, field⟩

def columnAt (m : Model) (g : JoinGraph) (path : Path) :
    JoinGraph × Except Query.Error ColumnRef :=
  match g.reach m path.hops with
  | (g, .error e) => (g, .error e)
  | (g, .ok table) => (g, fieldOf m table path.terminal)

end JoinGraph

end Retrieval
