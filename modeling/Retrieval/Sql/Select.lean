import Retrieval.Sql.Expr

namespace Retrieval.Sql

structure Item where
  expr : Expr
  label : Option String := none
  deriving Repr

def Item.tokens (i : Item) : List Token :=
  i.expr.tokens ++ match i.label with
    | none => []
    | some label => [.space, .as, .space, .name label]

def Item.sql (i : Item) : String :=
  render i.tokens

structure Table where
  name : String
  aliasName : Option String := none
  deriving DecidableEq, Repr

def Table.tokens (t : Table) : List Token :=
  .name t.name :: match t.aliasName with
    | none => []
    | some aliasName => [.space, .name aliasName]

def Table.sql (t : Table) : String :=
  render t.tokens

inductive Join where
  | left (table : Table) (on : Expr)
  | raw (sql : String)
  deriving Repr

def Join.tokens : Join → List Token
  | .left table on =>
    [.left, .space, .join, .space] ++ table.tokens ++ [.space, .on, .space] ++ on.tokens
  | .raw sql => [.raw sql]

def Join.sql (j : Join) : String :=
  render j.tokens

inductive Direction where
  | ascending
  | descending
  deriving DecidableEq, Repr

structure Order where
  expr : Expr
  direction : Direction
  deriving Repr

def Order.tokens (o : Order) : List Token :=
  o.expr.tokens ++ match o.direction with
    | .ascending => [.space, .ascending]
    | .descending => [.space, .descending]

structure Page where
  limit : Option UInt64 := none
  offset : Option UInt64 := none
  deriving DecidableEq, Repr

namespace Page

def tokens (p : Page) : List Token :=
  match p.limit, p.offset with
  | none, none => []
  | some limit, none => [.limit, .space, .count limit]
  | none, some offset => [.offset, .space, .count offset]
  | some limit, some offset =>
    [.limit, .space, .count limit, .space, .offset, .space, .count offset]

def sql (p : Page) : String :=
  render p.tokens

def isWhole (p : Page) : Bool :=
  p.limit.isNone && p.offset.isNone

end Page

structure Select where
  items : List Item := []
  source : Option Table := none
  joins : List Join := []
  filter : Option Expr := none
  order : List Order := []
  page : Page := {}
  deriving Repr

namespace Select

def restrict (s : Select) (condition : Expr) : Select :=
  { s with filter := some (match s.filter with
      | none => condition
      | some e => .binary .and e condition) }

def tokens (s : Select) : List Token :=
  let items := separate [.comma] (s.items.map fun i => .space :: i.tokens)
  let source := match s.source with
    | none => []
    | some table => [.space, .from, .space] ++ table.tokens
  let joins := s.joins.flatMap fun j => .space :: j.tokens
  let filter := match s.filter with
    | none => []
    | some e => [.space, .where, .space] ++ e.tokens
  let order := if s.order.isEmpty then []
    else [.space, .orderBy, .space] ++ separate [.comma, .space] (s.order.map Order.tokens)
  let page := if s.page.isWhole then [] else .space :: s.page.tokens
  .select :: items ++ source ++ joins ++ filter ++ order ++ page

def sql (s : Select) : String :=
  render s.tokens

end Select

end Retrieval.Sql
