import Retrieval.Sql.Token

namespace Retrieval.Sql

inductive Operator where
  | eq
  | ne
  | lt
  | gt
  | le
  | ge
  | like
  | and
  | or
  deriving DecidableEq, Repr

def Operator.token : Operator → Token
  | .eq => .eq
  | .ne => .ne
  | .lt => .lt
  | .gt => .gt
  | .le => .le
  | .ge => .ge
  | .like => .like
  | .and => .and
  | .or => .or

/-- Rendering adds no parentheses of its own: whoever builds an expression groups it where its
surroundings need that. -/
inductive Expr where
  | column (table : Option String) (column : String)
  | literal (l : Literal)
  | raw (sql : String)
  | group (e : Expr)
  | binary (op : Operator) (left right : Expr)
  /-- Membership in a list; the empty list has no members, and there is no SQL for it but a
  condition that never holds. -/
  | oneOf (e : Expr) (values : List Expr)
  | isNull (e : Expr) (negated : Bool)
  | never
  deriving Repr, Inhabited

namespace Expr

mutual

def tokens : Expr → List Token
  | .column none c => [.name c]
  | .column (some table) c => [.name table, .dot, .name c]
  | .literal l => [.literal l]
  | .raw s => [.raw s]
  | .group e => .openParen :: e.tokens ++ [.closeParen]
  | .binary op left right =>
    left.tokens ++ [.space, op.token, .space] ++ right.tokens
  | .oneOf _ [] => [.never]
  | .oneOf e (value :: rest) =>
    e.tokens ++ [.space, .in, .space, .openParen] ++ value.tokens ++ moreTokens rest ++
      [.closeParen]
  | .isNull e negated =>
    e.tokens ++ [.space, .is] ++ (if negated then [.space, .not] else []) ++ [.space, .null]
  | .never => [.never]

def moreTokens : List Expr → List Token
  | [] => []
  | value :: rest => .comma :: .space :: value.tokens ++ moreTokens rest

end

def sql (e : Expr) : String :=
  render e.tokens

def reduce (op : Operator) : List Expr → Option Expr
  | [] => none
  | e :: rest => some (rest.foldl (.binary op) e)

def all (es : List Expr) : Option Expr := reduce .and es

def any (es : List Expr) : Option Expr := reduce .or es

/-- Any of the expressions as a group of its own; of none, a condition that never holds. -/
def anyGroup (es : List Expr) : Expr :=
  .group ((any es).getD .never)

end Expr

end Retrieval.Sql
