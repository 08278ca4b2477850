import Retrieval.Sql.Literal

namespace Retrieval.Sql

/-- Names come from the model and raw text is model-written; a request reaches the text through
literals only. -/
inductive Token where
  | select
  | «from»
  | «where»
  | and
  | or
  | as
  | on
  | left
  | join
  | orderBy
  | ascending
  | descending
  | limit
  | offset
  | «in»
  | like
  | is
  | not
  | null
  | never
  | comma
  | dot
  | openParen
  | closeParen
  | eq
  | ne
  | lt
  | gt
  | le
  | ge
  | space
  | name (name : String)
  | count (n : UInt64)
  | literal (l : Literal)
  | raw (sql : String)
  deriving DecidableEq, Repr

namespace Token

def text : Token → String
  | .select => "SELECT"
  | .from => "FROM"
  | .where => "WHERE"
  | .and => "AND"
  | .or => "OR"
  | .as => "AS"
  | .on => "ON"
  | .left => "LEFT"
  | .join => "JOIN"
  | .orderBy => "ORDER BY"
  | .ascending => "ASC"
  | .descending => "DESC"
  | .limit => "LIMIT"
  | .offset => "OFFSET"
  | .in => "IN"
  | .like => "LIKE"
  | .is => "IS"
  | .not => "NOT"
  | .null => "NULL"
  | .never => "0 = 1"
  | .comma => ","
  | .dot => "."
  | .openParen => "("
  | .closeParen => ")"
  | .eq => "="
  | .ne => "!="
  | .lt => "<"
  | .gt => ">"
  | .le => "<="
  | .ge => ">="
  | .space => " "
  | .name n => n
  | .count n => String.ofList (Decimal.digitChars n.toNat)
  | .literal l => l.sql
  | .raw s => s

end Token

def render (tokens : List Token) : String :=
  String.ofList (tokens.flatMap fun t => t.text.toList)

def separate (between : List Token) : List (List Token) → List Token
  | [] => []
  | [item] => item
  | item :: rest => item ++ between ++ separate between rest

end Retrieval.Sql
