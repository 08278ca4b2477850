import Retrieval.Number.Layout

namespace Retrieval.Sql

def doubleQuotes : List Char → List Char
  | [] => []
  | c :: rest => if c = '\'' then '\'' :: '\'' :: doubleQuotes rest else c :: doubleQuotes rest

def quoteChars (cs : List Char) : List Char :=
  '\'' :: doubleQuotes cs ++ ['\'']

def quote (s : String) : String :=
  String.ofList (quoteChars s.toList)

inductive Literal where
  | null
  | integer (n : Int)
  | real (x : Binary64)
  | text (s : String)
  deriving DecidableEq, Repr

namespace Literal

def bare : Literal → List Char
  | .null => ['N', 'U', 'L', 'L']
  | .integer n => Layout.intChars n
  | .real x => Layout.sql.write x
  | .text s => s.toList

def chars : Literal → List Char
  | .text s => quoteChars s.toList
  | l => l.bare

def sql (l : Literal) : String :=
  String.ofList l.chars

/-- The pattern that matches every text containing the value. -/
def containing (l : Literal) : Literal :=
  .text (String.ofList ('%' :: l.bare ++ ['%']))

example : (Literal.text "it's").sql = "'it''s'" := by decide +kernel

example : (Literal.text "'").containing.sql = "'%''%'" := by decide +kernel

end Literal

end Retrieval.Sql
