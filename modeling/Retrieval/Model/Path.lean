import Retrieval.Text.Class

namespace Retrieval

/-- A dotted path such as `author.company.name`: reference fields to follow, and the field to read.
-/
structure Path where
  text : String
  deriving DecidableEq, Repr, Inhabited

namespace Path

def segments (p : Path) : List String :=
  (Text.splitWhere (· == '.') p.text.toList).map String.ofList

def hops (p : Path) : List String :=
  p.segments.dropLast

def terminal (p : Path) : String :=
  p.segments.getLast?.getD ""

end Path

end Retrieval
