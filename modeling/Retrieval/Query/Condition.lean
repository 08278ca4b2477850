import Retrieval.Query.Selection
import Retrieval.Request.Basic

namespace Retrieval

inductive Comparison where
  | eq
  | ne
  | le
  | ge
  | lt
  | gt
  | like
  | oneOf
  deriving DecidableEq, Repr

def Comparison.ofText (text : String) : Except Request.Error Comparison :=
  if text = "=" then .ok .eq
  else if text = "!=" then .ok .ne
  else if text = "<=" then .ok .le
  else if text = ">=" then .ok .ge
  else if text = "<" then .ok .lt
  else if text = ">" then .ok .gt
  else if text = "LIKE" then .ok .like
  else if text = "IN" then .ok .oneOf
  else .error (.unknownComparator text)

namespace Selection

def lookup (p : Selection) (path : String) : Except Request.Error SelectedField :=
  match p.get? path with
  | some f => .ok f
  | none => .error (.unmappedField path)

end Selection

namespace SelectedField

def blame (f : SelectedField) : Except Field.Error α → Except Request.Error α
  | .ok a => .ok a
  | .error cause => .error (.invalidValue f.path cause)

def literal (f : SelectedField) (v : Json) : Except Request.Error Sql.Literal :=
  f.blame (f.field.literal v)

def nullRefused (f : SelectedField) : Request.Error :=
  .invalidValue f.path (.invalidValue f.field.typeName .null)

def contains (f : SelectedField) (v : Json) : Except Request.Error Sql.Expr :=
  if v.isNull then .error f.nullRefused
  else (f.blame (f.field.pattern v)).map fun l =>
    .binary .like f.operand (.literal l.containing)

def compare (f : SelectedField) (op : Sql.Operator) (v : Json) : Except Request.Error Sql.Expr :=
  (f.literal v).map fun l => .binary op f.operand (.literal l)

def oneOf (f : SelectedField) (vs : List Json) : Except Request.Error Sql.Expr :=
  (vs.mapM f.literal).map fun ls => .oneOf f.operand (ls.map .literal)

def ordered (f : SelectedField) (op : Sql.Operator) (v : Json) : Except Request.Error Sql.Expr :=
  if v.isNull then .error f.nullRefused else f.compare op v

def predicate (f : SelectedField) (comparator : Comparison) (v : Json) :
    Except Request.Error Sql.Expr :=
  match comparator with
  | .oneOf =>
    match v with
    | .array vs => f.oneOf vs
    | _ => .error (.listRequired f.path)
  | .like => f.contains v
  | .eq => if v.isNull then .ok (.isNull f.operand false) else f.compare .eq v
  | .ne => if v.isNull then .ok (.isNull f.operand true) else f.compare .ne v
  | .le => f.ordered .le v
  | .ge => f.ordered .ge v
  | .lt => f.ordered .lt v
  | .gt => f.ordered .gt v

end SelectedField

/-- The predicate of a condition. The field is looked up before the comparator is read. -/
def Condition.predicate (p : Selection) (c : Condition) : Except Request.Error Sql.Expr := do
  let f ← p.lookup c.field
  let comparator ← Comparison.ofText c.comparator
  f.predicate comparator c.value

end Retrieval
