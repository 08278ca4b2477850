import Retrieval.Json.Basic
import Retrieval.Number.Reading
import Retrieval.Sql.Literal

namespace Retrieval

inductive ParamProblem where
  | notString
  | notInteger
  | notStrings
  | notPositive
  | required
  deriving DecidableEq, Repr

def ParamProblem.message : ParamProblem → String
  | .notString => "value must be a string"
  | .notInteger => "value must be an integer"
  | .notStrings => "value must be an array of strings"
  | .notPositive => "must be positive"
  | .required => "is required"

inductive Field.Error where
  | missingType
  | unknownType (tag : String)
  | invalidParam (param : String) (problem : ParamProblem)
  | invalidValue (typeName : String) (value : Json)
  deriving Repr

def Field.Error.message : Field.Error → String
  | .missingType => "field definition has no 'type'"
  | .unknownType tag => "unknown data type '" ++ tag ++ "'"
  | .invalidParam param problem => "param " ++ param ++ " " ++ problem.message
  | .invalidValue typeName value => "cannot use " ++ value.text ++ " as " ++ typeName

/-- How a result column is read back from the database. -/
inductive Scan where
  | text
  | integer
  | float
  | bool
  deriving DecidableEq, Repr

inductive Field where
  | string (maxLength : Option Nat)
  | text (maxLength : Option Nat)
  | enum (choices : List String)
  | int
  /-- A primary key: a whole number that is not negative. -/
  | id
  | ref (collection : String)
  | float
  | bool
  | date
  deriving DecidableEq, Repr

namespace Field

def typeName : Field → String
  | string _ => "string"
  | text _ => "text"
  | enum _ => "enum"
  | int => "int"
  | id => "id"
  | ref _ => "ref"
  | float => "float"
  | bool => "bool"
  | date => "date"

def isSearchable : Field → Bool
  | string _ | text _ | enum _ => true
  | int | id | ref _ | float | bool | date => false

def scan : Field → Scan
  | string _ | text _ | enum _ | date => .text
  | int | id | ref _ => .integer
  | float => .float
  | bool => .bool

def references : Field → Option String
  | ref collection => some collection
  | _ => none

def wholeNumber? : Json → Option Int
  | .number n => n.int64?
  | .string s => readInt64? (Text.trim s.toList)
  | _ => none

def finiteNumber? : Json → Option Binary64
  | .number n => n.toBinary64?
  | .string s =>
    match readFloat? (Text.trim s.toList) with
    | some (.finite x) => some x
    | _ => none
  | _ => none

def truth? : Json → Option Bool
  | .bool b => some b
  | .number n =>
    if n.int64? = some 0 then some false
    else if n.int64? = some 1 then some true
    else none
  | .string s =>
    if s = "true" || s = "1" then some true
    else if s = "false" || s = "0" then some false
    else none
  | _ => none

def fits (maxLength : Option Nat) (s : String) : Bool :=
  match maxLength with
  | none => true
  | some max => s.length ≤ max

def present? : Field → Json → Option Sql.Literal
  | string maxLength, v | text maxLength, v =>
    v.scalarText?.bind fun s => if fits maxLength s then some (.text s) else none
  | enum choices, .string s => if s ∈ choices then some (.text s) else none
  | enum _, _ => none
  | int, v => (wholeNumber? v).map .integer
  | id, v | ref _, v =>
    (wholeNumber? v).bind fun n => if 0 ≤ n then some (.integer n) else none
  | float, v => (finiteNumber? v).map .real
  | bool, v => (truth? v).map fun b => .integer (if b then 1 else 0)
  | date, .string s => some (.text s)
  | date, _ => none

/-- The SQL literal of a value. Every field holds null. -/
def literal (f : Field) (v : Json) : Except Field.Error Sql.Literal :=
  if v.isNull then .ok .null
  else match f.present? v with
    | some l => .ok l
    | none => .error (.invalidValue f.typeName v)

/-- The literal of a text to look for. It may be a part of a value, so an enumeration takes any
text here, but no null. -/
def pattern (f : Field) (v : Json) : Except Field.Error Sql.Literal :=
  match f, v with
  | enum _, .string s => .ok (.text s)
  | enum _, v => .error (.invalidValue f.typeName v)
  | f, v => f.literal v

end Field

end Retrieval
