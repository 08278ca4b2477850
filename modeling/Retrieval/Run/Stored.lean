import Retrieval.Field.Column
import Retrieval.Run.Error
import Retrieval.Text.Utf8

namespace Retrieval

inductive Stored where
  | null
  | integer (n : Int)
  | real (x : Real64)
  | text (s : String)
  | blob
  deriving DecidableEq, Repr

structure ResultSet where
  names : List String
  rows : List (List Stored)
  deriving Repr

namespace Stored

def ofBytes (bytes : List UInt8) : Stored :=
  .text (Utf8.decode bytes)

/-- The integer part, as far as 64 bits reach. -/
def saturate (x : Real64) : Int :=
  match x with
  | .infinite negative => if negative then Int64.minValue.toInt else Int64.maxValue.toInt
  | .finite x => max Int64.minValue.toInt (min Int64.maxValue.toInt x.truncate)

def realText (x : Real64) : String :=
  match x with
  | .infinite true => "-inf"
  | .infinite false => "inf"
  | .finite x => String.ofList (Layout.text.write x)

def finite (x : Real64) : Except String Json :=
  match x with
  | .finite x => .ok (.number (.float x))
  | .infinite _ => .error "non-finite float"

def isZero (x : Real64) : Bool :=
  match x with
  | .finite x => x.isZero
  | .infinite _ => false

def integerOfText (s : String) : Except String Json :=
  match readInt64? (Text.trim s.toList) with
  | some n => .ok (.int n)
  | none => .error ("'" ++ s ++ "' is not an integer")

def floatOfText (s : String) : Except String Json :=
  match readFloat? (Text.trim s.toList) with
  | some (.finite x) => .ok (.number (.float x))
  | some .notFinite => .error "non-finite float"
  | none => .error ("'" ++ s ++ "' is not a number")

def boolOfText (s : String) : Except String Json :=
  if s = "1" || s = "true" then .ok (.bool true)
  else if s = "0" || s = "false" then .ok (.bool false)
  else .error "not a boolean"

def read (scan : Scan) (v : Stored) : Except String Json :=
  match scan, v with
  | _, .null => .ok .null
  | _, .blob => .error "unexpected blob"
  | .text, .text s => .ok (.string s)
  | .text, .integer n => .ok (.string (String.ofList (Layout.intChars n)))
  | .text, .real x => .ok (.string (realText x))
  | .integer, .integer n => .ok (.int n)
  | .integer, .real x => .ok (.int (saturate x))
  | .integer, .text s => integerOfText s
  | .float, .integer n =>
    match Binary64.ofInt? n with
    | some x => .ok (.number (.float x))
    | none => .error "non-finite float"
  | .float, .real x => finite x
  | .float, .text s => floatOfText s
  | .bool, .integer n => .ok (.bool (n != 0))
  | .bool, .real x => .ok (.bool (!isZero x))
  | .bool, .text s => boolOfText s

end Stored

namespace ResultSet

def sameName (a b : String) : Bool :=
  a.toList.map Char.toLower == b.toList.map Char.toLower

def position? (r : ResultSet) (label : String) : Option Nat :=
  r.names.findIdx? (sameName label)

def readColumn (r : ResultSet) (sql : String) (row : List Stored) (c : ResultColumn) :
    Except Run.Error Json :=
  match (r.position? c.label).bind (row[·]?) with
  | none => .error (.database sql ("no column " ++ c.label))
  | some v =>
    match v.read c.scan with
    | .ok json => .ok json
    | .error problem => .error (.decode c.path problem)

def read (r : ResultSet) (sql : String) (columns : List ResultColumn) :
    Except Run.Error (List (List Json)) :=
  r.rows.mapM fun row => columns.mapM (r.readColumn sql row)

end ResultSet

end Retrieval
