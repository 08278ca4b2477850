import Retrieval.Dict
import Retrieval.Number.Layout
import Retrieval.Text.Class

namespace Retrieval

/-- A JSON number is an integer or a double; `1.0` is not an integer. -/
inductive Json.Number where
  | int (n : Int)
  | float (x : Binary64)
  deriving DecidableEq, Repr

/-- A JSON value. The members of an object are in key order, each key once. -/
inductive Json where
  | null
  | bool (b : Bool)
  | number (n : Json.Number)
  | string (s : String)
  | array (items : List Json)
  | object (members : List (String × Json))
  deriving Repr, Inhabited

namespace Json

def int (n : Int) : Json := .number (.int n)

def ofDict (d : Dict Json) : Json := .object d.entries

def ofOption (f : α → Json) : Option α → Json
  | none => .null
  | some a => f a

def isNull : Json → Bool
  | .null => true
  | _ => false

def Number.int64? : Number → Option Int
  | .int n => if Int64.minValue.toInt ≤ n ∧ n ≤ Int64.maxValue.toInt then some n else none
  | .float _ => none

def Number.toBinary64? : Number → Option Binary64
  | .int n => Binary64.ofInt? n
  | .float x => some x

def Number.chars : Number → List Char
  | .int n => Layout.intChars n
  | .float x => Layout.json.write x

def Number.text (n : Number) : String :=
  String.ofList n.chars

def scalarText? : Json → Option String
  | .string s => some s
  | .number n => some n.text
  | .bool true => some "true"
  | .bool false => some "false"
  | .null | .array _ | .object _ => none

def hexDigit (n : Nat) : Char :=
  Nat.digitChar n

def escape (c : Char) : List Char :=
  if c = '"' then ['\\', '"']
  else if c = '\\' then ['\\', '\\']
  else if c = '\x08' then ['\\', 'b']
  else if c = '\x0c' then ['\\', 'f']
  else if c = '\n' then ['\\', 'n']
  else if c = '\r' then ['\\', 'r']
  else if c = '\t' then ['\\', 't']
  else if c.toNat < 0x20 then
    ['\\', 'u', '0', '0', hexDigit (c.toNat / 16), hexDigit (c.toNat % 16)]
  else [c]

def stringChars (s : String) : List Char :=
  '"' :: s.toList.flatMap escape ++ ['"']

mutual

def chars : Json → List Char
  | .null => ['n', 'u', 'l', 'l']
  | .bool true => ['t', 'r', 'u', 'e']
  | .bool false => ['f', 'a', 'l', 's', 'e']
  | .number n => n.chars
  | .string s => stringChars s
  | .array items => '[' :: itemChars items ++ [']']
  | .object members => Text.openBrace :: memberChars members ++ [Text.closeBrace]

def itemChars : List Json → List Char
  | [] => []
  | [item] => item.chars
  | item :: rest => item.chars ++ ',' :: itemChars rest

def memberChars : List (String × Json) → List Char
  | [] => []
  | [(key, value)] => stringChars key ++ ':' :: value.chars
  | (key, value) :: rest => stringChars key ++ ':' :: value.chars ++ ',' :: memberChars rest

end

def text (v : Json) : String :=
  String.ofList v.chars

example : (Json.object [("a", .array [.int (-1), .null]), ("é", .string "x\"\n\x01")]).text =
    "\x7b\"a\":[-1,null],\"é\":\"x\\\"\\n\\u0001\"\x7d" := by decide +kernel

end Json

end Retrieval
