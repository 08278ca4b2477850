import Retrieval.Json.Token

namespace Retrieval.Json

/-- A document as written: members in the order of the text, repeated keys kept, numbers as digits
and strings possibly without a text. -/
inductive Tree where
  | null
  | bool (b : Bool)
  | number (n : Numeral)
  | string (content : Option String)
  | array (items : List Tree)
  | object (members : List (Option String × Tree))
  deriving Repr, Inhabited

namespace Tree

inductive Frame where
  | items (done : List Tree)
  | members (done : List (Option String × Tree)) (key : Option String)
  deriving Repr

inductive Phase where
  | value
  | firstItem
  | firstKey
  | key
  | colon
  | next
  | complete (t : Tree)
  deriving Repr

structure Builder where
  stack : List Frame := []
  phase : Phase := .value
  deriving Repr

def place (t : Tree) : List Frame → Builder
  | [] => ⟨[], .complete t⟩
  | .items done :: stack => ⟨.items (t :: done) :: stack, .next⟩
  | .members done key :: stack => ⟨.members ((key, t) :: done) key :: stack, .next⟩

def startValue (stack : List Frame) : Token → Option Builder
  | .null => some (place .null stack)
  | .bool b => some (place (.bool b) stack)
  | .number n => some (place (.number n) stack)
  | .string content => some (place (.string content) stack)
  | .openArray => some ⟨.items [] :: stack, .firstItem⟩
  | .openObject => some ⟨.members [] none :: stack, .firstKey⟩
  | .closeArray | .closeObject | .comma | .colon => none

def startKey (stack : List Frame) (t : Token) : Option Builder :=
  match stack, t with
  | .members done _ :: stack, .string content => some ⟨.members done content :: stack, .colon⟩
  | _, _ => none

def close (stack : List Frame) (t : Token) : Option Builder :=
  match stack, t with
  | .items done :: stack, .closeArray => some (place (.array done.reverse) stack)
  | .members done _ :: stack, .closeObject => some (place (.object done.reverse) stack)
  | _, _ => none

def feed (b : Builder) (t : Token) : Option Builder :=
  match b.phase with
  | .value => startValue b.stack t
  | .firstItem => if t = .closeArray then close b.stack t else startValue b.stack t
  | .firstKey => if t = .closeObject then close b.stack t else startKey b.stack t
  | .key => startKey b.stack t
  | .colon => if t = .colon then some { b with phase := .value } else none
  | .next =>
    if t = .comma then
      match b.stack with
      | .items _ :: _ => some { b with phase := .value }
      | .members .. :: _ => some { b with phase := .key }
      | [] => none
    else close b.stack t
  | .complete _ => none

def ofTokens? (tokens : List Token) : Option Tree :=
  (tokens.foldlM feed {}).bind fun b => match b.phase with
    | .complete t => some t
    | _ => none

def ofChars? (cs : List Char) : Option Tree :=
  (Token.ofChars? cs).bind ofTokens?

def ofSymbols? (symbols : List (Option Char)) : Option Tree :=
  (Token.ofSymbols? symbols).bind ofTokens?

/-- How many containers may be open at once in the parts of a document that are used. -/
def nestingLimit : Nat := 127

mutual

/-- The value of a tree with at most `room` nested containers. Of the values under a repeated key
the last stays. -/
def value? (room : Nat) : Tree → Option Json
  | .null => some .null
  | .bool b => some (.bool b)
  | .number n => n.number?.map .number
  | .string content => content.map .string
  | .array items => if room = 0 then none else (items? (room - 1) items).map .array
  | .object members =>
    if room = 0 then none else (members? (room - 1) members).map fun es => .ofDict (.ofList es)

def items? (room : Nat) : List Tree → Option (List Json)
  | [] => some []
  | t :: rest =>
    match value? room t, items? room rest with
    | some v, some vs => some (v :: vs)
    | _, _ => none

def members? (room : Nat) : List (Option String × Tree) → Option (List (String × Json))
  | [] => some []
  | (key, t) :: rest =>
    match key, value? room t, members? room rest with
    | some k, some v, some es => some ((k, v) :: es)
    | _, _, _ => none

end

end Tree

def read? (text : String) : Option Json :=
  (Tree.ofChars? text.toList).bind (Tree.value? Tree.nestingLimit)

end Retrieval.Json
