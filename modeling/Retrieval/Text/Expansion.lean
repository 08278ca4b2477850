import Retrieval.Dict
import Retrieval.Text.Alphanumeric
import Retrieval.Text.Class

namespace Retrieval

/-- The environment variables of a run. No variable has an empty name or one with `=` in it. -/
structure Environment where
  values : Dict String

def Environment.get? (env : Environment) (name : String) : Option String :=
  if name.isEmpty || name.toList.contains '=' then none else env.values.find? name

namespace Expansion

inductive Piece where
  | char (c : Char)
  | var (name : List Char)
  deriving DecidableEq, Repr

inductive Mode where
  | plain
  | dollar
  | braced (name : List Char)
  | bare (name : List Char)
  deriving DecidableEq, Repr

def isNameChar (c : Char) : Bool :=
  Text.isAlphanumeric c || c == '_'

def scan : Mode → List Char → List Piece
  | .plain, [] => []
  | .dollar, [] => [.char '$']
  | .braced name, [] => [.var name]
  | .bare name, [] => [.var name]
  | .plain, c :: rest => if c = '$' then scan .dollar rest else .char c :: scan .plain rest
  | .dollar, c :: rest =>
    if c = Text.openBrace then scan (.braced []) rest
    else if isNameChar c then scan (.bare [c]) rest
    else if c = '$' then .char '$' :: scan .dollar rest
    else .char '$' :: .char c :: scan .plain rest
  | .braced name, c :: rest =>
    if c = Text.closeBrace then .var name :: scan .plain rest
    else scan (.braced (name ++ [c])) rest
  | .bare name, c :: rest =>
    if isNameChar c then scan (.bare (name ++ [c])) rest
    else if c = '$' then .var name :: scan .dollar rest
    else .var name :: .char c :: scan .plain rest

/-- Replaces each name by its value; the first name without one is the error. -/
def fill (value : String → Option String) : List Piece → Except String (List Char)
  | [] => .ok []
  | .char c :: rest => (fill value rest).map (c :: ·)
  | .var name :: rest =>
    match value (String.ofList name) with
    | none => .error (String.ofList name)
    | some text => (fill value rest).map (text.toList ++ ·)

/-- Variables are written `${name}` or `$name`. A braced name ends at the next closing brace or at
the end of the text; a bare one is the longest run of letters, digits and `_`. A dollar sign that
starts neither is plain text. -/
def expand (env : Environment) (text : String) : Except String String :=
  (fill env.get? (scan .plain text.toList)).map String.ofList

end Expansion

end Retrieval
