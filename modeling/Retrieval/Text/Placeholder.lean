import Retrieval.Text.Class

namespace Retrieval.Placeholder

inductive Piece where
  | char (c : Char)
  | name (name : List Char)
  deriving DecidableEq, Repr

def isNameChar (c : Char) : Bool :=
  Text.isAsciiAlphanumeric c || c == '_' || c == '.'

/-- The plain characters held back after an opening bracket that starts no placeholder. -/
def plain : Option (List Char) → List Piece
  | none => []
  | some run => .char '[' :: run.map .char

/-- Reads a template. A placeholder is `[name]` with a non-empty name of ASCII letters, digits, `_`
and `.`; `held` is the run since the last opening bracket that may start a name. -/
def scan (held : Option (List Char)) : List Char → List Piece
  | [] => plain held
  | c :: rest =>
    match held with
    | none => if c = '[' then scan (some []) rest else .char c :: scan none rest
    | some run =>
      if isNameChar c then scan (some (run ++ [c])) rest
      else if c = ']' && !run.isEmpty then .name run :: scan none rest
      else if c = '[' then plain held ++ scan (some []) rest
      else plain held ++ .char c :: scan none rest

def pieces (template : String) : List Piece :=
  scan none template.toList

def Piece.name? : Piece → Option String
  | .char _ => none
  | .name run => some (String.ofList run)

def names (template : String) : List String :=
  (pieces template).filterMap Piece.name?

/-- Puts what `resolve` gives for each name in its place, left to right. -/
def fill {m : Type → Type} [Monad m] (resolve : String → m String) :
    List Piece → m (List Char)
  | [] => pure []
  | .char c :: rest => do
    let tail ← fill resolve rest
    pure (c :: tail)
  | .name run :: rest => do
    let text ← resolve (String.ofList run)
    let tail ← fill resolve rest
    pure (text.toList ++ tail)

def replace {m : Type → Type} [Monad m] (template : String) (resolve : String → m String) :
    m String := do
  let text ← fill resolve (pieces template)
  pure (String.ofList text)

end Retrieval.Placeholder
