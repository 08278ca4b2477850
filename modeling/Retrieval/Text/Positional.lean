namespace Retrieval.Positional

inductive Piece where
  | char (c : Char)
  | hole
  deriving DecidableEq, Repr

def scan (quoted : Bool) : List Char → List Piece
  | [] => []
  | c :: rest =>
    if c = '\'' then .char c :: scan (!quoted) rest
    else if c = '?' && !quoted then .hole :: scan quoted rest
    else .char c :: scan quoted rest

def pieces (template : String) : List Piece :=
  scan false template.toList

def count (template : String) : Nat :=
  (pieces template).countP (· == .hole)

/-- Fills the holes, which are the question marks outside of quotes, in order. A hole without a
value stays a question mark. -/
def fill : List Piece → List String → List Char
  | [], _ => []
  | .char c :: rest, values => c :: fill rest values
  | .hole :: rest, [] => '?' :: fill rest []
  | .hole :: rest, value :: values => value.toList ++ fill rest values

def replace (template : String) (values : List String) : String :=
  String.ofList (fill (pieces template) values)

end Retrieval.Positional
