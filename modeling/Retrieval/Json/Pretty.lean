import Retrieval.Json.Basic

namespace Retrieval.Json

def newline (level : Nat) : List Char :=
  '\n' :: List.replicate (2 * level) ' '

mutual

def prettyChars (level : Nat) : Json → List Char
  | .array (item :: rest) =>
    '[' :: newline (level + 1) ++ prettyChars (level + 1) item ++
      prettyItems (level + 1) rest ++ newline level ++ [']']
  | .object ((key, value) :: rest) =>
    Text.openBrace :: newline (level + 1) ++ stringChars key ++ ':' :: ' ' ::
      prettyChars (level + 1) value ++
      prettyMembers (level + 1) rest ++ newline level ++ [Text.closeBrace]
  | .array [] => ['[', ']']
  | .object [] => [Text.openBrace, Text.closeBrace]
  | .null => chars .null
  | .bool b => chars (.bool b)
  | .number n => n.chars
  | .string s => stringChars s

def prettyItems (level : Nat) : List Json → List Char
  | [] => []
  | item :: rest => ',' :: newline level ++ prettyChars level item ++ prettyItems level rest

def prettyMembers (level : Nat) : List (String × Json) → List Char
  | [] => []
  | (key, value) :: rest =>
    ',' :: newline level ++ stringChars key ++ ':' :: ' ' :: prettyChars level value ++
      prettyMembers level rest

end

def pretty (v : Json) : String :=
  String.ofList (prettyChars 0 v)

end Retrieval.Json
