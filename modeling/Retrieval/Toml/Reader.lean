import Retrieval.Toml.Scalar

namespace Retrieval.Toml

def greatestDepth : Nat := 80

mutual

def value? (fuel depth : Nat) (cs : List Char) : Option (Value × List Char) :=
  match fuel with
  | 0 => none
  | fuel + 1 =>
    match cs with
    | [] => none
    | c :: rest =>
      if c = '"' || c = '\'' then (string? fuel cs).map fun r => (.string r.1, r.2)
      else if c = '[' || c = Text.openBrace then
        match depth with
        | 0 => none
        | depth + 1 =>
          if c = '[' then
            (items? fuel depth (skipBlank fuel rest)).map fun r => (.array r.1, r.2)
          else
            (members? fuel depth [] (skipBlank fuel rest)).map fun r =>
              (.table (entryValues r.1), r.2)
      else scalar? cs

def items? (fuel depth : Nat) (cs : List Char) : Option (List Value × List Char) :=
  match fuel with
  | 0 => none
  | fuel + 1 =>
    match cs with
    | ']' :: rest => some ([], rest)
    | cs =>
      match value? fuel depth cs with
      | none => none
      | some (v, rest) =>
        match skipBlank fuel rest with
        | ',' :: rest => (items? fuel depth (skipBlank fuel rest)).map fun r => (v :: r.1, r.2)
        | ']' :: rest => some ([v], rest)
        | _ => none

def members? (fuel depth : Nat) (entries : Entries) (cs : List Char) :
    Option (Entries × List Char) :=
  match fuel with
  | 0 => none
  | fuel + 1 =>
    if cs.head? = some Text.closeBrace then some (entries, cs.tail)
    else
      match assignment? fuel depth cs with
      | none => none
      | some (keys, v, rest) =>
        match assign keys v entries, skipBlank fuel rest with
        | some entries, ',' :: rest => members? fuel depth entries (skipBlank fuel rest)
        | some entries, c :: rest => if c = Text.closeBrace then some (entries, rest) else none
        | _, _ => none

def assignment? (fuel depth : Nat) (cs : List Char) : Option (List String × Value × List Char) :=
  match fuel with
  | 0 => none
  | fuel + 1 =>
    match key? fuel cs with
    | none => none
    | some (keys, rest) =>
      match skipBlank fuel rest with
      | '=' :: rest =>
        (value? fuel depth (skipBlank fuel rest)).map fun r => (keys, r.1, r.2)
      | _ => none

end

def statement? (fuel : Nat) (cs : List Char) : Option (Statement × List Char) :=
  match cs with
  | '[' :: '[' :: rest =>
    match key? fuel rest with
    | some (keys, ']' :: ']' :: rest) => (endLine? rest).map (.itemHeader keys, ·)
    | _ => none
  | '[' :: rest =>
    match key? fuel rest with
    | some (keys, ']' :: rest) => (endLine? rest).map (.header keys, ·)
    | _ => none
  | cs =>
    match key? fuel cs with
    | some (keys, '=' :: rest) =>
      (value? fuel greatestDepth (skipSpace rest)).bind fun r =>
        (endLine? r.2).map (.assign keys r.1, ·)
    | _ => none

def document? (fuel : Nat) (d : Document) (cs : List Char) : Option Document :=
  match fuel with
  | 0 => none
  | fuel + 1 =>
    match skipBlank fuel cs with
    | [] => some d
    | cs =>
      (statement? fuel cs).bind fun r => (d.add r.1).bind fun d => document? fuel d r.2

/-- The root table of a document. Every step of the reader consumes text, so twice the length is
enough fuel. A byte order mark in front is skipped. -/
def read? (text : String) : Option (List (String × Value)) :=
  let cs := match text.toList with
    | '\ufeff' :: rest => rest
    | cs => cs
  (document? (2 * cs.length + 8) {} cs).map fun d => entryValues d.entries

end Retrieval.Toml
