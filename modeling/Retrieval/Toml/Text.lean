import Retrieval.Text.Class
import Retrieval.Text.Digits

namespace Retrieval.Toml

def isSpace (c : Char) : Bool := c == ' ' || c == '\t'

def isPrintable (c : Char) : Bool := c == '\t' || (0x20 ≤ c.toNat && c.toNat != 0x7f)

def skipSpace (cs : List Char) : List Char := cs.dropWhile isSpace

def newline? : List Char → Option (List Char)
  | '\n' :: rest => some rest
  | '\r' :: '\n' :: rest => some rest
  | _ => none

def skipComment (cs : List Char) : List Char :=
  match cs with
  | '#' :: rest => rest.dropWhile isPrintable
  | cs => cs

def endLine? (cs : List Char) : Option (List Char) :=
  match skipComment (skipSpace cs) with
  | [] => some []
  | rest => newline? rest

def skipBlank (fuel : Nat) (cs : List Char) : List Char :=
  match fuel with
  | 0 => cs
  | fuel + 1 =>
    let rest := skipComment (skipSpace cs)
    match newline? rest with
    | some rest => skipBlank fuel rest
    | none => rest

def digits? (value? : Char → Option Nat) (base : Nat) (cs : List Char) : Option Nat :=
  let groups := Text.splitWhere (· == '_') cs
  if groups.any List.isEmpty then none
  else (groups.flatten.mapM value?).map fun ds => ds.foldl (fun n d => base * n + d) 0

def codePoint? (count : Nat) (cs : List Char) : Option (Char × List Char) :=
  let digits := cs.take count
  if digits.length ≠ count then none
  else
    match digits.mapM Text.hexValue? with
    | none => none
    | some ds =>
      let n := ds.foldl (fun n d => 16 * n + d) 0
      if n.isValidChar then some (Char.ofNat n, cs.drop count) else none

def escape? : List Char → Option (Char × List Char)
  | 'b' :: rest => some ('\x08', rest)
  | 't' :: rest => some ('\t', rest)
  | 'n' :: rest => some ('\n', rest)
  | 'f' :: rest => some ('\x0c', rest)
  | 'r' :: rest => some ('\r', rest)
  | 'e' :: rest => some ('\x1b', rest)
  | '"' :: rest => some ('"', rest)
  | '\\' :: rest => some ('\\', rest)
  | 'x' :: rest => codePoint? 2 rest
  | 'u' :: rest => codePoint? 4 rest
  | 'U' :: rest => codePoint? 8 rest
  | _ => none

def line? (fuel : Nat) (quote : Char) (done : List Char) (cs : List Char) :
    Option (String × List Char) :=
  match fuel, cs with
  | 0, _ | _, [] => none
  | fuel + 1, c :: rest =>
    if c = quote then some (String.ofList done.reverse, rest)
    else if c = '\\' && quote = '"' then
      (escape? rest).bind fun e => line? fuel quote (e.1 :: done) e.2
    else if isPrintable c then line? fuel quote (c :: done) rest
    else none

def skipLines (fuel : Nat) (cs : List Char) : List Char :=
  match fuel with
  | 0 => cs
  | fuel + 1 =>
    match newline? (skipSpace cs) with
    | some rest => skipLines fuel rest
    | none => skipSpace cs

/-- A backslash at the end of a line joins it to the next text. -/
def joinLines? (fuel : Nat) (cs : List Char) : Option (List Char) :=
  (newline? (skipSpace cs)).map (skipLines fuel)

def isLinesChar (c : Char) (rest : List Char) : Bool :=
  isPrintable c || c == '\n' || (c == '\r' && rest.head? == some '\n')

/-- A string over several lines, after its opening quotes. Line ends are kept as they are written.
Up to two quotes may stand before the closing ones. -/
def lines? (fuel : Nat) (quote : Char) (done : List Char) (cs : List Char) :
    Option (String × List Char) :=
  match fuel, cs with
  | 0, _ | _, [] => none
  | fuel + 1, c :: rest =>
    if c = quote then
      let quotes := (cs.takeWhile (· == quote)).length
      if quotes < 3 then lines? fuel quote (c :: done) rest
      else if quotes ≤ 5 then
        some (String.ofList ((List.replicate (quotes - 3) quote ++ done).reverse), cs.drop quotes)
      else none
    else if c = '\\' && quote = '"' then
      match joinLines? fuel rest with
      | some rest => lines? fuel quote done rest
      | none => (escape? rest).bind fun e => lines? fuel quote (e.1 :: done) e.2
    else if isLinesChar c rest then lines? fuel quote (c :: done) rest
    else none

def string? (fuel : Nat) (cs : List Char) : Option (String × List Char) :=
  match cs with
  | [] => none
  | quote :: rest =>
    if quote ≠ '"' ∧ quote ≠ '\'' then none
    else if [quote, quote].isPrefixOf rest then
      let body := rest.drop 2
      lines? fuel quote [] ((newline? body).getD body)
    else line? fuel quote [] rest

def isBareKeyChar (c : Char) : Bool := c.isAlphanum || c == '_' || c == '-'

def keyPart? (fuel : Nat) (cs : List Char) : Option (String × List Char) :=
  match cs with
  | [] => none
  | c :: rest =>
    if c = '"' || c = '\'' then line? fuel c [] rest
    else
      let bare := cs.takeWhile isBareKeyChar
      if bare.isEmpty then none else some (String.ofList bare, cs.dropWhile isBareKeyChar)

def keyParts? (fuel : Nat) (cs : List Char) : Option (List String × List Char) :=
  match fuel with
  | 0 => none
  | fuel + 1 =>
    (keyPart? fuel (skipSpace cs)).bind fun part =>
      match skipSpace part.2 with
      | '.' :: rest => (keyParts? fuel rest).map fun more => (part.1 :: more.1, more.2)
      | rest => some ([part.1], rest)

def greatestKeyLength : Nat := 80

def key? (fuel : Nat) (cs : List Char) : Option (List String × List Char) :=
  (keyParts? fuel cs).filter fun key => key.1.length ≤ greatestKeyLength

end Retrieval.Toml
