import Retrieval.Json.Numeral

namespace Retrieval.Json

/-- A unit of a string's content: a character, one half of a surrogate pair written as an escape,
or a part that is no text. -/
inductive CodeUnit where
  | char (c : Char)
  | surrogate (code : Nat)
  | malformed
  deriving DecidableEq, Repr

/-- The text of a string: each high surrogate must be followed by a low one. -/
def decodeUnits : List CodeUnit → Option (List Char)
  | [] => some []
  | .char c :: rest => (decodeUnits rest).map (c :: ·)
  | .surrogate high :: .surrogate low :: rest =>
    if high < 0xdc00 ∧ 0xdc00 ≤ low then
      let code := 0x10000 + (high - 0xd800) * 0x400 + (low - 0xdc00)
      (decodeUnits rest).map (Char.ofNat code :: ·)
    else none
  | .surrogate _ :: _ => none
  | .malformed :: _ => none

/-- A string keeps its content as written, decoded on use only: a part of a document that nobody
asks for may hold escapes that denote no character, or bytes that form none. -/
inductive Token where
  | openArray
  | closeArray
  | openObject
  | closeObject
  | comma
  | colon
  | null
  | bool (b : Bool)
  | number (n : Numeral)
  | string (content : Option String)
  deriving DecidableEq, Repr

namespace Token

inductive Mode where
  | between
  | word (letters : List Char)
  | numeral (chars : List Char)
  | string (units : List CodeUnit)
  | escape (units : List CodeUnit)
  | unicode (units : List CodeUnit) (digits : Nat) (code : Nat)
  deriving DecidableEq, Repr

structure State where
  tokens : List Token := []
  mode : Mode := .between
  deriving Repr

def isSpace (c : Char) : Bool :=
  c == ' ' || c == '\t' || c == '\n' || c == '\r'

def isNumeralChar (c : Char) : Bool :=
  c.isDigit || c == '-' || c == '+' || c == '.' || c == 'e' || c == 'E'

def punctuation? (c : Char) : Option Token :=
  if c = '[' then some .openArray
  else if c = ']' then some .closeArray
  else if c = Text.openBrace then some .openObject
  else if c = Text.closeBrace then some .closeObject
  else if c = ',' then some .comma
  else if c = ':' then some .colon
  else none

def start (tokens : List Token) (c : Char) : Option State :=
  if isSpace c then some ⟨tokens, .between⟩
  else if c = '"' then some ⟨tokens, .string []⟩
  else if c = '-' || c.isDigit then some ⟨tokens, .numeral [c]⟩
  else if c.isLower then some ⟨tokens, .word [c]⟩
  else (punctuation? c).map fun t => ⟨t :: tokens, .between⟩

def ofWord? (letters : List Char) : Option Token :=
  if letters = ['n', 'u', 'l', 'l'] then some .null
  else if letters = ['t', 'r', 'u', 'e'] then some (.bool true)
  else if letters = ['f', 'a', 'l', 's', 'e'] then some (.bool false)
  else none

def finish (s : State) : Option (List Token) :=
  match s.mode with
  | .between => some s.tokens
  | .word letters => (ofWord? letters.reverse).map (· :: s.tokens)
  | .numeral chars => (Numeral.ofChars? chars.reverse).map fun n => .number n :: s.tokens
  | .string _ | .escape _ | .unicode .. => none

def simpleEscape? (c : Char) : Option Char :=
  if c = '"' || c = '\\' || c = '/' then some c
  else if c = 'b' then some '\x08'
  else if c = 'f' then some '\x0c'
  else if c = 'n' then some '\n'
  else if c = 'r' then some '\r'
  else if c = 't' then some '\t'
  else none

def unitOfCode (code : Nat) : CodeUnit :=
  if 0xd800 ≤ code ∧ code < 0xe000 then .surrogate code else .char (Char.ofNat code)

def ofUnits (units : List CodeUnit) : Token :=
  .string ((decodeUnits units.reverse).map String.ofList)

def feed (s : State) (c : Char) : Option State :=
  match s.mode with
  | .between => start s.tokens c
  | .word letters =>
    if c.isLower then some { s with mode := .word (c :: letters) }
    else (finish s).bind fun tokens => start tokens c
  | .numeral chars =>
    if isNumeralChar c then some { s with mode := .numeral (c :: chars) }
    else (finish s).bind fun tokens => start tokens c
  | .string units =>
    if c = '"' then some ⟨ofUnits units :: s.tokens, .between⟩
    else if c = '\\' then some { s with mode := .escape units }
    else if c.toNat < 0x20 then none
    else some { s with mode := .string (.char c :: units) }
  | .escape units =>
    if c = 'u' then some { s with mode := .unicode units 4 0 }
    else (simpleEscape? c).map fun e => { s with mode := .string (.char e :: units) }
  | .unicode units digits code =>
    (Text.hexValue? c).map fun d =>
      let code := 16 * code + d
      if digits ≤ 1 then { s with mode := .string (unitOfCode code :: units) }
      else { s with mode := .unicode units (digits - 1) code }

/-- Bytes that form no character, allowed inside strings only. -/
def feedMalformed (s : State) : Option State :=
  match s.mode with
  | .string units => some { s with mode := .string (.malformed :: units) }
  | _ => none

def feedSymbol (s : State) : Option Char → Option State
  | some c => feed s c
  | none => feedMalformed s

def ofChars? (cs : List Char) : Option (List Token) :=
  ((cs.foldlM feed {}).bind finish).map List.reverse

def ofSymbols? (symbols : List (Option Char)) : Option (List Token) :=
  ((symbols.foldlM feedSymbol {}).bind finish).map List.reverse

end Token

end Retrieval.Json
