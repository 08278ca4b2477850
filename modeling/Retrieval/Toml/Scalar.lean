import Retrieval.Number.Reading
import Retrieval.Toml.Basic
import Retrieval.Toml.Text

namespace Retrieval.Toml

def isScalarChar (c : Char) : Bool :=
  c.isAlphanum || c == '_' || c == '+' || c == '-' || c == '.' || c == ':'

def unsigned : List Char → Bool × List Char
  | '-' :: rest => (true, rest)
  | '+' :: rest => (false, rest)
  | cs => (false, cs)

def decimalValue? (c : Char) : Option Nat :=
  if c.isDigit then some (Text.digitValue c) else none

def octalValue? (c : Char) : Option Nat :=
  if '0' ≤ c ∧ c ≤ '7' then some (Text.digitValue c) else none

def binaryValue? (c : Char) : Option Nat :=
  if c = '0' then some 0 else if c = '1' then some 1 else none

def decimal? (cs : List Char) : Option Nat :=
  match cs with
  | '0' :: _ :: _ => none
  | cs => digits? decimalValue? 10 cs

def anyInteger? (cs : List Char) : Option Int :=
  match cs with
  | '0' :: 'x' :: ds => (digits? Text.hexValue? 16 ds).map Int.ofNat
  | '0' :: 'o' :: ds => (digits? octalValue? 8 ds).map Int.ofNat
  | '0' :: 'b' :: ds => (digits? binaryValue? 2 ds).map Int.ofNat
  | cs =>
    let signed := unsigned cs
    (decimal? signed.2).map fun n => if signed.1 then -n else n

def integer? (cs : List Char) : Option Int :=
  (anyInteger? cs).filter fun n => -Int.pow 2 127 ≤ n && n < Int.pow 2 128

def isExponent (cs : List Char) : Bool :=
  (digits? decimalValue? 10 (unsigned cs).2).isSome

def isFloatTail (cs : List Char) : Bool :=
  match cs with
  | '.' :: rest =>
    let isMark (c : Char) : Bool := c == 'e' || c == 'E'
    let fraction := rest.takeWhile (!isMark ·)
    (digits? decimalValue? 10 fraction).isSome &&
      (match rest.dropWhile (!isMark ·) with
        | [] => true
        | _ :: exponent => isExponent exponent)
  | c :: rest => (c == 'e' || c == 'E') && isExponent rest
  | [] => false

def isFinite (cs : List Char) : Bool :=
  match readFloat? (cs.filter (· != '_')) with
  | some (.finite _) => true
  | some .notFinite | none => false

def isFloat (cs : List Char) : Bool :=
  let body := (unsigned cs).2
  let isWholeChar (c : Char) : Bool := c.isDigit || c == '_'
  body = ['i', 'n', 'f'] || body = ['n', 'a', 'n'] ||
    ((decimal? (body.takeWhile isWholeChar)).isSome &&
      isFloatTail (body.dropWhile isWholeChar) && isFinite body)

def fixedNumber? (count : Nat) (cs : List Char) : Option Nat :=
  if cs.length = count ∧ cs.all Char.isDigit then some (Text.digitsValue cs) else none

def isBelow (limit : Nat) (cs : List Char) : Bool :=
  match fixedNumber? 2 cs with
  | some n => n < limit
  | none => false

def isLeapYear (year : Nat) : Bool :=
  year % 4 == 0 && (year % 100 != 0 || year % 400 == 0)

def daysIn (year month : Nat) : Nat :=
  if month = 2 then if isLeapYear year then 29 else 28
  else if month ∈ [4, 6, 9, 11] then 30
  else 31

def isDate (cs : List Char) : Bool :=
  match Text.splitWhere (· == '-') cs with
  | [year, month, day] =>
    match fixedNumber? 4 year, fixedNumber? 2 month, fixedNumber? 2 day with
    | some year, some month, some day =>
      1 ≤ month && month ≤ 12 && 1 ≤ day && day ≤ daysIn year month
    | _, _, _ => false
  | _ => false

/-- Seconds up to a leap second, with an optional fraction. -/
def isSeconds (cs : List Char) : Bool :=
  match Text.cutAt? '.' cs with
  | none => isBelow 61 cs
  | some (whole, fraction) =>
    isBelow 61 whole && !fraction.isEmpty && fraction.all Char.isDigit

def isClock (cs : List Char) : Bool :=
  match Text.splitWhere (· == ':') cs with
  | [hour, minute] => isBelow 24 hour && isBelow 60 minute
  | [hour, minute, second] => isBelow 24 hour && isBelow 60 minute && isSeconds second
  | _ => false

def isOffset : List Char → Bool
  | ['Z'] | ['z'] => true
  | sign :: distance =>
    (sign == '+' || sign == '-') &&
      match Text.splitWhere (· == ':') distance with
      | [hour, minute] => isBelow 24 hour && isBelow 60 minute
      | _ => false
  | [] => false

def isOffsetClock (cs : List Char) : Bool :=
  let isClockChar (c : Char) : Bool := c.isDigit || c == ':' || c == '.'
  let offset := cs.dropWhile isClockChar
  isClock (cs.takeWhile isClockChar) && (offset.isEmpty || isOffset offset)

def isTime (cs : List Char) : Bool :=
  isDate cs || isClock cs ||
    (isDate (cs.take 10) &&
      (match cs.drop 10 with
        | c :: clock => (c == 'T' || c == 't' || c == ' ') && isOffsetClock clock
        | [] => false))

/-- A scalar without quotes. A date and a time of day may have a space between them. -/
def scalar? (cs : List Char) : Option (Value × List Char) :=
  let word := cs.takeWhile isScalarChar
  let rest := cs.dropWhile isScalarChar
  let joined : List Char × List Char :=
    match rest with
    | ' ' :: d :: more =>
      if isDate word && d.isDigit then
        (word ++ ' ' :: (d :: more).takeWhile isScalarChar, (d :: more).dropWhile isScalarChar)
      else (word, rest)
    | _ => (word, rest)
  let value : Option Value :=
    if joined.1 = "true".toList then some (.boolean true)
    else if joined.1 = "false".toList then some (.boolean false)
    else
      match integer? joined.1 with
      | some n => some (.integer n)
      | none =>
        if isFloat joined.1 then some .float
        else if isTime joined.1 then some .time
        else none
  value.map (·, joined.2)

end Retrieval.Toml
