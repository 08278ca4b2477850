import Retrieval.Json.Basic
import Retrieval.Number.Reading

namespace Retrieval.Json

structure Numeral where
  negative : Bool
  whole : List Char
  fraction : Option (List Char)
  exponent : Option Int
  deriving DecidableEq, Repr

namespace Numeral

def isWhole : List Char → Bool
  | [] => false
  | [c] => c.isDigit
  | c :: rest => c.isDigit && c != '0' && rest.all Char.isDigit

def fractionOf? : List Char → Option (Option (List Char) × List Char)
  | [] => some (none, [])
  | c :: rest =>
    if c = '.' then
      let digits := rest.takeWhile Char.isDigit
      if digits.isEmpty then none else some (some digits, rest.dropWhile Char.isDigit)
    else some (none, c :: rest)

def ofChars? (cs : List Char) : Option Numeral :=
  let unsigned : Bool × List Char := match cs with
    | [] => (false, [])
    | c :: rest => if c = '-' then (true, rest) else (false, c :: rest)
  let whole := unsigned.2.takeWhile Char.isDigit
  if isWhole whole then
    match fractionOf? (unsigned.2.dropWhile Char.isDigit) with
    | none => none
    | some (fraction, []) => some ⟨unsigned.1, whole, fraction, none⟩
    | some (fraction, tail) =>
      (readExponent? tail).map fun e => ⟨unsigned.1, whole, fraction, some e⟩
  else none

/-- The significand of 64 bits that a run of digits extends, with the digits left over. -/
def accumulate (n : Nat) : List Char → Nat × List Char
  | [] => (n, [])
  | c :: rest =>
    let next := 10 * n + Text.digitValue c
    if next < UInt64.size then accumulate next rest else (n, c :: rest)

def greatestPower : Nat := 308

/-- Divides by a power of ten, by as many places at a time as a double allows. -/
def divideByTen (x : Binary64) (places : Nat) : Option Binary64 :=
  if places ≤ greatestPower then x.div? (Binary64.powerOfTen places)
  else if x.isZero then some x
  else (x.div? (Binary64.powerOfTen greatestPower)).bind fun y =>
    divideByTen y (places - greatestPower)
termination_by places
decreasing_by
  simp only [greatestPower] at *
  omega

/-- The exponents of ten that are counted; the ones beyond give zero or no number at all. -/
def exponentLimit : Int := Int32.maxValue.toInt

def scaled? (negative : Bool) (significand : Nat) (exponent : Int) : Option Binary64 :=
  let magnitude := (Binary64.ofInt? significand).bind fun x =>
    if exponent < 0 then divideByTen x exponent.natAbs
    else if exponent ≤ greatestPower then x.mul? (Binary64.powerOfTen exponent.toNat)
    else if x.isZero then some x
    else none
  magnitude.map fun x => if negative then x.neg else x

def float? (n : Numeral) : Option Binary64 :=
  let whole := accumulate 0 n.whole
  let all := accumulate whole.1 (n.fraction.getD [])
  let used := (n.fraction.getD []).length - all.2.length
  let exponent : Int := whole.2.length - used
  match n.exponent with
  | none => scaled? n.negative all.1 exponent
  | some e =>
    if exponentLimit < e.natAbs then
      if all.1 ≠ 0 ∧ 0 < e then none else some (.zero n.negative)
    else scaled? n.negative all.1 (max (-exponentLimit - 1) (min exponentLimit (exponent + e)))

/-- The number a literal denotes. Without a point and an exponent it is an integer if it fits 64
bits. Any other is a double, which may be some units of the last place off: its leading digits, as
many as fit 64 bits, are rounded and then multiplied or divided by a power of ten. Minus zero is a
double. -/
def number? (n : Numeral) : Option Number :=
  let value : Int := Text.digitsValue n.whole
  let value := if n.negative then -value else value
  if n.fraction.isNone && n.exponent.isNone &&
      decide (Int64.minValue.toInt ≤ value ∧ value < UInt64.size) && !(n.negative && decide (value = 0)) then
    some (.int value)
  else n.float?.map .float

end Numeral

end Retrieval.Json
