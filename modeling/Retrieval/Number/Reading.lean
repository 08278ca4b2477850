import Retrieval.Number.Binary64
import Retrieval.Text.Class
import Retrieval.Text.Digits

namespace Retrieval

def takeSign : List Char → Bool × List Char
  | [] => (false, [])
  | c :: rest =>
    if c = '-' then (true, rest) else if c = '+' then (false, rest) else (false, c :: rest)

/-- A signed integer of 64 bits: an optional sign and at least one digit. -/
def readInt64? (cs : List Char) : Option Int :=
  let signed := takeSign cs
  if signed.2.isEmpty || !signed.2.all Char.isDigit then none
  else
    let n : Int := Text.digitsValue signed.2
    let n := if signed.1 then -n else n
    if Int64.minValue.toInt ≤ n ∧ n ≤ Int64.maxValue.toInt then some n else none

def readUInt64? (cs : List Char) : Option UInt64 :=
  let digits := match cs with
    | [] => []
    | c :: rest => if c = '+' then rest else c :: rest
  if digits.isEmpty || !digits.all Char.isDigit then none
  else
    let n := Text.digitsValue digits
    if n < UInt64.size then some (UInt64.ofNat n) else none

inductive Reading where
  | finite (x : Binary64)
  | notFinite
  deriving DecidableEq, Repr

/-- The double nearest to `± digits · 10^exponent`. Beyond the exponents of doubles the answer is
known without computing the power. -/
def readScaled (negative : Bool) (digits : List Char) (exponent : Int) : Reading :=
  let significant := digits.dropWhile (· == '0')
  let leading : Int := significant.length + exponent
  if significant.isEmpty || decide (leading < -400) then .finite (.zero negative)
  else if 400 < leading then .notFinite
  else
    let n := Text.digitsValue significant
    let quotient : Nat × Nat := match exponent with
      | .ofNat e => (n * Nat.pow 10 e, 1)
      | .negSucc e => (n, Nat.pow 10 (e + 1))
    match Binary64.ofQuotient? negative quotient.1 quotient.2 with
    | some x => .finite x
    | none => .notFinite

def readExponent? : List Char → Option Int
  | [] => some 0
  | c :: rest =>
    if c = 'e' || c = 'E' then
      let signed := takeSign rest
      if signed.2.isEmpty || !signed.2.all Char.isDigit then none
      else
        let n : Int := Text.digitsValue signed.2
        some (if signed.1 then -n else n)
    else none

def lowercase (cs : List Char) : List Char :=
  cs.map Char.toLower

/-- A decimal number or the name of a value that is not finite. -/
def readFloat? (cs : List Char) : Option Reading :=
  let signed := takeSign cs
  let body := signed.2
  if lowercase body ∈ ["inf".toList, "infinity".toList, "nan".toList] then some .notFinite
  else
    let whole := body.takeWhile Char.isDigit
    let rest := body.dropWhile Char.isDigit
    let split : List Char × List Char := match rest with
      | [] => ([], [])
      | c :: after =>
        if c = '.' then (after.takeWhile Char.isDigit, after.dropWhile Char.isDigit)
        else ([], c :: after)
    if whole.isEmpty && split.1.isEmpty then none
    else
      (readExponent? split.2).map fun e =>
        readScaled signed.1 (whole ++ split.1) (e - split.1.length)

end Retrieval
