import Retrieval.Number.Shortest

namespace Retrieval

structure Layout where
  tie : Tie
  /-- The exponents of the leading digit, from and below, that are written without an exponent;
  all of them if absent. -/
  plain : Option (Int × Int)
  pointZero : Bool
  plusSign : Bool
  deriving Repr

namespace Layout

/-- JSON numbers: plain from 1e-5 and below 1e16. -/
def json : Layout := ⟨.toEven, some (-5, 16), true, true⟩

/-- Numbers in SQL are written as in JSON, but a positive exponent has no sign. -/
def sql : Layout := ⟨.toEven, some (-5, 16), true, false⟩

/-- A number shown as text never has an exponent, and a whole one no point. Ties go away
from zero. -/
def text : Layout := ⟨.awayFromZero, none, false, false⟩

def isPlain (l : Layout) (leading : Int) : Bool :=
  match l.plain with
  | none => true
  | some (least, below) => least ≤ leading && leading < below

def intChars : Int → List Char
  | .ofNat n => Decimal.digitChars n
  | .negSucc n => '-' :: Decimal.digitChars (n + 1)

def scientific (l : Layout) (digits : List Char) (leading : Int) : List Char :=
  let mantissa := match digits with
    | [] => []
    | [d] => [d]
    | d :: rest => d :: '.' :: rest
  let sign := if l.plusSign && decide (0 ≤ leading) then ['+'] else []
  mantissa ++ 'e' :: sign ++ intChars leading

def positional (l : Layout) (digits : List Char) (exponent : Int) : List Char :=
  let pointAt : Int := digits.length + exponent
  if 0 ≤ exponent then
    digits ++ List.replicate exponent.toNat '0' ++ if l.pointZero then ['.', '0'] else []
  else if 0 < pointAt then
    digits.take pointAt.toNat ++ '.' :: digits.drop pointAt.toNat
  else '0' :: '.' :: (List.replicate (-pointAt).toNat '0' ++ digits)

def decimal (l : Layout) (d : Decimal) : List Char :=
  let digits := Decimal.digitChars d.digits
  if l.isPlain d.leadingExponent then l.positional digits d.exponent
  else l.scientific digits d.leadingExponent

def write (l : Layout) (x : Binary64) : List Char :=
  let sign := if x.negative then ['-'] else []
  let magnitude :=
    if x.isZero then if l.pointZero then ['0', '.', '0'] else ['0']
    else l.decimal (Decimal.shortest l.tie x)
  sign ++ magnitude

end Layout

end Retrieval
