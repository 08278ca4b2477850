import Retrieval.Number.Binary64
import Retrieval.Text.Digits

namespace Retrieval

structure Decimal where
  digits : Nat
  exponent : Int
  deriving DecidableEq, Repr, Inhabited

namespace Decimal

def digitChars (n : Nat) : List Char :=
  Nat.toDigits 10 n

@[simp] theorem digitsValue_digitChars (n : Nat) : Text.digitsValue (digitChars n) = n := by
  have := @Nat.ofDigitChars_toDigits 10 n (by decide) (by decide)
  simpa [Nat.ofDigitChars, Text.digitsValue, Text.digitValue, digitChars, Nat.mul_comm] using this

def leadingExponent (d : Decimal) : Int :=
  (digitChars d.digits).length - 1 + d.exponent

def scaleTen (num den : Nat) : Int → Nat × Nat
  | .ofNat e => (num * Nat.pow 10 e, den)
  | .negSucc e => (num, den * Nat.pow 10 (e + 1))

def leadingPower (num den : Nat) : Int :=
  let k : Int := (digitChars num).length - (digitChars den).length
  let scaled := scaleTen num den (-k)
  if scaled.2 ≤ scaled.1 then k else k - 1

def stripZeros (fuel : Nat) (d : Decimal) : Decimal :=
  match fuel with
  | 0 => d
  | fuel + 1 =>
    if d.digits ≠ 0 ∧ d.digits % 10 = 0 then stripZeros fuel ⟨d.digits / 10, d.exponent + 1⟩ else d

/-- The reals that round to a double, as quarters of its last place: the double is `middle`
quarters, and the ends `low` and `high` belong to the interval iff `closed`. -/
structure Interval where
  low : Nat
  middle : Nat
  high : Nat
  closed : Bool
  quarter : Nat × Nat

def intervalOf (x : Binary64) : Interval :=
  let middle := 4 * x.mantissa
  let below := if x.mantissa = Nat.pow 2 52 ∧ Binary64.leastExponent < x.exponent then 1 else 2
  { low := middle - below
    middle := middle
    high := middle + 2
    closed := x.mantissa % 2 == 0
    quarter := Binary64.scaleTwo 1 1 (x.exponent - 2) }

/-- The nearest multiple of `10^k` to the middle that lies in the interval. -/
def onGrid? (tie : Tie) (i : Interval) (k : Int) : Option Nat :=
  let scaled := scaleTen i.quarter.1 i.quarter.2 (-k)
  let inside (c : Nat) : Bool :=
    let c := c * scaled.2
    if i.closed then i.low * scaled.1 ≤ c && c ≤ i.high * scaled.1
    else i.low * scaled.1 < c && c < i.high * scaled.1
  let lower := i.middle * scaled.1 / scaled.2
  let upper := lower + 1
  let nearest := roundDiv tie (i.middle * scaled.1) scaled.2
  match inside lower, inside upper with
  | true, true => some nearest
  | true, false => some lower
  | false, true => some upper
  | false, false => none

/-- The shortest decimal of a magnitude that is not zero: of all decimals that round to it, one with
the fewest digits, and of those the nearest. Seventeen digits are always enough. -/
def shortest (tie : Tie) (x : Binary64) : Decimal :=
  let i := intervalOf x
  let magnitude := x.magnitude
  let top := leadingPower magnitude.1 magnitude.2
  let found := (List.range 17).findSome? fun (n : Nat) =>
    let k : Int := top - n
    (onGrid? tie i k).map fun c => stripZeros 18 ⟨c, k⟩
  found.getD ⟨0, 0⟩

end Decimal

end Retrieval
