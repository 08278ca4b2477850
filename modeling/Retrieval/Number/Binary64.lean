namespace Retrieval

/-- A finite double: the number `± mantissa · 2^exponent`. The exponent is at least -1074, and the
mantissa has its full 53 bits unless the exponent is -1074, so each number but zero has one form.
Operations compute the exact result as a quotient of naturals and round it once. -/
structure Binary64 where
  negative : Bool
  mantissa : Nat
  exponent : Int
  deriving DecidableEq, Repr, Inhabited

inductive Tie where
  | toEven
  | awayFromZero
  deriving DecidableEq, Repr

def Tie.round (tie : Tie) (lower : Nat) : Nat :=
  match tie with
  | .toEven => lower + lower % 2
  | .awayFromZero => lower + 1

/-- The integer nearest to `num / den`. -/
def roundDiv (tie : Tie) (num den : Nat) : Nat :=
  let quotient := num / den
  let rest := 2 * (num % den)
  if rest < den then quotient
  else if den < rest then quotient + 1
  else tie.round quotient

namespace Binary64

def leastExponent : Int := -1074

def greatestExponent : Int := 971

def zero (negative : Bool) : Binary64 := ⟨negative, 0, leastExponent⟩

def isZero (x : Binary64) : Bool := x.mantissa == 0

def neg (x : Binary64) : Binary64 := { x with negative := !x.negative }

def scaleTwo (num den : Nat) : Int → Nat × Nat
  | .ofNat e => (num * Nat.pow 2 e, den)
  | .negSucc e => (num, den * Nat.pow 2 (e + 1))

def magnitude (x : Binary64) : Nat × Nat :=
  scaleTwo x.mantissa 1 x.exponent

def leadingBit (num den : Nat) : Int :=
  let k : Int := num.log2 - den.log2
  let scaled := scaleTwo num den (-k)
  if scaled.2 ≤ scaled.1 then k else k - 1

/-- The double nearest to `± num / den`, if that is not beyond the largest one. -/
def ofQuotient? (negative : Bool) (num den : Nat) : Option Binary64 :=
  if num = 0 then some (zero negative)
  else
    let e := max leastExponent (leadingBit num den - 52)
    let scaled := scaleTwo num den (-e)
    let m := roundDiv .toEven scaled.1 scaled.2
    let carried : Nat × Int := if m = Nat.pow 2 53 then (Nat.pow 2 52, e + 1) else (m, e)
    if greatestExponent < carried.2 then none else some ⟨negative, carried.1, carried.2⟩

def ofInt? (n : Int) : Option Binary64 :=
  ofQuotient? (n < 0) n.natAbs 1

def mul? (x y : Binary64) : Option Binary64 :=
  let a := x.magnitude
  let b := y.magnitude
  ofQuotient? (x.negative != y.negative) (a.1 * b.1) (a.2 * b.2)

def div? (x y : Binary64) : Option Binary64 :=
  let a := x.magnitude
  let b := y.magnitude
  ofQuotient? (x.negative != y.negative) (a.1 * b.2) (a.2 * b.1)

/-- The double nearest to a power of ten, up to the largest one that has any. -/
def powerOfTen (n : Nat) : Binary64 :=
  (ofQuotient? false (Nat.pow 10 n) 1).getD (zero false)

def truncate (x : Binary64) : Int :=
  let a := x.magnitude
  let n : Int := ↑(a.1 / a.2)
  if x.negative then -n else n

end Binary64

/-- A double as a database stores it: finite or infinite. -/
inductive Real64 where
  | finite (x : Binary64)
  | infinite (negative : Bool)
  deriving DecidableEq, Repr

end Retrieval
