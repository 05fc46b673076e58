import Statechart.Number.Power

/-!
# Binary doubles

Finite doubles as exact values: a significand below `2 ^ 53` times a power of two. Rounding is to
the nearest double, a tie going to the even significand, and all arithmetic is rounding of an
exact quotient, so every result can be computed with whole numbers alone.
-/

namespace Statechart.Number

/-- The finite double `± significand * 2 ^ exponent`.

The form is the normalized one: `2 ^ 52 ≤ significand < 2 ^ 53`, or `exponent = -1074` and the
significand is smaller. -/
structure Double where
  negative : Bool
  significand : Nat
  exponent : Int
  deriving DecidableEq

namespace Double

/-- The least exponent of a double. -/
def leastExponent : Int := -1074

/-- The greatest exponent of a double. -/
def greatestExponent : Int := 971

def zero : Double := ⟨false, 0, leastExponent⟩

def isZero (x : Double) : Bool := x.significand == 0

def neg (x : Double) : Double := { x with negative := !x.negative }

/-- Equal as numbers: the two zeros are one number. -/
def same (x y : Double) : Bool := x == y || (x.isZero && y.isZero)

/-- `2 ^ e` as a quotient. -/
def powerOfTwo (e : Int) : Nat × Nat := (twoTo e.toNat, twoTo (-e).toNat)

/-- The whole number nearest to `num / den`, a tie going to the even one. -/
def roundQuotient (num den : Nat) : Nat :=
  let whole := num / den
  let twice := 2 * (num % den)
  if twice < den then whole
  else if den < twice then whole + 1
  else whole + whole % 2

/-- The exponent at which `num / den` has a significand of 53 binary digits, or the least one. -/
def exponentOf (num den : Nat) : Int :=
  let e : Int := (num.log2 : Int) - (den.log2 : Int) - 53
  let (up, down) := powerOfTwo e
  let e := if twoTo 53 ≤ num * down / (den * up) then e + 1 else e
  max e leastExponent

/-- The non-negative double nearest to `num / den`; none if that is beyond the greatest one. -/
def ofQuotient (num den : Nat) : Option Double :=
  if num = 0 then some zero
  else
    let e := exponentOf num den
    let (up, down) := powerOfTwo e
    let m := roundQuotient (num * down) (den * up)
    let (m, e) := if m = twoTo 53 then (twoTo 52, e + 1) else (m, e)
    if greatestExponent < e then none else some ⟨false, m, e⟩

def ofNat (n : Nat) : Option Double := ofQuotient n 1

/-- The product, rounded. The signs are not looked at: both factors are taken as non-negative. -/
def mul (x y : Double) : Option Double :=
  let (up, down) := powerOfTwo (x.exponent + y.exponent)
  ofQuotient (x.significand * y.significand * up) down

/-- The quotient, rounded; `y` is not zero. The signs are not looked at. -/
def div (x y : Double) : Option Double :=
  let (up, down) := powerOfTwo (x.exponent - y.exponent)
  ofQuotient (x.significand * up) (y.significand * down)

/-- The double nearest to `10 ^ n`. -/
def powerOfTen (n : Nat) : Option Double := ofNat (tenTo n)

end Double

end Statechart.Number
