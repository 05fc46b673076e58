import Statechart.Number.Double

/-!
# Shortest decimal text of a double

A double is written with the fewest decimal digits that lie nearer to it than to any other double.
Of several such decimals with that many digits the one nearest to the double is taken, and of two
equally near ones that with the even last digit.
-/

namespace Statechart.Number

/-- The decimal `digits * 10 ^ exponent`. -/
structure Decimal where
  digits : Nat
  exponent : Int
  deriving DecidableEq

namespace Decimal

/-- `10 ^ e` as a quotient. -/
def powerOfTen (e : Int) : Nat × Nat := (tenTo e.toNat, tenTo (-e).toNat)

/-- How `d` compares with `n * 2 ^ e`. -/
def compareTo (d : Decimal) (n : Nat) (e : Int) : Ordering :=
  let (tensUp, tensDown) := powerOfTen d.exponent
  let (up, down) := Double.powerOfTwo e
  compare (d.digits * tensUp * down) (n * up * tensDown)

/-- Move the zeros at the end of the digits into the exponent, at most `fuel` of them. -/
def dropZeros : Nat → Decimal → Decimal
  | 0, d => d
  | fuel + 1, d =>
    if d.digits ≠ 0 ∧ d.digits % 10 = 0 then dropZeros fuel ⟨d.digits / 10, d.exponent + 1⟩ else d

/-- The decimal digits, most significant first. -/
def text (d : Decimal) : List Char := Nat.toDigits 10 d.digits

end Decimal

namespace Double

/-- Whether `x` is the double nearest to `d`, so that `d` stands for `x`.

The numbers nearest to `x` reach from half way to the double below to half way to the one above;
the ends belong to it when its significand is even. Below a power of two the lower gap is half as
wide. -/
def isNearest (x : Double) (d : Decimal) : Bool :=
  let narrow := x.significand == twoTo 52 && leastExponent < x.exponent
  let low := if narrow then 4 * x.significand - 1 else 4 * x.significand - 2
  let high := 4 * x.significand + 2
  let ends := x.significand % 2 == 0
  let lower := d.compareTo low (x.exponent - 2)
  let upper := d.compareTo high (x.exponent - 2)
  (lower == .gt || (ends && lower == .eq)) && (upper == .lt || (ends && upper == .eq))

/-- The number of decimal digits before the point, zero or less for values below one tenth. -/
def decimalPoint (x : Double) : Int :=
  let (up, down) := powerOfTwo x.exponent
  let below (k : Int) : Bool :=
    let (tensUp, tensDown) := Decimal.powerOfTen k
    x.significand * up * tensDown < down * tensUp
  let guess : Int := ((x.significand.log2 : Int) + x.exponent) * 30103 / 100000
  ((List.range 4).map fun i : Nat => guess - 1 + (i : Int)).find? below |>.getD (guess + 3)

/-- Of the two decimals around `x` with its last digit at `10 ^ e`, the better one that stands for
`x`. -/
def decimalAt? (x : Double) (e : Int) : Option Decimal :=
  let (up, down) := powerOfTwo x.exponent
  let (tensUp, tensDown) := Decimal.powerOfTen e
  let floor := x.significand * up * tensDown / (down * tensUp)
  let low : Decimal := ⟨floor, e⟩
  let high : Decimal := ⟨floor + 1, e⟩
  match x.isNearest low, x.isNearest high with
  | true, false => some low
  | false, true => some high
  | false, false => none
  | true, true =>
    -- compare the middle of the two with `x`
    match (⟨10 * floor + 5, e - 1⟩ : Decimal).compareTo x.significand x.exponent with
    | .gt => some low
    | .lt => some high
    | .eq => some (if floor % 2 = 0 then low else high)

/-- The exact decimal value. -/
def exactDecimal (x : Double) : Decimal :=
  ⟨x.significand * twoTo x.exponent.toNat * Nat.pow 5 (-x.exponent).toNat, min x.exponent 0⟩

/-- The shortest decimal that stands for the magnitude of `x`, which is not zero. -/
def shortest (x : Double) : Decimal :=
  let point := x.decimalPoint
  let found := (List.range 17).findSome? fun n : Nat => x.decimalAt? (point - 1 - (n : Int))
  (found.getD x.exactDecimal).dropZeros 400

end Double

end Statechart.Number
