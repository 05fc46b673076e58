import Statechart.Number.Shortest

/-!
# Numbers of the interchange format

A number is a whole number between `-2 ^ 63` and `2 ^ 64 - 1`, or a double. `Literal` is a number
as it is spelled; `Literal.value?` says which number it stands for and `Number.text` how a number is
written.
-/

namespace Statechart

/-- A number in a document. -/
inductive Number where
  /-- a whole number between `-2 ^ 63` and `2 ^ 64 - 1` -/
  | whole (n : Int)
  | double (x : Number.Double)
  deriving DecidableEq

namespace Number

/-- A number as it is spelled: digits before the point, after the point, and a signed power of
ten. -/
structure Literal where
  negative : Bool
  whole : List Nat
  fraction : Option (List Nat)
  exponent : Option (Bool × List Nat)
  deriving DecidableEq

/-- Read digits onto `significand` as long as it fits into 64 bits. Returns it with the number of
digits that were read and the digits that were not. -/
def takeDigits (significand : Nat) : List Nat → Nat × Nat × List Nat
  | [] => (significand, 0, [])
  | d :: rest =>
    if greatestWord < 10 * significand + d then (significand, 0, d :: rest)
    else
      let (m, taken, left) := takeDigits (10 * significand + d) rest
      (m, taken + 1, left)

def ofDigits (digits : List Nat) : Nat := digits.foldl (fun n d => 10 * n + d) 0

namespace Double

/-- Divide by powers of ten with at most 308 zeros until `n` zeros are used up; the steps are
rounded one by one. -/
def scaleDown : Nat → Double → Nat → Option Double
  | 0, x, _ => some x
  | fuel + 1, x, n =>
    if n ≤ 308 then (powerOfTen n).bind x.div
    else if x.isZero then some x
    else ((powerOfTen 308).bind x.div).bind fun y => scaleDown fuel y (n - 308)

/-- `significand * 10 ^ e`: the significand and the power of ten are rounded first and then the
product or quotient. None if the result is beyond every double. -/
def ofScaled (significand : Nat) (e : Int) : Option Double :=
  (ofNat significand).bind fun x =>
    if e < 0 then scaleDown ((-e).toNat / 308 + 1) x (-e).toNat
    else if x.isZero then some x
    else if 308 < e then none
    else (powerOfTen e.toNat).bind x.mul

end Double

/-- The double that a literal with a fraction, with an exponent, or with too many digits for a
whole number stands for.

The significand is made of the digits that fit into 64 bits; digits before the point that do not
fit count only as places, digits after the point that do not fit count for nothing. -/
def Literal.double? (l : Literal) : Option Double :=
  let (significand, _, places) := takeDigits 0 l.whole
  let (significand, fractionDigits, _) := takeDigits significand (l.fraction.getD [])
  let power : Int :=
    match l.exponent with
    | none => 0
    | some (negative, digits) => if negative then -(ofDigits digits : Int) else ofDigits digits
  let magnitude := Double.ofScaled significand
    ((places.length : Int) - (fractionDigits : Int) + power)
  magnitude.map fun x => if l.negative then x.neg else x

/-- The number a literal stands for; none if it is beyond every double. Whole literals in range
stand for whole numbers, except that a negative zero is a double. -/
def Literal.value? (l : Literal) : Option Number :=
  let n := ofDigits l.whole
  if l.fraction.isSome || l.exponent.isSome then l.double?.map .double
  else if l.negative ∧ 0 < n ∧ leastSigned ≤ -(n : Int) then some (.whole (-(n : Int)))
  else if ¬ l.negative ∧ n ≤ greatestWord then some (.whole n)
  else l.double?.map .double

/-- The powers of ten of the first digit for which a double is written without an exponent. -/
def leastPlainPower : Int := -5

/-- See `leastPlainPower`. -/
def greatestPlainPower : Int := 15

/-- A decimal laid out: positionally, always with a point, for moderate values; otherwise with one
digit before the point and a signed power of ten. -/
def Decimal.layout (d : Decimal) : List Char :=
  let digits := d.text
  let power : Int := d.exponent + (digits.length : Int) - 1
  if leastPlainPower ≤ power ∧ power ≤ greatestPlainPower then
    if 0 ≤ d.exponent then digits ++ List.replicate d.exponent.toNat '0' ++ ['.', '0']
    else if 0 ≤ power then
      digits.take (power.toNat + 1) ++ '.' :: digits.drop (power.toNat + 1)
    else '0' :: '.' :: List.replicate (-power - 1).toNat '0' ++ digits
  else
    let mantissa :=
      match digits with
      | first :: next :: rest => first :: '.' :: next :: rest
      | _ => digits
    mantissa ++ 'e' :: (if power < 0 then '-' else '+') :: Nat.toDigits 10 power.natAbs

/-- The text of a double: the fewest digits that read back to it. -/
def Double.text (x : Double) : List Char :=
  (if x.negative then ['-'] else []) ++
    (if x.isZero then ['0', '.', '0'] else x.shortest.layout)

/-- The text of a whole number. -/
def wholeText (n : Int) : List Char :=
  if n < 0 then '-' :: Nat.toDigits 10 n.natAbs else Nat.toDigits 10 n.natAbs

/-- The text of a number. -/
def text : Number → List Char
  | .whole n => wholeText n
  | .double x => x.text

/-- Equal as numbers of one kind: a whole number is never equal to a double. -/
def same : Number → Number → Bool
  | .whole a, .whole b => a == b
  | .double x, .double y => x.same y
  | _, _ => false

end Number

end Statechart
