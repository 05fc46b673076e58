/-!
# Powers and words

Powers of two and ten, and the bounds of whole numbers that are held in 64 bits.
-/

namespace Statechart.Number

/-- A power of two. -/
def twoTo (n : Nat) : Nat := Nat.pow 2 n

/-- A power of ten. -/
def tenTo (n : Nat) : Nat := Nat.pow 10 n

/-- The greatest whole number of 64 bits without a sign. -/
def greatestWord : Nat := twoTo 64 - 1

/-- The least whole number of 64 bits with a sign. -/
def leastSigned : Int := -(twoTo 63 : Int)

/-- The greatest whole number of 64 bits with a sign. -/
def greatestSigned : Int := twoTo 63 - 1

end Statechart.Number
