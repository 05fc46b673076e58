/-!
# Lengths of time

A length of time is a number of seconds and of nanoseconds. Delays are counted in whole
milliseconds.
-/

namespace Statechart

/-- A length of time, exact to the nanosecond. -/
structure Duration where
  seconds : Nat
  nanos : Nat
  nanos_lt : nanos < 1000000000 := by decide
  deriving DecidableEq

namespace Duration

/-- The length of `nanos` nanoseconds. -/
def ofNanos (nanos : Nat) : Duration :=
  ⟨nanos / 1000000000, nanos % 1000000000, Nat.mod_lt _ (by decide)⟩

def ofMillis (millis : Nat) : Duration :=
  ⟨millis / 1000, millis % 1000 * 1000000, by omega⟩

def toNanos (d : Duration) : Nat := d.seconds * 1000000000 + d.nanos

/-- The whole milliseconds in a length of time. -/
def toMillis (d : Duration) : Nat := d.seconds * 1000 + d.nanos / 1000000

/-- Whether a length of time is a whole number of milliseconds. -/
def IsWholeMillis (d : Duration) : Prop := d.nanos % 1000000 = 0

instance (d : Duration) : Decidable d.IsWholeMillis := inferInstanceAs (Decidable (_ = _))

@[simp] theorem toMillis_ofMillis (millis : Nat) : (ofMillis millis).toMillis = millis := by
  simp only [toMillis, ofMillis]
  omega

theorem ofMillis_toMillis (d : Duration) (h : d.IsWholeMillis) : ofMillis d.toMillis = d := by
  obtain ⟨seconds, nanos, lt⟩ := d
  simp only [IsWholeMillis] at h
  simp only [toMillis, ofMillis, mk.injEq]
  constructor <;> omega

theorem toMillis_inj {d e : Duration} (hd : d.IsWholeMillis) (he : e.IsWholeMillis) :
    d.toMillis = e.toMillis ↔ d = e :=
  ⟨fun h => by rw [← ofMillis_toMillis d hd, h, ofMillis_toMillis e he], fun h => h ▸ rfl⟩

/-- The digits of a fraction with the given number of places, without zeros at the end. -/
def fractionText (places value : Nat) : List Char :=
  let digits := Nat.toDigits 10 value
  let padded := List.replicate (places - digits.length) '0' ++ digits
  (padded.reverse.dropWhile (· == '0')).reverse

/-- A number of units with a fraction, which is left out if it is zero. -/
def unitText (whole places fraction : Nat) (unit : String) : String :=
  let point := if fraction = 0 then "" else "." ++ String.ofList (fractionText places fraction)
  toString whole ++ point ++ unit

/-- A length of time in the largest of seconds, milliseconds, microseconds and nanoseconds of which
it has at least one, exact and without needless zeros. -/
def text (d : Duration) : String :=
  if 0 < d.seconds then unitText d.seconds 9 d.nanos "s"
  else if 1000000 ≤ d.nanos then unitText (d.nanos / 1000000) 6 (d.nanos % 1000000) "ms"
  else if 1000 ≤ d.nanos then unitText (d.nanos / 1000) 3 (d.nanos % 1000) "µs"
  else unitText d.nanos 0 0 "ns"

end Duration

end Statechart
