import Statechart.Number.Power
import Statechart.Text.Blank
import Statechart.Time.Calendar
import Statechart.Time.Duration

/-!
# Points in time

A point in time is written in universal time as `YYYY-MM-DDTHH:MM:SS`, a fraction of 0, 3, 6 or 9
digits, and a `Z`. It is read with any offset from universal time; between the parts there may be
blanks.
-/

namespace Statechart

/-- A point in time: seconds since the first of January 1970 in universal time, and nanoseconds.
During a leap second, which is counted to the second before it, the nanoseconds go on beyond a
billion. -/
structure Instant where
  seconds : Int
  nanos : Nat
  deriving DecidableEq

namespace Instant

def epoch : Instant := ⟨0, 0⟩

def ofMicros (micros : Int) : Instant := ⟨micros / 1000000, (micros % 1000000).toNat * 1000⟩

def ofMillis (millis : Nat) : Instant := ⟨millis / 1000, millis % 1000 * 1000000⟩

/-- Seconds in a day. -/
def daySeconds : Int := 86400

/-- The billion nanoseconds of a second. -/
def secondNanos : Nat := 1000000000

def inLeapSecond (t : Instant) : Bool := secondNanos ≤ t.nanos

/-- The nanoseconds from `start` to `t`, below zero if `t` comes first. A leap second that the two
do not share counts if it is in between by the time of day. -/
def nanosSince (t start : Instant) : Int :=
  let timeOfDay (i : Instant) := i.seconds % daySeconds
  let leap : Int :=
    if timeOfDay start < timeOfDay t then (if start.inLeapSecond then 1 else 0)
    else if timeOfDay t < timeOfDay start then (if t.inLeapSecond then -1 else 0)
    else 0
  (t.seconds - start.seconds + leap) * secondNanos + (t.nanos - start.nanos)

/-- The time from `start` to `t`; none if `t` comes first. -/
def since? (t start : Instant) : Option Duration :=
  let nanos := t.nanosSince start
  if nanos < 0 then none else some (Duration.ofNanos nanos.toNat)

/-! ### Writing -/

/-- A number with at least `width` digits. -/
def padded (width n : Nat) : List Char :=
  let digits := Nat.toDigits 10 n
  List.replicate (width - digits.length) '0' ++ digits

/-- A year; outside of four digits it has a sign. -/
def yearText (year : Int) : List Char :=
  if 0 ≤ year ∧ year ≤ 9999 then padded 4 year.toNat
  else (if year < 0 then '-' else '+') :: padded 4 year.natAbs

/-- A fraction of a second, with the fewest of 0, 3, 6 and 9 digits that lose nothing. -/
def fractionText (nanos : Nat) : List Char :=
  if nanos = 0 then []
  else if nanos % 1000000 = 0 then '.' :: padded 3 (nanos / 1000000)
  else if nanos % 1000 = 0 then '.' :: padded 6 (nanos / 1000)
  else '.' :: padded 9 nanos

def textChars (t : Instant) : List Char :=
  let date := Date.ofDays (t.seconds / daySeconds)
  let seconds := (t.seconds % daySeconds).toNat
  let second := seconds % 60 + (if t.inLeapSecond then 1 else 0)
  yearText date.year ++ '-' :: padded 2 date.month ++ '-' :: padded 2 date.day ++
    'T' :: padded 2 (seconds / 3600) ++ ':' :: padded 2 (seconds / 60 % 60) ++
    ':' :: padded 2 second ++ fractionText (t.nanos % secondNanos) ++ ['Z']

def text (t : Instant) : String := String.ofList t.textChars

/-! ### Reading -/

def isDigit (c : Char) : Bool := '0' ≤ c && c ≤ '9'

def ofDigits (digits : List Char) : Nat :=
  digits.foldl (fun n c => 10 * n + (c.toNat - '0'.toNat)) 0

/-- A number of at most `width` digits after any blanks, and what follows it. -/
def readNumber? (width : Nat) (text : List Char) : Option (Nat × List Char) :=
  let text := Text.trimStart text
  let digits := (text.take width).takeWhile isDigit
  if digits.isEmpty then none else some (ofDigits digits, text.drop digits.length)

/-- A year of at most four digits, or of any number of digits after a sign. -/
def readYear? (text : List Char) : Option (Int × List Char) :=
  match Text.trimStart text with
  | '-' :: rest => (signed rest).map fun (n, left) => (-(n : Int), left)
  | '+' :: rest => (signed rest).map fun (n, left) => ((n : Int), left)
  | text => (readNumber? 4 text).map fun (n, left) => ((n : Int), left)
where
  signed (text : List Char) : Option (Nat × List Char) :=
    let digits := text.takeWhile isDigit
    if digits.isEmpty then none else some (ofDigits digits, text.drop digits.length)

/-- The mark `c` after any blanks. -/
def readMark? (c : Char) (text : List Char) : Option (List Char) :=
  match Text.trimStart text with
  | d :: rest => if d = c then some rest else none
  | [] => none

/-- The nanoseconds of a fraction; digits beyond the ninth count for nothing. -/
def readFraction? : List Char → Option (Nat × List Char)
  | '.' :: text =>
    let digits := text.takeWhile isDigit
    if digits.isEmpty then none
    else
      let kept := digits.take 9
      some (ofDigits kept * Number.tenTo (9 - kept.length), text.drop digits.length)
  | text => some (0, text)

/-- The minutes of an offset after its hours. -/
def readOffsetMinutes? (text : List Char) : Option (Nat × List Char) :=
  match text.dropWhile fun c => c == ':' || Text.isBlank c with
  | a :: b :: rest =>
    if '0' ≤ a ∧ a ≤ '5' ∧ isDigit b then some (ofDigits [a, b], rest) else none
  | _ => none

/-- The hours and minutes of an offset, in seconds. An offset is less than a day. -/
def readOffsetTime? : List Char → Option (Int × List Char)
  | a :: b :: rest =>
    if isDigit a && isDigit b then
      (readOffsetMinutes? rest).bind fun (minutes, left) =>
        let seconds : Int := ofDigits [a, b] * 3600 + minutes * 60
        if seconds < daySeconds then some (seconds, left) else none
    else none
  | _ => none

/-- An offset from universal time in seconds. -/
def readOffset? (text : List Char) : Option (Int × List Char) :=
  match Text.trimStart text with
  | '+' :: rest => readOffsetTime? rest
  | '-' :: rest => (readOffsetTime? rest).map fun (n, left) => (-n, left)
  | '−' :: rest => (readOffsetTime? rest).map fun (n, left) => (-n, left)
  | z :: rest =>
    if z = 'Z' ∨ z = 'z' then some (0, rest)
    else
      match z.toLower, rest with
      | 'u', t :: c :: rest => if t.toLower = 't' ∧ c.toLower = 'c' then some (0, rest) else none
      | _, _ => none
  | [] => none

/-- A date and what follows it. -/
def readDate? (text : List Char) : Option (Date × List Char) :=
  (readYear? text).bind fun (year, text) =>
    (readMark? '-' text).bind fun text =>
      (readNumber? 2 text).bind fun (month, text) =>
        (readMark? '-' text).bind fun text =>
          (readNumber? 2 text).map fun (day, text) => (⟨year, month, day⟩, text)

/-- A time of day as seconds and nanoseconds, and what follows it. The sixtieth second of a minute
is a leap second. -/
def readTime? (text : List Char) : Option ((Nat × Nat) × List Char) :=
  (readNumber? 2 text).bind fun (hour, text) =>
    (readMark? ':' text).bind fun text =>
      (readNumber? 2 text).bind fun (minute, text) =>
        (readMark? ':' text).bind fun text =>
          (readNumber? 2 text).bind fun (second, text) =>
            (readFraction? text).bind fun (nanos, text) =>
              if hour < 24 ∧ minute < 60 ∧ second ≤ 60 then
                let whole := hour * 3600 + minute * 60
                if second = 60 then some ((whole + 59, nanos + secondNanos), text)
                else some ((whole + second, nanos), text)
              else none

/-- The letter or blank between date and time. -/
def readSeparator? : List Char → Option (List Char)
  | c :: rest => if c = 'T' ∨ c = 't' ∨ c = ' ' then some rest else none
  | [] => none

/-- The point in time that a text names. -/
def ofText? (text : String) : Option Instant :=
  (readDate? text.toList).bind fun (date, rest) =>
    (readSeparator? rest).bind fun rest =>
      (readTime? rest).bind fun ((seconds, nanos), rest) =>
        (readOffset? rest).bind fun (offset, rest) =>
          if date.IsValid ∧ (Text.trimStart rest).isEmpty then
            some ⟨date.toDays * daySeconds + seconds - offset, nanos⟩
          else none

end Instant

end Statechart
