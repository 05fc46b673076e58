import Mathlib.Data.List.TakeWhile
import Statechart.Proofs.Time.Calendar
import Statechart.Proofs.Tree.Texts
import Statechart.Time.Instant

/-!
# Points in time and their texts

The text of a point in time names this point again (`Instant.ofText?_text`). Each part of the text
is read as what it was written for, whatever follows it: numbers of fixed width
(`Instant.readNumber?_padded`), the year, the fraction of a second (`Instant.readFraction?_append`),
and so the date and the time of day.
-/

namespace Statechart.Instant

/-! ### Digits -/

/-- As many decimal digits as the width says, which stand for `n`. -/
structure Spelled (width n : Nat) (digits : List Char) : Prop where
  length_eq : digits.length = width
  digit : ∀ c ∈ digits, isDigit c = true
  value : ofDigits digits = n

theorem ofDigits_eq (digits : List Char) : ofDigits digits = Nat.ofDigitChars 10 digits 0 :=
  Nat.ofDigitChars_eq_foldl.symm

/-- **A number that is not wider than its place fills it.** -/
theorem spelled_padded {width n : Nat} (hwidth : 0 < width) (h : n < 10 ^ width) :
    Spelled width n (padded width n) := by
  have hlength : (Nat.toDigits 10 n).length ≤ width :=
    (Nat.length_toDigits_le_iff (by decide) hwidth).mpr h
  refine ⟨?_, fun c hc => ?_, ?_⟩
  · simp only [padded, List.length_append, List.length_replicate]
    omega
  · rcases List.mem_append.mp hc with hc | hc
    · obtain rfl := List.eq_of_mem_replicate hc
      rfl
    · exact Nat.isDigit_of_mem_toDigits (by decide) (by decide) hc
  · rw [ofDigits_eq, padded, Nat.ofDigitChars_append, Nat.ofDigitChars_replicate_zero, Nat.mul_zero,
      Nat.ofDigitChars_ten_toDigits]

theorem trimStart_cons {c : Char} (hc : Text.isBlank c = false) (rest : List Char) :
    Text.trimStart (c :: rest) = c :: rest := by
  rw [Text.trimStart, List.dropWhile_cons, hc, if_neg Bool.false_ne_true]

namespace Spelled

variable {width n : Nat} {digits : List Char}

theorem exists_cons (h : Spelled width n digits) (hwidth : 0 < width) :
    ∃ first others, digits = first :: others ∧ isDigit first = true := by
  obtain ⟨first, others, rfl⟩ := List.exists_cons_of_length_pos (h.length_eq ▸ hwidth)
  exact ⟨first, others, rfl, h.digit first List.mem_cons_self⟩

theorem isEmpty_eq (h : Spelled width n digits) (hwidth : 0 < width) : digits.isEmpty = false := by
  obtain ⟨first, others, rfl, -⟩ := h.exists_cons hwidth
  rfl

theorem trimStart_append (h : Spelled width n digits) (hwidth : 0 < width) (rest : List Char) :
    Text.trimStart (digits ++ rest) = digits ++ rest := by
  obtain ⟨first, others, rfl, hfirst⟩ := h.exists_cons hwidth
  exact trimStart_cons (isBlank_of_isDigit hfirst) (others ++ rest)

theorem takeWhile_append (h : Spelled width n digits) {mark : Char} (hmark : isDigit mark = false)
    (rest : List Char) : (digits ++ mark :: rest).takeWhile isDigit = digits := by
  rw [List.takeWhile_append_of_pos h.digit, List.takeWhile_cons, hmark, if_neg Bool.false_ne_true,
    List.append_nil]

end Spelled

/-! ### The parts of a text -/

variable {width n : Nat} {digits : List Char}

theorem readNumber?_padded (hwidth : 0 < width) (hn : n < 10 ^ width) (rest : List Char) :
    readNumber? width (padded width n ++ rest) = some (n, rest) := by
  have h := spelled_padded hwidth hn
  have htake : (padded width n ++ rest).take width = padded width n := List.take_left' h.length_eq
  have hall : (padded width n).takeWhile isDigit = padded width n :=
    List.takeWhile_eq_self_iff.mpr h.digit
  simp only [readNumber?, h.trimStart_append hwidth, htake, hall, h.isEmpty_eq hwidth,
    List.drop_left, h.value]
  rfl

/-- A year of four digits has no sign. -/
theorem readYear?_yearText {year : Int} (h : 0 ≤ year ∧ year ≤ 9999) (rest : List Char) :
    readYear? (yearText year ++ rest) = some (year, rest) := by
  obtain ⟨n, rfl⟩ := Int.eq_ofNat_of_zero_le h.1
  have hlt : n < 10 ^ 4 := by omega
  have htext : yearText (n : Int) = padded 4 n := if_pos h
  have hspelled : Spelled 4 n (padded 4 n) := spelled_padded (by decide) hlt
  have hread := readNumber?_padded (by decide) hlt rest
  obtain ⟨first, others, hcons, hfirst⟩ := hspelled.exists_cons (by decide)
  rw [readYear?, htext, hspelled.trimStart_append (by decide)]
  rw [hcons] at hread ⊢
  split
  case h_1 heq =>
    obtain ⟨rfl, -⟩ := List.cons.inj heq
    exact absurd hfirst (by decide)
  case h_2 heq =>
    obtain ⟨rfl, -⟩ := List.cons.inj heq
    exact absurd hfirst (by decide)
  case h_3 => rw [hread, Option.map_some]

theorem readMark?_cons {c : Char} (hc : Text.isBlank c = false) (rest : List Char) :
    readMark? c (c :: rest) = some rest := by
  rw [readMark?, trimStart_cons hc]
  exact if_pos rfl

/-- A fraction of `places` digits, the last of which counts `10 ^ (9 - places)` nanoseconds. -/
theorem readFraction?_cons {places : Nat} (h : Spelled places n digits) (hplaces : 0 < places)
    (hnine : places ≤ 9) {mark : Char} (hmark : isDigit mark = false) (rest : List Char) :
    readFraction? ('.' :: digits ++ mark :: rest) =
      some (n * Number.tenTo (9 - places), mark :: rest) := by
  have hkept : digits.take 9 = digits := List.take_of_length_le (h.length_eq ▸ hnine)
  simp only [List.cons_append, readFraction?, h.takeWhile_append hmark, h.isEmpty_eq hplaces, hkept,
    h.value, List.drop_left]
  rw [h.length_eq]
  rfl

/-- **The digits of a fraction lose nothing.** -/
theorem readFraction?_append {nanos : Nat} (h : nanos < secondNanos) {mark : Char}
    (hmark : isDigit mark = false) (hpoint : mark ≠ '.') (rest : List Char) :
    readFraction? (fractionText nanos ++ mark :: rest) = some (nanos, mark :: rest) := by
  have hlt : nanos < 1000000000 := h
  -- All three widths of a fraction that is not zero.
  have hread (places unit : Nat) (hplaces : 0 < places) (hnine : places ≤ 9)
      (hunit : unit = Number.tenTo (9 - places)) (hfits : nanos / unit < 10 ^ places)
      (hwhole : nanos % unit = 0) :
      readFraction? ('.' :: padded places (nanos / unit) ++ mark :: rest) =
        some (nanos, mark :: rest) := by
    rw [readFraction?_cons (spelled_padded hplaces hfits) hplaces hnine hmark, ← hunit,
      Nat.div_mul_cancel (Nat.dvd_of_mod_eq_zero hwhole)]
  unfold fractionText
  split
  case isTrue hzero =>
    rw [List.nil_append, readFraction?, hzero]
    rintro text heq
    exact hpoint (List.cons.inj heq).1
  split
  case isTrue hmillis => exact hread 3 1000000 (by decide) (by decide) rfl (by omega) hmillis
  split
  case isTrue hmicros => exact hread 6 1000 (by decide) (by decide) rfl (by omega) hmicros
  case isFalse =>
    have hnanos := hread 9 1 (by decide) (by decide) rfl (by omega) (Nat.mod_one nanos)
    rwa [Nat.div_one] at hnanos

/-! ### The whole text -/

/-- There is such a point in time: a leap second is the last one of a minute. -/
def IsValid (t : Instant) : Prop :=
  t.nanos < secondNanos ∨ t.nanos < 2 * secondNanos ∧ t.seconds % 60 = 59

instance (t : Instant) : Decidable t.IsValid := inferInstanceAs (Decidable (_ ∨ _))

/-- The day in universal time. -/
def date (t : Instant) : Date := Date.ofDays (t.seconds / daySeconds)

theorem readDate?_append {d : Date} (hyear : 0 ≤ d.year ∧ d.year ≤ 9999) (hvalid : d.IsValid)
    (rest : List Char) :
    readDate? (yearText d.year ++ '-' :: padded 2 d.month ++ '-' :: padded 2 d.day ++ rest) =
      some (d, rest) := by
  obtain ⟨-, hmonth, -, hday⟩ := hvalid
  have hlast : Date.daysInMonth d.year d.month ≤ 31 := by
    unfold Date.daysInMonth
    split <;> [split; split] <;> omega
  have hmonth : d.month < 10 ^ 2 := by omega
  have hday : d.day < 10 ^ 2 := by omega
  have hmark := readMark?_cons (c := '-') (by decide)
  simp only [readDate?, List.append_assoc, List.cons_append, readYear?_yearText hyear, hmark,
    readNumber?_padded (by decide) hmonth, readNumber?_padded (by decide) hday, Option.bind_some,
    Option.map_some]

/-- **A time of day is read back**, the sixtieth second of a minute as a leap second. -/
theorem readTime?_append {seconds nanos : Nat} (hday : seconds < 86400)
    (hnanos : nanos < secondNanos ∨ nanos < 2 * secondNanos ∧ seconds % 60 = 59) {mark : Char}
    (hmark : isDigit mark = false) (hpoint : mark ≠ '.') (rest : List Char) :
    readTime? (padded 2 (seconds / 3600) ++ ':' :: padded 2 (seconds / 60 % 60) ++
        ':' :: padded 2 (seconds % 60 + if secondNanos ≤ nanos then 1 else 0) ++
        fractionText (nanos % secondNanos) ++ mark :: rest) =
      some ((seconds, nanos), mark :: rest) := by
  have hfraction : nanos % secondNanos < secondNanos := Nat.mod_lt _ (by decide)
  have hhour : seconds / 3600 < 10 ^ 2 := by omega
  have hminute : seconds / 60 % 60 < 10 ^ 2 := by omega
  have hsecond : (seconds % 60 + if secondNanos ≤ nanos then 1 else 0) < 10 ^ 2 := by
    split <;> omega
  have hcolon := readMark?_cons (c := ':') (by decide)
  simp only [readTime?, List.append_assoc, List.cons_append, hcolon,
    readNumber?_padded (by decide) hhour, readNumber?_padded (by decide) hminute,
    readNumber?_padded (by decide) hsecond, readFraction?_append hfraction hmark hpoint,
    Option.bind_some]
  by_cases hleap : secondNanos ≤ nanos
  case pos =>
    obtain ⟨-, hlast⟩ := hnanos.resolve_left (Nat.not_lt.mpr hleap)
    have hsixty : seconds % 60 + 1 = 60 := by omega
    have hwhole : seconds / 3600 * 3600 + seconds / 60 % 60 * 60 + 59 = seconds := by omega
    have hrest : nanos % secondNanos + secondNanos = nanos := by
      unfold secondNanos at *
      omega
    simp only [if_pos hleap, hsixty, hwhole, hrest, if_true]
    exact if_pos ⟨by omega, by omega, Nat.le_refl 60⟩
  case neg =>
    have hsixty : seconds % 60 ≠ 60 := by omega
    have hwhole : seconds / 3600 * 3600 + seconds / 60 % 60 * 60 + seconds % 60 = seconds := by
      omega
    simp only [if_neg hleap, Nat.add_zero, if_neg hsixty, hwhole,
      Nat.mod_eq_of_lt (Nat.lt_of_not_le hleap)]
    exact if_pos ⟨by omega, by omega, by omega⟩

/-- **A point in time is read back from its text**, if its year has four digits. -/
theorem ofText?_text {t : Instant} (ht : t.IsValid) (hyear : 0 ≤ t.date.year ∧ t.date.year ≤ 9999) :
    ofText? t.text = some t := by
  have hvalid : t.date.IsValid := Date.isValid_ofDays _
  have hdays : t.date.toDays = t.seconds / daySeconds := Date.toDays_ofDays _
  generalize hseconds : (t.seconds % daySeconds).toNat = seconds
  have hday : seconds < 86400 := by
    unfold daySeconds at hseconds
    omega
  have hnanos : t.nanos < secondNanos ∨ t.nanos < 2 * secondNanos ∧ seconds % 60 = 59 := by
    refine ht.imp_right (And.imp_right fun hlast => ?_)
    unfold daySeconds at hseconds
    omega
  have hmark : isDigit 'Z' = false := rfl
  have htime := readTime?_append hday hnanos hmark (by decide) []
  have hdate := readDate?_append hyear hvalid
  simp only [List.append_assoc, List.cons_append] at htime hdate
  have htext : t.text.toList = yearText t.date.year ++ '-' :: (padded 2 t.date.month ++ '-' ::
      (padded 2 t.date.day ++ 'T' :: (padded 2 (seconds / 3600) ++ ':' ::
        (padded 2 (seconds / 60 % 60) ++ ':' ::
          (padded 2 (seconds % 60 + if secondNanos ≤ t.nanos then 1 else 0) ++
            (fractionText (t.nanos % secondNanos) ++ ['Z'])))))) := by
    simp [text, textChars, date, hseconds, inLeapSecond]
  have hsum : t.seconds / daySeconds * daySeconds + (seconds : Int) - 0 = t.seconds := by
    unfold daySeconds at *
    omega
  have hend : ∀ rest, readOffset? ('Z' :: rest) = some (0, rest) := fun rest => rfl
  rw [ofText?, htext, hdate]
  simp only [Option.bind_some, readSeparator?, true_or, if_true, htime, hend, hdays, hsum]
  exact if_pos ⟨hvalid, rfl⟩

example : (⟨1483228799, 1500000000⟩ : Instant).text = "2016-12-31T23:59:60.500Z" := by
  decide +kernel

end Statechart.Instant
