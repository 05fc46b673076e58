import Mathlib.Data.List.TakeWhile
import Statechart.Proofs.Json.Scanning

/-!
# Numbers and their texts

What follows a number is left alone by the scanner, if the number does not go on with it: each part
of a number ends where it ended before (`Json.scanMagnitude_append`). So a number is legible if its
text alone is taken for it (`Json.legible_number`), and this is so for every whole number of 64 bits
(`Json.scanToken_wholeText`).
-/

namespace Statechart.Json

variable {text rest left : List Char}

/-! ### Where a number ends -/

theorem scanDigits_append (text : List Char) (hends : Ends rest) :
    scanDigits (text ++ rest) = ((scanDigits text).1, (scanDigits text).2 ++ rest) := by
  have htake : rest.takeWhile isDigit = [] := by
    cases rest with
    | nil => rfl
    | cons c rest => rw [List.takeWhile_cons, (hends c rfl).1, if_neg Bool.false_ne_true]
  have hdrop : rest.dropWhile isDigit = rest := by
    cases rest with
    | nil => rfl
    | cons c rest => rw [List.dropWhile_cons, (hends c rfl).1, if_neg Bool.false_ne_true]
  induction text with
  | nil => simp [scanDigits, htake, hdrop]
  | cons c text ih =>
    simp only [scanDigits, Prod.mk.injEq] at ih
    cases hc : isDigit c <;> simp [scanDigits, hc, ih]

/-- The digits before the point are all that there are, and a zero stands alone. -/
theorem scanWhole_eq_some_iff {digits : List Nat} :
    scanWhole text = some (digits, left) ↔ scanDigits text = (digits, left) ∧ digits ≠ [] ∧
      ∀ others, digits = 0 :: others → others = [] := by
  rw [scanWhole]
  generalize scanDigits text = found
  obtain ⟨all, more⟩ := found
  rcases all with _ | ⟨_ | n, _ | ⟨next, others⟩⟩ <;> simp <;> rintro rfl _ <;> simp

theorem scanWhole_append {digits : List Nat} (hends : Ends rest)
    (h : scanWhole text = some (digits, left)) :
    scanWhole (text ++ rest) = some (digits, left ++ rest) := by
  rw [scanWhole_eq_some_iff] at h ⊢
  rw [scanDigits_append text hends, h.1]
  exact ⟨rfl, h.2⟩

theorem scanFraction_append {fraction : Option (List Nat)} (hends : Ends rest)
    (h : scanFraction text = some (fraction, left)) :
    scanFraction (text ++ rest) = some (fraction, left ++ rest) := by
  unfold scanFraction at h
  split at h
  case h_1 text =>
    rw [List.cons_append, scanFraction, scanDigits_append text hends]
    split at h <;> simp_all
  case h_2 hpoint =>
    cases h
    rw [scanFraction]
    rintro more heq
    cases text with
    | nil => exact (hends '.' (by simp_all)).2.1 rfl
    | cons c text => exact hpoint text (by simp_all)

theorem scanPower_append {negative : Bool} {power : Option (Bool × List Nat)} (hends : Ends rest)
    (h : scanPower negative text = some (power, left)) :
    scanPower negative (text ++ rest) = some (power, left ++ rest) := by
  rw [scanPower] at h ⊢
  rw [scanDigits_append text hends]
  split at h <;> simp_all

theorem scanExponent_append {exponent : Option (Bool × List Nat)} (hends : Ends rest)
    (h : scanExponent text = some (exponent, left)) :
    scanExponent (text ++ rest) = some (exponent, left ++ rest) := by
  cases text with
  | nil =>
    cases h
    cases rest with
    | nil => rfl
    | cons c rest =>
      have hc := (hends c rfl).2.2
      exact if_neg (by simpa using hc)
  | cons c text =>
    rw [List.cons_append]
    unfold scanExponent at h ⊢
    dsimp only at h ⊢
    split at h
    case isFalse hc =>
      cases h
      exact if_neg hc
    case isTrue hc =>
      rw [if_pos hc]
      split at h
      case h_1 => exact scanPower_append hends h
      case h_2 => exact scanPower_append hends h
      case h_3 hplus hminus =>
        have hpower := scanPower_append hends h
        cases text with
        | nil => cases h
        | cons d text =>
          rw [List.cons_append] at hpower ⊢
          split <;> simp_all

/-- **A number ends where it ended before.** -/
theorem scanMagnitude_append {negative : Bool} {n : Option Number} (hends : Ends rest)
    (h : scanMagnitude negative text = some (n, left)) :
    scanMagnitude negative (text ++ rest) = some (n, left ++ rest) := by
  simp only [scanMagnitude, Option.bind_eq_some_iff, Option.map_eq_some_iff] at h ⊢
  obtain ⟨⟨whole, afterWhole⟩, hwhole, ⟨fraction, afterFraction⟩, hfraction, ⟨exponent, afterAll⟩,
    hexponent, heq⟩ := h
  cases heq
  exact ⟨_, scanWhole_append hends hwhole, _, scanFraction_append hends hfraction, _,
    scanExponent_append hends hexponent, rfl⟩

/-! ### Numbers as tokens -/

theorem scanToken_of_isDigit {c : Char} (hc : isDigit c = true) (more : List Char) :
    scanToken (c :: more) =
      (scanMagnitude false (c :: more)).map fun (n, left) => (.number n, left) := by
  unfold scanToken
  split
  case h_12 => rfl
  all_goals
    rename_i heq
    obtain ⟨rfl, -⟩ := List.cons.inj heq
    exact absurd hc (by decide)

/-- A number without a sign begins with a digit. -/
theorem exists_digit_of_scanMagnitude {negative : Bool} {n : Option Number}
    (h : scanMagnitude negative text = some (n, left)) :
    ∃ c more, text = c :: more ∧ isDigit c = true := by
  simp only [scanMagnitude, Option.bind_eq_some_iff] at h
  obtain ⟨⟨whole, afterWhole⟩, hwhole, -⟩ := h
  obtain ⟨hscan, hne, -⟩ := scanWhole_eq_some_iff.mp hwhole
  have hdigits : (text.takeWhile isDigit).map digitValue = whole := congrArg Prod.fst hscan
  cases text with
  | nil => exact absurd hdigits.symm hne
  | cons c more =>
    cases hc : isDigit c with
    | true => exact ⟨c, more, rfl, hc⟩
    | false =>
      rw [List.takeWhile_cons, hc, if_neg Bool.false_ne_true] at hdigits
      exact absurd hdigits.symm hne

theorem scanToken_append {n : Option Number} (hends : Ends rest)
    (h : scanToken text = some (.number n, left)) :
    scanToken (text ++ rest) = some (.number n, left ++ rest) := by
  unfold scanToken at h
  split at h
  case h_11 more =>
    simp only [Option.map_eq_some_iff, Prod.mk.injEq, Token.number.injEq] at h
    obtain ⟨⟨m, after⟩, hscan, rfl, rfl⟩ := h
    show (scanMagnitude true (more ++ rest)).map _ = _
    rw [scanMagnitude_append hends hscan]
    rfl
  case h_12 =>
    simp only [Option.map_eq_some_iff, Prod.mk.injEq, Token.number.injEq] at h
    obtain ⟨⟨m, after⟩, hscan, rfl, rfl⟩ := h
    obtain ⟨c, more, rfl, hc⟩ := exists_digit_of_scanMagnitude hscan
    have happend := scanMagnitude_append hends hscan
    rw [List.cons_append] at happend ⊢
    rw [scanToken_of_isDigit hc, happend]
    rfl
  all_goals simp at h

/-- **A number is legible if its text alone is taken for it.** -/
theorem legible_number {n : Number} (h : scanToken n.text = some (.number (some n), [])) :
    (Token.number (some n)).Legible :=
  fun _ hends => scanToken_append hends h

/-! ### Whole numbers -/

theorem digit_toDigits (n : Nat) : ∀ c ∈ Nat.toDigits 10 n, isDigit c = true :=
  fun _ hc => Nat.isDigit_of_mem_toDigits (by decide) (by decide) hc

theorem exists_digit_toDigits (n : Nat) :
    ∃ first others, Nat.toDigits 10 n = first :: others ∧ isDigit first = true := by
  obtain ⟨first, others, hdigits⟩ :=
    List.exists_cons_of_ne_nil (Nat.toDigits_ne_nil : Nat.toDigits 10 n ≠ [])
  exact ⟨first, others, hdigits, digit_toDigits n first (hdigits ▸ List.mem_cons_self)⟩

/-- Only zero begins with a zero. -/
theorem toDigits_eq_zero_cons {n : Nat} {others : List Char}
    (h : Nat.toDigits 10 n = '0' :: others) : others = [] := by
  induction n using Nat.strongRecOn generalizing others with
  | ind n ih =>
    rw [Nat.toDigits_eq_if (by decide)] at h
    split at h
    case isTrue => exact (List.cons.inj h).2.symm
    case isFalse hten =>
      obtain ⟨first, front, hfront, -⟩ := exists_digit_toDigits (n / 10)
      rw [hfront, List.cons_append] at h
      obtain ⟨rfl, -⟩ := List.cons.inj h
      obtain rfl : front = [] := ih (n / 10) (by omega) hfront
      have hzero : n / 10 = Nat.ofDigitChars 10 ['0'] 0 := by
        rw [← hfront, Nat.ofDigitChars_ten_toDigits]
      have hvalue : Nat.ofDigitChars 10 ['0'] 0 = 0 := rfl
      omega

theorem eq_zero_of_digitValue {c : Char} (hc : isDigit c = true) (h : digitValue c = 0) :
    c = '0' := by
  simp only [isDigit, Bool.and_eq_true, decide_eq_true_eq] at hc
  have hle : '0'.toNat ≤ c.toNat := hc.1
  have hge : c.toNat ≤ '0'.toNat := Nat.le_of_sub_eq_zero h
  exact Char.toNat_inj.mp (Nat.le_antisymm hge hle)

theorem scanMagnitude_toDigits (negative : Bool) (n : Nat) :
    scanMagnitude negative (Nat.toDigits 10 n) = some
      (Number.Literal.value? ⟨negative, (Nat.toDigits 10 n).map digitValue, none, none⟩, []) := by
  have hscan : scanDigits (Nat.toDigits 10 n) = ((Nat.toDigits 10 n).map digitValue, []) := by
    rw [scanDigits, List.takeWhile_eq_self_iff.mpr (digit_toDigits n),
      List.dropWhile_eq_nil_iff.mpr (digit_toDigits n)]
  have hwhole : scanWhole (Nat.toDigits 10 n) = some ((Nat.toDigits 10 n).map digitValue, []) := by
    refine scanWhole_eq_some_iff.mpr ⟨hscan, by simp [Nat.toDigits_ne_nil], fun others hzero => ?_⟩
    obtain ⟨first, rest, hdigits, hfirst, rfl⟩ := List.map_eq_cons_iff.mp hzero
    have hdigit := digit_toDigits n first (hdigits ▸ List.mem_cons_self)
    rw [eq_zero_of_digitValue hdigit hfirst] at hdigits
    rw [toDigits_eq_zero_cons hdigits, List.map_nil]
  rw [scanMagnitude, hwhole]
  rfl

theorem ofDigits_toDigits (n : Nat) :
    Number.ofDigits ((Nat.toDigits 10 n).map digitValue) = n := by
  rw [Number.ofDigits, List.foldl_map]
  exact (Nat.ofDigitChars_eq_foldl).symm.trans Nat.ofDigitChars_ten_toDigits

/-- **A whole number of 64 bits is read back from its text.** -/
theorem scanToken_wholeText {n : Int} (h : Number.leastSigned ≤ n ∧ n ≤ Number.greatestWord) :
    scanToken (Number.wholeText n) = some (.number (some (.whole n)), []) := by
  have hscan (negative : Bool) (hnegative : negative = decide (n < 0)) :
      scanMagnitude negative (Nat.toDigits 10 n.natAbs) = some (some (.whole n), []) := by
    rw [scanMagnitude_toDigits, Number.Literal.value?]
    dsimp only
    rw [ofDigits_toDigits, if_neg (by decide)]
    cases negative with
    | true =>
      have hneg : n < 0 := of_decide_eq_true hnegative.symm
      have habs : -(n.natAbs : Int) = n := by omega
      have hpos : 0 < n.natAbs := by omega
      rw [if_pos ⟨rfl, hpos, habs.symm ▸ h.1⟩, habs]
    | false =>
      have hpos : ¬n < 0 := of_decide_eq_false hnegative.symm
      have habs : (n.natAbs : Int) = n := by omega
      have hle : n.natAbs ≤ Number.greatestWord := by omega
      rw [if_neg (fun hneg => Bool.false_ne_true hneg.1), if_pos ⟨Bool.false_ne_true, hle⟩, habs]
  unfold Number.wholeText
  split
  case isTrue hneg =>
    show (scanMagnitude true _).map _ = _
    rw [hscan true (decide_eq_true hneg).symm]
    rfl
  case isFalse hpos =>
    have hdigits := hscan false (decide_eq_false hpos).symm
    obtain ⟨first, others, hcons, hfirst⟩ := exists_digit_toDigits n.natAbs
    rw [hcons] at hdigits ⊢
    rw [scanToken_of_isDigit hfirst, hdigits]
    rfl

end Statechart.Json
