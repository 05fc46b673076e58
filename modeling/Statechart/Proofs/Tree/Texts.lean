import Mathlib.Data.Nat.Digits.Defs
import Statechart.Tree.Defects

/-!
# Texts in definitions

Two kinds of text in a definition are taken apart: dotted paths and the milliseconds of delays. A
dotted path stands for the keys that it is joined from, as long as there is no dot in them
(`split_join`, `join_split`). A text stands for a number if it consists of decimal digits, apart
from a plus sign before them and blanks around (`Denotes`, `readMillis?_eq_some`).
-/

namespace Statechart

namespace Text

/-! ### Dotted paths -/

/-- There is no dot in any of the keys. -/
def Dotless (keys : List String) : Prop := ∀ key ∈ keys, '.' ∉ key.toList

theorem join_cons (key : String) {keys : List String} (h : keys ≠ []) :
    join (key :: keys) = key ++ "." ++ join keys := by
  obtain ⟨next, rest, rfl⟩ := List.exists_cons_of_ne_nil h
  rfl

theorem pieces_ne_nil (text : List Char) : pieces text ≠ [] := by
  cases text with
  | nil => simp [pieces]
  | cons c rest =>
    simp only [pieces]
    split
    · simp
    · split <;> simp

theorem pieces_of_dotless {text : List Char} (h : '.' ∉ text) : pieces text = [text] := by
  induction text with
  | nil => rfl
  | cons c rest ih =>
    rw [List.mem_cons, not_or] at h
    simp only [pieces, ih h.2, if_neg (Ne.symm h.1)]

theorem pieces_append {text : List Char} (h : '.' ∉ text) (rest : List Char) :
    pieces (text ++ '.' :: rest) = text :: pieces rest := by
  induction text with
  | nil =>
    obtain ⟨piece, more, hrest⟩ := List.exists_cons_of_ne_nil (pieces_ne_nil rest)
    simp [pieces, hrest]
  | cons c text ih =>
    rw [List.mem_cons, not_or] at h
    simp only [List.cons_append, pieces, ih h.2, if_neg (Ne.symm h.1)]

/-- **A path of keys without dots is split into these keys.** -/
theorem split_join {keys : List String} (hne : keys ≠ []) (h : Dotless keys) :
    split (join keys) = keys := by
  induction keys with
  | nil => exact absurd rfl hne
  | cons key rest ih =>
    obtain ⟨hkey, hrest⟩ := List.forall_mem_cons.mp h
    by_cases hnil : rest = []
    · rw [hnil, join, split, pieces_of_dotless hkey, List.map_singleton, String.ofList_toList]
    · have hlist : (join (key :: rest)).toList = key.toList ++ '.' :: (join rest).toList := by
        rw [join_cons key hnil, String.toList_append, String.toList_append, List.append_assoc]
        rfl
      rw [split, hlist, pieces_append hkey, List.map_cons, String.ofList_toList, ← split,
        ih hnil hrest]

theorem split_ne_nil (path : String) : split path ≠ [] := by
  rw [split, ne_eq, List.map_eq_nil_iff]
  exact pieces_ne_nil _

theorem dotless_pieces {text piece : List Char} (h : piece ∈ pieces text) : '.' ∉ piece := by
  induction text generalizing piece with
  | nil =>
    rw [pieces, List.mem_singleton] at h
    simp [h]
  | cons c rest ih =>
    obtain ⟨first, more, hrest⟩ := List.exists_cons_of_ne_nil (pieces_ne_nil rest)
    rw [hrest] at ih
    obtain ⟨hfirst, hmore⟩ := List.forall_mem_cons.mp fun p hp => @ih p hp
    simp only [pieces, hrest] at h
    split at h
    case isTrue =>
      rcases List.mem_cons.mp h with rfl | h
      · simp
      · exact ih h
    case isFalse hc =>
      rcases List.mem_cons.mp h with rfl | h
      · simpa using ⟨Ne.symm hc, hfirst⟩
      · exact hmore piece h

theorem dotless_split (path : String) : Dotless (split path) := by
  intro key hkey
  obtain ⟨piece, hpiece, rfl⟩ := List.mem_map.mp hkey
  rw [String.toList_ofList]
  exact dotless_pieces hpiece

/-- **What a path is split into it is joined from.** -/
theorem join_split (path : String) : join (split path) = path := by
  have h (text : List Char) : join ((pieces text).map String.ofList) = String.ofList text := by
    induction text with
    | nil => rfl
    | cons c rest ih =>
      obtain ⟨first, more, hrest⟩ := List.exists_cons_of_ne_nil (pieces_ne_nil rest)
      rw [hrest, List.map_cons] at ih
      have hcons (text : List Char) :
          String.ofList (c :: text) = String.ofList [c] ++ String.ofList text := by
        rw [← String.ofList_append]
        rfl
      simp only [pieces, hrest]
      split
      case isTrue hc =>
        rw [List.map_cons, List.map_cons, join_cons _ (by simp), ih, hcons rest, hc]
        rfl
      case isFalse =>
        rw [List.map_cons, hcons first, hcons rest, ← ih]
        cases more with
        | nil => rfl
        | cons next more =>
          rw [List.map_cons, join, join]
          simp only [String.append_assoc]
  rw [split, h, String.ofList_toList]

theorem join_append {front back : List String} (hfront : front ≠ []) (hback : back ≠ []) :
    join (front ++ back) = join front ++ "." ++ join back := by
  induction front with
  | nil => exact absurd rfl hfront
  | cons key rest ih =>
    by_cases hnil : rest = []
    · rw [hnil, List.singleton_append, join_cons key hback]
      rfl
    · rw [List.cons_append, join_cons key (by simp [hnil]), ih hnil, join_cons key hnil]
      simp only [String.append_assoc]

/-- Splitting and joining undo each other. -/
theorem split_eq_iff {path : String} {keys : List String} (hne : keys ≠ []) (h : Dotless keys) :
    split path = keys ↔ join keys = path := by
  constructor
  · rintro rfl
    exact join_split path
  · rintro rfl
    exact split_join hne h

/-- A path that goes on from another one has the keys of both. -/
theorem join_eq_append_iff {base keys : List String} {path : String} (hbase : base ≠ [])
    (hne : keys ≠ []) (hdotless : Dotless base) (h : Dotless keys) :
    join keys = join base ++ "." ++ path ↔ keys = base ++ split path := by
  have hjoin : join (base ++ split path) = join base ++ "." ++ path := by
    rw [join_append hbase (split_ne_nil path), join_split]
  have hall : Dotless (base ++ split path) := by
    intro key hkey
    rcases List.mem_append.mp hkey with hkey | hkey
    · exact hdotless key hkey
    · exact dotless_split path key hkey
  rw [← hjoin, ← split_eq_iff hne h, split_join (by simp [hbase]) hall, eq_comm]

/-! ### Blanks -/

/-- All characters are blank. -/
def Blank (text : List Char) : Prop := ∀ c ∈ text, isBlank c = true

theorem exists_trimStart (text : List Char) :
    ∃ front, Blank front ∧ text = front ++ trimStart text :=
  ⟨text.takeWhile isBlank, List.all_eq_true.mp List.all_takeWhile,
    List.takeWhile_append_dropWhile.symm⟩

theorem trimStart_append {front text : List Char} (hfront : Blank front) :
    trimStart (front ++ text) = trimStart text := List.dropWhile_append_of_pos hfront

theorem trimStart_of_head {text : List Char} (h : ∀ c ∈ text.head?, isBlank c = false) :
    trimStart text = text := by
  cases text with
  | nil => rfl
  | cons c rest => exact List.dropWhile_cons_of_neg (by simpa using h c rfl)

/-- Only blanks are taken off. -/
theorem exists_trim (text : List Char) :
    ∃ front back, Blank front ∧ Blank back ∧ text = front ++ trim text ++ back := by
  obtain ⟨front, hfront, htext⟩ := exists_trimStart text
  obtain ⟨back, hback, hrest⟩ := exists_trimStart (trimStart text).reverse
  refine ⟨front, back.reverse, hfront, fun c hc => hback c (List.mem_reverse.mp hc), ?_⟩
  have hrest : trimStart text = trim text ++ back.reverse := by
    rw [trim, ← List.reverse_append, ← hrest, List.reverse_reverse]
  rw [List.append_assoc, ← hrest, ← htext]

/-- What neither begins nor ends with a blank is all that is left. -/
theorem trim_append {front text back : List Char} (hfront : Blank front) (hback : Blank back)
    (hne : text ≠ []) (hhead : ∀ c ∈ text.head?, isBlank c = false)
    (hlast : ∀ c ∈ text.getLast?, isBlank c = false) : trim (front ++ text ++ back) = text := by
  have hstart : trimStart (front ++ text ++ back) = text ++ back := by
    rw [List.append_assoc, trimStart_append hfront]
    apply trimStart_of_head
    obtain ⟨c, rest, rfl⟩ := List.exists_cons_of_ne_nil hne
    exact hhead
  have hend : trimStart (text ++ back).reverse = text.reverse := by
    rw [List.reverse_append, trimStart_append fun c hc => hback c (List.mem_reverse.mp hc)]
    apply trimStart_of_head
    rwa [List.head?_reverse]
  rw [trim, hstart, hend, List.reverse_reverse]

end Text

/-! ### Delays -/

/-- The number that decimal digits stand for, the one in front weighing most. -/
def decimal (digits : List Char) : Nat :=
  Nat.ofDigits 10 (digits.reverse.map fun c => c.toNat - '0'.toNat)

/-- The text stands for a number of 64 bits: decimal digits, with a plus sign and blanks around them
if one likes. -/
def Denotes (text : String) (n : Nat) : Prop :=
  ∃ front sign digits back : List Char, text.toList = front ++ (sign ++ digits) ++ back ∧
    Text.Blank front ∧ Text.Blank back ∧ (sign = [] ∨ sign = ['+']) ∧ digits ≠ [] ∧
    (∀ c ∈ digits, c.isDigit = true) ∧ n = decimal digits ∧ n < 18446744073709551616

theorem decimal_eq_ofDigitChars (digits : List Char) :
    decimal digits = Nat.ofDigitChars 10 digits 0 := by
  rw [decimal, Nat.ofDigits_eq_foldr, List.foldr_map, Nat.ofDigitChars_eq_foldl,
    List.foldl_eq_foldr_reverse]
  simp only [Nat.add_comm, Nat.cast_id]

/-- The text of a number stands for it. -/
theorem decimal_toString (n : Nat) : decimal (toString n).toList = n := by
  rw [decimal_eq_ofDigitChars, Nat.toString_eq_repr, Nat.toList_repr, Nat.ofDigitChars_ten_toDigits]

theorem toString_inj {m n : Nat} : toString m = toString n ↔ m = n :=
  ⟨fun h => by rw [← decimal_toString m, h, decimal_toString], fun h => h ▸ rfl⟩

theorem readDigits?_eq_some {digits : List Char} {n : Nat} :
    readDigits? digits = some n ↔
      digits ≠ [] ∧ (∀ c ∈ digits, c.isDigit = true) ∧ n = decimal digits := by
  have hvalue : digits.foldl (fun n c => 10 * n + (c.toNat - '0'.toNat)) 0 = decimal digits := by
    rw [decimal_eq_ofDigitChars, Nat.ofDigitChars_eq_foldl]
  have hdigits : digits.all (fun c => '0' ≤ c && c ≤ '9') = true ↔
      ∀ c ∈ digits, c.isDigit = true := by
    rw [List.all_eq_true]
    rfl
  rw [readDigits?, hvalue, @eq_comm _ n]
  simp only [hdigits, Option.ite_none_right_eq_some, Option.some.injEq, and_assoc]

theorem isBlank_of_isDigit {c : Char} (h : c.isDigit = true) : Text.isBlank c = false := by
  simp only [Char.isDigit, Bool.and_eq_true, decide_eq_true_eq] at h
  obtain ⟨hge, hle⟩ := h
  have hge : 48 ≤ c.toNat := hge
  have hle : c.toNat ≤ 57 := hle
  simp [Text.isBlank, Text.blankRanges]
  omega

/-- **The milliseconds of a delay are what its text stands for.** -/
theorem readMillis?_eq_some {text : String} {n : Nat} :
    readMillis? text = some n ↔ Denotes text n := by
  have hbound (m : Nat) : m ≤ Number.greatestWord ↔ m < 18446744073709551616 := by
    have hword : Number.greatestWord = 18446744073709551615 := rfl
    omega
  constructor
  · intro h
    obtain ⟨front, back, hfront, hback, htext⟩ := Text.exists_trim text.toList
    -- The text without blanks is a sign, or none, and what is read as digits.
    have hread {sign digits : List Char} {m : Nat} (hsign : sign = [] ∨ sign = ['+'])
        (htrim : Text.trim text.toList = sign ++ digits) (hdigits : readDigits? digits = some m)
        (h : (if m ≤ Number.greatestWord then some m else none) = some n) : Denotes text n := by
      obtain ⟨hne, hall, hm⟩ := readDigits?_eq_some.mp hdigits
      simp only [Option.ite_none_right_eq_some, Option.some.injEq] at h
      obtain ⟨hle, rfl⟩ := h
      exact ⟨front, sign, digits, back, htrim ▸ htext, hfront, hback, hsign, hne, hall, hm,
        (hbound m).mp hle⟩
    simp only [readMillis?] at h
    split at h
    case h_2 => cases h
    case h_1 m hdigits =>
      split at hdigits
      case h_1 rest htrim => exact hread (.inr rfl) htrim hdigits h
      case h_2 => exact hread (.inl rfl) (List.nil_append _).symm hdigits h
  · rintro ⟨front, sign, digits, back, htext, hfront, hback, hsign, hne, hall, rfl, hlt⟩
    obtain ⟨first, others, rfl⟩ := List.exists_cons_of_ne_nil hne
    have hfirst : first.isDigit = true := hall first List.mem_cons_self
    have htrim : Text.trim text.toList = sign ++ first :: others := by
      rw [htext]
      refine Text.trim_append hfront hback (by simp) ?_ ?_
      · rcases hsign with rfl | rfl
        · simpa using isBlank_of_isDigit hfirst
        · simp [Text.isBlank, Text.blankRanges]
      · intro c hc
        have hc : c ∈ (first :: others).getLast? := by simpa [List.getLast?_append] using hc
        exact isBlank_of_isDigit (hall c (List.mem_of_getLast? hc))
    have hdigits : readDigits? (first :: others) = some (decimal (first :: others)) :=
      readDigits?_eq_some.mpr ⟨hne, hall, rfl⟩
    rcases hsign with rfl | rfl
    · have hplain : first ≠ '+' := by
        rintro rfl
        simp at hfirst
      simp [readMillis?, htrim, hplain, hdigits, (hbound _).mpr hlt]
    · simp [readMillis?, htrim, hdigits, (hbound _).mpr hlt]

theorem readMillis?_toString (n : Nat) :
    readMillis? (toString n) = if n ≤ Number.greatestWord then some n else none := by
  have htext : (toString n).toList = Nat.toDigits 10 n := by
    rw [Nat.toString_eq_repr, Nat.toList_repr]
  have hall : ∀ c ∈ (toString n).toList, c.isDigit = true := fun c hc =>
    Nat.isDigit_of_mem_toDigits (by decide) (by decide) (htext ▸ hc)
  obtain ⟨first, others, hcons⟩ : ∃ first others, (toString n).toList = first :: others :=
    List.exists_cons_of_ne_nil (htext ▸ Nat.toDigits_ne_nil)
  have hblank : ∀ c ∈ (toString n).toList, Text.isBlank c = false := fun c hc =>
    isBlank_of_isDigit (hall c hc)
  have htrim : Text.trim (toString n).toList = (toString n).toList := by
    have hnone : Text.Blank [] := fun c hc => by cases hc
    have h := Text.trim_append hnone hnone (hcons ▸ List.cons_ne_nil first others)
      (fun c hc => hblank c (List.mem_of_mem_head? hc))
      (fun c hc => hblank c (List.mem_of_getLast? hc))
    rwa [List.nil_append, List.append_nil] at h
  have hplain : first ≠ '+' := by
    rintro rfl
    exact absurd (hall '+' (hcons ▸ List.mem_cons_self)) (by decide)
  have hdigits : readDigits? (first :: others) = some n :=
    readDigits?_eq_some.mpr ⟨by simp, hcons ▸ hall, by rw [← hcons, decimal_toString]⟩
  rw [readMillis?, htrim, hcons]
  simp [hplain, hdigits]

end Statechart
