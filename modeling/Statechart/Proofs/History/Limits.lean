import Mathlib.Data.List.DropRight
import Statechart.History

/-!
# Histories and their limits

A history that is within its limit holds the end of what there was to record, as much of it as the
limit allows (`History.recordAll_of_le`). A new history is within its limit, and recording keeps it
there.

A history that is read from a text need not be within its limit. One that is not makes no room any
more: it grows with every record, or keeps what it has if the limit is zero
(`History.recordAll_of_lt`). So the limit is kept to exactly by the histories that are within it
(`History.recordAll_spec`).
-/

namespace Statechart.History

variable {h : History}

/-- Add records one after another. -/
def recordAll (h : History) (rs : List Record) : History := rs.foldl record h

@[simp] theorem recordAll_nil (h : History) : h.recordAll [] = h := rfl

@[simp] theorem recordAll_cons (h : History) (r : Record) (rs : List Record) :
    h.recordAll (r :: rs) = (h.record r).recordAll rs := rfl

theorem limit_record (h : History) (r : Record) : (h.record r).limit = h.limit := by
  unfold record
  split <;> [rfl; split <;> rfl]

theorem limit_recordAll (h : History) (rs : List Record) : (h.recordAll rs).limit = h.limit := by
  induction rs generalizing h with
  | nil => rfl
  | cons r rs ih => rw [recordAll_cons, ih, limit_record]

/-! ### Within the limit -/

/-- **A history holds the last records**, as many as its limit allows. -/
theorem record_rtake (limit : Nat) (all : List Record) (r : Record) :
    History.record ⟨limit, all.rtake limit⟩ r = ⟨limit, (all ++ [r]).rtake limit⟩ := by
  cases limit with
  | zero => simp [record]
  | succ n =>
    rw [List.rtake_concat_succ, record, if_neg (Nat.succ_ne_zero n)]
    split
    case isTrue hfull =>
      have hlength : n + 1 ≤ all.length := by
        simp only [List.rtake, List.length_drop] at hfull
        omega
      have hindex : all.length - (n + 1) + 1 = all.length - n := by omega
      rw [List.rtake, List.drop_drop, hindex, List.rtake]
    case isFalse hroom =>
      have hlength : all.length ≤ n := by
        simp only [List.rtake, List.length_drop] at hroom
        omega
      have hall : all.length - (n + 1) = 0 ∧ all.length - n = 0 := by omega
      rw [List.rtake, List.rtake, hall.1, hall.2]

theorem recordAll_rtake (limit : Nat) (all rs : List Record) :
    recordAll ⟨limit, all.rtake limit⟩ rs = ⟨limit, (all ++ rs).rtake limit⟩ := by
  induction rs generalizing all with
  | nil => rw [recordAll_nil, List.append_nil]
  | cons r rs ih => rw [recordAll_cons, record_rtake, ih, List.append_assoc, List.singleton_append]

theorem rtake_records (hle : h.size ≤ h.limit) : h.records.rtake h.limit = h.records := by
  have hnone : h.records.length - h.limit = 0 := Nat.sub_eq_zero_of_le hle
  rw [List.rtake, hnone, List.drop_zero]

theorem recordAll_of_le (hle : h.size ≤ h.limit) (rs : List Record) :
    h.recordAll rs = ⟨h.limit, (h.records ++ rs).rtake h.limit⟩ := by
  rw [← recordAll_rtake, rtake_records hle]

/-! ### Beyond the limit -/

theorem record_of_lt (hlt : h.limit < h.size) (hlimit : h.limit ≠ 0) (r : Record) :
    h.record r = ⟨h.limit, h.records ++ [r]⟩ := by
  have hne : h.records.length ≠ h.limit := Nat.ne_of_gt hlt
  rw [record, if_neg hlimit, if_neg hne]

theorem recordAll_of_limit_zero (hlimit : h.limit = 0) (rs : List Record) : h.recordAll rs = h := by
  induction rs with
  | nil => rfl
  | cons r rs ih => rw [recordAll_cons, record, if_pos hlimit, ih]

/-- Once there are more records than the limit allows, there are more and more. -/
theorem recordAll_of_lt (hlt : h.limit < h.size) (hlimit : h.limit ≠ 0) (rs : List Record) :
    h.recordAll rs = ⟨h.limit, h.records ++ rs⟩ := by
  induction rs generalizing h with
  | nil => rw [recordAll_nil, List.append_nil]
  | cons r rs ih =>
    have hlt' : h.limit < size ⟨h.limit, h.records ++ [r]⟩ := by
      rw [size, List.length_append]
      exact Nat.lt_add_right 1 hlt
    have hrest := ih (h := ⟨h.limit, h.records ++ [r]⟩) hlt' hlimit
    rw [recordAll_cons, record_of_lt hlt hlimit, hrest, List.append_assoc, List.singleton_append]

/-! ### All histories -/

/-- After a record and any number of further ones the history holds the last of all records, as many
as its limit allows. -/
def KeepsLimit (h : History) : Prop :=
  ∀ rs, rs ≠ [] → (h.recordAll rs).records = (h.records ++ rs).rtake h.limit ∧
    (h.recordAll rs).size ≤ (h.recordAll rs).limit

theorem length_rtake_le {α : Type} (l : List α) (n : Nat) : (l.rtake n).length ≤ n := by
  rw [List.rtake, List.length_drop]
  omega

theorem keepsLimit_of_le (hle : h.size ≤ h.limit) : h.KeepsLimit := by
  intro rs _
  rw [recordAll_of_le hle]
  exact ⟨rfl, length_rtake_le _ _⟩

/-- A history that is beyond its limit stays there. -/
theorem not_keepsLimit_of_lt (hlt : h.limit < h.size) (r : Record) : ¬h.KeepsLimit := by
  intro hkeeps
  have hle := (hkeeps [r] (List.cons_ne_nil r [])).2
  rw [limit_recordAll] at hle
  refine Nat.not_lt.mpr hle ?_
  by_cases hlimit : h.limit = 0
  · rwa [recordAll_of_limit_zero hlimit]
  · rw [recordAll_of_lt hlt hlimit]
    exact Nat.lt_of_lt_of_le hlt (by simp [size])

/-- **What a history holds after further records**: within its limit, the last of all records, as
many as the limit allows; beyond it all of them, or with the limit zero those it had. So a history
keeps to its limit if it is within it, as a new one is, and only then. -/
theorem recordAll_spec (h : History) :
    (∀ rs, (h.recordAll rs).limit = h.limit ∧ (h.recordAll rs).records =
      if h.size ≤ h.limit then (h.records ++ rs).rtake h.limit
      else if h.limit = 0 then h.records else h.records ++ rs) ∧
    (h.KeepsLimit ↔ h.size ≤ h.limit) ∧
    (∀ limit, h = withLimit limit → h.KeepsLimit) := by
  refine ⟨fun rs => ⟨limit_recordAll h rs, ?_⟩, ⟨fun hkeeps => ?_, keepsLimit_of_le⟩, ?_⟩
  · split
    case isTrue hle => rw [recordAll_of_le hle]
    case isFalse hgt =>
      split
      case isTrue hlimit => rw [recordAll_of_limit_zero hlimit]
      case isFalse hlimit => rw [recordAll_of_lt (Nat.lt_of_not_le hgt) hlimit]
  · by_contra hgt
    exact not_keepsLimit_of_lt (Nat.lt_of_not_le hgt) ⟨"", [], [], .epoch⟩ hkeeps
  · rintro limit rfl
    exact keepsLimit_of_le (Nat.zero_le limit)

/-! ### A crowded history -/

/-- A record of an event in a machine that has no states below the root. -/
def atRoot (event : String) : Record := ⟨event, [], [], .epoch⟩

/-- There are two records where one is allowed. -/
def crowded : History := ⟨1, [atRoot "a", atRoot "b"]⟩

/-- **A history that is read with too many records does not keep to its limit**: after one more
record it holds three. -/
theorem crowded_grows :
    ofText? crowded.toText = some crowded ∧
    (crowded.recordAll [atRoot "c"]).records = [atRoot "a", atRoot "b", atRoot "c"] ∧
    (crowded.recordAll [atRoot "c"]).limit = 1 ∧ ¬crowded.KeepsLimit := by
  refine ⟨by decide +kernel, rfl, rfl, fun hkeeps => ?_⟩
  have hle := (hkeeps [atRoot "c"] (by decide)).2
  exact absurd hle (by decide)

end Statechart.History
