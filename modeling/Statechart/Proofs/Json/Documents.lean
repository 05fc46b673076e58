import Statechart.Json.Reader
import Statechart.Proofs.Json.Scanning

/-!
# Documents and their values

The reader puts the tokens of a value together again, in whatever containers it stands
(`Json.Progress.feedAll_tokens`), as long as no more than `Json.nestingLimit` containers are nested
(`Json.nesting`). So the text of a legible value is read as the value
(`Json.Legible.ofText?_pretty`, `Json.Legible.ofText?_compact`).
-/

namespace Statechart.Json

mutual

/-- How many arrays and objects are nested in a value, itself included. -/
def nesting : Json → Nat
  | array items => itemsNesting items + 1
  | object members => membersNesting members + 1
  | _ => 0

def itemsNesting : List Json → Nat
  | [] => 0
  | v :: rest => max v.nesting (itemsNesting rest)

def membersNesting : List (String × Json) → Nat
  | [] => 0
  | (_, v) :: rest => max v.nesting (membersNesting rest)

end

theorem ofMembers_map (members : List (String × Json)) :
    ofMembers (members.map fun m => (some m.1, m.2)) = .object members := by
  simp [ofMembers, List.filterMap_map, Function.comp_def]

theorem within_of_lt {frames : List Frame} (h : frames.length < nestingLimit) (v : Json) :
    within frames v = v := if_pos h

namespace Progress

/-- The first item of an array is read as a value anywhere is. -/
theorem feedAll_first (frames : List Frame) (v : Json) (more : List Token) :
    feedAll ⟨frames, .itemOrClose, none⟩ (v.tokens ++ more) =
      feedAll ⟨frames, .value, none⟩ (v.tokens ++ more) := by
  cases v <;> rfl

mutual

/-- **The tokens of a value complete the value.** -/
theorem feedAll_tokens : ∀ {v : Json} (frames : List Frame) (more : List Token),
    v.isProper = true → frames.length + v.nesting ≤ nestingLimit →
    feedAll ⟨frames, .value, none⟩ (v.tokens ++ more) =
      (complete frames v).bind fun p => p.feedAll more
  | null, _, _, _, _ | bool _, _, _, _, _ | number _, _, _, _, _ | string _, _, _, _, _ => rfl
  | array [], frames, more, _, hnesting => by
    have hlt : frames.length < nestingLimit := by
      simp only [nesting, itemsNesting] at hnesting
      omega
    show (complete frames (within frames (.array []))).bind (fun p => p.feedAll more) = _
    rw [within_of_lt hlt]
  | object [], frames, more, _, hnesting => by
    have hlt : frames.length < nestingLimit := by
      simp only [nesting, membersNesting] at hnesting
      omega
    show (complete frames (within frames (.object []))).bind (fun p => p.feedAll more) = _
    rw [within_of_lt hlt]
  | array (v :: rest), frames, more, hproper, hnesting => by
    obtain ⟨hv, hrest⟩ := Bool.and_eq_true_iff.mp hproper
    simp only [nesting, itemsNesting] at hnesting
    have hfirst := feedAll_tokens (.items [] :: frames)
      (itemTokens false rest ++ .closeArray :: more) hv (by simp only [List.length_cons]; omega)
    have hitems := feedAll_itemTokens frames [v] more hrest (by omega)
    rw [← feedAll_first] at hfirst
    simpa [tokens, itemTokens, feedAll, feed, startValue] using hfirst.trans hitems
  | object ((key, v) :: rest), frames, more, hproper, hnesting => by
    obtain ⟨hv, hrest⟩ := Bool.and_eq_true_iff.mp hproper
    simp only [nesting, membersNesting] at hnesting
    have hfirst := feedAll_tokens (.member [] (some key) :: frames)
      (memberTokens false rest ++ .closeObject :: more) hv (by simp only [List.length_cons]; omega)
    have hmembers := feedAll_memberTokens frames [(key, v)] more hrest (by omega)
    simpa [tokens, memberTokens, feedAll, feed, startValue, startMember] using hfirst.trans hmembers

/-- The items that are left complete the array. -/
theorem feedAll_itemTokens : ∀ {items : List Json} (frames : List Frame) (done : List Json)
    (more : List Token), itemsProper items = true →
    frames.length + itemsNesting items < nestingLimit →
    feedAll ⟨.items done.reverse :: frames, .commaOrClose, none⟩
        (itemTokens false items ++ .closeArray :: more) =
      (complete frames (.array (done ++ items))).bind fun p => p.feedAll more
  | [], frames, done, more, _, hnesting => by
    show (complete frames (within frames (.array done.reverse.reverse))).bind _ = _
    rw [within_of_lt hnesting, List.reverse_reverse, List.append_nil]
  | v :: rest, frames, done, more, hproper, hnesting => by
    obtain ⟨hv, hrest⟩ := Bool.and_eq_true_iff.mp hproper
    simp only [itemsNesting] at hnesting
    have hfirst := feedAll_tokens (.items done.reverse :: frames)
      (itemTokens false rest ++ .closeArray :: more) hv (by simp only [List.length_cons]; omega)
    have hitems := feedAll_itemTokens frames (done ++ [v]) more hrest (by omega)
    rw [List.reverse_concat] at hitems
    simpa [itemTokens, feedAll, feed, continueFrame] using hfirst.trans hitems

/-- The members that are left complete the object. -/
theorem feedAll_memberTokens : ∀ {members : List (String × Json)} (frames : List Frame)
    (done : List (String × Json)) (more : List Token), membersProper members = true →
    frames.length + membersNesting members < nestingLimit →
    feedAll ⟨.members (done.map fun m => (some m.1, m.2)).reverse :: frames, .commaOrClose, none⟩
        (memberTokens false members ++ .closeObject :: more) =
      (complete frames (.object (done ++ members))).bind fun p => p.feedAll more
  | [], frames, done, more, _, hnesting => by
    show (complete frames (within frames (ofMembers (List.reverse (List.reverse _))))).bind _ = _
    rw [within_of_lt hnesting, List.reverse_reverse, ofMembers_map, List.append_nil]
  | (key, v) :: rest, frames, done, more, hproper, hnesting => by
    obtain ⟨hv, hrest⟩ := Bool.and_eq_true_iff.mp hproper
    simp only [membersNesting] at hnesting
    have hfirst := feedAll_tokens
      (.member (done.map fun m => (some m.1, m.2)).reverse (some key) :: frames)
      (memberTokens false rest ++ .closeObject :: more) hv (by simp only [List.length_cons]; omega)
    have hmembers := feedAll_memberTokens frames (done ++ [(key, v)]) more hrest (by omega)
    rw [List.map_append, List.map_singleton, List.reverse_concat] at hmembers
    simpa [memberTokens, feedAll, feed, continueFrame, startMember] using hfirst.trans hmembers

end

end Progress

/-- The tokens of a value spell the value. -/
theorem ofTokens?_tokens {v : Json} (hv : v.isProper = true) (h : v.nesting ≤ nestingLimit) :
    ofTokens? v.tokens = some v := by
  have hfeed := Progress.feedAll_tokens [] [] hv (by simpa using h)
  rw [List.append_nil] at hfeed
  rw [ofTokens?, Progress.start, hfeed]
  rfl

/-- **A legible value is read back from its text.** -/
theorem Legible.ofText?_pretty {v : Json} (hv : v.Legible) (h : v.nesting ≤ nestingLimit) :
    ofText? v.pretty = some v := by
  rw [ofText?, hv.spells_pretty.scan_eq]
  exact ofTokens?_tokens hv.isProper h

theorem Legible.ofText?_compact {v : Json} (hv : v.Legible) (h : v.nesting ≤ nestingLimit) :
    ofText? v.compact = some v := by
  rw [ofText?, hv.spells_compact.scan_eq]
  exact ofTokens?_tokens hv.isProper h

end Statechart.Json
