/-!
# Lists in ascending order of a key

The maps of a definition (states, events, delays, the members of a payload) are lists whose keys
increase strictly. Keys are texts, compared code point by code point.

The facts here: inserting keeps the order (`Ascending.insert`), so a list built by insertions has
it (`ascending_ofList`), nothing is made up on the way (`mem_of_mem_insert`,
`mem_of_mem_ofList`), what was put in is found under its key (`find?_insert`), and a list in this
order stays as it is (`ofList_of_ascending`).
-/

namespace Statechart.Keyed

variable {α : Type} (key : α → String)

/-- The keys increase strictly, so no key occurs twice. -/
def Ascending (l : List α) : Prop := l.Pairwise fun a b => key a < key b

/-- Put `a` at its place, in place of an item with the same key. -/
def insert (a : α) : List α → List α
  | [] => [a]
  | b :: rest =>
    if key a < key b then a :: b :: rest
    else if key b < key a then b :: insert a rest
    else a :: rest

/-- The items in ascending order; of two with one key the later one stays. -/
def ofList (l : List α) : List α := l.foldl (fun sorted a => insert key a sorted) []

/-- The item with the key `k`. -/
def find? (k : String) (l : List α) : Option α := l.find? fun a => key a == k

variable {key}

theorem mem_of_mem_insert {a b : α} {l : List α} (h : b ∈ insert key a l) : b = a ∨ b ∈ l := by
  induction l with
  | nil => simpa [insert] using h
  | cons c rest ih =>
    simp only [insert] at h
    split at h
    · simpa using h
    · split at h
      · rcases List.mem_cons.mp h with rfl | h
        · simp
        · rcases ih h with h | h <;> simp [h]
      · rcases List.mem_cons.mp h with rfl | h <;> simp_all

/-- Inserting keeps the order. -/
theorem Ascending.insert {a : α} {l : List α} (h : Ascending key l) :
    Ascending key (Keyed.insert key a l) := by
  induction l with
  | nil => simp [Keyed.insert, Ascending]
  | cons b rest ih =>
    obtain ⟨hb, hrest⟩ := List.pairwise_cons.mp h
    simp only [Keyed.insert]
    split
    · rename_i hab
      refine List.pairwise_cons.mpr ⟨fun c hc => ?_, h⟩
      rcases List.mem_cons.mp hc with rfl | hc
      · exact hab
      · exact String.lt_trans hab (hb c hc)
    · split
      · rename_i _ hba
        refine List.pairwise_cons.mpr ⟨fun c hc => ?_, ih hrest⟩
        rcases mem_of_mem_insert hc with rfl | hc
        · exact hba
        · exact hb c hc
      · rename_i hab hba
        have same : key a = key b := String.le_antisymm hba hab
        exact List.pairwise_cons.mpr ⟨fun c hc => same ▸ hb c hc, hrest⟩

private theorem foldl_insert_ascending (l : List α) :
    ∀ sorted, Ascending key sorted →
      Ascending key (l.foldl (fun sorted a => Keyed.insert key a sorted) sorted) := by
  induction l with
  | nil => exact fun _ h => h
  | cons a rest ih => exact fun _ h => ih _ h.insert

/-- What is built by insertions is in ascending order. -/
theorem ascending_ofList (l : List α) : Ascending key (ofList key l) :=
  foldl_insert_ascending l [] List.Pairwise.nil

private theorem mem_foldl_insert {b : α} (l : List α) :
    ∀ sorted, b ∈ l.foldl (fun sorted a => Keyed.insert key a sorted) sorted →
      b ∈ l ∨ b ∈ sorted := by
  induction l with
  | nil => exact fun _ h => .inr h
  | cons a rest ih =>
    intro sorted h
    rcases ih _ h with h | h
    · exact .inl (List.mem_cons_of_mem _ h)
    · rcases mem_of_mem_insert h with rfl | h
      · exact .inl List.mem_cons_self
      · exact .inr h

theorem mem_of_mem_ofList {b : α} {l : List α} (h : b ∈ ofList key l) : b ∈ l := by
  simpa using mem_foldl_insert l [] h

/-- What was put in is found under its key, and all else as before. -/
theorem find?_insert (a : α) (k : String) (l : List α) :
    find? key k (insert key a l) = if key a = k then some a else find? key k l := by
  induction l with
  | nil => by_cases ha : key a = k <;> simp [insert, find?, ha]
  | cons b rest ih =>
    simp only [insert]
    split
    · by_cases ha : key a = k <;> simp [find?, ha]
    · split
      · rename_i _ hba
        by_cases hb : key b = k
        · have ha : key a ≠ k := fun ha => by
            rw [ha, hb] at hba
            exact String.lt_irrefl k hba
          simp [find?, hb, ha]
        · simpa [find?, List.find?_cons, hb] using ih
      · rename_i hab hba
        have hsame : key a = key b := String.le_antisymm hba hab
        by_cases ha : key a = k
        · simp [find?, ha]
        · simp [find?, ha, hsame ▸ ha]

theorem insert_of_forall_lt {a : α} {l : List α} (h : ∀ b ∈ l, key b < key a) :
    insert key a l = l ++ [a] := by
  induction l with
  | nil => rfl
  | cons b rest ih =>
    obtain ⟨hb, hrest⟩ := List.forall_mem_cons.mp h
    rw [insert, if_neg (String.lt_asymm hb), if_pos hb, ih hrest, List.cons_append]

private theorem foldl_insert_append (l : List α) :
    ∀ sorted, Ascending key (sorted ++ l) →
      l.foldl (fun sorted a => Keyed.insert key a sorted) sorted = sorted ++ l := by
  induction l with
  | nil => exact fun sorted _ => (List.append_nil sorted).symm
  | cons a rest ih =>
    intro sorted h
    have hlast := (List.pairwise_append.mp h).2.2
    rw [List.foldl_cons, insert_of_forall_lt fun b hb => hlast b hb a List.mem_cons_self]
    simpa using ih (sorted ++ [a]) (by simpa using h)

/-- What is in ascending order stays as it is. -/
theorem ofList_of_ascending {l : List α} (h : Ascending key l) : ofList key l = l :=
  foldl_insert_append l [] h

end Statechart.Keyed
