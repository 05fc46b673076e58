import Statechart.Json.Fields
import Statechart.Proofs.Json.Numerals

/-!
# Payloads

A payload is a value that a program can hold (`Json.IsValue`). It is legible, so that it is read
back from its text, and it is in the order in which payloads are kept (`Json.IsValue.payload?_eq`).
-/

namespace Statechart

/-- A number that a program can hold: a whole number of 64 bits, or a double whose text is taken for
this very double. Reading rounds more than once, so there are doubles that are taken for the
next. -/
def Number.Readable : Number → Prop
  | .whole n => leastSigned ≤ n ∧ n ≤ greatestWord
  | .double x => Json.scanToken x.text = some (.number (some (.double x)), [])

instance : DecidablePred Number.Readable
  | .whole _ => inferInstanceAs (Decidable (_ ∧ _))
  | .double _ => inferInstanceAs (Decidable (_ = _))

-- The double that is written as `1.6619862655700715`.
example : ¬(Number.double ⟨false, 7484920726316256, -52⟩).Readable := by decide +kernel

namespace Json

mutual

/-- Nothing in the value is improper, its numbers are readable, and the members of every object are
in ascending order. -/
def IsValue : Json → Prop
  | improper => False
  | number n => n.Readable
  | array items => ItemsAreValues items
  | object members => Keyed.Ascending Prod.fst members ∧ MembersAreValues members
  | _ => True

def ItemsAreValues : List Json → Prop
  | [] => True
  | v :: rest => v.IsValue ∧ ItemsAreValues rest

def MembersAreValues : List (String × Json) → Prop
  | [] => True
  | (_, v) :: rest => v.IsValue ∧ MembersAreValues rest

end

theorem legible_of_readable : ∀ {n : Number}, n.Readable → (Token.number (some n)).Legible
  | .whole _, h => legible_number (scanToken_wholeText h)
  | .double _, h => legible_number h

mutual

theorem IsValue.legible : ∀ {v : Json}, v.IsValue → v.Legible
  | null, _ | bool _, _ | string _, _ => trivial
  | number _, h => legible_of_readable h
  | array _, h => legibleItems_of_values h
  | object _, h => legibleMembers_of_values h.2

theorem legibleItems_of_values : ∀ {items : List Json}, ItemsAreValues items → LegibleItems items
  | [], _ => trivial
  | _ :: _, h => ⟨h.1.legible, legibleItems_of_values h.2⟩

theorem legibleMembers_of_values : ∀ {members : List (String × Json)}, MembersAreValues members →
    LegibleMembers members
  | [], _ => trivial
  | _ :: _, h => ⟨h.1.legible, legibleMembers_of_values h.2⟩

end

mutual

/-- What is in order stays as it is. -/
theorem IsValue.arrange_eq : ∀ {v : Json}, v.IsValue → v.arrange = v
  | null, _ | bool _, _ | string _, _ | number _, _ => rfl
  | array _, h => congrArg array (arrangeItems_eq h)
  | object members, h => by
    rw [arrange, arrangeMembers_eq h.2, Keyed.ofList_of_ascending h.1]

theorem arrangeItems_eq : ∀ {items : List Json}, ItemsAreValues items → arrangeItems items = items
  | [], _ => rfl
  | _ :: _, h => congrArg₂ List.cons h.1.arrange_eq (arrangeItems_eq h.2)

theorem arrangeMembers_eq : ∀ {members : List (String × Json)}, MembersAreValues members →
    arrangeMembers members = members
  | [], _ => rfl
  | (_, _) :: _, h => by rw [arrangeMembers, h.1.arrange_eq, arrangeMembers_eq h.2]

end

theorem IsValue.payload?_eq {v : Json} (h : v.IsValue) : payload? v = some v := by
  rw [payload?, if_pos h.legible.isProper, h.arrange_eq]

mutual

theorem same_refl : ∀ v : Json, v.same v = true
  | improper | null => rfl
  | bool b => beq_self_eq_true b
  | string s => beq_self_eq_true s
  | number (.whole n) => beq_self_eq_true n
  | number (.double x) => by simp [same, Number.same, Number.Double.same]
  | array items => sameItems_refl items
  | object members => sameMembers_refl members

theorem sameItems_refl : ∀ items : List Json, sameItems items items = true
  | [] => rfl
  | v :: rest => Bool.and_eq_true_iff.mpr ⟨v.same_refl, sameItems_refl rest⟩

theorem sameMembers_refl : ∀ members : List (String × Json), sameMembers members members = true
  | [] => rfl
  | (key, v) :: rest => by
    rw [sameMembers, beq_self_eq_true, v.same_refl, sameMembers_refl rest]
    rfl

end

end Json

end Statechart
