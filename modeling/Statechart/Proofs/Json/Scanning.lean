import Statechart.Json.Writer

/-!
# Texts and their tokens

A text spells tokens if it consists of them, with spaces between them (`Json.Spells`), and then
`Json.scan` finds just these. A number is the one token that what follows could go on with, so its
text has to be read back wherever it ends (`Json.Token.Legible`). The text of a value spells the
tokens of the value, over lines (`Json.Legible.spells_pretty`) and without blanks
(`Json.Legible.spells_compact`).
-/

namespace Statechart.Json

/-- No number goes on with what follows. -/
def Ends (text : List Char) : Prop :=
  ∀ c ∈ text.head?, isDigit c = false ∧ c ≠ '.' ∧ c ≠ 'e' ∧ c ≠ 'E'

/-- The text of the token is taken for the token, wherever it ends. -/
def Token.Legible (t : Token) : Prop :=
  ∀ rest, Ends rest → scanToken (t.text ++ rest) = some (t, rest)

/-- The text is taken for the tokens. -/
def Spells (text : List Char) (tokens : List Token) : Prop :=
  ∀ fuel, text.length ≤ fuel → scanFrom fuel text = some tokens

mutual

/-- Nothing in the value is improper, and its numbers are legible. -/
def Legible : Json → Prop
  | improper => False
  | number n => (Token.number (some n)).Legible
  | array items => LegibleItems items
  | object members => LegibleMembers members
  | _ => True

def LegibleItems : List Json → Prop
  | [] => True
  | v :: rest => v.Legible ∧ LegibleItems rest

def LegibleMembers : List (String × Json) → Prop
  | [] => True
  | (_, v) :: rest => v.Legible ∧ LegibleMembers rest

end

theorem legibleItems_iff {items : List Json} : LegibleItems items ↔ ∀ v ∈ items, v.Legible := by
  induction items with
  | nil => simp [LegibleItems]
  | cons v rest ih => simp [LegibleItems, ih]

theorem legibleMembers_iff {members : List (String × Json)} :
    LegibleMembers members ↔ ∀ m ∈ members, m.2.Legible := by
  induction members with
  | nil => simp [LegibleMembers]
  | cons m rest ih => simp [LegibleMembers, ih]

mutual

theorem Legible.isProper : ∀ {v : Json}, v.Legible → v.isProper = true
  | null, _ | bool _, _ | number _, _ | string _, _ => rfl
  | array _, h => itemsProper_of_legible h
  | object _, h => membersProper_of_legible h

theorem itemsProper_of_legible : ∀ {items : List Json}, LegibleItems items → itemsProper items = true
  | [], _ => rfl
  | _ :: _, h => Bool.and_eq_true_iff.mpr ⟨h.1.isProper, itemsProper_of_legible h.2⟩

theorem membersProper_of_legible : ∀ {members : List (String × Json)}, LegibleMembers members →
    membersProper members = true
  | [], _ => rfl
  | _ :: _, h => Bool.and_eq_true_iff.mpr ⟨h.1.isProper, membersProper_of_legible h.2⟩

end

variable {text : List Char} {tokens : List Token}

/-! ### Strings -/

/-- The code of a control character. -/
theorem codeUnit?_control : ∀ n < 0x20,
    codeUnit? '0' '0' (hexDigit (n / 16)) (hexDigit (n % 16)) = some n := by decide

/-- **An escaped character is read back as itself.** -/
theorem scanString_escapeChar (c : Char) (rest : List Char) :
    scanString (escapeChar c ++ rest) = (scanString rest).map (putChar c) := by
  unfold escapeChar
  -- The characters that have an escape of their own.
  iterate 7
    split
    case isTrue h => subst h; rfl
  split
  case isTrue h =>
    have hunit := codeUnit?_control c.toNat h
    have hleading : isLeading c.toNat = false := by simp [isLeading]; omega
    have htrailing : isTrailing c.toNat = false := by simp [isTrailing]; omega
    simp [scanString, hunit, hleading, htrailing, Char.ofNat_toNat]
  case isFalse _ hslash _ _ _ _ _ hcontrol =>
    simp [scanString, hslash, hcontrol]

theorem scanString_flatMap (s rest : List Char) :
    scanString (s.flatMap escapeChar ++ '"' :: rest) = some (some s, rest) := by
  induction s with
  | nil => rfl
  | cons c s ih =>
    rw [List.flatMap_cons, List.append_assoc, scanString_escapeChar, ih]
    rfl

theorem scanToken_stringText (s : String) (rest : List Char) :
    scanToken (stringText s ++ rest) = some (.string (some s), rest) := by
  have hscan : scanToken ('"' :: (s.toList.flatMap escapeChar ++ '"' :: rest)) =
      (scanString (s.toList.flatMap escapeChar ++ '"' :: rest)).map fun x =>
        (.string (x.1.map String.ofList), x.2) := rfl
  rw [stringText, List.cons_append, List.cons_append, List.append_assoc, List.singleton_append,
    hscan, scanString_flatMap]
  simp

/-! ### Texts token by token -/

theorem ends_nil : Ends [] := fun _ h => nomatch h

theorem ends_cons {c : Char} (hc : isDigit c = false ∧ c ≠ '.' ∧ c ≠ 'e' ∧ c ≠ 'E') :
    Ends (c :: text) := by
  intro b hb
  obtain rfl : c = b := by simpa using hb
  exact hc

namespace Spells

theorem scan_eq (h : Spells text tokens) : scan text = some tokens := h _ (Nat.le_refl _)

theorem nil : Spells [] [] := fun fuel _ => by cases fuel <;> rfl

theorem space {c : Char} (hc : isSpace c = true) (h : Spells text tokens) :
    Spells (c :: text) tokens := by
  intro fuel hfuel
  obtain ⟨fuel, rfl⟩ : ∃ n, fuel = n + 1 := ⟨fuel - 1, by simp at hfuel; omega⟩
  rw [scanFrom, if_pos hc]
  exact h fuel (by simpa using hfuel)

theorem spaces {spaces : List Char} (hspaces : ∀ c ∈ spaces, isSpace c = true)
    (h : Spells text tokens) : Spells (spaces ++ text) tokens := by
  induction spaces with
  | nil => exact h
  | cons c rest ih =>
    obtain ⟨hc, hrest⟩ := List.forall_mem_cons.mp hspaces
    exact (ih hrest).space hc

theorem lineBreak (depth : Nat) (h : Spells text tokens) :
    Spells (Json.lineBreak depth ++ text) tokens := by
  refine h.spaces fun c hc => ?_
  rcases List.mem_cons.mp hc with rfl | hc
  · rfl
  · obtain rfl := List.eq_of_mem_replicate hc
    rfl

/-- A text starts with the token that is found at its start. -/
theorem of_scanToken {c : Char} {more : List Char} {t : Token} (hc : isSpace c = false)
    (hscan : scanToken (c :: more ++ text) = some (t, text)) (h : Spells text tokens) :
    Spells (c :: more ++ text) (t :: tokens) := by
  intro fuel hfuel
  have hlength : text.length + 1 ≤ fuel := by
    simp only [List.cons_append, List.length_cons, List.length_append] at hfuel
    omega
  obtain ⟨fuel, rfl⟩ : ∃ n, fuel = n + 1 := ⟨fuel - 1, by omega⟩
  rw [List.cons_append] at hscan ⊢
  rw [scanFrom, hc, if_neg Bool.false_ne_true, hscan]
  simp only
  rw [h fuel (by omega)]
  rfl

theorem punctuation {c : Char} {t : Token} (hc : isSpace c = false)
    (hscan : scanToken (c :: text) = some (t, text)) (h : Spells text tokens) :
    Spells (c :: text) (t :: tokens) :=
  show Spells ([c] ++ text) _ from h.of_scanToken hc hscan

theorem stringText (s : String) (h : Spells text tokens) :
    Spells (Json.stringText s ++ text) (.string (some s) :: tokens) :=
  h.of_scanToken rfl (scanToken_stringText s text)

/-- A key comes before the value that follows a colon and a blank. -/
theorem member (key : String) (h : Spells text tokens) :
    Spells (Json.stringText key ++ ':' :: ' ' :: text) (.string (some key) :: .colon :: tokens) :=
  ((h.space rfl).punctuation rfl rfl).stringText key

end Spells

/-- A space starts no token. -/
theorem scanToken_of_isSpace {c : Char} (hc : isSpace c = true) (rest : List Char) :
    scanToken (c :: rest) = none := by
  have hspace : c = ' ' ∨ c = '\t' ∨ c = '\n' ∨ c = '\r' := by
    simpa [isSpace, or_assoc] using hc
  rcases hspace with rfl | rfl | rfl | rfl <;> rfl

theorem Token.Legible.spells {t : Token} (ht : t.Legible) (hends : Ends text)
    (h : Spells text tokens) : Spells (t.text ++ text) (t :: tokens) := by
  have hscan := ht text hends
  cases htext : t.text with
  | nil =>
    -- The empty text has no token.
    have hnone := ht [] ends_nil
    rw [htext] at hnone
    exact nomatch hnone
  | cons c more =>
    rw [htext] at hscan
    refine h.of_scanToken ?_ hscan
    cases hc : isSpace c with
    | false => rfl
    | true => exact nomatch (scanToken_of_isSpace hc _).symm.trans hscan

/-! ### Texts over lines -/

theorem ends_lineBreak (depth : Nat) : Ends (lineBreak depth ++ text) := ends_cons (by decide)

theorem ends_prettyItems {depth : Nat} {items : List Json} (h : Ends text) :
    Ends (prettyItems depth items ++ text) := by
  cases items with
  | nil => exact h
  | cons v rest => exact ends_cons (by decide)

theorem ends_prettyMembers {depth : Nat} {members : List (String × Json)} (h : Ends text) :
    Ends (prettyMembers depth members ++ text) := by
  cases members with
  | nil => exact h
  | cons m rest => exact ends_cons (by decide)

mutual

/-- **The text of a value spells its tokens**, and then those of what follows. -/
theorem Legible.spells_prettyAt : ∀ {v : Json} {text : List Char} {tokens : List Token}
    (depth : Nat), v.Legible → Ends text → Spells text tokens →
    Spells (v.prettyAt depth ++ text) (v.tokens ++ tokens)
  | null, _, _, _, _, _, h => h.of_scanToken rfl rfl
  | bool true, _, _, _, _, _, h => h.of_scanToken rfl rfl
  | bool false, _, _, _, _, _, h => h.of_scanToken rfl rfl
  | number _, _, _, _, hv, hends, h => hv.spells hends h
  | string s, _, _, _, _, _, h => h.stringText s
  | array [], _, _, _, _, _, h => (h.punctuation rfl rfl).punctuation rfl rfl
  | object [], _, _, _, _, _, h => (h.punctuation rfl rfl).punctuation rfl rfl
  | array (v :: rest), text, tokens, depth, hv, hends, h => by
    have hclose : Spells (lineBreak depth ++ ']' :: text) (.closeArray :: tokens) :=
      (h.punctuation rfl rfl).lineBreak depth
    have hitems := spells_prettyItems (depth + 1) hv.2 (ends_lineBreak depth) hclose
    have hfirst := hv.1.spells_prettyAt (depth + 1) (ends_prettyItems (ends_lineBreak depth)) hitems
    simpa [prettyAt, Json.tokens, itemTokens] using
      (hfirst.lineBreak (depth + 1)).punctuation (c := '[') (t := .openArray) rfl rfl
  | object ((key, v) :: rest), text, tokens, depth, hv, hends, h => by
    have hclose : Spells (lineBreak depth ++ '\x7d' :: text) (.closeObject :: tokens) :=
      (h.punctuation rfl rfl).lineBreak depth
    have hmembers := spells_prettyMembers (depth + 1) hv.2 (ends_lineBreak depth) hclose
    have hfirst := hv.1.spells_prettyAt (depth + 1) (ends_prettyMembers (ends_lineBreak depth))
      hmembers
    have hmember := hfirst.member key
    simpa [prettyAt, Json.tokens, memberTokens] using
      (hmember.lineBreak (depth + 1)).punctuation (c := '\x7b') (t := .openObject) rfl rfl

theorem spells_prettyItems : ∀ {items : List Json} {text : List Char} {tokens : List Token}
    (depth : Nat), LegibleItems items → Ends text → Spells text tokens →
    Spells (prettyItems depth items ++ text) (itemTokens false items ++ tokens)
  | [], _, _, _, _, _, h => h
  | v :: rest, text, tokens, depth, hv, hends, h => by
    have hrest := spells_prettyItems depth hv.2 hends h
    have hfirst := hv.1.spells_prettyAt depth (ends_prettyItems hends) hrest
    simpa [prettyItems, itemTokens] using
      (hfirst.lineBreak depth).punctuation (c := ',') (t := .comma) rfl rfl

theorem spells_prettyMembers : ∀ {members : List (String × Json)} {text : List Char}
    {tokens : List Token} (depth : Nat), LegibleMembers members → Ends text → Spells text tokens →
    Spells (prettyMembers depth members ++ text) (memberTokens false members ++ tokens)
  | [], _, _, _, _, _, h => h
  | (key, v) :: rest, text, tokens, depth, hv, hends, h => by
    have hrest := spells_prettyMembers depth hv.2 hends h
    have hfirst := hv.1.spells_prettyAt depth (ends_prettyMembers hends) hrest
    have hmember := hfirst.member key
    simpa [prettyMembers, memberTokens] using
      (hmember.lineBreak depth).punctuation (c := ',') (t := .comma) rfl rfl

end

theorem Legible.spells_pretty {v : Json} (h : v.Legible) : Spells v.pretty.toList v.tokens := by
  have hspells := h.spells_prettyAt 0 ends_nil .nil
  rw [List.append_nil, List.append_nil] at hspells
  rwa [pretty, String.toList_ofList]

/-! ### Texts without blanks -/

theorem ends_itemTokens {items : List Json} (h : Ends text) :
    Ends ((itemTokens false items).flatMap Token.text ++ text) := by
  cases items with
  | nil => exact h
  | cons v rest => exact ends_cons (by decide)

theorem ends_memberTokens {members : List (String × Json)} (h : Ends text) :
    Ends ((memberTokens false members).flatMap Token.text ++ text) := by
  cases members with
  | nil => exact h
  | cons m rest => exact ends_cons (by decide)

mutual

/-- **The texts of the tokens of a value spell them**, and then those of what follows. -/
theorem Legible.spells_tokens : ∀ {v : Json} {text : List Char} {tokens : List Token},
    v.Legible → Ends text → Spells text tokens →
    Spells (v.tokens.flatMap Token.text ++ text) (v.tokens ++ tokens)
  | null, _, _, _, _, h => h.of_scanToken rfl rfl
  | bool true, _, _, _, _, h => h.of_scanToken rfl rfl
  | bool false, _, _, _, _, h => h.of_scanToken rfl rfl
  | number _, _, _, hv, hends, h => by
    simpa [Json.tokens] using hv.spells hends h
  | string s, _, _, _, _, h => by
    simpa [Json.tokens, Token.text] using h.stringText s
  | array [], _, _, _, _, h => (h.punctuation rfl rfl).punctuation rfl rfl
  | object [], _, _, _, _, h => (h.punctuation rfl rfl).punctuation rfl rfl
  | array (v :: rest), text, tokens, hv, _, h => by
    have hclose : Spells (']' :: text) (.closeArray :: tokens) := h.punctuation rfl rfl
    have hends : Ends (']' :: text) := ends_cons (by decide)
    have hitems := spells_itemTokens hv.2 hends hclose
    have hfirst := hv.1.spells_tokens (ends_itemTokens hends) hitems
    simpa [Json.tokens, itemTokens, Token.text] using
      hfirst.punctuation (c := '[') (t := .openArray) rfl rfl
  | object ((key, v) :: rest), text, tokens, hv, _, h => by
    have hclose : Spells ('\x7d' :: text) (.closeObject :: tokens) := h.punctuation rfl rfl
    have hends : Ends ('\x7d' :: text) := ends_cons (by decide)
    have hmembers := spells_memberTokens hv.2 hends hclose
    have hfirst := hv.1.spells_tokens (ends_memberTokens hends) hmembers
    have hmember := (hfirst.punctuation (c := ':') (t := .colon) rfl rfl).stringText key
    simpa [Json.tokens, memberTokens, Token.text] using
      hmember.punctuation (c := '\x7b') (t := .openObject) rfl rfl

theorem spells_itemTokens : ∀ {items : List Json} {text : List Char} {tokens : List Token},
    LegibleItems items → Ends text → Spells text tokens →
    Spells ((itemTokens false items).flatMap Token.text ++ text) (itemTokens false items ++ tokens)
  | [], _, _, _, _, h => h
  | v :: rest, text, tokens, hv, hends, h => by
    have hrest := spells_itemTokens hv.2 hends h
    have hfirst := hv.1.spells_tokens (ends_itemTokens hends) hrest
    simpa [itemTokens, Token.text] using hfirst.punctuation (c := ',') (t := .comma) rfl rfl

theorem spells_memberTokens : ∀ {members : List (String × Json)} {text : List Char}
    {tokens : List Token}, LegibleMembers members → Ends text → Spells text tokens →
    Spells ((memberTokens false members).flatMap Token.text ++ text)
      (memberTokens false members ++ tokens)
  | [], _, _, _, _, h => h
  | (key, v) :: rest, text, tokens, hv, hends, h => by
    have hrest := spells_memberTokens hv.2 hends h
    have hfirst := hv.1.spells_tokens (ends_memberTokens hends) hrest
    have hmember := (hfirst.punctuation (c := ':') (t := .colon) rfl rfl).stringText key
    simpa [memberTokens, Token.text] using hmember.punctuation (c := ',') (t := .comma) rfl rfl

end

theorem Legible.spells_compact {v : Json} (h : v.Legible) : Spells v.compact.toList v.tokens := by
  have hspells := h.spells_tokens ends_nil .nil
  rw [List.append_nil, List.append_nil] at hspells
  rwa [compact, String.toList_ofList]

end Statechart.Json
