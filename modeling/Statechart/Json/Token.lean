import Statechart.Number.Basic

/-!
# Tokens of a document

A document is a sequence of tokens with blanks between them. `scan` takes a text apart into its
tokens, `Token.text` writes a token.
-/

namespace Statechart.Json

/-- A token of a document. Some numbers and strings have the right form and stand for nothing: a
number beyond every double, and a string with half of a surrogate pair. -/
inductive Token where
  | openObject
  | closeObject
  | openArray
  | closeArray
  | colon
  | comma
  | null
  | bool (b : Bool)
  | number (n : Option Number)
  | string (s : Option String)
  deriving DecidableEq

/-! ### Texts -/

/-- The digit with the value `n`, in lower case. -/
def hexDigit (n : Nat) : Char := Nat.digitChar n

/-- A character inside the text of a string. -/
def escapeChar (c : Char) : List Char :=
  if c = '"' then ['\\', '"']
  else if c = '\\' then ['\\', '\\']
  else if c = '\x08' then ['\\', 'b']
  else if c = '\x0c' then ['\\', 'f']
  else if c = '\n' then ['\\', 'n']
  else if c = '\r' then ['\\', 'r']
  else if c = '\t' then ['\\', 't']
  else if c.toNat < 0x20 then
    ['\\', 'u', '0', '0', hexDigit (c.toNat / 16), hexDigit (c.toNat % 16)]
  else [c]

/-- The text of a string, with its quotes. -/
def stringText (s : String) : List Char := '"' :: s.toList.flatMap escapeChar ++ ['"']

/-- The text of a token. One that stands for nothing has no text of its own and is written as a
null. -/
def Token.text : Token → List Char
  | openObject => ['\x7b']
  | closeObject => ['\x7d']
  | openArray => ['[']
  | closeArray => [']']
  | colon => [':']
  | comma => [',']
  | null | number none | string none => ['n', 'u', 'l', 'l']
  | bool true => ['t', 'r', 'u', 'e']
  | bool false => ['f', 'a', 'l', 's', 'e']
  | number (some n) => n.text
  | string (some s) => stringText s

/-! ### Scanning -/

/-- The characters that may stand between tokens. -/
def isSpace (c : Char) : Bool := c = ' ' || c = '\t' || c = '\n' || c = '\r'

/-- The value of a hexadecimal digit in either case. -/
def hexValue? (c : Char) : Option Nat :=
  if '0' ≤ c ∧ c ≤ '9' then some (c.toNat - '0'.toNat)
  else if 'a' ≤ c ∧ c ≤ 'f' then some (c.toNat - 'a'.toNat + 10)
  else if 'A' ≤ c ∧ c ≤ 'F' then some (c.toNat - 'A'.toNat + 10)
  else none

/-- The code unit of four hexadecimal digits. -/
def codeUnit? (a b c d : Char) : Option Nat :=
  match hexValue? a, hexValue? b, hexValue? c, hexValue? d with
  | some a, some b, some c, some d => some (((a * 16 + b) * 16 + c) * 16 + d)
  | _, _, _, _ => none

def isLeading (unit : Nat) : Bool := 0xD800 ≤ unit && unit < 0xDC00

def isTrailing (unit : Nat) : Bool := 0xDC00 ≤ unit && unit < 0xE000

/-- The character of a leading and a trailing code unit. -/
def pairChar (leading trailing : Nat) : Char :=
  Char.ofNat (0x10000 + (leading - 0xD800) * 0x400 + (trailing - 0xDC00))

/-- The character that an escape of one letter stands for. -/
def shortEscape? (c : Char) : Option Char :=
  if c = '"' ∨ c = '\\' ∨ c = '/' then some c
  else if c = 'b' then some '\x08'
  else if c = 'f' then some '\x0c'
  else if c = 'n' then some '\n'
  else if c = 'r' then some '\r'
  else if c = 't' then some '\t'
  else none

/-- Put a character in front of the content of a string. -/
def putChar (c : Char) : Option (List Char) × List Char → Option (List Char) × List Char
  | (s, left) => (s.map (c :: ·), left)

/-- Forget the content of a string. -/
def spoil : Option (List Char) × List Char → Option (List Char) × List Char
  | (_, left) => (none, left)

/-- The content of a string after its opening quote, and what follows its closing quote. There is
no content if a code unit of a pair stands alone. Control characters have to be escaped. -/
def scanString : List Char → Option (Option (List Char) × List Char)
  | [] => none
  | '"' :: rest => some (some [], rest)
  | '\\' :: 'u' :: a :: b :: c :: d :: rest =>
    match codeUnit? a b c d with
    | none => none
    | some unit =>
      if isLeading unit then
        match rest with
        | '\\' :: 'u' :: e :: f :: g :: h :: rest =>
          match codeUnit? e f g h with
          | none => none
          | some trailing =>
            if isTrailing trailing then (scanString rest).map (putChar (pairChar unit trailing))
            else (scanString rest).map spoil
        | rest => (scanString rest).map spoil
      else if isTrailing unit then (scanString rest).map spoil
      else (scanString rest).map (putChar (Char.ofNat unit))
  | '\\' :: c :: rest =>
    match shortEscape? c with
    | none => none
    | some e => (scanString rest).map (putChar e)
  | c :: rest =>
    if c = '\\' ∨ c.toNat < 0x20 then none
    else (scanString rest).map (putChar c)

def isDigit (c : Char) : Bool := '0' ≤ c && c ≤ '9'

def digitValue (c : Char) : Nat := c.toNat - '0'.toNat

/-- The digits at the start of a text, and what follows them. -/
def scanDigits (text : List Char) : List Nat × List Char :=
  ((text.takeWhile isDigit).map digitValue, text.dropWhile isDigit)

/-- The digits before the point: a zero stands alone. -/
def scanWhole (text : List Char) : Option (List Nat × List Char) :=
  match scanDigits text with
  | ([], _) => none
  | (0 :: _ :: _, _) => none
  | (digits, rest) => some (digits, rest)

/-- A point with at least one digit after it, if there is a point. -/
def scanFraction : List Char → Option (Option (List Nat) × List Char)
  | '.' :: text =>
    match scanDigits text with
    | ([], _) => none
    | (digits, rest) => some (some digits, rest)
  | text => some (none, text)

/-- The digits of a power of ten. -/
def scanPower (negative : Bool) (text : List Char) :
    Option (Option (Bool × List Nat) × List Char) :=
  match scanDigits text with
  | ([], _) => none
  | (digits, rest) => some (some (negative, digits), rest)

/-- A power of ten, if there is one. -/
def scanExponent : List Char → Option (Option (Bool × List Nat) × List Char)
  | c :: text =>
    if c = 'e' ∨ c = 'E' then
      match text with
      | '+' :: text => scanPower false text
      | '-' :: text => scanPower true text
      | text => scanPower false text
    else some (none, c :: text)
  | [] => some (none, [])

/-- A number without its sign. -/
def scanMagnitude (negative : Bool) (text : List Char) : Option (Option Number × List Char) :=
  (scanWhole text).bind fun (whole, text) =>
    (scanFraction text).bind fun (fraction, text) =>
      (scanExponent text).map fun (exponent, text) =>
        (Number.Literal.value? ⟨negative, whole, fraction, exponent⟩, text)

/-- The token at the start of a text that does not start with a space, and what follows it. -/
def scanToken : List Char → Option (Token × List Char)
  | '\x7b' :: rest => some (.openObject, rest)
  | '\x7d' :: rest => some (.closeObject, rest)
  | '[' :: rest => some (.openArray, rest)
  | ']' :: rest => some (.closeArray, rest)
  | ':' :: rest => some (.colon, rest)
  | ',' :: rest => some (.comma, rest)
  | 'n' :: 'u' :: 'l' :: 'l' :: rest => some (.null, rest)
  | 't' :: 'r' :: 'u' :: 'e' :: rest => some (.bool true, rest)
  | 'f' :: 'a' :: 'l' :: 's' :: 'e' :: rest => some (.bool false, rest)
  | '"' :: rest => (scanString rest).map fun (s, left) => (.string (s.map String.ofList), left)
  | '-' :: rest => (scanMagnitude true rest).map fun (n, left) => (.number n, left)
  | text => (scanMagnitude false text).map fun (n, left) => (.number n, left)

/-- The tokens of a text, of which `fuel` characters are looked at. Every token has at least one
character, so the length of the text is fuel enough. -/
def scanFrom : Nat → List Char → Option (List Token)
  | _, [] => some []
  | 0, _ :: _ => none
  | fuel + 1, c :: rest =>
    if isSpace c then scanFrom fuel rest
    else
      match scanToken (c :: rest) with
      | none => none
      | some (token, left) => (scanFrom fuel left).map (token :: ·)

/-- The tokens of a text, if it consists of tokens and spaces. -/
def scan (text : List Char) : Option (List Token) := scanFrom text.length text

end Statechart.Json
