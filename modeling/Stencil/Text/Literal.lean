import Stencil.Text.CharClass
/-!
# Literals

How numbers and texts are written, and what is read from them.

An integer is written in decimal, with a minus sign where it is negative.  Reading is more lenient than writing: one
plus or minus sign may come first, leading zeros are allowed, and nothing else is.  What is read has to fit into a signed
64-bit word; a text that does not is not a number here, whatever its length.

A text is shown inside a message between double quotes, on one line, and so that every character can be told: the quote
and the backslash are escaped by a backslash, NUL, tab and the two line ends by a letter, and any other character that
does not stand for itself (`isVisible`) by its code point.  A single quote needs no escape.

A literal of a template stands for the text between its quotes, with each backslash and the character after it replaced
by one character.  `n`, `t` and `r` name the two line ends and the tab; any other character names itself.  A backslash
with nothing after it ends the text.
-/
namespace Stencil

/-! ## Numbers -/

def twoDigits (n : Nat) : String :=
  if n < 10 then "0" ++ toString n else toString n

/-- The value of a non-empty run of ASCII digits. -/
def readNat? (cs : List Char) : Option Nat :=
  if cs ≠ [] ∧ cs.all Char.isDigit then some (Nat.ofDigitChars 10 cs 0) else none

/-- The value of a run of digits with at most one sign in front. -/
def readInt? : List Char → Option Int
  | '+' :: cs => (readNat? cs).map Int.ofNat
  | '-' :: cs => (readNat? cs).map (fun n => -(n : Int))
  | cs => (readNat? cs).map Int.ofNat

def wordOfInt? (n : Int) : Option Int64 :=
  if -0x8000000000000000 ≤ n ∧ n < 0x8000000000000000 then some (Int64.ofInt n) else none

def readWord? (s : String) : Option Int64 := (readInt? s.toList).bind wordOfInt?

def writeWord (n : Int64) : String := toString n.toInt

theorem wordOfInt?_toInt (n : Int64) : wordOfInt? n.toInt = some n := by
  have h1 := n.le_toInt
  have h2 := n.toInt_lt
  have h : -0x8000000000000000 ≤ n.toInt ∧ n.toInt < 0x8000000000000000 := ⟨by omega, by omega⟩
  simp [wordOfInt?, h]

/-! ## Texts in messages -/

def codePointEscape (c : Char) : List Char :=
  ['\\', 'u', '{'] ++ Nat.toDigits 16 c.toNat ++ ['}']

def quotedChar (c : Char) : List Char :=
  if c = '"' ∨ c = '\\' then ['\\', c]
  else if c = '\x00' then ['\\', '0']
  else if c = '\t' then ['\\', 't']
  else if c = '\n' then ['\\', 'n']
  else if c = '\r' then ['\\', 'r']
  else if isVisible c then [c]
  else codePointEscape c

def quoted (s : String) : String :=
  String.ofList ('"' :: (s.toList.flatMap quotedChar ++ ['"']))

/-! ## Texts in templates -/

/-- What a character names after a backslash. -/
def escaped (c : Char) : Char :=
  if c = 'n' then '\n'
  else if c = 't' then '\t'
  else if c = 'r' then '\r'
  else c

def unescape : List Char → List Char
  | [] => []
  | ['\\'] => []
  | '\\' :: c :: cs => escaped c :: unescape cs
  | c :: cs => c :: unescape cs

/-- What a literal stands for.  Its first and its last character are taken for the quotes, whatever they are. -/
def literalValue (literal : String) : String :=
  String.ofList (unescape (literal.toList.drop 1).dropLast)

theorem unescape_cons_of_ne {c : Char} (h : c ≠ '\\') (cs : List Char) : unescape (c :: cs) = c :: unescape cs := by
  rw [unescape]
  · intro hc
    exact absurd hc h
  · intro d ds hc
    exact absurd hc h

end Stencil
