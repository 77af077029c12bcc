import Stencil.Text.CharClass
import Stencil.Token
/-!
# Lexemes

How far each lexeme reaches, as a length on what is left of the source, and which kind of token it is.  Nothing here
moves or reports anything: the scanner decides what to do with a lexeme once it knows how long it is.

A number is a sign, a base mark, digits, a fraction and an exponent, all but the digits optional and every run of digits
possibly empty; its value is not looked at.  A string ends at the first quote like its own that no backslash precedes,
and has to end on its line.  A word is a run of word characters, with at most a dot in front.
-/
namespace Stencil

/-- The length of the longest start of `cs` whose characters all pass. -/
def runLength (p : Char → Bool) (cs : List Char) : Nat := (cs.takeWhile p).length

/-! ## Numbers -/

def isSign (c : Char) : Bool := c == '+' || c == '-'

def startsNumber (c : Char) : Bool := isSign c || c.isDigit

inductive Radix
  | binary | octal | decimal | hexadecimal
deriving DecidableEq, Repr

namespace Radix

/-- The base that unsigned digits announce: decimal, unless a zero is followed by the letter of another base. -/
def announced : List Char → Radix
  | '0' :: c :: _ =>
    if c = 'x' ∨ c = 'X' then hexadecimal
    else if c = 'o' ∨ c = 'O' then octal
    else if c = 'b' ∨ c = 'B' then binary
    else decimal
  | _ => decimal

def markLength : Radix → Nat
  | decimal => 0
  | _ => 2

/-- The digits of a base; an underscore may stand anywhere among them. -/
def isDigit : Radix → Char → Bool
  | binary, c => c == '0' || c == '1' || c == '_'
  | octal, c => ('0' ≤ c && c ≤ '7') || c == '_'
  | decimal, c => c.isDigit || c == '_'
  | hexadecimal, c => c.isDigit || ('a' ≤ c && c ≤ 'f') || ('A' ≤ c && c ≤ 'F') || c == '_'

def isExponent : Radix → Char → Bool
  | decimal, c => c == 'e' || c == 'E'
  | hexadecimal, c => c == 'p' || c == 'P'
  | _, _ => false

end Radix

def signLength : List Char → Nat
  | c :: _ => if isSign c then 1 else 0
  | [] => 0

def fractionLength (r : Radix) : List Char → Nat
  | '.' :: cs => 1 + runLength r.isDigit cs
  | _ => 0

/-- An exponent is a letter, an optional sign and decimal digits, in whatever base the number is. -/
def exponentLength (r : Radix) : List Char → Nat
  | c :: cs =>
    if r.isExponent c then
      let sign := signLength cs
      1 + sign + runLength Radix.decimal.isDigit (cs.drop sign)
    else 0
  | [] => 0

def unsignedLength (cs : List Char) : Nat :=
  let r := Radix.announced cs
  let whole := r.markLength + runLength r.isDigit (cs.drop r.markLength)
  let fraction := whole + fractionLength r (cs.drop whole)
  fraction + exponentLength r (cs.drop fraction)

def numberLength (cs : List Char) : Nat :=
  signLength cs + unsignedLength (cs.drop (signLength cs))

/-! ## Strings -/

/-- The length of a string after its opening quote, the closing one included; nothing if it does not end on its line. -/
def quotedLength? (quote : Char) : List Char → Option Nat
  | [] => none
  | ['\\'] => none
  | '\\' :: c :: cs => if c = '\n' then none else (quotedLength? quote cs).map (· + 2)
  | c :: cs =>
    if c = '\n' then none
    else if c = quote then some 1
    else (quotedLength? quote cs).map (· + 1)

/-! ## Words -/

/-- Whether `c`, followed by `more`, starts a word. -/
def startsWord (c : Char) (more : List Char) : Bool :=
  isWordChar c || (c == '.' && more.head?.any isWordChar)

def wordLength : List Char → Nat
  | [] => 0
  | _ :: cs => 1 + runLength isWordChar cs

def wordKind (word : String) : Kind :=
  match Kind.ofWord? word with
  | some kind => kind
  | none =>
    if word.toList.head? = some '.' then .field
    else if word = "true" ∨ word = "false" then .bool
    else .identifier

/-! ## Marks -/

/-- What a character stands for that starts neither a number nor a word. -/
inductive Mark
  | blank
  | lexeme (kind : Kind) (length : Nat)
  | quote
  | lineEnd
  | loneBang
  | unknown
deriving DecidableEq, Repr

def markOf (c : Char) (more : List Char) : Mark :=
  let doubled := more.head? = some '='
  if c = '\r' ∨ c = '\n' then .lineEnd
  else if c = ' ' ∨ c = '\t' then .blank
  else if c = '!' then if doubled then .lexeme .comparison 2 else .loneBang
  else if c = '>' ∨ c = '<' then .lexeme .comparison (if doubled then 2 else 1)
  else if c = '=' then if doubled then .lexeme .comparison 2 else .lexeme .assign 1
  else if c = '|' then .lexeme .pipe 1
  else if c = '"' ∨ c = '\'' then .quote
  else if c = '(' then .lexeme .leftParen 1
  else if c = ')' then .lexeme .rightParen 1
  else if 0x20 ≤ c.toNat ∧ c.toNat < 0x7F then .lexeme .char 1
  else .unknown

/-! ## How long lexemes are at least -/

theorem numberLength_pos {c : Char} {cs : List Char} (h : startsNumber c = true) : 0 < numberLength (c :: cs) := by
  by_cases hs : isSign c = true
  · simp only [numberLength, signLength, hs, if_true]
    omega
  · have hd : c.isDigit = true := by simpa [startsNumber, hs] using h
    simp only [numberLength, signLength, hs, Bool.false_eq_true, if_false, List.drop_zero, Nat.zero_add]
    unfold unsignedLength
    cases hr : Radix.announced (c :: cs) with
    | decimal =>
      have : 0 < runLength Radix.decimal.isDigit (c :: cs) := by
        simp [runLength, Radix.isDigit, hd]
      simp only [Radix.markLength, List.drop_zero, Nat.zero_add]
      omega
    | binary | octal | hexadecimal =>
      simp only [Radix.markLength]
      omega

theorem quotedLength?_pos {quote : Char} : ∀ {cs : List Char} {n : Nat}, quotedLength? quote cs = some n → 0 < n
  | [], _, h => by cases h
  | c :: cs, n, h => by
    unfold quotedLength? at h
    split at h
    · cases h
    · cases h
    · split at h
      · cases h
      · obtain ⟨m, _, rfl⟩ := Option.map_eq_some_iff.1 h
        omega
    · split at h
      · cases h
      split at h
      · cases h; omega
      · obtain ⟨m, _, rfl⟩ := Option.map_eq_some_iff.1 h
        omega

/-- What a mark can be that `c` makes when `more` follows: a lexeme has two characters only if the second is '='. -/
inductive Mark.Sound (c : Char) (more : List Char) : Mark → Prop
  | blank (h : c = ' ' ∨ c = '\t') : Sound c more .blank
  | quote : Sound c more .quote
  | lineEnd : Sound c more .lineEnd
  | loneBang : Sound c more .loneBang
  | unknown : Sound c more .unknown
  | one {kind : Kind} (h : kind ∈ [.comparison, .assign, .pipe, .leftParen, .rightParen, .char]) :
    Sound c more (.lexeme kind 1)
  | two (h : more.head? = some '=') : Sound c more (.lexeme .comparison 2)

theorem markOf_sound (c : Char) (more : List Char) : (markOf c more).Sound c more := by
  refine iteInduction (fun _ => .lineEnd) fun _ => ?_
  refine iteInduction .blank fun _ => ?_
  refine iteInduction (fun _ => iteInduction .two fun _ => .loneBang) fun _ => ?_
  refine iteInduction (fun _ => ?_) fun _ => ?_
  · exact iteInduction (motive := fun n => Mark.Sound c more (.lexeme .comparison n)) .two fun _ => .one (by decide)
  refine iteInduction (fun _ => iteInduction .two fun _ => .one (by decide)) fun _ => ?_
  refine iteInduction (fun _ => .one (by decide)) fun _ => ?_
  refine iteInduction (fun _ => .quote) fun _ => ?_
  refine iteInduction (fun _ => .one (by decide)) fun _ => ?_
  refine iteInduction (fun _ => .one (by decide)) fun _ => ?_
  exact iteInduction (fun _ => .one (by decide)) fun _ => .unknown

theorem markOf_length_pos {c : Char} {more : List Char} {kind : Kind} {n : Nat}
    (h : markOf c more = .lexeme kind n) : 0 < n := by
  have hsound := markOf_sound c more
  rw [h] at hsound
  cases hsound <;> decide

end Stencil
