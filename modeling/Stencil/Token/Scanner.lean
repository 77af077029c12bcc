import Stencil.Token.Lexeme
/-!
# The scanner

The scanner is the lexer of templates, with a mode for each of its states.  It reads a source turn by turn.  Outside the
delimiters it takes text up to the next brace; inside it takes one lexeme after another, and the mode says which.  A
turn delivers no token (blanks, or a lexeme that has only been recognised), one, or two, and names the next mode; the
last turn names none.  That is the turn that reaches the end of the source, or the first one that finds a fault: a fault
is a token of its own, and nothing after it is read.

Either closing delimiter closes what either opening one has opened.  A parenthesis that is still open forbids both.

A cursor stands somewhere in a source: before it the lexeme that is being read, after it what is left.  It knows two
places, the one where the lexeme starts and its own, and keeps them in step by reading: `read n` moves over `n`
characters, `settle` gives up the lexeme and starts the next one here.
-/
namespace Stencil

/-! ## Cursors -/

structure Cursor where
  start : Place
  place : Place
  lexeme : List Char
  rest : List Char
deriving DecidableEq, Repr

namespace Cursor

def atStart (source : List Char) : Cursor := ⟨.origin, .origin, [], source⟩

def read (n : Nat) (c : Cursor) : Cursor :=
  { c with
    place := c.place.after (c.rest.take n)
    lexeme := c.lexeme ++ c.rest.take n
    rest := c.rest.drop n }

def settle (c : Cursor) : Cursor := { c with start := c.place, lexeme := [] }

def token (kind : Kind) (c : Cursor) : Token := ⟨kind, String.ofList c.lexeme, c.start⟩

def complaint (message : String) (c : Cursor) : Token := ⟨.error, message, c.start⟩

@[simp] theorem rest_read (n : Nat) (c : Cursor) : (c.read n).rest = c.rest.drop n := rfl

@[simp] theorem rest_settle (c : Cursor) : c.settle.rest = c.rest := rfl

end Cursor

/-! ## Delimiters -/

inductive Delimiter
  | tag | var
deriving DecidableEq, Repr

namespace Delimiter

def openKind : Delimiter → Kind
  | tag => .tagStart
  | var => .varStart

def closeKind : Delimiter → Kind
  | tag => .tagEnd
  | var => .varEnd

def opens? : List Char → Option Delimiter
  | '{' :: '%' :: _ => some tag
  | '{' :: '{' :: _ => some var
  | _ => none

def closes? : List Char → Option Delimiter
  | '%' :: '}' :: _ => some tag
  | '}' :: '}' :: _ => some var
  | _ => none

end Delimiter

/-! ## Faults -/

inductive ScanFault
  | strayBrace (sequence : List Char)
  | openParen
  | unclosed
  | loneBang
  | strayParen
  | unknown (c : Char)
  | unterminated
deriving DecidableEq, Repr

def codePointName (c : Char) : String :=
  let digits := (Nat.toDigits 16 c.toNat).map Char.toUpper
  "U+" ++ String.ofList (List.replicate (4 - digits.length) '0' ++ digits)

def describeChar (c : Char) : String := codePointName c ++ " '" ++ c.toString ++ "'"

def ScanFault.message : ScanFault → String
  | strayBrace sequence =>
    "unexpected sequence " ++ String.ofList sequence ++ ", expected \x7b% or \x7b\x7b"
  | openParen => "missing right paren"
  | unclosed => "unclosed action"
  | loneBang => "expected = after !"
  | strayParen => "unexpected right paren " ++ describeChar ')'
  | unknown c => "unrecognized character in action: " ++ describeChar c
  | unterminated => "unterminated quoted string"

/-! ## Turns -/

/-- What the scanner takes next. -/
inductive Mode
  | text
  | opening (d : Delimiter)
  | inside
  | number
  | word
  | string (quote : Char)
  | closing (d : Delimiter)
deriving DecidableEq, Repr

/-- A scanner between two turns.  The depth counts the open parentheses. -/
structure Scanner where
  mode : Mode
  depth : Nat
  cursor : Cursor
deriving DecidableEq, Repr

/-- What a turn delivers, and where it leaves the scanner, unless that was the last turn. -/
structure Turn where
  tokens : List Token
  next : Option Scanner

namespace Scanner

def atStart (source : List Char) : Scanner := ⟨.text, 0, .atStart source⟩

def goTo (s : Scanner) (mode : Mode) : Turn := ⟨[], some { s with mode := mode }⟩

def deliver (s : Scanner) (kind : Kind) (mode : Mode) : Turn :=
  ⟨[s.cursor.token kind], some { s with mode := mode, cursor := s.cursor.settle }⟩

def complain (s : Scanner) (fault : ScanFault) : Turn := ⟨[s.cursor.complaint fault.message], none⟩

def read (n : Nat) (s : Scanner) : Scanner := { s with cursor := s.cursor.read n }

/-- Text up to the next brace, and what follows it: a delimiter, the end of the source, or a fault. -/
def turnText (s : Scanner) : Turn :=
  let s := s.read (runLength (· != '{') s.cursor.rest)
  let text := if s.cursor.lexeme = [] then [] else [s.cursor.token .text]
  let s := { s with cursor := s.cursor.settle }
  match s.cursor.rest with
  | [] => ⟨text ++ [s.cursor.token .endOfInput], none⟩
  | rest =>
    match Delimiter.opens? rest with
    | some d => ⟨text, some { s with mode := .opening d }⟩
    | none => ⟨text ++ [s.cursor.complaint (ScanFault.strayBrace (rest.take 2)).message], none⟩

/-- A mark, whose first character `c` has not been read yet. -/
def turnMark (s : Scanner) (c : Char) (more : List Char) : Turn :=
  match markOf c more with
  | .blank => ⟨[], some { s with cursor := (s.cursor.read 1).settle }⟩
  | .quote => (s.read 1).goTo (.string c)
  | .lineEnd => s.complain .unclosed
  | .loneBang => s.complain .loneBang
  | .unknown => s.complain (.unknown c)
  | .lexeme .leftParen n => { s.read n with depth := s.depth + 1 }.deliver .leftParen .inside
  | .lexeme .rightParen n =>
    if s.depth = 0 then s.complain .strayParen
    else { s.read n with depth := s.depth - 1 }.deliver .rightParen .inside
  | .lexeme kind n => (s.read n).deliver kind .inside

def turnInside (s : Scanner) : Turn :=
  match Delimiter.closes? s.cursor.rest with
  | some d => if s.depth = 0 then s.goTo (.closing d) else s.complain .openParen
  | none =>
    match s.cursor.rest with
    | [] => s.complain .unclosed
    | c :: more =>
      if startsNumber c then s.goTo .number
      else if startsWord c more then s.goTo .word
      else s.turnMark c more

def turnWord (s : Scanner) : Turn :=
  let s := s.read (wordLength s.cursor.rest)
  s.deliver (wordKind (String.ofList s.cursor.lexeme)) .inside

/-- The rest of a string, whose opening quote has been read. -/
def turnString (s : Scanner) (quote : Char) : Turn :=
  match quotedLength? quote s.cursor.rest with
  | some n => (s.read n).deliver .string .inside
  | none => s.complain .unterminated

def turn (s : Scanner) : Turn :=
  match s.mode with
  | .text => s.turnText
  | .opening d => (s.read 2).deliver d.openKind .inside
  | .inside => s.turnInside
  | .number => (s.read (numberLength s.cursor.rest)).deliver .number .inside
  | .word => s.turnWord
  | .string quote => s.turnString quote
  | .closing d => (s.read 2).deliver d.closeKind .text

end Scanner

end Stencil
