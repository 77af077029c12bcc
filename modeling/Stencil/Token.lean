import Stencil.Text.Literal
/-!
# Tokens

A source is read as a sequence of tokens: stretches of text, the delimiters of tags and variables, and what stands
between the delimiters.  A token knows its kind, its text (a message, for the kind `error`) and the place where it
starts.

The kinds come in a fixed order, in which the words that have a meaning of their own stand after `keyword`.

A place is where a character stands: its offset in bytes from the start of the source, its line, and its column in bytes
from the start of that line.  Lines and columns count from 1, and only a line feed ends a line.  Reading a character
moves a place on; nothing else does, so a place can always be told from what has been read.
-/
namespace Stencil

/-! ## Places -/

structure Place where
  offset : Nat
  line : Nat
  column : Nat
deriving DecidableEq, Repr, Inhabited

namespace Place

def origin : Place := ⟨0, 1, 1⟩

def next (p : Place) (c : Char) : Place :=
  if c = '\n' then ⟨p.offset + 1, p.line + 1, 1⟩
  else ⟨p.offset + c.utf8Size, p.line, p.column + c.utf8Size⟩

def after (p : Place) (cs : List Char) : Place := cs.foldl next p

@[simp] theorem after_nil (p : Place) : p.after [] = p := rfl

@[simp] theorem after_cons (p : Place) (c : Char) (cs : List Char) : p.after (c :: cs) = (p.next c).after cs := rfl

theorem after_append (p : Place) (as bs : List Char) : p.after (as ++ bs) = (p.after as).after bs :=
  List.foldl_append ..

end Place

/-! ## Kinds -/

inductive Kind
  | error | bool | char | assign | comparison | endOfInput | field | identifier | tagStart | leftParen | number | pipe
  | tagEnd | rightParen | space | string | text | variableName | varStart | varEnd | keyword
  | blockWord | elseWord | elifWord | endWord | ifWord
deriving DecidableEq, Repr, Inhabited

namespace Kind

def all : List Kind :=
  [error, bool, char, assign, comparison, endOfInput, field, identifier, tagStart, leftParen, number, pipe,
    tagEnd, rightParen, space, string, text, variableName, varStart, varEnd, keyword,
    blockWord, elseWord, elifWord, endWord, ifWord]

def rank (k : Kind) : Nat := all.idxOf k

/-- Whether a kind is one word with a meaning of its own. -/
def isKeyword (k : Kind) : Bool := keyword.rank < k.rank

def label : Kind → String
  | error => "error"
  | bool => "bool"
  | char => "char"
  | assign => "assign"
  | comparison => "comparison"
  | endOfInput => "EOF"
  | field => "field"
  | identifier => "identifier"
  | tagStart => "left-delim"
  | leftParen => "left-paren"
  | number => "number"
  | pipe => "pipe"
  | tagEnd => "right-delim"
  | rightParen => "right-paren"
  | space => "space"
  | string => "string"
  | text => "text"
  | variableName => "variable"
  | varStart => "left-var"
  | varEnd => "right-var"
  | keyword => "keyword"
  | blockWord => "block"
  | elseWord => "else"
  | elifWord => "elif"
  | endWord => "end"
  | ifWord => "if"

/-- The kind of a word with a meaning of its own.  No word is read as `endWord`. -/
def ofWord? (word : String) : Option Kind :=
  if word = "block" then some blockWord
  else if word = "if" then some ifWord
  else if word = "else" then some elseWord
  else if word = "elif" then some elifWord
  else none

theorem isKeyword_of_ofWord? {word : String} {k : Kind} (h : ofWord? word = some k) : k.isKeyword = true := by
  unfold ofWord? at h
  split at h
  · cases h; rfl
  split at h
  · cases h; rfl
  split at h
  · cases h; rfl
  split at h
  · cases h; rfl
  · cases h

end Kind

/-! ## Tokens -/

structure Token where
  kind : Kind
  text : String
  place : Place
deriving DecidableEq, Repr, Inhabited

namespace Token

def isWord (t : Token) (word : String) : Bool := t.kind == .identifier && t.text == word

def summary (t : Token) : String :=
  twoDigits t.place.line ++ ":" ++ twoDigits t.place.offset ++ " " ++ t.kind.label ++ " - " ++ t.text

end Token

end Stencil
