import Stencil.Token
/-!
# Faults

Everything that can go wrong, by cause: a source that cannot be read, a condition that cannot be decided, a rendering
that was stopped, a template that was never read.  Each cause has one message.  A fault in a source also has a place, and
a fault may rest on others, from the outermost inwards (`Fault.sources`).
-/
namespace Stencil

/-! ## Faults in a source -/

inductive ParseCause
  | lexical (message : String)
  | unexpected (expected found : String)
  /-- The source ended here; the expectation is ready to follow the message. -/
  | ended (expectation : String)
  | unknownTag (name : String)
  | invalidNumber (literal : String)
  | custom (message : String)
deriving DecidableEq, Repr, Inhabited

namespace ParseCause

def unexpectedToken (expected : String) (t : Token) : ParseCause :=
  unexpected expected (t.kind.label ++ " '" ++ t.text ++ "'")

def endedBefore : Option String → ParseCause
  | some expected => ended (" (expected " ++ expected ++ ")")
  | none => ended ""

def message : ParseCause → String
  | lexical m => "Lex error: " ++ m
  | unexpected expected found => "Expected " ++ expected ++ ", found " ++ found
  | ended expectation => "Unexpected end-of-file" ++ expectation
  | unknownTag name => "Unknown tag '" ++ name ++ "'"
  | invalidNumber literal => "Invalid integer literal '" ++ literal ++ "'"
  | custom m => "Parser error: " ++ m

end ParseCause

structure ParseFault where
  place : Place
  cause : ParseCause
deriving DecidableEq, Repr, Inhabited

def ParseFault.message (f : ParseFault) : String :=
  "Parse error at line " ++ toString f.place.line ++ ", column " ++ toString f.place.column ++ ": " ++ f.cause.message

namespace Token

def fault (t : Token) (cause : ParseCause) : ParseFault := ⟨t.place, cause⟩

def unexpected (t : Token) (expected : String) : ParseFault := t.fault (.unexpectedToken expected t)

def endedBefore (t : Token) (expected : String) : ParseFault := t.fault (.endedBefore (some expected))

end Token

/-! ## Faults in a condition -/

inductive EvalFault
  | empty
  | unsupported (what : String)
  | unexpectedNode (found : String)
  | expectedComparison (found : String)
  | notBool (literal : String)
  | notInt (literal : String)
  | incomparable (operator lhs rhs : String)
  | tooManyParts (count : Nat)
deriving DecidableEq, Repr, Inhabited

def EvalFault.message : EvalFault → String
  | empty => "Empty expression"
  | unsupported what => "Support for " ++ what ++ " is not implemented in expressions"
  | unexpectedNode found => "Unexpected node " ++ found ++ " in expression"
  | expectedComparison found => "Expected comparison, found " ++ found
  | notBool literal => "'" ++ literal ++ "' is not a boolean, expected 'true' or 'false'"
  | notInt literal => "'" ++ literal ++ "' is not an integer"
  | incomparable operator lhs rhs => "Comparison " ++ lhs ++ " " ++ operator ++ " " ++ rhs ++ " is not supported"
  | tooManyParts count => "Expressions with " ++ toString count ++ " parts are not supported"

/-! ## All faults -/

inductive Fault
  | parse (f : ParseFault)
  | eval (f : EvalFault)
  | cancelled
  | unparsed (template : String)
deriving DecidableEq, Repr, Inhabited

namespace Fault

def message : Fault → String
  | parse f => f.message
  | eval f => "Evaluation error: " ++ f.message
  | cancelled => "Execution cancelled"
  | unparsed template => "Template '" ++ template ++ "' has not been parsed"

/-- The messages of the faults that a fault rests on, the nearest first. -/
def sources : Fault → List String
  | parse f => [f.message, f.cause.message]
  | eval f => [f.message]
  | cancelled => []
  | unparsed _ => []

end Fault
end Stencil
