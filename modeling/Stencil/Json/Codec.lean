import Stencil.Fault
import Stencil.Json
import Stencil.Node
/-!
# Written forms

How tokens, nodes and faults are serialised as JSON, and read back.  Reading is written beside writing, form by form, and
gives back what was written; it refuses what has another shape, and numbers that do not fit into a word.
-/
namespace Stencil

/-! ## Kinds and comparisons: one name each -/

def Kind.written : Kind → String
  | error => "Error"
  | bool => "Bool"
  | char => "Char"
  | assign => "Assign"
  | comparison => "Comparison"
  | endOfInput => "EndOfInput"
  | field => "Field"
  | identifier => "Identifier"
  | tagStart => "TagStart"
  | leftParen => "LeftParen"
  | number => "Number"
  | pipe => "Pipe"
  | tagEnd => "TagEnd"
  | rightParen => "RightParen"
  | space => "Space"
  | string => "String"
  | text => "Text"
  | variableName => "Variable"
  | varStart => "VarStart"
  | varEnd => "VarEnd"
  | keyword => "Keyword"
  | blockWord => "Block"
  | elseWord => "Else"
  | elifWord => "ElseIf"
  | endWord => "End"
  | ifWord => "If"

def Kind.encode (k : Kind) : Json := .string k.written

def Kind.decode? (j : Json) : Option Kind := j.bare?.bind (fun s => Kind.all.find? (fun k => k.written == s))

theorem Kind.decode?_encode (k : Kind) : Kind.decode? k.encode = some k := by
  cases k <;> rfl

def Comparison.all : List Comparison := [equal, notEqual, greater, greaterOrEqual, less, lessOrEqual]

def Comparison.written : Comparison → String
  | equal => "Equal"
  | notEqual => "NotEqual"
  | greater => "Greater"
  | greaterOrEqual => "GreaterOrEqual"
  | less => "Less"
  | lessOrEqual => "LessOrEqual"

def Comparison.encode (c : Comparison) : Json := .string c.written

def Comparison.decode? (j : Json) : Option Comparison :=
  j.bare?.bind (fun s => Comparison.all.find? (fun c => c.written == s))

theorem Comparison.decode?_encode (c : Comparison) : Comparison.decode? c.encode = some c := by
  cases c <;> rfl

/-! ## Tokens -/

def Token.fields : List String := ["kind", "pos", "text", "line", "column"]

def Token.encode (t : Token) : Json :=
  .object [("kind", t.kind.encode), ("pos", .ofNat t.place.offset), ("text", .string t.text),
    ("line", .ofNat t.place.line), ("column", .ofNat t.place.column)]

def Token.decode? (j : Json) : Option Token := do
  let kind ← (← j.field? fields "kind") |> Kind.decode?
  let offset ← (← j.field? fields "pos").nat?
  let text ← (← j.field? fields "text").string?
  let line ← (← j.field? fields "line").nat?
  let column ← (← j.field? fields "column").nat?
  return ⟨kind, text, offset, line, column⟩

/-! ## Nodes -/

namespace Node

def textFields : List String := ["start", "text"]

def literalFields : List String := ["start", "value"]

def identFields : List String := ["start", "name"]

def comparisonFields : List String := ["start", "operator"]

def blockFields : List String := ["start", "name", "arguments", "body"]

def conditionalFields : List String := ["start", "expression", "body", "else_branch"]

mutual

def encode : Node → Json
  | text start s => .choice "Text" (.object [("start", .ofNat start), ("text", .string s)])
  | string start s => .choice "String" (.object [("start", .ofNat start), ("value", .string s)])
  | int start n => .choice "Int" (.object [("start", .ofNat start), ("value", .ofWord n)])
  | ident start s => .choice "Identifier" (.object [("start", .ofNat start), ("name", .string s)])
  | comparison start c => .choice "Comparison" (.object [("start", .ofNat start), ("operator", c.encode)])
  | block start name arguments body =>
    .choice "Block" (.object [("start", .ofNat start), ("name", .string name),
      ("arguments", .array (encodeAll arguments)), ("body", .array (encodeAll body))])
  | conditional start condition body none =>
    .choice "If" (.object [("start", .ofNat start), ("expression", .array (encodeAll condition)),
      ("body", .array (encodeAll body)), ("else_branch", .null)])
  | conditional start condition body (some otherwise) =>
    .choice "If" (.object [("start", .ofNat start), ("expression", .array (encodeAll condition)),
      ("body", .array (encodeAll body)), ("else_branch", encode otherwise)])

def encodeAll : List Node → List Json
  | [] => []
  | node :: nodes => encode node :: encodeAll nodes

end

mutual

def decode? (j : Json) : Option Node :=
  match j with
  | .object [(alternative, content)] =>
    if alternative = "Text" then do
      return .text (← (← content.field? textFields "start").nat?) (← (← content.field? textFields "text").string?)
    else if alternative = "String" then do
      return .string (← (← content.field? literalFields "start").nat?)
        (← (← content.field? literalFields "value").string?)
    else if alternative = "Int" then do
      return .int (← (← content.field? literalFields "start").nat?) (← (← content.field? literalFields "value").word?)
    else if alternative = "Identifier" then do
      return .ident (← (← content.field? identFields "start").nat?) (← (← content.field? identFields "name").string?)
    else if alternative = "Comparison" then do
      return .comparison (← (← content.field? comparisonFields "start").nat?)
        (← Comparison.decode? (← content.field? comparisonFields "operator"))
    else if alternative = "Block" then do
      let start ← (← content.field? blockFields "start").nat?
      let name ← (← content.field? blockFields "name").string?
      let ⟨arguments, _⟩ ← content.part? blockFields "arguments"
      let ⟨body, _⟩ ← content.part? blockFields "body"
      return .block start name (← decodeAll? arguments) (← decodeAll? body)
    else if alternative = "If" then do
      let start ← (← content.field? conditionalFields "start").nat?
      let ⟨condition, _⟩ ← content.part? conditionalFields "expression"
      let ⟨body, _⟩ ← content.part? conditionalFields "body"
      let condition ← decodeAll? condition
      let body ← decodeAll? body
      match content.part? conditionalFields "else_branch" with
      | none => return .conditional start condition body none
      | some ⟨.null, _⟩ => return .conditional start condition body none
      | some ⟨otherwise, _⟩ => return .conditional start condition body (some (← decode? otherwise))
    else none
  | _ => none
termination_by sizeOf j
decreasing_by all_goals simp only [Json.object.sizeOf_spec, List.cons.sizeOf_spec, Prod.mk.sizeOf_spec]; omega

def decodeAll? (j : Json) : Option (List Node) :=
  match j with
  | .array items => items.attach.mapM (fun ⟨item, _⟩ => decode? item)
  | _ => none
termination_by sizeOf j
decreasing_by
  have := List.sizeOf_lt_of_mem ‹_ ∈ items›
  simp only [Json.array.sizeOf_spec]
  omega

end

end Node

/-! ## Faults -/

/-- The name of an alternative, and what it holds, if anything. -/
def Json.alternative? : Json → Option (String × Json)
  | .object [(name, content)] => some (name, content)
  | _ => none

namespace ParseCause

def written : ParseCause → String
  | lexical _ => "Lex"
  | unexpected .. => "UnexpectedToken"
  | ended _ => "UnexpectedEOF"
  | unknownTag _ => "UnknownTag"
  | invalidNumber _ => "InvalidNumber"
  | custom _ => "Message"

def encode (c : ParseCause) : Json :=
  .choice c.written <|
    match c with
    | lexical m => .object [("message", .string m)]
    | unexpected expected found => .object [("expected", .string expected), ("found", .string found)]
    | ended expectation => .object [("expected_what", .string expectation)]
    | unknownTag name => .object [("name", .string name)]
    | invalidNumber literal => .object [("literal", .string literal)]
    | custom m => .string m

def decode? (j : Json) : Option ParseCause := do
  let (name, content) ← j.alternative?
  if name = "Lex" then return lexical (← (← content.named? "message").string?)
  else if name = "UnexpectedToken" then
    return unexpected (← (← content.named? "expected").string?) (← (← content.named? "found").string?)
  else if name = "UnexpectedEOF" then return ended (← (← content.named? "expected_what").string?)
  else if name = "UnknownTag" then return unknownTag (← (← content.named? "name").string?)
  else if name = "InvalidNumber" then return invalidNumber (← (← content.named? "literal").string?)
  else if name = "Message" then return custom (← content.string?)
  else none

end ParseCause

namespace ParseFault

def fields : List String := ["line", "column", "position", "kind"]

def encode (f : ParseFault) : Json :=
  .object [("line", .ofNat f.place.line), ("column", .ofNat f.place.column), ("position", .ofNat f.place.offset),
    ("kind", f.cause.encode)]

def decode? (j : Json) : Option ParseFault := do
  let line ← (← j.field? fields "line").nat?
  let column ← (← j.field? fields "column").nat?
  let offset ← (← j.field? fields "position").nat?
  let cause ← ParseCause.decode? (← j.field? fields "kind")
  return ⟨⟨offset, line, column⟩, cause⟩

end ParseFault

namespace EvalFault

def written : EvalFault → String
  | empty => "EmptyExpression"
  | unsupported _ => "NotSupported"
  | unexpectedNode _ => "UnexpectedNode"
  | expectedComparison _ => "ExpectedComparison"
  | notBool _ => "InvalidBool"
  | notInt _ => "InvalidInt"
  | incomparable .. => "UnsupportedComparison"
  | tooManyParts _ => "TooManyParts"

def encode (f : EvalFault) : Json :=
  match f with
  | empty => .string f.written
  | unsupported what => .choice f.written (.object [("what", .string what)])
  | unexpectedNode found => .choice f.written (.object [("found", .string found)])
  | expectedComparison found => .choice f.written (.object [("found", .string found)])
  | notBool literal => .choice f.written (.object [("literal", .string literal)])
  | notInt literal => .choice f.written (.object [("literal", .string literal)])
  | incomparable operator lhs rhs =>
    .choice f.written (.object [("operator", .string operator), ("lhs", .string lhs), ("rhs", .string rhs)])
  | tooManyParts count => .choice f.written (.object [("count", .ofNat count)])

def decode? (j : Json) : Option EvalFault :=
  if j.bare? = some "EmptyExpression" then some empty
  else do
    let (name, content) ← j.alternative?
    if name = "NotSupported" then return unsupported (← (← content.named? "what").string?)
    else if name = "UnexpectedNode" then return unexpectedNode (← (← content.named? "found").string?)
    else if name = "ExpectedComparison" then return expectedComparison (← (← content.named? "found").string?)
    else if name = "InvalidBool" then return notBool (← (← content.named? "literal").string?)
    else if name = "InvalidInt" then return notInt (← (← content.named? "literal").string?)
    else if name = "UnsupportedComparison" then
      return incomparable (← (← content.named? "operator").string?) (← (← content.named? "lhs").string?)
        (← (← content.named? "rhs").string?)
    else if name = "TooManyParts" then return tooManyParts (← (← content.named? "count").nat?)
    else none

end EvalFault

namespace Fault

def written : Fault → String
  | parse f => "Parse." ++ f.cause.written
  | eval f => "Eval." ++ f.written
  | cancelled => "Cancelled"
  | unparsed _ => "NotParsed"

def encode : Fault → Json
  | parse f => .choice "Parse" f.encode
  | eval f => .choice "Eval" f.encode
  | cancelled => .string "Cancelled"
  | unparsed template => .choice "NotParsed" (.object [("template_name", .string template)])

def decode? (j : Json) : Option Fault :=
  if j.bare? = some "Cancelled" then some cancelled
  else do
    let (name, content) ← j.alternative?
    if name = "Parse" then return parse (← ParseFault.decode? content)
    else if name = "Eval" then return eval (← EvalFault.decode? content)
    else if name = "NotParsed" then return unparsed (← (← content.named? "template_name").string?)
    else none

end Fault
end Stencil
