import Stencil.Fault
import Stencil.Node
/-!
# Conditions

What the expression of a conditional is worth when it is evaluated.  A single literal is worth its truth: an integer
unless it is zero, a string if it spells a truth value.  Three parts are worth the comparison in the middle, of which
there is one kind only: equality of an integer on the left with an integer, or a string that spells one, on the right.

Nothing else is worth anything.  A name stands for nothing yet, and a condition of any other shape is a fault, never
simply false.
-/
namespace Stencil

inductive Operand
  | int (n : Int64)
  | string (s : String)
  | name (s : String)
deriving DecidableEq, Repr

namespace Operand

def ofNode : Node → Except EvalFault Operand
  | .int _ n => .ok (.int n)
  | .string _ s => .ok (.string s)
  | .ident _ s => .ok (.name s)
  | node => .error (.unexpectedNode node.summary)

def isName : Operand → Bool
  | name _ => true
  | _ => false

def summary : Operand → String
  | int n => writeWord n
  | string s => quoted s
  | name s => s

end Operand

def unresolvedName : EvalFault := .unsupported "identifier resolution"

def truth (node : Node) : Except EvalFault Bool :=
  match Operand.ofNode node with
  | .error e => .error e
  | .ok (.int n) => .ok (n != 0)
  | .ok (.string s) =>
    if s = "true" then .ok true
    else if s = "false" then .ok false
    else .error (.notBool s)
  | .ok (.name _) => .error unresolvedName

def compareOperands (operator : Comparison) (lhs rhs : Operand) : Except EvalFault Bool :=
  if lhs.isName || rhs.isName then .error unresolvedName
  else
    match operator, lhs, rhs with
    | .equal, .int a, .int b => .ok (a == b)
    | .equal, .int a, .string s =>
      match readWord? s with
      | some b => .ok (b == a)
      | none => .error (.notInt s)
    | _, _, _ => .error (.incomparable operator.symbol lhs.summary rhs.summary)

/-- A comparison of two nodes.  The operator is looked at first, then the left operand, then the right one. -/
def compareNodes (lhs middle rhs : Node) : Except EvalFault Bool :=
  match middle with
  | .comparison _ operator => do
    let l ← Operand.ofNode lhs
    let r ← Operand.ofNode rhs
    compareOperands operator l r
  | _ => .error (.expectedComparison middle.summary)

def isConnective : Node → Bool
  | .ident _ s => s == "and" || s == "or"
  | _ => false

def evaluate : List Node → Except EvalFault Bool
  | [] => .error .empty
  | [node] => truth node
  | [_, _] => .error (.unsupported "'not'")
  | [lhs, middle, rhs] => compareNodes lhs middle rhs
  | parts =>
    if parts.any isConnective then .error (.unsupported "'and'/'or' combination")
    else .error (.tooManyParts parts.length)

end Stencil
