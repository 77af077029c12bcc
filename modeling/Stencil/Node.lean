import Stencil.Text.Literal
/-!
# Nodes

What a template consists of once it has been read: text, blocks and conditionals, and inside a condition literals, names
and comparisons.  Every node keeps the offset in the source at which it starts.

A block without a name groups nodes: it is what a conditional does otherwise.

A comparison is only read and shown here; what it is worth between two values is a matter of conditions.
-/
namespace Stencil

/-! ## Comparisons -/

inductive Comparison
  | equal | notEqual | greater | greaterOrEqual | less | lessOrEqual
deriving DecidableEq, Repr, Inhabited

namespace Comparison

def symbol : Comparison → String
  | equal => "=="
  | notEqual => "!="
  | greater => ">"
  | greaterOrEqual => ">="
  | less => "<"
  | lessOrEqual => "<="

def ofSymbol? (s : String) : Option Comparison :=
  if s = "==" then some equal
  else if s = "!=" then some notEqual
  else if s = ">" then some greater
  else if s = ">=" then some greaterOrEqual
  else if s = "<" then some less
  else if s = "<=" then some lessOrEqual
  else none

theorem ofSymbol?_symbol (c : Comparison) : ofSymbol? c.symbol = some c := by
  cases c <;> rfl

theorem symbol_of_ofSymbol? {s : String} {c : Comparison} (h : ofSymbol? s = some c) : c.symbol = s := by
  unfold ofSymbol? at h
  repeat' split at h
  all_goals cases h <;> simp_all [symbol]

theorem ofSymbol?_eq_some_iff {s : String} {c : Comparison} : ofSymbol? s = some c ↔ s = c.symbol :=
  ⟨fun h => (symbol_of_ofSymbol? h).symm, fun h => h ▸ ofSymbol?_symbol c⟩

end Comparison

/-! ## Nodes -/

inductive Node
  | text (start : Nat) (text : String)
  | string (start : Nat) (value : String)
  | int (start : Nat) (value : Int64)
  | ident (start : Nat) (name : String)
  | comparison (start : Nat) (operator : Comparison)
  | block (start : Nat) (name : String) (arguments body : List Node)
  | conditional (start : Nat) (condition body : List Node) (otherwise : Option Node)
deriving Repr, Inhabited

namespace Node

/-- The offset at which a node starts. -/
def start : Node → Nat
  | text start _ | string start _ | int start _ | ident start _ | comparison start _ => start
  | block start _ _ _ => start
  | conditional start _ _ _ => start

def group (start : Nat) (body : List Node) : Node := .block start "" [] body

/-- Whether a node is a group; nothing for a node that is no block. -/
def isGroup? : Node → Option Bool
  | block _ name _ _ => some name.isEmpty
  | _ => none

def sort : Node → String
  | text .. => "text"
  | string .. => "string"
  | int .. => "int"
  | ident .. => "identifier"
  | comparison .. => "comparison"
  | block .. => "block"
  | conditional .. => "if"

/-- The nodes directly below a node, in order: of a conditional the condition, then the body, then what it does
otherwise.  The arguments of a block are not among them. -/
def children : Node → List Node
  | block _ _ _ body => body
  | conditional _ condition body otherwise => condition ++ body ++ otherwise.toList
  | _ => []

def summary : Node → String
  | text _ s => "text " ++ quoted s
  | string _ s => "string " ++ quoted s
  | int _ n => "int " ++ writeWord n
  | ident _ s => "identifier " ++ s
  | comparison _ c => "comparison " ++ c.symbol
  | block _ name _ _ => if name.isEmpty then "anonymous block" else "block " ++ name
  | conditional _ condition _ _ => "if (" ++ toString condition.length ++ " expression nodes)"

theorem sizeOf_lt_of_mem_children {n m : Node} (h : m ∈ n.children) : sizeOf m < sizeOf n := by
  cases n with
  | text | string | int | ident | comparison => simp [children] at h
  | block start name arguments body =>
    have := List.sizeOf_lt_of_mem (show m ∈ body from h)
    simp only [block.sizeOf_spec]
    omega
  | conditional start condition body otherwise =>
    simp only [children, List.mem_append, Option.mem_toList] at h
    simp only [conditional.sizeOf_spec]
    rcases h with (h | h) | h
    · have := List.sizeOf_lt_of_mem h
      omega
    · have := List.sizeOf_lt_of_mem h
      omega
    · subst h
      simp only [Option.some.sizeOf_spec]
      omega

end Node

end Stencil
