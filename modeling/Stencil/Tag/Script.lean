import Stencil.Tag.Program
/-!
# Tags written as scripts

A script is a tag written down as data: a list of steps and what the tag stands for in the end.  A script holds at most
one token, the one it saw last, and gathers arguments and a body as it goes.  A step that meets a fault ends the script
with that fault, unless it is lenient: then the fault is reported and the next step follows.
-/
namespace Stencil

inductive Action
  | next
  | peek
  /-- Puts back the token that is held. -/
  | release
  | putBack (t : Token)
  | skipUntil (kind : Kind)
  | expect (kind : Kind) (what : String)
  | argument
  | tag
  | body (close : String)
  | place
  | fail (message : String)
deriving DecidableEq, Repr

structure Step where
  action : Action
  lenient : Bool
deriving DecidableEq, Repr

/-- What a script stands for: a node, a text at its start, or a block of what it gathered. -/
inductive Ending
  | node (n : Node)
  | text (s : String)
  | block (name : String)

structure Script where
  steps : List Step
  ending : Ending

structure Gathered where
  held : Option Token
  arguments : List Node
  body : List Node

namespace Gathered

def nothing : Gathered := ⟨none, [], []⟩

def hold (g : Gathered) (t : Token) : Gathered := { g with held := some t }

def addBody (g : Gathered) (nodes : List Node) : Gathered := { g with body := g.body ++ nodes }

def addArgument (g : Gathered) : Gathered :=
  match g.held with
  | some t => { g with arguments := g.arguments ++ [.ident t.place.offset t.text] }
  | none => g

end Gathered

def Ending.toNode (start : Nat) (g : Gathered) : Ending → Node
  | .node n => n
  | .text s => .text start s
  | .block name => .block start name g.arguments g.body

namespace Script

/-- Meets a fault: a lenient step reports it and goes on. -/
def meet (lenient : Bool) (f : ParseFault) (k : Program) : Program :=
  if lenient then .report (.fault f) k else .fail f

def follow (start : Nat) (ending : Ending) : List Step → Gathered → Program
  | [], g => .give (ending.toNode start g)
  | ⟨action, lenient⟩ :: rest, g =>
    match action with
    | .next => .next fun
      | .ok t => .report (.token t) (follow start ending rest (g.hold t))
      | .error f => meet lenient f (follow start ending rest g)
    | .peek => .peek fun
      | .ok t => .report (.token t) (follow start ending rest (g.hold t))
      | .error f => meet lenient f (follow start ending rest g)
    | .release =>
      match g.held with
      | some t => .putBack t (follow start ending rest { g with held := none })
      | none => follow start ending rest g
    | .putBack t => .putBack t (follow start ending rest g)
    | .skipUntil kind => .skipUntil kind fun
      | .ok _ => follow start ending rest g
      | .error f => meet lenient f (follow start ending rest g)
    | .expect kind what => .next fun
      | .ok t =>
        if t.kind = kind then follow start ending rest (g.hold t)
        else meet lenient (t.unexpected what) (follow start ending rest g)
      | .error f => meet lenient f (follow start ending rest g)
    | .argument => follow start ending rest g.addArgument
    | .tag => .tag fun
      | .ok node => follow start ending rest (g.addBody [node])
      | .error f => meet lenient f (follow start ending rest g)
    | .body close => .body close fun
      | .ok nodes => follow start ending rest (g.addBody nodes)
      | .error f => meet lenient f (follow start ending rest g)
    | .place => .here fun p => .report (.place p) (follow start ending rest g)
    | .fail message => .here fun p => meet lenient ⟨p, .custom message⟩ (follow start ending rest g)

/-- A script as a program.  It starts at the place of the token taken last, which is the name of its tag. -/
def program (s : Script) : Program := .here fun p => follow p.offset s.ending s.steps .nothing

end Script
end Stencil
