import Stencil.Condition
/-!
# Rendering

What a node comes out as.  Text and literals come out as themselves and a block as its body.  A conditional comes out as
its body if its condition holds, and as what it does otherwise if not; the other part is not looked at.  A name cannot
come out as anything.

Each node needs leave before it comes out, and the first fault is the result of the whole.  Here there is one answer for
all nodes.
-/
namespace Stencil

mutual

/-- Appends what a node comes out as to `out`. -/
def Node.renderOnto (leave : Bool) (out : String) (node : Node) : Except Fault String :=
  if leave then
    match node with
    | .text _ s => .ok (out ++ s)
    | .string _ s => .ok (out ++ s)
    | .int _ n => .ok (out ++ writeWord n)
    | .comparison _ c => .ok (out ++ c.symbol)
    | .ident _ s => .error (.eval (.unsupported ("resolving identifier '" ++ s ++ "'")))
    | .block _ _ _ body => renderAllOnto leave out body
    | .conditional _ condition body otherwise =>
      match evaluate condition with
      | .error e => .error (.eval e)
      | .ok true => renderAllOnto leave out body
      | .ok false =>
        match otherwise with
        | some node => node.renderOnto leave out
        | none => .ok out
  else .error .cancelled

def renderAllOnto (leave : Bool) (out : String) : List Node → Except Fault String
  | [] => .ok out
  | node :: nodes =>
    match node.renderOnto leave out with
    | .error e => .error e
    | .ok out => renderAllOnto leave out nodes

end

def Node.render (leave : Bool) (node : Node) : Except Fault String := node.renderOnto leave ""

def renderAll (leave : Bool) (nodes : List Node) : Except Fault String := renderAllOnto leave "" nodes

end Stencil
