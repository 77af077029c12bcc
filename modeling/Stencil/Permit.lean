import Stencil.Render
/-!
# Permits

A permit is the context that a template is executed in: nodes come out as long as that is permitted.  A permit holds
until it is withdrawn, which is a cancellation, and one with an expiry, or deadline, only before that time, so leave may
run out while nodes come out.  What is given then is whether there is still leave once a number of nodes have asked for
it; where that does not change it is one answer for all of them (`renderAllWhile_const`).
-/
namespace Stencil

structure Permit where
  withdrawn : Bool
  expiry : Option Nat
deriving DecidableEq, Repr, Inhabited

namespace Permit

def unlimited : Permit := ⟨false, none⟩

def upTo (time : Nat) : Permit := ⟨false, some time⟩

def withdraw (p : Permit) : Permit := { p with withdrawn := true }

def holds (p : Permit) (now : Nat) : Bool := !p.withdrawn && p.expiry.all (now < ·)

end Permit

/-! ## Rendering while there is leave -/

mutual

/-- Appends what a node comes out as to `out` while there is leave, and counts the nodes that asked for it. -/
def Node.renderWhile (leave : Nat → Bool) (asked : Nat) (out : String) (node : Node) : Except Fault (String × Nat) :=
  if leave asked then
    match node with
    | .text _ s => .ok (out ++ s, asked + 1)
    | .string _ s => .ok (out ++ s, asked + 1)
    | .int _ n => .ok (out ++ writeWord n, asked + 1)
    | .comparison _ c => .ok (out ++ c.symbol, asked + 1)
    | .ident _ s => .error (.eval (.unsupported ("resolving identifier '" ++ s ++ "'")))
    | .block _ _ _ body => renderAllWhile leave (asked + 1) out body
    | .conditional _ condition body otherwise =>
      match evaluate condition with
      | .error e => .error (.eval e)
      | .ok true => renderAllWhile leave (asked + 1) out body
      | .ok false =>
        match otherwise with
        | some node => node.renderWhile leave (asked + 1) out
        | none => .ok (out, asked + 1)
  else .error .cancelled

def renderAllWhile (leave : Nat → Bool) (asked : Nat) (out : String) : List Node → Except Fault (String × Nat)
  | [] => .ok (out, asked)
  | node :: nodes =>
    match node.renderWhile leave asked out with
    | .error e => .error e
    | .ok (out, asked) => renderAllWhile leave asked out nodes

end

mutual

theorem Node.renderWhile_const (leave : Bool) : ∀ (node : Node) (asked : Nat) (out : String),
    (node.renderWhile (fun _ => leave) asked out).map Prod.fst = node.renderOnto leave out
  | .text _ _, _, _ | .string _ _, _, _ | .int _ _, _, _ | .comparison _ _, _, _ | .ident _ _, _, _ => by
    rw [Node.renderWhile, Node.renderOnto]
    split <;> rfl
  | .block _ _ _ body, asked, out => by
    rw [Node.renderWhile, Node.renderOnto, ← renderAllWhile_const leave body (asked + 1) out]
    split <;> rfl
  | .conditional _ condition body none, asked, out => by
    rw [Node.renderWhile, Node.renderOnto, ← renderAllWhile_const leave body (asked + 1) out]
    split
    · cases evaluate condition with
      | error e => rfl
      | ok holds => cases holds <;> rfl
    · rfl
  | .conditional _ condition body (some node), asked, out => by
    rw [Node.renderWhile, Node.renderOnto, ← renderAllWhile_const leave body (asked + 1) out]
    split
    · cases evaluate condition with
      | error e => rfl
      | ok holds =>
        cases holds with
        | true => rfl
        | false => exact Node.renderWhile_const leave node (asked + 1) out
    · rfl

theorem renderAllWhile_const (leave : Bool) : ∀ (nodes : List Node) (asked : Nat) (out : String),
    (renderAllWhile (fun _ => leave) asked out nodes).map Prod.fst = renderAllOnto leave out nodes
  | [], _, _ => rfl
  | node :: nodes, asked, out => by
    rw [renderAllWhile, renderAllOnto, ← Node.renderWhile_const leave node asked out]
    rcases node.renderWhile (fun _ => leave) asked out with e | ⟨out, asked⟩
    · rfl
    · exact renderAllWhile_const leave nodes asked out

end

end Stencil
