import Stencil.Node
/-!
# Visiting nodes

A visitor is a walker over the tree: it looks at one node after another, parents before their children and siblings in
order.  It carries a memory from each node to the next, and it comes to each node in a role: at a node it decides
whether to go below it, and in what role.  Siblings are visited in the same role, whatever it decided at those before.
-/
namespace Stencil

structure Visitor (Memory Role : Type) where
  look : Role → Memory → Node → Memory × Option Role

namespace Visitor

variable {Memory Role : Type}

/-- Visits a node and what the visitor wants to see below it. -/
def visit (v : Visitor Memory Role) (role : Role) (memory : Memory) (node : Node) : Memory :=
  match v.look role memory node with
  | (memory, none) => memory
  | (memory, some role) => node.children.attach.foldl (fun memory ⟨child, _⟩ => v.visit role memory child) memory
termination_by sizeOf node
decreasing_by exact Node.sizeOf_lt_of_mem_children (by assumption)

def visitAll (v : Visitor Memory Role) (role : Role) (memory : Memory) (nodes : List Node) : Memory :=
  nodes.foldl (v.visit role) memory

theorem visit_eq (v : Visitor Memory Role) (role : Role) (memory : Memory) (node : Node) :
    v.visit role memory node =
      match v.look role memory node with
      | (memory, none) => memory
      | (memory, some role) => v.visitAll role memory node.children := by
  rw [visit]
  split
  · rfl
  · rw [visitAll]
    exact List.foldl_attach

end Visitor

/-! ## Outlines

An outline lists the nodes it comes to, with how deep each one stands.  It can be told to leave out what is below nodes
of some sorts, below some depth, and below every node once it has become long. -/

structure Outline where
  skip : List String
  maxDepth : Option Nat
  stopAfter : Option Nat

structure OutlineItem where
  depth : Nat
  start : Nat
  summary : String
deriving DecidableEq, Repr

namespace Outline

/-- Whether an outline leaves out what is below a node, once it has `size` lines. -/
def stopsAt (o : Outline) (depth size : Nat) (node : Node) : Bool :=
  o.skip.contains node.sort || o.maxDepth.any (· ≤ depth) || o.stopAfter.any (· < size)

def visitor (o : Outline) : Visitor (Array OutlineItem) Nat where
  look depth items node :=
    let items := items.push ⟨depth, node.start, node.summary⟩
    (items, if o.stopsAt depth items.size node then none else some (depth + 1))

def items (o : Outline) (nodes : List Node) : List OutlineItem := (o.visitor.visitAll 0 #[] nodes).toList

end Outline

end Stencil
