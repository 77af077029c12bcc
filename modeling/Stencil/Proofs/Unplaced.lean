import Stencil.Permit
/-!
# Nodes without their places

What a node comes out as does not depend on where it stood: `Node.unplaced` forgets the offsets at which a node and all
that is below it start, and a node without them comes out the same.  What nodes come out as one after another is what each
comes out as, in order, up to the first fault.
-/
namespace Stencil

mutual

/-- A node that does not know where it stood, nor where what is below it did. -/
def Node.unplaced : Node → Node
  | .text _ s => .text 0 s
  | .string _ s => .string 0 s
  | .int _ n => .int 0 n
  | .ident _ s => .ident 0 s
  | .comparison _ c => .comparison 0 c
  | .block _ name arguments body => .block 0 name (unplacedAll arguments) (unplacedAll body)
  | .conditional _ condition body none => .conditional 0 (unplacedAll condition) (unplacedAll body) none
  | .conditional _ condition body (some node) =>
    .conditional 0 (unplacedAll condition) (unplacedAll body) (some node.unplaced)

def unplacedAll : List Node → List Node
  | [] => []
  | node :: nodes => node.unplaced :: unplacedAll nodes

end

theorem unplacedAll_eq_map : ∀ nodes : List Node, unplacedAll nodes = nodes.map Node.unplaced
  | [] => rfl
  | node :: nodes => congrArg (node.unplaced :: ·) (unplacedAll_eq_map nodes)

theorem length_unplacedAll (nodes : List Node) : (unplacedAll nodes).length = nodes.length := by
  rw [unplacedAll_eq_map, List.length_map]

/-! ## Conditions -/

theorem summary_unplaced (node : Node) : node.unplaced.summary = node.summary := by
  cases node with
  | conditional _ _ _ otherwise => cases otherwise <;> simp only [Node.unplaced, Node.summary, length_unplacedAll]
  | _ => rfl

theorem ofNode_unplaced (node : Node) : Operand.ofNode node.unplaced = Operand.ofNode node := by
  have h := summary_unplaced node
  cases node with
  | conditional _ _ _ otherwise =>
    cases otherwise <;> exact congrArg (fun s => Except.error (EvalFault.unexpectedNode s)) h
  | _ => rfl

theorem isConnective_unplaced (node : Node) : isConnective node.unplaced = isConnective node := by
  cases node with
  | conditional _ _ _ otherwise => cases otherwise <;> rfl
  | _ => rfl

theorem compareNodes_unplaced (lhs middle rhs : Node) :
    compareNodes lhs.unplaced middle.unplaced rhs.unplaced = compareNodes lhs middle rhs := by
  have h := summary_unplaced middle
  cases middle with
  | comparison => simp only [compareNodes, Node.unplaced, ofNode_unplaced]
  | conditional _ _ _ otherwise =>
    cases otherwise <;> exact congrArg (fun s => Except.error (EvalFault.expectedComparison s)) h
  | _ => rfl

theorem evaluate_of_length : ∀ {nodes : List Node}, 3 < nodes.length →
    evaluate nodes =
      if nodes.any isConnective then .error (.unsupported "'and'/'or' combination")
      else .error (.tooManyParts nodes.length)
  | [], h | [_], h | [_, _], h | [_, _, _], h => absurd h (by simp)
  | _ :: _ :: _ :: _ :: _, _ => rfl

theorem evaluate_unplacedAll : ∀ nodes : List Node, evaluate (unplacedAll nodes) = evaluate nodes
  | [] => rfl
  | [node] => by
    show truth node.unplaced = truth node
    rw [truth, truth, ofNode_unplaced]
  | [_, _] => rfl
  | [lhs, middle, rhs] => compareNodes_unplaced lhs middle rhs
  | a :: b :: c :: d :: nodes => by
    have hlen := length_unplacedAll (a :: b :: c :: d :: nodes)
    have hmany : 3 < (a :: b :: c :: d :: nodes).length := by simp
    rw [evaluate_of_length hmany, evaluate_of_length (by rw [hlen]; exact hmany), hlen, unplacedAll_eq_map, List.any_map,
      show isConnective ∘ Node.unplaced = isConnective from funext isConnective_unplaced]

/-! ## Rendering -/

mutual

theorem renderOnto_unplaced (leave : Bool) : ∀ (node : Node) (out : String),
    node.unplaced.renderOnto leave out = node.renderOnto leave out
  | .text _ _, _ => rfl
  | .string _ _, _ => rfl
  | .int _ _, _ => rfl
  | .ident _ _, _ => rfl
  | .comparison _ _, _ => rfl
  | .block _ _ _ body, out => by
    rw [Node.unplaced, Node.renderOnto, Node.renderOnto, renderAllOnto_unplaced leave body out]
  | .conditional _ condition body none, out => by
    rw [Node.unplaced, Node.renderOnto, Node.renderOnto, evaluate_unplacedAll, renderAllOnto_unplaced leave body out]
  | .conditional _ condition body (some node), out => by
    rw [Node.unplaced, Node.renderOnto, Node.renderOnto, evaluate_unplacedAll, renderAllOnto_unplaced leave body out]
    simp only [renderOnto_unplaced leave node out]

theorem renderAllOnto_unplaced (leave : Bool) : ∀ (nodes : List Node) (out : String),
    renderAllOnto leave out (unplacedAll nodes) = renderAllOnto leave out nodes
  | [], _ => rfl
  | node :: nodes, out => by
    rw [unplacedAll, renderAllOnto, renderAllOnto, renderOnto_unplaced leave node out]
    split
    · rfl
    · exact renderAllOnto_unplaced leave nodes _

end

mutual

theorem renderOnto_append (leave : Bool) (pre : String) : ∀ (node : Node) (out : String),
    node.renderOnto leave (pre ++ out) = (node.renderOnto leave out).map (pre ++ ·)
  | .text _ _, _ | .string _ _, _ | .int _ _, _ | .comparison _ _, _ => by
    cases leave
    · rfl
    · exact congrArg Except.ok (String.append_assoc ..)
  | .ident _ _, _ => by cases leave <;> rfl
  | .block _ _ _ body, out => by
    rw [Node.renderOnto, Node.renderOnto, renderAllOnto_append leave pre body out]
    split <;> rfl
  | .conditional _ condition body none, out => by
    rw [Node.renderOnto, Node.renderOnto, renderAllOnto_append leave pre body out]
    split
    · split <;> rfl
    · rfl
  | .conditional _ condition body (some node), out => by
    rw [Node.renderOnto, Node.renderOnto, renderAllOnto_append leave pre body out]
    simp only [renderOnto_append leave pre node out]
    split
    · split <;> rfl
    · rfl

theorem renderAllOnto_append (leave : Bool) (pre : String) : ∀ (nodes : List Node) (out : String),
    renderAllOnto leave (pre ++ out) nodes = (renderAllOnto leave out nodes).map (pre ++ ·)
  | [], _ => rfl
  | node :: nodes, out => by
    rw [renderAllOnto, renderAllOnto, renderOnto_append leave pre node out]
    cases node.renderOnto leave out with
    | error e => rfl
    | ok s => exact renderAllOnto_append leave pre nodes s

end

/-- Nodes one after another: the second lot comes out behind the first, and only if that came out at all. -/
theorem renderAllOnto_append_nodes (leave : Bool) : ∀ (as bs : List Node) (out : String),
    renderAllOnto leave out (as ++ bs) = (renderAllOnto leave out as).bind fun out => renderAllOnto leave out bs
  | [], _, _ => rfl
  | a :: as, bs, out => by
    rw [List.cons_append, renderAllOnto, renderAllOnto]
    cases a.renderOnto leave out with
    | error e => rfl
    | ok out => exact renderAllOnto_append_nodes leave as bs out

/-- **Nodes one after another come out as the first lot, then the second, up to the first fault.** -/
theorem renderAll_append (leave : Bool) (as bs : List Node) :
    renderAll leave (as ++ bs) = do return (← renderAll leave as) ++ (← renderAll leave bs) := by
  rw [renderAll, renderAllOnto_append_nodes]
  show (renderAll leave as).bind _ = _
  cases renderAll leave as with
  | error e => rfl
  | ok x =>
    have h := renderAllOnto_append leave x bs ""
    rw [String.append_empty] at h
    show renderAllOnto leave x bs = _
    rw [h]
    show (renderAll leave bs).map (x ++ ·) = _
    cases renderAll leave bs <;> rfl

theorem renderAll_merge (leave : Bool) (as bs : List Node) (m p q : Nat) (x y : String) :
    renderAll leave (as ++ .text m (x ++ y) :: bs) = renderAll leave (as ++ [.text p x] ++ .text q y :: bs) := by
  have htwo : ∀ out : String, renderAllOnto leave out (.text m (x ++ y) :: bs) =
      renderAllOnto leave out (.text p x :: .text q y :: bs) := by
    intro out
    cases leave
    · rfl
    · show renderAllOnto true (out ++ (x ++ y)) bs = renderAllOnto true (out ++ x ++ y) bs
      rw [String.append_assoc]
  rw [List.append_assoc, List.singleton_append, renderAll, renderAll, renderAllOnto_append_nodes, renderAllOnto_append_nodes]
  exact congrArg _ (funext htwo)

theorem renderAll_of_unplacedAll_eq (leave : Bool) {as bs : List Node} (h : unplacedAll as = unplacedAll bs) :
    renderAll leave as = renderAll leave bs := by
  rw [renderAll, ← renderAllOnto_unplaced, h, renderAllOnto_unplaced, renderAll]

end Stencil
