import Stencil.Feed
import Stencil.Node
import Stencil.Text.Literal
/-!
# Reading a condition

A condition is what stands in the tag of a conditional: literals, names and comparisons, in any order and number, up to
the closing delimiter.  Whether they make sense together shows only when the condition is evaluated.
-/
namespace Stencil

def Token.operand (t : Token) : Except ParseFault Node :=
  match t.kind with
  | .string => .ok (.string t.place.offset (literalValue t.text))
  | .number =>
    match readWord? t.text with
    | some n => .ok (.int t.place.offset n)
    | none => .error (t.fault (.invalidNumber t.text))
  | .comparison =>
    match Comparison.ofSymbol? t.text with
    | some c => .ok (.comparison t.place.offset c)
    | none => .error (t.unexpected "comparison operator")
  | .identifier => .ok (.ident t.place.offset t.text)
  | .endOfInput => .error (t.endedBefore "'%\x7d'")
  | _ => .error (t.unexpected "string, number, comparison or identifier in expression")

theorem Token.kind_ne_of_operand {t : Token} {node : Node} (h : t.operand = .ok node) : t.kind ≠ .endOfInput := by
  intro hk
  unfold Token.operand at h
  rw [hk] at h
  cases h

/-- Takes a condition and its closing delimiter. -/
def Feed.condition (f : Feed) : Except ParseFault (List Node) × Feed :=
  match _h : f.next with
  | (.error e, g) => (.error e, g)
  | (.ok t, g) =>
    if t.kind = .tagEnd then (.ok [], g)
    else
      match _ho : t.operand with
      | .error e => (.error e, g)
      | .ok node =>
        match g.condition with
        | (.ok nodes, g') => (.ok (node :: nodes), g')
        | (.error e, g') => (.error e, g')
termination_by f.unread
decreasing_by exact unread_lt_of_next _h (Token.kind_ne_of_operand _ho)

theorem Feed.condition_eq (f : Feed) :
    f.condition = match f.next with
      | (.error e, g) => (.error e, g)
      | (.ok t, g) =>
        if t.kind = .tagEnd then (.ok [], g)
        else
          match t.operand with
          | .error e => (.error e, g)
          | .ok node =>
            match g.condition with
            | (.ok nodes, g') => (.ok (node :: nodes), g')
            | (.error e, g') => (.error e, g') := by
  rw [condition]
  split <;> rename_i heq <;> simp only [heq]
  split
  · rfl
  · split <;> rename_i ho <;> simp only [ho]

end Stencil
