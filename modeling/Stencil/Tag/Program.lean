import Stencil.Feed
import Stencil.Node
/-!
# Tag programs

A tag of one's own is a plugin of the parser, a program that reads what follows the tag's name: its arguments, the
closing delimiter and, if it has one, its body and the tag that closes it.  A program takes one step of the parser after
another and is told the answer, a fault included, so it may go on after a fault or give up with it.  It ends with the
node that the tag stands for, or with a fault.

A program is finite: whatever the answers, it asks only finitely often.  While it runs it may report what it sees.
-/
namespace Stencil

inductive Observation
  | token (t : Token)
  | place (p : Place)
  | fault (f : ParseFault)
deriving DecidableEq, Repr

inductive Program
  | give (node : Node)
  | fail (f : ParseFault)
  | next (k : Except ParseFault Token → Program)
  | peek (k : Except ParseFault Token → Program)
  | putBack (t : Token) (k : Program)
  | skipUntil (kind : Kind) (k : Except ParseFault Unit → Program)
  | here (k : Place → Program)
  | tag (k : Except ParseFault Node → Program)
  | body (close : String) (k : Except ParseFault (List Node) → Program)
  | report (o : Observation) (k : Program)

namespace Program

/-- A program that puts nothing back, whatever it is told. -/
inductive NeverPutsBack : Program → Prop
  | give (node : Node) : NeverPutsBack (.give node)
  | fail (f : ParseFault) : NeverPutsBack (.fail f)
  | next (k : Except ParseFault Token → Program) (h : ∀ r, NeverPutsBack (k r)) : NeverPutsBack (.next k)
  | peek (k : Except ParseFault Token → Program) (h : ∀ r, NeverPutsBack (k r)) : NeverPutsBack (.peek k)
  | skipUntil (kind : Kind) (k : Except ParseFault Unit → Program) (h : ∀ r, NeverPutsBack (k r)) :
    NeverPutsBack (.skipUntil kind k)
  | here (k : Place → Program) (h : ∀ p, NeverPutsBack (k p)) : NeverPutsBack (.here k)
  | tag (k : Except ParseFault Node → Program) (h : ∀ r, NeverPutsBack (k r)) : NeverPutsBack (.tag k)
  | body (close : String) (k : Except ParseFault (List Node) → Program) (h : ∀ r, NeverPutsBack (k r)) :
    NeverPutsBack (.body close k)
  | report (o : Observation) (k : Program) (h : NeverPutsBack k) : NeverPutsBack (.report o k)

/-- A tag that encloses a body: whatever follows its name is skipped, `end` and its name close the body, and it stands
for a block of its name. -/
def enclosing (name : String) : Program :=
  .here fun p => .skipUntil .tagEnd fun
    | .error f => .fail f
    | .ok _ => .body ("end" ++ name) fun
      | .error f => .fail f
      | .ok nodes => .give (.block p.offset name [] nodes)

/-! ## Tags that enclose a body -/

/-- A program that only looks at tokens and places and reports, until it is one of which `P` holds or meets a fault. -/
inductive Leads (P : Program → Prop) : Program → Prop
  | there {program : Program} (h : P program) : Leads P program
  | here (k : Place → Program) (h : ∀ p, Leads P (k p)) : Leads P (.here k)
  | peek (k : Except ParseFault Token → Program) (h : ∀ t, Leads P (k (.ok t))) : Leads P (.peek k)
  | report (o : Observation) (k : Program) (h : Leads P k) : Leads P (.report o k)

def GivesBlock (name : String) (nodes : List Node) : Program → Prop :=
  Leads fun program => ∃ start, program = .give (.block start name [] nodes)

def ReadsBody (name : String) : Program → Prop :=
  Leads fun program => ∃ k, program = .body ("end" ++ name) k ∧ ∀ nodes, (k (.ok nodes)).GivesBlock name nodes

/-- The program of a tag that encloses a body as `enclosing` does.  Where its block starts and what comes of a fault are
its own affair. -/
def Encloses (name : String) : Program → Prop :=
  Leads fun program => ∃ k, program = .skipUntil .tagEnd k ∧ (k (.ok ())).ReadsBody name

theorem encloses_enclosing (name : String) : (enclosing name).Encloses name :=
  .here _ fun p => .there ⟨_, rfl, .there ⟨_, rfl, fun _ => .there ⟨p.offset, rfl⟩⟩⟩

end Program
end Stencil
