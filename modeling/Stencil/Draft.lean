import Stencil.Visit
import Stencil.Record
import Stencil.Permit
/-!
# Drafts

A draft is the tree of a template in the making: a name, a registry of tags, and the root nodes of the source it has
parsed last.  Parsing another source replaces them, whether it succeeds or not; after a fault the complete nodes before
it remain to be looked at, but the draft counts as unread and comes out as nothing.  Registering a tag changes later
readings only.
-/
namespace Stencil

structure Draft where
  name : String
  tags : Catalog
  root : List Node
  parsed : Bool

/-- What reading a source left behind, and what was said while it was read. -/
structure Report where
  transcript : Transcript
  records : List Record

namespace Draft

def fresh (name : String) (tags : Catalog) : Draft := ⟨name, tags, [], false⟩

def register (d : Draft) (tag : String) (program : Program) : Draft × List Record :=
  let registering := [Record.mk .debug ("registering tag '" ++ tag ++ "'")]
  let replacing :=
    if d.tags.contains tag then
      [Record.mk .warn ("tag '" ++ tag ++ "' was already registered and has been replaced")]
    else []
  ({ d with tags := d.tags.register tag program }, registering ++ replacing)

/-- Reads a source in place of the last one. -/
def parseSupply (d : Draft) (s : Supply) : Draft × Report :=
  let t := Transcript.ofTokens d.tags s.tokens
  let started := Record.mk .debug (d.name ++ ": parsing")
  let finished :=
    if t.fault.isSome then []
    else [Record.mk .debug (d.name ++ ": parsed " ++ toString t.root.length ++ " root nodes")]
  ({ d with root := t.root, parsed := t.fault.isNone },
    ⟨t, started :: t.records s ++ finished⟩)

def parseTokens (d : Draft) (tokens : List Token) : Draft × Report := d.parseSupply (.silent tokens)

def parse (d : Draft) (source : String) : Draft × Report := d.parseSupply (.ofScan d.name source)

theorem transcript_parseSupply (d : Draft) (s : Supply) :
    (d.parseSupply s).2.transcript = Transcript.ofTokens d.tags s.tokens := rfl

theorem root_parseSupply (d : Draft) (s : Supply) :
    (d.parseSupply s).1.root = (Transcript.ofTokens d.tags s.tokens).root := rfl

theorem parsed_parseSupply (d : Draft) (s : Supply) :
    (d.parseSupply s).1.parsed = (Transcript.ofTokens d.tags s.tokens).fault.isNone := rfl

theorem transcript_scan (d : Draft) (source : String) :
    (d.parse source).2.transcript = Transcript.ofTokens d.tags (scan source) := by
  rw [parse, transcript_parseSupply, Supply.tokens_ofScan]

theorem root_scan (d : Draft) (source : String) :
    (d.parse source).1.root = (Transcript.ofTokens d.tags (scan source)).root := by
  rw [parse, root_parseSupply, Supply.tokens_ofScan]

theorem parsed_scan (d : Draft) (source : String) :
    (d.parse source).1.parsed = (Transcript.ofTokens d.tags (scan source)).fault.isNone := by
  rw [parse, parsed_parseSupply, Supply.tokens_ofScan]

def nodes (d : Draft) : Except Fault (List Node) :=
  if d.parsed then .ok d.root else .error (.unparsed d.name)

def render (d : Draft) (leave : Bool) : Except Fault String := do renderAll leave (← d.nodes)

def renderWhile (d : Draft) (leave : Nat → Bool) : Except Fault String := do
  return (← renderAllWhile leave 0 "" (← d.nodes)).1

theorem renderWhile_const (d : Draft) (leave : Bool) : d.renderWhile (fun _ => leave) = d.render leave := by
  unfold renderWhile render
  rcases d.nodes with e | nodes
  · rfl
  · exact renderAllWhile_const leave nodes 0 ""

def walk {Memory Role : Type} (d : Draft) (v : Visitor Memory Role) (role : Role) (memory : Memory) :
    Except Fault Memory := do return v.visitAll role memory (← d.nodes)

def outline (d : Draft) (o : Outline) : Except Fault (List OutlineItem) := do return o.items (← d.nodes)

theorem outline_eq_walk (d : Draft) (o : Outline) : d.outline o = (d.walk o.visitor 0 #[]).map Array.toList := by
  unfold outline walk
  cases d.nodes <;> rfl

end Draft
end Stencil
