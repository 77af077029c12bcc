import Stencil.Tag.Program
/-!
# Readings

A reading is what a parser does in its state, a feed and a journal.  It takes tokens from the feed and ends with a
value, or with a fault, which leaves the feed where the fault was met.  It keeps a journal of what it did besides: which
tags it handed to programs, which conditionals it nested, and what the programs reported.

Tags of one's own may put tokens back, so a reading need not come to an end by itself.  It is given a number of rounds,
and one that has used them up is `exhausted`.
-/
namespace Stencil

inductive Event
  /-- A tag was handed to the program of its name. -/
  | dispatched (name : Token)
  /-- A condition was read as one nested in what the conditional before it does otherwise. -/
  | nested (keyword : Token)
  | observed (o : Observation)
deriving DecidableEq, Repr

/-- An event, and how often the source had been asked for a token before it. -/
structure Entry where
  asked : Nat
  event : Event
deriving DecidableEq, Repr

/-- How far a reading has come.  The journal has its latest entry first. -/
structure Progress where
  feed : Feed
  journal : List Entry
deriving DecidableEq, Repr

inductive Outcome (α : Type)
  | done (a : α) (p : Progress)
  | failed (f : ParseFault) (p : Progress)
  | exhausted (p : Progress)

def Reading (α : Type) := Progress → Outcome α

namespace Reading

def run {α : Type} (x : Reading α) (p : Progress) : Outcome α := x p

instance : Monad Reading where
  pure a := fun p => .done a p
  bind x f := fun p =>
    match x p with
    | .done a q => f a q
    | .failed e q => .failed e q
    | .exhausted q => .exhausted q

def ofFeed {α : Type} (f : Feed → Except ParseFault α × Feed) : Reading α := fun p =>
  match f p.feed with
  | (.ok a, feed) => .done a { p with feed := feed }
  | (.error e, feed) => .failed e { p with feed := feed }

def next : Reading Token := ofFeed Feed.next

def peek : Reading Token := ofFeed Feed.peek

def skipUntil (kind : Kind) : Reading Unit := ofFeed (Feed.skipUntil kind)

def putBack (t : Token) : Reading Unit := fun p => .done () { p with feed := p.feed.putBack t }

def here : Reading Place := fun p => .done p.feed.last p

def fail {α : Type} (f : ParseFault) : Reading α := fun p => .failed f p

def exhausted {α : Type} : Reading α := fun p => .exhausted p

def note (e : Event) : Reading Unit := fun p =>
  .done () { p with journal := ⟨p.feed.asked, e⟩ :: p.journal }

/-- A reading whose fault is its answer. -/
def attempt {α : Type} (x : Reading α) : Reading (Except ParseFault α) := fun p =>
  match x p with
  | .done a q => .done (.ok a) q
  | .failed e q => .done (.error e) q
  | .exhausted q => .exhausted q

def expect (kind : Kind) (expected : String) : Reading Token := do
  let t ← next
  if t.kind = kind then return t else fail (t.unexpected expected)

end Reading

/-- Runs a program, given how to read a tag and a body. -/
def Program.run (tag : Reading Node) (body : String → Reading (List Node)) : Program → Reading Node
  | .give node => pure node
  | .fail f => Reading.fail f
  | .next k => do (k (← Reading.next.attempt)).run tag body
  | .peek k => do (k (← Reading.peek.attempt)).run tag body
  | .putBack t k => do Reading.putBack t; k.run tag body
  | .skipUntil kind k => do (k (← (Reading.skipUntil kind).attempt)).run tag body
  | .here k => do (k (← Reading.here)).run tag body
  | .tag k => do (k (← tag.attempt)).run tag body
  | .body close k => do (k (← (body close).attempt)).run tag body
  | .report o k => do Reading.note (.observed o); k.run tag body

end Stencil
