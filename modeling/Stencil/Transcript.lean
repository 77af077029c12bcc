import Stencil.Reading.Grammar
/-!
# Transcripts

A transcript is what parsing one source leaves behind, in the tree and in the log: the nodes that were complete, the
fault that ended the reading, if one did, and the journal.
-/
namespace Stencil

def Event.dispatched? : Event → Option Token
  | .dispatched name => some name
  | .nested _ => none
  | .observed _ => none

structure Transcript where
  /-- The nodes that were complete, up to the first fault. -/
  root : List Node
  fault : Option ParseFault
  journal : List Entry
  /-- How often the source was asked for a token. -/
  asked : Nat

namespace Transcript

/-- The rounds for a source of `n` tokens.  Unless tags put tokens back a few for each token are enough.  Tags that do may
put back ever so many and still come to an end, so there are far more rounds than such a reading can have time for.  The
sum is over `n`, so that no proof counts the rounds down where `n` is not known. -/
def rounds (n : Nat) : Nat := Nat.repeat (· + 0x100000000) n 0x100000000

theorem lt_rounds (n : Nat) : n < rounds n := by
  induction n with
  | zero => decide
  | succ n ih =>
    have : rounds (n + 1) = rounds n + 0x100000000 := rfl
    omega

def endless (p : Progress) : ParseFault := p.feed.faultHere (.custom "the tags keep putting tokens back")

def ofEnding : List Node × Outcome Unit → Transcript
  | (root, .done _ p) => ⟨root, none, p.journal.reverse, p.feed.asked⟩
  | (root, .failed e p) => ⟨root, some e, p.journal.reverse, p.feed.asked⟩
  | (root, .exhausted p) => ⟨root, some (endless p), p.journal.reverse, p.feed.asked⟩

def ofTokens (tags : Catalog) (source : List Token) : Transcript :=
  ofEnding (Reading.template tags (rounds source.length) ⟨.ofTokens source, []⟩)

def observations (t : Transcript) : List Observation :=
  t.journal.filterMap fun e =>
    match e.event with
    | .observed o => some o
    | _ => none

def dispatches (t : Transcript) : List Token := t.journal.filterMap (·.event.dispatched?)

end Transcript
end Stencil
