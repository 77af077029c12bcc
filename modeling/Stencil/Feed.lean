import Stencil.Fault
/-!
# Token feeds

A feed is the token stream that a parser reads: it hands out the tokens of a source one by one.  A token may be looked
at before it is taken, and any token may be put back in front of the others.  Past its end a source that had an end of
input repeats it for ever; a source that had none has closed too early, and what comes then is an error.

An error token is never handed out.  Reading it is a fault at its place, and it stays in front, so every later reading
runs into it again.

A feed knows the place of the token that was taken last, which is where a fault without a token of its own belongs, and
how often it has asked its source.
-/
namespace Stencil

structure Feed where
  /-- Tokens that were put back, the next one first. -/
  front : List Token
  source : List Token
  last : Place
  /-- Whether the source has delivered an end of input. -/
  ended : Bool
  /-- How often the source was asked for a token. -/
  asked : Nat
deriving DecidableEq, Repr

namespace Feed

def ofTokens (source : List Token) : Feed := ⟨[], source, .origin, false, 0⟩

/-- What stands past the end of the source. -/
def beyond (f : Feed) : Token :=
  if f.ended then ⟨.endOfInput, "", f.last⟩
  else ⟨.error, "token stream closed before end of input", f.last⟩

def pull (f : Feed) : Token × Feed :=
  match f.front, f.source with
  | t :: front, _ => (t, { f with front := front })
  | [], t :: source =>
    (t, { f with source := source, ended := f.ended || t.kind == .endOfInput, asked := f.asked + 1 })
  | [], [] => (f.beyond, { f with asked := f.asked + 1 })

def putBack (f : Feed) (t : Token) : Feed := { f with front := t :: f.front }

def lexicalFault (t : Token) : ParseFault := t.fault (.lexical t.text)

def next (f : Feed) : Except ParseFault Token × Feed :=
  let (t, rest) := f.pull
  let rest := { rest with last := t.place }
  if t.kind = .error then (.error (lexicalFault t), rest.putBack t) else (.ok t, rest)

def peek (f : Feed) : Except ParseFault Token × Feed :=
  let (t, rest) := f.pull
  (if t.kind = .error then .error (lexicalFault t) else .ok t, rest.putBack t)

def faultHere (f : Feed) (cause : ParseCause) : ParseFault := ⟨f.last, cause⟩

/-! ## What is left

Taking a token that is no end of input leaves fewer tokens.  So a reader that goes on only after such a token comes to
an end, although a feed itself has none. -/

def unread (f : Feed) : Nat := f.front.length + f.source.length

theorem unread_lt_of_next {f g : Feed} {t : Token} (h : f.next = (.ok t, g)) (ht : t.kind ≠ .endOfInput) :
    g.unread < f.unread := by
  unfold next pull at h
  split at h
  rename_i heq
  split at heq
  · rename_i hf
    cases heq
    split at h
    · cases h
    · cases h
      simp only [unread, hf, List.length_cons]
      omega
  · rename_i hf hs
    cases heq
    split at h
    · cases h
    · cases h
      simp only [unread, hf, hs, List.length_cons]
      omega
  · cases heq
    split at h
    · cases h
    · rename_i hk
      cases h
      revert hk ht
      unfold beyond
      split <;> simp

/-- Takes tokens up to and including the first of a kind, or the end of input. -/
def skipUntil (kind : Kind) (f : Feed) : Except ParseFault Unit × Feed :=
  match _h : f.next with
  | (.error e, g) => (.error e, g)
  | (.ok t, g) => if _ht : t.kind = kind ∨ t.kind = .endOfInput then (.ok (), g) else g.skipUntil kind
termination_by f.unread
decreasing_by exact unread_lt_of_next _h (fun hk => _ht (.inr hk))

end Feed
end Stencil
