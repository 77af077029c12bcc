import Stencil.Token.Tap
/-!
# Handing tokens over

A lexer may be spawned beside the receiver of its tokens.  The scanning side draws a token from its tap, offers it and
waits; the reading side asks for a token and waits; when both are there the token passes.  So the scanning side is never
more than one token ahead.

Each side holds one end of the channel between them, which has no room for a token.  The scanning side lets go of its
end when there is nothing left to draw, and then finishes; an asking that finds the other end let go is told that
nothing is left.  The reading side may leave between two askings.  It lets go of its end first and waits for the
scanning side to finish then, since an offer is only refused where the other end was let go; the other way round the two
would wait for each other.

`Handover.Step` says what may happen next, in any order the two sides may be run in.  `Handover.exchange` is the run in
which the reader asks until it is told that nothing is left.
-/
namespace Stencil

inductive Producer
  | drawing (tap : Tap)
  | offering (t : Token) (tap : Tap)
  /-- There is nothing left to draw, or an offer was refused. -/
  | stopped
  | finished
deriving DecidableEq, Repr

inductive Consumer
  | idle
  | asking
  | leaving
  | waiting
  | gone
deriving DecidableEq, Repr

structure Handover where
  producer : Producer
  consumer : Consumer
  /-- Whether the scanning side holds its end. -/
  sending : Bool
  /-- Whether the reading side holds its end. -/
  receiving : Bool
  /-- The tokens that were drawn, the latest first. -/
  drawn : List Token
  /-- The tokens that have passed, the latest first. -/
  passed : List Token
  /-- How often the reading side has been told that nothing is left. -/
  told : Nat
deriving DecidableEq, Repr

namespace Handover

def start (tap : Tap) : Handover := ⟨.drawing tap, .idle, true, true, [], [], 0⟩

def spawn (source : String) : Handover := start (.ofSource source)

def received (h : Handover) : List Token := h.passed.reverse

inductive Step : Handover → Handover → Prop
  | draw {h : Handover} {tap rest : Tap} {t : Token} (hp : h.producer = .drawing tap) (ht : tap.draw = (some t, rest)) :
    Step h { h with producer := .offering t rest, drawn := t :: h.drawn }
  | exhaust {h : Handover} {tap rest : Tap} (hp : h.producer = .drawing tap) (ht : tap.draw = (none, rest)) :
    Step h { h with producer := .stopped }
  | refuse {h : Handover} {t : Token} {tap : Tap} (hp : h.producer = .offering t tap) (hr : h.receiving = false) :
    Step h { h with producer := .stopped }
  | close {h : Handover} (hp : h.producer = .stopped) (hs : h.sending = true) : Step h { h with sending := false }
  | finish {h : Handover} (hp : h.producer = .stopped) (hs : h.sending = false) : Step h { h with producer := .finished }
  | ask {h : Handover} (hc : h.consumer = .idle) : Step h { h with consumer := .asking }
  | pass {h : Handover} {t : Token} {tap : Tap} (hp : h.producer = .offering t tap) (hc : h.consumer = .asking) :
    Step h { h with producer := .drawing tap, consumer := .idle, passed := t :: h.passed }
  | tell {h : Handover} (hc : h.consumer = .asking) (hs : h.sending = false) :
    Step h { h with consumer := .idle, told := h.told + 1 }
  | leave {h : Handover} (hc : h.consumer = .idle) : Step h { h with consumer := .leaving }
  | letGo {h : Handover} (hc : h.consumer = .leaving) : Step h { h with consumer := .waiting, receiving := false }
  | part {h : Handover} (hc : h.consumer = .waiting) (hp : h.producer = .finished) : Step h { h with consumer := .gone }

/-! ## Asking for everything -/

/-- The run in which the reader asks until it is told that nothing is left. -/
def exchangeFrom (seen : List Token) (tap : Tap) : Handover :=
  match _h : tap.draw with
  | (some t, rest) => exchangeFrom (t :: seen) rest
  | (none, _) => ⟨.finished, .idle, false, true, seen, seen, 1⟩
termination_by tap.tokens.length
decreasing_by exact Tap.length_lt_of_draw _h

def exchange (tokens : List Token) : Handover := exchangeFrom [] ⟨tokens, none⟩

theorem received_exchangeFrom (seen : List Token) (tap : Tap) :
    (exchangeFrom seen tap).received = seen.reverse ++ tap.tokens := by
  rw [exchangeFrom]
  split
  · rename_i t rest h
    have := Tap.length_lt_of_draw h
    rw [received_exchangeFrom (t :: seen) rest, Tap.tokens_of_draw h, List.reverse_cons, List.append_assoc]
    rfl
  · rename_i rest h
    rw [Tap.tokens_of_draw_none h, List.append_nil]
    rfl
termination_by tap.tokens.length

theorem received_exchange (tokens : List Token) : (exchange tokens).received = tokens := by
  rw [exchange, received_exchangeFrom]
  exact List.append_nil tokens

end Handover
end Stencil
