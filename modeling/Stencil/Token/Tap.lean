import Stencil.Token.Scan
/-!
# Taps

A tap is the lexer as an iterator: it draws the tokens of a source one at a time.  It keeps the tokens of the last turn
that nobody has drawn yet.  When there are none it lets the scanner take turns until there is one again or there is no
next turn; most turns that start a lexeme deliver nothing, so this may take more than one.
-/
namespace Stencil

structure Tap where
  pending : List Token
  scanner : Option Scanner
deriving DecidableEq, Repr

namespace Tap

def ofSource (source : String) : Tap := ⟨[], some (.atStart source.toList)⟩

def weight (t : Tap) : Nat := (t.scanner.map (·.weight + 1)).getD 0

theorem weight_lt_of_turn (s : Scanner) : weight ⟨s.turn.tokens, s.turn.next⟩ < weight ⟨[], some s⟩ := by
  cases h : s.turn.next with
  | none => exact Nat.succ_pos _
  | some t => exact Nat.succ_lt_succ (Scanner.weight_lt_of_turn h)

def draw : Tap → Option Token × Tap
  | ⟨t :: pending, scanner⟩ => (some t, ⟨pending, scanner⟩)
  | ⟨[], none⟩ => (none, ⟨[], none⟩)
  | ⟨[], some s⟩ => draw ⟨s.turn.tokens, s.turn.next⟩
termination_by t => t.weight
decreasing_by exact weight_lt_of_turn s

/-- What the draw after `n` others comes to. -/
def drawAfter : Nat → Tap → Option Token
  | 0, t => t.draw.1
  | n + 1, t => drawAfter n t.draw.2

/-! ## What can be drawn -/

def tokens (t : Tap) : List Token := t.pending ++ (t.scanner.map Scanner.tokens).getD []

theorem tokens_ofSource (source : String) : (ofSource source).tokens = scan source := rfl

theorem draw_eq : ∀ t : Tap, t.draw.1 = t.tokens.head? ∧ t.draw.2.tokens = t.tokens.tail
  | ⟨t :: pending, scanner⟩ => by
    rw [draw]
    exact ⟨rfl, rfl⟩
  | ⟨[], none⟩ => by
    rw [draw]
    exact ⟨rfl, rfl⟩
  | ⟨[], some s⟩ => by
    have h := draw_eq ⟨s.turn.tokens, s.turn.next⟩
    have htokens : tokens ⟨[], some s⟩ = tokens ⟨s.turn.tokens, s.turn.next⟩ := s.tokens_eq
    rw [draw, htokens]
    exact h
termination_by t => t.weight
decreasing_by exact weight_lt_of_turn s

theorem tokens_of_draw {tap rest : Tap} {t : Token} (h : tap.draw = (some t, rest)) : tap.tokens = t :: rest.tokens := by
  obtain ⟨hhead, htail⟩ := draw_eq tap
  rw [h] at hhead htail
  cases htokens : tap.tokens with
  | nil =>
    rw [htokens] at hhead
    cases hhead
  | cons u us =>
    rw [htokens] at hhead htail
    rw [htail, Option.some.inj hhead]
    rfl

theorem tokens_of_draw_none {tap rest : Tap} (h : tap.draw = (none, rest)) : tap.tokens = [] := by
  obtain ⟨hhead, -⟩ := draw_eq tap
  rw [h] at hhead
  exact List.head?_eq_none_iff.1 hhead.symm

theorem length_lt_of_draw {tap rest : Tap} {t : Token} (h : tap.draw = (some t, rest)) :
    rest.tokens.length < tap.tokens.length := by
  rw [tokens_of_draw h]
  exact Nat.lt_succ_self _

theorem drawAfter_eq : ∀ (n : Nat) (t : Tap), t.drawAfter n = t.tokens[n]?
  | 0, t => by rw [drawAfter, (draw_eq t).1, List.head?_eq_getElem?]
  | n + 1, t => by rw [drawAfter, drawAfter_eq n, (draw_eq t).2, List.getElem?_tail]

end Tap
end Stencil
