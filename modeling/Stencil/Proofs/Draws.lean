import Stencil.Proofs.Tiling
/-!
# Draws come to an end

A draw from a tap with nothing pending is a loop: the scanner takes turns until one of them delivers something or there is
no next turn.  `Tap.Turns` counts the turns of that loop, one by one, with no bound on how many there are, so it says of
itself nothing about the loop ending.  It ends since each turn leaves less to do, and a tap that has been reached from a
source has no more to do than the one that has all of the source before it.

Each token but the last takes a byte at least, so there are not many draws either.
-/
namespace Stencil

namespace Tap

/-- `Turns n t u`: a draw from `t` gets to `u` by `n` turns of the scanner, each of them taken for want of a token. -/
inductive Turns : Nat → Tap → Tap → Prop
  | none (t : Tap) : Turns 0 t t
  | more {n : Nat} {s : Scanner} {u : Tap} (tail : Turns n ⟨s.turn.tokens, s.turn.next⟩ u) : Turns (n + 1) ⟨[], some s⟩ u

/-- A draw takes no more turns: there is a token, or there is no next turn. -/
def Rests (t : Tap) : Prop := t.pending ≠ [] ∨ t.scanner = none

/-- The taps that draws from a source come by, between two turns and between two tokens. -/
inductive Reached (source : String) : Tap → Prop
  | start : Reached source (ofSource source)
  | turn {s : Scanner} (h : Reached source ⟨[], some s⟩) : Reached source ⟨s.turn.tokens, s.turn.next⟩
  | take {t : Token} {pending : List Token} {scanner : Option Scanner} (h : Reached source ⟨t :: pending, scanner⟩) :
    Reached source ⟨pending, scanner⟩

/-! ## One draw -/

theorem Turns.add_weight_le {n : Nat} {t u : Tap} (h : Turns n t u) : n + u.weight ≤ t.weight := by
  induction h with
  | none t => exact Nat.le_of_eq (Nat.zero_add _)
  | @more n s u _ ih =>
    have := weight_lt_of_turn s
    omega

/-- A tap where a draw rests is left by no further turn, so no other run of turns is longer than the one that led there. -/
theorem Turns.le_of_rests {n m : Nat} {t u v : Tap} (hu : Turns n t u) (hrest : u.Rests) (hv : Turns m t v) : m ≤ n := by
  induction hu generalizing m with
  | none =>
    cases hv with
    | none => exact Nat.le_refl 0
    | more => exact (hrest.elim (fun h => h rfl) (fun h => Option.some_ne_none _ h)).elim
  | more _ ih =>
    cases hv with
    | none => exact Nat.zero_le _
    | more tail => exact Nat.succ_le_succ (ih hrest tail)

theorem exists_turns (t : Tap) :
    ∃ n u, Turns n t u ∧ u.Rests ∧ t.draw = (u.pending.head?, ⟨u.pending.tail, u.scanner⟩) := by
  match t with
  | ⟨t :: pending, scanner⟩ => exact ⟨0, _, .none _, .inl (List.cons_ne_nil t pending), by rw [draw]; rfl⟩
  | ⟨[], none⟩ => exact ⟨0, _, .none _, .inr rfl, by rw [draw]; rfl⟩
  | ⟨[], some s⟩ =>
    obtain ⟨n, u, hturns, hrest, hdraw⟩ := exists_turns ⟨s.turn.tokens, s.turn.next⟩
    exact ⟨n + 1, u, .more hturns, hrest, by rw [draw, hdraw]⟩
termination_by t.weight
decreasing_by exact weight_lt_of_turn s

/-! ## All draws -/

theorem weight_ofSource_le (source : String) : (ofSource source).weight ≤ 4 * source.utf8ByteSize + 2 := by
  have hrank : (Scanner.atStart source.toList).rank ≤ 1 := by
    unfold Scanner.rank Scanner.atStart
    cases (Cursor.atStart source.toList).rest <;> simp
  have hlength : (Cursor.atStart source.toList).rest.length ≤ source.utf8ByteSize := by
    rw [← byteLength_toList]
    exact length_le_byteLength source.toList
  show 4 * (Cursor.atStart source.toList).rest.length + _ + 1 ≤ _
  omega

theorem Reached.weight_le {source : String} {t : Tap} (h : Reached source t) :
    t.weight ≤ (ofSource source).weight := by
  induction h with
  | start => exact Nat.le_refl _
  | @turn s _ ih => exact Nat.le_trans (Nat.le_of_lt (weight_lt_of_turn s)) ih
  | take _ ih => exact ih

/-- **Lexing ends.**  From every tap that a source leads to, a draw comes to rest after some turns, at most four for each
byte of the source and two more; there is no longer run of turns, and what the draw comes to is what is there then.  And
there are finitely many tokens to draw, at most one for each byte of the source and one more. -/
theorem lexing_ends (source : String) :
    (∀ t, Reached source t → ∃ n ≤ 4 * source.utf8ByteSize + 2, ∃ u, Turns n t u ∧ u.Rests ∧
        t.draw = (u.pending.head?, ⟨u.pending.tail, u.scanner⟩) ∧ ∀ m v, Turns m t v → m ≤ n) ∧
      ∃ n ≤ source.utf8ByteSize + 1, ∀ i, ((ofSource source).drawAfter i).isSome ↔ i < n := by
  refine ⟨fun t ht => ?_, (scan source).length, ?_, fun i => ?_⟩
  · obtain ⟨n, u, hturns, hrest, hdraw⟩ := exists_turns t
    have hn := hturns.add_weight_le
    have := ht.weight_le
    have := weight_ofSource_le source
    exact ⟨n, by omega, u, hturns, hrest, hdraw, fun m v => hturns.le_of_rests hrest⟩
  · have := (scans_scan source).tiles.length_le
    rwa [byteLength_toList] at this
  · rw [drawAfter_eq, tokens_ofSource]
    simp

end Tap
end Stencil
