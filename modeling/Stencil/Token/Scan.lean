import Stencil.Token.Scanner
/-!
# Whole scans

A scan runs a scanner turn by turn until there is no next turn, and its tokens are those that the turns deliver.

It ends because every turn leaves less to do (`Scanner.weight_lt_of_turn`).  A turn that reads nothing only hands over:
text to an opening, the inside to a number, a word or a closing.  So a scanner weighs what is left of the source, and
among equals by the mode; the inside weighs more where a number is next, because a number may be handed back unread only
where none is.
-/
namespace Stencil
namespace Scanner

/-! ## What is left to do -/

/-- How far a mode is from reading, where that depends on what is next. -/
def rank (s : Scanner) : Nat :=
  match s.mode, s.cursor.rest with
  | .text, [] => 0
  | .inside, [] => 0
  | _, [] => 1
  | .inside, c :: _ => if startsNumber c then 3 else 1
  | .number, _ => 2
  | .text, _ => 1
  | _, _ => 0

/-- What a scanner has still to do. -/
def weight (s : Scanner) : Nat := 4 * s.cursor.rest.length + s.rank

theorem rank_le (s : Scanner) : s.rank ≤ 3 := by
  unfold rank
  repeat' split
  all_goals omega

theorem weight_lt_of_length {s t : Scanner} (h : t.cursor.rest.length < s.cursor.rest.length) :
    t.weight < s.weight := by
  have := rank_le t
  unfold weight
  omega

theorem weight_lt_of_rank {s t : Scanner} (hr : t.cursor.rest = s.cursor.rest) (h : t.rank < s.rank) :
    t.weight < s.weight := by
  unfold weight
  rw [hr]
  omega

theorem weight_lt_of_nil {s t : Scanner} (hs : s.cursor.rest = []) (ht : t.cursor.rest = [])
    (hm : t.mode = .text ∨ t.mode = .inside) (hn : s.mode ≠ .text) (hi : s.mode ≠ .inside) :
    t.weight < s.weight := by
  have h1 : t.rank = 0 := by
    rcases hm with hm | hm <;> simp only [rank, hm, ht]
  have h2 : s.rank = 1 := by
    cases hc : s.mode with
    | text => exact absurd hc hn
    | inside => exact absurd hc hi
    | opening d | number | word | string quote | closing d => simp only [rank, hc, hs]
  exact weight_lt_of_rank (ht.trans hs.symm) (by omega)

theorem weight_lt_of_read {s t : Scanner} {n : Nat} (hn : 0 < n) (ht : t.cursor.rest = s.cursor.rest.drop n)
    (hm : t.mode = .text ∨ t.mode = .inside) (h1 : s.mode ≠ .text) (h2 : s.mode ≠ .inside) :
    t.weight < s.weight := by
  cases hs : s.cursor.rest with
  | nil => exact weight_lt_of_nil hs (by rw [ht, hs, List.drop_nil]) hm h1 h2
  | cons c more =>
    refine weight_lt_of_length ?_
    rw [ht, hs, List.length_drop, List.length_cons]
    omega

theorem weight_lt_of_turnText {s t : Scanner} (hm : s.mode = .text) (h : s.turnText.next = some t) :
    t.weight < s.weight := by
  simp only [turnText] at h
  split at h
  · cases h
  · rename_i rest hrest
    split at h
    · rename_i d hd
      cases h
      simp only [read, Cursor.rest_settle, Cursor.rest_read] at hrest hd
      by_cases h0 : runLength (· != '{') s.cursor.rest = 0
      · rw [h0, List.drop_zero] at hrest hd
        refine weight_lt_of_rank (by simp [read, h0]) ?_
        cases hs : s.cursor.rest with
        | nil => exact absurd hs hrest
        | cons c more =>
          rw [hs] at h0
          simp [rank, read, h0, hs, hm]
      · refine weight_lt_of_length ?_
        have : s.cursor.rest ≠ [] := by
          intro hs
          rw [hs] at h0
          exact h0 rfl
        have := List.length_pos_iff.2 this
        simp only [read, Cursor.rest_settle, Cursor.rest_read, List.length_drop]
        omega
    · cases h

theorem weight_lt_of_turnMark {s t : Scanner} {c : Char} {more : List Char} (hs : s.cursor.rest = c :: more)
    (h : (s.turnMark c more).next = some t) : t.weight < s.weight := by
  have shrink : ∀ n, 0 < n → (s.cursor.rest.drop n).length < s.cursor.rest.length := by
    intro n hn
    rw [hs, List.length_drop, List.length_cons]
    omega
  simp only [turnMark] at h
  split at h
  · cases h
    exact weight_lt_of_length (shrink 1 (by omega))
  · cases h
    exact weight_lt_of_length (shrink 1 (by omega))
  · cases h
  · cases h
  · cases h
  · rename_i n hmark
    cases h
    exact weight_lt_of_length (shrink n (markOf_length_pos hmark))
  · rename_i n hmark
    split at h
    · cases h
    · cases h
      exact weight_lt_of_length (shrink n (markOf_length_pos hmark))
  · rename_i kind n _ _ hmark
    cases h
    exact weight_lt_of_length (shrink n (markOf_length_pos hmark))

theorem weight_lt_of_turnInside {s t : Scanner} (hm : s.mode = .inside) (h : s.turnInside.next = some t) :
    t.weight < s.weight := by
  unfold turnInside at h
  split at h
  · rename_i d hd
    split at h
    · cases h
      refine weight_lt_of_rank rfl ?_
      cases hs : s.cursor.rest with
      | nil => rw [hs] at hd; cases hd
      | cons c more =>
        simp only [rank, hm, hs]
        split <;> omega
    · cases h
  · split at h
    · cases h
    · rename_i c more hs
      split at h
      · rename_i hc
        cases h
        exact weight_lt_of_rank rfl (by simp [rank, hm, hs, hc])
      · rename_i hc
        split at h
        · cases h
          exact weight_lt_of_rank rfl (by simp [rank, hm, hs, hc])
        · exact weight_lt_of_turnMark hs h

/-- Every turn but the last leaves less to do. -/
theorem weight_lt_of_turn {s t : Scanner} (h : s.turn.next = some t) : t.weight < s.weight := by
  unfold turn at h
  split at h
  · rename_i hm
    exact weight_lt_of_turnText hm h
  · rename_i d hm
    cases h
    exact weight_lt_of_read (n := 2) (by omega) rfl (.inr rfl) (by simp [hm]) (by simp [hm])
  · rename_i hm
    exact weight_lt_of_turnInside hm h
  · rename_i hm
    cases h
    cases hs : s.cursor.rest with
    | nil => exact weight_lt_of_nil hs (by simp [read, hs]) (.inr rfl) (by simp [hm]) (by simp [hm])
    | cons c more =>
      by_cases hc : startsNumber c = true
      · exact weight_lt_of_read (n := numberLength (c :: more)) (numberLength_pos hc) (by simp [read, hs])
          (.inr rfl) (by simp [hm]) (by simp [hm])
      · by_cases h0 : numberLength (c :: more) = 0
        · exact weight_lt_of_rank (by simp [read, hs, h0]) (by simp [rank, read, hm, hs, h0, hc])
        · exact weight_lt_of_read (Nat.pos_of_ne_zero h0) (by simp [read, hs]) (.inr rfl)
            (by simp [hm]) (by simp [hm])
  · rename_i hm
    cases h
    cases hs : s.cursor.rest with
    | nil => exact weight_lt_of_nil hs (by simp [read, hs]) (.inr rfl) (by simp [hm]) (by simp [hm])
    | cons c more =>
      exact weight_lt_of_read (n := wordLength (c :: more)) (by simp only [wordLength]; omega)
        (by simp [read, hs]) (.inr rfl) (by simp [hm]) (by simp [hm])
  · rename_i quote hm
    unfold turnString at h
    split at h
    · rename_i n hn
      cases h
      exact weight_lt_of_read (quotedLength?_pos hn) rfl (.inr rfl) (by simp [hm]) (by simp [hm])
    · cases h
  · rename_i d hm
    cases h
    exact weight_lt_of_read (n := 2) (by omega) rfl (.inl rfl) (by simp [hm]) (by simp [hm])

/-! ## The whole scan -/

/-- What the remaining turns deliver, turn by turn, after what was delivered before, last turn first. -/
def deliveriesOnto (before : List (List Token)) (s : Scanner) : List (List Token) :=
  match _h : s.turn.next with
  | none => s.turn.tokens :: before
  | some t => t.deliveriesOnto (s.turn.tokens :: before)
termination_by s.weight
decreasing_by exact weight_lt_of_turn _h

def deliveries (s : Scanner) : List (List Token) := (s.deliveriesOnto []).reverse

def tokens (s : Scanner) : List Token := s.deliveries.flatten

theorem deliveriesOnto_eq (before : List (List Token)) (s : Scanner) :
    s.deliveriesOnto before = s.deliveriesOnto [] ++ before := by
  rw [deliveriesOnto, deliveriesOnto]
  split
  · rfl
  · rename_i t h
    rw [deliveriesOnto_eq (s.turn.tokens :: before), deliveriesOnto_eq [s.turn.tokens], List.append_assoc]
    rfl
termination_by s.weight
decreasing_by all_goals exact weight_lt_of_turn (by assumption)

theorem deliveries_eq (s : Scanner) :
    s.deliveries = s.turn.tokens :: (s.turn.next.map deliveries).getD [] := by
  rw [deliveries, deliveriesOnto]
  split
  · rename_i h
    rw [h]
    rfl
  · rename_i t h
    rw [h, deliveriesOnto_eq, List.reverse_append]
    rfl

/-- A scan delivers the tokens of its turn, then those of the turns that follow. -/
theorem tokens_eq (s : Scanner) : s.tokens = s.turn.tokens ++ (s.turn.next.map tokens).getD [] := by
  rw [tokens, deliveries_eq, List.flatten_cons]
  cases s.turn.next <;> rfl

end Scanner

def scan (source : String) : List Token := (Scanner.atStart source.toList).tokens

end Stencil
