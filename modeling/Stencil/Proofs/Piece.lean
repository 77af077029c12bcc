import Stencil.Proofs.Reach
import Stencil.Token.Scanner
/-!
# What stands next between the delimiters

Between the delimiters a scan takes one piece after another: a blank, a lexeme, or the delimiter that closes them, unless
it meets a fault.  `pieceAt` says which piece is next; nothing is left in it of the modes that the scanner goes through to
find out.

A piece is found by looking at its own characters and at one more, if there is one (`pieceAt_eq_of_take`).  So a source
may be changed behind that character and the piece stays the same.
-/
namespace Stencil

namespace Delimiter

def openText : Delimiter → List Char
  | tag => ['{', '%']
  | var => ['{', '{']

def closeText : Delimiter → List Char
  | tag => ['%', '}']
  | var => ['}', '}']

theorem closes?_closeText (d : Delimiter) (cs : List Char) : closes? (d.closeText ++ cs) = some d := by cases d <;> rfl

theorem length_openText (d : Delimiter) : d.openText.length = 2 := by cases d <;> rfl

theorem length_closeText (d : Delimiter) : d.closeText.length = 2 := by cases d <;> rfl

theorem eq_of_opens? {cs : List Char} {d : Delimiter} (h : opens? cs = some d) : ∃ rest, cs = d.openText ++ rest := by
  unfold opens? at h
  split at h
  · cases h; exact ⟨_, rfl⟩
  · cases h; exact ⟨_, rfl⟩
  · cases h

theorem eq_of_closes? {cs : List Char} {d : Delimiter} (h : closes? cs = some d) : ∃ rest, cs = d.closeText ++ rest := by
  unfold closes? at h
  split at h
  · cases h; exact ⟨_, rfl⟩
  · cases h; exact ⟨_, rfl⟩
  · cases h

theorem closes?_cons_congr {c : Char} {cs ds : List Char} (h : cs.head? = ds.head?) :
    closes? (c :: cs) = closes? (c :: ds) := by
  cases cs with
  | nil =>
    cases ds with
    | nil => rfl
    | cons d ds => cases h
  | cons d cs =>
    cases ds with
    | nil => cases h
    | cons e ds =>
      obtain rfl : d = e := Option.some.inj h
      by_cases h1 : c = '%' ∧ d = '}'
      · obtain ⟨rfl, rfl⟩ := h1
        rfl
      · by_cases h2 : c = '}' ∧ d = '}'
        · obtain ⟨rfl, rfl⟩ := h2
          rfl
        · unfold closes?
          split <;> split <;> simp_all

end Delimiter

/-! ## Pieces -/

inductive Piece
  | blank
  | lexeme (kind : Kind) (length : Nat)
  | close (d : Delimiter)
  | fault (f : ScanFault)
deriving DecidableEq, Repr

/-- The piece that starts with `c`, which starts neither a number nor a word. -/
def pieceOfMark (depth : Nat) (c : Char) (more : List Char) : Piece :=
  match markOf c more with
  | .blank => .blank
  | .quote =>
    match quotedLength? c more with
    | some n => .lexeme .string (n + 1)
    | none => .fault .unterminated
  | .lineEnd => .fault .unclosed
  | .loneBang => .fault .loneBang
  | .unknown => .fault (.unknown c)
  | .lexeme kind n => if kind = .rightParen ∧ depth = 0 then .fault .strayParen else .lexeme kind n

/-- The piece that is next where `depth` parentheses are open. -/
def pieceAt (depth : Nat) (cs : List Char) : Piece :=
  match Delimiter.closes? cs with
  | some d => if depth = 0 then .close d else .fault .openParen
  | none =>
    match cs with
    | [] => .fault .unclosed
    | c :: more =>
      if startsNumber c then .lexeme .number (numberLength (c :: more))
      else if startsWord c more then
        .lexeme (wordKind (String.ofList ((c :: more).take (wordLength (c :: more))))) (wordLength (c :: more))
      else pieceOfMark depth c more

namespace Piece

def length : Piece → Nat
  | blank => 1
  | lexeme _ n => n
  | close _ => 2
  | fault _ => 0

end Piece

def Kind.isInner : Kind → Bool
  | .error | .endOfInput | .text | .tagStart | .tagEnd | .varStart | .varEnd => false
  | _ => true

theorem Kind.plain_of_isInner {kind : Kind} (h : kind.isInner = true) : kind ≠ .endOfInput ∧ kind ≠ .error := by
  constructor <;>
  · rintro rfl
    cases h

/-- The number of open parentheses behind a token. -/
def Kind.depthAfter : Kind → Nat → Nat
  | .leftParen, depth => depth + 1
  | .rightParen, depth => depth - 1
  | _, depth => depth

/-! ## The kinds of lexemes -/

theorem markOf_isInner {c : Char} {more : List Char} {kind : Kind} {n : Nat} (h : markOf c more = .lexeme kind n) :
    kind.isInner = true := by
  have hsound := markOf_sound c more
  rw [h] at hsound
  cases hsound with
  | one hk =>
    have hall : ∀ k ∈ [Kind.comparison, .assign, .pipe, .leftParen, .rightParen, .char], k.isInner = true := by decide
    exact hall kind hk
  | two => rfl

theorem wordKind_isInner (word : String) : (wordKind word).isInner = true := by
  unfold wordKind
  split
  · rename_i kind h
    have := Kind.isKeyword_of_ofWord? h
    revert this
    cases kind <;> decide
  · repeat' split
    all_goals rfl

theorem wordKind_ne_paren (word : String) : wordKind word ≠ .leftParen ∧ wordKind word ≠ .rightParen := by
  unfold wordKind
  split
  · rename_i kind h
    have := Kind.isKeyword_of_ofWord? h
    constructor <;>
    · rintro rfl
      cases this
  · repeat' split
    all_goals decide

theorem Kind.depthAfter_of_ne {kind : Kind} (h : kind ≠ .leftParen ∧ kind ≠ .rightParen) (depth : Nat) :
    kind.depthAfter depth = depth := by
  unfold depthAfter
  split
  · exact absurd rfl h.1
  · exact absurd rfl h.2
  · rfl

/-! ## What a piece can be -/

theorem pieceOfMark_eq_lexeme {depth n : Nat} {c : Char} {more : List Char} {kind : Kind}
    (h : pieceOfMark depth c more = .lexeme kind n) :
    0 < n ∧ n ≤ (c :: more).length ∧ kind.isInner = true ∧ ¬(kind = .rightParen ∧ depth = 0) := by
  unfold pieceOfMark at h
  split at h
  · cases h
  · split at h
    · rename_i m hm
      cases h
      have := quotedLength?_le hm
      rw [List.length_cons]
      exact ⟨by omega, by omega, rfl, by simp⟩
    · cases h
  · cases h
  · cases h
  · cases h
  · rename_i kind' m hm
    split at h
    · cases h
    · rename_i hparen
      cases h
      exact ⟨markOf_length_pos hm, markOf_length_le hm, markOf_isInner hm, hparen⟩

/-- A lexeme is never empty, stays within the source, and is no delimiter; a parenthesis closes only what is open. -/
theorem pieceAt_eq_lexeme {depth n : Nat} {cs : List Char} {kind : Kind} (h : pieceAt depth cs = .lexeme kind n) :
    0 < n ∧ n ≤ cs.length ∧ kind.isInner = true ∧ ¬(kind = .rightParen ∧ depth = 0) := by
  unfold pieceAt at h
  split at h
  · split at h <;> cases h
  · split at h
    · cases h
    · split at h
      · rename_i hc
        cases h
        exact ⟨numberLength_pos hc, numberLength_le _, rfl, by simp⟩
      · split at h
        · cases h
          refine ⟨by rw [wordLength]; omega, wordLength_le _, wordKind_isInner _, ?_⟩
          rintro ⟨hk, -⟩
          exact (wordKind_ne_paren _).2 hk
        · exact pieceOfMark_eq_lexeme h

theorem pieceAt_eq_close {depth : Nat} {cs : List Char} {d : Delimiter} (h : pieceAt depth cs = .close d) :
    depth = 0 ∧ ∃ rest, cs = d.closeText ++ rest := by
  unfold pieceAt at h
  split at h
  · rename_i hd
    split at h
    · rename_i h0
      cases h
      exact ⟨h0, Delimiter.eq_of_closes? hd⟩
    · cases h
  · split at h
    · cases h
    · repeat' split at h
      all_goals first | cases h | skip
      unfold pieceOfMark at h
      repeat' split at h
      all_goals cases h

theorem pieceAt_closeText (d : Delimiter) (cs : List Char) : pieceAt 0 (d.closeText ++ cs) = .close d := by
  unfold pieceAt
  rw [Delimiter.closes?_closeText]
  rfl

theorem markOf_eq_blank {c : Char} {more : List Char} (h : markOf c more = .blank) : c = ' ' ∨ c = '\t' := by
  have hsound := markOf_sound c more
  rw [h] at hsound
  cases hsound with
  | blank hc => exact hc

theorem pieceAt_eq_blank {depth : Nat} {cs : List Char} (h : pieceAt depth cs = .blank) :
    ∃ c rest, cs = c :: rest ∧ (c = ' ' ∨ c = '\t') := by
  unfold pieceAt at h
  split at h
  · split at h <;> cases h
  · split at h
    · cases h
    · rename_i c more _
      split at h
      · cases h
      split at h
      · cases h
      unfold pieceOfMark at h
      split at h
      · rename_i hm
        exact ⟨c, more, rfl, markOf_eq_blank hm⟩
      all_goals repeat' split at h
      all_goals cases h

theorem pieceAt_blank {b : Char} (hb : b = ' ' ∨ b = '\t') (depth : Nat) (cs : List Char) :
    pieceAt depth (b :: cs) = .blank := by
  rcases hb with rfl | rfl <;> rfl

theorem pieceAt_nil (depth : Nat) : pieceAt depth [] = .fault .unclosed := rfl

/-! ## A piece does not look far ahead -/

theorem startsWord_congr {c : Char} {cs ds : List Char} (h : cs.head? = ds.head?) : startsWord c cs = startsWord c ds := by
  rw [startsWord, startsWord, h]

theorem markOf_congr {c : Char} {cs ds : List Char} (h : cs.head? = ds.head?) : markOf c cs = markOf c ds := by
  rw [markOf, markOf, h]

theorem pieceOfMark_eq_of_take {depth n : Nat} {c : Char} {cs ds : List Char} (hn : 0 < n)
    (hlen : (pieceOfMark depth c cs).length ≤ n) (h : cs.take n = ds.take n)
    (hfault : ∀ f, pieceOfMark depth c cs ≠ .fault f) : pieceOfMark depth c ds = pieceOfMark depth c cs := by
  obtain ⟨n, rfl⟩ := Nat.exists_eq_succ_of_ne_zero (Nat.ne_of_gt hn)
  have hmark : markOf c ds = markOf c cs := markOf_congr (head?_eq_of_take h).symm
  by_cases hq : markOf c cs = .quote
  · cases hc : quotedLength? c cs with
    | none =>
      refine absurd ?_ (hfault .unterminated)
      simp only [pieceOfMark, hq, hc]
    | some m =>
      have hlen' : m + 1 ≤ n + 1 := by simpa only [pieceOfMark, hq, hc, Piece.length] using hlen
      have hd : quotedLength? c ds = some m := quotedLength?_eq_of_take hc (take_le_of_take h (by omega))
      simp only [pieceOfMark, hmark, hq, hc, hd]
  · unfold pieceOfMark
    rw [hmark]
    split
    all_goals first | rfl | exact absurd ‹_› hq

/-- A piece shows in its own characters and the one behind them, whatever comes later. -/
theorem pieceAt_eq_of_take {depth : Nat} {cs ds : List Char} (hfault : ∀ f, pieceAt depth cs ≠ .fault f)
    (h : cs.take ((pieceAt depth cs).length + 1) = ds.take ((pieceAt depth cs).length + 1)) :
    pieceAt depth ds = pieceAt depth cs := by
  cases cs with
  | nil => exact absurd rfl (hfault .unclosed)
  | cons c cs =>
    obtain ⟨ds, rfl, hds⟩ := eq_cons_of_take h
    have hpos : 0 < (pieceAt depth (c :: cs)).length := by
      cases hp : pieceAt depth (c :: cs) with
      | blank | close => exact Nat.succ_pos _
      | lexeme kind n => exact (pieceAt_eq_lexeme hp).1
      | fault f => exact absurd hp (hfault f)
    have hhead : ds.head? = cs.head? := by
      obtain ⟨n, hn⟩ := Nat.exists_eq_succ_of_ne_zero (Nat.ne_of_gt hpos)
      rw [hn] at hds
      exact (head?_eq_of_take hds).symm
    have hcloses : Delimiter.closes? (c :: ds) = Delimiter.closes? (c :: cs) := Delimiter.closes?_cons_congr hhead
    have hword : startsWord c ds = startsWord c cs := startsWord_congr hhead
    cases hd : Delimiter.closes? (c :: cs) with
    | some d => simp only [pieceAt, hcloses, hd]
    | none =>
      by_cases hnum : startsNumber c = true
      · have hp : ∀ es, Delimiter.closes? (c :: es) = none →
            pieceAt depth (c :: es) = .lexeme .number (numberLength (c :: es)) := by
          intro es hes
          simp only [pieceAt, hes, if_pos hnum]
        rw [hp cs hd, Piece.length] at h
        rw [hp ds (hcloses.trans hd), hp cs hd, NearSighted.numberLength _ _ h]
      · by_cases hw : startsWord c cs = true
        · have hp : ∀ es, Delimiter.closes? (c :: es) = none → startsWord c es = true →
              pieceAt depth (c :: es) =
                .lexeme (wordKind (String.ofList ((c :: es).take (wordLength (c :: es))))) (wordLength (c :: es)) := by
            intro es hes hwes
            simp only [pieceAt, hes, if_neg hnum, if_pos hwes]
          rw [hp cs hd hw, Piece.length] at h
          rw [hp ds (hcloses.trans hd) (hword.trans hw), hp cs hd hw, NearSighted.wordLength _ _ h,
            take_le_of_take h (Nat.le_succ _)]
        · have hp : ∀ es, Delimiter.closes? (c :: es) = none → ¬startsWord c es = true →
              pieceAt depth (c :: es) = pieceOfMark depth c es := by
            intro es hes hwes
            simp only [pieceAt, hes, if_neg hnum, if_neg hwes]
          rw [hp cs hd hw] at hds hpos hfault
          rw [hp ds (hcloses.trans hd) (by rw [hword]; exact hw), hp cs hd hw]
          exact pieceOfMark_eq_of_take hpos (Nat.le_refl _) hds hfault

end Stencil
