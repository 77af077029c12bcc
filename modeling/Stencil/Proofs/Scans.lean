import Stencil.Proofs.Piece
import Stencil.Token.Scan
/-!
# Scans, piece by piece

What a scan delivers, said without turns, modes and cursors.  A scan stands either in the text or between delimiters with
some parentheses open, and `Scans` follows it from one piece of the source to the next, with what is left and the place
it has come to.  Every source scans to exactly one list of tokens in this sense, which is the one that the scanner
delivers (`scans_scan`, `Scans.eq_scan`).
-/
namespace Stencil

/-- Where a scan stands: in the text, or between delimiters with a number of open parentheses. -/
inductive Zone
  | text
  | inside (depth : Nat)

/-- `Scans zone p cs ts`: a scan that stands at `p` with `cs` before it delivers `ts`. -/
inductive Scans : Zone → Place → List Char → List Token → Prop
  | done (p : Place) : Scans .text p [] [⟨.endOfInput, "", p⟩]
  | text {p : Place} (cs : List Char) {rest : List Char} {ts : List Token} (hne : cs ≠ []) (hcs : ∀ c ∈ cs, c ≠ '{')
    (hrest : ∀ c ∈ rest.head?, c = '{') (tail : Scans .text (p.after cs) rest ts) :
    Scans .text p (cs ++ rest) (⟨.text, String.ofList cs, p⟩ :: ts)
  | opening {p : Place} (d : Delimiter) {rest : List Char} {ts : List Token}
    (tail : Scans (.inside 0) (p.after d.openText) rest ts) :
    Scans .text p (d.openText ++ rest) (⟨d.openKind, String.ofList d.openText, p⟩ :: ts)
  | stray {p : Place} {rest : List Char} (h : Delimiter.opens? ('{' :: rest) = none) :
    Scans .text p ('{' :: rest) [⟨.error, (ScanFault.strayBrace (('{' :: rest).take 2)).message, p⟩]
  | blank {depth : Nat} {p : Place} {c : Char} {rest : List Char} {ts : List Token}
    (h : pieceAt depth (c :: rest) = .blank) (tail : Scans (.inside depth) (p.next c) rest ts) :
    Scans (.inside depth) p (c :: rest) ts
  | lexeme {depth : Nat} {p : Place} {kind : Kind} (cs : List Char) {rest : List Char} {ts : List Token}
    (h : pieceAt depth (cs ++ rest) = .lexeme kind cs.length)
    (tail : Scans (.inside (kind.depthAfter depth)) (p.after cs) rest ts) :
    Scans (.inside depth) p (cs ++ rest) (⟨kind, String.ofList cs, p⟩ :: ts)
  | closing {p : Place} (d : Delimiter) {rest : List Char} {ts : List Token}
    (tail : Scans .text (p.after d.closeText) rest ts) :
    Scans (.inside 0) p (d.closeText ++ rest) (⟨d.closeKind, String.ofList d.closeText, p⟩ :: ts)
  | fault {depth : Nat} {p : Place} {cs : List Char} {f : ScanFault} (h : pieceAt depth cs = .fault f) :
    Scans (.inside depth) p cs [⟨.error, f.message, p⟩]

theorem Scans.run {p : Place} (cs : List Char) {rest : List Char} {ts : List Token}
    (h : (!cs.isEmpty && cs.all (· != '{') && rest.head?.all (· == '{')) = true) (tail : Scans .text (p.after cs) rest ts) :
    Scans .text p (cs ++ rest) (⟨.text, String.ofList cs, p⟩ :: ts) := by
  rw [Bool.and_eq_true, Bool.and_eq_true, Bool.not_eq_true', List.all_eq_true] at h
  obtain ⟨⟨hne, hcs⟩, hrest⟩ := h
  refine .text cs (by rintro rfl; cases hne) (fun c hc => bne_iff_ne.1 (hcs c hc)) (fun c hc => ?_) tail
  rw [Option.mem_def.1 hc, Option.all_some, beq_iff_eq] at hrest
  exact hrest

/-! ## The scanner between two pieces -/

def Cursor.fresh (p : Place) (cs : List Char) : Cursor := ⟨p, p, [], cs⟩

def Zone.scanner : Zone → Place → List Char → Scanner
  | .text, p, cs => ⟨.text, 0, .fresh p cs⟩
  | .inside depth, p, cs => ⟨.inside, depth, .fresh p cs⟩

namespace Scanner

theorem tokens_of_turn {s t : Scanner} {ts : List Token} (h : s.turn = ⟨ts, some t⟩) : s.tokens = ts ++ t.tokens := by
  rw [tokens_eq, h]
  rfl

theorem tokens_of_delivery {s s' : Scanner} {t : Token} (h : s.turn = ⟨[t], some s'⟩) : s.tokens = t :: s'.tokens :=
  tokens_of_turn h

theorem tokens_of_last {s : Scanner} {ts : List Token} (h : s.turn = ⟨ts, none⟩) : s.tokens = ts := by
  rw [tokens_eq, h]
  exact List.append_nil ts

theorem take_runLength (p : Char → Bool) (cs : List Char) : cs.take (runLength p cs) = cs.takeWhile p := by
  rw [runLength]
  exact (List.prefix_iff_eq_take.1 (List.takeWhile_prefix p)).symm

theorem drop_runLength (p : Char → Bool) : ∀ cs : List Char, cs.drop (runLength p cs) = cs.dropWhile p
  | [] => rfl
  | c :: cs => by
    by_cases hc : p c = true
    · rw [runLength, List.takeWhile_cons_of_pos hc, List.length_cons, List.drop_succ_cons, List.dropWhile_cons_of_pos hc]
      exact drop_runLength p cs
    · rw [runLength, List.takeWhile_cons_of_neg hc, List.dropWhile_cons_of_neg hc]
      rfl

theorem takeWhile_text {cs rest : List Char} (hcs : ∀ c ∈ cs, c ≠ '{') (hrest : ∀ c ∈ rest.head?, c = '{') :
    (cs ++ rest).takeWhile (· != '{') = cs := by
  rw [List.takeWhile_append_of_pos (fun c hc => bne_iff_ne.2 (hcs c hc))]
  cases rest with
  | nil => exact List.append_nil cs
  | cons c rest =>
    obtain rfl := hrest c rfl
    exact List.append_nil cs

theorem dropWhile_text {cs rest : List Char} (hcs : ∀ c ∈ cs, c ≠ '{') (hrest : ∀ c ∈ rest.head?, c = '{') :
    (cs ++ rest).dropWhile (· != '{') = rest := by
  rw [List.dropWhile_append_of_pos (fun c hc => bne_iff_ne.2 (hcs c hc))]
  cases rest with
  | nil => rfl
  | cons c rest =>
    obtain rfl := hrest c rfl
    rfl

def endText (text : List Token) (p : Place) : List Char → Turn
  | [] => ⟨text ++ [⟨.endOfInput, "", p⟩], none⟩
  | c :: rest =>
    match Delimiter.opens? (c :: rest) with
    | some d => ⟨text, some ⟨.opening d, 0, .fresh p (c :: rest)⟩⟩
    | none => ⟨text ++ [⟨.error, (ScanFault.strayBrace ((c :: rest).take 2)).message, p⟩], none⟩

theorem turn_text {p : Place} {cs rest : List Char} (hcs : ∀ c ∈ cs, c ≠ '{') (hrest : ∀ c ∈ rest.head?, c = '{') :
    (Zone.text.scanner p (cs ++ rest)).turn =
      endText (if cs = [] then [] else [⟨.text, String.ofList cs, p⟩]) (p.after cs) rest := by
  have hrun : (Zone.text.scanner p (cs ++ rest)).read (runLength (· != '{') (cs ++ rest)) =
      ⟨.text, 0, ⟨p, p.after cs, cs, rest⟩⟩ := by
    simp only [read, Cursor.read, Zone.scanner, Cursor.fresh, take_runLength, drop_runLength, takeWhile_text hcs hrest,
      dropWhile_text hcs hrest, List.nil_append]
  show turnText _ = _
  unfold turnText
  rw [show (Zone.text.scanner p (cs ++ rest)).cursor.rest = cs ++ rest from rfl, hrun]
  cases rest <;> rfl

theorem turn_text_nil {p : Place} {rest : List Char} (hrest : ∀ c ∈ rest.head?, c = '{') :
    (Zone.text.scanner p rest).turn = endText [] p rest := by
  have h : (Zone.text.scanner p ([] ++ rest)).turn = _ := turn_text (by simp) hrest
  rwa [List.nil_append, if_pos rfl] at h

theorem tokens_done (p : Place) : (Zone.text.scanner p []).tokens = [⟨.endOfInput, "", p⟩] :=
  tokens_of_last (turn_text_nil (by simp))

theorem tokens_text {p : Place} {cs rest : List Char} (hne : cs ≠ []) (hcs : ∀ c ∈ cs, c ≠ '{')
    (hrest : ∀ c ∈ rest.head?, c = '{') :
    (Zone.text.scanner p (cs ++ rest)).tokens =
      ⟨.text, String.ofList cs, p⟩ :: (Zone.text.scanner (p.after cs) rest).tokens := by
  rw [tokens_eq, turn_text hcs hrest, tokens_eq (Zone.text.scanner (p.after cs) rest), turn_text_nil hrest, if_neg hne]
  cases rest with
  | nil => rfl
  | cons c rest =>
    simp only [endText]
    cases Delimiter.opens? (c :: rest) <;> rfl

theorem tokens_opening (p : Place) (d : Delimiter) (rest : List Char) :
    (Zone.text.scanner p (d.openText ++ rest)).tokens =
      ⟨d.openKind, String.ofList d.openText, p⟩ :: ((Zone.inside 0).scanner (p.after d.openText) rest).tokens := by
  have hturn : (Zone.text.scanner p (d.openText ++ rest)).turn = ⟨[], some ⟨.opening d, 0, .fresh p (d.openText ++ rest)⟩⟩ := by
    rw [turn_text_nil (by cases d <;> simp [Delimiter.openText])]
    cases d <;> rfl
  rw [tokens_of_turn hturn, List.nil_append]
  refine tokens_of_delivery ?_
  cases d <;> rfl

theorem tokens_stray {p : Place} {rest : List Char} (h : Delimiter.opens? ('{' :: rest) = none) :
    (Zone.text.scanner p ('{' :: rest)).tokens =
      [⟨.error, (ScanFault.strayBrace (('{' :: rest).take 2)).message, p⟩] := by
  refine tokens_of_last ?_
  rw [turn_text_nil (by simp)]
  simp only [endText, h]
  rfl

def tokensFrom (depth : Nat) (p : Place) (cs : List Char) : Piece → List Token
  | .blank => ((Zone.inside depth).scanner (p.after (cs.take 1)) (cs.drop 1)).tokens
  | .lexeme kind n =>
    ⟨kind, String.ofList (cs.take n), p⟩ ::
      ((Zone.inside (kind.depthAfter depth)).scanner (p.after (cs.take n)) (cs.drop n)).tokens
  | .close d =>
    ⟨d.closeKind, String.ofList (cs.take 2), p⟩ :: (Zone.text.scanner (p.after (cs.take 2)) (cs.drop 2)).tokens
  | .fault f => [⟨.error, f.message, p⟩]

theorem turn_number (depth : Nat) (p : Place) (cs : List Char) :
    Scanner.turn ⟨.number, depth, .fresh p cs⟩ =
      ⟨[⟨.number, String.ofList (cs.take (numberLength cs)), p⟩],
        some ((Zone.inside depth).scanner (p.after (cs.take (numberLength cs))) (cs.drop (numberLength cs)))⟩ := by
  show deliver (read (numberLength cs) ⟨.number, depth, .fresh p cs⟩) .number .inside = _
  generalize numberLength cs = n
  rfl

theorem turn_word (depth : Nat) (p : Place) (cs : List Char) :
    Scanner.turn ⟨.word, depth, .fresh p cs⟩ =
      ⟨[⟨wordKind (String.ofList (cs.take (wordLength cs))), String.ofList (cs.take (wordLength cs)), p⟩],
        some ((Zone.inside depth).scanner (p.after (cs.take (wordLength cs))) (cs.drop (wordLength cs)))⟩ := by
  show deliver (read (wordLength cs) ⟨.word, depth, .fresh p cs⟩) (wordKind (String.ofList (cs.take (wordLength cs)))) .inside = _
  generalize wordLength cs = n
  rfl

theorem tokens_mark {depth : Nat} {p : Place} {c : Char} {more : List Char}
    (h : ((Zone.inside depth).scanner p (c :: more)).turn = turnMark ⟨.inside, depth, .fresh p (c :: more)⟩ c more) :
    ((Zone.inside depth).scanner p (c :: more)).tokens = tokensFrom depth p (c :: more) (pieceOfMark depth c more) := by
  unfold turnMark at h
  unfold pieceOfMark
  cases hm : markOf c more with
  | blank =>
    simp only [hm] at h
    exact tokens_of_turn h
  | quote =>
    simp only [hm] at h
    rw [tokens_of_turn h]
    have hturn : Scanner.turn ⟨.string c, depth, (Cursor.fresh p (c :: more)).read 1⟩ =
        turnString ⟨.string c, depth, (Cursor.fresh p (c :: more)).read 1⟩ c := rfl
    have hrest : ((Cursor.fresh p (c :: more)).read 1).rest = more := rfl
    unfold turnString at hturn
    rw [hrest] at hturn
    cases hq : quotedLength? c more with
    | none =>
      simp only [hq] at hturn
      exact tokens_of_last hturn
    | some n =>
      simp only [hq] at hturn
      exact tokens_of_delivery hturn
  | lineEnd | loneBang | unknown =>
    simp only [hm] at h
    exact tokens_of_last h
  | lexeme kind n =>
    simp only [hm] at h
    show _ = tokensFrom depth p (c :: more) (if kind = .rightParen ∧ depth = 0 then .fault .strayParen else .lexeme kind n)
    by_cases hr : kind = .rightParen
    · subst hr
      by_cases h0 : depth = 0
      · simp only [if_pos h0] at h
        rw [if_pos ⟨rfl, h0⟩]
        exact tokens_of_last h
      · simp only [if_neg h0] at h
        rw [if_neg (fun hp => h0 hp.2)]
        exact tokens_of_delivery h
    · rw [if_neg (fun hp => hr hp.1)]
      by_cases hl : kind = .leftParen
      · subst hl
        exact tokens_of_delivery h
      · simp only [tokensFrom, Kind.depthAfter_of_ne ⟨hl, hr⟩]
        refine tokens_of_delivery ?_
        rw [h]
        split <;> simp_all
        rfl

/-- Between delimiters a scan delivers the next piece, then what follows it. -/
theorem tokens_inside (depth : Nat) (p : Place) (cs : List Char) :
    ((Zone.inside depth).scanner p cs).tokens = tokensFrom depth p cs (pieceAt depth cs) := by
  have hturn : ((Zone.inside depth).scanner p cs).turn = turnInside ⟨.inside, depth, .fresh p cs⟩ := rfl
  have hrest : (Cursor.fresh p cs).rest = cs := rfl
  unfold turnInside at hturn
  unfold pieceAt
  rw [hrest] at hturn
  cases hd : Delimiter.closes? cs with
  | some d =>
    simp only [hd] at hturn
    by_cases h0 : depth = 0
    · subst h0
      rw [if_pos rfl] at hturn
      rw [tokens_of_turn hturn]
      exact tokens_of_delivery rfl
    · rw [if_neg h0] at hturn
      simp only [if_neg h0]
      exact tokens_of_last hturn
  | none =>
    simp only [hd] at hturn
    cases cs with
    | nil => exact tokens_of_last hturn
    | cons c more =>
      simp only at hturn ⊢
      by_cases hnum : startsNumber c = true
      · rw [if_pos hnum] at hturn
        rw [if_pos hnum, tokens_of_turn hturn]
        exact tokens_of_delivery (turn_number depth p (c :: more))
      · by_cases hword : startsWord c more = true
        · rw [if_neg hnum, if_pos hword] at hturn
          rw [if_neg hnum, if_pos hword, tokens_of_turn hturn]
          simp only [tokensFrom, Kind.depthAfter_of_ne (wordKind_ne_paren _)]
          exact tokens_of_delivery (turn_word depth p (c :: more))
        · rw [if_neg hnum, if_neg hword] at hturn
          rw [if_neg hnum, if_neg hword]
          exact tokens_mark hturn

end Scanner

/-! ## What a scan delivers is what the scanner delivers -/

theorem Scans.eq_tokens {zone : Zone} {p : Place} {cs : List Char} {ts : List Token} (h : Scans zone p cs ts) :
    ts = (zone.scanner p cs).tokens := by
  induction h with
  | done p => exact (Scanner.tokens_done p).symm
  | text _ hne hcs hrest _ ih => rw [Scanner.tokens_text hne hcs hrest, ← ih]
  | opening d _ ih => rw [Scanner.tokens_opening, ← ih]
  | stray h => exact (Scanner.tokens_stray h).symm
  | blank h _ ih =>
    rw [Scanner.tokens_inside, h]
    exact ih
  | lexeme _ h _ ih =>
    rw [Scanner.tokens_inside, h, Scanner.tokensFrom, List.take_left, List.drop_left, ← ih]
  | closing d _ ih =>
    have hlen := d.length_closeText
    rw [Scanner.tokens_inside, pieceAt_closeText, Scanner.tokensFrom, List.take_left' hlen, List.drop_left' hlen, ← ih]
  | fault h =>
    rw [Scanner.tokens_inside, h]
    rfl

theorem exists_text (cs : List Char) :
    ∃ text rest : List Char, cs = text ++ rest ∧ (∀ c ∈ text, c ≠ '{') ∧ ∀ c ∈ rest.head?, c = '{' := by
  refine ⟨cs.takeWhile (· != '{'), cs.dropWhile (· != '{'), List.takeWhile_append_dropWhile.symm, ?_, ?_⟩
  · intro c hc
    exact bne_iff_ne.1 (List.all_eq_true.1 List.all_takeWhile c hc)
  · intro c hc
    have := List.head?_dropWhile_not (· != '{') cs
    rw [Option.mem_def.1 hc] at this
    simpa using this

theorem scans_tokens (zone : Zone) (p : Place) (cs : List Char) : Scans zone p cs (zone.scanner p cs).tokens := by
  cases zone with
  | text =>
    obtain ⟨text, rest, hcs, htext, hrest⟩ := exists_text cs
    by_cases hne : text = []
    · subst hne
      obtain rfl : cs = rest := hcs
      cases cs with
      | nil =>
        rw [Scanner.tokens_done]
        exact .done p
      | cons c cs =>
        obtain rfl := hrest c rfl
        cases hd : Delimiter.opens? ('{' :: cs) with
        | none =>
          rw [Scanner.tokens_stray hd]
          exact .stray hd
        | some d =>
          obtain ⟨rest, hopen⟩ := Delimiter.eq_of_opens? hd
          have : rest.length + 2 = cs.length + 1 := by
            have := congrArg List.length hopen
            rw [List.length_append, d.length_openText, List.length_cons] at this
            omega
          rw [hopen, Scanner.tokens_opening]
          exact .opening d (scans_tokens _ _ rest)
    · have : rest.length < cs.length := by
        have := List.length_pos_iff.2 hne
        rw [hcs, List.length_append]
        omega
      rw [hcs, Scanner.tokens_text hne htext hrest]
      exact .text text hne htext hrest (scans_tokens _ _ rest)
  | inside depth =>
    rw [Scanner.tokens_inside]
    cases hp : pieceAt depth cs with
    | blank =>
      obtain ⟨c, rest, rfl, -⟩ := pieceAt_eq_blank hp
      exact .blank hp (scans_tokens _ _ rest)
    | lexeme kind n =>
      obtain ⟨hpos, hle, -⟩ := pieceAt_eq_lexeme hp
      have : (cs.drop n).length < cs.length := by
        rw [List.length_drop]
        omega
      have hlex : Scans (.inside depth) p (cs.take n ++ cs.drop n) _ :=
        .lexeme _ (by rw [List.take_append_drop, List.length_take_of_le hle]; exact hp) (scans_tokens _ _ _)
      rwa [List.take_append_drop] at hlex
    | close d =>
      obtain ⟨rfl, rest, rfl⟩ := pieceAt_eq_close hp
      have : rest.length < (d.closeText ++ rest).length := by
        rw [List.length_append, d.length_closeText]
        omega
      rw [Scanner.tokensFrom, List.take_left' d.length_closeText, List.drop_left' d.length_closeText]
      exact .closing d (scans_tokens _ _ rest)
    | fault f => exact .fault hp
termination_by cs.length

theorem scans_scan (source : String) : Scans .text .origin source.toList (scan source) :=
  scans_tokens .text .origin source.toList

theorem Scans.eq_scan {source : String} {ts : List Token} (h : Scans .text .origin source.toList ts) :
    ts = scan source := h.eq_tokens

theorem Scans.unique {zone : Zone} {p : Place} {cs : List Char} {ts us : List Token} (h : Scans zone p cs ts)
    (hu : Scans zone p cs us) : ts = us := h.eq_tokens.trans hu.eq_tokens.symm

end Stencil
