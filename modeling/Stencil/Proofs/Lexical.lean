import Stencil.Node
import Stencil.Proofs.Piece
/-!
# Lexemes, by their characters

Which characters make a lexeme of which kind.  Nothing is said here of how a scan finds out, or of what comes behind the
lexeme; the lengths of `Stencil.Token.Lexeme` are what finds it in a source, and they find nothing else
(`lexical_of_pieceAt`).

    number   = sign? mark digit* ('.' digit*)? (exponent sign? decimal*)?, starting with a sign or a decimal digit
    string   = quote (character | '\' character)* quote
    word     = word character+, not starting with a decimal digit
    field    = '.' word character+

The digits of a number and the letter of its exponent are those of the base that its mark announces; underscores stand for
digits everywhere.  Within a string no line ends, and only behind a backslash comes its quote or a backslash.
-/
namespace Stencil

/-! ## Numbers -/

def Radix.marks : Radix → List (List Char)
  | .binary => [['0', 'b'], ['0', 'B']]
  | .octal => [['0', 'o'], ['0', 'O']]
  | .decimal => [[]]
  | .hexadecimal => [['0', 'x'], ['0', 'X']]

/-- Some digits of a base, or none. -/
def Digits (r : Radix) (cs : List Char) : Prop := ∀ c ∈ cs, r.isDigit c = true

inductive IsSignPart : List Char → Prop
  | none : IsSignPart []
  | sign {c : Char} (h : isSign c = true) : IsSignPart [c]

inductive IsFractionPart (r : Radix) : List Char → Prop
  | none : IsFractionPart r []
  | point {ds : List Char} (h : Digits r ds) : IsFractionPart r ('.' :: ds)

inductive IsExponentPart (r : Radix) : List Char → Prop
  | none : IsExponentPart r []
  | power {e : Char} {sign ds : List Char} (he : r.isExponent e = true) (hsign : IsSignPart sign)
    (hds : Digits .decimal ds) : IsExponentPart r (e :: (sign ++ ds))

/-- A number without its sign. -/
inductive IsUnsigned : List Char → Prop
  | parts (r : Radix) {mark whole fraction exponent : List Char} (hmark : mark ∈ r.marks) (hwhole : Digits r whole)
    (hfraction : IsFractionPart r fraction) (hexponent : IsExponentPart r exponent) :
    IsUnsigned (mark ++ whole ++ fraction ++ exponent)

structure IsNumber (cs : List Char) : Prop where
  starts : ∃ c ∈ cs.head?, startsNumber c = true
  parts : ∃ sign unsigned, cs = sign ++ unsigned ∧ IsSignPart sign ∧ IsUnsigned unsigned

/-! ## Strings -/

/-- What may stand between two quotes of a kind. -/
inductive QuotedBody (quote : Char) : List Char → Prop
  | nil : QuotedBody quote []
  | escaped {c : Char} {cs : List Char} (hline : c ≠ '\n') (h : QuotedBody quote cs) : QuotedBody quote ('\\' :: c :: cs)
  | plain {c : Char} {cs : List Char} (hslash : c ≠ '\\') (hline : c ≠ '\n') (hquote : c ≠ quote)
    (h : QuotedBody quote cs) : QuotedBody quote (c :: cs)

/-! ## Words -/

/-- Some word characters, of which the first is no digit. -/
structure IsWord (s : String) : Prop where
  ne : s ≠ ""
  chars : ∀ c ∈ s.toList, isWordChar c = true
  head : ∀ c ∈ s.toList.head?, c.isDigit = false

structure IsName (s : String) : Prop extends IsWord s where
  plain : s ∉ ["block", "if", "else", "elif", "true", "false"]

theorem IsWord.uncons {s : String} (h : IsWord s) : ∃ c cs, s.toList = c :: cs ∧
    isWordChar c = true ∧ c.isDigit = false ∧ ∀ d ∈ cs, isWordChar d = true := by
  obtain ⟨c, cs, hcs⟩ := List.exists_cons_of_ne_nil fun hnil => h.ne (String.toList_eq_nil_iff.1 hnil)
  have hchars := h.chars
  have hhead := h.head
  rw [hcs] at hchars hhead
  obtain ⟨hc, hmore⟩ := List.forall_mem_cons.1 hchars
  exact ⟨c, cs, hcs, hc, hhead c rfl, hmore⟩

theorem isWord_of_check {s : String}
    (h : (!s.toList.isEmpty && s.toList.all isWordChar && s.toList.head?.all (!·.isDigit)) = true) : IsWord s := by
  rw [Bool.and_eq_true, Bool.and_eq_true, List.all_eq_true] at h
  obtain ⟨⟨hne, hchars⟩, hhead⟩ := h
  refine ⟨?_, hchars, fun c hc => ?_⟩
  · rintro rfl
    cases hne
  · rw [Option.mem_def.1 hc] at hhead
    simpa using hhead

/-! ## All lexemes -/

/-- The printable characters of ASCII that stand for nothing else. -/
structure IsSymbol (c : Char) : Prop where
  printable : 0x20 < c.toNat ∧ c.toNat < 0x7F
  noNumber : startsNumber c = false
  noWord : isWordChar c = false
  noMark : c ∉ ['!', '>', '<', '=', '|', '"', '\'', '(', ')']

/-- Characters that make a lexeme of a kind. -/
inductive Lexical : Kind → List Char → Prop
  | number {cs : List Char} (h : IsNumber cs) : Lexical .number cs
  | string {quote : Char} {body : List Char} (hquote : quote = '"' ∨ quote = '\'') (h : QuotedBody quote body) :
    Lexical .string (quote :: (body ++ [quote]))
  | keyword {kind : Kind} (h : kind ∈ [.blockWord, .ifWord, .elseWord, .elifWord]) : Lexical kind kind.label.toList
  | bool {s : String} (h : s = "true" ∨ s = "false") : Lexical .bool s.toList
  | name {s : String} (h : IsName s) : Lexical .identifier s.toList
  | field {cs : List Char} (hne : cs ≠ []) (h : ∀ c ∈ cs, isWordChar c = true) : Lexical .field ('.' :: cs)
  | comparison (c : Comparison) : Lexical .comparison c.symbol.toList
  | assign : Lexical .assign ['=']
  | pipe : Lexical .pipe ['|']
  | leftParen : Lexical .leftParen ['(']
  | rightParen : Lexical .rightParen [')']
  | char {c : Char} (h : IsSymbol c) : Lexical .char [c]

/-! ## What a length covers -/

theorem digits_take (r : Radix) (cs : List Char) : Digits r (cs.take (runLength r.isDigit cs)) := by
  have h : cs.take (runLength r.isDigit cs) = cs.takeWhile r.isDigit :=
    (List.prefix_iff_eq_take.1 (List.takeWhile_prefix _)).symm
  intro c hc
  rw [h] at hc
  exact List.all_eq_true.1 List.all_takeWhile c hc

theorem isSignPart_take : ∀ cs : List Char, IsSignPart (cs.take (signLength cs))
  | [] => .none
  | c :: cs => by
    by_cases h : isSign c = true
    · simp only [signLength, h, if_true]
      exact .sign h
    · simp only [signLength, if_neg h]
      exact .none

theorem isFractionPart_take (r : Radix) (cs : List Char) : IsFractionPart r (cs.take (fractionLength r cs)) := by
  unfold fractionLength
  split
  · rename_i ds
    rw [Nat.add_comm, List.take_succ_cons]
    exact .point (digits_take r ds)
  · exact .none

theorem isExponentPart_take (r : Radix) : ∀ cs : List Char, IsExponentPart r (cs.take (exponentLength r cs))
  | [] => .none
  | c :: cs => by
    by_cases h : r.isExponent c = true
    · simp only [exponentLength, if_pos h]
      rw [Nat.add_assoc, Nat.add_comm 1, List.take_succ_cons, List.take_add]
      exact .power h (isSignPart_take cs) (digits_take .decimal _)
    · simp only [exponentLength, if_neg h]
      exact .none

theorem mark_take (cs : List Char) : cs.take (Radix.announced cs).markLength ∈ (Radix.announced cs).marks := by
  unfold Radix.announced
  split
  · rename_i c _
    by_cases hx : c = 'x' ∨ c = 'X'
    · rw [if_pos hx]
      rcases hx with rfl | rfl
      · exact .head _
      · exact .tail _ (.head _)
    by_cases ho : c = 'o' ∨ c = 'O'
    · rw [if_neg hx, if_pos ho]
      rcases ho with rfl | rfl
      · exact .head _
      · exact .tail _ (.head _)
    by_cases hb : c = 'b' ∨ c = 'B'
    · rw [if_neg hx, if_neg ho, if_pos hb]
      rcases hb with rfl | rfl
      · exact .head _
      · exact .tail _ (.head _)
    · rw [if_neg hx, if_neg ho, if_neg hb]
      exact .head _
  · exact .head _

theorem isUnsigned_take (cs : List Char) : IsUnsigned (cs.take (unsignedLength cs)) := by
  simp only [unsignedLength]
  rw [List.take_add, List.take_add, List.take_add]
  exact .parts (Radix.announced cs) (mark_take cs) (digits_take _ _) (isFractionPart_take _ _) (isExponentPart_take _ _)

theorem isNumber_take {c : Char} {more : List Char} (h : startsNumber c = true) :
    IsNumber ((c :: more).take (numberLength (c :: more))) := by
  constructor
  case starts =>
    have hpos : 0 < numberLength (c :: more) := numberLength_pos h
    obtain ⟨n, hn⟩ := Nat.exists_eq_succ_of_ne_zero (Nat.ne_of_gt hpos)
    exact ⟨c, by rw [hn]; rfl, h⟩
  case parts =>
    rw [numberLength, List.take_add]
    exact ⟨_, _, rfl, isSignPart_take _, isUnsigned_take _⟩

theorem quotedBody_take {quote : Char} : ∀ {cs : List Char} {n : Nat}, quotedLength? quote cs = some n →
    ∃ body, cs.take n = body ++ [quote] ∧ QuotedBody quote body
  | [], _, h => by cases h
  | c :: cs, n, h => by
    by_cases hc : c = '\\'
    · subst hc
      cases cs with
      | nil => cases h
      | cons d cs =>
        rw [quotedLength?] at h
        split at h
        · cases h
        · rename_i hd
          obtain ⟨m, hm, rfl⟩ := Option.map_eq_some_iff.1 h
          obtain ⟨body, htake, hbody⟩ := quotedBody_take hm
          exact ⟨'\\' :: d :: body, congrArg (fun cs => '\\' :: d :: cs) htake, .escaped hd hbody⟩
    · rw [quotedLength?_cons hc] at h
      split at h
      · cases h
      · rename_i hline
        split at h
        · rename_i hquote
          cases h
          exact ⟨[], by rw [hquote]; rfl, .nil⟩
        · rename_i hquote
          obtain ⟨m, hm, rfl⟩ := Option.map_eq_some_iff.1 h
          obtain ⟨body, htake, hbody⟩ := quotedBody_take hm
          exact ⟨c :: body, congrArg (c :: ·) htake, .plain hc hline hquote hbody⟩

theorem Kind.label_of_ofWord? {word : String} {kind : Kind} (h : Kind.ofWord? word = some kind) :
    kind ∈ [Kind.blockWord, .ifWord, .elseWord, .elifWord] ∧ word = kind.label := by
  unfold Kind.ofWord? at h
  split at h
  · cases h; exact ⟨by decide, ‹_›⟩
  split at h
  · cases h; exact ⟨by decide, ‹_›⟩
  split at h
  · cases h; exact ⟨by decide, ‹_›⟩
  split at h
  · cases h; exact ⟨by decide, ‹_›⟩
  · cases h

theorem lexical_wordKind {s : String} (h : IsWord s ∨ ∃ cs, s.toList = '.' :: cs ∧ cs ≠ [] ∧ ∀ c ∈ cs, isWordChar c = true) :
    Lexical (wordKind s) s.toList := by
  unfold wordKind
  split
  · rename_i kind hkind
    obtain ⟨hmem, rfl⟩ := Kind.label_of_ofWord? hkind
    exact .keyword hmem
  · rename_i hnone
    rcases h with hword | ⟨cs, hcs, hne, hchars⟩
    · have hdot : s.toList.head? ≠ some '.' := fun h => absurd (hword.chars '.' (List.mem_of_mem_head? h)) (by decide)
      rw [if_neg hdot]
      by_cases hbool : s = "true" ∨ s = "false"
      · rw [if_pos hbool]
        exact .bool hbool
      · rw [if_neg hbool]
        refine .name ⟨hword, fun hmem => ?_⟩
        simp only [List.mem_cons, List.not_mem_nil, or_false] at hmem
        rcases hmem with rfl | rfl | rfl | rfl | rfl | rfl
        · cases hnone
        · cases hnone
        · cases hnone
        · cases hnone
        · exact hbool (.inl rfl)
        · exact hbool (.inr rfl)
    · rw [hcs, List.head?_cons, if_pos rfl]
      exact .field hne hchars

theorem lexical_word {c : Char} {more : List Char} (hstart : startsWord c more = true) (hnum : startsNumber c = false) :
    Lexical (wordKind (String.ofList ((c :: more).take (wordLength (c :: more)))))
      ((c :: more).take (wordLength (c :: more))) := by
  have hrun : ∀ d ∈ more.take (runLength isWordChar more), isWordChar d = true := by
    intro d hd
    rw [runLength, ← List.prefix_iff_eq_take.1 (List.takeWhile_prefix _)] at hd
    exact List.all_eq_true.1 List.all_takeWhile d hd
  have htake : (c :: more).take (wordLength (c :: more)) = c :: more.take (runLength isWordChar more) := by
    rw [wordLength, Nat.add_comm, List.take_succ_cons]
  rw [htake]
  generalize hw : String.ofList (c :: more.take (runLength isWordChar more)) = s
  have hs : s.toList = c :: more.take (runLength isWordChar more) := by rw [← hw, String.toList_ofList]
  rw [← hs]
  refine lexical_wordKind ?_
  by_cases hc : isWordChar c = true
  · have hdigit : c.isDigit = false := by
      rw [startsNumber, Bool.or_eq_false_iff] at hnum
      exact hnum.2
    refine .inl ⟨?_, ?_, ?_⟩
    · rintro rfl
      cases hs
    · rw [hs]
      exact List.forall_mem_cons.2 ⟨hc, hrun⟩
    · rw [hs]
      rintro d hd
      rwa [← Option.some.inj hd]
  · simp only [startsWord, hc, Bool.false_or, Bool.and_eq_true, beq_iff_eq] at hstart
    obtain ⟨rfl, hhead⟩ := hstart
    refine .inr ⟨_, hs, ?_, hrun⟩
    cases more with
    | nil => cases hhead
    | cons d more =>
      have hd : isWordChar d = true := hhead
      simp [runLength, hd]

inductive Mark.Fits (c : Char) (more : List Char) : Mark → Prop
  | quote (h : c = '"' ∨ c = '\'') : Fits c more .quote
  | lexeme {kind : Kind} {n : Nat} (h : Lexical kind ((c :: more).take n)) : Fits c more (.lexeme kind n)
  | other {m : Mark} (hquote : m ≠ .quote) (hlexeme : ∀ kind n, m ≠ .lexeme kind n) : Fits c more m

theorem markOf_fits {c : Char} {more : List Char} (hnum : startsNumber c = false) (hword : isWordChar c = false) :
    (markOf c more).Fits c more := by
  have hdouble : more.head? = some '=' → (c :: more).take 2 = [c, '='] := by
    intro hd
    obtain ⟨tail, rfl⟩ := List.head?_eq_some_iff.1 hd
    rfl
  have hother : ∀ m ∈ [Mark.blank, .lineEnd, .loneBang, .unknown], m.Fits c more := by
    intro m hm
    refine .other ?_ fun kind n => ?_
    · rintro rfl
      simp at hm
    · rintro rfl
      simp at hm
  refine iteInduction (fun _ => hother _ (by decide)) fun _ => ?_
  refine iteInduction (fun _ => hother _ (by decide)) fun hblank => ?_
  refine iteInduction (fun hc => iteInduction (fun hd => .lexeme ?_) fun _ => hother _ (by decide)) fun hbang => ?_
  case refine_1 =>
    rw [hdouble hd, hc]
    exact .comparison .notEqual
  refine iteInduction (fun hc => .lexeme ?_) fun hangle => ?_
  case refine_1 =>
    split
    · rename_i hd
      rw [hdouble hd]
      rcases hc with rfl | rfl
      · exact .comparison .greaterOrEqual
      · exact .comparison .lessOrEqual
    · rcases hc with rfl | rfl
      · exact .comparison .greater
      · exact .comparison .less
  refine iteInduction (fun hc => iteInduction (fun hd => .lexeme ?_) fun _ => .lexeme ?_) fun hequals => ?_
  case refine_1 =>
    rw [hdouble hd, hc]
    exact .comparison .equal
  case refine_2 =>
    rw [hc]
    exact .assign
  refine iteInduction (fun hc => .lexeme (hc ▸ .pipe)) fun hpipe => ?_
  refine iteInduction .quote fun hquote => ?_
  refine iteInduction (fun hc => .lexeme (hc ▸ .leftParen)) fun hleft => ?_
  refine iteInduction (fun hc => .lexeme (hc ▸ .rightParen)) fun hright => ?_
  refine iteInduction (fun hprint => .lexeme (.char ⟨?_, hnum, hword, ?_⟩)) fun _ => hother _ (by decide)
  · have hspace : c.toNat ≠ 0x20 := fun h => hblank (.inl (Char.toNat_inj.1 h))
    omega
  · rw [not_or] at hangle hquote
    simp only [List.mem_cons, List.not_mem_nil, or_false, not_or]
    exact ⟨hbang, hangle.1, hangle.2, hequals, hpipe, hquote.1, hquote.2, hleft, hright⟩

theorem lexical_of_pieceOfMark {depth n : Nat} {c : Char} {more : List Char} {kind : Kind} (hnum : startsNumber c = false)
    (hword : isWordChar c = false) (h : pieceOfMark depth c more = .lexeme kind n) : Lexical kind ((c :: more).take n) := by
  have hfits : (markOf c more).Fits c more := markOf_fits hnum hword
  unfold pieceOfMark at h
  cases hmark : markOf c more with
  | blank | lineEnd | loneBang | unknown =>
    rw [hmark] at h
    cases h
  | quote =>
    rw [hmark] at h hfits
    cases hfits with
    | other hquote => exact absurd rfl hquote
    | quote hc =>
      simp only at h
      split at h
      · rename_i m hm
        cases h
        obtain ⟨body, htake, hbody⟩ := quotedBody_take hm
        rw [List.take_succ_cons, htake]
        exact .string hc hbody
      · cases h
  | lexeme kind' m =>
    rw [hmark] at h hfits
    cases hfits with
    | other _ hlexeme => exact absurd rfl (hlexeme _ _)
    | lexeme hlexical =>
      simp only at h
      split at h
      · cases h
      · cases h
        exact hlexical

/-- **Whatever a scan takes as a lexeme is made of the characters of its kind.** -/
theorem lexical_of_pieceAt {depth n : Nat} {cs : List Char} {kind : Kind} (h : pieceAt depth cs = .lexeme kind n) :
    Lexical kind (cs.take n) := by
  unfold pieceAt at h
  split at h
  · split at h <;> cases h
  · split at h
    · cases h
    · rename_i c more _
      by_cases hnum : startsNumber c = true
      · rw [if_pos hnum] at h
        cases h
        exact .number (isNumber_take hnum)
      · rw [if_neg hnum] at h
        rw [Bool.not_eq_true] at hnum
        by_cases hword : startsWord c more = true
        · rw [if_pos hword] at h
          cases h
          exact lexical_word hword hnum
        · rw [if_neg hword] at h
          rw [Bool.not_eq_true] at hword
          rw [startsWord, Bool.or_eq_false_iff] at hword
          exact lexical_of_pieceOfMark hnum hword.1 h

theorem lexical_of_piece {depth : Nat} {kind : Kind} {cs rest : List Char}
    (h : pieceAt depth (cs ++ rest) = .lexeme kind cs.length) : Lexical kind cs := by
  have hcs := lexical_of_pieceAt h
  rwa [List.take_left] at hcs

theorem lexical_of_check {kind : Kind} {cs : List Char} (h : pieceAt 1 cs = .lexeme kind cs.length) : Lexical kind cs := by
  have hcs := lexical_of_pieceAt h
  rwa [List.take_length] at hcs

/-! ## No lexeme goes beyond its line -/

theorem lineFeed_notMem_of_check {p : Char → Bool} {cs : List Char} (hp : p '\n' = false) (hcs : ∀ c ∈ cs, p c = true) :
    '\n' ∉ cs := by
  intro h
  cases (hcs _ h).symm.trans hp

theorem Digits.lineFeed_notMem {r : Radix} {cs : List Char} (h : Digits r cs) : '\n' ∉ cs :=
  lineFeed_notMem_of_check (by cases r <;> decide) h

theorem IsSignPart.lineFeed_notMem {cs : List Char} (h : IsSignPart cs) : '\n' ∉ cs := by
  cases h with
  | none => exact List.not_mem_nil
  | sign hc => exact lineFeed_notMem_of_check (p := isSign) (by decide) (List.forall_mem_singleton.2 hc)

theorem IsFractionPart.lineFeed_notMem {r : Radix} {cs : List Char} (h : IsFractionPart r cs) : '\n' ∉ cs := by
  cases h with
  | none => exact List.not_mem_nil
  | point hds => exact List.not_mem_cons_of_ne_of_not_mem (by decide) hds.lineFeed_notMem

theorem IsExponentPart.lineFeed_notMem {r : Radix} {cs : List Char} (h : IsExponentPart r cs) : '\n' ∉ cs := by
  cases h with
  | none => exact List.not_mem_nil
  | power he hsign hds =>
    have hletter : ∀ r : Radix, r.isExponent '\n' = false := by
      intro r
      cases r <;> rfl
    refine List.not_mem_cons_of_ne_of_not_mem ?_ ?_
    · rintro rfl
      cases he.symm.trans (hletter r)
    · simp [hsign.lineFeed_notMem, hds.lineFeed_notMem]

theorem IsNumber.lineFeed_notMem {cs : List Char} (h : IsNumber cs) : '\n' ∉ cs := by
  obtain ⟨sign, unsigned, rfl, hsign, hunsigned⟩ := h.parts
  cases hunsigned with
  | @parts r mark _ _ _ hmark hwhole hfraction hexponent =>
    have hmarkLine : '\n' ∉ mark := by
      revert hmark
      cases r <;> simp only [Radix.marks, List.mem_cons, List.not_mem_nil, or_false]
      all_goals
        intro hmark
        rcases hmark with rfl | rfl <;> decide
    simp [hsign.lineFeed_notMem, hmarkLine, hwhole.lineFeed_notMem, hfraction.lineFeed_notMem, hexponent.lineFeed_notMem]

theorem QuotedBody.lineFeed_notMem {quote : Char} {cs : List Char} (h : QuotedBody quote cs) : '\n' ∉ cs := by
  induction h with
  | nil => exact List.not_mem_nil
  | escaped hline _ ih => simp [ih, hline.symm]
  | plain _ hline _ _ ih => simp [ih, hline.symm]

theorem Lexical.lineFeed_notMem {kind : Kind} {cs : List Char} (h : Lexical kind cs) : '\n' ∉ cs := by
  cases h with
  | number h => exact h.lineFeed_notMem
  | string hquote h => rcases hquote with rfl | rfl <;> simp [h.lineFeed_notMem]
  | keyword h =>
    have hall : ∀ kind ∈ [Kind.blockWord, .ifWord, .elseWord, .elifWord], '\n' ∉ kind.label.toList := by decide
    exact hall _ h
  | bool h => rcases h with rfl | rfl <;> decide
  | name h => exact lineFeed_notMem_of_check (p := isWordChar) (by decide) h.chars
  | field _ h =>
    exact List.not_mem_cons_of_ne_of_not_mem (by decide) (lineFeed_notMem_of_check (p := isWordChar) (by decide) h)
  | comparison c => cases c <;> decide
  | assign | pipe | leftParen | rightParen => decide
  | @char c h =>
    intro hc
    obtain rfl := List.mem_singleton.1 hc
    exact absurd h.printable.1 (by decide)

end Stencil
