import Stencil.Proofs.Layout
import Stencil.Proofs.Lexical
import Stencil.Proofs.Scans
/-!
# Writing what stands between delimiters

Characters that make a lexeme are read as that lexeme if a blank comes behind them, whatever comes after that
(`Lexical.before_blank`).  Each of the lengths that find a lexeme stops at the blank if it has not stopped before, and it
has not, since what comes next is a part of the lexeme that it goes on with.

The parts of a condition can all be written as lexemes: a number in decimal, and a string between double quotes, with a
backslash before each backslash and each double quote, and a backslash and `n` for each line feed.
-/
namespace Stencil

/-! ## Where runs stop -/

/-- What comes first, if anything does, fails a check. -/
def Stops (p : Char → Bool) (cs : List Char) : Prop := ∀ c ∈ cs.head?, p c = false

theorem stops_cons {p : Char → Bool} {c : Char} (hc : p c = false) (cs : List Char) : Stops p (c :: cs) := by
  rintro d hd
  rwa [← Option.some.inj hd]

theorem stops_dropWhile (p : Char → Bool) (cs : List Char) : Stops p (cs.dropWhile p) := by
  intro c hc
  have hhead := List.head?_dropWhile_not p cs
  rwa [Option.mem_def.1 hc] at hhead

theorem runLength_append {p : Char → Bool} {cs rest : List Char} (hcs : ∀ c ∈ cs, p c = true) (hrest : Stops p rest) :
    runLength p (cs ++ rest) = cs.length := by
  rw [runLength, List.takeWhile_append_of_pos hcs]
  cases rest with
  | nil => rw [List.takeWhile_nil, List.append_nil]
  | cons d rest => rw [List.takeWhile_cons_of_neg (by simp [hrest d rfl]), List.append_nil]

theorem ne_of_check {p : Char → Bool} {c d : Char} (hc : p c = true) (hd : p d = false) : c ≠ d := by
  rintro rfl
  cases hc.symm.trans hd

theorem closes?_of_check {p : Char → Bool} {c : Char} (hc : p c = true) (hpercent : p '%' = false)
    (hbrace : p '}' = false) (cs : List Char) : Delimiter.closes? (c :: cs) = none := by
  unfold Delimiter.closes?
  split
  · rename_i h
    exact absurd (List.cons.inj h).1 (ne_of_check hc hpercent)
  · rename_i h
    exact absurd (List.cons.inj h).1 (ne_of_check hc hbrace)
  · rfl

theorem closes?_of_second {c d : Char} (hd : d ≠ '}') (cs : List Char) : Delimiter.closes? (c :: d :: cs) = none := by
  unfold Delimiter.closes?
  split
  · rename_i h
    exact absurd (List.cons.inj (List.cons.inj h).2).1 hd
  · rename_i h
    exact absurd (List.cons.inj (List.cons.inj h).2).1 hd
  · rfl

/-! ## Numbers -/

theorem Radix.isDigit_of_isExponent {r : Radix} {c : Char} (h : r.isExponent c = true) : r.isDigit c = false := by
  cases r with
  | binary | octal => cases h
  | decimal | hexadecimal =>
    simp only [Radix.isExponent, Bool.or_eq_true, beq_iff_eq] at h
    rcases h with rfl | rfl <;> rfl

theorem IsFractionPart.stops {r : Radix} {p : Char → Bool} {cs rest : List Char} (h : IsFractionPart r cs)
    (hpoint : p '.' = false) (hrest : Stops p rest) : Stops p (cs ++ rest) := by
  cases h with
  | none => exact hrest
  | point => exact stops_cons hpoint _

theorem IsExponentPart.stops {r : Radix} {p : Char → Bool} {cs rest : List Char} (h : IsExponentPart r cs)
    (hletter : ∀ c, r.isExponent c = true → p c = false) (hrest : Stops p rest) : Stops p (cs ++ rest) := by
  cases h with
  | none => exact hrest
  | power he => exact stops_cons (hletter _ he) _

theorem signLength_of_stops {cs : List Char} (h : Stops isSign cs) : signLength cs = 0 := by
  cases cs with
  | nil => rfl
  | cons c cs => simp [signLength, h c rfl]

theorem IsSignPart.signLength_append {cs rest : List Char} (h : IsSignPart cs) (hrest : Stops isSign rest) :
    signLength (cs ++ rest) = cs.length := by
  cases h with
  | none => exact signLength_of_stops hrest
  | sign hc => simp [signLength, hc]

theorem IsFractionPart.fractionLength_append {r : Radix} {cs rest : List Char} (h : IsFractionPart r cs)
    (hpoint : Stops (· == '.') rest) (hrest : Stops r.isDigit rest) : fractionLength r (cs ++ rest) = cs.length := by
  cases h with
  | none =>
    rw [List.nil_append]
    unfold fractionLength
    split
    · cases hpoint '.' rfl
    · rfl
  | point hds => rw [List.cons_append, fractionLength, runLength_append hds hrest, List.length_cons, Nat.add_comm]

theorem Digits.stops_isSign {cs rest : List Char} (h : Digits .decimal cs) (hrest : Stops isSign rest) :
    Stops isSign (cs ++ rest) := by
  cases cs with
  | nil => exact hrest
  | cons c cs =>
    have hc := h c List.mem_cons_self
    refine stops_cons ?_ _
    have hplus : c ≠ '+' := ne_of_check hc (by decide)
    have hminus : c ≠ '-' := ne_of_check hc (by decide)
    simp [isSign, hplus, hminus]

theorem IsExponentPart.exponentLength_append {r : Radix} {cs rest : List Char} (h : IsExponentPart r cs)
    (hletter : Stops r.isExponent rest) (hsign : Stops isSign rest) (hrest : Stops Radix.decimal.isDigit rest) :
    exponentLength r (cs ++ rest) = cs.length := by
  cases h with
  | none =>
    rw [List.nil_append]
    cases rest with
    | nil => rfl
    | cons c rest => simp [exponentLength, hletter c rfl]
  | @power e sign ds he hsignPart hds =>
    have hlen : signLength (sign ++ (ds ++ rest)) = sign.length := hsignPart.signLength_append (hds.stops_isSign hsign)
    simp only [List.cons_append, List.append_assoc, exponentLength, if_pos he, hlen, List.drop_left, List.length_cons,
      List.length_append, runLength_append hds hrest]
    omega

/-- The letters that announce a base behind a zero. -/
def isBaseLetter (c : Char) : Bool := c ∈ ['x', 'X', 'o', 'O', 'b', 'B']

theorem announced_of_second {cs : List Char} (h : Stops isBaseLetter (cs.drop 1)) : Radix.announced cs = .decimal := by
  unfold Radix.announced
  split
  · rename_i c cs
    have hc : isBaseLetter c = false := h c rfl
    simp only [isBaseLetter, List.mem_cons, List.not_mem_nil, or_false, decide_eq_false_iff_not, not_or] at hc
    simp [hc]
  · rfl

theorem announced_of_mark {r : Radix} {mark : List Char} (hmark : mark ∈ r.marks) (hr : r ≠ .decimal) (rest : List Char) :
    Radix.announced (mark ++ rest) = r := by
  cases r with
  | decimal => exact absurd rfl hr
  | binary | octal | hexadecimal =>
    simp only [Radix.marks, List.mem_cons, List.not_mem_nil, or_false] at hmark
    rcases hmark with rfl | rfl <;> rfl

theorem length_of_mark {r : Radix} {mark : List Char} (hmark : mark ∈ r.marks) : mark.length = r.markLength := by
  cases r <;> simp only [Radix.marks, List.mem_cons, List.not_mem_nil, or_false] at hmark
  · rcases hmark with rfl | rfl <;> rfl
  · rcases hmark with rfl | rfl <;> rfl
  · rw [hmark]; rfl
  · rcases hmark with rfl | rfl <;> rfl

theorem stops_isBaseLetter {whole fraction exponent rest : List Char} (hwhole : Digits .decimal whole)
    (hfraction : IsFractionPart .decimal fraction) (hexponent : IsExponentPart .decimal exponent)
    (hrest : Stops isBaseLetter rest) : Stops isBaseLetter (whole ++ (fraction ++ (exponent ++ rest))) := by
  cases whole with
  | nil =>
    refine hfraction.stops (by decide) (hexponent.stops (fun c hc => ?_) hrest)
    simp only [Radix.isExponent, Bool.or_eq_true, beq_iff_eq] at hc
    rcases hc with rfl | rfl <;> rfl
  | cons c whole =>
    have hc := hwhole c List.mem_cons_self
    have hletters : (['x', 'X', 'o', 'O', 'b', 'B'].all (!Radix.decimal.isDigit ·)) = true := rfl
    refine stops_cons (decide_eq_false fun hletter => ?_) _
    simpa [hc] using List.all_eq_true.1 hletters c hletter

/-- What ends a number: nothing that any part of it could go on with. -/
structure EndsNumber (rest : List Char) : Prop where
  sign : Stops isSign rest
  base : Stops isBaseLetter rest
  point : Stops (· == '.') rest
  digit : ∀ r : Radix, Stops r.isDigit rest
  exponent : ∀ r : Radix, Stops r.isExponent rest

theorem endsNumber_blank {b : Char} (hb : b = ' ' ∨ b = '\t') (rest : List Char) : EndsNumber (b :: rest) := by
  rcases hb with rfl | rfl
  all_goals exact {
    sign := stops_cons rfl rest
    base := stops_cons rfl rest
    point := stops_cons rfl rest
    digit := fun r => stops_cons (by cases r <;> rfl) rest
    exponent := fun r => stops_cons (by cases r <;> rfl) rest }

theorem announced_of_stops {cs : List Char} (h : Stops (· == '0') cs) : Radix.announced cs = .decimal := by
  unfold Radix.announced
  split
  · cases h '0' rfl
  · rfl

theorem announced_of_parts {r : Radix} {mark whole fraction exponent rest : List Char} (hmark : mark ∈ r.marks)
    (hwhole : Digits r whole) (hfraction : IsFractionPart r fraction) (hexponent : IsExponentPart r exponent)
    (hrest : EndsNumber rest) : Radix.announced (mark ++ (whole ++ (fraction ++ (exponent ++ rest)))) = r := by
  by_cases hr : r = .decimal
  · subst hr
    obtain rfl : mark = [] := List.mem_singleton.1 hmark
    rw [List.nil_append]
    cases whole with
    | nil =>
      have hzero : ∀ c, Radix.decimal.isExponent c = true → (c == '0') = false := by
        intro c hc
        exact beq_eq_false_iff_ne.2 (ne_of_check hc (by decide))
      refine announced_of_stops (hfraction.stops (by decide) (hexponent.stops hzero fun c hc => ?_))
      have hdigit : (!Radix.decimal.isDigit c) = true := by rw [hrest.digit .decimal c hc, Bool.not_false]
      exact beq_eq_false_iff_ne.2 (ne_of_check (p := (!Radix.decimal.isDigit ·)) hdigit (by decide))
    | cons c whole =>
      have htail := (List.forall_mem_cons.1 hwhole).2
      exact announced_of_second (stops_isBaseLetter htail hfraction hexponent hrest.base)
  · exact announced_of_mark hmark hr _

theorem IsUnsigned.unsignedLength_append {cs rest : List Char} (h : IsUnsigned cs) (hrest : EndsNumber rest) :
    unsignedLength (cs ++ rest) = cs.length := by
  cases h with
  | @parts r mark whole fraction exponent hmark hwhole hfraction hexponent =>
    -- each part stops where the next one that is there starts
    have hletters : ∀ c, r.isExponent c = true → r.isDigit c = false := fun c => Radix.isDigit_of_isExponent
    have hwholeStops : Stops r.isDigit (fraction ++ (exponent ++ rest)) :=
      hfraction.stops (by cases r <;> decide) (hexponent.stops hletters (hrest.digit r))
    have hpointStops : Stops (· == '.') (exponent ++ rest) :=
      hexponent.stops (fun c hc => beq_eq_false_iff_ne.2 (ne_of_check hc (by cases r <;> decide))) hrest.point
    have hfractionLen : fractionLength r (fraction ++ (exponent ++ rest)) = fraction.length :=
      hfraction.fractionLength_append hpointStops (hexponent.stops hletters (hrest.digit r))
    have hexponentLen : exponentLength r (exponent ++ rest) = exponent.length :=
      hexponent.exponentLength_append (hrest.exponent r) hrest.sign (hrest.digit .decimal)
    have hassoc : mark ++ whole ++ fraction ++ exponent ++ rest = mark ++ (whole ++ (fraction ++ (exponent ++ rest))) := by
      simp only [List.append_assoc]
    have hmarkLen := length_of_mark hmark
    rw [hassoc, unsignedLength, announced_of_parts hmark hwhole hfraction hexponent hrest]
    rw [List.drop_left' hmarkLen, runLength_append hwhole hwholeStops, ← List.drop_drop, List.drop_left' hmarkLen,
      List.drop_left, hfractionLen]
    rw [← List.drop_drop, ← List.drop_drop, List.drop_left' hmarkLen, List.drop_left, List.drop_left, hexponentLen]
    simp only [List.length_append]
    omega

theorem IsUnsigned.stops_isSign {cs rest : List Char} (h : IsUnsigned cs) (hrest : Stops isSign rest) :
    Stops isSign (cs ++ rest) := by
  cases h with
  | @parts r mark whole fraction exponent hmark hwhole hfraction hexponent =>
    simp only [List.append_assoc]
    cases r with
    | decimal =>
      obtain rfl : mark = [] := List.mem_singleton.1 hmark
      have hletter : ∀ c, Radix.decimal.isExponent c = true → isSign c = false := by
        intro c hc
        simp only [Radix.isExponent, Bool.or_eq_true, beq_iff_eq] at hc
        rcases hc with rfl | rfl <;> rfl
      exact hwhole.stops_isSign (hfraction.stops (by decide) (hexponent.stops hletter hrest))
    | binary | octal | hexadecimal =>
      simp only [Radix.marks, List.mem_cons, List.not_mem_nil, or_false] at hmark
      rcases hmark with rfl | rfl <;> exact stops_cons (by decide) _

theorem IsNumber.numberLength_append {cs rest : List Char} (h : IsNumber cs) (hrest : EndsNumber rest) :
    numberLength (cs ++ rest) = cs.length := by
  obtain ⟨sign, unsigned, rfl, hsign, hunsigned⟩ := h.parts
  have hlen : signLength (sign ++ (unsigned ++ rest)) = sign.length :=
    hsign.signLength_append (hunsigned.stops_isSign hrest.sign)
  rw [List.append_assoc, numberLength, hlen, List.drop_left, hunsigned.unsignedLength_append hrest, List.length_append]

theorem pieceAt_number {c : Char} (hc : startsNumber c = true) (depth : Nat) (cs : List Char) :
    pieceAt depth (c :: cs) = .lexeme .number (numberLength (c :: cs)) := by
  have hclose := closes?_of_check hc (by decide) (by decide) cs
  simp only [pieceAt, hclose, if_pos hc]

theorem IsNumber.pieceAt_append {cs rest : List Char} (h : IsNumber cs) (hrest : EndsNumber rest) (depth : Nat) :
    pieceAt depth (cs ++ rest) = .lexeme .number cs.length := by
  obtain ⟨c, hc, hstart⟩ := h.starts
  obtain ⟨more, rfl⟩ := List.head?_eq_some_iff.1 hc
  rw [List.cons_append, pieceAt_number hstart, ← List.cons_append, h.numberLength_append hrest]

/-! ## Strings -/

theorem QuotedBody.quotedLength?_append {quote : Char} {cs : List Char} (h : QuotedBody quote cs) (hslash : quote ≠ '\\')
    (hline : quote ≠ '\n') (rest : List Char) : quotedLength? quote (cs ++ quote :: rest) = some (cs.length + 1) := by
  induction h with
  | nil => rw [List.nil_append, quotedLength?_cons hslash, if_neg hline, if_pos rfl, List.length_nil]
  | @escaped c cs hc _ ih =>
    rw [List.cons_append, List.cons_append, quotedLength?, if_neg hc, ih, Option.map_some, List.length_cons, List.length_cons]
  | @plain c cs hcslash hcline hcquote _ ih =>
    rw [List.cons_append, quotedLength?_cons hcslash, if_neg hcline, if_neg hcquote, ih, Option.map_some, List.length_cons]

theorem QuotedBody.pieceAt_append {quote : Char} {body : List Char} (h : QuotedBody quote body)
    (hquote : quote = '"' ∨ quote = '\'') (depth : Nat) (rest : List Char) :
    pieceAt depth (quote :: (body ++ [quote]) ++ rest) = .lexeme .string (quote :: (body ++ [quote])).length := by
  have hlen : quotedLength? quote (body ++ [quote] ++ rest) = some (body ++ [quote]).length := by
    have hslash : quote ≠ '\\' := by rcases hquote with rfl | rfl <;> decide
    have hline : quote ≠ '\n' := by rcases hquote with rfl | rfl <;> decide
    rw [List.append_assoc, List.length_append]
    exact h.quotedLength?_append hslash hline rest
  have hmark : ∀ more, markOf quote more = .quote := by rcases hquote with rfl | rfl <;> exact fun _ => rfl
  have hpiece : ∀ more, pieceAt depth (quote :: more) = pieceOfMark depth quote more := by
    rcases hquote with rfl | rfl <;> exact fun _ => rfl
  rw [List.cons_append, hpiece]
  simp only [pieceOfMark, hmark, hlen, List.length_cons]

/-! ## Words -/

theorem pieceAt_word {c : Char} {cs rest : List Char} (hstart : startsWord c (cs ++ rest) = true)
    (hnum : startsNumber c = false) (hcs : ∀ d ∈ cs, isWordChar d = true) (hrest : Stops isWordChar rest) (depth : Nat) :
    pieceAt depth (c :: cs ++ rest) = .lexeme (wordKind (String.ofList (c :: cs))) (c :: cs).length := by
  have hclose : Delimiter.closes? (c :: (cs ++ rest)) = none := by
    have hpercent : startsWord '%' (cs ++ rest) = false := rfl
    have hbrace : startsWord '}' (cs ++ rest) = false := rfl
    exact closes?_of_check (p := (startsWord · (cs ++ rest))) hstart hpercent hbrace _
  have hlen : wordLength (c :: (cs ++ rest)) = (c :: cs).length := by
    rw [wordLength, runLength_append hcs hrest, List.length_cons, Nat.add_comm]
  simp only [List.cons_append, pieceAt, hclose, hnum, Bool.false_eq_true, if_false, hstart, if_true, hlen]
  rw [← List.cons_append, List.take_left' rfl]

theorem IsWord.pieceAt_append {s : String} (h : IsWord s) {rest : List Char} (hrest : Stops isWordChar rest) (depth : Nat) :
    pieceAt depth (s.toList ++ rest) = .lexeme (wordKind s) s.toList.length := by
  obtain ⟨c, cs, hcs, hc, hdigit, hmore⟩ := h.uncons
  have hplus : c ≠ '+' := ne_of_check hc (by decide)
  have hminus : c ≠ '-' := ne_of_check hc (by decide)
  have hnum : startsNumber c = false := by simp [startsNumber, isSign, hplus, hminus, hdigit]
  have hstart : startsWord c (cs ++ rest) = true := by simp [startsWord, hc]
  rw [hcs, pieceAt_word hstart hnum hmore hrest, ← hcs, String.ofList_toList]

theorem wordKind_of_isName {s : String} (hs : IsName s) : wordKind s = .identifier := by
  have hplain := hs.plain
  simp only [List.mem_cons, List.not_mem_nil, or_false, not_or] at hplain
  obtain ⟨hblock, hif, helse, helif, htrue, hfalse⟩ := hplain
  have hdot : s.toList.head? ≠ some '.' := fun h => absurd (hs.chars '.' (List.mem_of_mem_head? h)) (by decide)
  simp [wordKind, Kind.ofWord?, hblock, hif, helse, helif, htrue, hfalse, hdot]

theorem pieceAt_field {cs rest : List Char} (hne : cs ≠ []) (hcs : ∀ c ∈ cs, isWordChar c = true)
    (hrest : Stops isWordChar rest) (depth : Nat) :
    pieceAt depth ('.' :: cs ++ rest) = .lexeme .field ('.' :: cs).length := by
  obtain ⟨c, more, rfl⟩ := List.exists_cons_of_ne_nil hne
  have hstart : startsWord '.' (c :: more ++ rest) = true := by
    simp [startsWord, hcs c List.mem_cons_self]
  have hnone : ∀ word, word.toList.head? ≠ some '.' → String.ofList ('.' :: c :: more) ≠ word := by
    rintro word hword rfl
    rw [String.toList_ofList] at hword
    exact hword rfl
  have hkind : wordKind (String.ofList ('.' :: c :: more)) = .field := by
    simp only [wordKind, Kind.ofWord?, if_neg (hnone "block" (by decide)), if_neg (hnone "if" (by decide)),
      if_neg (hnone "else" (by decide)), if_neg (hnone "elif" (by decide)), String.toList_ofList, List.head?_cons, if_true]
  rw [pieceAt_word hstart (by decide) hcs hrest, hkind]

/-! ## Marks -/

theorem IsSymbol.pieceAt_append {c d : Char} (h : IsSymbol c) (hword : isWordChar d = false) (hbrace : d ≠ '}')
    (depth : Nat) (rest : List Char) : pieceAt depth (c :: d :: rest) = .lexeme .char 1 := by
  have hclose := closes?_of_second (c := c) hbrace rest
  have hstart : startsWord c (d :: rest) = false := by simp [startsWord, h.noWord, hword]
  have hmark : markOf c (d :: rest) = .lexeme .char 1 := by
    have hmark := h.noMark
    simp only [List.mem_cons, List.not_mem_nil, or_false, not_or] at hmark
    have hcontrol : ∀ e : Char, e.toNat ≤ 0x20 → c ≠ e := by
      rintro e he rfl
      exact absurd h.printable.1 (by omega)
    have hprint : 0x20 ≤ c.toNat ∧ c.toNat < 0x7F := ⟨Nat.le_of_lt h.printable.1, h.printable.2⟩
    simp [markOf, hmark, hcontrol, hprint]
  simp [pieceAt, hclose, h.noNumber, hstart, pieceOfMark, hmark]

/-! ## All lexemes -/

/-- **A lexeme is read as what it is if a blank comes behind it**, whatever comes after that. -/
theorem Lexical.before_blank {kind : Kind} {cs : List Char} (h : Lexical kind cs) {depth : Nat}
    (hdepth : ¬(kind = .rightParen ∧ depth = 0)) {b : Char} (hb : b = ' ' ∨ b = '\t') (rest : List Char) :
    pieceAt depth (cs ++ b :: rest) = .lexeme kind cs.length := by
  have hword : isWordChar b = false := by rcases hb with rfl | rfl <;> rfl
  cases h with
  | number h => exact h.pieceAt_append (endsNumber_blank hb rest) depth
  | string hquote h => exact h.pieceAt_append hquote depth _
  | @keyword kind h =>
    have hkeywords : ∀ k ∈ [Kind.blockWord, .ifWord, .elseWord, .elifWord], wordKind k.label = k := by decide
    have hisWord : IsWord kind.label := by
      refine isWord_of_check ?_
      revert h
      cases kind <;> decide
    rw [hisWord.pieceAt_append (stops_cons hword rest), hkeywords kind h]
  | @bool s h =>
    have hisWord : IsWord s := isWord_of_check (by rcases h with rfl | rfl <;> decide)
    have hkind : wordKind s = .bool := by rcases h with rfl | rfl <;> decide
    rw [hisWord.pieceAt_append (stops_cons hword rest), hkind]
  | name h => rw [h.toIsWord.pieceAt_append (stops_cons hword rest), wordKind_of_isName h]
  | field hne h => exact pieceAt_field hne h (stops_cons hword rest) depth
  | comparison c => cases c <;> rcases hb with rfl | rfl <;> rfl
  | assign | pipe | leftParen => rcases hb with rfl | rfl <;> rfl
  | rightParen =>
    obtain ⟨depth, rfl⟩ := Nat.exists_eq_succ_of_ne_zero fun h0 => hdepth ⟨rfl, h0⟩
    rcases hb with rfl | rfl <;> rfl
  | char h =>
    have hbrace : b ≠ '}' := by rcases hb with rfl | rfl <;> decide
    exact h.pieceAt_append hword hbrace depth rest

/-- A lexeme that is read again as it was written, if a space is behind it. -/
structure Rereads (kind : Kind) (cs : List Char) : Prop where
  piece : ∀ rest, pieceAt 0 (cs ++ ' ' :: rest) = .lexeme kind cs.length
  plain : kind ≠ .leftParen ∧ kind ≠ .rightParen

theorem Lexical.rereads {kind : Kind} {cs : List Char} (h : Lexical kind cs)
    (hplain : kind ≠ .leftParen ∧ kind ≠ .rightParen) : Rereads kind cs :=
  ⟨h.before_blank (fun hparen => hplain.2 hparen.1) (.inl rfl), hplain⟩

/-! ## The parts of a condition -/

theorem rereads_word {s : String} (hs : IsWord s) : Rereads (wordKind s) s.toList :=
  (lexical_wordKind (.inl hs)).rereads (wordKind_ne_paren _)

theorem rereads_name {s : String} (hs : IsName s) : Rereads .identifier s.toList :=
  (Lexical.name hs).rereads (by decide)

theorem toList_writeWord (n : Int64) : ∃ m : Nat, (writeWord n).toList = Nat.toDigits 10 m ∧ n.toInt = m ∨
    (writeWord n).toList = '-' :: Nat.toDigits 10 m ∧ n.toInt = -(m : Int) := by
  unfold writeWord
  cases n.toInt with
  | ofNat m => exact ⟨m, .inl ⟨by simp [toString, Int.repr, Nat.repr], rfl⟩⟩
  | negSucc m => exact ⟨m + 1, .inr ⟨by simp [toString, Int.repr, Nat.repr], rfl⟩⟩

theorem isDigit_of_mem_digits {m : Nat} {c : Char} (h : c ∈ Nat.toDigits 10 m) : c.isDigit = true :=
  Nat.isDigit_of_mem_toDigits (by omega) (by omega) h

theorem writesWord_writeWord (n : Int64) : WritesWord (writeWord n) n := by
  obtain ⟨m, ⟨hs, hn⟩ | ⟨hs, hn⟩⟩ := toList_writeWord n
  · rw [WritesWord, hs, hn]
    have h := WritesInt.plain (Nat.toDigits 10 m) (by simp) fun c hc => isDigit_of_mem_digits hc
    simpa using h
  · rw [WritesWord, hs, hn]
    have h := WritesInt.minus (Nat.toDigits 10 m) (by simp) fun c hc => isDigit_of_mem_digits hc
    simpa using h

theorem isNumber_of_writesInt {cs : List Char} {z : Int} (h : WritesInt cs z) : IsNumber cs := by
  have hunsigned : ∀ ds : List Char, (∀ c ∈ ds, c.isDigit = true) → IsUnsigned ds := by
    intro ds hds
    have hdigits : Digits .decimal ds := fun c hc => by simp [Radix.isDigit, hds c hc]
    have hparts := IsUnsigned.parts .decimal (List.mem_singleton.2 rfl) hdigits .none .none
    simpa using hparts
  cases h with
  | plain ds hne hds =>
    obtain ⟨c, cs, rfl⟩ := List.exists_cons_of_ne_nil hne
    exact ⟨⟨c, rfl, by simp [startsNumber, hds c List.mem_cons_self]⟩, ⟨[], _, rfl, .none, hunsigned _ hds⟩⟩
  | plus ds _ hds => exact ⟨⟨'+', rfl, rfl⟩, ⟨['+'], ds, rfl, .sign rfl, hunsigned _ hds⟩⟩
  | minus ds _ hds => exact ⟨⟨'-', rfl, rfl⟩, ⟨['-'], ds, rfl, .sign rfl, hunsigned _ hds⟩⟩

theorem rereads_number (n : Int64) : Rereads .number (writeWord n).toList :=
  (Lexical.number (isNumber_of_writesInt (writesWord_writeWord n))).rereads (by decide)

def escape (c : Char) : List Char :=
  if c = '\\' then ['\\', '\\'] else if c = '"' then ['\\', '"'] else if c = '\n' then ['\\', 'n'] else [c]

def quotedLiteral (s : String) : List Char := '"' :: (s.toList.flatMap escape ++ ['"'])

def escapeIn (quote c : Char) : List Char :=
  if c = '\\' then ['\\', '\\'] else if c = quote then ['\\', quote] else if c = '\n' then ['\\', 'n'] else [c]

def literalIn (quote : Char) (s : String) : List Char := quote :: (s.toList.flatMap (escapeIn quote) ++ [quote])

theorem literalIn_doubleQuote (s : String) : literalIn '"' s = quotedLiteral s := rfl

variable {quote : Char}

theorem unescape_escapeIn (hquote : quote = '"' ∨ quote = '\'') (c : Char) (cs : List Char) :
    unescape (escapeIn quote c ++ cs) = c :: unescape cs := by
  unfold escapeIn
  split
  · subst c; rfl
  split
  · subst c
    rcases hquote with rfl | rfl <;> rfl
  split
  · subst c; rfl
  · exact unescape_cons_of_ne ‹_› cs

theorem unescape_flatMap_escapeIn (hquote : quote = '"' ∨ quote = '\'') : ∀ cs : List Char,
    unescape (cs.flatMap (escapeIn quote)) = cs
  | [] => rfl
  | c :: cs => by rw [List.flatMap_cons, unescape_escapeIn hquote, unescape_flatMap_escapeIn hquote cs]

/-- A string between quotes stands for itself. -/
theorem literalValue_literalIn (hquote : quote = '"' ∨ quote = '\'') (s : String) :
    literalValue (String.ofList (literalIn quote s)) = s := by
  rw [literalValue, String.toList_ofList, literalIn, List.drop_one, List.tail_cons, List.dropLast_concat,
    unescape_flatMap_escapeIn hquote, String.ofList_toList]

theorem quotedBody_escapeIn (hquote : quote = '"' ∨ quote = '\'') (c : Char) {cs : List Char} (h : QuotedBody quote cs) :
    QuotedBody quote (escapeIn quote c ++ cs) := by
  unfold escapeIn
  split
  · exact .escaped (by decide) h
  split
  · exact .escaped (by rcases hquote with rfl | rfl <;> decide) h
  split
  · exact .escaped (by decide) h
  · exact .plain ‹_› ‹_› ‹_› h

theorem quotedBody_flatMap_escapeIn (hquote : quote = '"' ∨ quote = '\'') : ∀ cs : List Char,
    QuotedBody quote (cs.flatMap (escapeIn quote))
  | [] => .nil
  | c :: cs => by
    rw [List.flatMap_cons]
    exact quotedBody_escapeIn hquote c (quotedBody_flatMap_escapeIn hquote cs)

theorem literalValue_quotedLiteral (s : String) : literalValue (String.ofList (quotedLiteral s)) = s := by
  rw [← literalIn_doubleQuote, literalValue_literalIn (.inl rfl)]

theorem lexical_literalIn (hquote : quote = '"' ∨ quote = '\'') (s : String) : Lexical .string (literalIn quote s) :=
  .string hquote (quotedBody_flatMap_escapeIn hquote s.toList)

theorem rereads_string (s : String) : Rereads .string (quotedLiteral s) := by
  rw [← literalIn_doubleQuote]
  exact (lexical_literalIn (.inl rfl) s).rereads (by decide)

theorem rereads_comparison (c : Comparison) : Rereads .comparison c.symbol.toList :=
  (Lexical.comparison c).rereads (by decide)

end Stencil
