import Stencil.Proofs.Stages
/-!
# How a meter reads numbers, words and strings

A meter does not know how long a lexeme is before it has read it, a character at a time.  What it has read then is as
long as the length of the lexeme says.
-/
namespace Stencil
namespace Meter

variable {source : String} {v w : Stage}

/-! ## Numbers -/

theorem rest_read_one {c : Char} {more : List Char} (h : v.rest = c :: more) : (v.read 1).rest = more := by
  rw [Stage.read, h]
  rfl

theorem exists_of_passes {p : Char → Bool} {cs : List Char} (h : cs.head?.any p = true) :
    ∃ c more, cs = c :: more ∧ p c = true := by
  cases cs with
  | nil => cases h
  | cons c more => exact ⟨c, more, rfl, h⟩

theorem Follows.signed {β : Type} {f : Bool → Metered β} {b : β}
    (h : ∀ passed, Follows source (f passed) (v.read (signLength v.rest)) b w) :
    Follows source (accept isSign >>= f) v b w := by
  refine .accepting (fun hpass => ?_) fun hfail => ?_
  · have hsign : signLength v.rest = 1 := by
      obtain ⟨c, more, hrest, hc⟩ := exists_of_passes hpass
      rw [hrest]
      exact if_pos hc
    have h := h true
    rwa [hsign] at h
  · have hsign : signLength v.rest = 0 := by
      cases hrest : v.rest with
      | nil => rfl
      | cons c more => rw [hrest] at hfail; exact if_neg (Bool.eq_false_iff.1 hfail)
    have h := h false
    rwa [hsign, Stage.read_zero] at h

theorem announced_zero (cs : List Char) : Radix.announced ('0' :: cs) =
    if cs.head?.any (fun c => c == 'x' || c == 'X') then .hexadecimal
    else if cs.head?.any (fun c => c == 'o' || c == 'O') then .octal
    else if cs.head?.any (fun c => c == 'b' || c == 'B') then .binary
    else .decimal := by
  cases cs with
  | nil => rfl
  | cons c cs => simp [Radix.announced]

theorem follows_letter : Follows source letter v (Radix.announced ('0' :: v.rest))
    (v.read (if Radix.announced ('0' :: v.rest) = .decimal then 0 else 1)) := by
  rw [announced_zero]
  refine .accepting (fun hx => ?_) fun hx => ?_
  · rw [if_pos hx]
    exact follows_pure _ _
  rw [if_neg (Bool.eq_false_iff.1 hx)]
  refine .accepting (fun ho => ?_) fun ho => ?_
  · rw [if_pos ho]
    exact follows_pure _ _
  rw [if_neg (Bool.eq_false_iff.1 ho)]
  refine .accepting (fun hb => ?_) fun hb => ?_
  · rw [if_pos hb]
    exact follows_pure _ _
  · rw [if_neg (Bool.eq_false_iff.1 hb), if_pos rfl, Stage.read_zero]
    exact follows_pure _ _

theorem follows_base : ∃ n, Follows source base v (Radix.announced v.rest) (v.read n) ∧
    n + runLength (Radix.announced v.rest).isDigit (v.rest.drop n) =
      (Radix.announced v.rest).markLength +
        runLength (Radix.announced v.rest).isDigit (v.rest.drop (Radix.announced v.rest).markLength) := by
  cases hzero : v.rest.head?.any (· == '0') with
  | false =>
    have hdecimal : Radix.announced v.rest = .decimal := by
      cases hrest : v.rest with
      | nil => rfl
      | cons c cs =>
        rw [hrest] at hzero
        exact announced_eq_decimal (by simpa using hzero) cs
    refine ⟨0, ?_, by rw [hdecimal]; rfl⟩
    rw [hdecimal, Stage.read_zero]
    exact (follows_refuse hzero).bind (follows_pure _ _)
  | true =>
    obtain ⟨c, cs, hrest, hc⟩ := exists_of_passes hzero
    obtain rfl : c = '0' := by simpa using hc
    have hletter : Follows source letter (v.read 1) _ _ := follows_letter
    rw [rest_read_one hrest, Stage.read_read] at hletter
    rw [hrest]
    refine ⟨_, (follows_accept hzero).bind hletter, ?_⟩
    cases Radix.announced ('0' :: cs) with
    | decimal =>
      show 1 + runLength Radix.decimal.isDigit cs = 0 + runLength Radix.decimal.isDigit ('0' :: cs)
      rw [runLength_cons, if_pos (by decide)]
      omega
    | binary | octal | hexadecimal => rfl

theorem follows_fraction (r : Radix) : Follows source (fraction r) v () (v.read (fractionLength r v.rest)) := by
  refine .accepting (fun hpass => ?_) fun hfail => ?_
  · obtain ⟨c, more, hrest, hc⟩ := exists_of_passes hpass
    obtain rfl : c = '.' := by simpa using hc
    have hrun : Follows source (acceptRun r.isDigit) (v.read 1) () _ := follows_acceptRun _
    rw [rest_read_one hrest, Stage.read_read] at hrun
    rw [hrest]
    exact hrun
  · have hzero : fractionLength r v.rest = 0 := by
      cases hrest : v.rest with
      | nil => rfl
      | cons c more =>
        rw [hrest] at hfail
        unfold fractionLength
        split
        · rename_i heq
          obtain ⟨rfl, -⟩ := List.cons.inj heq
          cases hfail
        · rfl
    rw [hzero, v.read_zero]
    exact follows_pure () v

theorem follows_exponent (r : Radix) : Follows source (exponent r) v () (v.read (exponentLength r v.rest)) := by
  have none (h : v.rest.head?.any r.isExponent = false) : exponentLength r v.rest = 0 := by
    cases hrest : v.rest with
    | nil => rfl
    | cons c more =>
      rw [hrest] at h
      exact if_neg (Bool.eq_false_iff.1 h)
  unfold exponent
  split
  · refine .accepting (fun hpass => ?_) fun hfail => ?_
    · obtain ⟨c, more, hrest, hc⟩ := exists_of_passes hpass
      have hlength : exponentLength r v.rest =
          1 + signLength more + runLength Radix.decimal.isDigit (more.drop (signLength more)) := by
        rw [hrest]
        exact if_pos hc
      have hmore := rest_read_one hrest
      refine .signed fun _ => ?_
      have hrun : Follows source (acceptRun Radix.decimal.isDigit) ((v.read 1).read (signLength more)) () _ :=
        follows_acceptRun _
      rw [Stage.rest_read, hmore, Stage.read_read, Stage.read_read] at hrun
      rw [hmore, hlength, Stage.read_read]
      exact hrun
    · rw [none hfail, Stage.read_zero]
      exact follows_pure () v
  · rename_i hr
    have hnone : v.rest.head?.any r.isExponent = false := by
      cases r with
      | decimal | hexadecimal => simp at hr
      | binary | octal => cases v.rest <;> rfl
    rw [none hnone, Stage.read_zero]
    exact follows_pure () v

theorem follows_unsigned : Follows source unsigned v () (v.read (unsignedLength v.rest)) := by
  obtain ⟨n, hbase, hmark⟩ := (follows_base : ∃ n, Follows source base v _ (v.read n) ∧ _)
  generalize hr : Radix.announced v.rest = r at hbase hmark
  have hrun : Follows source (acceptRun r.isDigit) (v.read n) () _ := follows_acceptRun _
  rw [Stage.rest_read, Stage.read_read, hmark] at hrun
  generalize hwhole : r.markLength + runLength r.isDigit (v.rest.drop r.markLength) = whole at hrun
  have hfraction : Follows source (fraction r) (v.read whole) () _ := follows_fraction r
  rw [Stage.rest_read, Stage.read_read] at hfraction
  generalize hpart : whole + fractionLength r (v.rest.drop whole) = part at hfraction
  have hexponent : Follows source (exponent r) (v.read part) () _ := follows_exponent r
  rw [Stage.rest_read, Stage.read_read] at hexponent
  have hlength : unsignedLength v.rest = part + exponentLength r (v.rest.drop part) := by
    subst hr hwhole hpart
    rfl
  rw [hlength]
  exact hbase.bind (hrun.bind (hfraction.bind hexponent))

theorem follows_number : Follows source number v (some .inside) ((v.read (numberLength v.rest)).emit .number) := by
  refine .signed fun _ => ?_
  have hunsigned : Follows source unsigned (v.read (signLength v.rest)) () _ := follows_unsigned
  rw [Stage.rest_read, Stage.read_read] at hunsigned
  exact hunsigned.bind (follows_emitInside .number)

/-! ## Words and strings -/

theorem follows_word : Follows source word v (some .inside) ((v.read (wordLength v.rest)).emit
    (wordKind (String.ofList (v.read (wordLength v.rest)).lexeme))) := by
  have hrun : Follows source (acceptRun isWordChar) (v.read 1) () _ := follows_acceptRun _
  rw [Stage.rest_read, Stage.read_read] at hrun
  have hlength : v.read (1 + runLength isWordChar (v.rest.drop 1)) = v.read (wordLength v.rest) := by
    cases hrest : v.rest with
    | nil => rw [Stage.read_of_nil hrest, Stage.read_of_nil hrest]
    | cons c more => rfl
  rw [hlength] at hrun
  exact follows_bump.bind (hrun.bind (follows_lexeme.bind (follows_emitInside _)))

theorem quoted_eq (quote : Char) : quoted quote = bump >>= fun
    | none => complain .unterminated
    | some c =>
      if c = '\\' then bump >>= fun
        | none => complain .unterminated
        | some d => if d = '\n' then complain .unterminated else quoted quote
      else if c = '\n' then complain .unterminated
      else if c = quote then emitInside .string
      else quoted quote := by
  funext m
  show quotedFrom quote m = StateT.run (bump >>= _) m
  rw [quotedFrom, StateT.run_bind]
  split
  · rename_i h
    rw [h]
    rfl
  · rename_i c m' h
    rw [h]
    show _ = StateT.run (if c = '\\' then bump >>= _ else if c = '\n' then complain .unterminated
      else if c = quote then emitInside .string else quoted quote) m'
    split
    · rw [StateT.run_bind]
      split
      · rename_i h'
        rw [h']
        rfl
      · rename_i d m'' h'
        rw [h']
        show _ = StateT.run (if d = '\n' then complain .unterminated else quoted quote) m''
        split <;> rfl
    · split
      · rfl
      · split <;> rfl

theorem Follows.escaped {quote : Char} {cs : List Char} {a : Option Mode} (hrest : v.rest = '\\' :: cs)
    (h : Follows source (match cs.head? with
      | none => complain .unterminated
      | some d => if d = '\n' then complain .unterminated else quoted quote) (v.read 2) a w) :
    Follows source (quoted quote) v a w := by
  rw [quoted_eq]
  refine follows_bump.bind ?_
  rw [hrest]
  refine follows_bump.bind ?_
  rw [rest_read_one hrest, Stage.read_read]
  exact h

theorem Follows.unescaped {quote c : Char} {cs : List Char} {a : Option Mode} (hrest : v.rest = c :: cs)
    (hc : c ≠ '\\') (h : Follows source (if c = '\n' then complain .unterminated
      else if c = quote then emitInside .string else quoted quote) (v.read 1) a w) :
    Follows source (quoted quote) v a w := by
  rw [quoted_eq]
  refine follows_bump.bind ?_
  rw [hrest]
  show Follows source (if c = '\\' then _ else _) _ a w
  rw [if_neg hc]
  exact h

/-- A string is read up to the quote that ends it, or up to where it turns out that none does. -/
theorem follows_quoted (source : String) (quote : Char) : ∀ {rest : List Char} {v : Stage}, v.rest = rest → ∃ n,
    quotedLength? quote rest = some n ∧ Follows source (quoted quote) v (some .inside) ((v.read n).emit .string) ∨
      quotedLength? quote rest = none ∧ Follows source (quoted quote) v none ((v.read n).complain .unterminated)
  | [], v, hrest => by
    refine ⟨1, .inr ⟨rfl, ?_⟩⟩
    rw [quoted_eq]
    refine follows_bump.bind ?_
    rw [hrest]
    exact follows_complain .unterminated
  | c :: cs, v, hrest => by
    by_cases hbackslash : c = '\\'
    · subst hbackslash
      cases cs with
      | nil => exact ⟨2, .inr ⟨rfl, .escaped hrest (follows_complain .unterminated)⟩⟩
      | cons c cs =>
        have hcs : (v.read 2).rest = cs := by rw [Stage.rest_read, hrest]; rfl
        by_cases hline : c = '\n'
        · refine ⟨2, .inr ⟨if_pos hline, .escaped hrest ?_⟩⟩
          simp only [List.head?_cons, if_pos hline]
          exact follows_complain .unterminated
        have hgoes {a : Option Mode} {w : Stage} (h : Follows source (quoted quote) (v.read 2) a w) :
            Follows source (quoted quote) v a w := by
          refine .escaped hrest ?_
          simp only [List.head?_cons, if_neg hline]
          exact h
        have hlength : quotedLength? quote ('\\' :: c :: cs) = (quotedLength? quote cs).map (· + 2) := if_neg hline
        obtain ⟨n, ih⟩ := follows_quoted source quote hcs
        rw [Stage.read_read, Nat.add_comm] at ih
        refine ⟨n + 2, ih.imp (fun ⟨hq, h⟩ => ⟨?_, hgoes h⟩) fun ⟨hq, h⟩ => ⟨?_, hgoes h⟩⟩
        · rw [hlength, hq]; rfl
        · rw [hlength, hq]; rfl
    · rw [quotedLength?_cons hbackslash]
      by_cases hline : c = '\n'
      · refine ⟨1, .inr ⟨if_pos hline, .unescaped hrest hbackslash ?_⟩⟩
        rw [if_pos hline]
        exact follows_complain .unterminated
      by_cases hquote : c = quote
      · rw [if_neg hline, if_pos hquote]
        refine ⟨1, .inl ⟨rfl, .unescaped hrest hbackslash ?_⟩⟩
        rw [if_neg hline, if_pos hquote]
        exact follows_emitInside .string
      have hgoes {a : Option Mode} {w : Stage} (h : Follows source (quoted quote) (v.read 1) a w) :
          Follows source (quoted quote) v a w := by
        refine .unescaped hrest hbackslash ?_
        rwa [if_neg hline, if_neg hquote]
      rw [if_neg hline, if_neg hquote]
      obtain ⟨n, ih⟩ := follows_quoted source quote (rest_read_one hrest)
      rw [Stage.read_read, Nat.add_comm] at ih
      refine ⟨n + 1, ih.imp (fun ⟨hq, h⟩ => ⟨?_, hgoes h⟩) fun ⟨hq, h⟩ => ⟨?_, hgoes h⟩⟩
      · rw [hq]; rfl
      · rw [hq]; rfl

end Meter
end Stencil
