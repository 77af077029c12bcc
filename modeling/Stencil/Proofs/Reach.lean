import Stencil.Token.Lexeme
/-!
# How far lexemes reach

The length of a lexeme stays within what is left of the source, and it shows in the characters of the lexeme and in one
more behind them.  So it is the same before any two sources that agree on those (`NearSighted`).  A string shows in its
own characters alone.
-/
namespace Stencil

/-! ## How long lexemes are at most -/

theorem runLength_le (p : Char → Bool) (cs : List Char) : runLength p cs ≤ cs.length :=
  (List.takeWhile_sublist p).length_le

theorem signLength_le : ∀ cs : List Char, signLength cs ≤ cs.length
  | [] => Nat.le_refl 0
  | c :: cs => by
    rw [signLength, List.length_cons]
    split <;> omega

theorem fractionLength_le (r : Radix) (cs : List Char) : fractionLength r cs ≤ cs.length := by
  unfold fractionLength
  split
  · rename_i cs
    have := runLength_le r.isDigit cs
    rw [List.length_cons]
    omega
  · exact Nat.zero_le _

theorem exponentLength_le (r : Radix) : ∀ cs : List Char, exponentLength r cs ≤ cs.length
  | [] => Nat.le_refl 0
  | c :: cs => by
    have hsign := signLength_le cs
    have hrun := runLength_le Radix.decimal.isDigit (cs.drop (signLength cs))
    rw [List.length_drop] at hrun
    rw [exponentLength, List.length_cons]
    split
    · simp only
      omega
    · exact Nat.zero_le _

theorem markLength_announced_le (cs : List Char) : (Radix.announced cs).markLength ≤ cs.length := by
  unfold Radix.announced
  split
  · repeat' split
    all_goals simp [Radix.markLength]
  · exact Nat.zero_le _

theorem unsignedLength_le (cs : List Char) : unsignedLength cs ≤ cs.length := by
  have hmark := markLength_announced_le cs
  have hrun := runLength_le (Radix.announced cs).isDigit (cs.drop (Radix.announced cs).markLength)
  unfold unsignedLength
  rw [List.length_drop] at hrun
  generalize hwhole : (Radix.announced cs).markLength
    + runLength (Radix.announced cs).isDigit (cs.drop (Radix.announced cs).markLength) = whole
  have hfraction := fractionLength_le (Radix.announced cs) (cs.drop whole)
  rw [List.length_drop] at hfraction
  have hexponent := exponentLength_le (Radix.announced cs)
    (cs.drop (whole + fractionLength (Radix.announced cs) (cs.drop whole)))
  rw [List.length_drop] at hexponent
  simp only [hwhole]
  omega

theorem numberLength_le (cs : List Char) : numberLength cs ≤ cs.length := by
  have hsign := signLength_le cs
  have hrest := unsignedLength_le (cs.drop (signLength cs))
  rw [List.length_drop] at hrest
  rw [numberLength]
  omega

theorem wordLength_le : ∀ cs : List Char, wordLength cs ≤ cs.length
  | [] => Nat.le_refl 0
  | _ :: cs => by
    have := runLength_le isWordChar cs
    rw [wordLength, List.length_cons]
    omega

theorem quotedLength?_le {quote : Char} : ∀ {cs : List Char} {n : Nat}, quotedLength? quote cs = some n → n ≤ cs.length
  | [], _, h => by cases h
  | c :: cs, n, h => by
    unfold quotedLength? at h
    split at h
    · cases h
    · cases h
    · rename_i heq
      split at h
      · cases h
      · obtain ⟨m, hm, rfl⟩ := Option.map_eq_some_iff.1 h
        have := quotedLength?_le hm
        rw [heq, List.length_cons, List.length_cons]
        omega
    · rename_i heq
      obtain ⟨rfl, rfl⟩ := List.cons.inj heq
      rw [List.length_cons]
      split at h
      · cases h
      split at h
      · cases h; omega
      · obtain ⟨m, hm, rfl⟩ := Option.map_eq_some_iff.1 h
        have := quotedLength?_le hm
        omega

theorem markOf_length_le {c : Char} {more : List Char} {kind : Kind} {n : Nat} (h : markOf c more = .lexeme kind n) :
    n ≤ (c :: more).length := by
  have hsound := markOf_sound c more
  rw [h] at hsound
  rw [List.length_cons]
  cases hsound with
  | one => exact Nat.le_add_left 1 more.length
  | two hd =>
    cases more with
    | nil => cases hd
    | cons d more => exact Nat.le_add_left 2 more.length

/-! ## How far ahead a length looks -/

/-- A length that shows in the characters it covers and the one behind them. -/
def NearSighted (f : List Char → Nat) : Prop :=
  ∀ cs ds : List Char, cs.take (f cs + 1) = ds.take (f cs + 1) → f ds = f cs

theorem take_le_of_take {m n : Nat} {cs ds : List Char} (h : cs.take n = ds.take n) (hmn : m ≤ n) :
    cs.take m = ds.take m := by
  rw [← Nat.min_eq_left hmn, ← List.take_take, ← List.take_take, h]

theorem drop_take_of_take {m n : Nat} {cs ds : List Char} (h : cs.take (m + n) = ds.take (m + n)) :
    (cs.drop m).take n = (ds.drop m).take n := by
  have hcs : ∀ es : List Char, (es.drop m).take n = (es.take (m + n)).drop m := by
    intro es
    rw [List.drop_take, Nat.add_sub_cancel_left]
  rw [hcs, hcs, h]

theorem eq_nil_of_take {n : Nat} {ds : List Char} (h : [].take (n + 1) = ds.take (n + 1)) : ds = [] := by
  cases ds with
  | nil => rfl
  | cons d ds => cases h

theorem eq_cons_of_take {n : Nat} {c : Char} {cs ds : List Char} (h : (c :: cs).take (n + 1) = ds.take (n + 1)) :
    ∃ ds', ds = c :: ds' ∧ cs.take n = ds'.take n := by
  cases ds with
  | nil => cases h
  | cons d ds =>
    obtain ⟨rfl, hds⟩ := List.cons.inj h
    exact ⟨ds, rfl, hds⟩

theorem head?_eq_of_take {n : Nat} {cs ds : List Char} (h : cs.take (n + 1) = ds.take (n + 1)) : cs.head? = ds.head? := by
  cases cs with
  | nil => rw [eq_nil_of_take h]
  | cons c cs =>
    obtain ⟨ds, rfl, -⟩ := eq_cons_of_take h
    rfl

namespace NearSighted

theorem const (n : Nat) : NearSighted (fun _ => n) := fun _ _ _ => rfl

theorem andThen {f g : List Char → Nat} (hf : NearSighted f) (hg : NearSighted g) :
    NearSighted (fun cs => f cs + g (cs.drop (f cs))) := by
  intro cs ds h
  have hfd : f ds = f cs := hf cs ds (take_le_of_take h (by show _ ≤ f cs + g _ + 1; omega))
  rw [Nat.add_assoc] at h
  show f ds + g (ds.drop (f ds)) = _
  rw [hfd, hg _ _ (drop_take_of_take h)]

theorem runLength (p : Char → Bool) : NearSighted (runLength p)
  | [], ds, h => by rw [eq_nil_of_take h]
  | c :: cs, ds, h => by
    obtain ⟨ds, rfl, hds⟩ := eq_cons_of_take h
    by_cases hc : p c = true
    · have hrun : ∀ es, Stencil.runLength p (c :: es) = Stencil.runLength p es + 1 := by
        intro es
        rw [Stencil.runLength, List.takeWhile_cons_of_pos hc, List.length_cons]
        rfl
      rw [hrun] at hds
      rw [hrun, hrun, runLength p cs ds hds]
    · have hrun : ∀ es, Stencil.runLength p (c :: es) = 0 := by
        intro es
        rw [Stencil.runLength, List.takeWhile_cons_of_neg hc]
        rfl
      rw [hrun, hrun]

theorem signLength : NearSighted signLength
  | [], ds, h => by rw [eq_nil_of_take h]
  | c :: cs, ds, h => by
    obtain ⟨ds, rfl, -⟩ := eq_cons_of_take h
    rfl

theorem fractionLength (r : Radix) : NearSighted (fractionLength r)
  | [], ds, h => by rw [eq_nil_of_take h]
  | c :: cs, ds, h => by
    obtain ⟨ds, rfl, hds⟩ := eq_cons_of_take h
    by_cases hc : c = '.'
    · subst hc
      have hdot : ∀ es, Stencil.fractionLength r ('.' :: es) = 1 + Stencil.runLength r.isDigit es := fun _ => rfl
      rw [hdot] at hds
      rw [hdot, hdot, runLength r.isDigit cs ds (take_le_of_take hds (by omega))]
    · have hzero : ∀ es, Stencil.fractionLength r (c :: es) = 0 := by
        intro es
        unfold Stencil.fractionLength
        split
        · rename_i heq
          exact absurd (List.cons.inj heq).1 hc
        · rfl
      rw [hzero, hzero]

theorem exponentLength (r : Radix) : NearSighted (exponentLength r)
  | [], ds, h => by rw [eq_nil_of_take h]
  | c :: cs, ds, h => by
    obtain ⟨ds, rfl, hds⟩ := eq_cons_of_take h
    by_cases hc : r.isExponent c = true
    · have hexp : ∀ es, Stencil.exponentLength r (c :: es)
          = 1 + (Stencil.signLength es + Stencil.runLength Radix.decimal.isDigit (es.drop (Stencil.signLength es))) := by
        intro es
        simp only [Stencil.exponentLength, if_pos hc, Nat.add_assoc]
      rw [hexp] at hds
      rw [hexp, hexp]
      rw [Nat.add_comm 1] at hds
      exact congrArg (1 + ·) (andThen signLength (runLength _) cs ds (take_le_of_take hds (Nat.le_refl _)))
    · simp only [Stencil.exponentLength, if_neg hc]

theorem digitsLength (r : Radix) : NearSighted (fun cs =>
    let whole := r.markLength + Stencil.runLength r.isDigit (cs.drop r.markLength)
    let fraction := whole + Stencil.fractionLength r (cs.drop whole)
    fraction + Stencil.exponentLength r (cs.drop fraction)) :=
  andThen (andThen (andThen (const r.markLength) (runLength r.isDigit)) (fractionLength r)) (exponentLength r)

end NearSighted

theorem announced_eq_of_take {cs ds : List Char} (h : cs.take 2 = ds.take 2) : Radix.announced ds = Radix.announced cs := by
  cases cs with
  | nil => rw [eq_nil_of_take h]
  | cons c cs =>
    obtain ⟨ds, rfl, hds⟩ := eq_cons_of_take h
    cases cs with
    | nil => rw [eq_nil_of_take hds]
    | cons c' cs =>
      obtain ⟨ds, rfl, -⟩ := eq_cons_of_take hds
      by_cases hc : c = '0'
      · subst hc
        rfl
      · unfold Radix.announced
        split
        · rename_i heq
          exact absurd (List.cons.inj heq).1 hc
        · split
          · rename_i heq
            exact absurd (List.cons.inj heq).1 hc
          · rfl

theorem unsignedLength_zero_pos (cs : List Char) : 0 < unsignedLength ('0' :: cs) := by
  unfold unsignedLength
  cases hr : Radix.announced ('0' :: cs) with
  | decimal =>
    have : 0 < runLength Radix.decimal.isDigit ('0' :: cs) := by simp [runLength, Radix.isDigit]
    simp only [Radix.markLength, List.drop_zero, Nat.zero_add]
    omega
  | binary | octal | hexadecimal =>
    simp only [Radix.markLength]
    omega

theorem announced_eq_decimal {c : Char} (hc : c ≠ '0') (cs : List Char) : Radix.announced (c :: cs) = .decimal := by
  unfold Radix.announced
  split
  · rename_i heq
    exact absurd (List.cons.inj heq).1 hc
  · rfl

theorem NearSighted.unsignedLength : NearSighted unsignedLength := by
  intro cs ds h
  have hr : Radix.announced ds = Radix.announced cs := by
    cases cs with
    | nil => rw [eq_nil_of_take h]
    | cons c cs =>
      by_cases hc : c = '0'
      · subst hc
        have := unsignedLength_zero_pos cs
        exact announced_eq_of_take (take_le_of_take h (by omega))
      · obtain ⟨ds, rfl, -⟩ := eq_cons_of_take h
        rw [announced_eq_decimal hc, announced_eq_decimal hc]
  have := digitsLength (Radix.announced cs) cs ds h
  rw [Stencil.unsignedLength, hr]
  exact this

theorem NearSighted.numberLength : NearSighted numberLength := signLength.andThen unsignedLength

theorem NearSighted.wordLength : NearSighted wordLength
  | [], ds, h => by rw [eq_nil_of_take h]
  | c :: cs, ds, h => by
    obtain ⟨ds, rfl, hds⟩ := eq_cons_of_take h
    rw [Stencil.wordLength] at hds
    rw [Stencil.wordLength, Stencil.wordLength, runLength isWordChar cs ds (take_le_of_take hds (by omega))]

theorem quotedLength?_cons {quote c : Char} (hc : c ≠ '\\') (cs : List Char) :
    quotedLength? quote (c :: cs) =
      if c = '\n' then none else if c = quote then some 1 else (quotedLength? quote cs).map (· + 1) := by
  rw [quotedLength?]
  · rintro rfl
    exact absurd rfl hc
  · rintro d ds rfl
    exact absurd rfl hc

theorem quotedLength?_eq_of_take {quote : Char} : ∀ {cs ds : List Char} {n : Nat}, quotedLength? quote cs = some n →
    cs.take n = ds.take n → quotedLength? quote ds = some n
  | [], _, _, h, _ => by cases h
  | c :: cs, ds, n, h, hds => by
    by_cases hc : c = '\\'
    · subst hc
      cases cs with
      | nil => cases h
      | cons d cs =>
        rw [quotedLength?] at h
        split at h
        · cases h
        · rename_i hd
          obtain ⟨m, hm, rfl⟩ := Option.map_eq_some_iff.1 h
          obtain ⟨ds', rfl, hds'⟩ := eq_cons_of_take hds
          obtain ⟨ds, rfl, hcs⟩ := eq_cons_of_take hds'
          rw [quotedLength?, if_neg hd, quotedLength?_eq_of_take hm hcs]
          rfl
    · rw [quotedLength?_cons hc] at h
      split at h
      · cases h
      · rename_i hline
        split at h
        · rename_i hquote
          cases h
          obtain ⟨ds, rfl, -⟩ := eq_cons_of_take hds
          rw [quotedLength?_cons hc, if_neg hline, if_pos hquote]
        · rename_i hquote
          obtain ⟨m, hm, rfl⟩ := Option.map_eq_some_iff.1 h
          obtain ⟨ds, rfl, hcs⟩ := eq_cons_of_take hds
          rw [quotedLength?_cons hc, if_neg hline, if_neg hquote, quotedLength?_eq_of_take hm hcs]
          rfl

end Stencil
