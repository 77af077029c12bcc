import Stencil.Proofs.Relocation
import Stencil.Proofs.Scans
/-!
# Two sources, one behind the other

A scan that comes to the end of its source stands in the text there, with no parenthesis open, so it goes on with whatever
is put behind the source.  It delivers what it would have, then what a scan of the second source does from there.  Only a
text that ends the first source and a text that starts the second come as one (`seam`).
-/
namespace Stencil

variable {R : Place → Place → Prop}

/-! ## Starting elsewhere -/

theorem Place.rel_after (hR : ∀ p q c, R p q → R (p.next c) (q.next c)) : ∀ (cs : List Char) {p q : Place}, R p q →
    R (p.after cs) (q.after cs)
  | [], _, _, h => h
  | c :: cs, _, _, h => rel_after hR cs (hR _ _ c h)

theorem Token.alike_mk (kind : Kind) (text : String) {p q : Place} (h : R p q) :
    Token.Alike R ⟨kind, text, p⟩ ⟨kind, text, q⟩ := ⟨rfl, rfl, h⟩

/-- A scan that starts in another place delivers the same tokens in other places. -/
theorem Scans.relocate (hR : ∀ p q c, R p q → R (p.next c) (q.next c)) {zone : Zone} {p : Place} {cs : List Char}
    {ts : List Token} (h : Scans zone p cs ts) :
    ∀ {q : Place}, R p q → ∃ us, Scans zone q cs us ∧ List.Forall₂ (Token.Alike R) ts us := by
  induction h with
  | done p =>
    intro q hq
    exact ⟨_, .done q, .cons (Token.alike_mk _ _ hq) .nil⟩
  | text cs hne hcs hrest _ ih =>
    intro q hq
    obtain ⟨us, hus, halike⟩ := ih (Place.rel_after hR cs hq)
    exact ⟨_, .text cs hne hcs hrest hus, .cons (Token.alike_mk _ _ hq) halike⟩
  | opening d _ ih =>
    intro q hq
    obtain ⟨us, hus, halike⟩ := ih (Place.rel_after hR _ hq)
    exact ⟨_, .opening d hus, .cons (Token.alike_mk _ _ hq) halike⟩
  | stray h =>
    intro q hq
    exact ⟨_, .stray h, .cons (Token.alike_mk _ _ hq) .nil⟩
  | blank h _ ih =>
    intro q hq
    obtain ⟨us, hus, halike⟩ := ih (hR _ _ _ hq)
    exact ⟨us, .blank h hus, halike⟩
  | lexeme cs h _ ih =>
    intro q hq
    obtain ⟨us, hus, halike⟩ := ih (Place.rel_after hR cs hq)
    exact ⟨_, .lexeme cs h hus, .cons (Token.alike_mk _ _ hq) halike⟩
  | closing d _ ih =>
    intro q hq
    obtain ⟨us, hus, halike⟩ := ih (Place.rel_after hR _ hq)
    exact ⟨_, .closing d hus, .cons (Token.alike_mk _ _ hq) halike⟩
  | fault h =>
    intro q hq
    exact ⟨_, .fault h, .cons (Token.alike_mk _ _ hq) .nil⟩

/-! ## The seam -/

def Token.merge (t u : Token) : Token := ⟨.text, t.text ++ u.text, t.place⟩

def Token.joinTo (t : Token) : List Token → List Token
  | [] => [t]
  | u :: us => if t.kind = .text ∧ u.kind = .text then t.merge u :: us else t :: u :: us

/-- The tokens of a source behind those of another. -/
def seam : List Token → List Token → List Token
  | [], vs => vs
  | [t], vs => t.joinTo vs
  | t :: us, vs => t :: seam us vs

theorem Token.joinTo_of_ne {t : Token} (h : t.kind ≠ .text) (us : List Token) : t.joinTo us = t :: us := by
  cases us with
  | nil => rfl
  | cons u us => exact if_neg fun hp => h hp.1

theorem seam_cons_of_ne {t : Token} (h : t.kind ≠ .text) (us vs : List Token) : seam (t :: us) vs = t :: seam us vs := by
  cases us with
  | nil => exact Token.joinTo_of_ne h vs
  | cons u us => rfl

theorem seam_cases : ∀ us vs : List Token, seam us vs = us ++ vs ∨
    ∃ us' t v vs', us = us' ++ [t] ∧ vs = v :: vs' ∧ t.kind = .text ∧ v.kind = .text ∧
      seam us vs = us' ++ t.merge v :: vs'
  | [], _ => .inl rfl
  | [t], [] => .inl rfl
  | [t], v :: vs => by
    by_cases h : t.kind = .text ∧ v.kind = .text
    · exact .inr ⟨[], t, v, vs, rfl, rfl, h.1, h.2, if_pos h⟩
    · exact .inl (if_neg h)
  | t :: u :: us, vs => by
    rcases seam_cases (u :: us) vs with h | ⟨us', t', v, vs', hus, hvs, ht, hv, h⟩
    · exact .inl (congrArg (t :: ·) h)
    · exact .inr ⟨t :: us', t', v, vs', congrArg (t :: ·) hus, hvs, ht, hv, congrArg (t :: ·) h⟩

theorem seam_concat {e : Token} (he : e.kind ≠ .text) : ∀ us vs : List Token, seam us (vs ++ [e]) = seam us vs ++ [e]
  | [], _ => rfl
  | [_], [] => if_neg fun h => he h.2
  | [t], v :: vs => by
    by_cases h : t.kind = .text ∧ v.kind = .text
    · rw [seam, seam, List.cons_append, Token.joinTo, Token.joinTo, if_pos h, if_pos h, List.cons_append]
    · rw [seam, seam, List.cons_append, Token.joinTo, Token.joinTo, if_neg h, if_neg h, List.cons_append, List.cons_append]
  | t :: u :: us, vs => congrArg (t :: ·) (seam_concat he (u :: us) vs)

/-! ## Going on -/

theorem Delimiter.openKind_ne (d : Delimiter) : d.openKind ≠ .text ∧ d.openKind ≠ .endOfInput := by cases d <;> decide

theorem Delimiter.closeKind_ne (d : Delimiter) : d.closeKind ≠ .text ∧ d.closeKind ≠ .endOfInput := by cases d <;> decide

section GoingOn

variable {us vs ts : List Token} {e t : Token}

theorem last_of_singleton (h : us ++ [e] = [t]) : us = [] ∧ e = t := by
  cases us with
  | nil => exact ⟨rfl, List.singleton_inj.1 h⟩
  | cons u us => cases us <;> cases h

theorem uncons_of_end (he : e.kind = .endOfInput) (ht : t.kind ≠ .endOfInput) (h : us ++ [e] = t :: ts) :
    ∃ us', us = t :: us' ∧ us' ++ [e] = ts := by
  cases us with
  | nil =>
    obtain ⟨rfl, -⟩ := List.cons.inj h
    exact absurd he ht
  | cons u us =>
    obtain ⟨rfl, hts⟩ := List.cons.inj h
    exact ⟨us, rfl, hts⟩

theorem not_error_of_end (he : e.kind = .endOfInput) {text : String} {p : Place} (h : us ++ [e] = [⟨.error, text, p⟩]) :
    False := by
  obtain ⟨-, rfl⟩ := last_of_singleton h
  cases he

/-- Between delimiters a source does not come to its end. -/
theorem Scans.rest_ne_nil {depth : Nat} {p : Place} {rest : List Char} (he : e.kind = .endOfInput)
    (h : Scans (.inside depth) p rest (us ++ [e])) : rest ≠ [] := by
  rintro rfl
  have hts : us ++ [e] = [⟨.error, ScanFault.unclosed.message, p⟩] := h.unique (.fault (pieceAt_nil depth))
  exact not_error_of_end he hts

theorem pieceAt_append {depth : Nat} {cs bs : List Char} {piece : Piece} (h : pieceAt depth cs = piece)
    (hfault : ∀ f, piece ≠ .fault f) (hlt : piece.length < cs.length) : pieceAt depth (cs ++ bs) = piece := by
  rw [← h]
  refine pieceAt_eq_of_take (by rwa [h]) ?_
  rw [h, List.take_append_of_le_length hlt]

theorem Scans.eq_nil_of_end {p : Place} {cs : List Char} (h : Scans .text p cs [e]) (he : e.kind = .endOfInput) :
    cs = [] := by
  cases h with
  | done => rfl
  | text => cases he
  | opening d => cases d <;> cases he
  | stray => cases he

theorem Scans.text_before {p : Place} {cs bs : List Char} (hne : cs ≠ []) (hcs : ∀ c ∈ cs, c ≠ '{')
    (hb : Scans .text (p.after cs) bs vs) :
    Scans .text p (cs ++ bs) ((⟨.text, String.ofList cs, p⟩ : Token).joinTo vs) := by
  generalize hq : p.after cs = q at hb
  cases hb with
  | done =>
    subst hq
    exact .text cs hne hcs (by simp) (.done _)
  | text ds _ hds hrest tail =>
    subst hq
    rw [← List.append_assoc, Token.joinTo, if_pos ⟨rfl, rfl⟩, Token.merge, ← String.ofList_append]
    refine .text (cs ++ ds) (by simp [hne]) ?_ hrest ?_
    · intro c hc
      rcases List.mem_append.1 hc with hc | hc
      · exact hcs c hc
      · exact hds c hc
    · rwa [Place.after_append]
  | opening d tail =>
    subst hq
    rw [Token.joinTo, if_neg fun h => d.openKind_ne.1 h.2]
    exact .text cs hne hcs (by cases d <;> simp [Delimiter.openText]) (.opening d tail)
  | stray h =>
    subst hq
    exact .text cs hne hcs (by simp) (.stray h)

/-- **A scan that comes to the end of its source goes on with what is put behind the source.** -/
theorem Scans.append {zone : Zone} {p : Place} {cs bs : List Char} (h : Scans zone p cs (us ++ [e]))
    (he : e.kind = .endOfInput) (hb : Scans .text (p.after cs) bs vs) : Scans zone p (cs ++ bs) (seam us vs) := by
  generalize hus : us ++ [e] = ts at h
  induction h generalizing us with
  | done p =>
    obtain ⟨rfl, -⟩ := last_of_singleton hus
    exact hb
  | @text p cs rest _ hne hcs hrest tail ih =>
    obtain ⟨us, rfl, rfl⟩ := uncons_of_end he (by decide : Kind.text ≠ .endOfInput) hus
    rw [Place.after_append] at hb
    rw [List.append_assoc]
    cases us with
    | nil =>
      obtain rfl := tail.eq_nil_of_end he
      exact hb.text_before hne hcs
    | cons u us =>
      refine .text cs hne hcs ?_ (ih hb rfl)
      cases rest with
      | nil => exact absurd (last_of_singleton (tail.unique (.done _))).1 (List.cons_ne_nil u us)
      | cons c rest => exact hrest
  | opening d tail ih =>
    obtain ⟨us, rfl, rfl⟩ := uncons_of_end he d.openKind_ne.2 hus
    rw [Place.after_append] at hb
    rw [List.append_assoc, seam_cons_of_ne d.openKind_ne.1]
    exact .opening d (ih hb rfl)
  | stray => exact (not_error_of_end he hus).elim
  | blank hp tail ih =>
    subst hus
    have := List.length_pos_iff.2 (tail.rest_ne_nil he)
    exact .blank (pieceAt_append hp (fun _ => Piece.noConfusion) (Nat.succ_lt_succ this)) (ih hb rfl)
  | @lexeme _ _ kind cs _ _ hp tail ih =>
    have hinner := (pieceAt_eq_lexeme hp).2.2.1
    obtain ⟨us, rfl, rfl⟩ := uncons_of_end he (by rintro rfl; cases hinner) hus
    have := List.length_pos_iff.2 (tail.rest_ne_nil he)
    rw [Place.after_append] at hb
    rw [seam_cons_of_ne (by rintro rfl; cases hinner), List.append_assoc]
    refine .lexeme cs ?_ (ih hb rfl)
    rw [← List.append_assoc]
    refine pieceAt_append hp (fun _ => Piece.noConfusion) ?_
    show cs.length < _
    rw [List.length_append]
    omega
  | closing d tail ih =>
    obtain ⟨us, rfl, rfl⟩ := uncons_of_end he d.closeKind_ne.2 hus
    rw [Place.after_append] at hb
    rw [List.append_assoc, seam_cons_of_ne d.closeKind_ne.1]
    exact .closing d (ih hb rfl)
  | fault => exact (not_error_of_end he hus).elim

end GoingOn
end Stencil
