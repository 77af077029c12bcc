import Stencil.Proofs.Scans
/-!
# The tags of a scan

Behind an opening delimiter a scan delivers what stands between the delimiters, up to one that closes, and goes on in the
text; or it ends there with an error.  So behind each opening delimiter of a scan that comes to the end of its source there
is a closing one, and no text before that.
-/
namespace Stencil

/-- A token that closes a tag or a variable. -/
def Token.Closes (t : Token) : Prop := t.kind = .tagEnd ∨ t.kind = .varEnd

def Token.Opens (t : Token) : Prop := t.kind = .tagStart ∨ t.kind = .varStart

theorem Delimiter.closes_closeKind (d : Delimiter) (text : String) (p : Place) : Token.Closes ⟨d.closeKind, text, p⟩ := by
  cases d
  · exact .inl rfl
  · exact .inr rfl

theorem Token.Opens.not_isInner {t : Token} (h : t.Opens) : t.kind.isInner = false := by
  rcases h with h | h <;> rw [h] <;> rfl

theorem Token.Closes.not_opens {t : Token} (h : t.Closes) : ¬t.Opens := by
  rintro (ho | ho) <;> rcases h with h | h <;> cases ho.symm.trans h

theorem Scans.between {depth : Nat} {p : Place} {cs : List Char} {ts : List Token} (h : Scans (.inside depth) p cs ts) :
    ∃ inner t rest, ts = inner ++ t :: rest ∧ (∀ u ∈ inner, u.kind.isInner = true) ∧
      (t.kind = .error ∧ rest = [] ∨ t.Closes ∧ ∃ q cs', Scans .text q cs' rest) := by
  generalize hzone : Zone.inside depth = zone at h
  induction h generalizing depth with
  | done | text | opening | stray => cases hzone
  | blank _ _ ih => exact ih rfl
  | lexeme _ hp _ ih =>
    obtain ⟨inner, t, rest, rfl, hinner, ht⟩ := ih rfl
    exact ⟨_ :: inner, t, rest, rfl, List.forall_mem_cons.2 ⟨(pieceAt_eq_lexeme hp).2.2.1, hinner⟩, ht⟩
  | closing d tail _ => exact ⟨[], _, _, rfl, by simp, .inr ⟨d.closes_closeKind _ _, _, _, tail⟩⟩
  | fault _ => exact ⟨[], _, [], rfl, by simp, .inl ⟨rfl, rfl⟩⟩

/-- Behind each opening delimiter among `ts` a scan stands between delimiters. -/
def OpensInside (ts : List Token) : Prop :=
  ∀ before o rest, ts = before ++ o :: rest → o.Opens → ∃ p cs, Scans (.inside 0) p cs rest

theorem OpensInside.cons {t : Token} {ts : List Token} (ht : t.Opens → ∃ p cs, Scans (.inside 0) p cs ts)
    (hts : OpensInside ts) : OpensInside (t :: ts)
  | [], _, _, h, ho => by
    obtain ⟨rfl, rfl⟩ := List.cons.inj h
    exact ht ho
  | _ :: before, o, rest, h, ho => hts before o rest (List.cons.inj h).2 ho

theorem OpensInside.nil : OpensInside [] := fun before _ _ h _ => by cases before <;> cases h

theorem Scans.opensInside {zone : Zone} {p : Place} {cs : List Char} {ts : List Token} (h : Scans zone p cs ts) :
    OpensInside ts := by
  induction h with
  | done | stray | fault => exact .cons (by rintro (h | h) <;> cases h) .nil
  | text _ _ _ _ _ ih => exact .cons (by rintro (h | h) <;> cases h) ih
  | opening d tail ih => exact .cons (fun _ => ⟨_, _, tail⟩) ih
  | blank _ _ ih => exact ih
  | lexeme _ hp _ ih =>
    refine .cons (fun ho => ?_) ih
    have := ho.not_isInner
    rw [(pieceAt_eq_lexeme hp).2.2.1] at this
    cases this
  | closing d _ ih => exact .cons (fun ho => absurd ho (d.closes_closeKind _ _).not_opens) ih

/-- Behind each opening delimiter of a scan that comes to its end stands a closing one, and before that no text. -/
theorem closing_behind_opener {source : String} {us before rest : List Token} {e o : Token}
    (hscan : scan source = us ++ [e]) (he : e.kind = .endOfInput) (hus : us = before ++ o :: rest) (ho : o.Opens) :
    ∃ inner t behind, rest = inner ++ t :: behind ∧ (∀ u ∈ inner, u.kind.isInner = true) ∧ t.Closes := by
  have hsplit : scan source = before ++ o :: (rest ++ [e]) := by rw [hscan, hus, List.append_assoc]; rfl
  obtain ⟨q, cs, hin⟩ := (scans_scan source).opensInside _ _ _ hsplit ho
  obtain ⟨inner, t, behind, hts, hinner, ht⟩ := hin.between
  rcases List.eq_nil_or_concat behind with rfl | ⟨behind, u, rfl⟩
  · -- the token that ends the piece would be the end of input
    obtain ⟨-, hte⟩ := List.append_inj' hts rfl
    obtain rfl : e = t := List.singleton_inj.1 hte
    rcases ht with ⟨hk, -⟩ | ⟨hk | hk, -⟩ <;> cases he.symm.trans hk
  · rcases ht with ⟨-, hnil⟩ | ⟨ht, -⟩
    · exact absurd hnil (by simp)
    · rw [List.concat_eq_append, ← List.cons_append, ← List.append_assoc] at hts
      obtain ⟨hrest, -⟩ := List.append_inj' hts rfl
      exact ⟨inner, t, behind, hrest, hinner, ht⟩

end Stencil
